import MempoolObserver.Web.ColorTiers

/-!
# The table of the natural classes

Row by row the programme keeps in each place the cheapest way to cut off the last class
of a front of the values.

## Main results

* `jenksTable_filled` — each place of the table holds its cheapest candidate
-/

namespace MempoolObserver

open Deviation Segments

/-! ### Filling the table -/

/-- The values from index `i` up to `l`. -/
def segment (sorted : List ℚ) (i l : ℕ) : List ℚ := (sorted.take l).drop i

theorem length_segment {sorted : List ℚ} {i l : ℕ} (inside : l ≤ sorted.length) :
    (segment sorted i l).length = l - i := by
  rw [segment, List.length_drop, List.length_take, min_eq_left inside]

theorem segment_pred {sorted : List ℚ} {i l : ℕ} (before : i < l) (inside : l ≤ sorted.length) :
    segment sorted i l = sorted.getD i 0 :: segment sorted (i + 1) l := by
  have index : i < (sorted.take l).length := by
    rw [List.length_take, min_eq_left inside]
    exact before
  rw [segment, List.drop_eq_getElem_cons index, List.getElem_take, segment,
    List.getD_eq_getElem sorted 0 (by omega)]

/-- What it costs to end the first `i` values with a class and start the last class,
up to `l`, after them. -/
def candidate (sorted : List ℚ) (table : JenksTable) (l j i : ℕ) : JenksCell :=
  ⟨i + 1, deviation (segment sorted i l) + (table.cell i (j - 1)).variance⟩

@[simp] theorem JenksTable.cell_set (table : JenksTable) (l j : ℕ) (cell : JenksCell) (a b : ℕ) :
    (table.set l j cell).cell a b = if a = l ∧ b = j then cell else table.cell a b := rfl

theorem cell_jenksChoose (l i3 : ℕ) (v : ℚ) (table : JenksTable) (j a b : ℕ) :
    (jenksChoose l i3 v table j).cell a b =
      if a = l ∧ b = j ∧
          v + (table.cell (i3 - 1) (j - 1)).variance ≤ (table.cell l j).variance then
        ⟨i3, v + (table.cell (i3 - 1) (j - 1)).variance⟩
      else table.cell a b := by
  by_cases cheap : v + (table.cell (i3 - 1) (j - 1)).variance ≤ (table.cell l j).variance
  · simp [jenksChoose, cheap]
  · simp [jenksChoose, cheap]

/-- The loop over `j` offers each column of the row one more candidate. -/
theorem cell_foldl_jenksChoose {l i3 : ℕ} {v : ℚ} (earlier : i3 - 1 ≠ l) {js : List ℕ}
    (nodup : js.Nodup) (table : JenksTable) (a b : ℕ) :
    (js.foldl (jenksChoose l i3 v) table).cell a b =
      if a = l ∧ b ∈ js ∧
          v + (table.cell (i3 - 1) (b - 1)).variance ≤ (table.cell l b).variance then
        ⟨i3, v + (table.cell (i3 - 1) (b - 1)).variance⟩
      else table.cell a b := by
  induction js generalizing table with
  | nil => simp
  | cons j js ih =>
    have fresh : j ∉ js := (List.nodup_cons.mp nodup).1
    -- The row being relaxed differs from the row read, so earlier choices leave the reads alone.
    have read : ∀ c, (jenksChoose l i3 v table j).cell (i3 - 1) c = table.cell (i3 - 1) c := by
      intro c
      simp [cell_jenksChoose, earlier]
    rw [List.foldl_cons, ih (List.nodup_cons.mp nodup).2, read, cell_jenksChoose, cell_jenksChoose]
    by_cases column : b = j
    · subst column
      simp [fresh]
    · simp [column]

/-- The running sums over the values from index `i` up to `l`. -/
structure JenksSums.Over (sums : JenksSums) (xs : List ℚ) : Prop where
  s1 : sums.s1 = xs.sum
  s2 : sums.s2 = (xs.map fun x => x * x).sum
  w : sums.w = xs.length

theorem JenksSums.Over.v_eq {sums : JenksSums} {xs : List ℚ} (sound : sums.Over xs) :
    sums.v = deviation xs := by
  rw [deviation_eq, JenksSums.v, sound.s1, sound.s2, sound.w]

/-- The row under construction, once every candidate from index `i` on was offered. -/
structure JenksOffered (sorted : List ℚ) (nClasses l : ℕ) (before : JenksTable) (i : ℕ)
    (table : JenksTable) : Prop where
  frame : ∀ a b, a ≠ l ∨ b < 2 ∨ nClasses < b → table.cell a b = before.cell a b
  least : ∀ i' j, 1 ≤ i' → i ≤ i' → i' < l → 2 ≤ j → j ≤ nClasses →
    (table.cell l j).variance ≤ (candidate sorted before l j i').variance
  attained : ∀ j, 2 ≤ j → j ≤ nClasses → (table.cell l j).variance = ⊤ ∨
    ∃ i', 1 ≤ i' ∧ i' < l ∧ table.cell l j = candidate sorted before l j i'

section Row

variable {sorted : List ℚ} {nClasses l : ℕ} {before table : JenksTable}

theorem JenksOffered.start
    (unfilled : ∀ j, 2 ≤ j → j ≤ nClasses → (before.cell l j).variance = ⊤) :
    JenksOffered sorted nClasses l before l before where
  frame _ _ _ := rfl
  least := by
    intro i' j _ after inside
    omega
  attained j two most := Or.inl (unfilled j two most)

theorem JenksOffered.choose {i : ℕ} (offered : JenksOffered sorted nClasses l before (i + 1) table)
    (some_ : 1 ≤ i) (inside : i < l) :
    JenksOffered sorted nClasses l before i
      ((List.range' 2 (nClasses - 1)).foldl
        (jenksChoose l (i + 1) (deviation (segment sorted i l))) table) := by
  have earlier : i + 1 - 1 ≠ l := by omega
  have column : ∀ {j}, j ∈ List.range' 2 (nClasses - 1) ↔ 2 ≤ j ∧ j ≤ nClasses := by
    intro j
    rw [List.mem_range'_1]
    omega
  have cells := cell_foldl_jenksChoose earlier
    (v := deviation (segment sorted i l)) (List.nodup_range' (s := 2) (n := nClasses - 1)) table
  have row : ∀ j, 2 ≤ j → j ≤ nClasses →
      ((List.range' 2 (nClasses - 1)).foldl
        (jenksChoose l (i + 1) (deviation (segment sorted i l))) table).cell l j =
          if (candidate sorted before l j i).variance ≤ (table.cell l j).variance then
            candidate sorted before l j i
          else table.cell l j := by
    intro j two most
    rw [cells, Nat.add_sub_cancel, offered.frame i (j - 1) (Or.inl inside.ne)]
    by_cases cheaper : (candidate sorted before l j i).variance ≤ (table.cell l j).variance
    · rw [if_pos cheaper, if_pos ⟨rfl, column.mpr ⟨two, most⟩, cheaper⟩]
      rfl
    · rw [if_neg cheaper, if_neg fun given => cheaper given.2.2]
  constructor
  case frame =>
    intro a b outside
    rw [cells, if_neg]
    · exact offered.frame a b outside
    · rintro ⟨here, member, -⟩
      have bounds := column.mp member
      omega
  case least =>
    intro i' j positive after inside' two most
    rw [row j two most]
    split_ifs with cheaper
    · rcases Nat.eq_or_lt_of_le after with rfl | later
      · exact le_rfl
      · exact cheaper.trans (offered.least i' j positive later inside' two most)
    · rcases Nat.eq_or_lt_of_le after with rfl | later
      · exact (not_le.mp cheaper).le
      · exact offered.least i' j positive later inside' two most
  case attained =>
    intro j two most
    rw [row j two most]
    split_ifs
    · exact Or.inr ⟨i, some_, inside, rfl⟩
    · exact offered.attained j two most

/-- After `m` turns of the loop over `m`, the last `m` candidates were offered. -/
theorem jenksExtend_offers (inside : l ≤ sorted.length)
    (unfilled : ∀ j, 2 ≤ j → j ≤ nClasses → (before.cell l j).variance = ⊤) {m : ℕ} (most : m ≤ l) :
    let sums := (List.range' 1 m).foldl (jenksExtend sorted nClasses l) ⟨0, 0, 0, before⟩
    sums.Over (segment sorted (l - m) l) ∧
      JenksOffered sorted nClasses l before (l - m) sums.table := by
  -- Induction on the number of extensions, from the last value of the row leftwards.
  induction m with
  | zero =>
    have empty : segment sorted (l - 0) l = [] := by
      rw [← List.length_eq_zero_iff, length_segment inside]
      omega
    rw [empty]
    exact ⟨⟨rfl, rfl, rfl⟩, JenksOffered.start unfilled⟩
  | succ m ih =>
    obtain ⟨sound, offered⟩ := ih (by omega)
    rw [List.range'_1_concat, List.foldl_append, List.foldl_cons, List.foldl_nil]
    generalize (List.range' 1 m).foldl (jenksExtend sorted nClasses l) ⟨0, 0, 0, before⟩ = sums
      at sound offered
    have start : l - (1 + m) + 1 = l - (m + 1) + 1 := by omega
    have next : l - m = l - (m + 1) + 1 := by omega
    rw [next] at sound offered
    have wider : JenksSums.Over ⟨sums.s1 + sorted.getD (l - (m + 1)) 0,
        sums.s2 + sorted.getD (l - (m + 1)) 0 * sorted.getD (l - (m + 1)) 0, sums.w + 1,
        sums.table⟩ (segment sorted (l - (m + 1)) l) := by
      rw [segment_pred (by omega : l - (m + 1) < l) inside]
      constructor
      · rw [List.sum_cons, ← sound.s1]
        exact add_comm _ _
      · rw [List.map_cons, List.sum_cons, ← sound.s2]
        exact add_comm _ _
      · rw [List.length_cons, ← sound.w]
    unfold jenksExtend
    simp only [start, Nat.add_sub_cancel, wider.v_eq]
    split_ifs with more
    · have chosen := offered.choose (by omega) (by omega : l - (m + 1) < l)
      exact ⟨⟨wider.s1, wider.s2, wider.w⟩, chosen⟩
    · -- The whole of the first `l` values in one class is no candidate here.
      have bound : l - (m + 1) = 0 := by omega
      refine ⟨wider, offered.frame, ?_, offered.attained⟩
      intro i' j positive _
      exact offered.least i' j positive (by omega)

end Row

/-- The table once the rows up to `L` are filled: each place holds the cheapest
candidate, and the first row costs nothing in any column. -/
structure JenksFilled (sorted : List ℚ) (nClasses L : ℕ) (table : JenksTable) : Prop where
  first : ∀ j, 1 ≤ j → j ≤ nClasses → table.cell 1 j = ⟨1, 0⟩
  single : ∀ l, 2 ≤ l → l ≤ L → (table.cell l 1).variance = deviation (segment sorted 0 l)
  attained : ∀ l j, 2 ≤ l → l ≤ L → 2 ≤ j → j ≤ nClasses →
    ∃ i, 1 ≤ i ∧ i < l ∧ table.cell l j = candidate sorted table l j i
  least : ∀ l j i, 1 ≤ i → i < l → l ≤ L → 2 ≤ j → j ≤ nClasses →
    (table.cell l j).variance ≤ (candidate sorted table l j i).variance
  unfilled : ∀ l j, 2 ≤ l → L < l → (table.cell l j).variance = ⊤

section Filled

variable {sorted : List ℚ} {nClasses L : ℕ} {table : JenksTable}

theorem jenksSeed_filled : JenksFilled sorted nClasses 1 (jenksSeed nClasses) where
  first j one most := by simp [jenksSeed, one, most]
  single l two most := by omega
  attained l j two most := by omega
  least l j i positive before most := by omega
  unfilled l j two _ := by
    have later : l ≠ 1 := by omega
    simp [jenksSeed, later]

theorem JenksFilled.finite (filled : JenksFilled sorted nClasses L table) {l j : ℕ}
    (positive : 1 ≤ l) (inside : l ≤ L) (one : 1 ≤ j) (most : j ≤ nClasses) :
    (table.cell l j).variance ≠ ⊤ := by
  induction j, one using Nat.le_induction generalizing l with
  | base =>
    rcases Nat.eq_or_lt_of_le positive with rfl | later
    · simp [filled.first 1 le_rfl most]
    · simp [filled.single l later inside]
  | succ j one ih =>
    rcases Nat.eq_or_lt_of_le positive with rfl | later
    · simp [filled.first (j + 1) (by omega) most]
    · obtain ⟨i, positive', before, chosen⟩ :=
        filled.attained l (j + 1) later inside (by omega) most
      rw [chosen, candidate, Nat.add_sub_cancel]
      exact WithTop.add_ne_top.mpr
        ⟨WithTop.coe_ne_top, ih positive' (by omega) (by omega)⟩

/-- A row with every candidate offered, and its first column set, is the next row. -/
theorem JenksFilled.extend (filled : JenksFilled sorted nClasses L table) (positive : 1 ≤ L)
    {row : JenksTable} (offered : JenksOffered sorted nClasses (L + 1) table 0 row)
    {cell : JenksCell} (whole : cell.variance = deviation (segment sorted 0 (L + 1))) :
    JenksFilled sorted nClasses (L + 1) (row.set (L + 1) 1 cell) := by
  -- Only row L + 1 changes; the cells a candidate reads lie in earlier rows.
  have other : ∀ a b, a ≠ L + 1 → (row.set (L + 1) 1 cell).cell a b = table.cell a b := by
    intro a b elsewhere
    simp [elsewhere, offered.frame a b (Or.inl elsewhere)]
  have new : ∀ j, 2 ≤ j → (row.set (L + 1) 1 cell).cell (L + 1) j = row.cell (L + 1) j := by
    intro j two
    have column : j ≠ 1 := by omega
    simp [column]
  have same : ∀ l j i, i < L + 1 → candidate sorted (row.set (L + 1) 1 cell) l j i =
      candidate sorted table l j i := by
    intro l j i before
    rw [candidate, candidate, other i (j - 1) before.ne]
  constructor
  case first =>
    intro j one most
    rw [other 1 j (by omega), filled.first j one most]
  case single =>
    intro l two most
    rcases Nat.eq_or_lt_of_le most with rfl | earlier
    · simp [whole]
    · rw [other l 1 earlier.ne, filled.single l two (by omega)]
  case attained =>
    intro l j two most twoJ mostJ
    rcases Nat.eq_or_lt_of_le most with rfl | earlier
    · rw [new j twoJ]
      rcases offered.attained j twoJ mostJ with infinite | ⟨i, positive', before, chosen⟩
      · have bound := offered.least L j positive (by omega) (by omega) twoJ mostJ
        rw [infinite, top_le_iff, candidate] at bound
        exact absurd bound (WithTop.add_ne_top.mpr
          ⟨WithTop.coe_ne_top, filled.finite positive le_rfl (by omega) (by omega)⟩)
      · exact ⟨i, positive', before, by rw [chosen, same _ _ _ before]⟩
    · rw [other l j earlier.ne]
      obtain ⟨i, positive', before, chosen⟩ := filled.attained l j two (by omega) twoJ mostJ
      exact ⟨i, positive', before, by rw [chosen, same _ _ _ (by omega)]⟩
  case least =>
    intro l j i positive' before most twoJ mostJ
    rw [same l j i (by omega)]
    rcases Nat.eq_or_lt_of_le most with rfl | earlier
    · rw [new j twoJ]
      exact offered.least i j positive' (by omega) before twoJ mostJ
    · rw [other l j earlier.ne]
      exact filled.least l j i positive' before (by omega) twoJ mostJ
  case unfilled =>
    intro l j two later
    rw [other l j (by omega)]
    exact filled.unfilled l j two (by omega)

/-- One turn of the loop over `l` fills the next row. -/
theorem JenksFilled.row (filled : JenksFilled sorted nClasses L table) (positive : 1 ≤ L)
    (inside : L + 1 ≤ sorted.length) :
    JenksFilled sorted nClasses (L + 1) (jenksRow sorted nClasses table (L + 1)) := by
  obtain ⟨sound, offered⟩ := jenksExtend_offers inside
    (fun j two _ => filled.unfilled (L + 1) j (by omega) (by omega)) le_rfl
  rw [Nat.sub_self] at sound offered
  exact filled.extend positive offered (congrArg _ sound.v_eq)

theorem jenksTable_filled (some_ : sorted ≠ []) :
    JenksFilled sorted nClasses sorted.length (jenksTable sorted nClasses) := by
  have positive : 1 ≤ sorted.length := List.length_pos_iff.mpr some_
  -- The outer loop fills the rows one by one, starting from the seed.
  have rows : ∀ r, 1 + r ≤ sorted.length → JenksFilled sorted nClasses (1 + r)
      ((List.range' 2 r).foldl (jenksRow sorted nClasses) (jenksSeed nClasses)) := by
    intro r
    induction r with
    | zero => exact fun _ => jenksSeed_filled
    | succ r ih =>
      intro inside
      rw [List.range'_1_concat, List.foldl_append, List.foldl_cons, List.foldl_nil]
      rw [show 2 + r = 1 + r + 1 by omega]
      exact (ih (by omega)).row (by omega) (by omega)
  have all := rows (sorted.length - 1) (by omega)
  rw [Nat.add_sub_cancel' positive] at all
  exact all

end Filled

/-! ### What the table says -/

theorem deviation_separating : Separating (deviation : List ℚ → ℚ) where
  constant := by
    intro xs constant
    rcases xs with - | ⟨x, xs⟩
    · simp [deviation]
    · exact deviation_of_constant fun y member => constant y member x List.mem_cons_self
  append xs ys someX someY apart := deviation_append_lt someX someY apart

theorem take_append_segment {sorted : List ℚ} {i l : ℕ} (before : i ≤ l) :
    sorted.take i ++ segment sorted i l = sorted.take l := by
  have split := List.take_append_drop i (sorted.take l)
  rw [List.take_take, min_eq_left before] at split
  exact split

/-- The turn of the backtrack reads inside the tables, and its clamps do nothing. -/
structure JenksRead.Inside (n nClasses : ℕ) (read : JenksRead) : Prop where
  row : read.k ≤ n
  column : read.count ≤ nClasses
  start : 2 ≤ read.start
  before : read.start ≤ read.k

theorem JenksRead.Inside.id_lt {n nClasses : ℕ} {read : JenksRead}
    (inside : read.Inside n nClasses) : read.id < n := by
  have row := inside.row
  have start := inside.start
  have before := inside.before
  unfold JenksRead.id
  omega

section Table

variable {sorted : List ℚ} {nClasses : ℕ} {table : JenksTable}

/-- What the backtrack finds is the maxima of all classes but the last. -/
structure JenksTraced (sorted : List ℚ) (nClasses : ℕ) (table : JenksTable) (j l : ℕ)
    (classes : List (List ℚ)) : Prop where
  inside : ∀ read ∈ jenksReads table sorted.length nClasses j l,
    read.Inside sorted.length nClasses
  breaks : ((jenksReads table sorted.length nClasses j l).map
    fun read => sorted.getD read.id 0).reverse.map some = classes.dropLast.map List.getLast?

theorem JenksTraced.concat {i j l : ℕ} {classes : List (List ℚ)}
    (traced : JenksTraced sorted nClasses table (j + 1) i classes)
    (cut : Segmentation (sorted.take i) classes) (length : classes.length = j + 1)
    (chosen : (table.cell l (j + 2)).lower = i + 1) (positive : 1 ≤ i) (before : i < l)
    (inside : l ≤ sorted.length) (most : j + 2 ≤ nClasses) (c : List ℚ) :
    JenksTraced sorted nClasses table (j + 2) l (classes ++ [c]) := by
  have read : lowerAt table sorted.length nClasses l (j + 2) = some (i + 1) := by
    rw [lowerAt, if_pos ⟨inside, most⟩, chosen]
  have next : max 1 (i + 1 - 1) = i := by omega
  have reads : jenksReads table sorted.length nClasses (j + 2) l =
      ⟨l, j + 2, i + 1⟩ :: jenksReads table sorted.length nClasses (j + 1) i := by
    rw [jenksReads, read, Option.getD_some, next]
  constructor
  · intro turn member
    rw [reads] at member
    rcases List.mem_cons.mp member with rfl | later
    · exact ⟨inside, most, by simpa using positive, before⟩
    · exact traced.inside turn later
  · rw [reads, List.map_cons, List.reverse_cons, List.map_append, traced.breaks,
      List.dropLast_concat]
    rcases List.eq_nil_or_concat' classes with rfl | ⟨front, d, rfl⟩
    · simp at length
    · have last := cut.getLast?_last
      have index : i - 1 < sorted.length := by omega
      have place : (⟨l, j + 2, i + 1⟩ : JenksRead).id = i - 1 := rfl
      rw [List.getLast?_take, if_neg (by omega), List.getElem?_eq_getElem index,
        Option.some_or] at last
      simp only [List.dropLast_concat, List.map_append, List.map_cons, List.map_nil, last, place,
        List.getD_eq_getElem sorted 0 index]

theorem deviation_take_one (sorted : List ℚ) : deviation (sorted.take 1) = 0 := by
  apply deviation_separating.constant
  intro x inX y inY
  rcases sorted with - | ⟨z, rest⟩
  · simp at inX
  · rw [List.take_succ_cons, List.take_zero, List.mem_singleton] at inX inY
    rw [inX, inY]

theorem JenksFilled.variance_one (filled : JenksFilled sorted nClasses sorted.length table)
    {l : ℕ} (positive : 1 ≤ l) (inside : l ≤ sorted.length) (some_ : 1 ≤ nClasses) :
    (table.cell l 1).variance = deviation (sorted.take l) := by
  rcases Nat.eq_or_lt_of_le positive with rfl | later
  · rw [filled.first 1 le_rfl some_, deviation_take_one, WithTop.coe_zero]
  · exact filled.single l later inside

theorem segmentation_whole {l : ℕ} (positive : 1 ≤ l) (inside : l ≤ sorted.length) :
    Segmentation (sorted.take l) [sorted.take l] := by
  have length : (sorted.take l).length = l := by
    rw [List.length_take, min_eq_left inside]
  have some_ : sorted.take l ≠ [] := by
    apply List.length_pos_iff.mp
    omega
  constructor
  · simp
  · simpa using some_

/-- Each entry is the total of a segmentation into no more classes than its column.
When it has as many, the backtrack from there finds its maxima. -/
theorem JenksFilled.exists_segmentation
    (filled : JenksFilled sorted nClasses sorted.length table) {l j : ℕ} (positive : 1 ≤ l)
    (inside : l ≤ sorted.length) (one : 1 ≤ j) (most : j ≤ nClasses) :
    ∃ classes, Segmentation (sorted.take l) classes ∧ classes.length ≤ j ∧
      (table.cell l j).variance = total deviation classes ∧
      (classes.length = j → JenksTraced sorted nClasses table j l classes) := by
  induction j, one using Nat.le_induction generalizing l with
  | base =>
    refine ⟨[sorted.take l], segmentation_whole positive inside, le_rfl, ?_, ?_⟩
    · rw [filled.variance_one positive inside most, total_cons, total_nil, add_zero]
    · exact fun _ => ⟨by simp [jenksReads], by simp [jenksReads]⟩
  | succ j one ih =>
    rcases Nat.eq_or_lt_of_le positive with rfl | later
    · -- The first row is free: one class, whatever the column.
      refine ⟨[sorted.take 1], segmentation_whole positive inside, by simp, ?_, ?_⟩
      · rw [filled.first (j + 1) (by omega) most, total_cons, total_nil, deviation_take_one,
          add_zero, WithTop.coe_zero]
      · intro length
        simp at length
        omega
    -- The cell was attained at some i: the classes up to i, with the segment after it.
    · obtain ⟨i, some_, before, chosen⟩ :=
        filled.attained l (j + 1) later inside (by omega) most
      obtain ⟨classes, cut, few, cost, traced⟩ := ih some_ (by omega) (by omega)
      have someC : segment sorted i l ≠ [] := by
        apply List.length_pos_iff.mp
        rw [length_segment inside]
        omega
      have longer := cut.concat someC
      rw [take_append_segment before.le] at longer
      refine ⟨classes ++ [segment sorted i l], longer, ?_, ?_, ?_⟩
      · rw [List.length_append, List.length_singleton]
        omega
      · rw [chosen, candidate, Nat.add_sub_cancel, cost, total_append, total_cons, total_nil,
          add_zero, add_comm (total deviation classes), WithTop.coe_add]
      · intro length
        rw [List.length_append, List.length_singleton] at length
        obtain ⟨c, rfl⟩ := Nat.exists_eq_add_of_le' one
        have lower := congrArg JenksCell.lower chosen
        exact (traced (by omega)).concat cut (by omega) lower some_ before inside most _

/-- No segmentation into as many classes as the column is cheaper than the entry. -/
theorem JenksFilled.le_total (filled : JenksFilled sorted nClasses sorted.length table)
    {l j : ℕ} (positive : 1 ≤ l) (inside : l ≤ sorted.length) (one : 1 ≤ j) (most : j ≤ nClasses)
    {classes : List (List ℚ)} (cut : Segmentation (sorted.take l) classes)
    (length : classes.length = j) : (table.cell l j).variance ≤ total deviation classes := by
  -- Induction on the number of classes: the last class is split off and the front is the cell
  -- before.
  induction j, one using Nat.le_induction generalizing l classes with
  | base =>
    obtain ⟨c, rfl⟩ := List.length_eq_one_iff.mp length
    have same : c = sorted.take l := by simpa using cut.flatten
    rw [filled.variance_one positive inside most, total_cons, total_nil, add_zero, same]
  | succ j one ih =>
    rcases List.eq_nil_or_concat' classes with rfl | ⟨front, c, rfl⟩
    · simp at length
    · have lengthFront : front.length = j := by simpa using length
      have parts : front.flatten ++ c = sorted.take l := by simpa using cut.flatten
      have someC : c ≠ [] := cut.nonempty c (by simp)
      have shorter : Segmentation front.flatten front :=
        ⟨rfl, fun d member => cut.nonempty d (by simp [member])⟩
      obtain ⟨i, size⟩ : ∃ i, i = front.flatten.length := ⟨_, rfl⟩
      have sizes := congrArg List.length parts
      rw [List.length_append, ← size, List.length_take, min_eq_left inside] at sizes
      have positiveC := List.length_pos_iff.mpr someC
      have least := shorter.length_le
      have split : front.flatten = sorted.take i ∧ c = segment sorted i l := by
        apply List.append_inj
        · rw [parts, take_append_segment (by omega)]
        · rw [List.length_take, min_eq_left (by omega), size]
      rw [split.1] at shorter
      calc (table.cell l (j + 1)).variance
          ≤ (candidate sorted table l (j + 1) i).variance :=
            filled.least l (j + 1) i (by omega) (by omega) inside (by omega) most
        _ = deviation c + (table.cell i j).variance := by
            rw [candidate, Nat.add_sub_cancel, split.2]
        _ ≤ deviation c + total deviation front := by
            gcongr
            exact ih (by omega) (by omega) (by omega) shorter lengthFront
        _ = (total deviation (front ++ [c]) : ℚ) := by
            rw [total_append, total_cons, total_nil, add_zero, add_comm, WithTop.coe_add]

end Table

end MempoolObserver
