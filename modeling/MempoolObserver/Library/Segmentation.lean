import Mathlib.Algebra.BigOperators.Group.List.Basic
import Mathlib.Algebra.Order.BigOperators.Group.List
import Mathlib.Data.Finset.Card
import Mathlib.Data.Finset.Lattice.Basic
import Mathlib.Data.Finset.Max
import Mathlib.Data.List.Chain
import Mathlib.Order.Basic
import Mathlib.Tactic.Linarith

/-!
# Segmentations of a sorted list

A segmentation cuts a list into consecutive non-empty classes, and a cost of a class
adds up over it. A cost separates when a class of one value is free and two classes
that lie apart cost less than their union. A cheapest segmentation of a sorted list
into no more classes than it has values then never ends two classes at one value.
-/

namespace MempoolObserver.Segments

variable {α K : Type*} [LinearOrder α] [Field K] [LinearOrder K] [IsStrictOrderedRing K]

/-- The classes, in order, make up the list and none of them is empty. -/
structure Segmentation (xs : List α) (classes : List (List α)) : Prop where
  flatten : classes.flatten = xs
  nonempty : ∀ c ∈ classes, c ≠ []

def total (cost : List α → K) (classes : List (List α)) : K := (classes.map cost).sum

def Constant (xs : List α) : Prop := ∀ x ∈ xs, ∀ y ∈ xs, x = y

def Apart (xs ys : List α) : Prop := ∀ x ∈ xs, ∀ y ∈ ys, x < y

/-- A class of one value is free, and apart classes cost less than their union. -/
structure Separating (cost : List α → K) : Prop where
  constant : ∀ xs, Constant xs → cost xs = 0
  append : ∀ xs ys, xs ≠ [] → ys ≠ [] → Apart xs ys → cost xs + cost ys < cost (xs ++ ys)

/-- No segmentation into as many classes is cheaper. -/
structure Optimal (cost : List α → K) (xs : List α) (classes : List (List α)) : Prop where
  segmentation : Segmentation xs classes
  least : ∀ others, Segmentation xs others → others.length = classes.length →
    total cost classes ≤ total cost others

section Totals

variable (cost : List α → K)

omit [LinearOrder α] [LinearOrder K] [IsStrictOrderedRing K] in
@[simp] theorem total_nil : total cost [] = 0 := rfl

omit [LinearOrder α] [LinearOrder K] [IsStrictOrderedRing K] in
@[simp] theorem total_cons (c : List α) (classes : List (List α)) :
    total cost (c :: classes) = cost c + total cost classes := by
  simp [total]

omit [LinearOrder α] [LinearOrder K] [IsStrictOrderedRing K] in
@[simp] theorem total_append (front back : List (List α)) :
    total cost (front ++ back) = total cost front + total cost back := by
  simp [total]

end Totals

omit [LinearOrder α] in
theorem Segmentation.concat {xs c : List α} {classes : List (List α)}
    (cut : Segmentation xs classes) (some_ : c ≠ []) : Segmentation (xs ++ c) (classes ++ [c]) where
  flatten := by rw [List.flatten_append, cut.flatten, List.flatten_singleton]
  nonempty := by
    intro d member
    rcases List.mem_append.mp member with inFront | isLast
    · exact cut.nonempty d inFront
    · rw [List.mem_singleton.mp isLast]
      exact some_

omit [LinearOrder α] in
/-- Replacing the classes of one stretch by others that make up the same stretch. -/
theorem Segmentation.replace {xs : List α} {front old new back : List (List α)}
    (cut : Segmentation xs (front ++ old ++ back)) (same : new.flatten = old.flatten)
    (nonempty : ∀ c ∈ new, c ≠ []) : Segmentation xs (front ++ new ++ back) where
  flatten := by
    rw [← cut.flatten]
    simp only [List.flatten_append, same]
  nonempty := by
    intro c member
    rcases List.mem_append.mp member with inner | inBack
    · rcases List.mem_append.mp inner with inFront | inNew
      · exact cut.nonempty c (by simp [inFront])
      · exact nonempty c inNew
    · exact cut.nonempty c (by simp [inBack])

omit [LinearOrder α] in
theorem Segmentation.length_le {xs : List α} {classes : List (List α)}
    (cut : Segmentation xs classes) : classes.length ≤ xs.length := by
  rw [← cut.flatten, List.length_flatten]
  have each : ∀ n ∈ classes.map List.length, 1 ≤ n := by
    intro n member
    obtain ⟨c, listed, rfl⟩ := List.mem_map.mp member
    exact List.length_pos_iff.mpr (cut.nonempty c listed)
  simpa using List.card_nsmul_le_sum (classes.map List.length) 1 each

/-- A sorted list falls into what is below a value and what is not. -/
theorem split_below {xs : List α} (sorted : xs.Pairwise (· ≤ ·)) (v : α) :
    ∃ ys zs, xs = ys ++ zs ∧ (∀ y ∈ ys, y < v) ∧ ∀ z ∈ zs, v ≤ z := by
  induction xs with
  | nil => exact ⟨[], [], rfl, by simp, by simp⟩
  | cons x xs ih =>
    by_cases below : x < v
    · obtain ⟨ys, zs, rfl, lower, upper⟩ := ih sorted.of_cons
      refine ⟨x :: ys, zs, rfl, ?_, upper⟩
      intro y member
      rcases List.mem_cons.mp member with rfl | later
      · exact below
      · exact lower y later
    · refine ⟨[], x :: xs, rfl, by simp, ?_⟩
      intro z member
      rcases List.mem_cons.mp member with rfl | later
      · exact not_lt.mp below
      · exact (not_lt.mp below).trans (List.rel_of_pairwise_cons sorted later)

/-- A sorted list of more than one value can be cut between two of them. -/
theorem exists_cut {xs : List α} (sorted : xs.Pairwise (· ≤ ·)) (varied : ¬ Constant xs) :
    ∃ ys zs, xs = ys ++ zs ∧ ys ≠ [] ∧ zs ≠ [] ∧ Apart ys zs := by
  have two : ∃ x ∈ xs, ∃ y ∈ xs, x < y := by
    by_contra none
    push Not at none
    apply varied
    intro x inX y inY
    exact le_antisymm (none y inY x inX) (none x inX y inY)
  obtain ⟨x, inX, y, inY, less⟩ := two
  obtain ⟨ys, zs, parts, lower, upper⟩ := split_below sorted y
  have apart : Apart ys zs := fun a inA b inB => (lower a inA).trans_le (upper b inB)
  rw [parts] at inX inY
  refine ⟨ys, zs, parts, ?_, ?_, apart⟩
  · intro empty
    rw [empty, List.nil_append] at inX
    exact absurd (upper x inX) (not_le.mpr less)
  · intro empty
    rw [empty, List.append_nil] at inY
    exact lt_irrefl y (lower y inY)

/-- Classes of one value each number at least as many as the values. -/
theorem card_le_of_constant {classes : List (List α)} (each : ∀ c ∈ classes, Constant c) :
    classes.flatten.toFinset.card ≤ classes.length := by
  induction classes with
  | nil => simp
  | cons c classes ih =>
    have single : c.toFinset.card ≤ 1 := by
      apply Finset.card_le_one.mpr
      intro x inX y inY
      exact each c List.mem_cons_self x (List.mem_toFinset.mp inX) y (List.mem_toFinset.mp inY)
    have rest := ih fun d member => each d (List.mem_cons_of_mem c member)
    rw [List.flatten_cons, List.toFinset_append, List.length_cons]
    have union := Finset.card_union_le c.toFinset classes.flatten.toFinset
    omega

theorem Segmentation.sorted_class {xs : List α} {classes : List (List α)}
    (cut : Segmentation xs classes) (sorted : xs.Pairwise (· ≤ ·)) {c : List α}
    (member : c ∈ classes) : c.Pairwise (· ≤ ·) := by
  rw [← cut.flatten] at sorted
  exact (List.pairwise_flatten.mp sorted).1 c member

theorem Segmentation.le_of_neighbours {xs a b : List α} {front back : List (List α)}
    (cut : Segmentation xs (front ++ [a, b] ++ back)) (sorted : xs.Pairwise (· ≤ ·)) :
    ∀ x ∈ a, ∀ y ∈ b, x ≤ y := by
  rw [← cut.flatten] at sorted
  have across := (List.pairwise_flatten.mp sorted).2
  rw [List.append_assoc] at across
  have later := (List.pairwise_append.mp across).2.1
  exact List.rel_of_pairwise_cons later (by simp)

/-- Fewer classes than values leave a class to cut, which makes them cheaper. -/
theorem Segmentation.exists_finer {cost : List α → K} (separating : Separating cost)
    {xs : List α} (sorted : xs.Pairwise (· ≤ ·)) {classes : List (List α)}
    (cut : Segmentation xs classes) (few : classes.length < xs.toFinset.card) :
    ∃ finer, Segmentation xs finer ∧ finer.length = classes.length + 1 ∧
      total cost finer < total cost classes := by
  -- Fewer classes than values: some class holds two different ones and can be cut between them.
  have varied : ∃ c ∈ classes, ¬ Constant c := by
    by_contra none
    push Not at none
    have most := card_le_of_constant none
    rw [cut.flatten] at most
    omega
  obtain ⟨c, member, variedC⟩ := varied
  obtain ⟨ys, zs, rfl, someY, someZ, apart⟩ := exists_cut (cut.sorted_class sorted member) variedC
  obtain ⟨front, back, rfl⟩ := List.append_of_mem member
  have whole : Segmentation xs (front ++ [ys ++ zs] ++ back) := by simpa using cut
  refine ⟨front ++ [ys, zs] ++ back, ?_, ?_, ?_⟩
  · apply whole.replace
    · simp
    · intro d inNew
      rcases List.mem_pair.mp inNew with rfl | rfl
      · exact someY
      · exact someZ
  · simp only [List.length_append, List.length_cons, List.length_nil]
    omega
  · have cheaper := separating.append ys zs someY someZ apart
    simp only [total_append, total_cons, total_nil]
    linarith

/-- Up to the number of values, more classes are cheaper. -/
theorem Segmentation.exists_length {cost : List α → K} (separating : Separating cost)
    {xs : List α} (sorted : xs.Pairwise (· ≤ ·)) {classes : List (List α)}
    (cut : Segmentation xs classes) {k : ℕ} (few : classes.length < k)
    (values : k ≤ xs.toFinset.card) :
    ∃ finer, Segmentation xs finer ∧ finer.length = k ∧ total cost finer < total cost classes := by
  induction k, Nat.succ_le_of_lt few using Nat.le_induction with
  | base =>
    exact cut.exists_finer separating sorted (by omega)
  | succ k more ih =>
    obtain ⟨finer, cutFiner, length, cheaper⟩ := ih more (by omega)
    obtain ⟨finest, cutFinest, lengthFinest, cheapest⟩ :=
      cutFiner.exists_finer separating sorted (by omega)
    exact ⟨finest, cutFinest, by omega, cheapest.trans cheaper⟩

/-- What is as cheap as every segmentation into `k` classes, and has no more of
them, has exactly `k` and is optimal. -/
theorem optimal_of_le {cost : List α → K} (separating : Separating cost) {xs : List α}
    (sorted : xs.Pairwise (· ≤ ·)) {k : ℕ} (values : k ≤ xs.toFinset.card)
    {classes : List (List α)} (cut : Segmentation xs classes) (few : classes.length ≤ k)
    (least : ∀ others, Segmentation xs others → others.length = k →
      total cost classes ≤ total cost others) : Optimal cost xs classes ∧ classes.length = k := by
  have length : classes.length = k := by
    by_contra different
    obtain ⟨finer, cutFiner, lengthFiner, cheaper⟩ :=
      cut.exists_length separating sorted (by omega : classes.length < k) values
    exact absurd (least finer cutFiner lengthFiner) (not_le.mpr cheaper)
  exact ⟨⟨cut, fun others cutOthers same => least others cutOthers (same.trans length)⟩, length⟩

omit [LinearOrder α] in
theorem Constant.of_eq {xs : List α} {v : α} (all : ∀ x ∈ xs, x = v) : Constant xs := by
  intro x inX y inY
  rw [all x inX, all y inY]

/-- The exchange step. Two neighbouring classes that end at one value could be cut
differently and cost less. -/
theorem Optimal.ends_later {cost : List α → K} (separating : Separating cost) {xs : List α}
    (sorted : xs.Pairwise (· ≤ ·)) {front back : List (List α)} {a b : List α}
    (best : Optimal cost xs (front ++ [a, b] ++ back))
    (values : (front ++ [a, b] ++ back).length ≤ xs.toFinset.card) :
    ∃ y ∈ b, ∀ x ∈ a, x < y := by
  by_contra none
  push Not at none
  have cut := best.segmentation
  have sortedA : a.Pairwise (· ≤ ·) := cut.sorted_class sorted (by simp)
  have someA : a ≠ [] := cut.nonempty a (by simp)
  have someB : b ≠ [] := cut.nonempty b (by simp)
  -- The shared value is the largest of the first class and the only one of the second.
  have between := cut.le_of_neighbours sorted
  have nonemptyA : a.toFinset.Nonempty := List.toFinset_nonempty_iff a |>.mpr someA
  obtain ⟨v, inA, top⟩ := a.toFinset.exists_max_image id nonemptyA
  have largest : ∀ x ∈ a, x ≤ v := fun x member => top x (List.mem_toFinset.mpr member)
  have allB : ∀ y ∈ b, y = v := by
    intro y member
    obtain ⟨x, inX, below⟩ := none y member
    exact le_antisymm (below.trans (largest x inX)) (between v (List.mem_toFinset.mp inA) y member)
  obtain ⟨a₁, a₂, parts, lower, upper⟩ := split_below sortedA v
  have allA₂ : ∀ z ∈ a₂, z = v := by
    intro z member
    have inWhole : z ∈ a := by simp [parts, member]
    exact le_antisymm (largest z inWhole) (upper z member)
  have free₂ : cost a₂ = 0 := separating.constant a₂ (Constant.of_eq allA₂)
  have freeB : cost b = 0 := separating.constant b (Constant.of_eq allB)
  have freeJoin : cost (a₂ ++ b) = 0 :=
    separating.constant (a₂ ++ b) (Constant.of_eq (List.forall_mem_append.mpr ⟨allA₂, allB⟩))
  by_cases empty : a₁ = []
  · -- One value fills both: their union costs as much, and frees a class to cut another.
    rw [empty, List.nil_append] at parts
    subst parts
    have joined : Segmentation xs (front ++ [a ++ b] ++ back) := by
      apply cut.replace
      · simp
      · simp [someA]
    have fewer : (front ++ [a ++ b] ++ back).length < xs.toFinset.card := by
      simp only [List.length_append, List.length_cons, List.length_nil] at values ⊢
      omega
    obtain ⟨finer, cutFiner, length, cheaper⟩ := joined.exists_finer separating sorted fewer
    have same : finer.length = (front ++ [a, b] ++ back).length := by
      rw [length]
      simp only [List.length_append, List.length_cons, List.length_nil]
      omega
    have least := best.least finer cutFiner same
    simp only [total_append, total_cons, total_nil] at least cheaper
    linarith
  · -- The copies of the shared value move over to the second class.
    have some₂ : a₂ ≠ [] := by
      rintro rfl
      have inside := List.mem_toFinset.mp inA
      rw [parts, List.append_nil] at inside
      exact lt_irrefl v (lower v inside)
    have moved : Segmentation xs (front ++ [a₁, a₂ ++ b] ++ back) := by
      apply cut.replace
      · simp [parts]
      · simp [empty, some₂]
    have cheaper := separating.append a₁ a₂ empty some₂ fun x inX y inY =>
      (lower x inX).trans_le (upper y inY)
    rw [← parts] at cheaper
    have least := best.least _ moved (by simp)
    simp only [total_append, total_cons, total_nil] at least
    linarith

/-! ### The maxima of the classes -/

theorem max?_eq_getLast? {c : List α} (sorted : c.Pairwise (· ≤ ·)) : c.max? = c.getLast? := by
  rcases List.eq_nil_or_concat' c with rfl | ⟨front, v, rfl⟩
  · rfl
  · rw [List.getLast?_concat, List.max?_eq_some_iff]
    constructor
    · simp
    · intro x member
      rcases List.mem_append.mp member with inFront | isLast
      · exact (List.pairwise_append.mp sorted).2.2 x inFront v (by simp)
      · exact (List.mem_singleton.mp isLast).le

omit [LinearOrder α] in
theorem Segmentation.getLast?_last {xs c : List α} {front : List (List α)}
    (cut : Segmentation xs (front ++ [c])) : c.getLast? = xs.getLast? := by
  have some_ : c ≠ [] := cut.nonempty c (by simp)
  rw [← cut.flatten, List.flatten_append, List.flatten_singleton, List.getLast?_append,
    List.getLast?_eq_some_getLast some_, Option.some_or]

theorem Segmentation.exists_maxima {xs : List α} {classes : List (List α)}
    (cut : Segmentation xs classes) : ∃ tops : List α, tops.map some = classes.map List.max? := by
  have each := cut.nonempty
  clear cut
  induction classes with
  | nil => exact ⟨[], rfl⟩
  | cons c classes ih =>
    obtain ⟨tops, maxima⟩ := ih fun d member => each d (List.mem_cons_of_mem c member)
    obtain ⟨v, top⟩ : ∃ v, c.max? = some v := by
      apply Option.ne_none_iff_exists'.mp
      rw [Ne, List.max?_eq_none_iff]
      exact each c List.mem_cons_self
    exact ⟨v :: tops, by rw [List.map_cons, List.map_cons, maxima, top]⟩

/-- In a cheapest segmentation into no more classes than values the maxima ascend. -/
theorem Optimal.maxima_ascending {cost : List α → K} (separating : Separating cost) {xs : List α}
    (sorted : xs.Pairwise (· ≤ ·)) {classes : List (List α)} (best : Optimal cost xs classes)
    (values : classes.length ≤ xs.toFinset.card) {tops : List α}
    (maxima : tops.map some = classes.map List.max?) : tops.Pairwise (· < ·) := by
  rw [← List.isChain_iff_pairwise, List.isChain_iff_forall_rel_of_append_cons_cons]
  intro u v lower upper shape
  rw [shape, List.map_append, List.map_cons, List.map_cons] at maxima
  obtain ⟨front, rest, rfl, -, restMaxima⟩ := List.map_eq_append_iff.mp maxima.symm
  obtain ⟨a, rest, rfl, topA, restMaxima⟩ := List.map_eq_cons_iff.mp restMaxima
  obtain ⟨b, back, rfl, topB, -⟩ := List.map_eq_cons_iff.mp restMaxima
  have neighbours : front ++ a :: b :: back = front ++ [a, b] ++ back := by simp
  rw [neighbours] at best values
  obtain ⟨y, inB, above⟩ := best.ends_later separating sorted values
  calc u < y := above u (List.max?_eq_some_iff.mp topA).1
    _ ≤ v := (List.max?_eq_some_iff.mp topB).2 y inB

end MempoolObserver.Segments
