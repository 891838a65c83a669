import Mathlib.Algebra.Order.Floor.Ring
import Mathlib.Data.List.GetD
import Mathlib.Data.List.Sort
import Mathlib.Data.Rat.Floor
import MempoolObserver.Library.Deviation
import MempoolObserver.Library.Segmentation

/-!
# Colour tiers

Values are coloured by tiers between ascending breaks. The breaks are the maxima of
natural classes, found by the Fisher-Jenks dynamic programme over exact numbers; when
there are too few values for it they are interpolated quantiles.

## Main definitions

* `jenksTable`, `jenksReads`, `jenksBreaks` — the programme, its backtrack, its breaks
* `scale` — a colour ramp with its breaks
-/

namespace MempoolObserver

open Deviation Segments

inductive ColorTierMethod
  /-- Equal count per tier. -/
  | quantile
  /-- Fisher-Jenks natural breaks. -/
  | jenks
  deriving DecidableEq, Repr

def defaultMethod : ColorTierMethod := .jenks

def tierColors : List String :=
  ["#4d5a6b", "#79604a", "#a05e17", "#cc7a1c", "#f7931a", "#ffc46b"]

/-- Linear-interpolated quantile over sorted-asc data. -/
def quantile (sorted : List ℚ) (p : ℚ) : ℚ :=
  let n := sorted.length
  if n = 0 then 0
  else if n = 1 then sorted.getD 0 0
  else
    let pos := p * (n - 1)
    let base := ⌊pos⌋
    let rest := pos - base
    let lo := sorted.getD base.toNat 0
    let hi := (sorted[base.toNat + 1]?).getD lo
    lo + (hi - lo) * rest

/-- `nBreaks` equal-count breaks. -/
def quantileBreaks (sorted : List ℚ) (nBreaks : ℕ) : List ℚ :=
  (List.range' 1 nBreaks).map fun i : ℕ => quantile sorted ((i : ℚ) / ((nBreaks : ℚ) + 1))

/-- Number of distinct values in a sorted-asc array. -/
def distinctCount (sorted : List ℚ) : ℕ :=
  (sorted.zip sorted.tail).foldl (fun d pair => if pair.2 ≠ pair.1 then d + 1 else d)
    (if sorted.length = 0 then 0 else 1)

/-! ### The dynamic programme -/

/-- The entries of `lower` and `variance` at one place. -/
structure JenksCell where
  lower : ℕ
  variance : WithTop ℚ
  deriving DecidableEq

/-- Both tables, by row and column. -/
structure JenksTable where
  cell : ℕ → ℕ → JenksCell

def JenksTable.set (table : JenksTable) (l j : ℕ) (cell : JenksCell) : JenksTable :=
  ⟨fun l' j' => if l' = l ∧ j' = j then cell else table.cell l' j'⟩

/-- The first row is free, whatever the number of classes. -/
def jenksSeed (nClasses : ℕ) : JenksTable :=
  ⟨fun l j => if l = 1 ∧ 1 ≤ j ∧ j ≤ nClasses then ⟨1, 0⟩ else ⟨0, ⊤⟩⟩

/-- The body of the loop over `j`. A tie goes to the later candidate. -/
def jenksChoose (l i3 : ℕ) (v : ℚ) (table : JenksTable) (j : ℕ) : JenksTable :=
  let variance := v + (table.cell (i3 - 1) (j - 1)).variance
  if variance ≤ (table.cell l j).variance then table.set l j ⟨i3, variance⟩ else table

/-- The running sums of the loop over `m`. -/
structure JenksSums where
  s1 : ℚ
  s2 : ℚ
  w : ℕ
  table : JenksTable

def JenksSums.v (sums : JenksSums) : ℚ := sums.s2 - sums.s1 * sums.s1 / sums.w

/-- The body of the loop over `m`: the last class starts at `i3`. -/
def jenksExtend (sorted : List ℚ) (nClasses l : ℕ) (sums : JenksSums) (m : ℕ) : JenksSums :=
  let i3 := l - m + 1
  let val := sorted.getD (i3 - 1) 0
  let sums := ⟨sums.s1 + val, sums.s2 + val * val, sums.w + 1, sums.table⟩
  let i4 := i3 - 1
  if i4 ≠ 0 then
    ⟨sums.s1, sums.s2, sums.w,
      (List.range' 2 (nClasses - 1)).foldl (jenksChoose l i3 sums.v) sums.table⟩
  else sums

/-- The body of the loop over `l`. -/
def jenksRow (sorted : List ℚ) (nClasses : ℕ) (table : JenksTable) (l : ℕ) : JenksTable :=
  let sums := (List.range' 1 l).foldl (jenksExtend sorted nClasses l) ⟨0, 0, 0, table⟩
  sums.table.set l 1 ⟨1, sums.v⟩

def jenksTable (sorted : List ℚ) (nClasses : ℕ) : JenksTable :=
  (List.range' 2 (sorted.length - 1)).foldl (jenksRow sorted nClasses) (jenksSeed nClasses)

/-- One turn of the backtrack: where it reads the table, and what it reads there. -/
structure JenksRead where
  k : ℕ
  count : ℕ
  start : ℕ
  deriving DecidableEq, Repr

/-- The index into the list that the break is taken from: `Math.max(0, start - 2)`. -/
def JenksRead.id (read : JenksRead) : ℕ := read.start - 2

/-- `lower[k]?.[count]`, absent outside the table of `n + 1` rows. -/
def lowerAt (table : JenksTable) (n nClasses k count : ℕ) : Option ℕ :=
  if k ≤ n ∧ count ≤ nClasses then some (table.cell k count).lower else none

/-- The backtrack from row `k`, for the counts from the given one down to `2`. -/
def jenksReads (table : JenksTable) (n nClasses : ℕ) : ℕ → ℕ → List JenksRead
  | c + 2, k =>
    let start := (lowerAt table n nClasses k (c + 2)).getD 1
    ⟨k, c + 2, start⟩ :: jenksReads table n nClasses (c + 1) (max 1 (start - 1))
  | _, _ => []

/-- Fisher-Jenks natural breaks: the `nClasses - 1` inner boundaries. The backtrack
finds them from the last to the first. -/
def jenksBreaks (sorted : List ℚ) (nClasses : ℕ) : List ℚ :=
  let n := sorted.length
  if n ≤ nClasses ∨ distinctCount sorted < nClasses then quantileBreaks sorted (nClasses - 1)
  else
    ((jenksReads (jenksTable sorted nClasses) n nClasses nClasses n).map
      fun read => sorted.getD read.id 0).reverse

/-! ### The scale -/

/-- `Math.round`. -/
def mathRound (x : ℚ) : ℤ := ⌊x + 1 / 2⌋

/-- `n` colours sub-sampled from `tierColors`, keeping both ends. -/
def ramp (n : ℕ) : List String :=
  let last := tierColors.length - 1
  if n ≤ 1 then [tierColors.getD 4 ""]
  else if tierColors.length ≤ n then tierColors
  else
    (List.range n).map fun i : ℕ =>
      tierColors.getD (mathRound ((i : ℚ) * last / ((n : ℚ) - 1))).toNat ""

structure ColorScale where
  colors : List String
  /-- Tier `i` holds `v <= breaks[i]`, last tier the rest. -/
  breaks : List ℚ
  deriving DecidableEq

/-- `vals.filter(Number.isFinite)` sorted; `none` is a number that is not finite. -/
def sortedFinite (vals : List (Option ℚ)) : List ℚ := vals.reduceOption.insertionSort (· ≤ ·)

/-- Colour scale for `vals`, using at most one tier per distinct value. -/
def scale (vals : List (Option ℚ)) (method : ColorTierMethod) : ColorScale :=
  let sorted := sortedFinite vals
  let nClasses := min tierColors.length (max 1 (distinctCount sorted))
  let colors := ramp nClasses
  if nClasses = 1 then ⟨colors, []⟩
  else
    let inner :=
      match method with
      | .jenks => jenksBreaks sorted nClasses
      | .quantile => quantileBreaks sorted (nClasses - 1)
    ⟨colors, inner.insertionSort (· ≤ ·)⟩

/-- Tier a value lands in: breaks are upper-inclusive bounds. -/
def tierOf (breaks : List ℚ) (v : ℚ) : ℕ := breaks.findIdx fun b => decide (v ≤ b)

/-! ### Counting values -/

theorem foldl_distinct {x : ℚ} {xs : List ℚ} (ascending : (x :: xs).Pairwise (· ≤ ·)) (d : ℕ) :
    ((x :: xs).zip xs).foldl (fun d pair => if pair.2 ≠ pair.1 then d + 1 else d) (d + 1) =
      d + (x :: xs).toFinset.card := by
  induction xs generalizing x d with
  | nil => simp
  | cons y ys ih =>
    -- A zipped pair is a neighbour pair: it counts once exactly when the value changes.
    rw [List.zip_cons_cons, List.foldl_cons]
    by_cases same : y = x
    · subst same
      rw [if_neg (not_not.mpr rfl), ih ascending.of_cons]
      simp
    · have below : x < y := lt_of_le_of_ne (List.rel_of_pairwise_cons ascending (by simp))
        (Ne.symm same)
      -- The list ascends, so a value that changes here does not come back later.
      have fresh : x ∉ (y :: ys).toFinset := by
        intro member
        rcases List.mem_cons.mp (List.mem_toFinset.mp member) with rfl | later
        · exact same rfl
        · exact absurd (List.rel_of_pairwise_cons ascending.of_cons later) (not_le.mpr below)
      rw [if_pos same, ih ascending.of_cons, List.toFinset_cons (a := x),
        Finset.card_insert_of_notMem fresh]
      omega

theorem distinctCount_eq {sorted : List ℚ} (ascending : sorted.Pairwise (· ≤ ·)) :
    distinctCount sorted = sorted.toFinset.card := by
  rcases sorted with - | ⟨x, xs⟩
  · rfl
  · simpa [distinctCount] using foldl_distinct ascending 0

end MempoolObserver
