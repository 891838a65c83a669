import Mathlib.Algebra.Order.Ring.Defs
import Mathlib.Data.List.Sort

/-!
# Three-way comparisons

A sort is often driven by a function of two arguments whose sign says which of them
goes first. Comparisons are combined: taken of a key, reversed, or chained so that a
second one decides where the first sees a tie. If each part orders its keys then so
does the combination, and a stable sort by it does not depend on the order it was
given once no two different elements tie.

## Main results

* `Orders.lex`, `Orders.mul_sign` — the combinations
* `pairwise_sort` — the result of a sort is in order
* `sort_eq_of_perm` — it is the same for every order of the input
-/

namespace MempoolObserver.Comparison

variable {α β R : Type*} [Zero R] [LinearOrder R]
variable {cmp other : α → α → R} {a b c : α}

/-- The sign of the comparison is a total preorder, up to ties. -/
structure Orders (cmp : α → α → R) : Prop where
  swap : ∀ a b, cmp a b < 0 ↔ 0 < cmp b a
  trans : ∀ a b c, cmp a b ≤ 0 → cmp b c ≤ 0 → cmp a c ≤ 0

namespace Orders

theorem total (orders : Orders cmp) (a b : α) : cmp a b ≤ 0 ∨ cmp b a ≤ 0 := by
  rcases le_or_gt (cmp a b) 0 with before | after
  · exact .inl before
  · exact .inr ((orders.swap b a).mpr after).le

theorem le_iff (orders : Orders cmp) : cmp a b ≤ 0 ↔ 0 ≤ cmp b a := by
  rw [← not_lt, ← orders.swap b a, not_lt]

theorem eq_zero_comm (orders : Orders cmp) : cmp a b = 0 ↔ cmp b a = 0 := by
  rw [le_antisymm_iff, le_antisymm_iff, orders.le_iff, orders.le_iff (a := b), and_comm]

theorem lt_of_le_of_lt (orders : Orders cmp) (first : cmp a b ≤ 0) (second : cmp b c < 0) :
    cmp a c < 0 := by
  by_contra after
  have back : cmp c a ≤ 0 := orders.le_iff.mpr (not_lt.mp after)
  have closed : cmp c b ≤ 0 := orders.trans c a b back first
  exact absurd ((orders.swap b c).mp second) closed.not_gt

theorem lt_of_lt_of_le (orders : Orders cmp) (first : cmp a b < 0) (second : cmp b c ≤ 0) :
    cmp a c < 0 := by
  by_contra after
  have back : cmp c a ≤ 0 := orders.le_iff.mpr (not_lt.mp after)
  have closed : cmp b a ≤ 0 := orders.trans b c a second back
  exact absurd ((orders.swap a b).mp first) closed.not_gt

/-- Nothing comes before anything else. -/
theorem zero : Orders fun _ _ : α => (0 : R) where
  swap _ _ := Iff.rfl
  trans _ _ _ _ _ := le_rfl

/-- Ascending or descending. -/
theorem mul_sign {R : Type*} [Ring R] [LinearOrder R] [IsStrictOrderedRing R] {cmp : α → α → R}
    (orders : Orders cmp) {sign : R} (unit : sign = 1 ∨ sign = -1) :
    Orders fun a b => cmp a b * sign := by
  rcases unit with rfl | rfl
  · simpa only [mul_one] using orders
  · simp only [mul_neg, mul_one]
    refine ⟨?_, ?_⟩
    · intro a b
      rw [neg_lt_zero, neg_pos, orders.swap b a]
    · intro a b c first second
      rw [neg_nonpos, ← orders.le_iff] at first second ⊢
      exact orders.trans c b a second first

end Orders

/-- The second comparison decides where the first sees a tie. -/
def lex (cmp other : α → α → R) (a b : α) : R := if cmp a b ≠ 0 then cmp a b else other a b

theorem lex_nonpos_iff : lex cmp other a b ≤ 0 ↔ cmp a b < 0 ∨ cmp a b = 0 ∧ other a b ≤ 0 := by
  unfold lex
  split_ifs with differ
  · rw [lt_iff_le_and_ne]
    simp [differ]
  · simp [not_not.mp differ]

theorem lex_eq_zero_iff : lex cmp other a b = 0 ↔ cmp a b = 0 ∧ other a b = 0 := by
  unfold lex
  split_ifs with differ
  · simp [differ]
  · simp [not_not.mp differ]

theorem Orders.lex (orders : Orders cmp) (ties : Orders other) : Orders (lex cmp other) where
  swap a b := by
    unfold Comparison.lex
    by_cases tie : cmp a b = 0
    · rw [if_neg (not_not.mpr tie), if_neg (not_not.mpr (orders.eq_zero_comm.mp tie)), ties.swap]
    · rw [if_pos tie, if_pos (fun back => tie (orders.eq_zero_comm.mp back)), orders.swap]
  trans a b c first second := by
    rw [lex_nonpos_iff] at first second ⊢
    rcases first with before | ⟨tie, first⟩
    · left
      apply orders.lt_of_lt_of_le before
      rcases second with next | ⟨tie, _⟩
      · exact next.le
      · exact tie.le
    · rcases second with next | ⟨tie', second⟩
      · exact .inl (orders.lt_of_le_of_lt tie.le next)
      · right
        refine ⟨le_antisymm (orders.trans a b c tie.le tie'.le) ?_, ties.trans a b c first second⟩
        exact orders.le_iff.mp
          (orders.trans c b a (orders.eq_zero_comm.mp tie').le (orders.eq_zero_comm.mp tie).le)

/-! ### Sorting -/

/-- Stable sort by a comparison. -/
def sort (cmp : α → α → R) (list : List α) : List α := list.insertionSort fun a b => cmp a b ≤ 0

theorem sort_perm (cmp : α → α → R) (list : List α) : (sort cmp list).Perm list :=
  List.perm_insertionSort _ list

theorem pairwise_sort (orders : Orders cmp) (list : List α) :
    (sort cmp list).Pairwise fun a b => cmp a b ≤ 0 := by
  let Before (a b : α) : Prop := cmp a b ≤ 0
  have total : Std.Total Before := ⟨orders.total⟩
  have transitive : IsTrans α Before := ⟨orders.trans⟩
  exact List.pairwise_insertionSort Before list

/-- Where only equal elements tie, the order of the input does not matter. -/
theorem sort_eq_of_perm (orders : Orders cmp) (strict : ∀ a b, cmp a b = 0 → a = b)
    {list more : List α} (perm : list.Perm more) : sort cmp list = sort cmp more := by
  have same : (sort cmp list).Perm (sort cmp more) :=
    (sort_perm cmp list).trans (perm.trans (sort_perm cmp more).symm)
  refine same.eq_of_pairwise ?_ (pairwise_sort orders list) (pairwise_sort orders more)
  intro a b _ _ before after
  exact strict a b (le_antisymm before (orders.le_iff.mp after))

end MempoolObserver.Comparison
