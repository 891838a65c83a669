import Mathlib.Algebra.Order.BigOperators.Group.List
import Mathlib.Algebra.Order.Field.Basic
import Mathlib.Tactic.FieldSimp
import Mathlib.Tactic.Linarith
import Mathlib.Tactic.Positivity
import Mathlib.Tactic.Ring

/-!
# Squared deviations

The sum of the squared deviations of a list of numbers from their mean. Equal
numbers have none, and two lists with all of one below all of the other have more
together than each by itself.
-/

namespace MempoolObserver.Deviation

variable {K : Type*} [Field K] [LinearOrder K] [IsStrictOrderedRing K]

def mean (xs : List K) : K := xs.sum / xs.length

/-- The sum of the squared deviations from the mean. -/
def deviation (xs : List K) : K := (xs.map fun x => (x - mean xs) ^ 2).sum

omit [LinearOrder K] [IsStrictOrderedRing K] in
theorem sum_sq_sub (c : K) (xs : List K) : (xs.map fun x => (x - c) ^ 2).sum =
    (xs.map fun x => x * x).sum - 2 * c * xs.sum + xs.length * c ^ 2 := by
  induction xs with
  | nil => simp
  | cons x xs ih =>
    rw [List.map_cons, List.sum_cons, ih, List.map_cons, List.sum_cons, List.sum_cons,
      List.length_cons]
    push_cast
    ring

theorem length_pos {xs : List K} (some_ : xs ≠ []) : (0 : K) < xs.length := by
  exact_mod_cast List.length_pos_iff.mpr some_

/-- The deviation from running sums. -/
theorem deviation_eq (xs : List K) :
    deviation xs = (xs.map fun x => x * x).sum - xs.sum * xs.sum / xs.length := by
  by_cases empty : xs = []
  · subst empty
    simp [deviation]
  · have pos := length_pos empty
    rw [deviation, sum_sq_sub, mean]
    field_simp
    ring

theorem deviation_of_constant {xs : List K} {c : K} (constant : ∀ x ∈ xs, x = c) :
    deviation xs = 0 := by
  by_cases empty : xs = []
  · subst empty
    simp [deviation]
  · have pos := length_pos empty
    have replicated : xs = List.replicate xs.length c := List.eq_replicate_of_mem constant
    have center : mean xs = c := by
      rw [mean, replicated, List.sum_replicate, List.length_replicate, nsmul_eq_mul,
        mul_div_cancel_left₀ _ pos.ne']
    unfold deviation
    apply List.sum_eq_zero
    intro y member
    obtain ⟨x, listed, rfl⟩ := List.mem_map.mp member
    rw [center, constant x listed]
    ring

theorem mean_lt {xs : List K} {c : K} (some_ : xs ≠ []) (below : ∀ x ∈ xs, x < c) :
    mean xs < c := by
  rw [mean, div_lt_iff₀ (length_pos some_)]
  calc xs.sum = (xs.map id).sum := by rw [List.map_id]
    _ < (xs.map fun _ => c).sum := List.sum_lt_sum_of_ne_nil some_ _ _ below
    _ = c * xs.length := by rw [List.map_const', List.sum_replicate, nsmul_eq_mul, mul_comm]

theorem lt_mean {xs : List K} {c : K} (some_ : xs ≠ []) (above : ∀ x ∈ xs, c < x) :
    c < mean xs := by
  rw [mean, lt_div_iff₀ (length_pos some_)]
  calc c * xs.length = (xs.map fun _ => c).sum := by
        rw [List.map_const', List.sum_replicate, nsmul_eq_mul, mul_comm]
    _ < (xs.map id).sum := List.sum_lt_sum_of_ne_nil some_ _ _ above
    _ = xs.sum := by rw [List.map_id]

/-- Lists that lie apart deviate more together. -/
theorem deviation_append_lt {xs ys : List K} (someX : xs ≠ []) (someY : ys ≠ [])
    (apart : ∀ x ∈ xs, ∀ y ∈ ys, x < y) : deviation xs + deviation ys < deviation (xs ++ ys) := by
  have means : mean xs < mean ys :=
    lt_mean someY fun y inY => mean_lt someX fun x inX => apart x inX y inY
  have posX := length_pos someX
  have posY := length_pos someY
  rw [mean, mean, div_lt_div_iff₀ posX posY] at means
  rw [deviation_eq, deviation_eq, deviation_eq, List.map_append, List.sum_append, List.sum_append,
    List.length_append]
  push_cast
  generalize (xs.map fun x => x * x).sum = squaresX
  generalize (ys.map fun x => x * x).sum = squaresY
  generalize xs.sum = sumX at means ⊢
  generalize ys.sum = sumY at means ⊢
  generalize (xs.length : K) = a at means posX ⊢
  generalize (ys.length : K) = b at means posY ⊢
  -- The gain of the cut is a square over positive lengths, and not zero as the means differ.
  have gap : 0 < (sumY * a - sumX * b) ^ 2 / (a * b * (a + b)) := by
    have different : sumY * a - sumX * b ≠ 0 := by linarith
    positivity
  have identity : squaresX + squaresY - (sumX + sumY) * (sumX + sumY) / (a + b) -
      (squaresX - sumX * sumX / a + (squaresY - sumY * sumY / b)) =
        (sumY * a - sumX * b) ^ 2 / (a * b * (a + b)) := by
    have sum_pos : a + b ≠ 0 := by positivity
    field_simp
    ring
  linarith

end MempoolObserver.Deviation
