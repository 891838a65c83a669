import Mathlib
import MempoolObserver.Library.Runs

/-!
# Measures along runs

The largest value a measure takes along a run, and the systems whose size is that mark: one
that grows to the current value of the measure when it has to, and never shrinks. A measure
that some actions pay for bounds how often they occur.
-/

namespace MempoolObserver.Runs

variable {σ α : Type*} (step : σ → α → Option σ)

/-- The largest value of the measure in the states of a run. -/
def highWater (measure : σ → ℕ) (start : σ) : List α → ℕ
  | [] => measure start
  | action :: actions =>
    max (measure start) (((step start action).map fun next =>
      highWater measure next actions).getD 0)

variable {step} {motive : σ → Prop} {start last : σ} {actions : List α}

/-- A size that is always enough, and grows only to what is measured. -/
theorem size_eq_highWater (size measure : σ → ℕ)
    (bounded : ∀ s, motive s → measure s ≤ size s)
    (grows : ∀ s action next, motive s → step s action = some next →
      motive next ∧ size next = max (size s) (measure next))
    (base : motive start) (ran : run step start actions = some last) :
    size last = max (size start) (highWater step measure start actions) := by
  induction actions generalizing start with
  | nil =>
    obtain rfl : start = last := Option.some.inj ran
    rw [highWater, max_eq_left (bounded start base)]
  | cons action actions ih =>
    obtain ⟨next, stepped, rest⟩ := Option.bind_eq_some_iff.mp ran
    obtain ⟨held, grown⟩ := grows start action next base stepped
    -- the mark of the rest is at least the measure of the next state
    have first : measure next ≤ highWater step measure next actions := by
      cases actions with
      | nil => exact le_rfl
      | cons _ _ => exact le_max_left _ _
    rw [ih held rest, grown, highWater, stepped, Option.map_some, Option.getD_some, max_assoc,
      max_eq_right first, ← max_assoc, max_eq_left (bounded start base)]

/-- A measure that the counted actions lower and no other raises bounds their number. -/
theorem countP_le_of_descent {counted : α → Bool} (measure : σ → ℕ)
    (descends : ∀ s action next, motive s → step s action = some next →
      motive next ∧ measure next + (if counted action then 1 else 0) ≤ measure s)
    (base : motive start) (ran : run step start actions = some last) :
    measure last + actions.countP counted ≤ measure start := by
  induction actions generalizing start with
  | nil =>
    obtain rfl : start = last := Option.some.inj ran
    exact le_rfl
  | cons action actions ih =>
    obtain ⟨next, stepped, rest⟩ := Option.bind_eq_some_iff.mp ran
    obtain ⟨held, lower⟩ := descends start action next base stepped
    rw [List.countP_cons]
    exact (Nat.add_assoc _ _ _).symm.trans_le ((Nat.add_le_add_right (ih held rest) _).trans lower)

/-- What the counted actions use up one by one, and nothing else changes. -/
theorem countP_eq_of_conserved {counted : α → Bool} (measure : σ → ℕ)
    (conserves : ∀ s action next, motive s → step s action = some next →
      motive next ∧ measure next + (if counted action then 1 else 0) = measure s)
    (base : motive start) (ran : run step start actions = some last) :
    measure last + actions.countP counted = measure start := by
  induction actions generalizing start with
  | nil =>
    obtain rfl : start = last := Option.some.inj ran
    rfl
  | cons action actions ih =>
    obtain ⟨next, stepped, rest⟩ := Option.bind_eq_some_iff.mp ran
    obtain ⟨held, used⟩ := conserves start action next base stepped
    rw [List.countP_cons, ← Nat.add_assoc, ih held rest, used]

end MempoolObserver.Runs

namespace MempoolObserver.Measures

variable {α : Type*} (weight : α → ℕ) {list : List α} {index : ℕ} {a : α}

/-- Overwriting one element changes a sum of weights by that element. -/
theorem sum_map_set (b : α) (located : list[index]? = some a) :
    ((list.set index b).map weight).sum + weight a = (list.map weight).sum + weight b := by
  induction list generalizing index with
  | nil => cases located
  | cons head list ih =>
    cases index with
    | zero =>
      obtain rfl : head = a := Option.some.inj located
      simp only [List.set_cons_zero, List.map_cons, List.sum_cons]
      omega
    | succ index =>
      have rest := ih located
      simp only [List.set_cons_succ, List.map_cons, List.sum_cons]
      omega

theorem sum_map_eraseIdx (located : list[index]? = some a) :
    ((list.eraseIdx index).map weight).sum + weight a = (list.map weight).sum := by
  induction list generalizing index with
  | nil => cases located
  | cons head list ih =>
    cases index with
    | zero =>
      obtain rfl : head = a := Option.some.inj located
      simp only [List.eraseIdx_cons_zero, List.map_cons, List.sum_cons]
      omega
    | succ index =>
      have rest := ih located
      simp only [List.eraseIdx_cons_succ, List.map_cons, List.sum_cons]
      omega

end MempoolObserver.Measures
