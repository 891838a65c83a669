import Mathlib.Data.Finite.Defs
import Mathlib.Data.Fintype.EquivFin
import Mathlib.Data.Set.Finite.Basic
import Mathlib.Logic.Relation
import Mathlib.Order.WellFounded

/-!
# Cycles of a finite relation

In a relation with finitely many sources, read as parent to child, an element is
accessible — its ancestors can be peeled off layer by layer, from those without
parents — exactly when it is not on a cycle and not downstream of one.

## Main results

* `acc_iff_not_downstream` — what cannot be peeled off is downstream of a cycle
* `acc_of_acc_targets` — without the edges into such elements no cycle is left
* `acc_of_sources` — parents that have none themselves close no cycle
-/

namespace MempoolObserver.Cycles

open Relation

variable {α : Type*} {r s : α → α → Prop} {x y : α}

def OnCycle (r : α → α → Prop) (y : α) : Prop := TransGen r y y

/-- On a cycle or reachable from one. -/
def Downstream (r : α → α → Prop) (x : α) : Prop := ∃ y, OnCycle r y ∧ ReflTransGen r y x

theorem not_onCycle_of_acc (acc : Acc r x) : ¬ OnCycle r x := by
  intro cycle
  have closed := acc.transGen
  induction closed with
  | intro x _ ih => exact ih x cycle acc cycle

theorem acc_of_reflTransGen (path : ReflTransGen r y x) (acc : Acc r x) : Acc r y := by
  induction path with
  | refl => exact acc
  | tail _ step ih => exact ih (acc.inv step)

/-- With finitely many sources, what is not accessible has a cycle among its ancestors. -/
theorem downstream_of_not_acc (finite : {p | ∃ x, r p x}.Finite) (notAcc : ¬ Acc r x) :
    Downstream r x := by
  obtain ⟨chain, start, descends⟩ := not_acc_iff_exists_descending_chain.mp notAcc
  have back (m n : ℕ) (le : m ≤ n) : ReflTransGen r (chain n) (chain m) := by
    induction n, le using Nat.le_induction with
    | base => exact .refl
    | succ n _ ih => exact .head (descends n) ih
  -- the chain goes on for ever among finitely many sources, so it meets one twice
  have inside (n : ℕ) : chain (n + 1) ∈ {p | ∃ x, r p x} := ⟨chain n, descends n⟩
  obtain ⟨m, -, n, -, differ, same⟩ := Set.infinite_univ.exists_ne_map_eq_of_mapsTo
    (f := fun n => chain (n + 1)) (fun n _ => inside n) finite
  wlog before : m < n generalizing m n
  · exact this n m differ.symm same.symm (lt_of_le_of_ne (not_lt.mp before) differ.symm)
  refine ⟨chain (m + 1), ?_, start ▸ back 0 (m + 1) (Nat.zero_le _)⟩
  have round : TransGen r (chain (n + 1)) (chain (m + 1)) :=
    .head' (descends n) (back (m + 1) n before)
  rwa [← same] at round

theorem acc_iff_not_downstream (finite : {p | ∃ x, r p x}.Finite) :
    Acc r x ↔ ¬ Downstream r x := by
  constructor
  · rintro acc ⟨y, cycle, path⟩
    exact not_onCycle_of_acc (acc_of_reflTransGen path acc) cycle
  · intro clear
    by_contra notAcc
    exact clear (downstream_of_not_acc finite notAcc)

/-- Elements without a parent of their own can be added as parents. -/
theorem acc_of_sources (sources : ∀ p x, s p x → (∀ q, ¬ s q p) ∨ r p x) (acc : Acc r x) :
    Acc s x := by
  induction acc with
  | intro x _ ih =>
    refine ⟨x, fun p step => ?_⟩
    cases sources p x step with
    | inl source => exact ⟨p, fun q before => absurd before (source q)⟩
    | inr step' => exact ih p step'

/-- A relation whose targets are accessible in a larger one has no cycle. -/
theorem acc_of_acc_targets (targets : ∀ p x, s p x → r p x ∧ Acc r x) (x : α) : Acc s x := by
  have smaller : Subrelation s r := fun step => (targets _ _ step).1
  refine ⟨x, fun p step => smaller.accessible ?_⟩
  exact (targets p x step).2.inv (targets p x step).1

end MempoolObserver.Cycles
