import Mathlib.Data.List.Basic

/-!
# Runs of a step function

A system moves by actions, and an action that is not possible in a state has no
successor. A run is a list of actions that are possible one after the other. What
one step keeps a run keeps, and if a step needs a condition on the state and the
action, the run needs it at each of its steps.
-/

namespace MempoolObserver.Runs

variable {σ α : Type*} (step : σ → α → Option σ)

/-- The state after a list of actions. -/
def run (start : σ) : List α → Option σ
  | [] => some start
  | action :: actions => (step start action).bind fun next => run next actions

/-- The condition holds before each action of the run. -/
def Along (condition : σ → α → Prop) (start : σ) : List α → Prop
  | [] => True
  | action :: actions => condition start action ∧
      ∀ next, step start action = some next → Along condition next actions

variable {step} {condition : σ → α → Prop} {motive : σ → Prop} {start last : σ}
  {actions : List α}

instance Along.decidable [∀ s action, Decidable (condition s action)] (start : σ) :
    (actions : List α) → Decidable (Along step condition start actions)
  | [] => .isTrue trivial
  | action :: actions =>
    match stepped : step start action with
    | none => decidable_of_iff (condition start action) (by simp [Along, stepped])
    | some next =>
      have := Along.decidable next actions
      decidable_of_iff (condition start action ∧ Along step condition next actions)
        (by simp [Along, stepped])

theorem run_append (start : σ) (first second : List α) :
    run step start (first ++ second) =
      (run step start first).bind fun mid => run step mid second := by
  induction first generalizing start with
  | nil => rfl
  | cons action first ih =>
    simp only [List.cons_append, run, Option.bind_assoc]
    congr 1
    funext next
    exact ih next

theorem Along.append {first second : List α} (before : Along step condition start first)
    (after : ∀ mid, run step start first = some mid → Along step condition mid second) :
    Along step condition start (first ++ second) := by
  induction first generalizing start with
  | nil => exact after start rfl
  | cons action first ih =>
    refine ⟨before.1, fun next stepped => ih (before.2 next stepped) fun mid ran => ?_⟩
    exact after mid (by rw [run, stepped]; exact ran)

/-- What each step keeps under a condition, a run that meets it throughout keeps. -/
theorem run_induction_along
    (keeps : ∀ s action next, motive s → condition s action → step s action = some next →
      motive next)
    (base : motive start) (along : Along step condition start actions)
    (ran : run step start actions = some last) : motive last := by
  induction actions generalizing start with
  | nil =>
    obtain rfl : start = last := Option.some.inj ran
    exact base
  | cons action actions ih =>
    obtain ⟨next, stepped, rest⟩ := Option.bind_eq_some_iff.mp ran
    exact ih (keeps start action next base along.1 stepped) (along.2 next stepped) rest

/-- What each step keeps, a run keeps. -/
theorem run_induction
    (keeps : ∀ s action next, motive s → step s action = some next → motive next)
    (base : motive start) (ran : run step start actions = some last) : motive last := by
  induction actions generalizing start with
  | nil =>
    obtain rfl : start = last := Option.some.inj ran
    exact base
  | cons action actions ih =>
    obtain ⟨next, stepped, rest⟩ := Option.bind_eq_some_iff.mp ran
    exact ih (keeps start action next base stepped) rest

/-- What each step keeps of a relation to a value that the actions compute, a run keeps. -/
theorem run_foldl {τ : Type*} {compute : τ → α → τ} {relation : σ → τ → Prop} {value : τ}
    (keeps : ∀ s value action next, relation s value → step s action = some next →
      relation next (compute value action))
    (base : relation start value) (ran : run step start actions = some last) :
    relation last (actions.foldl compute value) := by
  induction actions generalizing start value with
  | nil =>
    obtain rfl : start = last := Option.some.inj ran
    exact base
  | cons action actions ih =>
    obtain ⟨next, stepped, rest⟩ := Option.bind_eq_some_iff.mp ran
    exact ih (keeps start value action next base stepped) rest

/-- A condition that follows from an invariant holds along every run that keeps the
invariant. -/
theorem Along.strengthen {stronger : σ → α → Prop}
    (keeps : ∀ s action next, motive s → condition s action → step s action = some next →
      motive next)
    (meets : ∀ s action, motive s → condition s action → stronger s action)
    (base : motive start) (along : Along step condition start actions) :
    Along step stronger start actions := by
  induction actions generalizing start with
  | nil => trivial
  | cons action actions ih =>
    refine ⟨meets start action base along.1, fun next stepped => ?_⟩
    exact ih (keeps start action next base along.1 stepped) (along.2 next stepped)

theorem Along.cons {action : α} {next : σ} (stepped : step start action = some next)
    (here : condition start action) (rest : Along step condition next actions) :
    Along step condition start (action :: actions) := by
  refine ⟨here, fun other same => ?_⟩
  obtain rfl : next = other := Option.some.inj (stepped.symm.trans same)
  exact rest

theorem Along.and {other : σ → α → Prop} (first : Along step condition start actions)
    (second : Along step other start actions) :
    Along step (fun s action => condition s action ∧ other s action) start actions := by
  induction actions generalizing start with
  | nil => trivial
  | cons action actions ih =>
    exact ⟨⟨first.1, second.1⟩,
      fun next stepped => ih (first.2 next stepped) (second.2 next stepped)⟩

/-- A condition on the actions alone holds along a run whose actions all meet it. -/
theorem along_of_forall_mem (meets : ∀ action ∈ actions, ∀ s, condition s action) :
    Along step condition start actions := by
  induction actions generalizing start with
  | nil => trivial
  | cons action actions ih =>
    refine ⟨meets action List.mem_cons_self start, fun next _ => ?_⟩
    exact ih fun other member => meets other (List.mem_cons_of_mem _ member)

end MempoolObserver.Runs
