import Mathlib.Data.List.Basic

/-!
# Groupings that are overwritten group by group

A grouping says which elements are kept together. Storing a group puts its
members together and dissolves every group it meets: whoever was in one of those
and is not in the new group is in none afterwards. A sequence of groups is stored
one after the other.

## Main results

* `regroupAll_self_iff_lastKept` — an element is still grouped at the end iff no
  group after the last one with it meets that one
* `Renews.trans`, `renews_regroup` — what becomes of a group is a new one of
  fitting elements, or nothing
-/

namespace MempoolObserver.Regrouping

variable {α : Type*}

/-- Storing a group. -/
def regroup (grouped : α → α → Prop) (group : List α) (a b : α) : Prop :=
  a ∈ group ∧ b ∈ group ∨ grouped a b ∧ ∀ c ∈ group, ¬ grouped a c

/-- Storing one group after the other. -/
def regroupAll (grouped : α → α → Prop) (groups : List (List α)) : α → α → Prop :=
  groups.foldl regroup grouped

/-- Whoever is grouped with anyone is grouped. -/
def SelfGrouped (grouped : α → α → Prop) : Prop := ∀ a b, grouped a b → grouped a a

variable {grouped : α → α → Prop} {group : List α} {groups : List (List α)} {a : α}

theorem SelfGrouped.regroup (closed : SelfGrouped grouped) (group : List α) :
    SelfGrouped (regroup grouped group) := by
  rintro a b (⟨member, -⟩ | ⟨together, apart⟩)
  · exact .inl ⟨member, member⟩
  · exact .inr ⟨closed a b together, apart⟩

theorem SelfGrouped.regroupAll (closed : SelfGrouped grouped) (groups : List (List α)) :
    SelfGrouped (regroupAll grouped groups) := by
  induction groups generalizing grouped with
  | nil => exact closed
  | cons group groups ih => exact ih (closed.regroup group)

/-- A member of the stored group is grouped with its members. -/
theorem regroup_of_mem (closed : SelfGrouped grouped) (member : a ∈ group) (b : α) :
    regroup grouped group a b ↔ b ∈ group := by
  constructor
  · rintro (⟨-, inGroup⟩ | ⟨together, apart⟩)
    · exact inGroup
    · exact absurd (closed a b together) (apart a member)
  · intro inGroup
    exact .inl ⟨member, inGroup⟩

/-- A group that neither has the element nor meets its group leaves it alone. -/
theorem regroup_of_apart (outside : a ∉ group) (apart : ∀ c ∈ group, ¬ grouped a c) (b : α) :
    regroup grouped group a b ↔ grouped a b := by
  constructor
  · rintro (⟨inGroup, -⟩ | ⟨together, -⟩)
    · exact absurd inGroup outside
    · exact together
  · intro together
    exact .inr ⟨together, apart⟩

/-- Groups that neither have the element nor meet its group leave it alone. -/
theorem regroupAll_of_apart (outside : ∀ group ∈ groups, a ∉ group)
    (apart : ∀ group ∈ groups, ∀ c ∈ group, ¬ grouped a c) (b : α) :
    regroupAll grouped groups a b ↔ grouped a b := by
  induction groups generalizing grouped with
  | nil => exact Iff.rfl
  | cons group groups ih =>
    have same := regroup_of_apart (outside group (by simp)) (apart group (by simp))
    refine (ih (fun later member => outside later (by simp [member])) ?_).trans (same b)
    intro later member c inLater together
    exact apart later (by simp [member]) c inLater ((same c).mp together)

/-- Once its group is dissolved, only a group with the element brings it back. -/
theorem not_regroupAll (outside : ∀ group ∈ groups, a ∉ group) (alone : ∀ b, ¬ grouped a b)
    (b : α) : ¬ regroupAll grouped groups a b := by
  rw [regroupAll_of_apart outside fun _ _ c _ => alone c]
  exact alone b

/-- A group stays until another one meets it. -/
theorem regroupAll_self_iff_disjoint (members : ∀ b, grouped a b ↔ b ∈ group)
    (outside : ∀ later ∈ groups, a ∉ later) (member : a ∈ group) :
    regroupAll grouped groups a a ↔ ∀ later ∈ groups, group.Disjoint later := by
  induction groups generalizing grouped with
  | nil => simpa [regroupAll] using (members a).mpr member
  | cons next groups ih =>
    have outsideLater : ∀ later ∈ groups, a ∉ later :=
      fun later inGroups => outside later (List.mem_cons_of_mem _ inGroups)
    rw [List.forall_mem_cons]
    -- A later group apart from this one leaves it alone; one that meets it takes its members away.
    by_cases apart : group.Disjoint next
    · have same (b : α) : regroup grouped next a b ↔ b ∈ group := by
        have unmet : ∀ c ∈ next, ¬ grouped a c :=
          fun c inNext together => apart ((members c).mp together) inNext
        exact (regroup_of_apart (outside next (by simp)) unmet b).trans (members b)
      exact (ih same outsideLater).trans (by simp [apart])
    -- Left without a group, the element is in none ever after, as no later one names it.
    · have alone (b : α) : ¬ regroup grouped next a b := by
        rintro (⟨inNext, -⟩ | ⟨-, unmet⟩)
        · exact outside next (by simp) inNext
        · refine apart fun c inGroup inNext => ?_
          exact unmet c inNext ((members c).mpr inGroup)
      have dissolved := not_regroupAll outsideLater alone a
      simp only [apart, false_and, iff_false]
      exact dissolved

/-- An element is grouped at the end iff no group stored after the last one with
it meets that one. -/
theorem regroupAll_self_iff (closed : SelfGrouped grouped) {before after : List (List α)}
    (member : a ∈ group) (last : ∀ later ∈ after, a ∉ later) :
    regroupAll grouped (before ++ group :: after) a a ↔ ∀ later ∈ after, group.Disjoint later := by
  have split : regroupAll grouped (before ++ group :: after) =
      regroupAll (regroup (regroupAll grouped before) group) after := by
    rw [regroupAll, List.foldl_append]
    rfl
  rw [split]
  exact regroupAll_self_iff_disjoint (regroup_of_mem (closed.regroupAll before) member) last member

/-- The last group with an element. -/
theorem exists_last_group (answered : ∃ group ∈ groups, a ∈ group) :
    ∃ before group after, groups = before ++ group :: after ∧ a ∈ group ∧
      ∀ later ∈ after, a ∉ later := by
  induction groups with
  | nil => simp at answered
  | cons next groups ih =>
    by_cases later : ∃ group ∈ groups, a ∈ group
    · obtain ⟨before, group, after, rfl, member, last⟩ := ih later
      exact ⟨next :: before, group, after, rfl, member, last⟩
    · obtain ⟨group, inGroups, member⟩ := answered
      rcases List.mem_cons.mp inGroups with rfl | inLater
      · exact ⟨[], group, groups, rfl, member, fun other inOther has => later ⟨other, inOther, has⟩⟩
      · exact absurd ⟨group, inLater, member⟩ later

/-- No group after the last one with the element meets that one. -/
def LastKept (groups : List (List α)) (a : α) : Prop :=
  ∀ before group after, groups = before ++ group :: after → a ∈ group →
    (∀ later ∈ after, a ∉ later) → ∀ later ∈ after, group.Disjoint later

theorem regroupAll_self_iff_lastKept (closed : SelfGrouped grouped)
    (answered : ∃ group ∈ groups, a ∈ group) :
    regroupAll grouped groups a a ↔ LastKept groups a := by
  constructor
  · rintro together before group after rfl member last
    exact (regroupAll_self_iff closed member last).mp together
  · intro kept
    obtain ⟨before, group, after, rfl, member, last⟩ := exists_last_group answered
    exact (regroupAll_self_iff closed member last).mpr (kept before group after rfl member last)

/-! ### Groups that are new or as before -/

variable {fit fitter : α → Prop} {before after last : α → α → Prop}

/-- Everyone `a` is grouped with fits. -/
def AllFit (fit : α → Prop) (grouped : α → α → Prop) (a : α) : Prop := ∀ b, grouped a b → fit b

/-- Whoever is grouped afterwards is so with fitting ones only, or with the same
ones as before. -/
def Renews (fit : α → Prop) (before after : α → α → Prop) : Prop :=
  ∀ a, after a a → AllFit fit after a ∨ ∀ b, after a b ↔ before a b

theorem AllFit.mono (all : AllFit fit grouped a) (weaker : ∀ a, fit a → fitter a) :
    AllFit fitter grouped a :=
  fun b together => weaker b (all b together)

theorem Renews.refl (fit : α → Prop) (grouped : α → α → Prop) : Renews fit grouped grouped :=
  fun _ _ => .inr fun _ => Iff.rfl

theorem Renews.trans (first : Renews fit before after) (second : Renews fitter after last)
    (weaker : ∀ a, fit a → fitter a) : Renews fitter before last := by
  intro a together
  rcases second a together with all | same
  · exact .inl all
  · rcases first a ((same a).mp together) with all | asBefore
    · exact .inl fun b inLast => weaker b (all b ((same b).mp inLast))
    · exact .inr fun b => (same b).trans (asBefore b)

/-- Whoever only had fitting companions has none but fitting ones afterwards. -/
theorem Renews.allFit (renews : Renews fitter before after) (closed : SelfGrouped after)
    (weaker : ∀ a, fit a → fitter a) (all : AllFit fit before a) : AllFit fitter after a := by
  intro b together
  rcases renews a (closed a b together) with allAfter | same
  · exact allAfter b together
  · exact weaker b (all b ((same b).mp together))

/-- Storing a group of fitting elements. -/
theorem renews_regroup (closed : SelfGrouped grouped) (allFit : ∀ b ∈ group, fit b) :
    Renews fit grouped (regroup grouped group) := by
  intro a together
  by_cases member : a ∈ group
  · exact .inl fun b inGroup => allFit b ((regroup_of_mem closed member b).mp inGroup)
  · rcases together with ⟨inGroup, -⟩ | ⟨-, apart⟩
    · exact absurd inGroup member
    · exact .inr (regroup_of_apart member apart)

end MempoolObserver.Regrouping
