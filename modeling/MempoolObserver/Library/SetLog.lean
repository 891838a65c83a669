import Mathlib.Data.Finset.Basic
import Mathlib.Data.List.Chain

/-!
# Logs of set edits

A finite set of keys is edited by inserting and erasing keys, and the edits are
kept in a log. Replaying a log onto a set is a left fold, and membership after
the replay is decided by the last edit of the key alone. Two facts follow that
a write-ahead log rests on: replaying a prefix twice is harmless, and a log in
which every edit really changed the set alternates, key by key.

## Main definitions

* `Edit` — insert or erase one key
* `replay` — the set a log leaves behind
* `signs` — the directions in which a log moves one key
* `Effective` — every edit of the log changes the set it meets

## Main results

* `mem_replay` — the last edit of a key decides its membership
* `replay_front_twice` — replaying a prefix of a log first changes nothing
* `effective_iff_signs` — a log is effective exactly when it alternates on every
  key, beginning with an insertion exactly on the keys the set lacks
* `added_iff`, `removed_iff` — what an effective log does to a key in the end can be
  read off its first and its last edit
* `replay_difference`, `effective_difference` — diffing a set against a target
  gives an effective log that reaches the target
-/

namespace MempoolObserver.SetLog

variable {α : Type*}

/-- One edit of a set of keys. -/
inductive Edit (α : Type*) where
  | insert (key : α)
  | erase (key : α)
  deriving DecidableEq, Repr

namespace Edit

def key : Edit α → α
  | insert key => key
  | erase key => key

/-- `true` for an insertion. -/
def sign : Edit α → Bool
  | insert _ => true
  | erase _ => false

@[simp] theorem key_insert (a : α) : (insert a).key = a := rfl

@[simp] theorem key_erase (a : α) : (erase a).key = a := rfl

@[simp] theorem sign_insert (a : α) : (insert a).sign = true := rfl

@[simp] theorem sign_erase (a : α) : (erase a).sign = false := rfl

variable [DecidableEq α]

def apply : Edit α → Finset α → Finset α
  | insert key, s => Insert.insert key s
  | erase key, s => s.erase key

/-- The edit changes the set it is applied to. -/
def EffectiveOn (e : Edit α) (s : Finset α) : Prop := e.key ∈ s ↔ e.sign = false

theorem mem_apply {e : Edit α} {s : Finset α} {a : α} :
    a ∈ e.apply s ↔ if e.key = a then e.sign = true else a ∈ s := by
  cases e with
  | insert key =>
    by_cases same : key = a
    · simp [apply, same]
    · simp [apply, same, Ne.symm same]
  | erase key =>
    by_cases same : key = a
    · simp [apply, same]
    · simp [apply, same, Ne.symm same]

end Edit

variable [DecidableEq α]

/-- The set a log leaves behind when it is replayed onto `s`. -/
def replay (s : Finset α) (log : List (Edit α)) : Finset α :=
  log.foldl (fun s e => e.apply s) s

/-- The directions in which the log moves the key `a`, in order. -/
def signs (a : α) (log : List (Edit α)) : List Bool :=
  (log.filter (fun e => e.key = a)).map Edit.sign

@[simp] theorem replay_nil (s : Finset α) : replay s [] = s := rfl

@[simp] theorem replay_cons (s : Finset α) (e : Edit α) (log : List (Edit α)) :
    replay s (e :: log) = replay (e.apply s) log := rfl

@[simp] theorem replay_append (s : Finset α) (first second : List (Edit α)) :
    replay s (first ++ second) = replay (replay s first) second :=
  List.foldl_append ..

@[simp] theorem signs_nil (a : α) : signs a [] = [] := rfl

theorem signs_cons (a : α) (e : Edit α) (log : List (Edit α)) :
    signs a (e :: log) = if e.key = a then e.sign :: signs a log else signs a log := by
  by_cases same : e.key = a <;> simp [signs, same]

@[simp] theorem signs_append (a : α) (first second : List (Edit α)) :
    signs a (first ++ second) = signs a first ++ signs a second := by
  simp [signs]

/-- The last edit of a key decides its membership after the replay; a key that
no edit moved keeps the membership it had. -/
theorem mem_replay (s : Finset α) (log : List (Edit α)) (a : α) :
    a ∈ replay s log ↔ (signs a log).getLast?.elim (a ∈ s) (· = true) := by
  induction log generalizing s with
  | nil => simp
  | cons e log ih =>
    rw [replay_cons, ih, signs_cons]
    by_cases same : e.key = a
    · cases last : (signs a log).getLast? with
      | none => simp [same, Edit.mem_apply, List.getLast?_eq_none_iff.mp last]
      | some sign => simp [same, List.getLast?_cons, last]
    · cases last : (signs a log).getLast? with
      | none => simp [same, Edit.mem_apply, last]
      | some sign => simp [same, last]

/-- A key the replay takes out of the set is erased somewhere in the log. -/
theorem erase_mem_of_lost {s : Finset α} {log : List (Edit α)} {a : α} (present : a ∈ s)
    (lost : a ∉ replay s log) : .erase a ∈ log := by
  induction log generalizing s with
  | nil => exact absurd present lost
  | cons e log ih =>
    by_cases kept : a ∈ e.apply s
    · exact List.mem_cons_of_mem _ (ih kept lost)
    · cases e with
      | insert key => exact absurd (Finset.mem_insert_of_mem present) kept
      | erase key =>
        obtain rfl : a = key := by
          by_contra other
          exact kept (Finset.mem_erase.mpr ⟨other, present⟩)
        exact List.mem_cons_self

/-- Replaying a prefix of a log before the whole log changes nothing: what the
prefix did to a key is either done again or overruled by a later edit. -/
theorem replay_front_twice (s : Finset α) (first rest : List (Edit α)) :
    replay (replay s first) (first ++ rest) = replay s (first ++ rest) := by
  ext a
  rw [mem_replay, mem_replay s, mem_replay s, signs_append, List.getLast?_append]
  cases (signs a rest).getLast? with
  | some sign => simp
  | none => cases (signs a first).getLast? <;> simp

/-! ### Effective logs -/

/-- Every edit of the log changes the set it meets. -/
def Effective : Finset α → List (Edit α) → Prop
  | _, [] => True
  | s, e :: log => e.EffectiveOn s ∧ Effective (e.apply s) log

@[simp] theorem effective_nil (s : Finset α) : Effective s [] := trivial

@[simp] theorem effective_cons (s : Finset α) (e : Edit α) (log : List (Edit α)) :
    Effective s (e :: log) ↔ e.EffectiveOn s ∧ Effective (e.apply s) log := Iff.rfl

theorem effective_append (s : Finset α) (first second : List (Edit α)) :
    Effective s (first ++ second) ↔ Effective s first ∧ Effective (replay s first) second := by
  induction first generalizing s with
  | nil => simp
  | cons e first ih => simp [ih, and_assoc]

/-- A sequence of directions alternates, and opens with an insertion exactly
when the key was absent. -/
def Alternating (present : Prop) (directions : List Bool) : Prop :=
  directions.IsChain (· ≠ ·) ∧ ∀ first ∈ directions.head?, (first = true ↔ ¬ present)

@[simp] theorem alternating_nil (present : Prop) : Alternating present [] := by
  simp [Alternating]

/-- Directions that alternate go on alternating when what follows starts from
where they end. -/
theorem Alternating.isChain_append {present : Prop} {first second : List Bool}
    (rest : Alternating present second) (alternates : first.IsChain (· ≠ ·))
    (ends : ∀ last ∈ first.getLast?, (last = true ↔ present)) :
    (first ++ second).IsChain (· ≠ ·) := by
  refine List.isChain_append.mpr ⟨alternates, rest.1, fun last isLast head isHead same => ?_⟩
  have before := ends last isLast
  have after := rest.2 head isHead
  rw [same, after] at before
  exact iff_not_self before.symm

theorem alternating_cons (present : Prop) (sign : Bool) (directions : List Bool) :
    Alternating present (sign :: directions) ↔
      (sign = true ↔ ¬ present) ∧ Alternating (sign = true) directions := by
  simp only [Alternating, List.isChain_cons, List.head?_cons, Option.mem_some_iff,
    forall_eq']
  have turned (first : Bool) : sign ≠ first ↔ (first = true ↔ ¬ sign = true) := by
    cases sign <;> cases first <;> simp
  constructor
  · rintro ⟨⟨next, chain⟩, opening⟩
    exact ⟨opening, chain, fun first head => (turned first).mp (next first head)⟩
  · rintro ⟨opening, chain, next⟩
    exact ⟨⟨fun first head => (turned first).mpr (next first head), chain⟩, opening⟩

/-- A log is effective exactly when it alternates on every key, opening with an
insertion exactly on the keys the set lacks. -/
theorem effective_iff_signs (s : Finset α) (log : List (Edit α)) :
    Effective s log ↔ ∀ a, Alternating (a ∈ s) (signs a log) := by
  induction log generalizing s with
  | nil => simp
  | cons e log ih =>
    have opening : e.EffectiveOn s ↔ (e.sign = true ↔ ¬ e.key ∈ s) := by
      unfold Edit.EffectiveOn
      cases e.sign <;> simp
    rw [effective_cons, ih, opening]
    -- An edit flips membership of its own key, and its sign is the first one of that key.
    constructor
    · rintro ⟨head, tail⟩ a
      have later := tail a
      rw [signs_cons]
      by_cases same : e.key = a
      · subst same
        rw [if_pos rfl, alternating_cons]
        refine ⟨head, ?_⟩
        simpa [Edit.mem_apply] using later
      · rw [if_neg same]
        simpa [Edit.mem_apply, same] using later
    · intro every
      have atKey := every e.key
      rw [signs_cons, if_pos rfl, alternating_cons] at atKey
      refine ⟨atKey.1, fun a => ?_⟩
      by_cases same : e.key = a
      · subst same
        simpa [Edit.mem_apply] using atKey.2
      · have here := every a
        rw [signs_cons, if_neg same] at here
        simpa [Edit.mem_apply, same] using here

/-- A key that an effective log moves in first and last is one it adds. -/
theorem added_iff {s : Finset α} {log : List (Edit α)} (effective : Effective s log) (a : α) :
    ((signs a log).head? = some true ∧ (signs a log).getLast? = some true) ↔
      a ∉ s ∧ a ∈ replay s log := by
  obtain ⟨-, opening⟩ := (effective_iff_signs s log).mp effective a
  rw [mem_replay]
  generalize signs a log = directions at opening ⊢
  cases directions with
  | nil => simp
  | cons first rest =>
    have opening : first = true ↔ a ∉ s := opening first rfl
    simp [List.getLast?_cons, opening]

/-- A key that an effective log moves out first and last is one it removes. -/
theorem removed_iff {s : Finset α} {log : List (Edit α)} (effective : Effective s log) (a : α) :
    ((signs a log).head? = some false ∧ (signs a log).getLast? = some false) ↔
      a ∈ s ∧ a ∉ replay s log := by
  obtain ⟨-, opening⟩ := (effective_iff_signs s log).mp effective a
  rw [mem_replay]
  generalize signs a log = directions at opening ⊢
  cases directions with
  | nil => simp
  | cons first rest =>
    have opening : first = false ↔ a ∈ s := by
      rw [← Bool.not_eq_true, opening first rfl, not_not]
    simp [List.getLast?_cons, opening]

/-! ### Moving a set to a target -/

theorem replay_map_insert (s : Finset α) (keys : List α) :
    replay s (keys.map .insert) = s ∪ keys.toFinset := by
  induction keys generalizing s with
  | nil => simp
  | cons key keys ih =>
    rw [List.map_cons, replay_cons, ih, List.toFinset_cons, Edit.apply]
    ext a
    simp only [Finset.mem_union, Finset.mem_insert]
    tauto

theorem replay_map_erase (s : Finset α) (keys : List α) :
    replay s (keys.map .erase) = s \ keys.toFinset := by
  induction keys generalizing s with
  | nil => simp
  | cons key keys ih =>
    rw [List.map_cons, replay_cons, ih, List.toFinset_cons, Edit.apply]
    ext a
    simp only [Finset.mem_sdiff, Finset.mem_erase, Finset.mem_insert]
    tauto

theorem effective_map_insert {s : Finset α} {keys : List α} (distinct : keys.Nodup)
    (absent : ∀ a ∈ keys, a ∉ s) : Effective s (keys.map .insert) := by
  induction keys generalizing s with
  | nil => trivial
  | cons key keys ih =>
    obtain ⟨notLater, distinct⟩ := List.nodup_cons.mp distinct
    refine ⟨by simp [Edit.EffectiveOn, absent key], ih distinct fun a member => ?_⟩
    have other : a ≠ key := fun same => notLater (same ▸ member)
    simp [Edit.apply, other, absent a (List.mem_cons_of_mem _ member)]

theorem effective_map_erase {s : Finset α} {keys : List α} (distinct : keys.Nodup)
    (present : ∀ a ∈ keys, a ∈ s) : Effective s (keys.map .erase) := by
  induction keys generalizing s with
  | nil => trivial
  | cons key keys ih =>
    obtain ⟨notLater, distinct⟩ := List.nodup_cons.mp distinct
    refine ⟨by simp [Edit.EffectiveOn, present key], ih distinct fun a member => ?_⟩
    have other : a ≠ key := fun same => notLater (same ▸ member)
    simp [Edit.apply, other, present a (List.mem_cons_of_mem _ member)]

section Difference

variable {s target : Finset α} {missing surplus : List α}

/-- Inserting what is missing and erasing the surplus reaches the target. -/
theorem replay_difference (missingMem : ∀ a, a ∈ missing ↔ a ∈ target \ s)
    (surplusMem : ∀ a, a ∈ surplus ↔ a ∈ s \ target) :
    replay s (missing.map .insert ++ surplus.map .erase) = target := by
  rw [replay_append, replay_map_insert, replay_map_erase]
  ext a
  simp only [Finset.mem_sdiff, Finset.mem_union, List.mem_toFinset, missingMem, surplusMem]
  tauto

/-- The edits from a set to a target all change the set they meet. -/
theorem effective_difference (missingDistinct : missing.Nodup) (surplusDistinct : surplus.Nodup)
    (missingMem : ∀ a, a ∈ missing ↔ a ∈ target \ s)
    (surplusMem : ∀ a, a ∈ surplus ↔ a ∈ s \ target) :
    Effective s (missing.map .insert ++ surplus.map .erase) := by
  refine (effective_append ..).mpr ⟨effective_map_insert missingDistinct fun a member => ?_,
    effective_map_erase surplusDistinct fun a member => ?_⟩
  · exact (Finset.mem_sdiff.mp ((missingMem a).mp member)).2
  · rw [replay_map_insert]
    exact Finset.mem_union_left _ (Finset.mem_sdiff.mp ((surplusMem a).mp member)).1

end Difference

end MempoolObserver.SetLog
