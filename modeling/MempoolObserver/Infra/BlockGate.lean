import Mathlib.Logic.Relation
import Mathlib.Tactic

/-!
# The block gate

The gate between `apply_block` and the reconciler's tick: a timestamp that keeps
new ticks out while a block is applied, and an async mutex that a tick holds for
its whole run. `acquire` shuts the gate first and then waits, as long as it
takes, for the tick in flight. Every await point of the two sides is a step of
its own, so that all of their interleavings are runs of `GateState.step`.

The timestamp is taken when `acquire` *starts*. `clockLaw_iff_started_recently`
says what that costs: the exclusion the block side is granted lasts until
`maxHold` after the start of the wait, whatever part of it the wait used up.
-/

namespace MempoolObserver

open Relation

/-- `MAX_HOLD`, 300 seconds. Instants are nanoseconds of the monotonic clock. -/
def maxHold : ℕ := 300 * 10 ^ 9

structure BlockGate where
  heldSince : Option ℕ
  /-- The tick mutex is locked. -/
  inFlight : Bool
  deriving DecidableEq, Repr

namespace BlockGate

def default : BlockGate := ⟨none, false⟩

/-- The first statement of `acquire`. -/
def shut (now : ℕ) (gate : BlockGate) : BlockGate := { gate with heldSince := some now }

/-- Dropping a `BlockGateGuard`. -/
def reopen (gate : BlockGate) : BlockGate := { gate with heldSince := none }

/-- Whether a holder has the gate shut; reopens a gate held past `maxHold`. -/
def isHeld (now : ℕ) (gate : BlockGate) : Bool × BlockGate :=
  match gate.heldSince with
  | some acquiredAt => if now - acquiredAt < maxHold then (true, gate) else (false, gate.reopen)
  | none => (false, gate)

/-- A whole call of `try_begin_flush`: whether it hands out a lease. -/
def tryBeginFlush (now : ℕ) (gate : BlockGate) : Bool × BlockGate :=
  if gate.inFlight then (false, gate)
  else
    match { gate with inFlight := true }.isHeld now with
    | (true, checked) => (false, { checked with inFlight := false })
    | (false, checked) => (true, checked)

end BlockGate

/-- Where the tick stands with the gate. -/
inductive Lease where
  | none
  /-- `try_begin_flush` has the mutex and has not looked at the gate yet. -/
  | claiming
  | leased
  deriving DecidableEq, Repr

/-- Where the block side stands with the gate; `start` is when `acquire` shut it. -/
inductive Holder where
  | none
  /-- The gate is shut and the mutex not asked for yet. -/
  | shut (start : ℕ)
  | queued (start : ℕ)
  /-- The mutex is ours and `acquire` has not returned. -/
  | granting (start : ℕ)
  /-- `acquire` returned at `granted` and its guard is alive. -/
  | holding (start granted : ℕ)
  deriving DecidableEq, Repr

def Holder.start : Holder → Option ℕ
  | none => .none
  | shut start | queued start | granting start | holding start _ => some start

structure GateState where
  now : ℕ
  gate : BlockGate
  lease : Lease
  holder : Holder
  deriving DecidableEq, Repr

inductive GateOp where
  | advance (elapsed : ℕ)
  | isHeld
  | tryLock
  | checkHeld
  | dropLease
  | acquire
  | lock
  | grant
  | cancel
  | dropGuard
  deriving DecidableEq, Repr

namespace GateState

def initial (now : ℕ) : GateState := ⟨now, .default, .none, .none⟩

/-- The mutex is unlocked, which hands it to an `acquire` waiting in its queue. -/
def unlock (s : GateState) : GateState :=
  match s.holder with
  | .queued start => { s with holder := .granting start }
  | _ => { s with gate := { s.gate with inFlight := false } }

/-- One step, `none` when the operation is not possible. One `acquire` at a
time: `apply_lock` is held around it and around the life of its guard. -/
def step (s : GateState) : GateOp → Option GateState
  | .advance elapsed => some { s with now := s.now + elapsed }
  | .isHeld => some { s with gate := (s.gate.isHeld s.now).2 }
  | .tryLock =>
    -- The mutex is taken by a flush or by the block that waits for it.
    if s.gate.inFlight then some s
    else some { s with gate := { s.gate with inFlight := true }, lease := .claiming }
  | .checkHeld =>
    match s.lease, s.gate.isHeld s.now with
    -- The gate was shut in the meantime, so the lease is given back.
    | .claiming, (true, checked) => some { s with gate := checked, lease := .none }.unlock
    | .claiming, (false, checked) => some { s with gate := checked, lease := .leased }
    | _, _ => none
  | .dropLease =>
    match s.lease with
    | .leased => some { s with lease := .none }.unlock
    | _ => none
  | .acquire =>
    match s.holder with
    | .none => some { s with gate := s.gate.shut s.now, holder := .shut s.now }
    | _ => none
  | .lock =>
    match s.holder with
    | .shut start =>
      -- A flush in flight is waited for.
      if s.gate.inFlight then some { s with holder := .queued start }
      else some { s with gate := { s.gate with inFlight := true }, holder := .granting start }
    | _ => none
  | .grant =>
    match s.holder with
    | .granting start =>
      some { s with gate := { s.gate with inFlight := false }, holder := .holding start s.now }
    | _ => none
  | .cancel =>
    match s.holder with
    -- The request is dropped before the guard exists, so the gate opens again.
    | .shut _ | .queued _ => some { s with gate := s.gate.reopen, holder := .none }
    | .granting _ =>
      some { s with gate := { s.gate.reopen with inFlight := false }, holder := .none }
    | _ => none
  | .dropGuard =>
    match s.holder with
    | .holding _ _ => some { s with gate := s.gate.reopen, holder := .none }
    | _ => none

def Step (s next : GateState) : Prop := ∃ op, s.step op = some next

/-- The gate keeps ticks out: `is_held` says so, `try_begin_flush` hands out no
lease, and no call of it already under way will. -/
def Excludes (s : GateState) : Prop :=
  (s.gate.isHeld s.now).1 = true ∧ (s.gate.tryBeginFlush s.now).1 = false ∧
    ∀ op next, s.step op = some next → next.lease ≠ .leased

end GateState

/-! ### What the gate knows about its holder -/

/-- The timestamp is the holder's own start, unless `maxHold` has passed since
and some check took it away. -/
def Holder.Stamped (now : ℕ) (heldSince : Option ℕ) (holder : Holder) : Prop :=
  match holder.start with
  | .none => heldSince = .none
  | some start => start ≤ now ∧ (heldSince = some start ∨ heldSince = .none ∧ start + maxHold ≤ now)

structure GateInv (s : GateState) : Prop where
  stamped : s.holder.Stamped s.now s.gate.heldSince
  /-- The mutex is locked by the tick or by `acquire`. -/
  locked : s.gate.inFlight = true ↔ s.lease ≠ .none ∨ ∃ start, s.holder = .granting start
  /-- Not by both. -/
  exclusive : ∀ start, s.holder = .granting start → s.lease = .none
  granted : ∀ start granted, s.holder = .holding start granted → start ≤ granted
  /-- A tick alongside a held gate got in when the hold was over. -/
  expired : ∀ start granted, s.holder = .holding start granted → s.lease = .leased →
    start + maxHold ≤ s.now

namespace BlockGate

theorem isHeld_fst {now : ℕ} {gate : BlockGate} :
    (gate.isHeld now).1 = true ↔ ∃ start ∈ gate.heldSince, now - start < maxHold := by
  cases shutAt : gate.heldSince with
  | none => simp [isHeld, shutAt]
  | some start => by_cases recent : now - start < maxHold <;> simp [isHeld, shutAt, recent]

/-- A check leaves the gate alone or reopens it. -/
theorem isHeld_eq (now : ℕ) (gate : BlockGate) :
    gate.isHeld now = (true, gate) ∨ gate.isHeld now = (false, gate.reopen) := by
  obtain ⟨heldSince, inFlight⟩ := gate
  cases heldSince with
  | none => exact .inr rfl
  | some start => by_cases recent : now - start < maxHold <;> simp [isHeld, recent]

theorem tryBeginFlush_of_isHeld {now : ℕ} {gate : BlockGate}
    (held : (gate.isHeld now).1 = true) : (gate.tryBeginFlush now).1 = false := by
  unfold tryBeginFlush
  split_ifs with locked
  · rfl
  · have still : ({ gate with inFlight := true }.isHeld now).1 = true := by
      rwa [isHeld_fst] at held ⊢
    split
    · rfl
    · simp_all

end BlockGate

/-! ### The ways to go -/

namespace GateState

/-- The ways an operation can go, each from where it can and with what it leaves. -/
inductive Goes (s : GateState) : GateOp → GateState → Prop
  | advance (elapsed : ℕ) : Goes s (.advance elapsed) { s with now := s.now + elapsed }
  | isHeld : Goes s .isHeld { s with gate := (s.gate.isHeld s.now).2 }
  /-- The mutex is taken. -/
  | busy (taken : s.gate.inFlight = true) : Goes s .tryLock s
  | tryLock (free : s.gate.inFlight = false) :
      Goes s .tryLock { s with gate := { s.gate with inFlight := true }, lease := .claiming }
  | refused (claiming : s.lease = .claiming) (held : (s.gate.isHeld s.now).1 = true) :
      Goes s .checkHeld { s with lease := .none }.unlock
  | leased (claiming : s.lease = .claiming)
      (opened : s.gate.isHeld s.now = (false, s.gate.reopen)) :
      Goes s .checkHeld { s with gate := s.gate.reopen, lease := .leased }
  | dropLease (leased : s.lease = .leased) : Goes s .dropLease { s with lease := .none }.unlock
  | acquire (free : s.holder = .none) :
      Goes s .acquire { s with gate := s.gate.shut s.now, holder := .shut s.now }
  | queue {start : ℕ} (shut : s.holder = .shut start) (taken : s.gate.inFlight = true) :
      Goes s .lock { s with holder := .queued start }
  | lock {start : ℕ} (shut : s.holder = .shut start) (free : s.gate.inFlight = false) :
      Goes s .lock { s with gate := { s.gate with inFlight := true }, holder := .granting start }
  | grant {start : ℕ} (granting : s.holder = .granting start) :
      Goes s .grant
        { s with gate := { s.gate with inFlight := false }, holder := .holding start s.now }
  | leaveQueue {start : ℕ} (waiting : s.holder = .shut start ∨ s.holder = .queued start) :
      Goes s .cancel { s with gate := s.gate.reopen, holder := .none }
  | cancel {start : ℕ} (granting : s.holder = .granting start) :
      Goes s .cancel { s with gate := { s.gate.reopen with inFlight := false }, holder := .none }
  | dropGuard {start granted : ℕ} (holding : s.holder = .holding start granted) :
      Goes s .dropGuard { s with gate := s.gate.reopen, holder := .none }

theorem step_cases {s next : GateState} {op : GateOp} (h : s.step op = some next) :
    Goes s op next := by
  cases op with
  | advance elapsed =>
    cases h
    exact .advance elapsed
  | isHeld =>
    cases h
    exact .isHeld
  | tryLock =>
    simp only [step] at h
    split_ifs at h with taken
    · cases h
      exact .busy taken
    · cases h
      exact .tryLock (Bool.eq_false_of_not_eq_true taken)
  | checkHeld =>
    simp only [step] at h
    have shape := s.gate.isHeld_eq s.now
    split at h
    · rename_i claiming held
      rw [held] at shape
      obtain rfl : _ = s.gate := by simpa using shape
      cases h
      exact .refused claiming (by rw [held])
    · rename_i claiming opened
      rw [opened] at shape
      obtain rfl : _ = s.gate.reopen := by simpa using shape
      cases h
      exact .leased claiming opened
    · cases h
  | dropLease =>
    simp only [step] at h
    split at h
    · cases h
      exact .dropLease ‹_›
    · cases h
  | acquire =>
    simp only [step] at h
    split at h
    · cases h
      exact .acquire ‹_›
    · cases h
  | lock =>
    simp only [step] at h
    split at h
    · split_ifs at h with taken
      · cases h
        exact .queue ‹_› taken
      · cases h
        exact .lock ‹_› (Bool.eq_false_of_not_eq_true taken)
    · cases h
  | grant =>
    simp only [step] at h
    split at h
    · cases h
      exact .grant ‹_›
    · cases h
  | cancel =>
    simp only [step] at h
    split at h
    · cases h
      exact .leaveQueue (.inl ‹_›)
    · cases h
      exact .leaveQueue (.inr ‹_›)
    · cases h
      exact .cancel ‹_›
    · cases h
  | dropGuard =>
    simp only [step] at h
    split at h
    · cases h
      exact .dropGuard ‹_›
    · cases h

end GateState

namespace Holder.Stamped

variable {now : ℕ} {gate : BlockGate} {holder : Holder}

/-- While there is a holder, the gate is shut exactly until `maxHold` after the
holder's start. -/
theorem isHeld_iff (stamped : holder.Stamped now gate.heldSince) {start : ℕ}
    (started : holder.start = some start) :
    (gate.isHeld now).1 = true ↔ now < start + maxHold := by
  simp only [Stamped, started] at stamped
  obtain ⟨past, shutAt | ⟨opened, passed⟩⟩ := stamped
  · rw [BlockGate.isHeld_fst]
    simp only [shutAt, Option.mem_some_iff, exists_eq_left']
    omega
  · rw [BlockGate.isHeld_fst]
    simp only [opened, Option.mem_def, reduceCtorEq, false_and, exists_false, false_iff, not_lt]
    exact passed

/-- Looking at the gate keeps the timestamp honest. -/
theorem check (stamped : holder.Stamped now gate.heldSince) :
    holder.Stamped now (gate.isHeld now).2.heldSince := by
  cases started : holder.start with
  | none =>
    simp only [Stamped, started] at stamped ⊢
    rcases gate.isHeld_eq now with checked | checked <;> simp [checked, stamped, BlockGate.reopen]
  | some start =>
    rcases gate.isHeld_eq now with same | opened
    · simpa [same] using stamped
    · have passed : start + maxHold ≤ now := by
        rw [← not_lt, ← isHeld_iff stamped started, opened]
        exact Bool.false_ne_true
      simp only [Stamped, started] at stamped ⊢
      exact ⟨stamped.1, .inr ⟨by simp [opened, BlockGate.reopen], passed⟩⟩

theorem advance {heldSince : Option ℕ} (stamped : holder.Stamped now heldSince)
    (elapsed : ℕ) : holder.Stamped (now + elapsed) heldSince := by
  unfold Stamped at *
  split at stamped
  · exact stamped
  · obtain ⟨past, shutAt | ⟨opened, passed⟩⟩ := stamped
    · exact ⟨by omega, .inl shutAt⟩
    · exact ⟨by omega, .inr ⟨opened, by omega⟩⟩

end Holder.Stamped

/-! ### Runs -/

namespace GateInv

variable {s next : GateState}

theorem initial (now : ℕ) : GateInv (.initial now) where
  stamped := rfl
  locked := by simp [GateState.initial, BlockGate.default]
  exclusive := by simp [GateState.initial]
  granted := by simp [GateState.initial]
  expired := by simp [GateState.initial]

/-- A tick that lets go of the mutex, having looked at the gate or not. -/
theorem unlock (inv : GateInv s) (locked : s.lease ≠ .none) {gate : BlockGate}
    (sameMutex : gate.inFlight = s.gate.inFlight)
    (stamped : s.holder.Stamped s.now gate.heldSince) :
    GateInv { s with gate := gate, lease := .none }.unlock := by
  have taken : s.gate.inFlight = true := inv.locked.mpr (.inl locked)
  have notGranting : ∀ start, s.holder ≠ .granting start := fun start granting =>
    locked (inv.exclusive start granting)
  unfold GateState.unlock
  split
  · rename_i start queued
    simp only at queued
    refine ⟨?_, ?_, ?_, ?_, ?_⟩
    · simpa [Holder.Stamped, Holder.start, queued] using stamped
    · simp [sameMutex, taken]
    all_goals simp
  · refine ⟨stamped, ?_, fun _ _ => rfl, inv.granted, by simp⟩
    simp [notGranting]

theorem step {op : GateOp} (inv : GateInv s) (h : s.step op = some next) : GateInv next := by
  cases GateState.step_cases h with
  -- Time only makes the hold older.
  | advance elapsed =>
    refine ⟨inv.stamped.advance elapsed, inv.locked, inv.exclusive, inv.granted, ?_⟩
    exact fun start granted holding leased =>
      (inv.expired start granted holding leased).trans (Nat.le_add_right ..)
  | isHeld =>
    have mutex : (s.gate.isHeld s.now).2.inFlight = s.gate.inFlight := by
      rcases s.gate.isHeld_eq s.now with checked | checked <;> simp [checked, BlockGate.reopen]
    exact ⟨inv.stamped.check, by simpa only [mutex] using inv.locked, inv.exclusive, inv.granted,
      inv.expired⟩
  | busy => exact inv
  -- A free mutex means that nobody claims it and no block is about to be granted.
  | tryLock free =>
    have nobody : s.lease = .none ∧ ∀ start, s.holder ≠ .granting start := by
      simpa using mt inv.locked.mpr (by simp [free])
    refine ⟨inv.stamped, by simp, fun start granting => ?_, inv.granted, by simp⟩
    exact absurd granting (nobody.2 start)
  -- The mutex goes back with the lease.
  | refused claiming => exact inv.unlock (by simp [claiming]) rfl inv.stamped
  | leased claiming opened =>
    have stamped := inv.stamped.check
    rw [opened] at stamped
    refine ⟨stamped, by simpa [claiming, BlockGate.reopen] using inv.locked,
      fun start granting => ?_, inv.granted, fun start granted holding _ => ?_⟩
    · simpa [claiming] using inv.exclusive start granting
    · -- an open gate alongside a holder has run out of time
      have started : s.holder.start = some start := by
        simp [show s.holder = _ from holding, Holder.start]
      rw [← not_lt, ← inv.stamped.isHeld_iff started, opened]
      exact Bool.false_ne_true
  | dropLease leased => exact inv.unlock (by simp [leased]) rfl inv.stamped
  | acquire free =>
    refine ⟨⟨le_rfl, .inl rfl⟩, ?_, by simp, by simp, by simp⟩
    simpa [free, BlockGate.shut] using inv.locked
  -- In the queue the flush keeps the mutex, and the stamp is the one of the request.
  | @queue start shut =>
    have stamped : (Holder.shut start).Stamped s.now s.gate.heldSince := shut ▸ inv.stamped
    refine ⟨stamped, ?_, by simp, by simp, by simp⟩
    simpa [shut] using inv.locked
  | @lock start shut free =>
    have stamped : (Holder.shut start).Stamped s.now s.gate.heldSince := shut ▸ inv.stamped
    have unleased : s.lease = .none := by simpa [shut, free] using inv.locked
    exact ⟨stamped, by simp, fun _ _ => unleased, by simp, by simp⟩
  | @grant start granting =>
    have stamped : (Holder.granting start).Stamped s.now s.gate.heldSince :=
      granting ▸ inv.stamped
    -- The mutex was the block's, so no lease is out when the hold starts.
    have unleased := inv.exclusive start granting
    refine ⟨stamped, by simp [unleased], by simp, ?_, by simp [unleased]⟩
    rintro _ _ ⟨⟩
    exact stamped.1
  | leaveQueue waiting =>
    refine ⟨rfl, ?_, by simp, by simp, by simp⟩
    rcases waiting with shut | queued
    · simpa [shut, BlockGate.reopen] using inv.locked
    · simpa [queued, BlockGate.reopen] using inv.locked
  | cancel granting => exact ⟨rfl, by simp [inv.exclusive _ granting], by simp, by simp, by simp⟩
  | dropGuard holding =>
    refine ⟨rfl, ?_, by simp, by simp, by simp⟩
    simpa [holding, BlockGate.reopen] using inv.locked

theorem run {now : ℕ} {s : GateState} (run : ReflTransGen GateState.Step (.initial now) s) :
    GateInv s := by
  induction run with
  | refl => exact initial now
  | tail _ step ih =>
    obtain ⟨op, step⟩ := step
    exact ih.step step

end GateInv

@[simp] theorem GateState.now_unlock (s : GateState) : s.unlock.now = s.now := by
  unfold unlock
  split <;> rfl

@[simp] theorem GateState.unlock_lease (s : GateState) : s.unlock.lease = s.lease := by
  unfold unlock
  split <;> rfl

/-- A lease comes from a tick that looked at an open gate. -/
theorem GateState.leased_step {s next : GateState} {op : GateOp} (h : s.step op = some next)
    (leased : next.lease = .leased) :
    s.lease = .leased ∨ op = .checkHeld ∧ (s.gate.isHeld s.now).1 = false := by
  cases step_cases h with
  | leased _ opened => exact .inr ⟨rfl, by rw [opened]⟩
  | refused | dropLease =>
    rw [unlock_lease] at leased
    cases leased
  | tryLock => cases leased
  | advance | isHeld | busy | acquire | queue | lock | grant | leaveQueue | cancel | dropGuard =>
    exact .inl leased

/-- The clock never goes back. -/
theorem GateState.now_step {s next : GateState} {op : GateOp} (h : s.step op = some next) :
    s.now ≤ next.now := by
  cases step_cases h with
  | advance => exact Nat.le_add_right ..
  | refused | dropLease => rw [now_unlock]
  | isHeld | busy | tryLock | leased | acquire | queue | lock | grant | leaveQueue | cancel
  | dropGuard => exact le_rfl

/-- How far the block side is: not there, waiting in `acquire`, or past it. -/
inductive Holder.Phase where
  | absent
  | acquiring
  | held
  deriving DecidableEq

def Holder.phase : Holder → Phase
  | none => .absent
  | shut _ | queued _ | granting _ => .acquiring
  | holding _ _ => .held

/-- Where an operation takes the block side from `phase`. -/
def GateOp.phaseAfter (phase : Holder.Phase) : GateOp → Holder.Phase
  | acquire => .acquiring
  | grant => .held
  | cancel | dropGuard => .absent
  | _ => phase

@[simp] theorem GateState.unlock_phase (s : GateState) :
    s.unlock.holder.phase = s.holder.phase := by
  unfold unlock
  split
  · rename_i queued
    simp [queued, Holder.phase]
  · rfl

theorem GateState.phase_step {s next : GateState} {op : GateOp} (h : s.step op = some next) :
    next.holder.phase = op.phaseAfter s.holder.phase := by
  cases step_cases h with
  | queue shut | lock shut => simp [GateOp.phaseAfter, Holder.phase, shut]
  | refused | dropLease => exact unlock_phase _
  | advance | isHeld | busy | tryLock | leased | acquire | grant | leaveQueue | cancel
  | dropGuard => rfl

/-- The block side does not touch the tick's lease. -/
theorem GateState.lease_step {s next : GateState} {op : GateOp} (h : s.step op = some next)
    (other : op ≠ .tryLock ∧ op ≠ .checkHeld ∧ op ≠ .dropLease) : next.lease = s.lease := by
  cases step_cases h with
  | busy | tryLock | refused | leased | dropLease => simp at other
  | advance | isHeld | acquire | queue | lock | grant | leaveQueue | cancel | dropGuard => rfl

theorem GateState.lease_dropLease {s next : GateState} (h : s.step .dropLease = some next) :
    next.lease = .none := by
  cases step_cases h with
  | dropLease => exact unlock_lease _

/-- While a guard is alive, the gate keeps ticks out exactly until `maxHold`
after its `acquire` started. -/
theorem GateInv.excludes_iff {s : GateState} {start granted : ℕ} (inv : GateInv s)
    (holding : s.holder = .holding start granted) : s.Excludes ↔ s.now < start + maxHold := by
  have held := inv.stamped.isHeld_iff (show s.holder.start = some start by simp [holding,
    Holder.start])
  constructor
  · rintro ⟨shut, -⟩
    exact held.mp shut
  · intro early
    refine ⟨held.mpr early, BlockGate.tryBeginFlush_of_isHeld (held.mpr early), ?_⟩
    intro op next step leased
    rcases GateState.leased_step step leased with already | ⟨-, opened⟩
    · exact absurd (inv.expired start granted holding already) (not_le.mpr early)
    · rw [held.mpr early] at opened
      cases opened

/-- The exclusion a block is granted lasts `maxHold` from the return of its
`acquire`: the wait for the tick in flight is not counted. -/
def GateState.ClockLaw (s : GateState) : Prop :=
  ∀ start granted, s.holder = .holding start granted → s.now < granted + maxHold → s.Excludes

/-- **The exclusion is counted from the start of the wait.** In every state of
every run, the clock law holds exactly when less than `maxHold` has passed since
the `acquire` of the guard alive started. -/
theorem clockLaw_iff_started_recently {now : ℕ} {s : GateState}
    (run : ReflTransGen GateState.Step (.initial now) s) :
    s.ClockLaw ↔ ∀ start granted, s.holder = .holding start granted →
      s.now < granted + maxHold → s.now < start + maxHold := by
  have inv := GateInv.run run
  constructor
  · intro law start granted holding recent
    exact (inv.excludes_iff holding).mp (law start granted holding recent)
  · intro early start granted holding recent
    exact (inv.excludes_iff holding).mpr (early start granted holding recent)

/-- A block that waited out a tick of `maxHold`. -/
def outwaited : GateState := ⟨maxHold, ⟨some 0, false⟩, .none, .holding 0 maxHold⟩

theorem outwaited_reached : ReflTransGen GateState.Step (.initial 0) outwaited :=
  .tail (.tail (.tail (.tail (.tail (.tail (.single ⟨.tryLock, rfl⟩) ⟨.checkHeld, rfl⟩)
    ⟨.acquire, rfl⟩) ⟨.lock, rfl⟩) ⟨.advance maxHold, rfl⟩) ⟨.dropLease, rfl⟩) ⟨.grant, rfl⟩

/-- The gate is open from the moment its `acquire` returns. -/
theorem outwaited_violates_clockLaw :
    ReflTransGen GateState.Step (.initial 0) outwaited ∧ ¬ outwaited.ClockLaw ∧
      (outwaited.gate.isHeld outwaited.now).1 = false ∧
      (outwaited.gate.tryBeginFlush outwaited.now).1 = true := by
  refine ⟨outwaited_reached, fun law => ?_, by decide, by decide⟩
  obtain ⟨held, -⟩ := law 0 maxHold rfl (by decide)
  exact absurd held (by decide)

/-- A block that waited for a second, asked about a second after. -/
theorem waited_briefly_clockLaw :
    GateState.ClockLaw ⟨2 * 10 ^ 9, ⟨some 0, false⟩, .none, .holding 0 (10 ^ 9)⟩ := by
  have run : ReflTransGen GateState.Step (.initial 0)
      ⟨2 * 10 ^ 9, ⟨some 0, false⟩, .none, .holding 0 (10 ^ 9)⟩ :=
    .tail (.tail (.tail (.tail (.tail (.tail (.tail (.single ⟨.tryLock, rfl⟩) ⟨.checkHeld, rfl⟩)
      ⟨.acquire, rfl⟩) ⟨.lock, rfl⟩) ⟨.advance (10 ^ 9), rfl⟩) ⟨.dropLease, rfl⟩) ⟨.grant, rfl⟩)
      ⟨.advance (10 ^ 9), rfl⟩
  refine (clockLaw_iff_started_recently run).mpr ?_
  rintro _ _ ⟨⟩ -
  decide

end MempoolObserver
