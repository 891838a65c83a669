import MempoolObserver.Library.FifoLock
import MempoolObserver.Library.Runs
import MempoolObserver.Services.BlockExclusion

/-!
# The shutdown of the server

Blocks are applied under one lock, and the reconciler ticks in a loop of its own. When the signal
comes, shutdown asks for the lock, never to give it back, waits for the backfill consumer, and
notifies the reconciler and waits for its loop to return. Each wait has a time limit.

A shutdown that met its limits ends between two blocks and between two ticks.

## Main definitions

* `Process.step` — ticks, blocks and producers as in `System`, with the lock, the loop and the
  shutdown around them

## Main results

* `drained_exit_is_quiet`
-/

namespace MempoolObserver

open Relation Runs

/-- Who asks for `apply_lock`. -/
inductive Applier where
  | block (hash : String)
  | shutdown
  deriving DecidableEq

def Applier.hash? : Applier → Option String
  | block hash => some hash
  | shutdown => none

/-- What shutdown found when it stopped applying blocks. -/
inductive BlockDrain where
  /-- No block was in flight. -/
  | idle
  /-- A block was in flight and landed before the timeout. -/
  | waited
  /-- A block was still in flight when the timeout hit. -/
  | timedOut
  deriving DecidableEq

/-- The loop of `MempoolReconciler::run`. -/
inductive ReconcilerLoop where
  | unspawned
  /-- In `select`, for the interval or the notification. -/
  | selecting
  | ticking
  | returned
  deriving DecidableEq

inductive ShutdownPhase where
  | running
  /-- The lock was not free. -/
  | asking
  /-- Waiting for `apply_lock`. -/
  | stopping
  | drainingBackfill (drain : BlockDrain)
  | drainingReconciler (drain : BlockDrain)
  | exiting (drain : BlockDrain) (drained : Bool)
  deriving DecidableEq

/-- What stopping the blocks came to. -/
def ShutdownPhase.blockDrain : ShutdownPhase → Option BlockDrain
  | running | asking | stopping => none
  | drainingBackfill drain | drainingReconciler drain | exiting drain _ => some drain

structure Process where
  sys : System
  applyLock : FifoLock Applier
  reconciler : ReconcilerLoop
  /-- The notification of the reconciler, kept until its loop takes it. -/
  notified : Bool
  phase : ShutdownPhase
  /-- The blocks that waited for the lock when shutdown asked for it. -/
  ahead : List String
  /-- The blocks that have had the lock since. -/
  since : List String

inductive ProcessOp where
  /-- The clock, a producer or the backfill worker. -/
  | world (op : SystemOp)
  /-- `apply_block` is called. -/
  | apply (hash : String)
  /-- The call that has the lock goes on to the gate. -/
  | start
  | block (op : BlockOp)
  /-- Bootstrap ends. -/
  | spawnReconciler
  | beginTick
  | tick (op : TickOp)
  | returnLoop
  /-- The signal comes, and shutdown tries the lock. -/
  | signal
  | ask
  | stopped
  | stopTimeout
  /-- The backfill consumer has drained, or is no longer waited for. -/
  | backfillDrained
  | reconcilerDrained
  | reconcilerTimeout

/-- Neither the reconciler's nor the block's. -/
def SystemOp.outside : SystemOp → Bool
  | .tick _ | .block _ => false
  | _ => true

/-- The tick has returned, or has not begun. -/
def System.tickOver (s : System) : Bool :=
  match s.tick, s.gate.lease with
  | .idle, .none => true
  | _, _ => false

/-- Without a holder and a lease the gate is as it was made. -/
theorem GateInv.gate_eq_default {s : GateState} (inv : GateInv s)
    (absent : s.holder.phase = .absent) (lease : s.lease = .none) : s.gate = .default := by
  have holder : s.holder = .none := by
    cases held : s.holder with
    | none => rfl
    | shut | queued | granting | holding => simp [held, Holder.phase] at absent
  have since : s.gate.heldSince = .none := by
    have stamped := inv.stamped
    rwa [Holder.Stamped, holder] at stamped
  have flight : s.gate.inFlight = false := by
    rw [Bool.eq_false_iff, ne_eq, inv.locked]
    simp [lease, holder]
  rw [BlockGate.default, ← since, ← flight]

namespace System

variable {s next : System}

theorem tickOver_iff : s.tickOver = true ↔ s.tick = .idle ∧ s.gate.lease = .none := by
  unfold tickOver
  split <;> simp_all

theorem tickOver_congr (tick : next.tick = s.tick) (lease : next.gate.lease = s.gate.lease) :
    next.tickOver = s.tickOver := by
  rw [tickOver, tick, lease, tickOver]

theorem tickOver_stepBlock {op : BlockOp} (stepped : s.stepBlock op = some next) :
    next.tickOver = s.tickOver := by
  refine tickOver_congr (tick_stepBlock stepped) ?_
  cases stepBlock_cases stepped with
  | start _ gate | lock _ gate | grant _ gate | cancel _ gate | finish _ gate | fail _ gate =>
    exact GateState.lease_step gate (by simp)
  | fetched | insert | assertAbsent | clusterTx => rfl

end System

namespace Process

def initial (now : ℕ) (ledger : MempoolLedger) (db : Db) : Process where
  sys := .initial now ledger db
  applyLock := .free
  reconciler := .unspawned
  notified := false
  phase := .running
  ahead := []
  since := []

/-- `apply_block` is called, and asks for the lock. -/
def callApply (hash : String) (p : Process) : Process :=
  { p with
    applyLock := p.applyLock.request (.block hash)
    since := if p.applyLock.holder.isNone then p.since ++ [hash] else p.since }

/-- `apply_block` ends, and the lock goes to whoever has waited longest. -/
def endApply (p : Process) : Process :=
  let lock := p.applyLock.release
  { p with applyLock := lock, since := p.since ++ (lock.holder.bind Applier.hash?).toList }

def withTick (p : Process) (sys : System) : Process :=
  { p with sys, reconciler := if sys.tickOver then .selecting else .ticking }

def step (p : Process) : ProcessOp → Option Process
  | .world op =>
    if op.outside then (p.sys.step op).map fun sys => { p with sys } else none
  | .apply hash => some (p.callApply hash)
  | .start =>
    match p.applyLock.holder with
    | some (.block hash) => (p.sys.stepBlock (.start hash)).map fun sys => { p with sys }
    | _ => none
  | .block op =>
    if p.sys.block.isNone then none
    else
      (p.sys.stepBlock op).map fun sys =>
        if sys.block.isNone then { p with sys }.endApply else { p with sys }
  | .spawnReconciler =>
    match p.reconciler with
    | .unspawned => some { p with reconciler := .selecting }
    | _ => none
  | .beginTick =>
    match p.reconciler with
    | .selecting => (p.sys.stepTick .tryLock).map p.withTick
    | _ => none
  | .tick op =>
    match p.reconciler with
    | .ticking => (p.sys.stepTick op).map p.withTick
    | _ => none
  | .returnLoop =>
    match p.reconciler, p.notified with
    | .selecting, true => some { p with reconciler := .returned, notified := false }
    | _, _ => none
  | .signal =>
    match p.phase with
    | .running =>
      if p.applyLock.holder.isNone then
        some { p with
          applyLock := p.applyLock.request .shutdown
          phase := .drainingBackfill .idle
          ahead := []
          since := [] }
      else some { p with phase := .asking }
    | _ => none
  | .ask =>
    match p.phase with
    | .asking =>
      some { p with
        applyLock := p.applyLock.request .shutdown
        phase := .stopping
        ahead := p.applyLock.waiting.filterMap Applier.hash?
        since := [] }
    | _ => none
  | .stopped =>
    match p.phase with
    | .stopping =>
      if p.applyLock.holder = some .shutdown then some { p with phase := .drainingBackfill .waited }
      else none
    | _ => none
  -- the wait looks for the lock once more before it gives up
  | .stopTimeout =>
    match p.phase with
    | .stopping =>
      if p.applyLock.holder = some .shutdown then none
      else some { p with
        applyLock := p.applyLock.cancel .shutdown
        phase := .drainingBackfill .timedOut }
    | _ => none
  | .backfillDrained =>
    match p.phase with
    | .drainingBackfill drain =>
      some { p with phase := .drainingReconciler drain, notified := true }
    | _ => none
  | .reconcilerDrained =>
    match p.phase, p.reconciler with
    | .drainingReconciler drain, .returned => some { p with phase := .exiting drain true }
    | _, _ => none
  | .reconcilerTimeout =>
    match p.phase with
    | .drainingReconciler drain => some { p with phase := .exiting drain false }
    | _ => none

/-! ### Who has the lock -/

/-- Shutdown has not asked for the lock. -/
def Unasked (p : Process) : Prop :=
  p.applyLock.holder ≠ some .shutdown ∧ ∃ hashes : List String,
    p.applyLock.waiting = hashes.map Applier.block

/-- Shutdown waits behind blocks that waited before it, or is served. -/
def Waiting (p : Process) : Prop :=
  (p.applyLock.holder = some .shutdown ∧ p.since = p.ahead) ∨
    p.applyLock.holder ≠ some .shutdown ∧ ∃ rest, p.since ++ rest = p.ahead ∧
      p.applyLock.WaitsBehind .shutdown (rest.map Applier.block)

/-- Shutdown keeps the lock, and had it after those ahead of it. -/
def Kept (p : Process) : Prop := p.applyLock.holder = some .shutdown ∧ p.since = p.ahead

def LockInv (p : Process) : Prop :=
  match p.phase with
  | .running | .asking => p.Unasked
  | .stopping => p.Waiting
  | .drainingBackfill drain | .drainingReconciler drain | .exiting drain _ =>
    drain ≠ .timedOut → p.Kept

structure ProcessInv (first : System) (p : Process) : Prop where
  /-- Without the lock, the loop and the shutdown, the process is a system. -/
  ran : ReflTransGen System.Step first p.sys
  applying : p.sys.block ≠ none → ∃ hash, p.applyLock.holder = some (.block hash)
  resting : p.reconciler ≠ .ticking → p.sys.tickOver = true
  lock : p.LockInv
  drained : ∀ drain, p.phase = .exiting drain true → p.reconciler = .returned

variable {p next : Process} {first : System}

theorem LockInv.map (inv : p.LockInv) (phase : next.phase = p.phase)
    (unasked : p.Unasked → next.Unasked) (waiting : p.Waiting → next.Waiting)
    (kept : p.Kept → next.Kept) : next.LockInv := by
  rw [LockInv, phase]
  rw [LockInv] at inv
  split at inv
  · exact unasked inv
  · exact unasked inv
  · exact waiting inv
  all_goals exact fun inTime => kept (inv inTime)

/-- The lock is kept from the moment the blocks are stopped in time. -/
theorem LockInv.kept (inv : p.LockInv) {drain : BlockDrain}
    (stopped : p.phase.blockDrain = some drain) (inTime : drain ≠ .timedOut) : p.Kept := by
  rw [LockInv] at inv
  cases phase : p.phase with
  | running | asking | stopping => simp [phase, ShutdownPhase.blockDrain] at stopped
  | drainingBackfill other | drainingReconciler other | exiting other _ =>
    simp only [phase, ShutdownPhase.blockDrain, Option.some.injEq] at stopped inv
    exact inv (stopped ▸ inTime)

theorem Unasked.callApply {hash : String} (unasked : p.Unasked) :
    (p.callApply hash).Unasked := by
  obtain ⟨other, hashes, queue⟩ := unasked
  by_cases available : p.applyLock.holder = none
  · obtain ⟨holder, waiting⟩ := FifoLock.request_of_free (a := .block hash) available
    exact ⟨by simp [Process.callApply, holder], [], waiting⟩
  · obtain ⟨holder, waiting⟩ := FifoLock.request_of_held (a := .block hash) available
    refine ⟨fun same => other (holder ▸ same), hashes ++ [hash], ?_⟩
    simpa [Process.callApply, queue] using waiting

/-- A block that comes after shutdown waits behind it. -/
theorem since_callApply {hash : String} (held : p.applyLock.holder ≠ none) :
    (p.callApply hash).since = p.since := by
  simp [Process.callApply, held]

theorem Kept.callApply {hash : String} (kept : p.Kept) : (p.callApply hash).Kept := by
  have held : p.applyLock.holder ≠ none := by simp [kept.1]
  exact ⟨(FifoLock.request_of_held held).1.trans kept.1, (since_callApply held).trans kept.2⟩

theorem Waiting.callApply {hash : String} (waiting : p.Waiting) :
    (p.callApply hash).Waiting := by
  rcases waiting with kept | ⟨other, rest, ordered, waits⟩
  · exact .inl (Kept.callApply kept)
  · refine .inr ⟨fun same => other ((FifoLock.request_of_held waits.held).1 ▸ same), rest, ?_,
      waits.request _⟩
    rw [since_callApply waits.held]
    exact ordered

/-- All that wait when shutdown asks are blocks, and it waits behind them. -/
theorem Unasked.ask (unasked : p.Unasked) :
    Waiting { p with
      applyLock := p.applyLock.request .shutdown
      phase := .stopping
      ahead := p.applyLock.waiting.filterMap Applier.hash?
      since := [] } := by
  obtain ⟨other, hashes, queue⟩ := unasked
  have names : p.applyLock.waiting.filterMap Applier.hash? = hashes := by
    rw [queue, List.filterMap_map]
    exact List.filterMap_some
  by_cases available : p.applyLock.holder = none
  · refine .inl ⟨(FifoLock.request_of_free available).1, ?_⟩
    simp [p.applyLock.idle available]
  · refine .inr ⟨fun same => other ((FifoLock.request_of_held available).1 ▸ same), hashes,
      names.symm, ?_⟩
    exact queue ▸ FifoLock.waitsBehind_request available

theorem Unasked.endApply (unasked : p.Unasked) : p.endApply.Unasked := by
  obtain ⟨-, hashes, queue⟩ := unasked
  cases hashes with
  | nil => simp [Unasked, Process.endApply, FifoLock.release, queue, FifoLock.free]
  | cons hash hashes => simp [Unasked, Process.endApply, FifoLock.release, queue]

/-- The lock goes on to the next block ahead of shutdown, or to shutdown. -/
theorem Waiting.endApply {hash : String} (waiting : p.Waiting)
    (applying : p.applyLock.holder = some (.block hash)) : p.endApply.Waiting := by
  rcases waiting with ⟨kept, -⟩ | ⟨-, rest, ordered, waits⟩
  · simp [kept] at applying
  · cases rest with
    | nil =>
      have served := waits.release_nil
      refine .inl ⟨served, ?_⟩
      simpa [Process.endApply, served, Applier.hash?] using ordered
    | cons next rest =>
      obtain ⟨served, waits⟩ := waits.release_cons
      refine .inr ⟨by simp [Process.endApply, served], rest, ?_, waits⟩
      simpa [Process.endApply, served, Applier.hash?] using ordered

theorem Kept.not_applying {hash : String} (kept : p.Kept) :
    p.applyLock.holder ≠ some (.block hash) := by simp [kept.1]

/-- The clock, the producers and the backfill worker touch neither the tick nor the block. -/
theorem world_step {op : SystemOp} (stepped : p.step (.world op) = some next) :
    ∃ sys, p.sys.step op = some sys ∧ next = { p with sys } ∧ sys.block = p.sys.block ∧
      sys.tickOver = p.sys.tickOver := by
  rw [step] at stepped
  split_ifs at stepped with outside
  obtain ⟨sys, moved, rfl⟩ := Option.map_eq_some_iff.mp stepped
  refine ⟨sys, moved, rfl, ?_⟩
  cases op with
  | tick | block => cases outside
  | advance elapsed =>
    obtain ⟨gate, advanced, rfl⟩ := System.step_advance moved
    exact ⟨rfl, System.tickOver_congr rfl (GateState.lease_step advanced (by simp))⟩
  | produce | backfillRaw | backfillFee =>
    obtain rfl := Option.some.inj moved
    exact ⟨rfl, rfl⟩

namespace ProcessInv

theorem initial (now : ℕ) (ledger : MempoolLedger) (db : Db) :
    ProcessInv (.initial now ledger db) (.initial now ledger db) where
  ran := .refl
  applying going := absurd rfl going
  resting _ := rfl
  lock := ⟨nofun, [], rfl⟩
  drained _ exiting := by cases exiting

/-- A step of the system under the same lock and shutdown. -/
theorem withSys (inv : ProcessInv first p) {sys : System} (moved : System.Step p.sys sys)
    (applying : sys.block ≠ none → ∃ hash, p.applyLock.holder = some (.block hash))
    (rests : sys.tickOver = p.sys.tickOver) : ProcessInv first { p with sys } where
  ran := inv.ran.tail moved
  applying := applying
  resting still := rests.trans (inv.resting still)
  lock := inv.lock
  drained := inv.drained

theorem withTick (inv : ProcessInv first p) {op : TickOp} {sys : System}
    (moved : p.sys.stepTick op = some sys) (looping : p.reconciler ≠ .returned) :
    ProcessInv first (p.withTick sys) where
  ran := inv.ran.tail ⟨.tick op, moved⟩
  applying := by
    rw [Process.withTick, System.block_stepTick moved]
    exact inv.applying
  resting still := by
    rw [Process.withTick] at still ⊢
    split_ifs at still with rests
    · exact rests
    · exact absurd rfl still
  lock := inv.lock
  drained drain exiting := absurd (inv.drained drain exiting) looping

/-- A step of the shutdown. -/
theorem withPhase (inv : ProcessInv first p) {phase : ShutdownPhase} {notified : Bool}
    (lock : { p with phase, notified }.LockInv)
    (drained : ∀ drain, phase = .exiting drain true → p.reconciler = .returned) :
    ProcessInv first { p with phase, notified } :=
  ⟨inv.ran, inv.applying, inv.resting, lock, drained⟩

theorem endApply (inv : ProcessInv first p) (ended : p.sys.block = none) {hash : String}
    (applying : p.applyLock.holder = some (.block hash)) : ProcessInv first p.endApply where
  ran := inv.ran
  applying going := absurd ended going
  resting := inv.resting
  lock := inv.lock.map rfl Unasked.endApply (fun waiting => waiting.endApply applying)
    fun kept => absurd applying kept.not_applying
  drained := inv.drained

theorem callApply (inv : ProcessInv first p) (hash : String) :
    ProcessInv first (p.callApply hash) where
  ran := inv.ran
  applying going := by
    obtain ⟨other, held⟩ := inv.applying going
    have taken : p.applyLock.holder ≠ none := by simp [held]
    exact ⟨other, (FifoLock.request_of_held taken).1.trans held⟩
  resting := inv.resting
  lock := inv.lock.map rfl Unasked.callApply Waiting.callApply Kept.callApply
  drained := inv.drained

theorem step {op : ProcessOp} (inv : ProcessInv first p) (stepped : p.step op = some next) :
    ProcessInv first next := by
  cases op with
  | world op =>
    obtain ⟨sys, moved, rfl, block, rests⟩ := world_step stepped
    exact inv.withSys ⟨op, moved⟩ (block ▸ inv.applying) rests
  | apply hash =>
    cases stepped
    exact inv.callApply hash
  | start =>
    simp only [Process.step] at stepped
    split at stepped
    · rename_i hash holder
      obtain ⟨sys, moved, rfl⟩ := Option.map_eq_some_iff.mp stepped
      exact inv.withSys ⟨.block (.start hash), moved⟩ (fun _ => ⟨hash, holder⟩)
        (System.tickOver_stepBlock moved)
    · cases stepped
  | block op =>
    rw [Process.step] at stepped
    split_ifs at stepped with none
    obtain ⟨sys, moved, rfl⟩ := Option.map_eq_some_iff.mp stepped
    obtain ⟨hash, holder⟩ := inv.applying (by simpa using none)
    have after : ProcessInv first { p with sys } :=
      inv.withSys ⟨.block op, moved⟩ (fun _ => ⟨hash, holder⟩) (System.tickOver_stepBlock moved)
    split_ifs with ended
    · exact after.endApply (Option.isNone_iff_eq_none.mp ended) holder
    · exact after
  | spawnReconciler =>
    simp only [Process.step] at stepped
    split at stepped
    · rename_i unspawned
      cases stepped
      exact ⟨inv.ran, inv.applying, fun _ => inv.resting (by simp [unspawned]), inv.lock,
        fun drain exiting => absurd ((inv.drained drain exiting).symm.trans unspawned) nofun⟩
    · cases stepped
  | beginTick =>
    simp only [Process.step] at stepped
    split at stepped
    · rename_i selecting
      obtain ⟨sys, moved, rfl⟩ := Option.map_eq_some_iff.mp stepped
      exact inv.withTick moved (by simp [selecting])
    · cases stepped
  | tick op =>
    simp only [Process.step] at stepped
    split at stepped
    · rename_i ticking
      obtain ⟨sys, moved, rfl⟩ := Option.map_eq_some_iff.mp stepped
      exact inv.withTick moved (by simp [ticking])
    · cases stepped
  | returnLoop =>
    simp only [Process.step] at stepped
    split at stepped
    · rename_i selecting _
      cases stepped
      exact ⟨inv.ran, inv.applying, fun _ => inv.resting (by simp [selecting]), inv.lock,
        fun _ _ => rfl⟩
    · cases stepped
  | signal =>
    simp only [Process.step] at stepped
    split at stepped
    · rename_i running
      split_ifs at stepped with available
      · cases stepped
        have holder := (FifoLock.request_of_free (a := Applier.shutdown)
          (Option.isNone_iff_eq_none.mp available)).1
        refine ⟨inv.ran, fun going => ?_, inv.resting, fun _ => ⟨holder, rfl⟩, nofun⟩
        obtain ⟨hash, held⟩ := inv.applying going
        simp [held] at available
      · cases stepped
        have lock := inv.lock
        rw [LockInv, running] at lock
        exact ⟨inv.ran, inv.applying, inv.resting, lock, nofun⟩
    · cases stepped
  | ask =>
    simp only [Process.step] at stepped
    split at stepped
    · rename_i asking
      cases stepped
      have lock := inv.lock
      rw [LockInv, asking] at lock
      refine ⟨inv.ran, fun going => ?_, inv.resting, lock.ask, nofun⟩
      obtain ⟨hash, held⟩ := inv.applying going
      exact ⟨hash, (FifoLock.request_of_held (by simp [held])).1.trans held⟩
    · cases stepped
  | stopped =>
    simp only [Process.step] at stepped
    split at stepped
    · rename_i stopping
      split_ifs at stepped with holder
      cases stepped
      have lock := inv.lock
      rw [LockInv, stopping] at lock
      exact inv.withPhase (fun _ => lock.resolve_right fun behind => behind.1 holder) nofun
    · cases stepped
  | stopTimeout =>
    simp only [Process.step] at stepped
    split at stepped
    · split_ifs at stepped
      cases stepped
      exact ⟨inv.ran, inv.applying, inv.resting, fun inTime => absurd rfl inTime, nofun⟩
    · cases stepped
  | backfillDrained =>
    simp only [Process.step] at stepped
    split at stepped
    · rename_i drain draining
      cases stepped
      exact inv.withPhase (inv.lock.kept (congrArg ShutdownPhase.blockDrain draining)) nofun
    · cases stepped
  | reconcilerDrained =>
    simp only [Process.step] at stepped
    split at stepped
    · rename_i drain draining returned
      cases stepped
      exact inv.withPhase (inv.lock.kept (congrArg ShutdownPhase.blockDrain draining))
        fun _ _ => returned
    · cases stepped
  | reconcilerTimeout =>
    simp only [Process.step] at stepped
    split at stepped
    · rename_i drain draining
      cases stepped
      exact inv.withPhase (inv.lock.kept (congrArg ShutdownPhase.blockDrain draining)) nofun
    · cases stepped

end ProcessInv

/-- Whatever is interleaved with the shutdown, the process is a run of the system of ticks,
blocks and producers. Once the blocks were stopped without a timeout, none is under way and none
starts, and the blocks that were applied after the signal are exactly those that already waited;
if the reconciler was drained too, the process ends between two ticks with an open gate. -/
theorem drained_exit_is_quiet {now : ℕ} {ledger : MempoolLedger} {db : Db}
    {ops : List ProcessOp} {p : Process}
    (ran : Runs.run step (.initial now ledger db) ops = some p) :
    ReflTransGen System.Step (.initial now ledger db) p.sys ∧
    (∀ drain, p.phase.blockDrain = some drain → drain ≠ .timedOut →
      p.sys.block = none ∧ p.applyLock.holder = some .shutdown ∧ p.since = p.ahead) ∧
    (p.phase = .stopping → p.since <+: p.ahead) ∧
    ∀ drain, p.phase = .exiting drain true → p.reconciler = .returned ∧ p.sys.tick = .idle ∧
      (drain ≠ .timedOut → p.sys.gate.gate = .default) := by
  have inv : ProcessInv (.initial now ledger db) p :=
    run_induction (motive := ProcessInv (.initial now ledger db))
      (fun _ _ _ inv stepped => inv.step stepped) (.initial now ledger db) ran
  have quiet (drain : BlockDrain) (stopped : p.phase.blockDrain = some drain)
      (inTime : drain ≠ .timedOut) : p.sys.block = none ∧ p.Kept := by
    have kept := inv.lock.kept stopped inTime
    refine ⟨?_, kept⟩
    by_contra going
    obtain ⟨hash, held⟩ := inv.applying going
    exact kept.not_applying held
  refine ⟨inv.ran, quiet, fun stopping => ?_, fun drain exiting => ?_⟩
  · have lock := inv.lock
    rw [LockInv, stopping] at lock
    rcases lock with ⟨-, all⟩ | ⟨-, rest, ordered, -⟩
    · exact all ▸ List.prefix_rfl
    · exact ⟨rest, ordered⟩
  · have returned := inv.drained drain exiting
    obtain ⟨idle, lease⟩ := System.tickOver_iff.mp (inv.resting (by simp [returned]))
    refine ⟨returned, idle, fun inTime => ?_⟩
    have stopped : p.phase.blockDrain = some drain := by simp [exiting, ShutdownPhase.blockDrain]
    have sysInv : SystemInv p.sys := (SystemInv.initial now ledger db).run inv.ran
    have absent : p.sys.gate.holder.phase = .absent := by
      rw [sysInv.phase, System.blockPhase, (quiet drain stopped inTime).1]
    exact sysInv.gate.gate_eq_default absent lease

/-- A block is under way and another waits when the signal comes; both end, a third comes too
late, and the loop ticks once more before it returns. -/
def stopBetweenBlocks : List ProcessOp :=
  [.spawnReconciler, .apply "a", .start, .block .lock, .block .grant, .apply "b", .signal, .ask,
    .apply "c", .block .fail, .start, .block .lock, .block .grant, .block .fail, .stopped,
    .backfillDrained, .beginTick, .tick .checkHeld, .tick (.beginFlush ⟨fun _ => 5, .sorted _⟩),
    .returnLoop, .reconcilerDrained]

theorem stopBetweenBlocks_is_quiet :
    ∃ p, Runs.run step (.initial 0 .default .empty) stopBetweenBlocks = some p ∧
      p.phase = .exiting .waited true ∧ p.ahead = ["b"] ∧
      (p.sys.block = none ∧ p.applyLock.holder = some .shutdown ∧ p.since = p.ahead) ∧
      p.reconciler = .returned ∧ p.sys.tick = .idle ∧ p.sys.gate.gate = .default := by
  have ends : (Runs.run step (.initial 0 .default .empty) stopBetweenBlocks).map
      (fun p => (p.phase, p.ahead)) = some (.exiting .waited true, ["b"]) := by decide +kernel
  obtain ⟨p, ran, seen⟩ := Option.map_eq_some_iff.mp ends
  obtain ⟨exiting, ahead⟩ := Prod.mk.inj seen
  obtain ⟨-, stopped, -, exits⟩ := drained_exit_is_quiet ran
  obtain ⟨returned, idle, gate⟩ := exits .waited exiting
  exact ⟨p, ran, exiting, ahead, stopped .waited (congrArg ShutdownPhase.blockDrain exiting) nofun,
    returned, idle, gate nofun⟩

end Process

end MempoolObserver
