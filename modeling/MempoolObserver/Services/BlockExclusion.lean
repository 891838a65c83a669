import MempoolObserver.Services.Schedule

/-!
# A block and a flush exclude each other

As long as no hold of the gate reaches `maxHold`, nothing a tick writes falls
between the return of `acquire` and the drop of its guard. The labels of the
removes follow: a block's confirmations and a batch's lookups never interleave,
so a batch commits in the database state its lookups read.
-/

namespace MempoolObserver

open Relation

namespace System

/-- Less than `maxHold` has passed since the start of an `acquire` whose guard is
not dropped yet. -/
def Timely (s : System) : Prop :=
  ∀ start, s.gate.holder.start = some start → s.gate.now < start + maxHold

instance (s : System) : Decidable s.Timely :=
  inferInstanceAs (Decidable (∀ start ∈ s.gate.holder.start, s.gate.now < start + maxHold))

def TimelyStep (s next : System) : Prop := s.Step next ∧ next.Timely

/-- How a tick comes to be writing. -/
theorem writing_stepTick {s next : System} {op : TickOp} {batch : List JournalEntry} {tx : BatchTx}
    (h : s.stepTick op = some next) (writing : next.tick = .writing batch tx) :
    next.db = s.db ∧ ((∃ call, tx = .begin call batch) ∨
      ∃ before, s.tick = .writing batch before ∧
        (before.proceed = some tx ∨ before.exec s.db = some tx ∨
          tx = { before with cleared := true })) := by
  -- A transaction under way was begun now, or went on from the one before.
  cases stepTick_cases h with
  | tryLock idle => simp [idle] at writing
  | @checkHeld gate =>
    by_cases leased : gate.lease = .leased <;> simp [leased] at writing
  | @beginFlush call =>
    cases writing
    exact ⟨rfl, .inl ⟨call, rfl⟩⟩
  | proceed was proceeded =>
    cases writing
    exact ⟨rfl, .inr ⟨_, was, .inl proceeded⟩⟩
  | exec was executed =>
    cases writing
    exact ⟨rfl, .inr ⟨_, was, .inr (.inl executed)⟩⟩
  | clears was =>
    cases writing
    exact ⟨rfl, .inr ⟨_, was, .inr (.inr rfl)⟩⟩
  | clusterTx syncing => simp [syncing] at writing
  | nothing | bails | fail | commitDb | commitBatch | finish => cases writing

theorem tick_stepBlock {s next : System} {op : BlockOp} (h : s.stepBlock op = some next) :
    next.tick = s.tick := by
  cases stepBlock_cases h <;> rfl

theorem block_stepTick {s next : System} {op : TickOp} (h : s.stepTick op = some next) :
    next.block = s.block := by
  cases stepTick_cases h <;> rfl

end System

/-- A write of the tick: a statement of its batch, the commit, or a transaction
of its cluster sync. -/
def TickOp.Writes : TickOp → Prop
  | exec | commitDb | clusterTx _ => True
  | _ => False

/-- Lookups are right in every database with the same confirmations. -/
theorem BatchTx.Classified.congr {tx : BatchTx} {db next : Db} (classified : tx.Classified db)
    (same : ∀ txid, next.isConfirmed txid = db.isConfirmed txid) : tx.Classified next where
  sound txid found := (same txid).trans (classified.sound txid found)
  complete txid removed asked mined :=
    classified.complete txid removed asked ((same txid).symm.trans mined)

/-- In time, a tick has a lease only while no guard is alive. -/
theorem SystemInv.not_held_of_tick {s : System} (inv : SystemInv s) (timely : s.Timely)
    (going : s.tick ≠ .idle) : s.gate.holder.phase ≠ .held := by
  intro held
  cases holder : s.gate.holder with
  | holding start granted =>
    have passed := inv.gate.expired start granted holder (inv.leased.mpr going)
    have early := timely start (by rw [holder]; rfl)
    omega
  | none | shut | queued | granting => simp [holder, Holder.phase] at held

/-- What a timely run keeps: a batch being written was classified rightly. -/
structure ExclusionInv (s : System) : Prop where
  system : SystemInv s
  timely : s.Timely
  classified : ∀ batch tx, s.tick = .writing batch tx → tx.Classified s.db

theorem ExclusionInv.initial (now : ℕ) (ledger : MempoolLedger) (db : Db) :
    ExclusionInv (.initial now ledger db) where
  system := .initial now ledger db
  timely start started := by simp [System.initial, GateState.initial, Holder.start] at started
  classified batch tx writing := by simp [System.initial] at writing

/-- Nothing confirms a transaction while a batch is being written. -/
theorem ExclusionInv.isConfirmed_step {s next : System} {op : SystemOp} (inv : ExclusionInv s)
    (h : s.step op = some next) {batch : List JournalEntry} {tx : BatchTx}
    (writing : s.tick = .writing batch tx) (txid : Txid) :
    next.db.isConfirmed txid = s.db.isConfirmed txid := by
  obtain same | ⟨batch, tx, was, -, -, rfl⟩ | ⟨hash, block, seenAt, db, inserting, -, -, rfl⟩ :=
    System.db_step h
  · exact same.isConfirmed txid
  · exact BatchTx.isConfirmed_commit (inv.system.batch batch tx was).1 s.db txid
  · -- the block inserts under its guard, so no tick is at work
    have notHeld := inv.system.not_held_of_tick inv.timely (by simp [writing])
    rw [inv.system.phase] at notHeld
    simp [System.blockPhase, inserting] at notHeld

theorem ExclusionInv.step {s next : System} (inv : ExclusionInv s) (h : s.TimelyStep next) :
    ExclusionInv next := by
  obtain ⟨⟨op, step⟩, timely⟩ := h
  refine ⟨inv.system.step step, timely, fun batch tx writing => ?_⟩
  have carried (was : s.tick = .writing batch tx) : tx.Classified next.db :=
    (inv.classified batch tx was).congr (inv.isConfirmed_step step was)
  cases op with
  -- The tick may move the transaction, which was classified against the same tables.
  | tick op =>
    obtain ⟨db, ⟨call, rfl⟩ | ⟨before, was, going⟩⟩ := System.writing_stepTick step writing
    · exact .begin call batch next.db
    · have classified := inv.classified batch before was
      rw [db]
      rcases going with proceeded | executed | rfl
      · exact classified.proceed proceeded
      · exact classified.exec executed
      · exact ⟨classified.sound, classified.complete⟩
  -- A block leaves the tick alone, and what it confirms the batch does not touch.
  | block op => exact carried ((System.tick_stepBlock step).symm.trans writing)
  | advance elapsed =>
    obtain ⟨gate, -, rfl⟩ := System.step_advance step
    exact carried writing
  | produce | backfillRaw | backfillFee =>
    cases step
    exact carried writing

theorem ExclusionInv.run {first s : System} (inv : ExclusionInv first)
    (run : ReflTransGen System.TimelyStep first s) : ExclusionInv s := by
  induction run with
  | refl => exact inv
  | tail _ step ih => exact ih.step step

/-- A batch labels its removes by the database it commits to. -/
theorem ExclusionInv.commitDb_labels {s next : System} (inv : ExclusionInv s)
    (h : s.step (.tick .commitDb) = some next) :
    ∃ rows, next.db.mempoolDeltas = s.db.mempoolDeltas ++ rows ∧
      ∀ row ∈ rows, row.reason.direction = .remove →
        (row.reason = .removeConfirmed ↔ next.db.isConfirmed row.txid = true) := by
  obtain ⟨batch, tx, writing, ready, rfl⟩ := System.stepTick_commitDb h
  have sound := (inv.system.batch batch tx writing).1
  refine ⟨tx.deltas, rfl, fun row written removed => ?_⟩
  rw [BatchTx.isConfirmed_commit sound]
  exact BatchTx.reason_iff_isConfirmed sound (inv.classified batch tx writing) ready written
    removed

/-- A tick that writes has begun. -/
theorem System.tick_of_writes {s next : System} {op : TickOp} (writes : op.Writes)
    (h : s.stepTick op = some next) : s.tick ≠ .idle := by
  intro idle
  cases stepTick_cases h with
  | exec going | commitDb going | clusterTx going => simp [idle] at going
  | tryLock | checkHeld | beginFlush | nothing | proceed | bails | clears | fail | commitBatch
  | finish => exact writes

/-- **Gate exclusion and label consistency.** Under every schedule in which no
hold of the gate reaches `maxHold`: no write of a tick is possible while a guard
is alive; a batch that commits labels a remove confirmed exactly when its
transaction has `confirmed_at` set in the database it commits to; and without a
holder the gate is open. -/
theorem gate_excludes_and_labels {now : ℕ} {ledger : MempoolLedger} {db : Db} {s : System}
    (run : ReflTransGen System.TimelyStep (.initial now ledger db) s) :
    (∀ start granted, s.gate.holder = .holding start granted →
      ∀ op, op.Writes → s.step (.tick op) = none) ∧
    (∀ next, s.step (.tick .commitDb) = some next →
      ∃ rows, next.db.mempoolDeltas = s.db.mempoolDeltas ++ rows ∧
        ∀ row ∈ rows, row.reason.direction = .remove →
          (row.reason = .removeConfirmed ↔ next.db.isConfirmed row.txid = true)) ∧
    (s.gate.holder = .none → s.isHeld = false ∧
      (s.gate.lease = .none → (s.gate.gate.tryBeginFlush s.gate.now).1 = true)) := by
  have inv := (ExclusionInv.initial now ledger db).run run
  refine ⟨fun start granted holding op writes => ?_, fun next committed => ?_, fun free => ?_⟩
  -- A tick that writes would find the gate shut.
  · rw [Option.eq_none_iff_forall_ne_some]
    intro next step
    have notHeld := inv.system.not_held_of_tick inv.timely (System.tick_of_writes writes step)
    simp [holding, Holder.phase] at notHeld
  · exact inv.commitDb_labels committed
  -- With no holder there is no stamp, so the gate is open to the next flush.
  · have opened : s.gate.gate.heldSince = none := by
      simpa [Holder.Stamped, free, Holder.start] using inv.system.gate.stamped
    refine ⟨by simp [System.isHeld, BlockGate.isHeld, opened], fun unleased => ?_⟩
    have unlocked : ¬ s.gate.gate.inFlight = true := by
      rw [inv.system.gate.locked]
      simp [unleased, free]
    simp [BlockGate.tryBeginFlush, unlocked, BlockGate.isHeld, opened]

/-- A schedule in which no hold reaches `maxHold`. -/
def System.timelySteps (s : System) (ops : List SystemOp) : Option System :=
  ops.foldlM (fun s op => (s.step op).filter fun next => next.Timely) s

theorem System.run_of_timelySteps {first last : System} {ops : List SystemOp}
    (h : first.timelySteps ops = some last) : ReflTransGen System.TimelyStep first last := by
  refine Collections.foldlM_option_induction (motive := ReflTransGen System.TimelyStep first) ?_
    .refl h
  intro before op _ after reached stepped
  obtain ⟨step, timely⟩ := Option.filter_eq_some_iff.mp stepped
  exact reached.tail ⟨⟨op, step⟩, of_decide_eq_true timely⟩

/-- A block is granted the gate. -/
def holdGate : List SystemOp := [.block (.start "h"), .block .lock, .block .grant]

/-- The block mines `t`, and a tick is about to commit its removal. -/
def mineThenFlush : List SystemOp :=
  let call : Call := ⟨fun _ => 7, .sorted Txid⟩
  [BlockOp.fetched ⟨"h", 11, 100, [⟨"t", 400, 10, []⟩]⟩, .insert 90, .assertAbsent call,
      .finish].map SystemOp.block ++
    [TickOp.tryLock, .checkHeld, .beginFlush call, .bailIf, .exec, .proceed, .bailIf, .exec,
      .proceed, .proceed, .proceed, .bailIf].map SystemOp.tick

/-- While the block holds the gate no tick commits, and the tick after it commits the
removal as confirmed. -/
theorem granted_excludes_writes :
    let resident := System.initial 0 ⟨{"t"}, [], false⟩ .empty
    ∃ granted s next, resident.timelySteps holdGate = some granted ∧
      granted.timelySteps mineThenFlush = some s ∧ granted.gate.holder = .holding 0 0 ∧
      granted.step (.tick .commitDb) = none ∧
      s.step (.tick .commitDb) = some next ∧
      next.db.mempoolDeltas = [⟨"t", .removeConfirmed, 7⟩] ∧
      ∀ row ∈ next.db.mempoolDeltas, row.reason.direction = .remove →
        (row.reason = .removeConfirmed ↔ next.db.isConfirmed row.txid = true) := by
  intro resident
  have facts : (resident.timelySteps holdGate).map (fun granted => (granted.gate.holder,
      (granted.timelySteps mineThenFlush).map fun s =>
        (s.db.mempoolDeltas, (s.step (.tick .commitDb)).map fun next => next.db.mempoolDeltas))) =
      some (.holding 0 0, some ([], some [⟨"t", .removeConfirmed, 7⟩])) := by decide +kernel
  obtain ⟨granted, grants, facts⟩ := Option.map_eq_some_iff.mp facts
  obtain ⟨holding, facts⟩ := Prod.ext_iff.mp facts
  obtain ⟨s, flushes, facts⟩ := Option.map_eq_some_iff.mp facts
  simp only [Prod.mk.injEq] at facts
  obtain ⟨empty, facts⟩ := facts
  obtain ⟨next, commits, written⟩ := Option.map_eq_some_iff.mp facts
  have run := System.run_of_timelySteps grants
  have later := run.trans (System.run_of_timelySteps flushes)
  obtain ⟨rows, stored, labels⟩ := (gate_excludes_and_labels later).2.1 next commits
  rw [empty, List.nil_append] at stored
  have excluded := (gate_excludes_and_labels run).1 0 0 holding .commitDb trivial
  exact ⟨granted, s, next, grants, flushes, holding, excluded, commits, written, stored ▸ labels⟩

end MempoolObserver
