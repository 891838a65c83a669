import MempoolObserver.Db.ClusterMembership
import MempoolObserver.Db.MempoolDeltas
import MempoolObserver.Infra.BlockGate

/-!
# Ticks, blocks and producers, interleaved

The reconciler's tick and `apply_block` as two programs over one gate, one
ledger and one database, with the ledger's producers and the backfill worker
around them. A step is what one of them does between two of its await points: a
statement, a commit, a check of the gate. Any schedule is a run of
`System.step`.

The cluster work of both sides is left open here: while a tick syncs, and while
a block confirms, any transaction of the membership repository may commit.
-/

namespace MempoolObserver

open Relation

namespace Producer

/-- The call as an operation on ledger and stored rows. -/
def flushOp : Producer → FlushOp
  | submitAuthoritative call txids => .submitAuthoritative call txids
  | assertPresent call txids => .assertPresent call txids
  | assertAbsent call txids => .assertAbsent call txids

end Producer

/-- Where the reconciler's tick stands. -/
inductive TickPc where
  /-- No tick, or one that has no lease yet. -/
  | idle
  | leased
  | writing (batch : List JournalEntry) (tx : BatchTx)
  /-- The batch is committed to the database and still in the journal. -/
  | written (batch : List JournalEntry) (outcome : FlushOutcome)
  /-- `sync_clusters_after_flush`. -/
  | syncing

/-- Where `apply_block` stands. -/
inductive BlockStage where
  | acquiring
  | fetching
  | inserting (block : GetBlockModel)
  | asserting (block : GetBlockModel)
  /-- `confirm_mined` and the announcement. -/
  | confirming (block : GetBlockModel)

structure BlockRun where
  hash : String
  stage : BlockStage

def GetBlockModel.toBlock (block : GetBlockModel) : Block :=
  ⟨block.hash, block.height, block.minedAt⟩

/-- The rows a block inserts for its transactions. -/
def GetBlockModel.newTransactions (seenAt : OffsetDateTime) (block : GetBlockModel) :
    List NewTransaction :=
  block.txs.map fun tx =>
    { txid := tx.txid
      row :=
        { fee := some tx.feeSats
          weight := tx.weight
          firstSeenAt := seenAt
          confirmedAt := some block.minedAt
          clusterId := none
          confirmedAtBlock := some block.hash
          inputTxids := some tx.inputTxids } }

structure System where
  gate : GateState
  ledger : MempoolLedger
  db : Db
  tick : TickPc
  /-- The `apply_block` under way; `apply_lock` allows one. -/
  block : Option BlockRun

inductive TickOp where
  | tryLock
  | checkHeld
  | beginFlush (call : Call)
  | proceed
  | bailIf
  | exec
  /-- A statement, or the commit, fails. -/
  | fail
  | commitDb
  | commitBatch
  | clusterTx (tx : ClusterTx)
  | finish

inductive BlockOp where
  | start (hash : String)
  | lock
  | grant
  | cancel
  | fetched (block : GetBlockModel)
  | insert (seenAt : OffsetDateTime)
  | assertAbsent (call : Call)
  | clusterTx (tx : ClusterTx)
  | finish
  /-- A step of the body fails, or the call is dropped. -/
  | fail

inductive SystemOp where
  | advance (elapsed : ℕ)
  | produce (producer : Producer)
  | backfillRaw (txid : Txid) (inputTxids : List Txid) (weight : Int64)
  | backfillFee (txid : Txid) (fee : Int64)
  | tick (op : TickOp)
  | block (op : BlockOp)

namespace System

def initial (now : ℕ) (ledger : MempoolLedger) (db : Db) : System :=
  ⟨.initial now, ledger, db, .idle, none⟩

/-- The tick returns, which drops its lease. -/
def endTick (s : System) : Option System :=
  (s.gate.step .dropLease).map fun gate => { s with gate := gate, tick := .idle }

/-- `apply_block` returns, which drops its guard. -/
def endBlock (s : System) : Option System :=
  (s.gate.step .dropGuard).map fun gate => { s with gate := gate, block := none }

/-- `is_held`, asked by the tick. -/
def isHeld (s : System) : Bool := (s.gate.gate.isHeld s.gate.now).1

/-- The system after the tick asked `is_held`. -/
def checked (s : System) : System :=
  { s with gate := { s.gate with gate := (s.gate.gate.isHeld s.gate.now).2 } }

def stepTick (s : System) : TickOp → Option System
  | .tryLock =>
    match s.tick with
    | .idle => (s.gate.step .tryLock).map fun gate => { s with gate := gate }
    | _ => none
  | .checkHeld =>
    match s.tick with
    | .idle => (s.gate.step .checkHeld).map fun gate =>
      { s with gate := gate, tick := if gate.lease = .leased then .leased else .idle }
    | _ => none
  | .beginFlush call =>
    match s.tick, s.ledger.beginFlush with
    | .leased, some batch => some { s with tick := .writing batch (.begin call batch) }
    | .leased, none => s.endTick
    | _, _ => none
  | .proceed =>
    match s.tick with
    | .writing batch tx => tx.proceed.map fun tx => { s with tick := .writing batch tx }
    | _ => none
  | .bailIf =>
    match s.tick with
    | .writing batch tx =>
      if tx.awaits && !tx.cleared then
        -- a shut gate rolls the batch back and ends the tick
        if s.isHeld then s.checked.endTick
        else some { s.checked with tick := .writing batch { tx with cleared := true } }
      else none
    | _ => none
  | .exec =>
    match s.tick with
    | .writing batch tx => (tx.exec s.db).map fun tx => { s with tick := .writing batch tx }
    | _ => none
  | .fail =>
    match s.tick with
    | .writing _ _ => s.endTick
    | _ => none
  | .commitDb =>
    match s.tick with
    | .writing batch tx =>
      if tx.ready then some { s with db := tx.commit s.db, tick := .written batch tx.outcome }
      else none
    | _ => none
  | .commitBatch =>
    match s.tick with
    | .written batch _ => some { s with ledger := s.ledger.commit batch, tick := .syncing }
    | _ => none
  | .clusterTx tx =>
    match s.tick with
    | .syncing => (tx.run s.db).map fun db => { s with db := db }
    | _ => none
  | .finish =>
    match s.tick with
    | .syncing => s.endTick
    | _ => none

def stepBlock (s : System) : BlockOp → Option System
  -- The handler asks for the gate before it does anything else.
  | .start hash =>
    match s.block with
    | none => (s.gate.step .acquire).map fun gate =>
      { s with gate := gate, block := some ⟨hash, .acquiring⟩ }
    | _ => none
  | .lock =>
    match s.block with
    | some ⟨_, .acquiring⟩ => (s.gate.step .lock).map fun gate => { s with gate := gate }
    | _ => none
  -- With the guard in hand the block is fetched from the node.
  | .grant =>
    match s.block with
    | some ⟨hash, .acquiring⟩ => (s.gate.step .grant).map fun gate =>
      { s with gate := gate, block := some ⟨hash, .fetching⟩ }
    | _ => none
  | .cancel =>
    match s.block with
    | some ⟨_, .acquiring⟩ => (s.gate.step .cancel).map fun gate =>
      { s with gate := gate, block := none }
    | _ => none
  | .fetched block =>
    match s.block with
    | some ⟨hash, .fetching⟩ => some { s with block := some ⟨hash, .inserting block⟩ }
    | _ => none
  -- One transaction stores the block and its rows.
  | .insert seenAt =>
    match s.block with
    | some ⟨hash, .inserting block⟩ =>
      (s.db.insertWithTransactions block.toBlock (block.newTransactions seenAt)).map fun db =>
        { s with db := db, block := some ⟨hash, .asserting block⟩ }
    | _ => none
  -- From here on the block's transactions no longer count as present.
  | .assertAbsent call =>
    match s.block with
    | some ⟨hash, .asserting block⟩ =>
      some { s with
        ledger := s.ledger.assertAbsent call block.txids
        block := some ⟨hash, .confirming block⟩ }
    | _ => none
  | .clusterTx tx =>
    match s.block with
    | some ⟨_, .confirming _⟩ => (tx.run s.db).map fun db => { s with db := db }
    | _ => none
  | .finish =>
    match s.block with
    | some ⟨_, .confirming _⟩ => s.endBlock
    | _ => none
  -- Any error drops the guard on the way out.
  | .fail =>
    match s.block with
    | some _ => s.endBlock
    | none => none

/-- One step, `none` when the operation is not possible. -/
def step (s : System) : SystemOp → Option System
  | .advance elapsed => (s.gate.step (.advance elapsed)).map fun gate => { s with gate := gate }
  | .produce producer => some { s with ledger := producer.apply s.ledger }
  | .backfillRaw txid inputTxids weight =>
    some { s with db := s.db.backfillRaw txid inputTxids weight }
  | .backfillFee txid fee => some { s with db := s.db.backfillFee txid fee }
  | .tick op => s.stepTick op
  | .block op => s.stepBlock op

def Step (s next : System) : Prop := ∃ op, s.step op = some next

/-- A whole schedule, `none` when some operation of it is not possible. -/
def steps (s : System) (ops : List SystemOp) : Option System := ops.foldlM step s

/-- How far `apply_block` is with the gate. -/
def blockPhase (s : System) : Holder.Phase :=
  match s.block with
  | none => .absent
  | some ⟨_, .acquiring⟩ => .acquiring
  | some _ => .held

/-! ### The ways to go -/

/-- The ways a tick can go, each from where it can and with what it leaves. -/
inductive TickStep (s : System) : TickOp → System → Prop
  | tryLock {gate : GateState} (idle : s.tick = .idle) (locked : s.gate.step .tryLock = some gate) :
      TickStep s .tryLock { s with gate := gate }
  | checkHeld {gate : GateState} (idle : s.tick = .idle)
      (looked : s.gate.step .checkHeld = some gate) :
      TickStep s .checkHeld
        { s with gate := gate, tick := if gate.lease = .leased then .leased else .idle }
  | beginFlush {call : Call} {batch : List JournalEntry} (leased : s.tick = .leased)
      (taken : s.ledger.beginFlush = some batch) :
      TickStep s (.beginFlush call) { s with tick := .writing batch (.begin call batch) }
  /-- Nothing is journaled. -/
  | nothing {call : Call} {gate : GateState} (leased : s.tick = .leased)
      (empty : s.ledger.beginFlush = none) (dropped : s.gate.step .dropLease = some gate) :
      TickStep s (.beginFlush call) { s with gate := gate, tick := .idle }
  | proceed {batch : List JournalEntry} {tx after : BatchTx} (writing : s.tick = .writing batch tx)
      (proceeded : tx.proceed = some after) :
      TickStep s .proceed { s with tick := .writing batch after }
  /-- The gate is shut. -/
  | bails {batch : List JournalEntry} {tx : BatchTx} {gate : GateState}
      (writing : s.tick = .writing batch tx) (held : s.isHeld = true)
      (dropped : s.checked.gate.step .dropLease = some gate) :
      TickStep s .bailIf { s.checked with gate := gate, tick := .idle }
  | clears {batch : List JournalEntry} {tx : BatchTx} (writing : s.tick = .writing batch tx)
      (free : s.isHeld = false) :
      TickStep s .bailIf { s.checked with tick := .writing batch { tx with cleared := true } }
  | exec {batch : List JournalEntry} {tx after : BatchTx} (writing : s.tick = .writing batch tx)
      (executed : tx.exec s.db = some after) :
      TickStep s .exec { s with tick := .writing batch after }
  | fail {batch : List JournalEntry} {tx : BatchTx} {gate : GateState}
      (writing : s.tick = .writing batch tx) (dropped : s.gate.step .dropLease = some gate) :
      TickStep s .fail { s with gate := gate, tick := .idle }
  | commitDb {batch : List JournalEntry} {tx : BatchTx} (writing : s.tick = .writing batch tx)
      (ready : tx.ready = true) :
      TickStep s .commitDb { s with db := tx.commit s.db, tick := .written batch tx.outcome }
  | commitBatch {batch : List JournalEntry} {outcome : FlushOutcome}
      (written : s.tick = .written batch outcome) :
      TickStep s .commitBatch { s with ledger := s.ledger.commit batch, tick := .syncing }
  | clusterTx {tx : ClusterTx} {db : Db} (syncing : s.tick = .syncing)
      (ran : tx.run s.db = some db) : TickStep s (.clusterTx tx) { s with db := db }
  | finish {gate : GateState} (syncing : s.tick = .syncing)
      (dropped : s.gate.step .dropLease = some gate) :
      TickStep s .finish { s with gate := gate, tick := .idle }

/-- The ways `apply_block` can go. -/
inductive BlockStep (s : System) : BlockOp → System → Prop
  | start {hash : String} {gate : GateState} (free : s.block = none)
      (acquired : s.gate.step .acquire = some gate) :
      BlockStep s (.start hash) { s with gate := gate, block := some ⟨hash, .acquiring⟩ }
  | lock {hash : String} {gate : GateState} (acquiring : s.block = some ⟨hash, .acquiring⟩)
      (locked : s.gate.step .lock = some gate) : BlockStep s .lock { s with gate := gate }
  | grant {hash : String} {gate : GateState} (acquiring : s.block = some ⟨hash, .acquiring⟩)
      (granted : s.gate.step .grant = some gate) :
      BlockStep s .grant { s with gate := gate, block := some ⟨hash, .fetching⟩ }
  | cancel {hash : String} {gate : GateState} (acquiring : s.block = some ⟨hash, .acquiring⟩)
      (cancelled : s.gate.step .cancel = some gate) :
      BlockStep s .cancel { s with gate := gate, block := none }
  | fetched {hash : String} {block : GetBlockModel} (fetching : s.block = some ⟨hash, .fetching⟩) :
      BlockStep s (.fetched block) { s with block := some ⟨hash, .inserting block⟩ }
  | insert {hash : String} {block : GetBlockModel} {seenAt : OffsetDateTime} {db : Db}
      (inserting : s.block = some ⟨hash, .inserting block⟩)
      (inserted : s.db.insertWithTransactions block.toBlock (block.newTransactions seenAt) =
        some db) :
      BlockStep s (.insert seenAt) { s with db := db, block := some ⟨hash, .asserting block⟩ }
  | assertAbsent {hash : String} {block : GetBlockModel} {call : Call}
      (asserting : s.block = some ⟨hash, .asserting block⟩) :
      BlockStep s (.assertAbsent call)
        { s with
          ledger := s.ledger.assertAbsent call block.txids
          block := some ⟨hash, .confirming block⟩ }
  | clusterTx {hash : String} {block : GetBlockModel} {tx : ClusterTx} {db : Db}
      (confirming : s.block = some ⟨hash, .confirming block⟩) (ran : tx.run s.db = some db) :
      BlockStep s (.clusterTx tx) { s with db := db }
  | finish {hash : String} {block : GetBlockModel} {gate : GateState}
      (confirming : s.block = some ⟨hash, .confirming block⟩)
      (dropped : s.gate.step .dropGuard = some gate) :
      BlockStep s .finish { s with gate := gate, block := none }
  | fail {run : BlockRun} {gate : GateState} (running : s.block = some run)
      (dropped : s.gate.step .dropGuard = some gate) :
      BlockStep s .fail { s with gate := gate, block := none }

theorem step_advance {s next : System} {elapsed : ℕ} (h : s.step (.advance elapsed) = some next) :
    ∃ gate, s.gate.step (.advance elapsed) = some gate ∧ next = { s with gate := gate } := by
  simp only [step] at h
  obtain ⟨gate, advanced, rfl⟩ := Option.map_eq_some_iff.mp h
  exact ⟨gate, advanced, rfl⟩

theorem stepTick_cases {s next : System} {op : TickOp} (h : s.stepTick op = some next) :
    TickStep s op next := by
  cases op with
  | tryLock =>
    simp only [stepTick] at h
    split at h
    · obtain ⟨gate, locked, rfl⟩ := Option.map_eq_some_iff.mp h
      exact .tryLock ‹_› locked
    · cases h
  | checkHeld =>
    simp only [stepTick] at h
    split at h
    · obtain ⟨gate, looked, rfl⟩ := Option.map_eq_some_iff.mp h
      exact .checkHeld ‹_› looked
    · cases h
  | beginFlush call =>
    simp only [stepTick] at h
    split at h
    · cases h
      exact .beginFlush ‹_› ‹_›
    · obtain ⟨gate, dropped, rfl⟩ := Option.map_eq_some_iff.mp h
      exact .nothing ‹_› ‹_› dropped
    · cases h
  | proceed =>
    simp only [stepTick] at h
    split at h
    · obtain ⟨after, proceeded, rfl⟩ := Option.map_eq_some_iff.mp h
      exact .proceed ‹_› proceeded
    · cases h
  | bailIf =>
    simp only [stepTick] at h
    split at h
    · split_ifs at h with asks held
      · obtain ⟨gate, dropped, rfl⟩ := Option.map_eq_some_iff.mp h
        exact .bails ‹_› held dropped
      · cases h
        exact .clears ‹_› (Bool.not_eq_true _ ▸ held)
    · cases h
  | exec =>
    simp only [stepTick] at h
    split at h
    · obtain ⟨after, executed, rfl⟩ := Option.map_eq_some_iff.mp h
      exact .exec ‹_› executed
    · cases h
  | fail =>
    simp only [stepTick] at h
    split at h
    · obtain ⟨gate, dropped, rfl⟩ := Option.map_eq_some_iff.mp h
      exact .fail ‹_› dropped
    · cases h
  | commitDb =>
    simp only [stepTick] at h
    split at h
    · split_ifs at h with ready
      cases h
      exact .commitDb ‹_› ready
    · cases h
  | commitBatch =>
    simp only [stepTick] at h
    split at h
    · cases h
      exact .commitBatch ‹_›
    · cases h
  | clusterTx tx =>
    simp only [stepTick] at h
    split at h
    · obtain ⟨db, ran, rfl⟩ := Option.map_eq_some_iff.mp h
      exact .clusterTx ‹_› ran
    · cases h
  | finish =>
    simp only [stepTick] at h
    split at h
    · obtain ⟨gate, dropped, rfl⟩ := Option.map_eq_some_iff.mp h
      exact .finish ‹_› dropped
    · cases h

theorem stepBlock_cases {s next : System} {op : BlockOp} (h : s.stepBlock op = some next) :
    BlockStep s op next := by
  cases op with
  | start hash =>
    simp only [stepBlock] at h
    split at h
    · obtain ⟨gate, acquired, rfl⟩ := Option.map_eq_some_iff.mp h
      exact .start ‹_› acquired
    · cases h
  | lock =>
    simp only [stepBlock] at h
    split at h
    · obtain ⟨gate, locked, rfl⟩ := Option.map_eq_some_iff.mp h
      exact .lock ‹_› locked
    · cases h
  | grant =>
    simp only [stepBlock] at h
    split at h
    · obtain ⟨gate, granted, rfl⟩ := Option.map_eq_some_iff.mp h
      exact .grant ‹_› granted
    · cases h
  | cancel =>
    simp only [stepBlock] at h
    split at h
    · obtain ⟨gate, cancelled, rfl⟩ := Option.map_eq_some_iff.mp h
      exact .cancel ‹_› cancelled
    · cases h
  | fetched block =>
    simp only [stepBlock] at h
    split at h
    · cases h
      exact .fetched ‹_›
    · cases h
  | insert seenAt =>
    simp only [stepBlock] at h
    split at h
    · obtain ⟨db, inserted, rfl⟩ := Option.map_eq_some_iff.mp h
      exact .insert ‹_› inserted
    · cases h
  | assertAbsent call =>
    simp only [stepBlock] at h
    split at h
    · cases h
      exact .assertAbsent ‹_›
    · cases h
  | clusterTx tx =>
    simp only [stepBlock] at h
    split at h
    · obtain ⟨db, ran, rfl⟩ := Option.map_eq_some_iff.mp h
      exact .clusterTx ‹_› ran
    · cases h
  | finish =>
    simp only [stepBlock] at h
    split at h
    · obtain ⟨gate, dropped, rfl⟩ := Option.map_eq_some_iff.mp h
      exact .finish ‹_› dropped
    · cases h
  | fail =>
    simp only [stepBlock] at h
    split at h
    · obtain ⟨gate, dropped, rfl⟩ := Option.map_eq_some_iff.mp h
      exact .fail ‹_› dropped
    · cases h

end System

/-- What a commit of a batch needs and does. -/
theorem System.stepTick_commitDb {s next : System} (h : s.stepTick .commitDb = some next) :
    ∃ batch tx, s.tick = .writing batch tx ∧ tx.ready = true ∧
      next = { s with db := tx.commit s.db, tick := .written batch tx.outcome } := by
  cases stepTick_cases h with
  | commitDb writing ready => exact ⟨_, _, writing, ready, rfl⟩

/-- The gate only ever takes steps of its own. -/
theorem System.gate_step {s next : System} {op : SystemOp} (h : s.step op = some next) :
    ReflTransGen GateState.Step s.gate next.gate := by
  -- A step of the system is at most two of the gate: one to look, one to drop the lease.
  have looked : GateState.Step s.gate s.checked.gate := ⟨.isHeld, rfl⟩
  cases op with
  | advance elapsed =>
    obtain ⟨gate, advanced, rfl⟩ := step_advance h
    exact .single ⟨_, advanced⟩
  | produce | backfillRaw | backfillFee =>
    cases h
    exact .refl
  | tick op =>
    cases stepTick_cases h with
    | tryLock _ stepped | checkHeld _ stepped | nothing _ _ stepped | fail _ stepped
    | finish _ stepped => exact .single ⟨_, stepped⟩
    | bails _ _ dropped => exact .head looked (.single ⟨_, dropped⟩)
    | clears => exact .single looked
    | beginFlush | proceed | exec | commitDb | commitBatch | clusterTx => exact .refl
  | block op =>
    cases stepBlock_cases h with
    | start _ stepped | lock _ stepped | grant _ stepped | cancel _ stepped | finish _ stepped
    | fail _ stepped => exact .single ⟨_, stepped⟩
    | fetched | insert | assertAbsent | clusterTx => exact .refl

theorem System.now_step {s next : System} {op : SystemOp} (h : s.step op = some next) :
    s.gate.now ≤ next.gate.now := by
  have moves := gate_step h
  generalize next.gate = after at moves
  induction moves with
  | refl => exact le_rfl
  | tail _ step ih =>
    obtain ⟨gateOp, step⟩ := step
    exact ih.trans (GateState.now_step step)

/-- What a step can do to the database: a tick commits its batch, a block is
inserted, or the delta rows, the blocks and the confirmations stay as they are. -/
theorem System.db_step {s next : System} {op : SystemOp} (h : s.step op = some next) :
    s.db.SameRecords next.db ∨
    (∃ batch tx, s.tick = .writing batch tx ∧ tx.ready = true ∧ op = .tick .commitDb ∧
      next = { s with db := tx.commit s.db, tick := .written batch tx.outcome }) ∨
    (∃ hash block seenAt db, s.block = some ⟨hash, .inserting block⟩ ∧
      s.db.insertWithTransactions block.toBlock (block.newTransactions seenAt) = some db ∧
      op = .block (.insert seenAt) ∧
      next = { s with db := db, block := some ⟨hash, .asserting block⟩ }) := by
  cases op with
  | advance elapsed =>
    obtain ⟨gate, -, rfl⟩ := step_advance h
    exact .inl (.refl _)
  | produce producer =>
    cases h
    exact .inl (.refl _)
  | backfillRaw txid inputTxids weight =>
    cases h
    exact .inl (Db.sameRecords_backfillRaw ..)
  | backfillFee txid fee =>
    cases h
    exact .inl (Db.sameRecords_backfillFee ..)
  | tick op =>
    cases stepTick_cases h with
    | commitDb writing ready => exact .inr (.inl ⟨_, _, writing, ready, rfl, rfl⟩)
    | clusterTx _ ran => exact .inl (ClusterTx.sameRecords ran)
    | tryLock | checkHeld | beginFlush | nothing | proceed | bails | clears | exec | fail
    | commitBatch | finish => exact .inl (.refl _)
  | block op =>
    cases stepBlock_cases h with
    | insert inserting inserted =>
      exact .inr (.inr ⟨_, _, _, _, inserting, inserted, rfl, rfl⟩)
    | clusterTx _ ran => exact .inl (ClusterTx.sameRecords ran)
    | start | lock | grant | cancel | fetched | assertAbsent | finish | fail =>
      exact .inl (.refl _)

/-- The two programs and the gate agree on who holds what, and a batch being
written is a sound transaction over its own entries. -/
structure SystemInv (s : System) : Prop where
  gate : GateInv s.gate
  leased : s.gate.lease = .leased ↔ s.tick ≠ .idle
  phase : s.gate.holder.phase = s.blockPhase
  batch : ∀ batch tx, s.tick = .writing batch tx → tx.Sound ∧ tx.entries = batch

namespace SystemInv

variable {s next : System}

theorem initial (now : ℕ) (ledger : MempoolLedger) (db : Db) :
    SystemInv (.initial now ledger db) where
  gate := .initial now
  leased := by simp [System.initial, GateState.initial]
  phase := rfl
  batch := by simp [System.initial]

theorem endTick (inv : SystemInv s) {gate : GateState}
    (dropped : s.gate.step .dropLease = some gate) :
    SystemInv { s with gate := gate, tick := .idle } := by
  refine ⟨inv.gate.step dropped, ?_, ?_, by simp⟩
  · simp [GateState.lease_dropLease dropped]
  · exact (GateState.phase_step dropped).trans inv.phase

theorem checked (inv : SystemInv s) : SystemInv s.checked where
  gate := inv.gate.step (show s.gate.step .isHeld = some s.checked.gate from rfl)
  leased := inv.leased
  phase := inv.phase
  batch := inv.batch

/-- Nothing here looks at the ledger or the database. -/
theorem withData (inv : SystemInv s) (ledger : MempoolLedger) (db : Db) :
    SystemInv { s with ledger := ledger, db := db } :=
  ⟨inv.gate, inv.leased, inv.phase, inv.batch⟩

/-- A tick that goes on, its lease unchanged. -/
theorem withTick (inv : SystemInv s) (going : s.tick ≠ .idle) {tick : TickPc}
    (goes : tick ≠ .idle) (ledger : MempoolLedger) (db : Db)
    (batch : ∀ batch tx, tick = .writing batch tx → tx.Sound ∧ tx.entries = batch) :
    SystemInv { s with tick := tick, ledger := ledger, db := db } :=
  ⟨inv.gate, by simp [goes, inv.leased.mpr going], inv.phase, batch⟩

/-- A block that goes on past the gate. -/
theorem withBlock (inv : SystemInv s) (held : s.blockPhase = .held) {hash : String}
    {stage : BlockStage} (past : System.blockPhase { s with block := some ⟨hash, stage⟩ } = .held)
    (ledger : MempoolLedger) (db : Db) :
    SystemInv { s with block := some ⟨hash, stage⟩, ledger := ledger, db := db } :=
  ⟨inv.gate, inv.leased, inv.phase.trans (held.trans past.symm), inv.batch⟩

theorem stepTick {op : TickOp} (inv : SystemInv s) (h : s.stepTick op = some next) :
    SystemInv next := by
  cases System.stepTick_cases h with
  | tryLock idle locked =>
    refine ⟨inv.gate.step locked, ?_, (GateState.phase_step locked).trans inv.phase, inv.batch⟩
    have before : s.gate.lease ≠ .leased := mt inv.leased.mp (by simp [idle])
    simp only [idle, ne_eq, not_true_eq_false, iff_false]
    intro leased
    rcases GateState.leased_step locked leased with already | ⟨other, -⟩
    · exact before already
    · cases other
  | @checkHeld gate _ looked =>
    refine ⟨inv.gate.step looked, ?_, (GateState.phase_step looked).trans inv.phase, ?_⟩
    · by_cases leased : gate.lease = .leased <;> simp [leased]
    · intro batch tx writing
      by_cases leased : gate.lease = .leased <;> simp [leased] at writing
  | @beginFlush call batch leased taken =>
    refine inv.withTick (by simp [leased]) (by simp) s.ledger s.db ?_
    rintro _ _ ⟨⟩
    exact ⟨.begin call batch, rfl⟩
  | nothing _ _ dropped | fail _ dropped | finish _ dropped => exact inv.endTick dropped
  | proceed writing proceeded =>
    obtain ⟨sound, entries⟩ := inv.batch _ _ writing
    refine inv.withTick (by simp [writing]) (by simp) s.ledger s.db ?_
    rintro _ _ ⟨⟩
    exact ⟨sound.proceed proceeded, (BatchTx.entries_proceed proceeded).trans entries⟩
  | bails _ _ dropped => exact inv.checked.endTick dropped
  | clears writing =>
    obtain ⟨sound, entries⟩ := inv.batch _ _ writing
    refine inv.checked.withTick (by simp [System.checked, writing]) (by simp) s.ledger s.db ?_
    rintro _ _ ⟨⟩
    exact ⟨⟨sound.inOrder, sound.hollowOnly⟩, entries⟩
  | exec writing executed =>
    obtain ⟨sound, entries⟩ := inv.batch _ _ writing
    refine inv.withTick (by simp [writing]) (by simp) s.ledger s.db ?_
    rintro _ _ ⟨⟩
    exact ⟨sound.exec executed, (BatchTx.entries_exec executed).trans entries⟩
  | @commitDb batch tx writing =>
    exact inv.withTick (by simp [writing]) (by simp) s.ledger (tx.commit s.db) (by simp)
  | @commitBatch batch outcome written =>
    exact inv.withTick (by simp [written]) (by simp) (s.ledger.commit batch) s.db (by simp)
  | @clusterTx tx db => exact inv.withData s.ledger db

theorem stepBlock {op : BlockOp} (inv : SystemInv s) (h : s.stepBlock op = some next) :
    SystemInv next := by
  -- the gate's own step settles both the lease and the phase
  have gated {gateOp : GateOp} {gate : GateState} (stepped : s.gate.step gateOp = some gate)
      (blockSide : gateOp ≠ .tryLock ∧ gateOp ≠ .checkHeld ∧ gateOp ≠ .dropLease)
      (block : Option BlockRun)
      (phase : gateOp.phaseAfter s.blockPhase = System.blockPhase { s with block := block }) :
      SystemInv { s with gate := gate, block := block } := by
    refine ⟨inv.gate.step stepped, ?_, ?_, inv.batch⟩
    · rw [← inv.leased, GateState.lease_step stepped blockSide]
    · exact (GateState.phase_step stepped).trans (inv.phase ▸ phase)
  cases System.stepBlock_cases h with
  | start _ acquired => exact gated acquired (by simp) _ rfl
  | lock _ locked => exact gated locked (by simp) s.block rfl
  | grant _ granted => exact gated granted (by simp) _ rfl
  | cancel _ cancelled => exact gated cancelled (by simp) none rfl
  | fetched fetching =>
    exact inv.withBlock (by simp [System.blockPhase, fetching]) rfl s.ledger s.db
  | @insert hash block seenAt db inserting =>
    exact inv.withBlock (by simp [System.blockPhase, inserting]) rfl s.ledger db
  | @assertAbsent hash block call asserting =>
    exact inv.withBlock (by simp [System.blockPhase, asserting]) rfl
      (s.ledger.assertAbsent call block.txids) s.db
  | @clusterTx hash block tx db => exact inv.withData s.ledger db
  | finish _ dropped | fail _ dropped => exact gated dropped (by simp) none rfl

theorem step {op : SystemOp} (inv : SystemInv s) (h : s.step op = some next) : SystemInv next := by
  cases op with
  | advance elapsed =>
    obtain ⟨gate, advanced, rfl⟩ := System.step_advance h
    refine ⟨inv.gate.step advanced, ?_, (GateState.phase_step advanced).trans inv.phase, inv.batch⟩
    rw [← inv.leased, GateState.lease_step advanced (by simp)]
  | produce | backfillRaw | backfillFee =>
    cases h
    exact inv.withData _ _
  | tick op => exact inv.stepTick h
  | block op => exact inv.stepBlock h

theorem run {first last : System} (inv : SystemInv first)
    (run : ReflTransGen System.Step first last) : SystemInv last := by
  induction run with
  | refl => exact inv
  | tail _ step ih =>
    obtain ⟨op, step⟩ := step
    exact ih.step step

end SystemInv

end MempoolObserver
