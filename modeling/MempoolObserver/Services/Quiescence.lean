import MempoolObserver.Services.BlockExclusion
import MempoolObserver.Services.Bootstrap
import MempoolObserver.Services.Eviction
import MempoolObserver.Services.StaleMembers

/-!
# No stale member once the journal is drained

The schedules of `System` with the cluster work filled in: once a tick has
committed its batch it runs a round of the cluster service, and so does a block
once its transactions left the ledger. While no hold of the gate reaches
`maxHold` the two never overlap, so a round is one step here, in which the
producers push what they like between any two of its calls.

What the rounds keep is that a member that left the live set shares its cluster
with one whose removal is still in the journal. With an empty journal there is
none.

## Main definitions

* `Api.step` — the schedules with their rounds

## Main results

* `ApiStep.keeps` — a step with its round is a schedule of `System`
* `drained_journal_leaves_no_stale_member`
-/

namespace MempoolObserver

open Relation Collections

/-- The two programs, and what the cluster service has besides ledger and database. -/
structure Api where
  system : System
  snapshot : ClusterSnapshot
  calls : ℕ
  asked : List (Txid × ClusterAnswer)

namespace Api

def initial (now : ℕ) (ledger : MempoolLedger) : Api :=
  ⟨.initial now ledger .empty, fun _ => none, 0, []⟩

/-- The cluster service, as it finds ledger and database. -/
def service (api : Api) : ClusterService :=
  ⟨api.system.db, api.system.ledger, api.snapshot, api.calls, api.asked⟩

/-- What a round leaves behind. -/
def resume (system : System) (s : ClusterService) : Api :=
  ⟨{ system with ledger := s.mempoolLedger, db := s.db }, s.snapshot, s.calls, s.asked⟩

end Api

/-- The cluster work, and the steps it stands between. -/
def SystemOp.ServesClusters : SystemOp → Bool
  | tick .commitBatch | tick (.clusterTx _) | tick .finish => true
  | block (.clusterTx _) | block .finish => true
  | _ => false

inductive ApiOp where
  | system (op : SystemOp)
  /-- The rest of a tick whose batch is written. -/
  | sync (env : ClusterEnv) (fuel : ℕ)
  /-- The rest of `apply_block`. -/
  | confirm (env : ClusterEnv) (fuel : ℕ)

namespace Api

/-- One step, `none` when the operation is not possible. -/
def step (api : Api) : ApiOp → Option Api
  | .system op =>
    -- Cluster writes happen only inside a round, below.
    if op.ServesClusters then none
    else (api.system.step op).map fun system => { api with system := system }
  -- After a flush: commit the batch, sync what it added, release the lease.
  | .sync env fuel =>
    match api.system.tick with
    | .written batch outcome => do
      let committed ← api.system.step (.tick .commitBatch)
      let added := distinctTxids (env.call api.calls).order batch .add
      let synced ← (ClusterRound.syncClustersAfterFlush added outcome).run env fuel
        { api with system := committed }.service
      let resumed := resume committed synced
      (resumed.system.step (.tick .finish)).map fun system => { resumed with system := system }
    | _ => none
  -- After a block: confirm its transactions, release the guard.
  | .confirm env fuel =>
    match api.system.block with
    | some ⟨_, .confirming block⟩ => do
      let confirmed ← (ClusterRound.confirmMined block.mined).run env fuel api.service
      let resumed := resume api.system confirmed
      (resumed.system.step (.block .finish)).map fun system => { resumed with system := system }
    | _ => none

end Api

/-- No call of a round fails, and every answer of the node is true. -/
structure ClusterEnv.Faultless (env : ClusterEnv) : Prop where
  truthful : env.Truthful
  reliable : env.Reliable
  small : env.SmallAnswers

def ApiOp.Faultless : ApiOp → Prop
  | system _ => True
  | sync env _ | confirm env _ => env.Faultless

/-- A step in which no call fails and no hold of the gate reaches `maxHold`. -/
def ApiStep (api next : Api) : Prop :=
  ∃ op : ApiOp, op.Faultless ∧ api.step op = some next ∧ next.system.Timely

/-! ### A round is a run of cluster transactions -/

/-- `next` is `db` after some transactions of the repository. -/
def Transacts : Db → Db → Prop :=
  ReflTransGen fun db next => ∃ tx : ClusterTx, tx.run db = some next

theorem Commits.transacts {db next : Db} (commits : Commits db next) : Transacts db next := by
  induction commits with
  | refl => exact .refl
  | tail _ step ih =>
    obtain ⟨tx, -, ran⟩ := step
    exact ih.tail ⟨tx, ran⟩

/-- Cluster transactions leave delta rows, blocks and confirmations alone. -/
theorem Transacts.sameRecords {db next : Db} (transacts : Transacts db next) :
    db.SameRecords next := by
  induction transacts with
  | refl => exact .refl _
  | tail _ step ih =>
    obtain ⟨tx, ran⟩ := step
    exact ih.trans (ClusterTx.sameRecords ran)

namespace ClusterService

variable {env : ClusterEnv} {s next : ClusterService} {fuel : ℕ}

theorem transacts_handleEvicted {evictedTxids : List Txid} {changes : ClusterDeltaSet}
    (h : s.handleEvicted env fuel evictedTxids = some (changes, next)) :
    Transacts s.db next.db := by
  obtain ⟨closing, syncs, cases⟩ := handleEvicted_cases h
  have rest := syncs.commits.transacts
  obtain ⟨same, -⟩ | ⟨-, closedAt, closes⟩ := cases
  · rwa [same] at rest
  · rw [closes] at rest
    exact .head ⟨.close closedAt _ .evicted, rfl⟩ rest

theorem transacts_run {round : ClusterRound} (ran : round.run env fuel s = some next) :
    Transacts s.db next.db := by
  have syncs {candidateTxids confirmedTxids evictedTxids : List Txid}
      (h : s.syncClusters env fuel candidateTxids confirmedTxids evictedTxids = some next) :
      Transacts s.db next.db := by
    obtain ⟨⟨changes, mid⟩, confirms, -⟩ := Option.bind_eq_some_iff.mp h
    obtain ⟨evicted, after, last, evicts, candidates, same⟩ := syncClusters_cases confirms h
    have before := (commits_stage_handleConfirmed confirms).transacts
    rw [same]
    exact (before.trans (transacts_handleEvicted evicts)).trans candidates.commits.transacts
  cases round with
  | syncClustersFor candidateTxids evictedTxids => exact syncs ran
  | syncClustersAfterFlush addedTxids outcome => exact syncs ran
  | confirmMined block =>
    obtain ⟨⟨changes, last⟩, inner, rfl⟩ := Option.map_eq_some_iff.mp ran
    exact (moves_confirmMinedInner inner).commits.transacts

end ClusterService

namespace System

variable {s next : System}

/-- Producers may push at any time. -/
theorem timelySteps_of_produced (timely : s.Timely) {ledger : MempoolLedger}
    (produced : s.ledger.Produced ledger) :
    ReflTransGen TimelyStep s { s with ledger := ledger } := by
  induction produced with
  | refl => exact .refl
  | tail _ step ih =>
    obtain ⟨producer, rfl⟩ := step
    exact ih.tail ⟨⟨.produce producer, rfl⟩, timely⟩

/-- While cluster transactions may commit, any number of them may, and the
producers push meanwhile. -/
theorem timelySteps_of_transacts (timely : s.Timely) {op : ClusterTx → SystemOp}
    (serves : ∀ tx ledger db, step { s with ledger := ledger, db := db } (op tx) =
      (tx.run db).map fun after => { s with ledger := ledger, db := after })
    {ledger : MempoolLedger} (produced : s.ledger.Produced ledger) {db : Db}
    (transacts : Transacts s.db db) :
    ReflTransGen TimelyStep s { s with ledger := ledger, db := db } := by
  apply (timelySteps_of_produced timely produced).trans
  induction transacts with
  | refl => exact .refl
  | tail _ step ih =>
    obtain ⟨tx, ran⟩ := step
    exact ih.tail ⟨⟨op tx, by rw [serves, ran]; rfl⟩, timely⟩

end System

/-- How a tick comes to have its batch written. -/
theorem System.written_stepTick {s next : System} {op : TickOp} {batch : List JournalEntry}
    {outcome : FlushOutcome} (h : s.stepTick op = some next)
    (written : next.tick = .written batch outcome) :
    ∃ tx, s.tick = .writing batch tx ∧ tx.ready = true ∧ next.db = tx.commit s.db ∧
      outcome = tx.outcome := by
  cases stepTick_cases h with
  | commitDb writing ready =>
    cases written
    exact ⟨_, writing, ready, rfl, rfl⟩
  | tryLock idle => simp [idle] at written
  | @checkHeld gate =>
    by_cases leased : gate.lease = .leased <;> simp [leased] at written
  | clusterTx syncing => simp [syncing] at written
  | beginFlush | nothing | proceed | bails | clears | exec | fail | commitBatch | finish =>
    cases written

/-- What a step outside of the cluster work does to clusters and ledger. -/
theorem System.untouched_step {s next : System} {op : SystemOp} (inv : SystemInv s)
    (h : s.step op = some next) (others : op.ServesClusters = false) :
    s.db.SameClusters next.db ∧ s.ledger.Produced next.ledger := by
  cases op with
  | advance elapsed =>
    obtain ⟨gate, -, rfl⟩ := step_advance h
    exact ⟨.refl _, .refl _⟩
  | produce producer =>
    cases h
    exact ⟨.refl _, .single producer s.ledger⟩
  | backfillRaw txid inputTxids weight =>
    cases h
    exact ⟨Db.sameClusters_backfillRaw .., .refl _⟩
  | backfillFee txid fee =>
    cases h
    exact ⟨Db.sameClusters_backfillFee .., .refl _⟩
  | tick op =>
    -- Of the tick's own steps only the commit writes rows, and none of these has a cluster.
    cases stepTick_cases h with
    | commitBatch | clusterTx | finish => cases others
    | commitDb writing _ =>
      have hollow := (inv.batch _ _ writing).1.hollowOnly.1
      exact ⟨⟨rfl, rfl, rfl, fun txid => Db.link_insertOrIgnore hollow _ txid⟩, .refl _⟩
    | tryLock | checkHeld | beginFlush | nothing | proceed | bails | clears | exec | fail =>
      exact ⟨.refl _, .refl _⟩
  -- The block's rows have no cluster either.
  | block op =>
    cases stepBlock_cases h with
    | clusterTx | finish => cases others
    | insert _ inserted =>
      refine ⟨Db.sameClusters_insertWithTransactions ?_ inserted, .refl _⟩
      simp [GetBlockModel.newTransactions]
    | assertAbsent => exact ⟨.refl _, .single (.assertAbsent _ _) s.ledger⟩
    | start | lock | grant | cancel | fetched | fail => exact ⟨.refl _, .refl _⟩

/-! ### What holds between two steps -/

theorem Db.together_of_sameClusters {db next : Db} (same : db.SameClusters next) :
    next.Together = db.Together := by
  have members (id : ClusterId) : next.members id = db.members id := by
    simp only [members, current, chunksOf, same.clusters, same.clusterChunks]
  funext txid other
  simp only [Together, IsActive, same.clusters, members]

theorem Db.activeState_of_sameClusters {db next : Db} (same : db.SameClusters next) :
    next.activeState = db.activeState := by
  funext id
  apply activeState_congr (by rw [same.clusters])
  funext version
  simp only [chunksOf, same.clusterChunks]

theorem ClusterService.Tends.of_sameClusters {s next : ClusterService}
    (produced : s.mempoolLedger.Produced next.mempoolLedger) (same : s.db.SameClusters next.db) :
    Tends s next where
  produced := produced
  renews _ := by
    rw [Db.together_of_sameClusters same]
    exact .refl _ _

theorem Db.ConfirmedStored.congr {db next : Db} (stored : db.ConfirmedStored)
    (blocks : ∀ block ∈ db.blocks, block ∈ next.blocks)
    (confirmation : ∀ txid, next.confirmation txid = db.confirmation txid) :
    next.ConfirmedStored := by
  intro txid confirmed
  rw [isConfirmed_congr (confirmation txid)] at confirmed
  obtain ⟨hash, inBlocks, known⟩ := stored txid confirmed
  obtain ⟨block, listed, rfl⟩ := List.mem_map.mp inBlocks
  rw [confirmation txid]
  exact ⟨block.hash, List.mem_map_of_mem (blocks block listed), known⟩

/-- A block's transactions are mined by it. -/
theorem GetBlockModel.confirmation_insertWithTransactions {block : GetBlockModel}
    {seenAt : OffsetDateTime} {db next : Db}
    (h : db.insertWithTransactions block.toBlock (block.newTransactions seenAt) = some next)
    (txid : Txid) : next.confirmation txid =
      if txid ∈ block.txids then (some block.minedAt, some block.hash)
      else db.confirmation txid := by
  have same : ∀ new ∈ block.newTransactions seenAt,
      (new.row.confirmedAt, new.row.confirmedAtBlock) = (some block.minedAt, some block.hash) := by
    simp [newTransactions]
  rw [Db.confirmation_insertWithTransactions same h]
  simp [newTransactions, txids]

/-- Every mined transaction stays mined, by a stored block. -/
theorem System.confirmed_step {s next : System} {op : SystemOp} (inv : SystemInv s)
    (h : s.step op = some next) (stored : s.db.ConfirmedStored) :
    next.db.ConfirmedStored ∧
      ∀ txid, s.db.isConfirmed txid = true → next.db.isConfirmed txid = true := by
  obtain records | ⟨batch, tx, writing, -, -, rfl⟩ |
    ⟨hash, block, seenAt, db, -, inserted, -, rfl⟩ := System.db_step h
  · refine ⟨stored.congr (by simp [records.blocks]) records.confirmation, fun txid mined => ?_⟩
    -- A step writes no transaction, a batch, or a block.
    rwa [records.isConfirmed]
  · have sound := (inv.batch batch tx writing).1
    refine ⟨stored.congr (fun block listed => ?_) (tx.confirmation_commit sound s.db),
      fun txid mined => ?_⟩
    · exact listed
    · rwa [BatchTx.isConfirmed_commit sound]
  · have confirmation := GetBlockModel.confirmation_insertWithTransactions inserted
    have blocks := Db.blocks_insertWithTransactions inserted
    -- A transaction of the block is confirmed by it; any other keeps the block it had.
    refine ⟨fun txid mined => ?_, fun txid mined => ?_⟩
    · rw [confirmation txid]
      split_ifs with inBlock
      · refine ⟨block.hash, ?_, rfl⟩
        rw [blocks]
        split_ifs with known
        · exact known
        · simp [GetBlockModel.toBlock]
      · have unchanged : db.confirmation txid = s.db.confirmation txid := by
          rw [confirmation txid, if_neg inBlock]
        rw [Db.isConfirmed_congr unchanged] at mined
        obtain ⟨hash, inBlocks, known⟩ := stored txid mined
        refine ⟨hash, ?_, known⟩
        rw [blocks]
        split_ifs
        · exact inBlocks
        · simp only [List.map_append, List.mem_append]
          exact .inl inBlocks
    · apply (Db.isConfirmed_insertWithTransactions ?_ inserted txid).mpr (.inr mined)
      simp [GetBlockModel.newTransactions]

/-- Every transaction of the batch that is removed is in the outcome, and so
labelled that the confirmed ones are mined. -/
structure FlushOutcome.Covers (outcome : FlushOutcome) (batch : List JournalEntry) (db : Db) :
    Prop where
  removed : ∀ entry ∈ batch, entry.direction = .remove →
    entry.txid ∈ outcome.confirmed ∨ entry.txid ∈ outcome.evicted
  confirmed : ∀ txid ∈ outcome.confirmed, db.isConfirmed txid = true

theorem BatchTx.covers_outcome {tx : BatchTx} {db : Db} (classified : tx.Classified db) :
    tx.outcome.Covers tx.entries db where
  removed entry listed removes := by
    simp only [outcome, Enumeration.mem_toList]
    by_cases mined : entry.txid ∈ tx.confirmed
    · exact .inl mined
    · right
      simp only [evicted, List.mem_toFinset, List.mem_map, List.mem_filter]
      exact ⟨entry, ⟨listed, by simp [removes, mined]⟩, rfl⟩
  confirmed txid mined := classified.sound txid (by simpa [outcome] using mined)

/-- What every step keeps. -/
structure ApiInv (api : Api) : Prop where
  exclusion : ExclusionInv api.system
  inPlace : api.system.flush.BatchInPlace
  store : Db.StoreInv [] api.system.db
  confirmed : api.system.db.ConfirmedStored
  agrees : api.snapshot = api.system.db.activeState
  /-- A batch that is stored and still queued was split up rightly. -/
  written : ∀ batch outcome, api.system.tick = .written batch outcome →
    outcome.Covers batch api.system.db
  accounted : api.system.ledger.degraded = false → api.service.Accounted fun _ => False

namespace ApiInv

variable {api next : Api}

theorem initial (now : ℕ) (ledger : MempoolLedger) : ApiInv (.initial now ledger) where
  exclusion := .initial now ledger .empty
  inPlace := trivial
  store := Db.storeInv_empty
  confirmed txid mined := by simp [Api.initial, System.initial, Db.isConfirmed, Db.empty] at mined
  agrees := rfl
  written batch outcome written := by cases written
  accounted _ txid together := by
    obtain ⟨id, ⟨row, stored, -⟩, -⟩ := together
    cases stored

/-- A step outside of the cluster work. -/
theorem system (inv : ApiInv api) {op : SystemOp} (others : op.ServesClusters = false)
    {system : System} (step : api.system.step op = some system) (timely : system.Timely) :
    ApiInv { api with system := system } := by
  obtain ⟨same, produced⟩ := System.untouched_step inv.exclusion.system step others
  obtain ⟨inPlace, -, -⟩ := System.log_step inv.exclusion.system inv.inPlace step
  have tends : ClusterService.Tends api.service { api with system := system }.service :=
    .of_sameClusters produced same
  obtain ⟨confirmed, mined⟩ := System.confirmed_step inv.exclusion.system step inv.confirmed
  -- Each part of the invariant is carried by its own fact about the step.
  refine ⟨inv.exclusion.step ⟨⟨op, step⟩, timely⟩, inPlace, (inv.store.congr same).1, confirmed,
    inv.agrees.trans (Db.activeState_of_sameClusters same).symm, fun batch outcome written => ?_,
    fun sound => (inv.accounted (produced.sound_before sound)).tends tends sound⟩
  have carried (was : api.system.tick = .written batch outcome) :
      outcome.Covers batch system.db :=
    ⟨(inv.written batch outcome was).removed,
      fun txid member => mined txid ((inv.written batch outcome was).confirmed txid member)⟩
  cases op with
  | tick op =>
    obtain ⟨tx, writing, ready, db, rfl⟩ := System.written_stepTick step written
    obtain ⟨sound, rfl⟩ := inv.exclusion.system.batch batch tx writing
    apply BatchTx.covers_outcome
    apply (inv.exclusion.classified _ tx writing).congr
    intro txid
    rw [db]
    exact BatchTx.isConfirmed_commit sound _ txid
  | block op => exact carried ((System.tick_stepBlock step).symm.trans written)
  | advance elapsed =>
    obtain ⟨gate, -, rfl⟩ := System.step_advance step
    exact carried written
  | produce | backfillRaw | backfillFee =>
    cases step
    exact carried written

/-- The ledger after a batch was dropped from the journal owes what it owed
before, up to the batch. -/
theorem owes_commit {ledger : MempoolLedger} {batch : List JournalEntry} {txid : Txid}
    (front : batch <+: ledger.journal) (owes : ledger.Owes txid) :
    (ledger.commit batch).Owes txid ∨
      ∃ entry ∈ batch, entry.direction = .remove ∧ entry.txid = txid := by
  obtain ⟨rest, journal⟩ := front
  obtain ⟨entry, queued, removes⟩ := owes
  rw [← journal, List.mem_append] at queued
  rcases queued with flushed | left
  · exact .inr ⟨entry, flushed, removes⟩
  · left
    refine ⟨entry, ?_, removes⟩
    simpa [MempoolLedger.commit, ← journal] using left

/-- A round that ended, and no tick under way. -/
theorem ended (inv : ApiInv api) {env : ClusterEnv} {fuel : ℕ} (faultless : env.Faultless)
    {s : ClusterService} (database : s.db = api.system.db) (snapshot : s.snapshot = api.snapshot)
    {round : ClusterRound} (ran : round.run env fuel s = some next.service)
    (steps : ReflTransGen System.TimelyStep api.system next.system)
    (idle : next.system.tick = .idle)
    (accounted : next.system.ledger.degraded = false → next.service.Accounted fun _ => False) :
    ApiInv next := by
  have kept := ClusterService.roundKeeps_run faultless.small (database ▸ inv.store) ran
  have records := (ClusterService.transacts_run ran).sameRecords
  rw [database] at records
  refine ⟨inv.exclusion.run steps, ?_, kept.inv, ?_, kept.agrees ?_ ?_, ?_, accounted⟩
  · simp only [FlushState.BatchInPlace, System.flush, TickPc.flight, idle]
  · exact inv.confirmed.congr (fun block listed => records.blocks ▸ listed) records.confirmation
  · exact fun call slice _ _ _ => faultless.reliable call slice
  · rw [snapshot, database, inv.agrees]
  · simp [idle]

/-- The rest of a tick: the batch leaves the journal, and the round pays for it. -/
theorem sync (inv : ApiInv api) {env : ClusterEnv} {fuel : ℕ} (faultless : env.Faultless)
    (step : api.step (.sync env fuel) = some next) (timely : next.system.Timely) :
    ReflTransGen System.TimelyStep api.system next.system ∧ ApiInv next := by
  simp only [Api.step] at step
  split at step
  case h_2 => cases step
  rename_i batch outcome written
  have covers := inv.written batch outcome written
  simp only [System.step, System.stepTick, written, Option.bind_eq_bind, Option.bind_some] at step
  obtain ⟨synced, ran, finished⟩ := Option.bind_eq_some_iff.mp step
  obtain ⟨last, ends, rfl⟩ := Option.map_eq_some_iff.mp finished
  set committed : System := { api.system with
    ledger := api.system.ledger.commit batch
    tick := .syncing } with committed_eq
  have commits : api.system.TimelyStep committed :=
    ⟨⟨.tick .commitBatch, by simp [System.step, System.stepTick, written, committed_eq]⟩,
      inv.exclusion.timely⟩
  -- what was owed by the batch is now for the round to pay
  have owing : committed.ledger.degraded = false →
      { api with system := committed }.service.Accounted
        fun txid => txid ∈ outcome.confirmed ∨ txid ∈ outcome.evicted := by
    intro sound txid together
    rcases inv.accounted sound txid together with live | ⟨owed, shared, owes | nobody⟩
    · exact .inl live
    · refine .inr ⟨owed, shared, ?_⟩
      have front : batch <+: api.system.ledger.journal := by
        have inPlace := inv.inPlace
        simp only [FlushState.BatchInPlace, System.flush, TickPc.flight, written] at inPlace
        exact inPlace.1
      apply (owes_commit front owes).imp id
      rintro ⟨entry, listed, removes, rfl⟩
      exact covers.removed entry listed removes
    · exact nobody.elim
  obtain ⟨produced, paid⟩ := ClusterService.accounted_syncClustersAfterFlush faultless.truthful
    faultless.reliable faultless.small inv.store inv.confirmed covers.confirmed owing ran
  have toSynced : ReflTransGen System.TimelyStep committed
      { committed with ledger := synced.mempoolLedger, db := synced.db } := by
    have inTime : committed.Timely := inv.exclusion.timely
    apply System.timelySteps_of_transacts inTime ?_ produced (ClusterService.transacts_run ran)
    · exact fun tx => .tick (.clusterTx tx)
    · exact fun tx ledger db => rfl
  have steps : ReflTransGen System.TimelyStep api.system last :=
    (toSynced.head commits).tail ⟨⟨.tick .finish, ends⟩, timely⟩
  obtain ⟨gate, -, rfl⟩ := Option.map_eq_some_iff.mp ends
  exact ⟨steps, inv.ended faultless rfl rfl ran steps rfl paid⟩

/-- The rest of `apply_block`. -/
theorem confirm (inv : ApiInv api) {env : ClusterEnv} {fuel : ℕ} (faultless : env.Faultless)
    (step : api.step (.confirm env fuel) = some next) (timely : next.system.Timely) :
    ReflTransGen System.TimelyStep api.system next.system ∧ ApiInv next := by
  simp only [Api.step] at step
  split at step
  case h_2 => cases step
  rename_i hash block confirming
  simp only [Option.bind_eq_bind] at step
  obtain ⟨confirmed, ran, finished⟩ := Option.bind_eq_some_iff.mp step
  obtain ⟨last, ends, rfl⟩ := Option.map_eq_some_iff.mp finished
  have tends := ClusterService.tends_confirmMined faultless.truthful faultless.reliable
    faultless.small inv.store ran
  -- the guard is alive, so no tick is at work
  have idle : api.system.tick = .idle := by
    by_contra going
    apply inv.exclusion.system.not_held_of_tick inv.exclusion.timely going
    rw [inv.exclusion.system.phase]
    simp [System.blockPhase, confirming]
  have toConfirmed : ReflTransGen System.TimelyStep api.system
      { api.system with ledger := confirmed.mempoolLedger, db := confirmed.db } := by
    apply System.timelySteps_of_transacts inv.exclusion.timely ?_ tends.produced
      (ClusterService.transacts_run ran)
    · exact fun tx => .block (.clusterTx tx)
    · intro tx ledger db
      simp only [System.step, System.stepBlock, confirming]
  have steps : ReflTransGen System.TimelyStep api.system last :=
    toConfirmed.tail ⟨⟨.block .finish, ends⟩, timely⟩
  simp only [Api.resume, System.step, System.stepBlock, confirming] at ends
  obtain ⟨gate, -, rfl⟩ := Option.map_eq_some_iff.mp ends
  refine ⟨steps, inv.ended faultless rfl rfl ran steps idle fun sound => ?_⟩
  exact (inv.accounted (tends.produced.sound_before sound)).tends tends sound

end ApiInv

/-- A step with its round is some steps of the two programs, and keeps the invariant. -/
theorem ApiStep.keeps {api next : Api} (step : ApiStep api next) (inv : ApiInv api) :
    ReflTransGen System.TimelyStep api.system next.system ∧ ApiInv next := by
  obtain ⟨op, faultless, step, timely⟩ := step
  cases op with
  | system op =>
    simp only [Api.step] at step
    split_ifs at step with serves
    obtain ⟨system, stepped, rfl⟩ := Option.map_eq_some_iff.mp step
    exact ⟨.single ⟨⟨op, stepped⟩, timely⟩, inv.system (by simpa using serves) stepped timely⟩
  | sync env fuel => exact inv.sync faultless step timely
  | confirm env fuel => exact inv.confirm faultless step timely

theorem ApiInv.run {first api : Api} (inv : ApiInv first) (run : ReflTransGen ApiStep first api) :
    ApiInv api := by
  induction run with
  | refl => exact inv
  | tail _ step ih => exact (step.keeps ih).2

/-! ### An empty journal -/

def ClusterState.txids (state : ClusterState) : List Txid :=
  state.chunks.flatMap ClusterChunk.txids

/-- The members of the tracked clusters that are not live; `ids` are the keys of
the map. -/
def ClusterSnapshot.missingMemberCount (ids : List ClusterId) (liveTxids : Finset Txid)
    (snapshot : ClusterSnapshot) : ℕ :=
  ((ids.filterMap snapshot).flatMap ClusterState.txids).countP (· ∉ liveTxids)

theorem Db.StoreInv.members_of_activeState {db : Db} (inv : StoreInv [] db) {id : ClusterId}
    {state : ClusterState} (tracked : db.activeState id = some state) :
    db.IsActive id ∧ state.txids = db.members id := by
  unfold activeState at tracked
  split at tracked
  · rename_i row stored
    split_ifs at tracked with active
    cases tracked
    exact ⟨⟨row, stored, active⟩, inv.toVersioned.txids_loadChunks stored⟩
  · cases tracked

/-- **No stale member at quiescence.** Whatever blocks, flushes, producers and
changes of the node's mempool came about, without a failing call, a refused push
or a hold of the gate that reaches `maxHold`: with an empty journal every member
of an active cluster is live, none is missing from the snapshot's clusters, and
none of them is made up of departed transactions. -/
theorem drained_journal_leaves_no_stale_member {now : ℕ} {ledger : MempoolLedger} {api : Api}
    (run : ReflTransGen ApiStep (.initial now ledger) api)
    (accepted : api.system.ledger.degraded = false) (drained : api.system.ledger.journal = []) :
    (∀ id, api.system.db.IsActive id →
      ∀ txid ∈ api.system.db.members id, txid ∈ api.system.ledger.live) ∧
    (∀ ids, api.snapshot.missingMemberCount ids api.system.ledger.live = 0) ∧
    ∀ id, api.system.db.IsActive id → api.system.db.members id ≠ [] →
      ¬ ∀ txid ∈ api.system.db.members id, txid ∉ api.system.ledger.live := by
  have inv := (ApiInv.initial now ledger).run run
  have live {id : ClusterId} (active : api.system.db.IsActive id) {txid : Txid}
      (member : txid ∈ api.system.db.members id) : txid ∈ api.system.ledger.live := by
    rcases inv.accounted accepted txid ⟨id, active, member, member⟩ with live | ⟨owed, -, owes | no⟩
    · exact live
    · obtain ⟨entry, queued, -⟩ := owes
      rw [show api.service.mempoolLedger.journal = [] from drained] at queued
      cases queued
    · exact no.elim
  refine ⟨fun id active txid member => live active member, fun ids => ?_,
    fun id active nonempty departed => ?_⟩
  · apply List.countP_eq_zero.mpr
    intro txid listed
    obtain ⟨state, tracked, member⟩ := List.mem_flatMap.mp listed
    obtain ⟨id, -, found⟩ := List.mem_filterMap.mp tracked
    rw [inv.agrees] at found
    obtain ⟨active, members⟩ := inv.store.members_of_activeState found
    simpa using live active (members ▸ member)
  · obtain ⟨txid, member⟩ := List.exists_mem_of_ne_nil _ nonempty
    exact departed txid member (live active member)

/-! ### A run that ends with an empty journal -/

/-- A node whose mempool has `a` and `b`, together or each on its own. -/
def mempoolEnv (together : Bool) : ClusterEnv where
  getMempoolCluster _ txid :=
    .cluster ⟨[⟨if together ∧ txid ∈ ["a", "b"] then ["a", "b"] else [txid], 10, 200⟩]⟩
  fails _ _ := false
  now call := call
  call _ := ⟨fun _ => 0, .sorted Txid⟩

theorem faultless_mempoolEnv (together : Bool) : (mempoolEnv together).Faultless where
  truthful :=
    { answers := fun call txid => by simp [mempoolEnv]
      asked := fun call txid cluster answered => by
        cases answered
        simp only [GetMempoolClusterModel.txids, List.flatMap_cons, List.flatMap_nil,
          List.append_nil]
        split_ifs with pair
        · exact pair.2
        · exact List.mem_singleton_self txid
      shared := fun call txid cluster answered other member => by
        cases answered
        simp only [GetMempoolClusterModel.txids, List.flatMap_cons, List.flatMap_nil,
          List.append_nil] at member
        split_ifs at member with pair
        · simp only [mempoolEnv, if_pos pair, if_pos (And.intro pair.1 member)]
        · rw [List.mem_singleton.mp member]
          rfl }
  reliable _ _ := rfl
  small call txid cluster answered := by
    cases answered
    simp [maxChunks]

/-- `a` and `b` enter the mempool together and are stored; then `b` leaves it. -/
def pairThenSingle : List ApiOp :=
  let call : Call := ⟨fun _ => 0, .sorted Txid⟩
  let tick (ops : List TickOp) : List ApiOp := ops.map fun op => .system (.tick op)
  .system (.produce (.assertPresent call ["a", "b"])) ::
    tick [.tryLock, .checkHeld, .beginFlush call, .proceed, .bailIf, .exec, .proceed, .bailIf,
      .exec, .proceed, .bailIf, .exec, .proceed, .bailIf, .commitDb] ++
    .sync (mempoolEnv true) 3 ::
    .system (.produce (.assertAbsent call ["b"])) ::
    tick [.tryLock, .checkHeld, .beginFlush call, .bailIf, .exec, .proceed, .bailIf, .exec,
      .proceed, .proceed, .proceed, .bailIf, .commitDb] ++
    [.sync (mempoolEnv false) 3]

def pairThenSingleRun : Option Api :=
  pairThenSingle.foldlM (fun api op => (api.step op).filter fun next => next.system.Timely)
    (.initial 0 .default)

/-- The cluster of the two is down to `a`, which is live. -/
theorem pairThenSingle_leaves_no_stale_member : ∃ api, pairThenSingleRun = some api ∧
    (api.system.db.chunksOf 1 1).map ClusterChunkRow.txids = [["a", "b"]] ∧
    api.system.db.members 1 = ["a"] ∧ api.system.ledger.live = {"a"} ∧
    ∀ id, api.system.db.IsActive id →
      ∀ txid ∈ api.system.db.members id, txid ∈ api.system.ledger.live := by
  have ends : pairThenSingleRun.map (fun api =>
      ((api.system.db.chunksOf 1 1).map ClusterChunkRow.txids, api.system.db.members 1,
        api.system.ledger.live, api.system.ledger.degraded, api.system.ledger.journal)) =
      some ([["a", "b"]], ["a"], {"a"}, false, []) := by decide +kernel
  obtain ⟨api, ran, ends⟩ := Option.map_eq_some_iff.mp ends
  simp only [Prod.mk.injEq] at ends
  obtain ⟨first, members, live, accepted, drained⟩ := ends
  have run : ReflTransGen ApiStep (.initial 0 .default) api := by
    refine Collections.foldlM_option_induction ?_ .refl ran
    intro before op listed after reached stepped
    obtain ⟨stepped, timely⟩ := Option.filter_eq_some_iff.mp stepped
    refine reached.tail ⟨op, ?_, stepped, by simpa using timely⟩
    simp only [pairThenSingle, List.cons_append, List.mem_cons, List.mem_append, List.mem_map,
      List.not_mem_nil, or_false] at listed
    obtain rfl | (⟨op, -, rfl⟩ | rfl | rfl | ⟨op, -, rfl⟩) | rfl := listed
    · trivial
    · trivial
    · exact faultless_mempoolEnv true
    · trivial
    · trivial
    · exact faultless_mempoolEnv false
  exact ⟨api, ran, first, members, live, (drained_journal_leaves_no_stale_member run accepted
    drained).1⟩

end MempoolObserver
