import MempoolObserver.Services.ClusterCommits
import MempoolObserver.Services.FlushHistory

/-!
# Bootstrap

What the api does before it serves: it applies the blocks it missed while it was
down, then compares the mempool the stored rows amount to with the node's. All of
it runs before any other task is spawned, so it is one sequential program over
the ledger and the database, here with the calls it makes numbered as the cluster
service numbers them.

The catch-up shares the ledger with what follows. Applying a block re-syncs the
clusters it mined in part, and whoever the node then shows in its mempool is
asserted present in a ledger that is not seeded yet.

## Main definitions

* `ClusterService.syncMissingBlocks` — the catch-up
* `ClusterService.setupMempoolSnapshot` — the comparison that seeds the ledger

## Main results

* `ClusterService.Quiet` and its lemmas — a catch-up in which the node answers
  with no group leaves ledger and rows alone
* `restart_keeps_alternation` — then the rows keep alternating, whatever runs next
* `catchUp_answer_adds_twice` — an answer of the node that becomes a second add
-/

namespace MempoolObserver

open SetLog Collections Relation

/-- One transaction of `getrawmempool verbose`. -/
structure MempoolEntrySummary where
  txid : Txid
  feeInSats : UInt64
  weight : UInt32
  deriving DecidableEq, Repr

def MempoolEntrySummary.newTransaction (now : OffsetDateTime) (entry : MempoolEntrySummary) :
    NewTransaction where
  txid := entry.txid
  row :=
    { fee := some entry.feeInSats.toInt64
      weight := entry.weight.toUInt64.toInt64
      firstSeenAt := now
      confirmedAt := none
      clusterId := none
      confirmedAtBlock := none
      inputTxids := none }

/-- Whose side failed. -/
inductive BlockSyncError where
  | node
  | db
  deriving DecidableEq, Repr

/-- Txids reconciled between the persisted mempool state and the live node. -/
structure MempoolReconciliation where
  txsAdded : ℕ
  txsRemoved : ℕ
  deriving DecidableEq, Repr

/-- What bootstrap does not decide itself, call by call. -/
structure BootstrapEnv extends ClusterEnv where
  getTipHeight : ℕ → Option Int
  getBlockHash : ℕ → Int → Option String
  getBlock : ℕ → String → Option GetBlockModel
  getRawMempoolVerbose : ℕ → Option (List MempoolEntrySummary)
  /-- No other task runs yet. -/
  alone : toClusterEnv.Alone := by exact fun _ => rfl

/-- What `confirm_mined` is told of a block; a later transaction of the same
txid overwrites an earlier one. -/
def GetBlockModel.mined (block : GetBlockModel) : MinedBlock where
  txids := block.txids
  fees txid := (block.txs.reverse.find? fun tx => tx.txid = txid).map BlockTxSummary.feeSats
  weights txid := (block.txs.reverse.find? fun tx => tx.txid = txid).map BlockTxSummary.weight
  confirmedAt := block.minedAt

namespace ClusterService

/-! ### Catching up -/

/-- Stores the block, takes its transactions out of the mempool, and confirms the
clusters they belonged to. -/
def applyBlock (env : BootstrapEnv) (fuel : ℕ) (hash : String) (s : ClusterService) :
    Option (Except BlockSyncError Unit × ClusterService) :=
  match env.getBlock s.calls hash with
  | none => some (.error .node, s.called env.toClusterEnv)
  | some block =>
    let s := s.called env.toClusterEnv
    match s.transact env.toClusterEnv fun db => (db.insertWithTransactions block.toBlock
      (block.newTransactions (env.now s.calls))).map ((), ·) with
    | (none, s) => some (.error .db, s)
    | (some _, s) =>
      let s := { s with
        mempoolLedger := s.mempoolLedger.assertAbsent (env.call s.calls) block.txids }
      (s.confirmMined env.toClusterEnv fuel block.mined).map fun s => (.ok (), s)

/-- Applies the heights in order, stopping at the first that fails. -/
def applyHeights (env : BootstrapEnv) (fuel : ℕ) : List Int → ClusterService →
    Option (Except BlockSyncError Unit × ClusterService)
  | [], s => some (.ok (), s)
  | height :: heights, s =>
    match env.getBlockHash s.calls height with
    | none => some (.error .node, s.called env.toClusterEnv)
    | some hash => do
      match ← (s.called env.toClusterEnv).applyBlock env fuel hash with
      | (.error error, s) => return (.error error, s)
      | (.ok _, s) => s.applyHeights env fuel heights

/-- The heights `next..=tip`. -/
def missedHeights (next tip : Int) : List Int :=
  (List.range (tip + 1 - next).toNat).map (next + ·)

/-- Passes until the highest block stored is the node's tip, which can advance
meanwhile. -/
def catchUp (env : BootstrapEnv) (fuel : ℕ) : ℕ → ClusterService →
    Option (Except BlockSyncError Unit × ClusterService)
  | 0, _ => none
  | passes + 1, s =>
    match env.getTipHeight s.calls with
    | none => some (.error .node, s.called env.toClusterEnv)
    | some tip =>
      match (s.called env.toClusterEnv).query env.toClusterEnv Db.latestHeight with
      | (none, s) => some (.error .db, s)
      | (some latest, s) =>
        -- an empty database starts from the tip
        let next := latest.elim tip (· + 1)
        if tip < next then some (.ok (), s)
        else do
          match ← s.applyHeights env fuel (missedHeights next tip) with
          | (.error error, s) => return (.error error, s)
          | (.ok _, s) => s.catchUp env fuel passes

/-- Retries until a catch-up succeeds. -/
def syncMissingBlocks (env : BootstrapEnv) (fuel : ℕ) : ℕ → ClusterService → Option ClusterService
  | 0, _ => none
  | attempts + 1, s => do
    match ← s.catchUp env fuel fuel with
    | (.error _, s) => s.syncMissingBlocks env fuel attempts
    | (.ok _, s) => return s

/-! ### The mempool -/

/-- The rows of the node's mempool, one per txid. -/
def mempoolRows (call : Call) (entries : List MempoolEntrySummary) : List NewTransaction :=
  (call.order.toList (entries.map MempoolEntrySummary.txid).toFinset).filterMap fun txid =>
    (entries.reverse.find? fun entry => entry.txid = txid).map
      (·.newTransaction (call.now txid))

/-- Seeds the ledger with what the rows amount to and submits the node's mempool
as authoritative. -/
def setupMempoolSnapshot (env : BootstrapEnv) (s : ClusterService) :
    Option MempoolReconciliation × ClusterService :=
  let readAt := env.now s.calls
  match s.query env.toClusterEnv fun db => db.reconstructSnapshot readAt with
  | (none, s) => (none, s)
  | (some prev, s) =>
    match env.getRawMempoolVerbose s.calls with
    | none => (none, s.called env.toClusterEnv)
    | some entries =>
      let s := s.called env.toClusterEnv
      let live := (entries.map MempoolEntrySummary.txid).toFinset
      -- a failed upsert is only logged
      let s := (s.transact env.toClusterEnv fun db =>
        (db.insertMany (mempoolRows (env.call s.calls) entries)).map ((), ·)).2
      let ledger := (s.mempoolLedger.seed prev).submitAuthoritative (env.call s.calls) live
      (some ⟨(live \ prev).card, (prev \ live).card⟩, { s with mempoolLedger := ledger })

/-! ### What a catch-up leaves alone -/

variable {α : Type} {env : ClusterEnv} {s mid next : ClusterService}

/-- The rows stay; and unless the node answered with a group, a ledger with
nobody in it stays as well. -/
structure Quiet (env : ClusterEnv) (s next : ClusterService) : Prop where
  rows : next.db.mempoolDeltas = s.db.mempoolDeltas
  asked : answeredGroups s.asked <+: answeredGroups next.asked
  ledger : env.Alone → s.mempoolLedger.live = ∅ →
    answeredGroups next.asked = answeredGroups s.asked →
    next.mempoolLedger = s.mempoolLedger

theorem Moves.quiet (moves : Moves env s next) : Quiet env s next where
  rows := moves.commits.sameRecords.mempoolDeltas
  asked := moves.asked
  ledger := moves.ledger

theorem quiet_insertBlock (env : BootstrapEnv) (block : GetBlockModel) (s : ClusterService) :
    Quiet env.toClusterEnv s (s.transact env.toClusterEnv fun db =>
      (db.insertWithTransactions block.toBlock
      (block.newTransactions (env.now s.calls))).map ((), ·)).2 := by
  rcases transact_cases env.toClusterEnv (fun db => (db.insertWithTransactions block.toBlock
    (block.newTransactions (env.now s.calls))).map ((), ·)) s with
    failed | ⟨result, db, committed, done⟩
  · rw [failed]
    exact (silent_called _ s).moves.quiet
  · rw [done]
    obtain ⟨stored, inserted, same⟩ := Option.map_eq_some_iff.mp committed
    cases same
    exact ⟨Db.mempoolDeltas_insertWithTransactions inserted, List.prefix_rfl,
      fun alone _ _ => called_of_alone alone s⟩

namespace Quiet

theorem refl (s : ClusterService) : Quiet env s s := (Moves.refl s).quiet

theorem called (env : ClusterEnv) (s : ClusterService) : Quiet env s (s.called env) :=
  (silent_called env s).moves.quiet

theorem trans (first : Quiet env s mid) (second : Quiet env mid next) : Quiet env s next where
  rows := second.rows.trans first.rows
  asked := first.asked.trans second.asked
  ledger alone nobody unanswered := by
    have half := unanswered_halfway first.asked second.asked unanswered
    have same := first.ledger alone nobody half
    rw [second.ledger alone (same ▸ nobody) (unanswered.trans half.symm), same]

theorem confirmMined {fuel : ℕ} {block : MinedBlock}
    (h : s.confirmMined env fuel block = some next) : Quiet env s next := by
  obtain ⟨⟨changes, confirmed⟩, inner, rfl⟩ := Option.map_eq_some_iff.mp h
  have all := (moves_confirmMinedInner inner).quiet
  exact ⟨all.rows, all.asked, all.ledger⟩

section CatchUp

variable {env : BootstrapEnv} {fuel : ℕ} {result : Except BlockSyncError Unit}

theorem applyBlock {hash : String} (h : s.applyBlock env fuel hash = some (result, next)) :
    Quiet env.toClusterEnv s next := by
  have called := Quiet.called env.toClusterEnv s
  unfold ClusterService.applyBlock at h
  split at h
  case h_1 =>
    cases h
    exact called
  -- Nothing up to the confirmation asks the node for a cluster.
  case h_2 block fetched =>
    have inserts := called.trans ((s.called env.toClusterEnv).quiet_insertBlock env block)
    dsimp only at h
    split at h
    case h_1 after transacted =>
      rw [transacted] at inserts
      cases h
      exact inserts
    case h_2 stored after transacted =>
      rw [transacted] at inserts
      obtain ⟨confirmed, confirms, done⟩ := Option.map_eq_some_iff.mp h
      cases done
      exact (inserts.trans (moves_assertAbsent ..).quiet).trans (confirmMined confirms)

theorem applyHeights {heights : List Int}
    (h : s.applyHeights env fuel heights = some (result, next)) :
    Quiet env.toClusterEnv s next := by
  -- Induction over the heights of the pass, which the first failure ends.
  induction heights generalizing s with
  | nil =>
    cases h
    exact .refl _
  | cons height heights ih =>
    have called := Quiet.called env.toClusterEnv s
    rw [ClusterService.applyHeights] at h
    split at h
    case h_1 =>
      cases h
      exact called
    case h_2 hash known =>
      obtain ⟨⟨applied, after⟩, applies, h⟩ := Option.bind_eq_some_iff.mp h
      have applied := called.trans (applyBlock applies)
      split at h
      case h_1 same =>
        cases same
        cases h
        exact applied
      case h_2 same =>
        cases same
        exact applied.trans (ih h)

theorem catchUp {passes : ℕ} (h : s.catchUp env fuel passes = some (result, next)) :
    Quiet env.toClusterEnv s next := by
  -- Induction on the passes, each of which reads the tip, the latest height and the gap.
  induction passes generalizing s with
  | zero => simp [ClusterService.catchUp] at h
  | succ passes ih =>
    have called := Quiet.called env.toClusterEnv s
    rw [ClusterService.catchUp] at h
    split at h
    case h_1 =>
      cases h
      exact called
    case h_2 tip known =>
      have reads := called.trans
        (silent_query env.toClusterEnv Db.latestHeight (s.called env.toClusterEnv)).moves.quiet
      split at h
      case h_1 after read =>
        rw [read] at reads
        cases h
        exact reads
      case h_2 latest after read =>
        rw [read] at reads
        dsimp only at h
        split_ifs at h
        · cases h
          exact reads
        obtain ⟨⟨applied, last⟩, applies, h⟩ := Option.bind_eq_some_iff.mp h
        have applied := reads.trans (applyHeights applies)
        split at h
        case h_1 same =>
          cases same
          cases h
          exact applied
        case h_2 same =>
          cases same
          exact applied.trans (ih h)

theorem syncMissingBlocks {attempts : ℕ}
    (h : s.syncMissingBlocks env fuel attempts = some next) : Quiet env.toClusterEnv s next := by
  induction attempts generalizing s with
  | zero => simp [ClusterService.syncMissingBlocks] at h
  | succ attempts ih =>
    rw [ClusterService.syncMissingBlocks] at h
    obtain ⟨⟨outcome, after⟩, catches, h⟩ := Option.bind_eq_some_iff.mp h
    have caught := catchUp catches
    split at h
    case h_1 same =>
      cases same
      exact caught.trans (ih h)
    case h_2 same =>
      cases same
      cases h
      exact caught

end CatchUp

end Quiet

/-- With both reads answered, the comparison seeds the ledger with the residency
the rows amount to, submits the node's mempool, and writes no delta row. -/
theorem setupMempoolSnapshot_of_reads {env : BootstrapEnv} {entries : List MempoolEntrySummary}
    (reconstructs : env.fails s.calls 0 = false)
    (fetches : env.getRawMempoolVerbose (s.calls + 1) = some entries) :
    ∃ call, (s.setupMempoolSnapshot env).2.mempoolLedger =
        (s.mempoolLedger.seed (s.db.reconstructSnapshot (env.now s.calls))).submitAuthoritative call
          (entries.map MempoolEntrySummary.txid).toFinset ∧
      (s.setupMempoolSnapshot env).2.db.mempoolDeltas = s.db.mempoolDeltas := by
  have reads : s.query env.toClusterEnv (fun db => db.reconstructSnapshot (env.now s.calls)) =
      (some (s.db.reconstructSnapshot (env.now s.calls)), s.called env.toClusterEnv) := by
    simp [query, reconstructs]
  set read := (s.called env.toClusterEnv).called env.toClusterEnv with read_eq
  have ledger : read.mempoolLedger = s.mempoolLedger := by
    rw [read_eq, called_of_alone env.alone, called_of_alone env.alone]
  set upserted := (read.transact env.toClusterEnv fun db => (db.insertMany
    (mempoolRows (env.call read.calls) entries)).map ((), ·)).2 with upserted_eq
  have same : upserted.mempoolLedger = s.mempoolLedger ∧
      upserted.db.mempoolDeltas = s.db.mempoolDeltas := by
    -- A failed upsert is only logged, and the ledger is seeded all the same.
    rcases transact_cases env.toClusterEnv (fun db => (db.insertMany
      (mempoolRows (env.call read.calls) entries)).map ((), ·)) read with
      failed | ⟨result, db, committed, done⟩
    · rw [upserted_eq, failed]
      exact ⟨(called_of_alone env.alone read).trans ledger, rfl⟩
    · obtain ⟨stored, inserted, same⟩ := Option.map_eq_some_iff.mp committed
      cases same
      rw [upserted_eq, done]
      exact ⟨(called_of_alone env.alone read).trans ledger, (Db.tables_upsertMany inserted).1⟩
  -- The seed is what the tables reconstruct, and the node's mempool is submitted over it.
  have result : (s.setupMempoolSnapshot env).2 = { upserted with
      mempoolLedger := (upserted.mempoolLedger.seed
        (s.db.reconstructSnapshot (env.now s.calls))).submitAuthoritative (env.call upserted.calls)
          (entries.map MempoolEntrySummary.txid).toFinset } := by
    unfold setupMempoolSnapshot
    dsimp only
    rw [reads]
    dsimp only
    rw [show env.getRawMempoolVerbose (s.called env.toClusterEnv).calls = some entries from fetches]
  rw [result, same.1]
  exact ⟨env.call upserted.calls, rfl, same.2⟩

end ClusterService

/-- **Restart.** Bootstrap on a new ledger, both of its reads answered and no
group of the node's among the answers of the catch-up, and then any schedule with
no push refused: the directions of every txid that alternated in the rows of the
replay window go on alternating in the rows stored since and the entries pending. -/
theorem restart_keeps_alternation {env : BootstrapEnv} {fuel attempts now : ℕ}
    {start caughtUp : ClusterService} {entries : List MempoolEntrySummary} {s : System}
    (fresh : start.mempoolLedger = .default)
    (synced : start.syncMissingBlocks env fuel attempts = some caughtUp)
    (unanswered : answeredGroups caughtUp.asked = answeredGroups start.asked)
    (reconstructs : env.fails caughtUp.calls 0 = false)
    (fetches : env.getRawMempoolVerbose (caughtUp.calls + 1) = some entries)
    (fits : ((entries.map MempoolEntrySummary.txid).toFinset \
        start.db.reconstructSnapshot (env.now caughtUp.calls)).card +
      (start.db.reconstructSnapshot (env.now caughtUp.calls) \
        (entries.map MempoolEntrySummary.txid).toFinset).card ≤ journalCap)
    (run : ReflTransGen System.AcceptingStep
      (.initial now (caughtUp.setupMempoolSnapshot env).2.mempoolLedger
        (caughtUp.setupMempoolSnapshot env).2.db) s)
    (txid : Txid)
    (alternates : (signs txid (edits ((start.db.replayWindow (env.now caughtUp.calls)).map
      MempoolDelta.entry))).IsChain (· ≠ ·)) :
    (signs txid (edits ((start.db.replayWindow (env.now caughtUp.calls)).map MempoolDelta.entry ++
      s.history start.db))).IsChain (· ≠ ·) := by
  set readAt := env.now caughtUp.calls
  have quiet := ClusterService.Quiet.syncMissingBlocks synced
  have ledger : caughtUp.mempoolLedger = .default := by
    rw [quiet.ledger env.alone (by rw [fresh]; rfl) unanswered, fresh]
  have prev : caughtUp.db.reconstructSnapshot readAt = start.db.reconstructSnapshot readAt := by
    simp only [Db.reconstructSnapshot, Db.replayWindow, quiet.rows]
  obtain ⟨call, submitted, rows⟩ :=
    ClusterService.setupMempoolSnapshot_of_reads reconstructs fetches
  rw [ledger, prev] at submitted
  set booted := (caughtUp.setupMempoolSnapshot env).2
  set live := (entries.map MempoolEntrySummary.txid).toFinset
  -- the submission is the first step of the run of a ledger seeded from the rows
  have submits : System.AcceptingStep
      (.initial now (MempoolLedger.default.seed (start.db.reconstructSnapshot readAt)) booted.db)
      (.initial now booted.mempoolLedger booted.db) := by
    refine ⟨.produce (.submitAuthoritative call live), by rw [submitted]; rfl, ?_⟩
    rintro ⟨_, ⟨⟩, refused⟩
    refine absurd refused (not_lt.mpr ?_)
    change (MempoolLedger.gapEntries call (start.db.reconstructSnapshot readAt) live).length ≤
      journalCap - 0
    simpa [MempoolLedger.gapEntries] using fits
  have seeded := HistoryInv.seeded (show MempoolLedger.default.journal = [] from rfl) now
    (start.db.reconstructSnapshot readAt) booted.db
  obtain ⟨history, grown⟩ := seeded.run (.initial ..) (.head submits run)
  have rest := (history.alternating grown txid).1
  have sameHistory : s.history booted.db = s.history start.db := by
    rw [System.history, System.history, rows, quiet.rows]
  rw [sameHistory] at rest
  rw [edits_append, signs_append]
  refine rest.isChain_append alternates fun last isLast => ?_
  rw [Db.reconstructSnapshot_eq, residency, mem_replay, Option.mem_def.mp isLast]
  rfl

/-! ### A catch-up that is answered -/

/-- The api stopped with `a` and `b` in the mempool, in one cluster. -/
def stoppedDb : Db where
  mempoolDeltas := [⟨"a", .addMempool, 0⟩, ⟨"b", .addMempool, 0⟩]
  transactions txid :=
    if txid ∈ ["a", "b"] then some ⟨none, 0, 0, none, some 1, none, none⟩ else none
  blocks := [⟨"h1", 1, 0⟩]
  clusters id := if id = 1 then some ⟨.active, 1, 400, 30, 0, none, none⟩ else none
  clusterSeq := 2
  clusterChunks := [⟨1, 1, 0, 30, 400, ["a", "b"], true⟩]

/-- The process that starts on it. -/
def restarted : ClusterService := ⟨stoppedDb, .default, fun _ => none, 0, []⟩

/-- Meanwhile a block mined `mined`, and `left` is what is left in the node's mempool. -/
def restartEnv (mined : List BlockTxSummary) (left : List Txid) : BootstrapEnv where
  getMempoolCluster _ txid :=
    if txid ∈ left then .cluster ⟨[⟨[txid], 10, 200⟩]⟩ else .txNotFoundInMempool
  fails _ _ := false
  now _ := 5
  call _ := sampleCall
  getTipHeight _ := some 2
  getBlockHash _ _ := some "h2"
  getBlock _ hash := some ⟨hash, 2, 5, mined⟩
  getRawMempoolVerbose _ := some (left.map fun txid => ⟨txid, 10, 200⟩)

/-- The block mined `a` only, and the node still has `b`. -/
def answeredEnv : BootstrapEnv := restartEnv [⟨"a", 200, 20, []⟩] ["b"]

/-- The block mined the whole cluster, and the node has `c` since. -/
def minedEnv : BootstrapEnv := restartEnv [⟨"a", 200, 20, []⟩, ⟨"b", 200, 10, []⟩] ["c"]

theorem stoppedDb_alternates (txid : Txid) :
    (signs txid (edits (stoppedDb.mempoolDeltas.map MempoolDelta.entry))).IsChain (· ≠ ·) := by
  have rows : edits (stoppedDb.mempoolDeltas.map MempoolDelta.entry) =
      [.insert "a", .insert "b"] := rfl
  rw [rows, signs_cons, signs_cons, signs_nil]
  by_cases first : "a" = txid
  · subst first
    decide
  · by_cases second : "b" = txid <;> simp [first, second]

/-- Both leave, once each. -/
theorem minedCluster_restart_alternates :
    ∃ caughtUp s, restarted.syncMissingBlocks minedEnv 3 1 = some caughtUp ∧
      s = System.initial 0 (caughtUp.setupMempoolSnapshot minedEnv).2.mempoolLedger
        (caughtUp.setupMempoolSnapshot minedEnv).2.db ∧
      signs "b" (edits (s.history stoppedDb)) = [false] ∧
      (signs "b" (edits (stoppedDb.mempoolDeltas.map MempoolDelta.entry ++
        s.history stoppedDb))).IsChain (· ≠ ·) := by
  obtain ⟨caughtUp, synced⟩ : ∃ caughtUp, restarted.syncMissingBlocks minedEnv 3 1 =
      some caughtUp := Option.isSome_iff_exists.mp (by decide)
  have caught : (restarted.syncMissingBlocks minedEnv 3 1).map (fun caughtUp =>
      let booted := (caughtUp.setupMempoolSnapshot minedEnv).2
      (answeredGroups caughtUp.asked, signs "b" (edits
        ((System.initial 0 booted.mempoolLedger booted.db).history stoppedDb)))) =
      some ([], [false]) := by
    decide +kernel
  rw [synced, Option.map_some, Option.some.injEq, Prod.mk.injEq] at caught
  refine ⟨caughtUp, _, synced, rfl, caught.2, ?_⟩
  have fits : (["c"].toFinset \ stoppedDb.reconstructSnapshot 5).card +
      (stoppedDb.reconstructSnapshot 5 \ ["c"].toFinset).card ≤ journalCap := by decide
  exact restart_keeps_alternation (show restarted.mempoolLedger = .default from rfl) synced caught.1
    rfl rfl fits .refl "b" (stoppedDb_alternates "b")

/-- A tick up to its database commit, the adds all having a row. -/
def oneTick : List SystemOp :=
  [.tick .tryLock, .tick .checkHeld, .tick (.beginFlush sampleCall), .tick .bailIf, .tick .exec,
    .tick .proceed, .tick .bailIf, .tick .exec, .tick .proceed, .tick .bailIf, .tick .exec,
    .tick .proceed, .tick .proceed, .tick .bailIf, .tick .commitDb]

/-- Confirming `a` asks the node about `b`, and the ledger, which is not seeded
yet, queues an add of it: the tick stores it a second time. -/
theorem catchUp_answer_adds_twice :
    ∃ caughtUp reconciliation booted s,
      restarted.syncMissingBlocks answeredEnv 3 1 = some caughtUp ∧
      caughtUp.setupMempoolSnapshot answeredEnv = (some reconciliation, booted) ∧
      (System.initial 0 booted.mempoolLedger booted.db).steps oneTick = some s ∧
      stoppedDb.replayWindow (answeredEnv.now caughtUp.calls) = stoppedDb.mempoolDeltas ∧
      (∀ txid, (signs txid (edits (stoppedDb.mempoolDeltas.map MempoolDelta.entry))).IsChain
        (· ≠ ·)) ∧
      s.db.mempoolDeltas = stoppedDb.mempoolDeltas ++
        [⟨"b", .addMempool, 5⟩, ⟨"a", .removeConfirmed, 5⟩] ∧
      ¬ (signs "b" (edits (s.db.mempoolDeltas.map MempoolDelta.entry))).IsChain (· ≠ ·) := by
  obtain ⟨caughtUp, synced⟩ : ∃ caughtUp, restarted.syncMissingBlocks answeredEnv 3 1 =
      some caughtUp := Option.isSome_iff_exists.mp (by decide)
  have flushed : (restarted.syncMissingBlocks answeredEnv 3 1).map (fun caughtUp =>
      let booted := caughtUp.setupMempoolSnapshot answeredEnv
      (booted.1, ((System.initial 0 booted.2.mempoolLedger booted.2.db).steps oneTick).map
        fun s => s.db.mempoolDeltas)) =
      some (some ⟨0, 1⟩, some (stoppedDb.mempoolDeltas ++
        [⟨"b", .addMempool, 5⟩, ⟨"a", .removeConfirmed, 5⟩])) := by
    decide +kernel
  rw [synced, Option.map_some, Option.some.injEq, Prod.mk.injEq] at flushed
  obtain ⟨s, ticked, rows⟩ := Option.map_eq_some_iff.mp flushed.2
  refine ⟨caughtUp, _, _, s, synced, Prod.ext flushed.1 rfl, ticked, rfl, stoppedDb_alternates,
    rows, ?_⟩
  rw [rows]
  decide

end MempoolObserver
