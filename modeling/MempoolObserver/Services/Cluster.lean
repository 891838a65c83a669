import MempoolObserver.Db.MempoolDeltas
import MempoolObserver.Services.ClusterDelta

/-!
# The cluster service

Rounds of the cluster service: the candidate work queue that asks the node for
the clusters of transactions and stores its answers, the handling of mined and
evicted transactions around it, and the publication of what changed.

No two rounds run at once, and a round talks to the outside one call at a time:
to the node, to the database and to the clock. `ClusterEnv` is what the outside
answers to each call, numbered within the service's life, so that the node's
mempool may change, any repository call may fail and the other producers may
move the ledger between any two of them. A failed transaction
has no effect; `insert_many_with_members` is several transactions, one per slice,
and each of them may fail on its own.

The candidate queue is not bounded by the source, so it takes the number of its
iterations as an argument and has no result when they do not suffice.
-/

namespace MempoolObserver

open Collections

/-- What `get_mempool_cluster` returns. -/
inductive ClusterAnswer where
  | cluster (cluster : GetMempoolClusterModel)
  | txNotFoundInMempool
  | error
  deriving DecidableEq, Repr

/-- What a round does not decide itself, call by call. -/
structure ClusterEnv where
  getMempoolCluster : ℕ → Txid → ClusterAnswer
  /-- Whether the call fails, and for a sliced one, at which transaction. -/
  fails : ℕ → ℕ → Bool
  now : ℕ → OffsetDateTime
  call : ℕ → Call
  /-- What the other producers do to the ledger while the call is awaited. -/
  others : ℕ → List Producer := fun _ => []

/-- No other task runs while the service does. -/
def ClusterEnv.Alone (env : ClusterEnv) : Prop := ∀ call, env.others call = []

/-- The service, with the state it shares with the rest of the api. -/
structure ClusterService where
  db : Db
  mempoolLedger : MempoolLedger
  snapshot : ClusterSnapshot
  /-- Calls made so far. -/
  calls : ℕ
  /-- What the node was asked, and what it answered. -/
  asked : List (Txid × ClusterAnswer)

def newCluster (now : OffsetDateTime) (cluster : GetMempoolClusterModel) : NewCluster :=
  ⟨cluster.chunks, now⟩

/-- Result of one `upsert`: the clusters it touched, plus the txids it unlinked
from their previous cluster and that still need one. -/
structure UpsertOutcome where
  changes : ClusterDeltaSet
  detached : List Txid

def UpsertOutcome.untouched (changes : ClusterDeltaSet) : UpsertOutcome := ⟨changes, []⟩

/-- The locals of `handle_candidates_covering`. -/
structure CandidateQueue where
  pending : List Txid
  outOfMempool : Finset Txid
  /-- Keyed by the cluster's only txid. -/
  freshSingletons : List (Txid × NewCluster)
  changes : ClusterDeltaSet

/-! ### Mined blocks -/

structure MinedBlock where
  txids : List Txid
  fees : Txid → Option Int64
  weights : Txid → Option Int64
  confirmedAt : OffsetDateTime

/-- The part of a chunk the block mined, valued by the block. -/
def MinedBlock.splitChunk (block : MinedBlock) (txids : List Txid) : ClusterChunk where
  txids := txids
  feeSats := (txids.filterMap block.fees).sum.toUInt64
  weight := (txids.filterMap block.weights).sum.toUInt64

/-- A partly mined cluster split into the chunks its block mined, which it
keeps, and the members still pending, which need a cluster of their own. -/
structure MinedTrim where
  clusterId : ClusterId
  mined : List ClusterChunk
  pending : List Txid

/-- What the block leaves of one chunk, if anything. -/
def MinedTrim.minedPart (block : MinedBlock) (chunk : ClusterChunk) : Option ClusterChunk :=
  let inBlock := chunk.txids.filter (· ∈ block.txids)
  if chunk.txids.filter (· ∉ block.txids) = [] then some chunk
  else if inBlock ≠ [] then some (block.splitChunk inBlock)
  else none

def MinedTrim.new (cluster : Cluster) (block : MinedBlock) : MinedTrim where
  clusterId := cluster.id
  mined := cluster.chunks.filterMap (minedPart block)
  pending := cluster.chunks.flatMap fun chunk => chunk.txids.filter (· ∉ block.txids)

def MinedTrim.asUpdate (trim : MinedTrim) : ClusterVersionUpdate := ⟨trim.clusterId, trim.mined⟩

/-- Key of a block among the mined transactions, in the order they are confirmed in. -/
def minedKey (row : Txid × Transaction × Int × OffsetDateTime) : Option (Int × String) :=
  row.2.1.confirmedAtBlock.map fun hash => (row.2.2.1, hash)

/-- `MinedTxs::by_block`: the mined transactions by block, in height order. -/
def MinedBlock.byBlock (rows : List (Txid × Transaction × Int × OffsetDateTime)) :
    List MinedBlock :=
  let keys := (rows.filterMap minedKey).dedup.insertionSort fun a b =>
    a.1 < b.1 ∨ a.1 = b.1 ∧ a.2 ≤ b.2
  keys.filterMap fun key =>
    let mined := rows.filter fun row => minedKey row = some key
    mined.head?.map fun first =>
      { txids := mined.map Prod.fst
        fees := fun txid => (mined.find? fun row => row.1 = txid).bind fun row => row.2.1.fee
        weights := fun txid => (mined.find? fun row => row.1 = txid).map fun row => row.2.1.weight
        confirmedAt := first.2.2.2 }

namespace ClusterService

variable {α : Type}

/-! ### Calls to the outside -/

/-- A call is awaited. -/
def called (env : ClusterEnv) (s : ClusterService) : ClusterService :=
  { s with
    calls := s.calls + 1
    mempoolLedger := (env.others s.calls).foldl Producer.apply s.mempoolLedger }

/-- A read of the database. -/
def query (env : ClusterEnv) (read : Db → α) (s : ClusterService) : Option α × ClusterService :=
  (if env.fails s.calls 0 then none else some (read s.db), s.called env)

/-- One database transaction: it fails, or commits all of what it does. -/
def transact (env : ClusterEnv) (transaction : Db → Option (α × Db)) (s : ClusterService) :
    Option α × ClusterService :=
  if env.fails s.calls 0 then (none, s.called env)
  else
    match transaction s.db with
    | some (result, db) => (some result, { s.called env with db := db })
    | none => (none, s.called env)

def findActiveIdsByTxids (env : ClusterEnv) (txids : List Txid) (s : ClusterService) :
    Option (List ClusterId) × ClusterService :=
  if txids = [] then (some [], s) else s.query env fun db => db.findActiveIdsByTxids txids

/-- `insert_many_with_members` from the `slice`-th slice on: the first
transaction that fails ends the call with an error, the ones before it stay. -/
def insertSlices (fails : ℕ → Bool) (now : Txid → OffsetDateTime) :
    ℕ → List (List NewCluster) → Db → Option (List Cluster) × Db
  | _, [], db => (some [], db)
  | slice, batch :: rest, db =>
    if fails slice then (none, db)
    else
      match db.insertIn now batch with
      | none => (none, db)
      | some (rows, next) =>
        let (more, last) := insertSlices fails now (slice + 1) rest next
        (more.map (rows ++ ·), last)

def insertManyWithMembers (env : ClusterEnv) (new : List NewCluster) (s : ClusterService) :
    Option (List Cluster) × ClusterService :=
  if new = [] then (some [], s)
  else
    let (inserted, db) := insertSlices (env.fails s.calls) (env.call s.calls).now 0
      (slices mempoolDeltaInsertChunkSize new) s.db
    (inserted, { s.called env with db := db })

/-! ### Candidates -/

/-- Closes the clusters that merge into another one, if there are any. -/
def markMerged (env : ClusterEnv) (clustersToRemove : List ClusterId) (s : ClusterService) :
    Option ClusterDeltaSet × ClusterService :=
  if clustersToRemove = [] then (some .default, s)
  else
    match s.transact env fun db =>
      some (db.closeMany (env.now s.calls) clustersToRemove .merged) with
    | (none, s) => (none, s)
    | (some _, s) => (some (clustersToRemove.foldl ClusterDeltaSet.markRemoved .default), s)

/-- Inserts a new cluster or updates the existing ones covering this group. -/
def upsert (env : ClusterEnv) (cluster : GetMempoolClusterModel) (existingIds : List ClusterId)
    (s : ClusterService) : UpsertOutcome × ClusterService :=
  -- No active cluster holds any of the group: a new one is inserted.
  if existingIds = [] then
    let new := newCluster (env.now s.calls) cluster
    match s.transact env fun db => db.insertWithMembers (env.call s.calls).now new with
    | (none, s) => (.untouched .default, s)
    | (some updated, s) => (⟨ClusterDeltaSet.markUpserted .default updated, []⟩, s)
  else
    match s.query env fun db => db.findByIds existingIds with
    | (none, s) => (.untouched .default, s)
    | (some existing, s) =>
      -- The oldest of the clusters met keeps its id, and the others are merged into it.
      match existing.minOn? Cluster.firstSeenAt with
      | none => (.untouched .default, s)
      | some keep =>
        -- Whoever was with them and is not in the group is asked about again.
        let detached := (existing.flatMap Cluster.txids).filter (· ∉ cluster.txids)
        match s.markMerged env ((existing.map Cluster.id).filter (· ≠ keep.id)) with
        | (none, s) => (.untouched .default, s)
        | (some changes, s) =>
          match s.transact env fun db =>
            db.replaceChunksIn (env.call s.calls).now ⟨keep.id, cluster.chunks⟩ true with
          | (none, s) => (⟨changes, detached⟩, s)
          | (some updated, s) => (⟨changes.markUpserted updated, detached⟩, s)

/-- The node knows nothing of `txid`. -/
def reportAbsent (env : ClusterEnv) (txid : Txid) (queue : CandidateQueue) (s : ClusterService) :
    CandidateQueue × ClusterService :=
  ({ queue with outOfMempool := insert txid queue.outOfMempool },
    { s with mempoolLedger := s.mempoolLedger.assertAbsent (env.call s.calls) [txid] })

/-- Stores the group the node answered with. -/
def reportPresent (env : ClusterEnv) (cluster : GetMempoolClusterModel) (queue : CandidateQueue)
    (s : ClusterService) : CandidateQueue × ClusterService :=
  let txids := cluster.txids
  let queue := { queue with outOfMempool := queue.outOfMempool ∪ txids.toFinset }
  let s := { s with mempoolLedger := s.mempoolLedger.assertPresent (env.call s.calls) txids }
  match s.findActiveIdsByTxids env txids with
  | (none, s) => (queue, s)
  | (some existingIds, s) =>
    if existingIds = [] ∧ txids.length = 1 then
      let singletons := txids.map fun txid => (txid, newCluster (env.now s.calls) cluster)
      ({ queue with
          freshSingletons := singletons ++ queue.freshSingletons.filter (·.1 ∉ txids) }, s)
    else
      -- the node grew a group past a buffered singleton, which must not be inserted as well
      let queue := { queue with
        freshSingletons := queue.freshSingletons.filter (·.1 ∉ txids) }
      let (outcome, s) := s.upsert env cluster existingIds
      ({ queue with
          changes := queue.changes.merge outcome.changes
          pending := queue.pending ++ outcome.detached.filter (· ∉ queue.outOfMempool) }, s)

/-- One iteration of the queue, for the txid at its front. -/
def candidate (env : ClusterEnv) (txid : Txid) (queue : CandidateQueue) (s : ClusterService) :
    CandidateQueue × ClusterService :=
  if txid ∈ queue.outOfMempool then (queue, s)
  else
    let answer := env.getMempoolCluster s.calls txid
    let s := { s.called env with asked := s.asked ++ [(txid, answer)] }
    match answer with
    | .error => (queue, s)
    | .txNotFoundInMempool => s.reportAbsent env txid queue
    | .cluster cluster =>
      if cluster.txids = [] then s.reportAbsent env txid queue
      else s.reportPresent env cluster queue

/-- The work queue. -/
def drain (env : ClusterEnv) : ℕ → CandidateQueue → ClusterService →
    Option (CandidateQueue × ClusterService)
  | 0, _, _ => none
  | fuel + 1, queue, s =>
    match queue.pending with
    | [] => some (queue, s)
    | txid :: pending =>
      let (queue, s) := s.candidate env txid { queue with pending := pending }
      drain env fuel queue s

/-- Batch-inserts the singletons that never merged with anything else. -/
def insertSingletons (env : ClusterEnv) (queue : CandidateQueue) (s : ClusterService) :
    ClusterDeltaSet × ClusterService :=
  let keys := (env.call s.calls).order.toList (queue.freshSingletons.map Prod.fst).toFinset
  let batch := keys.filterMap fun txid => queue.freshSingletons.lookup txid
  match s.insertManyWithMembers env batch with
  | (none, s) => (queue.changes, s)
  | (some rows, s) => (rows.foldl ClusterDeltaSet.markUpserted queue.changes, s)

/-- Fetches and persists the clusters that the candidates belong to; the queue
never asks the node about a txid in `outOfMempool`. -/
def handleCandidatesCovering (env : ClusterEnv) (fuel : ℕ) (candidateTxids : List Txid)
    (outOfMempool : Finset Txid) (s : ClusterService) : Option (ClusterDeltaSet × ClusterService) :=
  (s.drain env fuel ⟨candidateTxids, outOfMempool, [], .default⟩).map fun (queue, s) =>
    s.insertSingletons env queue

def handleCandidates (env : ClusterEnv) (fuel : ℕ) (candidateTxids : List Txid)
    (s : ClusterService) : Option (ClusterDeltaSet × ClusterService) :=
  s.handleCandidatesCovering env fuel candidateTxids ∅

/-! ### Mined transactions -/

def findActiveClustersContaining (env : ClusterEnv) (txids : List Txid) (s : ClusterService) :
    List Cluster × ClusterService :=
  match s.findActiveIdsByTxids env txids with
  | (none, s) => ([], s)
  | (some clusterIds, s) =>
    if clusterIds = [] then ([], s)
    else
      match s.query env fun db => db.findByIds clusterIds with
      | (none, s) => ([], s)
      | (some clusters, s) => (clusters, s)

/-- Confirms the clusters the block mined whole. -/
def confirmFull (env : ClusterEnv) (confirmedAt : OffsetDateTime) (full : List Cluster)
    (s : ClusterService) : ClusterDeltaSet × ClusterService :=
  let fullIds := full.map Cluster.id
  if fullIds = [] then (.default, s)
  else
    match s.transact env fun db =>
      some (db.confirmManyIn (env.now s.calls) fullIds confirmedAt) with
    | (none, s) => (.default, s)
    | (some _, s) => (fullIds.foldl ClusterDeltaSet.markRemoved .default, s)

/-- Trims the clusters the block mined in part to what it mined, confirms that,
and asks the node about the rest. -/
def confirmPartial (env : ClusterEnv) (fuel : ℕ) (block : MinedBlock) (partly : List Cluster)
    (s : ClusterService) : Option (ClusterDeltaSet × ClusterService) :=
  if partly = [] then some (.default, s)
  else
    let trims := partly.map fun cluster => MinedTrim.new cluster block
    match s.transact env fun db => db.trimAndConfirmMany (env.call s.calls).now (env.now s.calls)
      (trims.map MinedTrim.asUpdate) block.confirmedAt with
    | (none, s) => some (.default, s)
    | (some _, s) =>
      let changes := (trims.map MinedTrim.clusterId).foldl ClusterDeltaSet.markRemoved .default
      (s.handleCandidates env fuel (trims.flatMap MinedTrim.pending)).map fun (synced, s) =>
        (changes.merge synced, s)

/-- Every member of the cluster is in the block. -/
def isFull (block : MinedBlock) (cluster : Cluster) : Bool :=
  cluster.txids.all (· ∈ block.txids)

def confirmMinedInner (env : ClusterEnv) (fuel : ℕ) (block : MinedBlock) (s : ClusterService) :
    Option (ClusterDeltaSet × ClusterService) :=
  let (clusters, s) := s.findActiveClustersContaining env block.txids
  let (confirmed, s) := s.confirmFull env block.confirmedAt (clusters.filter (isFull block))
  (s.confirmPartial env fuel block (clusters.filter (!isFull block ·))).map fun (trimmed, s) =>
    (confirmed.merge trimmed, s)

/-- One block after the other. -/
def confirmBlocks (env : ClusterEnv) (fuel : ℕ) : List MinedBlock → ClusterDeltaSet →
    ClusterService → Option (ClusterDeltaSet × ClusterService)
  | [], changes, s => some (changes, s)
  | block :: blocks, changes, s => do
    let (confirmed, s) ← s.confirmMinedInner env fuel block
    confirmBlocks env fuel blocks (changes.merge confirmed) s

/-- Closes the still-active clusters of txids the flush recorded as mined. -/
def handleConfirmed (env : ClusterEnv) (fuel : ℕ) (confirmedTxids : List Txid)
    (s : ClusterService) : Option (ClusterDeltaSet × ClusterService) :=
  match s.findActiveIdsByTxids env confirmedTxids with
  | (none, s) => some (.default, s)
  | (some ids, s) =>
    if ids = [] then some (.default, s)
    else
      match s.query env fun db => db.findByIds ids with
      | (none, s) => some (.default, s)
      | (some clusters, s) =>
        let members := clusters.flatMap Cluster.txids
        match s.query env fun db => db.findMinedByTxids members with
        | (none, s) => some (.default, s)
        | (some rows, s) => s.confirmBlocks env fuel (MinedBlock.byBlock rows) .default

/-! ### Evicted transactions -/

/-- The members of the cluster that are left once `evicted` is gone. -/
def remaining (evicted : List Txid) (live : Finset Txid) (cluster : Cluster) : List Txid :=
  cluster.txids.filter fun txid => txid ∉ evicted ∧ txid ∈ live

/-- The clusters the eviction really touched. -/
def touched (evicted : List Txid) (cluster : Cluster) : Bool :=
  cluster.status = .active ∧ ∃ txid ∈ cluster.txids, txid ∈ evicted

def markEvicted (env : ClusterEnv) (emptied : List ClusterId) (s : ClusterService) :
    ClusterDeltaSet × ClusterService :=
  if emptied = [] then (.default, s)
  else
    match s.transact env fun db => some (db.closeMany (env.now s.calls) emptied .evicted) with
    | (none, s) => (.default, s)
    | (some _, s) => (emptied.foldl ClusterDeltaSet.markRemoved .default, s)

/-- Closes the clusters that mempool eviction emptied out, and re-syncs the
survivors of the ones that only shrank. -/
def handleEvicted (env : ClusterEnv) (fuel : ℕ) (evictedTxids : List Txid) (s : ClusterService) :
    Option (ClusterDeltaSet × ClusterService) :=
  if evictedTxids = [] then some (.default, s)
  else
    match s.findActiveIdsByTxids env evictedTxids with
    | (none, s) => some (.default, s)
    | (some clusterIds, s) =>
      if clusterIds = [] then some (.default, s)
      else
        match s.query env fun db => db.findByIds clusterIds with
        | (none, s) => some (.default, s)
        | (some clusters, s) =>
          -- members can leave over several flushes: the ledger knows who is left
          let live := s.mempoolLedger.live
          let hit := clusters.filter (touched evictedTxids)
          let emptied := hit.filter fun cluster => (remaining evictedTxids live cluster).isEmpty
          let survivors := hit.flatMap (remaining evictedTxids live)
          let (closed, s) := s.markEvicted env (emptied.map Cluster.id)
          if survivors = [] then some (closed, s)
          else
            (s.handleCandidatesCovering env fuel survivors evictedTxids.toFinset).map
              fun (synced, s) => (closed.merge synced, s)

/-! ### Rounds -/

/-- Hands what changed to the snapshot. -/
def publishDelta (changes : ClusterDeltaSet) (s : ClusterService) : ClusterService :=
  { s with snapshot := s.snapshot.publish changes }

/-- A stage of a round, skipped when it has nothing to do. -/
def stage (txids : List Txid) (handle : ClusterService → Option (ClusterDeltaSet × ClusterService))
    (s : ClusterService) : Option (ClusterDeltaSet × ClusterService) :=
  if txids = [] then some (.default, s) else handle s

def syncClusters (env : ClusterEnv) (fuel : ℕ)
    (candidateTxids confirmedTxids evictedTxids : List Txid) (s : ClusterService) :
    Option ClusterService := do
  let (confirmed, s) ← s.stage confirmedTxids fun s => s.handleConfirmed env fuel confirmedTxids
  let (evicted, s) ← s.stage evictedTxids fun s => s.handleEvicted env fuel evictedTxids
  let (candidates, s) ← s.stage candidateTxids fun s => s.handleCandidates env fuel candidateTxids
  let changes := ((ClusterDeltaSet.default.merge confirmed).merge evicted).merge candidates
  return if changes.isEmpty then s else s.publishDelta changes

def confirmMined (env : ClusterEnv) (fuel : ℕ) (block : MinedBlock) (s : ClusterService) :
    Option ClusterService :=
  (s.confirmMinedInner env fuel block).map fun (changes, s) => s.publishDelta changes

end ClusterService

/-- A round of the cluster service. -/
inductive ClusterRound where
  | syncClustersFor (candidateTxids evictedTxids : List Txid)
  | syncClustersAfterFlush (addedTxids : List Txid) (outcome : FlushOutcome)
  | confirmMined (block : MinedBlock)

def ClusterRound.run (env : ClusterEnv) (fuel : ℕ) (s : ClusterService) :
    ClusterRound → Option ClusterService
  | syncClustersFor candidateTxids evictedTxids =>
    s.syncClusters env fuel candidateTxids [] evictedTxids
  | syncClustersAfterFlush addedTxids outcome =>
    s.syncClusters env fuel addedTxids outcome.confirmed outcome.evicted
  | confirmMined block => s.confirmMined env fuel block

end MempoolObserver
