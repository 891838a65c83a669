import Mathlib.Data.List.MinMax
import MempoolObserver.Db.Transactions

/-!
# The cluster repositories

Reads and transactions on `clusters`, `cluster_chunks` and the `cluster_id`
back-link of `transactions`. A transaction is a function from the database to its
result and the database it leaves, `none` when a statement of it is rejected, in
which case nothing of it happened.

Rows come back in the order the query asks for. Where it asks for none, and the
caller only looks at the rows as a set, an order is chosen here.
-/

namespace MempoolObserver

open Collections

/-- Past this size the by-txid lookup joins instead of filtering. -/
def activeIdsJoinMinTxids : ℕ := 64

structure ClusterVersionUpdate where
  clusterId : ClusterId
  chunks : List ClusterChunk
  deriving DecidableEq, Repr

/-- In id order, so that two writers locking overlapping sets cannot deadlock. -/
def ClusterVersionUpdate.sortedById (updates : List ClusterVersionUpdate) :
    List ClusterVersionUpdate :=
  updates.insertionSort fun a b => a.clusterId ≤ b.clusterId

/-- The two ways a cluster's active life can end without being mined. -/
inductive ClusterClosing where
  /-- Every member has left the mempool without being confirmed. -/
  | evicted
  /-- The cluster has been merged into another cluster. -/
  | merged
  deriving DecidableEq, Repr

def ClusterClosing.status : ClusterClosing → ClusterStatus
  | evicted => .evicted
  | merged => .merged

structure ChunkSums where
  weight : Int64
  fee : Int64
  deriving DecidableEq, Repr

/-- Sums in wrapping 64-bit arithmetic. -/
def totals (chunks : List ClusterChunk) : ChunkSums where
  weight := (chunks.map fun chunk => chunk.weight.toInt64).sum
  fee := (chunks.map fun chunk => chunk.feeSats.toInt64).sum

/-- The row of a cluster's first version. -/
def NewCluster.row (cluster : NewCluster) : ClusterRow where
  status := .active
  version := 1
  totalWeight := (totals cluster.chunks).weight
  totalFee := (totals cluster.chunks).fee
  firstSeenAt := cluster.firstSeenAt
  confirmedAt := none
  closedAt := none

/-- The cluster row a new version leaves. -/
def ClusterVersionUpdate.row (update : ClusterVersionUpdate) (old : ClusterRow) : ClusterRow :=
  { old with
    version := old.version + 1
    totalWeight := (totals update.chunks).weight
    totalFee := (totals update.chunks).fee }

def ClusterVersionUpdate.txids (update : ClusterVersionUpdate) : List Txid :=
  update.chunks.flatMap ClusterChunk.txids

/-- `nextval('clusters_id_seq')`, `count` times. -/
def allocatedIds (seq count : ℕ) : List ClusterId := (List.range count).map (seq + ·)

/-- The clusters of one insert, under the ids they get. -/
def fresh (seq : ℕ) (new : List NewCluster) : List (ClusterId × NewCluster) :=
  (allocatedIds seq new.length).zip new

/-- A cast to `i16`. -/
def toI16 (position : ℕ) : Int := (position : Int).bmod (2 ^ 16)

def chunkRows (clusterId : ClusterId) (version : ℕ) (chunks : List ClusterChunk) (live : Bool) :
    List ClusterChunkRow :=
  chunks.mapIdx fun position chunk =>
    { clusterId := clusterId
      version := version
      position := toI16 position
      fee := chunk.feeSats.toInt64
      weight := chunk.weight.toInt64
      txids := chunk.txids
      live := live }

/-- The row out of the by-txid lookup. -/
def ClusterChunkRow.retire (row : ClusterChunkRow) : ClusterChunkRow := { row with live := false }

namespace Db

/-! ### Statements -/

/-- `INSERT INTO cluster_chunks`, rejected when a key is taken. -/
def insertChunks (rows : List ClusterChunkRow) (db : Db) : Option Db :=
  if ((db.clusterChunks ++ rows).map ClusterChunkRow.key).Nodup then
    some { db with clusterChunks := db.clusterChunks ++ rows }
  else none

/-- `UPDATE cluster_chunks SET live = false WHERE ...`. -/
def retireWhere (retired : ClusterChunkRow → Bool) (db : Db) : Db :=
  { db with clusterChunks := db.clusterChunks.map fun row =>
      if retired row then row.retire else row }

/-- Takes the chunks of closing clusters out of the by-txid lookup. -/
def retireChunks (clusterIds : List ClusterId) (db : Db) : Db :=
  db.retireWhere fun row => row.clusterId ∈ clusterIds ∧ row.live = true

/-- `UPDATE clusters SET ... WHERE id = ANY(ids)`. -/
def updateClusters (ids : List ClusterId) (update : ClusterRow → ClusterRow) (db : Db) : Db :=
  { db with clusters := fun id => if id ∈ ids then (db.clusters id).map update else db.clusters id }

/-- `UPDATE transactions SET cluster_id = ...`, from the link a row has. -/
def relink (newLink : Txid → Option ClusterId → Option ClusterId) (db : Db) : Db :=
  db.updateTransactions fun txid row => { row with clusterId := newLink txid row.clusterId }

/-- A hollow row for every member without one. -/
def insertHollowMembers (now : Txid → OffsetDateTime) (txids : List Txid) (db : Db) : Db :=
  db.insertOrIgnore (txids.map fun txid => .hollow (now txid) txid)

/-! ### Reads -/

/-- The chunk rows of one version of a cluster, in insertion order. -/
def chunksOf (db : Db) (id : ClusterId) (version : ℕ) : List ClusterChunkRow :=
  db.clusterChunks.filter fun row => row.clusterId = id ∧ row.version = version

/-- The chunks of one version of a cluster, by position. -/
def loadChunks (db : Db) (id : ClusterId) (version : ℕ) : List ClusterChunk :=
  ((db.chunksOf id version).insertionSort fun a b => a.position ≤ b.position).map
    ClusterChunkRow.chunk

/-- The stored clusters that pass the filter, in id order, with the chunks of
their current version. -/
def loadClusters (db : Db) (filter : ClusterId → ClusterRow → Bool) : List Cluster :=
  (List.range db.clusterSeq).filterMap fun id =>
    match db.clusters id with
    | some row =>
      if filter id row then some (.fromRow id row (db.loadChunks id row.version)) else none
    | none => none

def findByIds (db : Db) (ids : List ClusterId) : List Cluster :=
  db.loadClusters fun id _ => id ∈ ids

def findActive (db : Db) : List Cluster :=
  db.loadClusters fun _ row => row.status = .active

/-- The active clusters among `ids`, in id order. -/
def activeAmong (db : Db) (ids : List ClusterId) : List ClusterId :=
  (db.loadClusters fun id row => id ∈ ids ∧ row.status = .active).map Cluster.id

def findActiveIdsByTxids (db : Db) (txids : List Txid) : List ClusterId :=
  if txids.length < activeIdsJoinMinTxids then
    ((db.clusterChunks.filter fun row => row.live = true ∧ ∃ txid ∈ txids, txid ∈ row.txids).map
      ClusterChunkRow.clusterId).dedup
  else
    (db.findActive.filter fun cluster => ∃ txid ∈ txids, txid ∈ cluster.txids).map Cluster.id

/-! ### Transactions -/

/-- Inserts brand-new clusters as their version 1 and links their members. -/
def insertIn (now : Txid → OffsetDateTime) (new : List NewCluster) (db : Db) :
    Option (List Cluster × Db) :=
  let ids := allocatedIds db.clusterSeq new.length
  let inserted := fresh db.clusterSeq new
  if ∃ id ∈ ids, (db.clusters id).isSome then none
  else do
    let withRows := { db with
      clusterSeq := db.clusterSeq + new.length
      clusters := fun id => ((inserted.lookup id).map NewCluster.row).or (db.clusters id) }
    let withChunks ← withRows.insertChunks
      (inserted.flatMap fun (id, cluster) => chunkRows id 1 cluster.chunks true)
    let withMembers := withChunks.insertHollowMembers now (new.flatMap NewCluster.txids)
    let linked := withMembers.relink fun txid link =>
      match withMembers.clusterChunks.find? fun row => row.clusterId ∈ ids ∧ txid ∈ row.txids with
      | some row => some row.clusterId
      | none => link
    return (inserted.map fun (id, cluster) => .fromRow id cluster.row cluster.chunks, linked)

/-- Inserts a brand-new cluster as its version 1 and links its members. -/
def insertWithMembers (now : Txid → OffsetDateTime) (new : NewCluster) (db : Db) :
    Option (Cluster × Db) := do
  let (inserted, db) ← db.insertIn now [new]
  return (← inserted.head?, db)

/-- Records the chunks as a new version of the cluster, detaches the members
that left and links the current ones. A cluster that is no longer active, or
whose chunks did not change, is returned as it is. -/
def replaceChunksIn (now : Txid → OffsetDateTime) (update : ClusterVersionUpdate) (live : Bool)
    (db : Db) : Option (Cluster × Db) := do
  let id := update.clusterId
  let old ← db.clusters id
  let current := db.loadChunks id old.version
  if old.status ≠ .active ∨ current = update.chunks then
    return (.fromRow id old current, db)
  else
    let retired := db.retireWhere fun row => row.clusterId = id ∧ row.version = old.version
    let withChunks ← retired.insertChunks (chunkRows id (old.version + 1) update.chunks live)
    let updated := withChunks.updateClusters [id] fun _ => update.row old
    let detached := updated.relink fun txid link =>
      if link = some id ∧ txid ∉ update.txids then none else link
    let linked := (detached.insertHollowMembers now update.txids).relink fun txid link =>
      if txid ∈ update.txids then some id else link
    return (.fromRow id (update.row old) update.chunks, linked)

/-- Ends the active life of clusters that merged away or lost their members. -/
def closeMany (now : OffsetDateTime) (ids : List ClusterId) (closing : ClusterClosing) (db : Db) :
    ℕ × Db :=
  let active := db.activeAmong ids
  let updated := db.updateClusters active fun row =>
    { row with status := closing.status, closedAt := some now }
  let unlinked := (updated.retireChunks active).relink fun _ link =>
    if ∃ id ∈ active, link = some id then none else link
  (active.length, unlinked)

/-- Marks the active clusters among `ids` as confirmed; their members stay linked. -/
def confirmManyIn (now : OffsetDateTime) (ids : List ClusterId) (confirmedAt : OffsetDateTime)
    (db : Db) : ℕ × Db :=
  let pending := db.activeAmong ids
  let updated := db.updateClusters pending fun row =>
    { row with confirmedAt := some confirmedAt, status := .confirmed, closedAt := some now }
  (pending.length, updated.retireChunks pending)

/-- `replaceChunksIn` on each cluster, then `confirmManyIn` on all of them. The
new versions are born closed. -/
def trimAndConfirmMany (now : Txid → OffsetDateTime) (closedAt : OffsetDateTime)
    (updates : List ClusterVersionUpdate) (confirmedAt : OffsetDateTime) (db : Db) :
    Option (ℕ × Db) := do
  let sorted := ClusterVersionUpdate.sortedById updates
  let trimmed ← sorted.foldlM
    (fun db update => (db.replaceChunksIn now update false).map Prod.snd) db
  return trimmed.confirmManyIn closedAt (sorted.map ClusterVersionUpdate.clusterId) confirmedAt

/-! ### What the transactions leave alone -/

/-- Updates of the cluster tables touch no record. -/
theorem sameRecords_updateClusters (ids : List ClusterId) (update : ClusterRow → ClusterRow)
    (db : Db) : SameRecords db (db.updateClusters ids update) := ⟨rfl, rfl, fun _ => rfl⟩

theorem sameRecords_retireWhere (retired : ClusterChunkRow → Bool) (db : Db) :
    SameRecords db (db.retireWhere retired) := ⟨rfl, rfl, fun _ => rfl⟩

theorem sameRecords_insertChunks {rows : List ClusterChunkRow} {db next : Db}
    (h : db.insertChunks rows = some next) : SameRecords db next := by
  unfold insertChunks at h
  split_ifs at h
  cases h
  exact ⟨rfl, rfl, fun _ => rfl⟩

theorem sameRecords_relink (newLink : Txid → Option ClusterId → Option ClusterId) (db : Db) :
    SameRecords db (db.relink newLink) := by
  refine sameRecords_updateTransactions ?_ db
  intro txid row
  exact ⟨rfl, rfl⟩

theorem isHollow_of_mem_map_hollow {now : Txid → OffsetDateTime} {txids : List Txid} :
    ∀ new ∈ txids.map (fun txid => NewTransaction.hollow (now txid) txid), new.IsHollow := by
  intro new member
  obtain ⟨txid, -, rfl⟩ := List.mem_map.mp member
  exact ⟨_, rfl⟩

theorem sameRecords_insertHollowMembers (now : Txid → OffsetDateTime) (txids : List Txid)
    (db : Db) : SameRecords db (db.insertHollowMembers now txids) :=
  ⟨rfl, rfl, confirmation_insertOrIgnore isHollow_of_mem_map_hollow db⟩

section Transactions

variable {now : Txid → OffsetDateTime} {db next : Db}

theorem sameRecords_insertIn {new : List NewCluster} {clusters : List Cluster}
    (h : db.insertIn now new = some (clusters, next)) : SameRecords db next := by
  unfold insertIn at h
  simp only [Option.bind_eq_bind, Option.pure_def] at h
  split_ifs at h
  obtain ⟨withChunks, inserted, h⟩ := Option.bind_eq_some_iff.mp h
  cases h
  have chunks := sameRecords_insertChunks inserted
  have rows : SameRecords db withChunks :=
    ⟨chunks.mempoolDeltas, chunks.blocks, chunks.confirmation⟩
  exact (rows.trans (sameRecords_insertHollowMembers ..)).trans (sameRecords_relink ..)

theorem sameRecords_replaceChunksIn {update : ClusterVersionUpdate} {live : Bool}
    {cluster : Cluster} (h : db.replaceChunksIn now update live = some (cluster, next)) :
    SameRecords db next := by
  unfold replaceChunksIn at h
  simp only [Option.bind_eq_bind, Option.pure_def] at h
  obtain ⟨old, -, h⟩ := Option.bind_eq_some_iff.mp h
  split_ifs at h
  · cases h
    exact .refl db
  · obtain ⟨withChunks, inserted, h⟩ := Option.bind_eq_some_iff.mp h
    cases h
    have chunks := (sameRecords_retireWhere _ db).trans (sameRecords_insertChunks inserted)
    exact (((chunks.trans (sameRecords_updateClusters ..)).trans (sameRecords_relink ..)).trans
      (sameRecords_insertHollowMembers ..)).trans (sameRecords_relink ..)

theorem sameRecords_closeMany (closedAt : OffsetDateTime) (ids : List ClusterId)
    (closing : ClusterClosing) (db : Db) :
    SameRecords db (db.closeMany closedAt ids closing).2 := by
  simp only [closeMany, retireChunks]
  exact ((sameRecords_updateClusters ..).trans (sameRecords_retireWhere ..)).trans
    (sameRecords_relink ..)

theorem sameRecords_confirmManyIn (closedAt : OffsetDateTime) (ids : List ClusterId)
    (confirmedAt : OffsetDateTime) (db : Db) :
    SameRecords db (db.confirmManyIn closedAt ids confirmedAt).2 :=
  (sameRecords_updateClusters ..).trans (sameRecords_retireWhere ..)

theorem sameRecords_trimAndConfirmMany {closedAt confirmedAt : OffsetDateTime}
    {updates : List ClusterVersionUpdate} {count : ℕ}
    (h : db.trimAndConfirmMany now closedAt updates confirmedAt = some (count, next)) :
    SameRecords db next := by
  simp only [trimAndConfirmMany, Option.bind_eq_bind, Option.pure_def] at h
  obtain ⟨trimmed, folded, h⟩ := Option.bind_eq_some_iff.mp h
  obtain rfl : _ = next := congrArg Prod.snd (Option.some.inj h)
  refine SameRecords.trans ?_ (sameRecords_confirmManyIn ..)
  refine foldlM_option_induction ?_ (SameRecords.refl db) folded
  intro before update _ after kept replaced
  obtain ⟨result, found, rfl⟩ := Option.map_eq_some_iff.mp replaced
  exact kept.trans (sameRecords_replaceChunksIn found)

end Transactions

end Db

/-- A transaction of the membership repository. -/
inductive ClusterTx where
  | insert (now : Txid → OffsetDateTime) (new : List NewCluster)
  | replaceChunks (now : Txid → OffsetDateTime) (update : ClusterVersionUpdate)
  | close (closedAt : OffsetDateTime) (ids : List ClusterId) (closing : ClusterClosing)
  | confirm (closedAt : OffsetDateTime) (ids : List ClusterId) (confirmedAt : OffsetDateTime)
  | trimAndConfirm (now : Txid → OffsetDateTime) (closedAt : OffsetDateTime)
      (updates : List ClusterVersionUpdate) (confirmedAt : OffsetDateTime)

/-- The database a committed transaction leaves. -/
def ClusterTx.run (db : Db) : ClusterTx → Option Db
  | insert now new => (db.insertIn now new).map Prod.snd
  | replaceChunks now update => (db.replaceChunksIn now update true).map Prod.snd
  | close closedAt ids closing => some (db.closeMany closedAt ids closing).2
  | confirm closedAt ids confirmedAt => some (db.confirmManyIn closedAt ids confirmedAt).2
  | trimAndConfirm now closedAt updates confirmedAt =>
    (db.trimAndConfirmMany now closedAt updates confirmedAt).map Prod.snd

/-- The cluster side writes no delta row and confirms no transaction. -/
theorem ClusterTx.sameRecords {db next : Db} {tx : ClusterTx} (h : tx.run db = some next) :
    db.SameRecords next := by
  cases tx with
  | insert now new =>
    obtain ⟨_, inserted, rfl⟩ := Option.map_eq_some_iff.mp h
    exact Db.sameRecords_insertIn inserted
  | replaceChunks now update =>
    obtain ⟨_, replaced, rfl⟩ := Option.map_eq_some_iff.mp h
    exact Db.sameRecords_replaceChunksIn replaced
  | close closedAt ids closing =>
    cases h
    exact Db.sameRecords_closeMany ..
  | confirm closedAt ids confirmedAt =>
    cases h
    exact Db.sameRecords_confirmManyIn ..
  | trimAndConfirm now closedAt updates confirmedAt =>
    obtain ⟨_, trimmed, rfl⟩ := Option.map_eq_some_iff.mp h
    exact Db.sameRecords_trimAndConfirmMany trimmed

end MempoolObserver
