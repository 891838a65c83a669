import MempoolObserver.Library.Collections
import MempoolObserver.Shared.MempoolLedger

/-!
# Database models

The tables the services write, as one value. A table with a single-column
primary key is a partial function on that key, so uniqueness is built in;
`mempool_deltas` is the list of its rows in id order, and `cluster_chunks` the
list of its rows in insertion order, its three-column key being checked when
rows are inserted. Columns no modelled statement reads are left out.
-/

namespace MempoolObserver

/-- Rows per statement of the delta, lookup and cluster inserts. -/
def mempoolDeltaInsertChunkSize : ℕ := 10000

theorem mempoolDeltaInsertChunkSize_pos : 0 < mempoolDeltaInsertChunkSize := by decide

/-- Rows per statement of the transaction inserts. -/
def transactionInsertChunkSize : ℕ := 1000

theorem transactionInsertChunkSize_pos : 0 < transactionInsertChunkSize := by decide

/-! ### Transactions and blocks -/

/-- A row of `transactions`, keyed by its txid. -/
structure Transaction where
  fee : Option Int64
  weight : Int64
  firstSeenAt : OffsetDateTime
  confirmedAt : Option OffsetDateTime
  clusterId : Option ClusterId
  confirmedAtBlock : Option String
  inputTxids : Option (List Txid)
  deriving DecidableEq, Repr

structure NewTransaction where
  txid : Txid
  row : Transaction
  deriving DecidableEq, Repr

/-- Placeholder for a txid known to be in the mempool, without its body. -/
def NewTransaction.hollow (now : OffsetDateTime) (txid : Txid) : NewTransaction :=
  ⟨txid, ⟨none, 0, now, none, none, none, none⟩⟩

/-- The new row is a placeholder. -/
def NewTransaction.IsHollow (new : NewTransaction) : Prop := ∃ now, new = .hollow now new.txid

/-- What a stored row already carries of the data only the node can supply. -/
structure StoredTxFill where
  hasParents : Bool
  weight : Int64
  hasFee : Bool
  deriving DecidableEq, Repr

def Transaction.fill (row : Transaction) : StoredTxFill :=
  ⟨row.inputTxids.isSome, row.weight, row.fee.isSome⟩

inductive BackfillStage where
  /-- `getrawtransaction` for parents and weight. -/
  | raw
  /-- `getmempoolentry` for the fee. -/
  | entry
  deriving DecidableEq, Repr

/-- The first stage the row still needs, or `none` once it is complete. -/
def StoredTxFill.backfillStage (fill : StoredTxFill) : Option BackfillStage :=
  if !fill.hasParents || fill.weight == 0 then some .raw
  else if !fill.hasFee then some .entry
  else none

/-- A row lacks nothing exactly when it has its parents, its weight and its fee. -/
theorem Transaction.backfillStage_fill_eq_none {row : Transaction} :
    row.fill.backfillStage = none ↔
      row.inputTxids.isSome = true ∧ row.weight ≠ 0 ∧ row.fee.isSome = true := by
  simp only [StoredTxFill.backfillStage, Transaction.fill]
  by_cases parents : row.inputTxids.isSome = true <;> by_cases weightless : row.weight = 0 <;>
    by_cases fee : row.fee.isSome = true <;> simp [parents, weightless, fee]

structure Block where
  hash : String
  height : Int
  minedAt : OffsetDateTime
  deriving DecidableEq, Repr

/-! ### Mempool deltas -/

/-- Why a txid entered or left the mempool. -/
inductive DeltaReason where
  | addMempool
  | removeConfirmed
  | removeEvicted
  deriving DecidableEq, Repr

def DeltaReason.direction : DeltaReason → DeltaDirection
  | addMempool => .add
  | removeConfirmed | removeEvicted => .remove

/-- A row of `mempool_deltas`; its id is its place in the table. -/
structure MempoolDelta where
  txid : Txid
  reason : DeltaReason
  createdAt : OffsetDateTime
  deriving DecidableEq, Repr

/-- The journal entry a row records. -/
def MempoolDelta.entry (row : MempoolDelta) : JournalEntry :=
  ⟨row.txid, row.reason.direction, row.createdAt⟩

/-! ### Clusters -/

inductive ClusterStatus where
  | active
  | confirmed
  | evicted
  | merged
  deriving DecidableEq, Repr

/-- A row of `clusters`, keyed by its id. -/
structure ClusterRow where
  status : ClusterStatus
  /-- The version whose chunks are the cluster's current state. -/
  version : ℕ
  totalWeight : Int64
  totalFee : Int64
  firstSeenAt : OffsetDateTime
  confirmedAt : Option OffsetDateTime
  closedAt : Option OffsetDateTime
  deriving DecidableEq, Repr

/-- A row of `cluster_chunks`, keyed by cluster, version and position. -/
structure ClusterChunkRow where
  clusterId : ClusterId
  version : ℕ
  position : Int
  fee : Int64
  weight : Int64
  txids : List Txid
  live : Bool
  deriving DecidableEq, Repr

/-- The primary key of `cluster_chunks`. -/
def ClusterChunkRow.key (row : ClusterChunkRow) : ClusterId × ℕ × Int :=
  (row.clusterId, row.version, row.position)

def ClusterChunkRow.chunk (row : ClusterChunkRow) : ClusterChunk :=
  ⟨row.txids, row.fee.toUInt64, row.weight.toUInt64⟩

structure NewCluster where
  chunks : List ClusterChunk
  firstSeenAt : OffsetDateTime
  deriving DecidableEq, Repr

/-- A cluster with the chunks of its current version. -/
structure Cluster where
  id : ClusterId
  status : ClusterStatus
  version : ℕ
  totalWeight : Int64
  totalFee : Int64
  firstSeenAt : OffsetDateTime
  confirmedAt : Option OffsetDateTime
  closedAt : Option OffsetDateTime
  chunks : List ClusterChunk
  deriving DecidableEq, Repr

def Cluster.fromRow (id : ClusterId) (row : ClusterRow) (chunks : List ClusterChunk) : Cluster :=
  ⟨id, row.status, row.version, row.totalWeight, row.totalFee, row.firstSeenAt, row.confirmedAt,
    row.closedAt, chunks⟩

def Cluster.txids (cluster : Cluster) : List Txid := cluster.chunks.flatMap ClusterChunk.txids

def NewCluster.txids (cluster : NewCluster) : List Txid := cluster.chunks.flatMap ClusterChunk.txids

/-! ### The database -/

structure Db where
  /-- In id order. -/
  mempoolDeltas : List MempoolDelta
  transactions : Txid → Option Transaction
  blocks : List Block
  clusters : ClusterId → Option ClusterRow
  /-- The next value of `clusters_id_seq`. -/
  clusterSeq : ClusterId
  clusterChunks : List ClusterChunkRow

namespace Db

/-- Tables without a row. -/
def empty : Db := ⟨[], fun _ => none, [], fun _ => none, 1, []⟩

/-- The row of the txid has `confirmed_at` set. -/
def isConfirmed (db : Db) (txid : Txid) : Bool :=
  ((db.transactions txid).bind Transaction.confirmedAt).isSome

/-- The `confirmed_at` and `confirmed_at_block` of the txid. -/
def confirmation (db : Db) (txid : Txid) : Option OffsetDateTime × Option String :=
  ((db.transactions txid).bind Transaction.confirmedAt,
    (db.transactions txid).bind Transaction.confirmedAtBlock)

/-- The cluster the row of the txid links to. -/
def link (db : Db) (txid : Txid) : Option ClusterId :=
  (db.transactions txid).bind Transaction.clusterId

/-- `INSERT INTO transactions ... ON CONFLICT (txid) DO NOTHING`, row by row. -/
def insertOrIgnore (rows : List NewTransaction) (db : Db) : Db :=
  { db with transactions := fun txid =>
      match db.transactions txid with
      | some row => some row
      | none => (rows.find? (fun new => new.txid = txid)).map NewTransaction.row }

/-- `UPDATE transactions SET ...`, row by row. -/
def updateTransactions (update : Txid → Transaction → Transaction) (db : Db) : Db :=
  { db with transactions := fun txid => (db.transactions txid).map (update txid) }

/-- Inserting hollow rows leaves a stored row alone. -/
theorem transactions_insertOrIgnore {rows : List NewTransaction}
    (hollow : ∀ new ∈ rows, new.IsHollow) (db : Db) (txid : Txid) :
    (db.insertOrIgnore rows).transactions txid = db.transactions txid ∨
      db.transactions txid = none ∧
        ∃ now, (db.insertOrIgnore rows).transactions txid =
          some (NewTransaction.hollow now txid).row := by
  simp only [insertOrIgnore]
  cases stored : db.transactions txid with
  | some row => exact .inl rfl
  | none =>
    cases found : rows.find? (fun new => new.txid = txid) with
    | none => exact .inl rfl
    | some new =>
      obtain ⟨now, placeholder⟩ := hollow new (List.mem_of_find?_eq_some found)
      refine .inr ⟨rfl, now, ?_⟩
      rw [placeholder]
      rfl

/-- Inserting hollow rows confirms nothing. -/
theorem confirmation_insertOrIgnore {rows : List NewTransaction}
    (hollow : ∀ new ∈ rows, new.IsHollow) (db : Db) (txid : Txid) :
    (db.insertOrIgnore rows).confirmation txid = db.confirmation txid := by
  unfold confirmation
  rcases db.transactions_insertOrIgnore hollow txid with same | ⟨absent, now, placed⟩
  · rw [same]
  · rw [absent, placed]
    rfl

theorem isConfirmed_congr {db next : Db} {txid : Txid}
    (same : next.confirmation txid = db.confirmation txid) :
    next.isConfirmed txid = db.isConfirmed txid :=
  congrArg (fun confirmation => confirmation.1.isSome) same

/-- Inserting hollow rows links nothing. -/
theorem link_insertOrIgnore {rows : List NewTransaction}
    (hollow : ∀ new ∈ rows, new.IsHollow) (db : Db) (txid : Txid) :
    (db.insertOrIgnore rows).link txid = db.link txid := by
  unfold link
  rcases db.transactions_insertOrIgnore hollow txid with same | ⟨absent, now, placed⟩
  · rw [same]
  · rw [absent, placed]
    rfl

end Db

end MempoolObserver
