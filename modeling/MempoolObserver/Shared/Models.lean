import Mathlib.Data.String.Basic
import Mathlib.Data.Finset.Basic
import MempoolObserver.Library.SetLog

/-!
# Shared models

The values the services hand to each other: transaction ids, instants, the
direction of a mempool transition, and what the node answers about clusters and
blocks. Amounts keep the source's machine types, unsigned on the wire and signed
in the database, so that the casts between them are the source's casts.
-/

namespace MempoolObserver

open SetLog

abbrev Txid := String

/-- Instants, in the microseconds a `timestamptz` column keeps. -/
abbrev OffsetDateTime := Int

abbrev ClusterId := ℕ

/-- Direction of a mempool residency transition. -/
inductive DeltaDirection where
  | add
  | remove
  deriving DecidableEq, Repr

/-- The set edit a transition of `txid` stands for. -/
def DeltaDirection.edit (direction : DeltaDirection) (txid : Txid) : Edit Txid :=
  match direction with
  | add => .insert txid
  | remove => .erase txid

@[simp] theorem DeltaDirection.key_edit (direction : DeltaDirection) (txid : Txid) :
    (direction.edit txid).key = txid := by
  cases direction <;> rfl

structure ClusterChunk where
  /-- In mining order. -/
  txids : List Txid
  feeSats : UInt64
  weight : UInt64
  deriving DecidableEq, Repr

structure GetMempoolClusterModel where
  chunks : List ClusterChunk
  deriving DecidableEq, Repr

def GetMempoolClusterModel.txids (cluster : GetMempoolClusterModel) : List Txid :=
  cluster.chunks.flatMap ClusterChunk.txids

structure BlockTxSummary where
  txid : Txid
  weight : Int64
  feeSats : Int64
  inputTxids : List Txid
  deriving DecidableEq, Repr

structure GetBlockModel where
  hash : String
  height : Int
  minedAt : OffsetDateTime
  txs : List BlockTxSummary
  deriving DecidableEq, Repr

def GetBlockModel.txids (block : GetBlockModel) : List Txid := block.txs.map BlockTxSummary.txid

end MempoolObserver
