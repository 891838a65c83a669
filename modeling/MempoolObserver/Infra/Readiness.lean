import MempoolObserver.Services.NodeHealth

/-!
# Readiness

How far startup has got and what the node last told it, as `/health` reports it. Data
routes are answered once bootstrap has finished, and before that with the report.
-/

namespace MempoolObserver

inductive Phase where
  /-- Node unreachable, in initial block download, or loading its mempool. -/
  | waitingForNode
  /-- Node is good; reconciling mempool and blocks. -/
  | bootstrapping
  | ready
  deriving DecidableEq, Repr

structure NodeReport where
  reachable : Bool
  error : Option String
  blocks : Option Int64
  headers : Option Int64
  verificationProgress : Option ℚ
  initialBlockDownload : Option Bool
  mempoolLoaded : Option Bool
  deriving DecidableEq

namespace NodeReport

def default : NodeReport := ⟨false, none, none, none, none, none, none⟩

/-- Of a node that answered. -/
def ofInfo (info : GetBlockchainInfoModel) : NodeReport where
  reachable := true
  error := none
  blocks := some info.blocks
  headers := some info.headers
  verificationProgress := some info.verificationProgress
  initialBlockDownload := some info.initialBlockDownload
  mempoolLoaded := none

def ofError (error : String) : NodeReport := { default with error := some error }

/-- What a report can be: nothing yet, an error, or an answer, and the mempool is only asked
about when the node is synced. -/
inductive Heard : NodeReport → Prop where
  | nothing : Heard default
  | error (error : String) : Heard (ofError error)
  | info (info : GetBlockchainInfoModel) : Heard (ofInfo info)
  | mempool (info : GetBlockchainInfoModel) (loaded : Bool)
      (synced : info.initialBlockDownload = false) :
      Heard { ofInfo info with mempoolLoaded := some loaded }

end NodeReport

structure Readiness where
  phase : Phase
  node : NodeReport
  deriving DecidableEq

structure HealthReport where
  ready : Bool
  phase : Phase
  node : NodeReport
  deriving DecidableEq

/-- How a data request fares at the gate. -/
inductive Gate where
  | next
  | serviceUnavailable (retryAfter : String) (report : HealthReport)
  deriving DecidableEq

namespace Readiness

def new : Readiness := ⟨.waitingForNode, .default⟩

/-- Records a successful `getblockchaininfo`. -/
def recordNode (readiness : Readiness) (info : GetBlockchainInfoModel) : Readiness :=
  { readiness with node := .ofInfo info }

/-- Records a successful `getmempoolinfo`, on top of the last `recordNode`. -/
def recordMempoolLoaded (readiness : Readiness) (loaded : Bool) : Readiness :=
  { readiness with node := { readiness.node with mempoolLoaded := some loaded } }

def recordNodeError (readiness : Readiness) (error : String) : Readiness :=
  { readiness with node := .ofError error }

def setPhase (readiness : Readiness) (phase : Phase) : Readiness := { readiness with phase }

def isReady (readiness : Readiness) : Bool := readiness.phase = .ready

def report (readiness : Readiness) : HealthReport where
  ready := readiness.phase = .ready
  phase := readiness.phase
  node := readiness.node

/-- Rejects data routes until bootstrap has finished. -/
def requireReady (readiness : Readiness) : Gate :=
  if readiness.isReady then .next else .serviceUnavailable "10" readiness.report

theorem requireReady_eq_next_iff {readiness : Readiness} :
    readiness.requireReady = .next ↔ readiness.phase = .ready := by
  simp [requireReady, isReady]

end Readiness

end MempoolObserver
