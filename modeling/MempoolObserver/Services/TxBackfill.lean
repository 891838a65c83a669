import MempoolObserver.Db.TransactionRows
import MempoolObserver.Library.Runs

/-!
# The backfill of hollow transactions

A request names a txid and the stage it starts from. Up to
`maxConcurrentBackfills` of them are fetched at a time, and one whose fetch fails
is queued again for as long as its transaction stays in the ledger. A step is
what one party does between two awaits, so requests for one txid see each other's
partial fills, and blocks and other writers come in between.

## Main definitions

* `TxBackfill`, `TxBackfill.step` — the queue, the requests and the rows
* `Db.Provided` — some request is at the stage the row lacks
-/

namespace MempoolObserver

open Collections

def maxConcurrentBackfills : ℕ := 4

/-- Transient-failure retries before a request whose tx has left our mempool
ledger is given up on. -/
def maxAttempts : UInt8 := 37

/-- One txid queued for enrichment from the node, from `stage` onwards. -/
structure BackfillRequest where
  txid : Txid
  attempts : UInt8
  stage : BackfillStage
  deriving DecidableEq, Repr

def BackfillRequest.new (txid : Txid) (stage : BackfillStage) : BackfillRequest := ⟨txid, 0, stage⟩

/-- Whether a transiently-failed request is worth another fetch. -/
def shouldRetry (attemptsMade : UInt8) (inMempool : Bool) : Bool :=
  inMempool || attemptsMade < maxAttempts

def UInt8.saturatingSucc (n : UInt8) : UInt8 := if n = 255 then 255 else n + 1

/-- What is read of `getrawtransaction`. -/
structure GetRawTransactionModel where
  weight : UInt64
  inputTxids : List Txid
  deriving DecidableEq, Repr

inductive ObserverError where
  | failedToConnect
  | failedToFetch
  | invalidParams
  | invalidZmqMessage
  | txNotFoundInMempool
  | other
  deriving DecidableEq, Repr

/-- The node's answer ends the retries. -/
def ObserverError.terminal : ObserverError → Bool
  | txNotFoundInMempool | invalidParams => true
  | _ => false

/-- Where the processing of a request stands. -/
inductive BackfillPc where
  | fetchRaw
  | writeRaw (tx : GetRawTransactionModel)
  | fetchEntry
  | writeFee (feeInSats : UInt64)
  /-- A fetch failed, and the permit is dropped. -/
  | failed (stage : BackfillStage)
  deriving DecidableEq, Repr

namespace BackfillPc

/-- The stage a request starts at. -/
def start : BackfillStage → BackfillPc
  | .raw => fetchRaw
  | .entry => fetchEntry

/-- The stage the request is at. -/
def stage : BackfillPc → BackfillStage
  | fetchRaw | writeRaw _ => .raw
  | fetchEntry | writeFee _ => .entry
  | failed stage => stage

/-- The request holds a fetch slot. -/
def holdsPermit : BackfillPc → Bool
  | failed _ => false
  | _ => true

@[simp] theorem stage_start (stage : BackfillStage) : (start stage).stage = stage := by
  cases stage <;> rfl

end BackfillPc

namespace Db

/-- What `backfill_raw` reports of the row it filled. -/
def backfilledRaw (txid : Txid) (inputTxids : List Txid) (weight : Int64) (db : Db) :
    Option StoredTxFill :=
  (db.transactions txid).bind fun row =>
    if row.inputTxids.isNone ∨ row.weight = 0 then
      ((db.backfillRaw txid inputTxids weight).transactions txid).map Transaction.fill
    else none

end Db

/-- The queue with its consumer, the ledger and the rows. -/
structure TxBackfill where
  db : Db
  mempoolLedger : MempoolLedger
  capacity : ℕ
  queue : List BackfillRequest
  /-- Shutdown has closed the consuming end. -/
  closed : Bool
  /-- Taken off the queue, and waiting for a permit. -/
  received : Option BackfillRequest
  running : List (BackfillRequest × BackfillPc)
  backingOff : List BackfillRequest
  /-- Some request found the queue full or closed. -/
  dropped : Bool
  /-- Who had a request accepted and has been live since. -/
  owed : Finset Txid
  /-- Who got a terminal answer from the node. -/
  answered : Finset Txid

inductive BackfillOp where
  /-- Another writer of rows. -/
  | rows (op : RowOp)
  | produce (producer : Producer)
  | enqueue (txid : Txid) (stage : BackfillStage)
  | receive
  | spawn
  | rawFetched (index : ℕ) (answer : Except ObserverError GetRawTransactionModel)
  | entryFetched (index : ℕ) (answer : Except ObserverError UInt64)
  /-- The repository call of a stage, and whether it fails. -/
  | written (index : ℕ) (fails : Bool)
  /-- A failed request looks whether it is to be retried. -/
  | retried (index : ℕ)
  /-- A backoff is over. -/
  | wake (index : ℕ)
  | shutdown

namespace TxBackfill

def initial (capacity : ℕ) (db : Db) (ledger : MempoolLedger) : TxBackfill :=
  ⟨db, ledger, capacity, [], false, none, [], [], false, ∅, ∅⟩

/-- Whether the request makes it onto the queue. -/
def accepts (s : TxBackfill) : Bool := !s.closed && s.queue.length < s.capacity

def send (s : TxBackfill) (request : BackfillRequest) : TxBackfill :=
  if s.accepts then { s with queue := s.queue ++ [request] } else { s with dropped := true }

def enqueue (s : TxBackfill) (txid : Txid) (stage : BackfillStage) : TxBackfill :=
  let sent := s.send (.new txid stage)
  if s.accepts ∧ txid ∈ s.mempoolLedger.live then { sent with owed := insert txid s.owed } else sent

/-- The request at the index goes on as said. -/
def continueAt (s : TxBackfill) (index : ℕ) (request : BackfillRequest) (pc : BackfillPc) :
    TxBackfill :=
  { s with running := s.running.set index (request, pc) }

/-- The request at the index is done with. -/
def endAt (s : TxBackfill) (index : ℕ) : TxBackfill :=
  { s with running := s.running.eraseIdx index }

/-- A fetch of the stage came back without an answer. -/
def fetchFailed (s : TxBackfill) (index : ℕ) (request : BackfillRequest) (stage : BackfillStage)
    (error : ObserverError) : TxBackfill :=
  if error.terminal then { s.endAt index with answered := insert request.txid s.answered }
  else s.continueAt index request (.failed stage)

/-- The repository call of `run_raw_stage`, and what `run_stages` does next. -/
def writeRaw (s : TxBackfill) (index : ℕ) (request : BackfillRequest)
    (tx : GetRawTransactionModel) :
    TxBackfill :=
  let filled := s.db.backfilledRaw request.txid tx.inputTxids tx.weight.toInt64
  let written := { s with db := s.db.backfillRaw request.txid tx.inputTxids tx.weight.toInt64 }
  if filled.bind StoredTxFill.backfillStage = some .entry then
    written.continueAt index request .fetchEntry
  else written.endAt index

/-- The repository call of `run_entry_stage`, after which nothing is left to do. -/
def writeFee (s : TxBackfill) (index : ℕ) (request : BackfillRequest) (feeInSats : UInt64) :
    TxBackfill :=
  { s with db := s.db.backfillFee request.txid feeInSats.toInt64 }.endAt index

/-- A failed request backs off, or it is given up on. -/
def retry (s : TxBackfill) (index : ℕ) (request : BackfillRequest) (stage : BackfillStage) :
    TxBackfill :=
  let attemptsMade := UInt8.saturatingSucc request.attempts
  if shouldRetry attemptsMade (decide (request.txid ∈ s.mempoolLedger.live)) then
    { s.endAt index with
      backingOff := s.backingOff ++ [⟨request.txid, attemptsMade, stage⟩] }
  else s.endAt index

/-- One step, `none` when it is not possible. -/
def step (s : TxBackfill) : BackfillOp → Option TxBackfill
  | .rows (.backfillRaw ..) | .rows (.backfillFee ..) => none
  | .rows op => some { s with db := op.apply s.db }
  | .produce producer =>
    let ledger := producer.apply s.mempoolLedger
    some { s with mempoolLedger := ledger, owed := s.owed.filter (· ∈ ledger.live) }
  | .enqueue txid stage => some (s.enqueue txid stage)
  | .receive =>
    match s.received, s.queue with
    | none, request :: queue => some { s with received := some request, queue := queue }
    | _, _ => none
  | .spawn =>
    match s.received with
    | some request =>
      if s.running.countP (fun run => run.2.holdsPermit) < maxConcurrentBackfills then
        some { s with
          received := none
          running := s.running ++ [(request, .start request.stage)] }
      else none
    | none => none
  | .rawFetched index answer =>
    match s.running[index]?, answer with
    | some (request, .fetchRaw), .ok tx => some (s.continueAt index request (.writeRaw tx))
    | some (request, .fetchRaw), .error error => some (s.fetchFailed index request .raw error)
    | _, _ => none
  | .entryFetched index answer =>
    match s.running[index]?, answer with
    | some (request, .fetchEntry), .ok fee => some (s.continueAt index request (.writeFee fee))
    | some (request, .fetchEntry), .error error => some (s.fetchFailed index request .entry error)
    | _, _ => none
  | .written index fails =>
    match s.running[index]? with
    | some (request, .writeRaw tx) =>
      -- a failed write is logged, and ends the request as a finished one does
      some (if fails then s.endAt index else s.writeRaw index request tx)
    | some (request, .writeFee fee) =>
      some (if fails then s.endAt index else s.writeFee index request fee)
    | _ => none
  | .retried index =>
    match s.running[index]? with
    | some (request, .failed stage) => some (s.retry index request stage)
    | _ => none
  | .wake index =>
    match s.backingOff[index]? with
    | some request => some ({ s with backingOff := s.backingOff.eraseIdx index }.send request)
    | none => none
  | .shutdown => some { s with closed := true }

/-! ### Who is at which stage -/

/-- The requests that are queued, received, running or backing off, with their stages. -/
def outstanding (s : TxBackfill) : List (Txid × BackfillStage) :=
  (s.queue ++ s.received.toList ++ s.backingOff).map
    (fun request => (request.txid, request.stage)) ++
    s.running.map fun run => (run.1.txid, run.2.stage)

end TxBackfill

/-- The stage the row of the txid lacks, if any, is among the requests. -/
def Db.Provided (requests : List (Txid × BackfillStage)) (txid : Txid) (db : Db) : Prop :=
  ∀ row, db.transactions txid = some row → ∀ stage, row.fill.backfillStage = some stage →
    (txid, stage) ∈ requests

instance (requests : List (Txid × BackfillStage)) (txid : Txid) (db : Db) :
    Decidable (db.Provided requests txid) :=
  decidable_of_iff (∀ row ∈ db.transactions txid, ∀ stage ∈ row.fill.backfillStage,
    (txid, stage) ∈ requests) Iff.rfl

/-- Who accepts a request has read that its row lacks that stage, or the row is
provided for without it; and a write that fails is not that of the last request
for a stage that a row still lacks. -/
def BackfillOp.Provided (s : TxBackfill) : BackfillOp → Prop
  | enqueue txid stage => (s.db.transactions txid).isSome = true ∧
      s.db.Provided ((txid, stage) :: s.outstanding) txid
  | written index true => ∀ run, s.running[index]? = some run → run.1.txid ∈ s.owed →
      s.db.Provided (s.endAt index).outstanding run.1.txid
  | _ => True

instance BackfillOp.decidableProvided (s : TxBackfill) :
    (op : BackfillOp) → Decidable (op.Provided s)
  | enqueue .. => inferInstanceAs (Decidable (_ ∧ _))
  | written index true =>
    inferInstanceAs (Decidable (∀ run ∈ s.running[index]?, run.1.txid ∈ s.owed →
      s.db.Provided (s.endAt index).outstanding run.1.txid))
  | written _ false | rows _ | produce _ | receive | spawn | rawFetched .. | entryFetched .. |
    retried _ | wake _ | shutdown => .isTrue trivial

/-- Transactions weigh something, and a block has them in full. -/
def BackfillOp.Weighs : BackfillOp → Prop
  | rows (.insertOrConfirmMany txs) => ∀ new ∈ txs, new.row.fill.backfillStage = none
  | rawFetched _ (.ok tx) => tx.weight.toInt64 ≠ 0
  | _ => True

/-! ### What a step does to the requests -/

theorem Db.Provided.mono {requests more : List (Txid × BackfillStage)} {txid : Txid} {db : Db}
    (provided : db.Provided requests txid)
    (kept : ∀ stage, (txid, stage) ∈ requests → (txid, stage) ∈ more) : db.Provided more txid :=
  fun row stored stage lacks => kept stage (provided row stored stage lacks)

namespace TxBackfill

variable {s : TxBackfill} {index : ℕ} {request : BackfillRequest} {pc next : BackfillPc}
  {txid : Txid} {stage : BackfillStage}

theorem mem_outstanding : (txid, stage) ∈ s.outstanding ↔
    (∃ request : BackfillRequest,
      (request ∈ s.queue ∨ s.received = some request ∨ request ∈ s.backingOff) ∧
        request.txid = txid ∧ request.stage = stage) ∨
      ∃ run ∈ s.running, run.1.txid = txid ∧ run.2.stage = stage := by
  simp only [outstanding, List.mem_append, List.mem_map, Option.mem_toList,
    Prod.mk.injEq, or_assoc]

/-- A request that goes on at its stage stays outstanding, and so do the others. -/
theorem outstanding_continueAt (located : s.running[index]? = some (request, pc))
    (same : next.stage = pc.stage) (waits : (txid, stage) ∈ s.outstanding) :
    (txid, stage) ∈ (s.continueAt index request next).outstanding := by
  rcases mem_outstanding.mp waits with queued | ⟨run, inRunning, rfl, rfl⟩
  · exact mem_outstanding.mpr (.inl queued)
  · apply mem_outstanding.mpr
    right
    rcases mem_set_or_eq (request, next) inRunning located with kept | rfl
    · exact ⟨run, kept, rfl, rfl⟩
    · exact ⟨(request, next), mem_set_self _ located, rfl, same⟩

/-- A request that ends leaves the others outstanding. -/
theorem outstanding_endAt (located : s.running[index]? = some (request, pc))
    (waits : (txid, stage) ∈ s.outstanding) :
    (txid, stage) ∈ (s.endAt index).outstanding ∨ request.txid = txid ∧ pc.stage = stage := by
  rcases mem_outstanding.mp waits with queued | ⟨run, inRunning, rfl, rfl⟩
  · exact .inl (mem_outstanding.mpr (.inl queued))
  · rcases mem_eraseIdx_or_eq inRunning located with kept | rfl
    · exact .inl (mem_outstanding.mpr (.inr ⟨run, kept, rfl, rfl⟩))
    · exact .inr ⟨rfl, rfl⟩

/-- A request that finds room on the queue is outstanding, and so are the others. -/
theorem outstanding_send (kept : (s.send request).dropped = false) :
    s.dropped = false ∧ ∀ txid stage, (txid, stage) ∈ (s.send request).outstanding ↔
      (txid, stage) ∈ s.outstanding ∨ request.txid = txid ∧ request.stage = stage := by
  unfold send at kept ⊢
  split_ifs at kept ⊢
  refine ⟨kept, fun txid stage => ?_⟩
  simp only [outstanding, List.map_append, List.mem_append, List.map_cons, List.map_nil,
    List.mem_singleton, Prod.mk.injEq]
  tauto

@[simp] theorem send_db (s : TxBackfill) (request : BackfillRequest) :
    (s.send request).db = s.db := by
  unfold send
  split_ifs <;> rfl

@[simp] theorem send_mempoolLedger (s : TxBackfill) (request : BackfillRequest) :
    (s.send request).mempoolLedger = s.mempoolLedger := by
  unfold send
  split_ifs <;> rfl

@[simp] theorem send_running (s : TxBackfill) (request : BackfillRequest) :
    (s.send request).running = s.running := by
  unfold send
  split_ifs <;> rfl

@[simp] theorem send_owed (s : TxBackfill) (request : BackfillRequest) :
    (s.send request).owed = s.owed := by
  unfold send
  split_ifs <;> rfl

@[simp] theorem send_answered (s : TxBackfill) (request : BackfillRequest) :
    (s.send request).answered = s.answered := by
  unfold send
  split_ifs <;> rfl

end TxBackfill

end MempoolObserver
