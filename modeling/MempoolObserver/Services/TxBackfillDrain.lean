import MempoolObserver.Library.Measures
import MempoolObserver.Services.TxBackfillRuns

/-!
# Shutting the backfill down

Shutdown closes the queue. What is in it is still taken off and fetched, a request that is
being processed goes on to its end, and one that fails or backs off is dropped instead of
queued again. Whatever the node answers and other writers do meanwhile, the consumer then has
only so many steps left, and it can always take one until nothing is left.

## Main definitions

* `TxBackfill.workLeft` — how many steps the requests can still take
* `TxBackfill.Drained` — the consumer's loop returns

## Main results

* `drain_finishes_backlog`
-/

namespace MempoolObserver

open Measures Runs

/-- The steps a request can still take from here, on its longest way. -/
def BackfillPc.stepsLeft : BackfillPc → ℕ
  | fetchRaw => 5
  | writeRaw _ => 4
  | fetchEntry => 3
  -- the failed request is retried, backs off and wakes to a closed queue
  | failed _ => 2
  | writeFee _ => 1

/-- A step of the consumer, rather than of another party. -/
def BackfillOp.consumes : BackfillOp → Bool
  | .receive | .spawn | .rawFetched .. | .entryFetched .. | .written .. | .retried _ | .wake _ => true
  | .rows _ | .produce _ | .enqueue .. | .shutdown => false

def BackfillOp.spawns : BackfillOp → Bool
  | .spawn => true
  | _ => false

namespace TxBackfill

def workLeft (s : TxBackfill) : ℕ :=
  7 * s.queue.length + 6 * s.received.toList.length +
    (s.running.map fun run => run.2.stepsLeft).sum + s.backingOff.length

/-- The requests that are not being processed yet. -/
def backlog (s : TxBackfill) : ℕ := s.queue.length + s.received.toList.length

/-- No request is left anywhere. -/
def Drained (s : TxBackfill) : Prop :=
  s.queue = [] ∧ s.received = none ∧ s.running = [] ∧ s.backingOff = []

section Drain

variable {s next : TxBackfill} {op : BackfillOp} {index : ℕ} {request : BackfillRequest}
  {pc : BackfillPc}

theorem send_of_closed (closed : s.closed = true) (request : BackfillRequest) :
    s.send request = { s with dropped := true } := by
  simp [send, accepts, closed]

theorem stepsLeft_start_le (stage : BackfillStage) : (BackfillPc.start stage).stepsLeft ≤ 5 := by
  cases stage <;> decide

theorem workLeft_continueAt (after : BackfillPc)
    (located : s.running[index]? = some (request, pc)) :
    (s.continueAt index request after).workLeft + pc.stepsLeft =
      s.workLeft + after.stepsLeft := by
  have moved := sum_map_set (fun run : BackfillRequest × BackfillPc => run.2.stepsLeft)
    (request, after) located
  simp only [workLeft, continueAt] at moved ⊢
  omega

theorem workLeft_endAt (located : s.running[index]? = some (request, pc)) :
    (s.endAt index).workLeft + pc.stepsLeft = s.workLeft := by
  have moved := sum_map_eraseIdx (fun run : BackfillRequest × BackfillPc => run.2.stepsLeft)
    located
  simp only [workLeft, endAt] at moved ⊢
  omega

theorem workLeft_fetchFailed (located : s.running[index]? = some (request, pc))
    (stage : BackfillStage) (error : ObserverError) (more : 3 ≤ pc.stepsLeft) :
    (s.fetchFailed index request stage error).workLeft + 1 ≤ s.workLeft := by
  unfold fetchFailed
  split_ifs
  · have ended := workLeft_endAt located
    simp only [workLeft] at ended ⊢
    omega
  · have moved := workLeft_continueAt (.failed stage) located
    have left : (BackfillPc.failed stage).stepsLeft = 2 := rfl
    omega

theorem workLeft_written (db : Db) (located : s.running[index]? = some (request, pc))
    (positive : 0 < pc.stepsLeft) :
    ({ s with db := db }.endAt index).workLeft + 1 ≤ s.workLeft := by
  have ended := workLeft_endAt located
  simp only [workLeft, endAt] at ended ⊢
  omega

/-- With the queue closed, every step of the consumer uses up some of the work, and nobody
else adds to it. -/
theorem workLeft_step (closed : s.closed = true) (stepped : s.step op = some next) :
    next.closed = true ∧ next.workLeft + (if op.consumes then 1 else 0) ≤ s.workLeft := by
  cases op with
  | rows op =>
    cases op <;> cases stepped <;> exact ⟨closed, le_rfl⟩
  | produce producer =>
    cases stepped
    exact ⟨closed, le_rfl⟩
  | enqueue txid stage =>
    cases stepped
    have dropped : s.enqueue txid stage = { s with dropped := true } := by
      simp [enqueue, accepts, closed, send_of_closed closed]
    rw [dropped]
    exact ⟨closed, le_rfl⟩
  | receive =>
    simp only [step] at stepped
    split at stepped
    · next request queue free queued =>
      cases stepped
      refine ⟨closed, ?_⟩
      simp only [workLeft, free, queued, BackfillOp.consumes, Option.toList_some,
        Option.toList_none, List.length_cons, List.length_nil, if_true]
      omega
    · cases stepped
  | spawn =>
    simp only [step] at stepped
    split at stepped
    · next request received =>
      split_ifs at stepped
      cases stepped
      have short := stepsLeft_start_le request.stage
      refine ⟨closed, ?_⟩
      simp only [workLeft, received, BackfillOp.consumes, Option.toList_some, Option.toList_none,
        List.length_cons, List.length_nil, List.map_append, List.sum_append, List.map_cons,
        List.map_nil, List.sum_cons, List.sum_nil, if_true]
      omega
    · cases stepped
  | rawFetched index answer =>
    simp only [step] at stepped
    split at stepped
    · next request tx located =>
      cases stepped
      have moved := workLeft_continueAt (.writeRaw tx) located
      simp only [BackfillPc.stepsLeft] at moved
      refine ⟨closed, ?_⟩
      simp only [BackfillOp.consumes, if_true]
      omega
    · next request error located =>
      cases stepped
      refine ⟨?_, workLeft_fetchFailed located .raw error (by decide)⟩
      unfold fetchFailed
      split_ifs <;> exact closed
    · cases stepped
  | entryFetched index answer =>
    simp only [step] at stepped
    split at stepped
    · next request fee located =>
      cases stepped
      have moved := workLeft_continueAt (.writeFee fee) located
      simp only [BackfillPc.stepsLeft] at moved
      refine ⟨closed, ?_⟩
      simp only [BackfillOp.consumes, if_true]
      omega
    · next request error located =>
      cases stepped
      refine ⟨?_, workLeft_fetchFailed located .entry error (by decide)⟩
      unfold fetchFailed
      split_ifs <;> exact closed
    · cases stepped
  | written index fails =>
    simp only [step] at stepped
    split at stepped
    · next request tx located =>
      cases stepped
      cases fails with
      | true => exact ⟨closed, workLeft_written s.db located (by simp [BackfillPc.stepsLeft])⟩
      | false =>
        simp only [Bool.false_eq_true, if_false, writeRaw, BackfillOp.consumes, if_true]
        split_ifs
        · -- the row lacks its fee, and the request goes on with that
          have moved := workLeft_continueAt .fetchEntry located
          simp only [BackfillPc.stepsLeft] at moved
          refine ⟨closed, ?_⟩
          simp only [workLeft, continueAt] at moved ⊢
          omega
        · exact ⟨closed, workLeft_written _ located (by simp [BackfillPc.stepsLeft])⟩
    · next request fee located =>
      cases stepped
      cases fails with
      | true => exact ⟨closed, workLeft_written s.db located (by simp [BackfillPc.stepsLeft])⟩
      | false => exact ⟨closed, workLeft_written _ located (by simp [BackfillPc.stepsLeft])⟩
    · cases stepped
  | retried index =>
    simp only [step] at stepped
    split at stepped
    · next request stage located =>
      cases stepped
      have ended := workLeft_endAt located
      simp only [BackfillPc.stepsLeft] at ended
      simp only [retry, BackfillOp.consumes, if_true]
      split_ifs
      · refine ⟨closed, ?_⟩
        simp only [workLeft, endAt, List.length_append, List.length_cons, List.length_nil]
          at ended ⊢
        omega
      · refine ⟨closed, ?_⟩
        omega
    · cases stepped
  | wake index =>
    simp only [step] at stepped
    split at stepped
    · next request located =>
      cases stepped
      obtain ⟨bound, -⟩ := List.getElem?_eq_some_iff.mp located
      rw [send_of_closed (by exact closed)]
      refine ⟨closed, ?_⟩
      simp only [BackfillOp.consumes, if_true, workLeft, List.length_eraseIdx_of_lt bound]
      omega
    · cases stepped
  | shutdown =>
    cases stepped
    exact ⟨rfl, le_rfl⟩

theorem backlog_fetchFailed (request : BackfillRequest) (stage : BackfillStage)
    (error : ObserverError) : (s.fetchFailed index request stage error).backlog = s.backlog := by
  unfold fetchFailed
  split_ifs <;> rfl

theorem backlog_writeRaw (request : BackfillRequest) (tx : GetRawTransactionModel) :
    (s.writeRaw index request tx).backlog = s.backlog := by
  simp only [writeRaw]
  split_ifs <;> rfl

theorem backlog_retry (request : BackfillRequest) (stage : BackfillStage) :
    (s.retry index request stage).backlog = s.backlog := by
  simp only [retry]
  split_ifs <;> rfl

/-- With the queue closed, a request leaves the backlog when it is spawned, and in no other
way. -/
theorem backlog_step (closed : s.closed = true) (stepped : s.step op = some next) :
    next.backlog + (if op.spawns then 1 else 0) = s.backlog := by
  cases op with
  | rows op =>
    cases op <;> cases stepped <;> rfl
  | produce producer =>
    cases stepped
    rfl
  | enqueue txid stage =>
    cases stepped
    have dropped : s.enqueue txid stage = { s with dropped := true } := by
      simp [enqueue, accepts, closed, send_of_closed closed]
    rw [dropped]
    rfl
  | receive =>
    simp only [step] at stepped
    split at stepped
    · next request queue free queued =>
      cases stepped
      simp [backlog, free, queued, BackfillOp.spawns]
    · cases stepped
  | spawn =>
    simp only [step] at stepped
    split at stepped
    · next request received =>
      split_ifs at stepped
      cases stepped
      simp [backlog, received, BackfillOp.spawns]
    · cases stepped
  | rawFetched index answer =>
    simp only [step] at stepped
    split at stepped
    · cases stepped
      rfl
    · cases stepped
      exact backlog_fetchFailed ..
    · cases stepped
  | entryFetched index answer =>
    simp only [step] at stepped
    split at stepped
    · cases stepped
      rfl
    · cases stepped
      exact backlog_fetchFailed ..
    · cases stepped
  | written index fails =>
    simp only [step] at stepped
    split at stepped
    · cases stepped
      cases fails with
      | true => rfl
      | false => exact backlog_writeRaw ..
    · cases stepped
      cases fails <;> rfl
    · cases stepped
  | retried index =>
    simp only [step] at stepped
    split at stepped
    · cases stepped
      exact backlog_retry ..
    · cases stepped
  | wake index =>
    simp only [step] at stepped
    split at stepped
    · cases stepped
      rw [send_of_closed (by exact closed)]
      rfl
    · cases stepped
  | shutdown =>
    cases stepped
    rfl

/-- Until nothing is left the consumer can go on, whatever the node answers. -/
theorem exists_step_of_not_drained (left : ¬ s.Drained) :
    ∃ op, op.consumes = true ∧ (s.step op).isSome = true := by
  cases running : s.running with
  | cons first rest =>
    obtain ⟨request, pc⟩ := first
    have located : s.running[0]? = some (request, pc) := by rw [running]; rfl
    cases pc with
    | fetchRaw =>
      exact ⟨.rawFetched 0 (.error .failedToFetch), rfl, by simp [step, located]⟩
    | writeRaw tx => exact ⟨.written 0 true, rfl, by simp [step, located]⟩
    | fetchEntry =>
      exact ⟨.entryFetched 0 (.error .failedToFetch), rfl, by simp [step, located]⟩
    | writeFee fee => exact ⟨.written 0 true, rfl, by simp [step, located]⟩
    | failed stage => exact ⟨.retried 0, rfl, by simp [step, located]⟩
  | nil =>
    cases received : s.received with
    | some request =>
      -- no request holds a fetch slot
      exact ⟨.spawn, rfl, by simp [step, received, running, maxConcurrentBackfills]⟩
    | none =>
      cases queued : s.queue with
      | cons request queue => exact ⟨.receive, rfl, by simp [step, received, queued]⟩
      | nil =>
        cases waiting : s.backingOff with
        | cons request rest => exact ⟨.wake 0, rfl, by simp [step, waiting]⟩
        | nil => exact absurd ⟨queued, received, running, waiting⟩ left

end Drain

end TxBackfill

/-- Once the queue is closed, the consumer takes no more steps than its requests have left,
whatever the node answers and other parties do in between. It can take one until nothing is
left, and by then it has spawned every request of the backlog. -/
theorem drain_finishes_backlog {s last : TxBackfill} {ops : List BackfillOp}
    (closed : s.closed = true) (ran : run TxBackfill.step s ops = some last) :
    last.workLeft + ops.countP BackfillOp.consumes ≤ s.workLeft ∧
      last.backlog + ops.countP BackfillOp.spawns = s.backlog ∧
      (¬ last.Drained → ∃ op, op.consumes = true ∧ (last.step op).isSome = true) ∧
      (last.Drained → ops.countP BackfillOp.spawns = s.queue.length + s.received.toList.length) := by
  have spawned : last.backlog + ops.countP BackfillOp.spawns = s.backlog :=
    countP_eq_of_conserved (motive := fun s => s.closed = true) TxBackfill.backlog
      (fun s op next held stepped =>
        ⟨(TxBackfill.workLeft_step held stepped).1, TxBackfill.backlog_step held stepped⟩)
      closed ran
  refine ⟨?_, spawned, TxBackfill.exists_step_of_not_drained, fun drained => ?_⟩
  · exact countP_le_of_descent (motive := fun s => s.closed = true) TxBackfill.workLeft
      (fun s op next held stepped => TxBackfill.workLeft_step held stepped) closed ran
  · obtain ⟨queued, received, -⟩ := drained
    simpa [TxBackfill.backlog, queued, received] using spawned

/-- A request is queued when shutdown begins; its fetch fails, and it is dropped. -/
theorem drain_of_one_request :
    ∃ s last, run TxBackfill.step idle [.enqueue "a" .raw, .shutdown] = some s ∧
      run TxBackfill.step s [.receive, .spawn, .rawFetched 0 (.error .failedToFetch), .retried 0,
        .enqueue "b" .raw, .wake 0] = some last ∧
      last.workLeft + 5 ≤ 7 := by
  have ends : ((run TxBackfill.step idle [.enqueue "a" .raw, .shutdown]).bind fun s =>
      (run TxBackfill.step s [.receive, .spawn, .rawFetched 0 (.error .failedToFetch), .retried 0,
        .enqueue "b" .raw, .wake 0]).map fun _ => (s.closed, s.workLeft)) = some (true, 7) := by
    decide +kernel
  obtain ⟨s, began, rest⟩ := Option.bind_eq_some_iff.mp ends
  obtain ⟨last, ran, state⟩ := Option.map_eq_some_iff.mp rest
  obtain ⟨closed, work⟩ := Prod.mk.inj state
  have bound := (drain_finishes_backlog closed ran).1
  rw [work] at bound
  exact ⟨s, last, began, ran, bound⟩

end MempoolObserver
