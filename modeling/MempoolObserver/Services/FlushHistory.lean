import MempoolObserver.Services.Schedule

/-!
# What the flushes store

Every schedule of ticks, blocks and producers, seen from the ledger and the
stored rows alone, is a run of `FlushState`: a tick takes a batch, writes it and
commits it, or drops it. `System.flush_step` is that simulation, and the two
results about whole runs are read off it.

## Main results

* `rows_append_pending_eq_pushed` — the rows of a run are a prefix of the entries
  ever pushed, the journal the rest
* `directions_alternate` — with no push refused, the directions of every txid
  alternate
-/

namespace MempoolObserver

open SetLog Collections Relation

def TickPc.flight : TickPc → Flight
  | writing batch _ => .taken batch
  | written batch _ => .written batch
  | _ => .idle

/-- The ledger, the stored rows and the batch in flight. -/
def System.flush (s : System) : FlushState :=
  ⟨s.ledger, s.db.mempoolDeltas.map MempoolDelta.entry, s.tick.flight⟩

/-- What an operation does to the ledger and the stored rows, if anything. -/
def SystemOp.flushOp (s : System) : SystemOp → Option FlushOp
  | produce producer => some producer.flushOp
  | tick (.beginFlush _) => some .beginFlush
  | tick .bailIf => if s.isHeld then some .drop else none
  | tick .fail => some .drop
  | tick .commitDb => some .write
  | tick .commitBatch => some .commit
  | block (.assertAbsent call) =>
    match s.block with
    | some ⟨_, .asserting mined⟩ => some (.assertAbsent call mined.txids)
    | _ => none
  | _ => none

/-- No operation of the schedule is a repair of the journal. -/
theorem SystemOp.flushOp_ne_reconcileAgainst {s : System} {op : SystemOp} {flushOp : FlushOp}
    (h : op.flushOp s = some flushOp) (call : Call) (dbImage : Finset Txid) :
    flushOp ≠ .reconcileAgainst call dbImage := by
  rintro rfl
  unfold flushOp at h
  split at h
  · rename_i producer
    cases producer <;> simp [Producer.flushOp] at h
  · simp at h
  · split_ifs at h
    simp at h
  · simp at h
  · simp at h
  · simp at h
  · split at h <;> simp at h
  · simp at h

section Simulation

variable {s next : System}

/-- A step of the schedule is the step of `FlushState` its operation stands for,
or none. -/
def System.Simulates (s next : System) : Option FlushOp → Prop
  | some flushOp => s.flush.step flushOp = some next.flush
  | none => next.flush = s.flush

theorem System.flush_stepTick {op : TickOp} (inv : SystemInv s) (h : s.stepTick op = some next) :
    s.Simulates next (SystemOp.flushOp s (.tick op)) := by
  cases stepTick_cases h with
  | tryLock => rfl
  | @checkHeld gate idle _ =>
    by_cases leased : gate.lease = .leased <;>
      simp [Simulates, SystemOp.flushOp, flush, TickPc.flight, idle, leased]
  | beginFlush leased taken =>
    simp [Simulates, SystemOp.flushOp, FlushState.step, flush, TickPc.flight, leased, taken]
  | nothing leased empty _ =>
    simp [Simulates, SystemOp.flushOp, FlushState.step, flush, TickPc.flight, leased, empty]
  | bails writing held _ =>
    simp [Simulates, SystemOp.flushOp, FlushState.step, checked, flush, TickPc.flight,
      writing, held]
  | clears writing free =>
    simp [Simulates, SystemOp.flushOp, checked, flush, TickPc.flight, writing, free]
  | proceed writing _ | exec writing _ =>
    simp [Simulates, SystemOp.flushOp, flush, TickPc.flight, writing]
  | fail writing _ =>
    simp [Simulates, SystemOp.flushOp, FlushState.step, flush, TickPc.flight, writing]
  | commitDb writing ready =>
    -- the rows committed are the entries of the batch, one by one
    obtain ⟨sound, entries⟩ := inv.batch _ _ writing
    simp [Simulates, SystemOp.flushOp, FlushState.step, flush, TickPc.flight, writing,
      sound.deltas_eq ready, entries]
  | commitBatch written =>
    simp [Simulates, SystemOp.flushOp, FlushState.step, flush, TickPc.flight, written]
  | clusterTx _ ran =>
    simp [Simulates, SystemOp.flushOp, flush, (ClusterTx.sameRecords ran).mempoolDeltas]
  | finish syncing _ => simp [Simulates, SystemOp.flushOp, flush, TickPc.flight, syncing]

theorem System.flush_stepBlock {op : BlockOp} (h : s.stepBlock op = some next) :
    s.Simulates next (SystemOp.flushOp s (.block op)) := by
  cases stepBlock_cases h with
  | start | lock | grant | cancel | fetched | finish | fail => rfl
  | insert _ inserted =>
    simp [Simulates, SystemOp.flushOp, flush, Db.mempoolDeltas_insertWithTransactions inserted]
  | assertAbsent asserting =>
    simp [Simulates, SystemOp.flushOp, asserting, FlushState.step, flush]
  | clusterTx _ ran =>
    simp [Simulates, SystemOp.flushOp, flush, (ClusterTx.sameRecords ran).mempoolDeltas]

/-- **Simulation.** Seen from the ledger and the stored rows, a step of any
schedule is a step of `FlushState` or nothing. -/
theorem System.flush_step {op : SystemOp} (inv : SystemInv s) (h : s.step op = some next) :
    s.Simulates next (op.flushOp s) := by
  cases op with
  | advance elapsed =>
    obtain ⟨gate, -, rfl⟩ := step_advance h
    rfl
  | produce producer =>
    cases h
    cases producer <;> rfl
  | backfillRaw txid inputTxids weight =>
    cases h
    rfl
  | backfillFee txid fee =>
    cases h
    rfl
  | tick op => exact flush_stepTick inv h
  | block op => exact flush_stepBlock h

end Simulation

/-! ### Exactly-once -/

/-- What `FlushState.log_step` says, of a step of the schedule. -/
theorem System.log_step {s next : System} {op : SystemOp} (inv : SystemInv s)
    (inPlace : s.flush.BatchInPlace) (h : s.step op = some next) :
    next.flush.BatchInPlace ∧ s.flush.settled <+: next.flush.settled ∧
      next.flush.log = s.flush.log ++ next.ledger.journal.drop s.ledger.journal.length := by
  have simulated := flush_step inv h
  cases flushed : op.flushOp s with
  | some flushOp =>
    rw [flushed] at simulated
    exact FlushState.log_step inPlace simulated
  | none =>
    rw [flushed] at simulated
    simp only [Simulates] at simulated
    have ledger : next.ledger = s.ledger := congrArg FlushState.ledger simulated
    simp [simulated, ledger, inPlace]

theorem System.mempoolDeltas_step {s next : System} {op : SystemOp} (h : s.step op = some next) :
    s.db.mempoolDeltas <+: next.db.mempoolDeltas := by
  obtain same | ⟨batch, tx, -, -, -, rfl⟩ | ⟨hash, block, seenAt, db, -, inserted, -, rfl⟩ :=
    db_step h
  · rw [same.mempoolDeltas]
  · exact List.prefix_append ..
  · simp [Db.mempoolDeltas_insertWithTransactions inserted]

/-- A run, with the entries that entered the journal on the way. -/
inductive System.Pushes (first : System) : List JournalEntry → System → Prop where
  | refl : Pushes first [] first
  | tail {pushed : List JournalEntry} {s next : System} (run : Pushes first pushed s)
      (step : s.Step next) :
      Pushes first (pushed ++ next.ledger.journal.drop s.ledger.journal.length) next

@[simp] theorem System.settled_initial (now : ℕ) (ledger : MempoolLedger) (db : Db) :
    (System.initial now ledger db).flush.settled = db.mempoolDeltas.map MempoolDelta.entry := by
  simp only [FlushState.settled, FlushState.overlap, flush, initial, TickPc.flight,
    List.length_nil, Nat.sub_zero, List.take_length]

@[simp] theorem System.log_initial (now : ℕ) (ledger : MempoolLedger) (db : Db) :
    (System.initial now ledger db).flush.log =
      db.mempoolDeltas.map MempoolDelta.entry ++ ledger.journal := rfl

/-- What a run from `first` keeps, with `pushed` pushed so far. -/
structure PushInv (first : System) (pushed : List JournalEntry) (s : System) : Prop where
  system : SystemInv s
  inPlace : s.flush.BatchInPlace
  rows : first.db.mempoolDeltas <+: s.db.mempoolDeltas
  settled : first.flush.settled <+: s.flush.settled
  log : s.flush.log = first.flush.log ++ pushed

theorem PushInv.run {first s : System} {pushed : List JournalEntry} (inv : SystemInv first)
    (inPlace : first.flush.BatchInPlace) (run : first.Pushes pushed s) :
    PushInv first pushed s := by
  induction run with
  | refl => exact ⟨inv, inPlace, List.prefix_rfl, List.prefix_rfl, by simp⟩
  | tail _ step ih =>
    obtain ⟨op, step⟩ := step
    obtain ⟨inPlace, settled, log⟩ := System.log_step ih.system ih.inPlace step
    refine ⟨ih.system.step step, inPlace, ih.rows.trans (System.mempoolDeltas_step step),
      ih.settled.trans settled, ?_⟩
    rw [log, ih.log, List.append_assoc]

/-- Rows appended inside the replay window are replayed onto the residency
reconstructed before. -/
theorem Db.reconstructSnapshot_append {before db : Db} {rows : List MempoolDelta}
    {now : OffsetDateTime} (appended : db.mempoolDeltas = before.mempoolDeltas ++ rows)
    (inWindow : ∀ row ∈ rows, now - snapshotReplayWindow ≤ row.createdAt) :
    db.reconstructSnapshot now =
      replay (before.reconstructSnapshot now) (edits (rows.map MempoolDelta.entry)) := by
  have kept : rows.filter (fun row => now - snapshotReplayWindow ≤ row.createdAt) = rows :=
    List.filter_eq_self.mpr fun row member => by simpa using inWindow row member
  rw [reconstructSnapshot_eq, reconstructSnapshot_eq, replayWindow, replayWindow, appended,
    List.filter_append, kept, List.map_append, residency_append]

/-- **Exactly-once flush.** At every point of every schedule, the rows the run
stored are a prefix of the entries ever pushed and the pending journal is the
rest, a batch written but not committed being the only overlap. Replaying the
rows is replaying that prefix. -/
theorem rows_append_pending_eq_pushed {now : ℕ} {ledger : MempoolLedger} {db : Db}
    {pushed : List JournalEntry} {s : System}
    (run : (System.initial now ledger db).Pushes pushed s) :
    ∃ rows pending, s.db.mempoolDeltas = db.mempoolDeltas ++ rows ∧
      rows.map MempoolDelta.entry ++ pending = ledger.journal ++ pushed ∧
      s.ledger.journal = s.flush.overlap ++ pending ∧
      s.flush.overlap <:+ rows.map MempoolDelta.entry ∧
      ∀ readAt, (∀ row ∈ rows, readAt - snapshotReplayWindow ≤ row.createdAt) →
        s.db.reconstructSnapshot readAt =
          replay (db.reconstructSnapshot readAt) (edits (rows.map MempoolDelta.entry)) := by
  have inv := PushInv.run (.initial now ledger db) trivial run
  obtain ⟨rows, appended⟩ := inv.rows
  have stored : s.flush.persisted =
      db.mempoolDeltas.map MempoolDelta.entry ++ rows.map MempoolDelta.entry := by
    simp only [System.flush, ← appended, List.map_append]
    rfl
  refine ⟨rows, s.flush.unwritten, appended.symm, ?_, inv.inPlace.overlap_append_unwritten.symm,
    ?_, fun readAt inWindow => Db.reconstructSnapshot_append appended.symm inWindow⟩
  · have log := inv.log
    rw [FlushState.log, stored, System.log_initial, List.append_assoc, List.append_assoc] at log
    exact List.append_cancel_left log
  · -- the batch lies past the rows the run began with
    obtain ⟨between, settled⟩ := inv.settled
    have split := inv.inPlace.settled_append_overlap
    rw [← settled, stored, System.settled_initial, List.append_assoc] at split
    exact ⟨between, List.append_cancel_left split⟩

/-- The clock and the hash order of the calls in the schedules below. -/
def sampleCall : Call := ⟨fun _ => 5, .sorted _⟩

/-- One add queued, taken, written statement by statement and committed to the
database, the journal not drained yet. -/
def oneFlush : List SystemOp :=
  [.produce (.assertPresent sampleCall ["b"]), .tick .tryLock, .tick .checkHeld,
    .tick (.beginFlush sampleCall), .tick .proceed, .tick .bailIf, .tick .exec, .tick .proceed,
    .tick .bailIf, .tick .exec, .tick .proceed, .tick .bailIf, .tick .exec, .tick .proceed,
    .tick .bailIf, .tick .commitDb]

theorem System.pushes_of_steps {first last : System} {ops : List SystemOp}
    (h : first.steps ops = some last) : ∃ pushed, first.Pushes pushed last := by
  refine foldlM_option_induction (motive := fun s => ∃ pushed, first.Pushes pushed s) ?_
    ⟨[], .refl⟩ h
  rintro s op - next ⟨pushed, run⟩ step
  exact ⟨_, run.tail ⟨op, step⟩⟩

theorem oneFlush_rows_append_pending :
    ∃ s pushed rows pending,
      (System.initial 0 (MempoolLedger.default.seed {"a"}) .empty).steps oneFlush = some s ∧
      s.db.mempoolDeltas = [⟨"b", .addMempool, 5⟩] ∧ s.flush.overlap = [⟨"b", .add, 5⟩] ∧
      s.db.mempoolDeltas = [] ++ rows ∧ rows.map MempoolDelta.entry ++ pending = [] ++ pushed := by
  obtain ⟨s, stepped⟩ : ∃ s, (System.initial 0 (MempoolLedger.default.seed {"a"}) .empty).steps
      oneFlush = some s := Option.isSome_iff_exists.mp (by decide)
  obtain ⟨pushed, run⟩ := System.pushes_of_steps stepped
  obtain ⟨rows, pending, stored, split, -⟩ := rows_append_pending_eq_pushed run
  obtain rfl : _ = s := Option.some.inj stepped
  exact ⟨_, pushed, rows, pending, rfl, rfl, rfl, stored, split⟩

/-! ### No duplicate transition -/

/-- Some push of the operation meets a journal at its cap. -/
def SystemOp.Refused (op : SystemOp) (s : System) : Prop :=
  ∃ flushOp, op.flushOp s = some flushOp ∧ flushOp.Refused s.flush

instance (op : SystemOp) (s : System) : Decidable (op.Refused s) :=
  decidable_of_iff ((op.flushOp s).any fun flushOp => decide (flushOp.Refused s.flush))
    (by simp [SystemOp.Refused, Option.any_eq_true])

/-- A step that has no push refused. -/
def System.AcceptingStep (s next : System) : Prop :=
  ∃ op, s.step op = some next ∧ ¬ op.Refused s

/-- The rows stored since `before`, then the journal entries not stored yet. -/
def System.history (before : Db) (s : System) : List JournalEntry :=
  (s.db.mempoolDeltas.drop before.mempoolDeltas.length).map MempoolDelta.entry ++ s.flush.unwritten

/-- The log past `stored` takes `residents` to `live`, every entry changing it. -/
structure HistoryInv (residents : Finset Txid) (stored : ℕ) (s : FlushState) : Prop where
  inPlace : s.BatchInPlace
  settled : stored ≤ s.settled.length
  effective : Effective residents (edits (s.log.drop stored))
  live : replay residents (edits (s.log.drop stored)) = s.ledger.live

theorem HistoryInv.step {residents : Finset Txid} {stored : ℕ} {s next : FlushState} {op : FlushOp}
    (inv : HistoryInv residents stored s) (h : s.step op = some next)
    (noRepair : ∀ call dbImage, op ≠ .reconcileAgainst call dbImage) (accepted : ¬ op.Refused s) :
    HistoryInv residents stored next := by
  obtain ⟨inPlace, settled, log⟩ := FlushState.log_step inv.inPlace h
  have reached : stored ≤ s.log.length := by
    have front : s.settled.length ≤ s.persisted.length := by simp [FlushState.settled]
    have whole : s.log.length = s.persisted.length + s.unwritten.length := by
      simp [FlushState.log]
    have := inv.settled
    omega
  suffices both : Effective residents (edits (next.log.drop stored)) ∧
      replay residents (edits (next.log.drop stored)) = next.ledger.live from
    ⟨inPlace, inv.settled.trans settled.length_le, both.1, both.2⟩
  rw [log, List.drop_append_of_le_length reached, edits_append, effective_append, replay_append,
    inv.live]
  obtain ⟨after, appends, rfl⟩ | ⟨call, dbImage, rfl, -⟩ | ⟨rfl, -⟩ | ⟨-, -, rfl⟩ |
    ⟨batch, -, -, rfl | rfl⟩ | ⟨batch, -, -, rfl⟩ := FlushState.step_cases h
  · have kept : after.journal = s.ledger.journal ++ op.queued s := by
      rw [appends.journal_eq, List.take_of_length_le (not_lt.mp accepted)]
    rw [kept, List.drop_left]
    exact ⟨⟨inv.effective, appends.effective⟩, appends.live_eq.symm⟩
  · exact absurd rfl (noRepair call dbImage)
  all_goals simpa using inv.effective

/-- Seeding a ledger with an empty journal starts a history. -/
theorem HistoryInv.seeded {ledger : MempoolLedger} (empty : ledger.journal = []) (now : ℕ)
    (residents : Finset Txid) (db : Db) :
    HistoryInv residents db.mempoolDeltas.length
      (System.initial now (ledger.seed residents) db).flush := by
  have nothing : (System.initial now (ledger.seed residents) db).flush.log.drop
      db.mempoolDeltas.length = [] := by
    simp [MempoolLedger.seed, empty]
  refine ⟨trivial, by simp, ?_, ?_⟩
  · rw [nothing]
    trivial
  · rw [nothing]
    rfl

theorem HistoryInv.run {residents : Finset Txid} {stored : ℕ} {first s : System}
    (system : SystemInv first) (history : HistoryInv residents stored first.flush)
    (run : ReflTransGen System.AcceptingStep first s) :
    HistoryInv residents stored s.flush ∧ first.db.mempoolDeltas <+: s.db.mempoolDeltas := by
  suffices all : SystemInv s ∧ HistoryInv residents stored s.flush ∧
      first.db.mempoolDeltas <+: s.db.mempoolDeltas from all.2
  induction run with
  | refl => exact ⟨system, history, List.prefix_rfl⟩
  | tail _ step ih =>
    obtain ⟨op, step, accepted⟩ := step
    obtain ⟨system, history, rows⟩ := ih
    refine ⟨system.step step, ?_, rows.trans (System.mempoolDeltas_step step)⟩
    have simulated := System.flush_step system step
    cases flushed : op.flushOp _ with
    | some flushOp =>
      rw [flushed] at simulated
      exact history.step simulated (SystemOp.flushOp_ne_reconcileAgainst flushed)
        fun refused => accepted ⟨flushOp, flushed, refused⟩
    | none =>
      rw [flushed] at simulated
      exact simulated ▸ history

/-- The directions of a history alternate and end where `live` says. -/
theorem HistoryInv.alternating {residents : Finset Txid} {before : Db} {s : System}
    (history : HistoryInv residents before.mempoolDeltas.length s.flush)
    (rows : before.mempoolDeltas <+: s.db.mempoolDeltas) (txid : Txid) :
    Alternating (txid ∈ residents) (signs txid (edits (s.history before))) ∧
      (txid ∈ s.ledger.live ↔
        (signs txid (edits (s.history before))).getLast?.elim (txid ∈ residents) (· = true)) := by
  obtain ⟨rows, appended⟩ := rows
  have stored : s.flush.persisted =
      before.mempoolDeltas.map MempoolDelta.entry ++ rows.map MempoolDelta.entry := by
    simp [System.flush, ← appended]
  have tail : s.flush.log.drop before.mempoolDeltas.length = s.history before := by
    simp [FlushState.log, stored, System.history, ← appended]
  obtain ⟨-, -, effective, live⟩ := history
  rw [tail] at effective live
  refine ⟨(effective_iff_signs ..).mp effective txid, ?_⟩
  rw [show s.ledger.live = s.flush.ledger.live from rfl, ← live, mem_replay]

/-- **No duplicate transition.** From a seeded ledger with an empty journal, and
with no push refused, under every schedule and for every txid, the directions of
the rows of the run followed by the pending entries alternate, open with an add
exactly when the txid was not resident, and end where `live` says. -/
theorem directions_alternate {now : ℕ} {ledger : MempoolLedger} {residents : Finset Txid} {db : Db}
    {s : System} (empty : ledger.journal = [])
    (run : ReflTransGen System.AcceptingStep (.initial now (ledger.seed residents) db) s)
    (txid : Txid) :
    Alternating (txid ∈ residents) (signs txid (edits (s.history db))) ∧
      (txid ∈ s.ledger.live ↔
        (signs txid (edits (s.history db))).getLast?.elim (txid ∈ residents) (· = true)) := by
  have start := HistoryInv.seeded empty now residents db
  obtain ⟨history, rows⟩ := start.run (.initial ..) run
  exact history.alternating rows txid

/-- A schedule that has no push refused. -/
def System.acceptingSteps (s : System) (ops : List SystemOp) : Option System :=
  ops.foldlM (fun s op => if op.Refused s then none else s.step op) s

theorem System.run_of_acceptingSteps {first last : System} {ops : List SystemOp}
    (h : first.acceptingSteps ops = some last) : ReflTransGen System.AcceptingStep first last := by
  refine foldlM_option_induction (motive := ReflTransGen System.AcceptingStep first) ?_ .refl h
  intro before op _ after reached stepped
  obtain ⟨accepted, step⟩ := Option.ite_none_left_eq_some.mp stepped
  exact reached.tail ⟨op, step, accepted⟩

/-- A resident txid leaves, its removal is flushed, and it is back. -/
def leaveAndReturn : List SystemOp :=
  .produce (.assertAbsent sampleCall ["a"]) ::
    ([.tryLock, .checkHeld, .beginFlush sampleCall, .bailIf, .exec, .proceed, .bailIf, .exec,
      .proceed, .proceed, .proceed, .bailIf, .commitDb, .commitBatch].map SystemOp.tick) ++
    [.produce (.assertPresent sampleCall ["a"])]

/-- The stored remove is followed by a pending add. -/
theorem left_directions_alternate :
    ∃ s, ReflTransGen System.AcceptingStep
        (.initial 0 (MempoolLedger.default.seed {"a"}) .empty) s ∧
      s.db.mempoolDeltas.length = 1 ∧ s.ledger.journal.length = 1 ∧
      signs "a" (edits (s.history .empty)) = [false, true] ∧
      Alternating ("a" ∈ ({"a"} : Finset Txid)) (signs "a" (edits (s.history .empty))) := by
  set resident := System.initial 0 (MempoolLedger.default.seed {"a"}) .empty
  obtain ⟨s, ran⟩ := Option.isSome_iff_exists.mp
    (show (resident.acceptingSteps leaveAndReturn).isSome = true by decide +kernel)
  have ends : (resident.acceptingSteps leaveAndReturn).map (fun s =>
      (s.db.mempoolDeltas.length, s.ledger.journal.length,
        signs "a" (edits (s.history .empty)))) = some (1, 1, [false, true]) := by decide +kernel
  simp only [ran, Option.map_some, Option.some.injEq, Prod.mk.injEq] at ends
  obtain ⟨rows, pending, directions⟩ := ends
  have run := System.run_of_acceptingSteps ran
  exact ⟨s, run, rows, pending, directions, (directions_alternate rfl run "a").1⟩

end MempoolObserver
