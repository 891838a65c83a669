import MempoolObserver.Library.Runs
import MempoolObserver.Services.BlockExclusion
import MempoolObserver.Services.FlushHistory

/-!
# Counter samples

The sampler counts the delta rows of one window after the other, up to
`SAFETY_MARGIN` before the clock. A row carries the time its entry was observed and
becomes visible when its batch is committed, so an entry that is still in the journal
when its window is counted is never counted.

## Main definitions

* `SamplerWorld`, `SamplerWorld.step` — the sampler beside the system
* `SamplerWorld.Covered` — no entry of a window is still to be written
-/

namespace MempoolObserver

open Collections Runs

/-! ### The sampler -/

/-- `SAFETY_MARGIN`: `MAX_HOLD` and a minute. -/
def safetyMargin : Int := ((maxHold / 10 ^ 9 : ℕ) + 60) * 10 ^ 6

structure MempoolCounterSampleRow where
  sampledAt : OffsetDateTime
  periodSecs : Int
  addedTxs : Option ℕ
  confirmedTxs : Option ℕ
  evictedTxs : Option ℕ
  deriving DecidableEq, Repr

/-- `created_at > $1 AND created_at <= $2`. -/
def InWindow (windowStart windowEnd time : OffsetDateTime) : Prop :=
  windowStart < time ∧ time ≤ windowEnd

instance (windowStart windowEnd time : OffsetDateTime) :
    Decidable (InWindow windowStart windowEnd time) :=
  inferInstanceAs (Decidable (_ ∧ _))

/-- `mempool_deltas` rows of the window, split by reason. -/
def Db.countDeltasIn (db : Db) (windowStart windowEnd : OffsetDateTime) : ℕ × ℕ × ℕ :=
  let rows := db.mempoolDeltas.filter fun row => InWindow windowStart windowEnd row.createdAt
  (rows.countP (·.reason = .addMempool), rows.countP (·.reason = .removeConfirmed),
    rows.countP (·.reason = .removeEvicted))

/-- Where `sample` stands. -/
inductive SamplePc where
  | idle
  | readCursor (windowEnd : OffsetDateTime)
  /-- `exists_of_kind_in` for the events of a restart. -/
  | readRestarts (windowStart windowEnd : OffsetDateTime)
  | counting (windowStart windowEnd : OffsetDateTime)
  | inserting (row : MempoolCounterSampleRow)
  deriving DecidableEq, Repr

structure SamplerWorld where
  system : System
  /-- What the wall clock read when the monotonic one read zero. -/
  epoch : OffsetDateTime
  /-- In seconds. -/
  interval : ℕ
  samples : List MempoolCounterSampleRow
  /-- The times of the `ServerStarted` events. -/
  serverStarted : List OffsetDateTime
  pc : SamplePc
  /-- When the last flush with something to write began. -/
  begun : OffsetDateTime
  /-- When the last flush that came through began; of what was observed before, nothing is
  left to write. -/
  flushed : OffsetDateTime

inductive SamplerOp where
  | sample
  | readCursor
  | readRestarts
  | countDeltas
  | insert
  /-- A query of the sampler fails. -/
  | fail
  | recordServerStarted
  | system (op : SystemOp)
  /-- The process starts again with the tables it left, and seeds its ledger. -/
  | restart (live : Finset Txid)

/-- A call reads the clock while it runs, never before its start. -/
def Call.stamped (clock : OffsetDateTime) (call : Call) : Call :=
  { call with now := fun txid => max clock (call.now txid) }

def Producer.stamped (clock : OffsetDateTime) : Producer → Producer
  | submitAuthoritative call txids => .submitAuthoritative (call.stamped clock) txids
  | assertPresent call txids => .assertPresent (call.stamped clock) txids
  | assertAbsent call txids => .assertAbsent (call.stamped clock) txids

/-- The operation on a clock that only goes forward. -/
def SystemOp.stamped (clock : OffsetDateTime) : SystemOp → SystemOp
  | produce producer => .produce (producer.stamped clock)
  | block (.assertAbsent call) => .block (.assertAbsent (call.stamped clock))
  | op => op

namespace SamplerWorld

/-- The wall clock. -/
def wallClock (epoch : OffsetDateTime) (now : ℕ) : OffsetDateTime := epoch + (now / 1000 : ℕ)

/-- A time by which nothing of a journal had been observed. -/
def before (clock : OffsetDateTime) (journal : List JournalEntry) : OffsetDateTime :=
  journal.foldr (fun entry time => min entry.observedAt time) clock

def initial (now : ℕ) (ledger : MempoolLedger) (db : Db) (epoch : OffsetDateTime)
    (interval : ℕ) (serverStarted : List OffsetDateTime) : SamplerWorld where
  system := .initial now ledger db
  epoch := epoch
  interval := interval
  samples := []
  serverStarted := serverStarted
  pc := .idle
  begun := wallClock epoch now
  flushed := before (wallClock epoch now) ledger.journal

def clock (w : SamplerWorld) : OffsetDateTime := wallClock w.epoch w.system.gate.now

def latestSampledAt (w : SamplerWorld) : Option OffsetDateTime :=
  (w.samples.map MempoolCounterSampleRow.sampledAt).max?

/-- `ON CONFLICT (sampled_at) DO NOTHING`. -/
def insertSample (w : SamplerWorld) (row : MempoolCounterSampleRow) :
    List MempoolCounterSampleRow :=
  if row.sampledAt ∈ w.samples.map MempoolCounterSampleRow.sampledAt then w.samples
  else w.samples ++ [row]

/-- `exists_of_kind_in` of `ServerStarted`. -/
def serverStartedIn (w : SamplerWorld) (windowStart windowEnd : OffsetDateTime) : Bool :=
  w.serverStarted.any fun time => InWindow windowStart windowEnd time

/-- The row of a window. -/
def windowRow (windowStart windowEnd : OffsetDateTime) (counts : Option (ℕ × ℕ × ℕ)) :
    MempoolCounterSampleRow where
  sampledAt := windowEnd
  periodSecs := (windowEnd - windowStart) / 10 ^ 6
  addedTxs := counts.map (·.1)
  confirmedTxs := counts.map (·.2.1)
  evictedTxs := counts.map (·.2.2)

/-- The step of the system, with the times of its flushes noted. -/
def moved (w : SamplerWorld) (system : System) : SystemOp → SamplerWorld
  | .tick (.beginFlush _) =>
    -- with nothing in the journal, the flush is through at once
    if w.system.ledger.journal = [] then { w with system := system, flushed := w.clock }
    else { w with system := system, begun := w.clock }
  | .tick .commitDb => { w with system := system, flushed := w.begun }
  | _ => { w with system := system }

/-- One step, `none` when the operation is not possible. -/
def step (w : SamplerWorld) : SamplerOp → Option SamplerWorld
  | .sample =>
    match w.pc with
    | .idle => some { w with pc := .readCursor (w.clock - safetyMargin) }
    | _ => none
  | .readCursor =>
    match w.pc with
    | .readCursor windowEnd =>
      match w.latestSampledAt with
      -- the first row only establishes a cursor
      | none => some { w with pc := .inserting ⟨windowEnd, w.interval, none, none, none⟩ }
      | some windowStart =>
        let pc :=
          if windowEnd ≤ windowStart then SamplePc.idle else .readRestarts windowStart windowEnd
        some { w with pc := pc }
    | _ => none
  | .readRestarts =>
    match w.pc with
    | .readRestarts windowStart windowEnd =>
      let pc :=
        if w.serverStartedIn windowStart windowEnd then
          SamplePc.inserting (windowRow windowStart windowEnd none)
        else .counting windowStart windowEnd
      some { w with pc := pc }
    | _ => none
  | .countDeltas =>
    match w.pc with
    | .counting windowStart windowEnd =>
      let counts := w.system.db.countDeltasIn windowStart windowEnd
      some { w with pc := .inserting (windowRow windowStart windowEnd (some counts)) }
    | _ => none
  | .insert =>
    match w.pc with
    | .inserting row => some { w with samples := w.insertSample row, pc := .idle }
    | _ => none
  | .fail => some { w with pc := .idle }
  | .recordServerStarted => some { w with serverStarted := w.serverStarted ++ [w.clock] }
  | .system op =>
    (w.system.step (op.stamped w.clock)).map fun system => w.moved system op
  | .restart live =>
    let system := System.initial w.system.gate.now ⟨live, [], false⟩ w.system.db
    some { w with system := system, pc := .idle, begun := w.clock, flushed := w.clock }

end SamplerWorld

/-! ### What is queued from now on -/

/-- Everything an operation on the clock queues is stamped with the clock or later. -/
theorem SystemOp.queued_stamped {s : System} {op : SystemOp} {flushOp : FlushOp}
    {clock : OffsetDateTime} (h : (op.stamped clock).flushOp s = some flushOp)
    {entry : JournalEntry} (queued : entry ∈ flushOp.queued s.flush) :
    clock ≤ entry.observedAt := by
  -- Whatever a call records is stamped with its time or later.
  have stamp {call : Call} {direction : DeltaDirection} {txids : List Txid}
      (member : entry ∈ txids.map ((call.stamped clock).entry direction)) :
      clock ≤ entry.observedAt := by
    obtain ⟨txid, -, rfl⟩ := List.mem_map.mp member
    exact le_max_left clock _
  cases op with
  | produce producer =>
    cases h
    cases producer with
    | submitAuthoritative call txids => exact (List.mem_append.mp queued).elim stamp stamp
    | assertPresent call txids => exact stamp queued
    | assertAbsent call txids => exact stamp queued
  | tick op =>
    cases op with
    | beginFlush | fail | commitDb | commitBatch =>
      cases h
      cases queued
    | bailIf =>
      simp only [stamped, SystemOp.flushOp] at h
      split_ifs at h
      cases h
      cases queued
    | tryLock | checkHeld | proceed | exec | clusterTx | finish => cases h
  | block op =>
    cases op with
    | assertAbsent call =>
      simp only [stamped, SystemOp.flushOp] at h
      split at h
      · cases h
        exact stamp queued
      · cases h
    | start | lock | grant | cancel | fetched | insert | clusterTx | finish | fail => cases h
  | advance | backfillRaw | backfillFee => cases h

theorem System.observedAt_step {s next : System} {op : SystemOp} {clock : OffsetDateTime}
    (inv : SystemInv s) (h : s.step (op.stamped clock) = some next) :
    ∀ entry ∈ next.ledger.journal.drop s.ledger.journal.length, clock ≤ entry.observedAt := by
  have simulated := flush_step inv h
  intro entry gained
  cases flushed : (op.stamped clock).flushOp s with
  | none =>
    rw [flushed] at simulated
    have ledger : next.ledger = s.ledger := congrArg FlushState.ledger simulated
    simp [ledger] at gained
  | some flushOp =>
    rw [flushed] at simulated
    have ledger : next.flush.ledger = next.ledger := rfl
    rw [← ledger] at gained
    obtain ⟨after, appends, same⟩ | ⟨call, dbImage, rfl, -⟩ | ⟨same, -⟩ | ⟨-, -, same⟩ |
      -- What the journal gained was queued by this step, and an append takes only a part of the
      -- queue.
      ⟨batch, -, -, same | same⟩ | ⟨batch, -, -, same⟩ := FlushState.step_cases simulated
    · rw [same, appends.journal_eq] at gained
      have queued : entry ∈ (flushOp.queued s.flush).take s.ledger.room := by
        simpa [flush] using gained
      exact SystemOp.queued_stamped flushed (List.mem_of_mem_take queued)
    · exact absurd rfl (SystemOp.flushOp_ne_reconcileAgainst flushed call dbImage)
    all_goals
      rw [same] at gained
      simp [flush] at gained

/-! ### Windows in the past -/

/-- No entry observed in the window is still to be written. -/
def System.Covered (s : System) (windowStart windowEnd : OffsetDateTime) : Prop :=
  ∀ entry ∈ s.flush.unwritten, ¬ InWindow windowStart windowEnd entry.observedAt

instance (s : System) (windowStart windowEnd : OffsetDateTime) :
    Decidable (s.Covered windowStart windowEnd) :=
  inferInstanceAs (Decidable (∀ entry ∈ s.flush.unwritten, _))

/-- The entries written by a step and those left to write were unwritten before it, or
are new. -/
theorem System.unwritten_step {s next : System} {op : SystemOp} (inv : SystemInv s)
    (inPlace : s.flush.BatchInPlace) (h : s.step op = some next) :
    ∃ rows, next.db.mempoolDeltas = s.db.mempoolDeltas ++ rows ∧
      rows.map MempoolDelta.entry ++ next.flush.unwritten =
        s.flush.unwritten ++ next.ledger.journal.drop s.ledger.journal.length := by
  obtain ⟨-, -, log⟩ := System.log_step inv inPlace h
  obtain ⟨rows, appended⟩ := System.mempoolDeltas_step h
  refine ⟨rows, appended.symm, ?_⟩
  have stored : next.flush.persisted = s.flush.persisted ++ rows.map MempoolDelta.entry := by
    simp [flush, ← appended]
  rw [FlushState.log, FlushState.log, stored, List.append_assoc, List.append_assoc] at log
  exact List.append_cancel_left log

/-- A window that is past and covered stays so, and its rows stay what they are. -/
theorem System.Covered.step {s next : System} {op : SystemOp}
    {windowStart windowEnd clock : OffsetDateTime} (covered : s.Covered windowStart windowEnd)
    (inv : SystemInv s) (inPlace : s.flush.BatchInPlace)
    (h : s.step (op.stamped clock) = some next) (past : windowEnd < clock) :
    next.Covered windowStart windowEnd ∧
      next.db.countDeltasIn windowStart windowEnd = s.db.countDeltasIn windowStart windowEnd := by
  obtain ⟨rows, appended, moved⟩ := unwritten_step inv inPlace h
  -- Rows written now and entries still unwritten were there before, or were stamped past the
  -- window.
  have outside : ∀ entry ∈ rows.map MempoolDelta.entry ++ next.flush.unwritten,
      ¬ InWindow windowStart windowEnd entry.observedAt := by
    intro entry member
    rw [moved, List.mem_append] at member
    rcases member with old | new
    · exact covered entry old
    · have stamped := System.observedAt_step inv h entry new
      rintro ⟨-, before⟩
      exact absurd (before.trans_lt past) (not_lt.mpr stamped)
  refine ⟨fun entry member => outside entry (List.mem_append_right _ member), ?_⟩
  have none : rows.filter (fun row => InWindow windowStart windowEnd row.createdAt) = [] := by
    refine List.filter_eq_nil_iff.mpr fun row member => ?_
    have := outside row.entry (List.mem_append_left _ (List.mem_map_of_mem member))
    simpa [MempoolDelta.entry] using this
  simp only [Db.countDeltasIn, appended, List.filter_append, none, List.append_nil]

namespace SamplerWorld

/-! ### The invariant -/

/-- What the row of a window says: the server started in it, or these are all the rows
the window has and will have. -/
def Sampled (w : SamplerWorld) (windowStart : OffsetDateTime) (row : MempoolCounterSampleRow) :
    Prop :=
  row = windowRow windowStart row.sampledAt none ∧
    w.serverStartedIn windowStart row.sampledAt = true ∨
  row = windowRow windowStart row.sampledAt
    (some (w.system.db.countDeltasIn windowStart row.sampledAt)) ∧
    w.system.Covered windowStart row.sampledAt

/-- What the sampler knows where it stands. -/
def PcInv (w : SamplerWorld) : Prop :=
  match w.pc with
  | .idle => True
  | .readCursor windowEnd => windowEnd + safetyMargin ≤ w.clock
  | .readRestarts windowStart windowEnd | .counting windowStart windowEnd =>
    ∃ last, w.samples.getLast? = some last ∧ last.sampledAt = windowStart ∧
      windowStart < windowEnd ∧ windowEnd + safetyMargin ≤ w.clock
  | .inserting row => row.sampledAt + safetyMargin ≤ w.clock ∧
      ∀ last ∈ w.samples.getLast?, last.sampledAt < row.sampledAt ∧ w.Sampled last.sampledAt row

/-- What is left to write was observed after the last flush that came through had begun, and
what lies behind the batch of the one under way after that one had. -/
structure FlushTimes (w : SamplerWorld) : Prop where
  begun : w.begun ≤ w.clock
  flushed : w.flushed ≤ w.clock
  left : ∀ entry ∈ w.system.flush.unwritten, w.flushed ≤ entry.observedAt
  behind : ∀ batch tx, w.system.tick = .writing batch tx →
    ∀ entry ∈ w.system.ledger.journal.drop batch.length, w.begun ≤ entry.observedAt

structure SamplerInv (w : SamplerWorld) : Prop where
  system : SystemInv w.system
  inPlace : w.system.flush.BatchInPlace
  past : ∀ row ∈ w.samples, row.sampledAt + safetyMargin ≤ w.clock
  increasing : w.samples.Pairwise fun first second => first.sampledAt < second.sampledAt
  sampled : w.samples.IsChain fun first second => w.Sampled first.sampledAt second
  pc : w.PcInv
  times : w.FlushTimes

variable {w next : SamplerWorld}

theorem safetyMargin_pos : 0 < safetyMargin := by decide

/-- The cursor is the last row. -/
theorem SamplerInv.latestSampledAt_eq (inv : w.SamplerInv) :
    w.latestSampledAt = w.samples.getLast?.map MempoolCounterSampleRow.sampledAt := by
  rw [latestSampledAt]
  cases last : w.samples.getLast? with
  | none =>
    rw [List.getLast?_eq_none_iff.mp last]
    rfl
  | some row =>
    have member := List.mem_of_getLast? last
    rw [Option.map_some, List.max?_eq_some_iff]
    refine ⟨List.mem_map_of_mem member, ?_⟩
    obtain ⟨before, whole⟩ := List.getLast?_eq_some_iff.mp last
    have increasing := inv.increasing
    rw [whole] at increasing ⊢
    intro time listed
    obtain ⟨other, found, rfl⟩ := List.mem_map.mp listed
    rcases List.mem_append.mp found with early | same
    · exact ((List.pairwise_append.mp increasing).2.2 other early row (by simp)).le
    · rw [List.mem_singleton.mp same]

theorem Sampled.mono {windowStart : OffsetDateTime} {row : MempoolCounterSampleRow}
    (sampled : w.Sampled windowStart row)
    (started : ∀ time ∈ w.serverStarted, time ∈ next.serverStarted)
    (kept : w.system.Covered windowStart row.sampledAt →
      next.system.Covered windowStart row.sampledAt ∧
        next.system.db.countDeltasIn windowStart row.sampledAt =
          w.system.db.countDeltasIn windowStart row.sampledAt) :
    next.Sampled windowStart row := by
  rcases sampled with ⟨null, restarted⟩ | ⟨counted, covered⟩
  · refine .inl ⟨null, ?_⟩
    obtain ⟨time, member, inside⟩ := List.any_eq_true.mp restarted
    exact List.any_eq_true.mpr ⟨time, started time member, inside⟩
  · obtain ⟨still, same⟩ := kept covered
    exact .inr ⟨by rw [same]; exact counted, still⟩

/-- A step of anything but the sampler: time passes, and windows in the past stay as
they are. -/
theorem SamplerInv.around (inv : w.SamplerInv) (systemInv : SystemInv next.system)
    (inPlace : next.system.flush.BatchInPlace) (samples : next.samples = w.samples)
    (pc : next.pc = w.pc) (later : w.clock ≤ next.clock)
    (started : ∀ time ∈ w.serverStarted, time ∈ next.serverStarted)
    (times : next.FlushTimes)
    (kept : ∀ windowStart windowEnd, windowEnd < w.clock →
      w.system.Covered windowStart windowEnd →
      next.system.Covered windowStart windowEnd ∧
        next.system.db.countDeltasIn windowStart windowEnd =
          w.system.db.countDeltasIn windowStart windowEnd) :
    next.SamplerInv := by
  have margin := safetyMargin_pos
  -- A window that ended a margin ago counts the same deltas as before.
  have stays {windowStart : OffsetDateTime} {row : MempoolCounterSampleRow}
      (past : row.sampledAt + safetyMargin ≤ w.clock) (sampled : w.Sampled windowStart row) :
      next.Sampled windowStart row :=
    sampled.mono started
      (kept windowStart row.sampledAt ((lt_add_of_pos_right _ margin).trans_le past))
  refine ⟨systemInv, inPlace, ?_, samples ▸ inv.increasing, ?_, ?_, times⟩
  · rw [samples]
    exact fun row member => (inv.past row member).trans later
  · rw [samples]
    refine inv.sampled.imp_of_mem_imp fun first second _ member sampled => ?_
    exact stays (inv.past second member) sampled
  -- The sampler itself did not move, so what it knows is only carried forward in time.
  · have known := inv.pc
    unfold PcInv at known ⊢
    rw [pc, samples]
    cases here : w.pc <;> rw [here] at known
    case idle => trivial
    case readCursor windowEnd => exact known.trans later
    case readRestarts windowStart windowEnd =>
      obtain ⟨last, ends, cursor, ordered, past⟩ := known
      exact ⟨last, ends, cursor, ordered, past.trans later⟩
    case counting windowStart windowEnd =>
      obtain ⟨last, ends, cursor, ordered, past⟩ := known
      exact ⟨last, ends, cursor, ordered, past.trans later⟩
    case inserting row =>
      refine ⟨known.1.trans later, fun last ends => ?_⟩
      obtain ⟨ordered, sampled⟩ := known.2 last ends
      exact ⟨ordered, stays known.1 sampled⟩

theorem clock_step {op : SystemOp} {system : System}
    (h : w.system.step op = some system) : w.clock ≤ wallClock w.epoch system.gate.now := by
  have later := System.now_step h
  have inMicros : w.system.gate.now / 1000 ≤ system.gate.now / 1000 := Nat.div_le_div_right later
  exact Int.add_le_add_left (Int.ofNat_le.mpr inMicros) w.epoch

/-- Noting the times of the flushes changes nothing else. -/
theorem moved_eq (w : SamplerWorld) (system : System) (op : SystemOp) :
    (w.moved system op).system = system ∧ (w.moved system op).samples = w.samples ∧
      (w.moved system op).serverStarted = w.serverStarted ∧ (w.moved system op).pc = w.pc ∧
      (w.moved system op).epoch = w.epoch := by
  unfold moved
  split
  · split_ifs <;> exact ⟨rfl, rfl, rfl, rfl, rfl⟩
  · exact ⟨rfl, rfl, rfl, rfl, rfl⟩
  · exact ⟨rfl, rfl, rfl, rfl, rfl⟩

end SamplerWorld

end MempoolObserver
