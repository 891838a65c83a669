import MempoolObserver.Services.CounterSample

/-!
# How late a flush may come

A flush takes the whole journal: what it leaves was observed after it began. The margin
of the sampler outlasts one hold of the gate, but not two blocks that follow each other.

## Main results

* `Covered.step` — what a step of the schedule does to a window already counted
* `FlushTimes.covered` — a window that ended before the last flush began is covered
* `deltas_counted_once` — rows are counted once as long as a flush that comes through
  began within the margin before each sample
* `consecutive_blocks_lose_a_delta` — two blocks in a row, each within `MAX_HOLD`
-/

namespace MempoolObserver

open Collections Runs

namespace SamplerWorld

variable {w next : SamplerWorld}

/-! ### The times of the flushes -/

theorem before_le_clock (clock : OffsetDateTime) (journal : List JournalEntry) :
    before clock journal ≤ clock := by
  induction journal with
  | nil => exact le_rfl
  | cons entry journal ih => exact (min_le_right _ _).trans ih

theorem before_le {clock : OffsetDateTime} {journal : List JournalEntry} {entry : JournalEntry}
    (listed : entry ∈ journal) : before clock journal ≤ entry.observedAt := by
  induction journal with
  | nil => cases listed
  | cons first journal ih =>
    rcases List.mem_cons.mp listed with rfl | later
    · exact min_le_left _ _
    · exact (min_le_right _ _).trans (ih later)

/-- What is left to write after a step was left before it, or is stamped by it. -/
theorem observedAt_of_left {op : SystemOp} {system : System} {time : OffsetDateTime}
    (inv : SystemInv w.system) (inPlace : w.system.flush.BatchInPlace)
    (h : w.system.step (op.stamped w.clock) = some system) (past : time ≤ w.clock)
    (left : ∀ entry ∈ w.system.flush.unwritten, time ≤ entry.observedAt) :
    ∀ entry ∈ system.flush.unwritten, time ≤ entry.observedAt := by
  obtain ⟨rows, -, same⟩ := System.unwritten_step inv inPlace h
  intro entry member
  have listed := List.mem_append_right (rows.map MempoolDelta.entry) member
  rw [same] at listed
  rcases List.mem_append.mp listed with old | new
  · exact left entry old
  · exact past.trans (System.observedAt_step inv h entry new)

/-- The same behind the batch of a tick that goes on writing. -/
theorem observedAt_of_behind {op : SystemOp} {system : System} {batch : List JournalEntry}
    {tx after : BatchTx} {time : OffsetDateTime}
    (inv : SystemInv w.system) (inPlace : w.system.flush.BatchInPlace)
    (h : w.system.step (op.stamped w.clock) = some system) (past : time ≤ w.clock)
    (was : w.system.tick = .writing batch tx) (still : system.tick = .writing batch after)
    (behind : ∀ entry ∈ w.system.ledger.journal.drop batch.length, time ≤ entry.observedAt) :
    ∀ entry ∈ system.ledger.journal.drop batch.length, time ≤ entry.observedAt := by
  obtain ⟨rows, -, same⟩ := System.unwritten_step inv inPlace h
  -- the whole journal is unwritten before and after
  have before : w.system.flush.unwritten = w.system.ledger.journal := by
    simp [System.flush, FlushState.unwritten, FlushState.overlap, was, TickPc.flight]
  have after : system.flush.unwritten = system.ledger.journal := by
    simp [System.flush, FlushState.unwritten, FlushState.overlap, still, TickPc.flight]
  have short : batch.length ≤ w.system.ledger.journal.length := by
    have inJournal := inPlace
    simp only [System.flush, FlushState.BatchInPlace, was, TickPc.flight] at inJournal
    exact inJournal.length_le
  rw [before, after] at same
  intro entry member
  have listed : entry ∈ (rows.map MempoolDelta.entry ++ system.ledger.journal).drop
      batch.length := by
    rw [List.drop_append]
    exact List.mem_append_right _ (List.drop_subset_drop_left _ (Nat.sub_le _ _) member)
  rw [same, List.drop_append_of_le_length short] at listed
  rcases List.mem_append.mp listed with old | new
  · exact behind entry old
  · exact past.trans (System.observedAt_step inv h entry new)

/-- The sampler does not touch the flushes. -/
theorem FlushTimes.sampling (times : w.FlushTimes) (samples : List MempoolCounterSampleRow)
    (pc : SamplePc) : FlushTimes { w with samples := samples, pc := pc } :=
  ⟨times.begun, times.flushed, times.left, times.behind⟩

/-- A step of the system that is neither the begin nor the commit of a flush. -/
theorem FlushTimes.carry {op : SystemOp} {system : System} (times : w.FlushTimes)
    (inv : SystemInv w.system) (inPlace : w.system.flush.BatchInPlace)
    (h : w.system.step (op.stamped w.clock) = some system)
    (going : ∀ batch tx, system.tick = .writing batch tx →
      ∃ before, w.system.tick = .writing batch before) :
    FlushTimes { w with system := system } where
  begun := times.begun.trans (clock_step h)
  flushed := times.flushed.trans (clock_step h)
  left := observedAt_of_left inv inPlace h times.flushed times.left
  behind batch tx still := by
    obtain ⟨before, was⟩ := going batch tx still
    exact observedAt_of_behind inv inPlace h times.begun was still (times.behind batch before was)

/-- The commit of a flush leaves what lies behind its batch. -/
theorem FlushTimes.commitDb {system : System} (times : w.FlushTimes)
    (h : w.system.step (.tick .commitDb) = some system) :
    FlushTimes { w with system := system, flushed := w.begun } := by
  have later := clock_step h
  obtain ⟨batch, tx, writing, -, rfl⟩ := System.stepTick_commitDb h
  refine ⟨times.begun.trans later, times.begun.trans later, times.behind batch tx writing, ?_⟩
  intro other tx' still
  cases still

/-- A flush that begins takes all there is. -/
theorem FlushTimes.beginFlush {call : Call} {system : System} (times : w.FlushTimes)
    (h : w.system.stepTick (.beginFlush call) = some system) :
    (w.moved system (.tick (.beginFlush call))).FlushTimes := by
  have later : w.clock ≤ wallClock w.epoch system.gate.now :=
    clock_step (show w.system.step (.tick (.beginFlush call)) = some system from h)
  simp only [moved]
  cases System.stepTick_cases h with
  | beginFlush leased taken =>
    obtain ⟨rfl, some⟩ := MempoolLedger.beginFlush_eq_some.mp taken
    rw [if_neg some]
    refine ⟨later, times.flushed.trans later, ?_, fun batch tx writing => ?_⟩
    · have kept : ∀ entry ∈ w.system.flush.unwritten, w.flushed ≤ entry.observedAt := times.left
      simpa [System.flush, FlushState.unwritten, FlushState.overlap, leased, TickPc.flight] using
        kept
    · cases writing
      intro entry member
      rw [List.drop_length] at member
      cases member
  | nothing leased empty dropped =>
    have none : w.system.ledger.journal = [] := by
      rw [MempoolLedger.beginFlush] at empty
      split_ifs at empty with none
      exact none
    rw [if_pos none]
    refine ⟨times.begun.trans later, later, ?_, fun batch tx writing => by cases writing⟩
    intro entry member
    simp [System.flush, FlushState.unwritten, none] at member

/-- A tick that writes has begun to before, but for the step that begins the flush. -/
theorem writing_before {op : SystemOp} {system : System} {clock : OffsetDateTime}
    (h : w.system.step (op.stamped clock) = some system)
    (begins : ∀ call, op ≠ .tick (.beginFlush call)) (batch : List JournalEntry) (tx : BatchTx)
    (still : system.tick = .writing batch tx) : ∃ before, w.system.tick = .writing batch before := by
  cases op with
  | advance elapsed =>
    obtain ⟨gate, -, rfl⟩ := System.step_advance h
    exact ⟨tx, still⟩
  | produce | backfillRaw | backfillFee =>
    cases h
    exact ⟨tx, still⟩
  | block op =>
    obtain ⟨stamped, same⟩ : ∃ stamped, (SystemOp.block op).stamped clock = .block stamped := by
      cases op <;> exact ⟨_, rfl⟩
    rw [same] at h
    exact ⟨tx, (System.tick_stepBlock h).symm.trans still⟩
  | tick op =>
    cases System.stepTick_cases (show w.system.stepTick op = some system from h) with
    | beginFlush | nothing => exact absurd rfl (begins _)
    | tryLock => exact ⟨tx, still⟩
    | checkHeld =>
      simp only at still
      split_ifs at still
    | proceed writing | clears writing | exec writing =>
      cases still
      exact ⟨_, writing⟩
    | bails | fail | commitDb | commitBatch | finish => cases still
    | clusterTx syncing => cases syncing.symm.trans still

theorem FlushTimes.moved {op : SystemOp} {system : System} (times : w.FlushTimes)
    (inv : SystemInv w.system) (inPlace : w.system.flush.BatchInPlace)
    (h : w.system.step (op.stamped w.clock) = some system) : (w.moved system op).FlushTimes := by
  by_cases begins : ∃ call, op = .tick (.beginFlush call)
  · obtain ⟨call, rfl⟩ := begins
    exact times.beginFlush h
  by_cases commits : op = .tick .commitDb
  · subst commits
    exact times.commitDb h
  have carried := times.carry inv inPlace h
    (writing_before h fun call same => begins ⟨call, same⟩)
  unfold SamplerWorld.moved
  split
  · exact absurd ⟨_, rfl⟩ begins
  · exact absurd rfl commits
  · exact carried

/-- A window that ended before the last flush that came through began has nothing left to
write. -/
theorem FlushTimes.covered (times : w.FlushTimes) {windowStart windowEnd : OffsetDateTime}
    (past : windowEnd < w.flushed) : w.system.Covered windowStart windowEnd := by
  intro entry member inside
  exact absurd (times.left entry member) (not_le.mpr (inside.2.trans_lt past))

/-! ### Runs of the sampler -/

/-- The sampler moves on, with nothing but its place changed. -/
theorem SamplerInv.withPc (inv : w.SamplerInv) {pc : SamplePc} (known : { w with pc := pc }.PcInv) :
    { w with pc := pc }.SamplerInv :=
  ⟨inv.system, inv.inPlace, inv.past, inv.increasing, inv.sampled, known,
    inv.times.sampling _ _⟩

/-- A row after the last one is appended. -/
theorem SamplerInv.insert (inv : w.SamplerInv) {row : MempoolCounterSampleRow}
    (here : w.pc = .inserting row) :
    { w with samples := w.insertSample row, pc := .idle }.SamplerInv := by
  have known := inv.pc
  rw [PcInv, here] at known
  obtain ⟨past, follows⟩ := known
  -- The cursor read is the last sample, and the samples ascend.
  have above : ∀ other ∈ w.samples, other.sampledAt < row.sampledAt := by
    intro other member
    obtain ⟨last, ends⟩ := Option.isSome_iff_exists.mp
      (List.getLast?_isSome.mpr (List.ne_nil_of_mem member))
    obtain ⟨before, whole⟩ := List.getLast?_eq_some_iff.mp ends
    have increasing := inv.increasing
    rw [whole] at increasing member
    rcases List.mem_append.mp member with early | same
    · have earlier := (List.pairwise_append.mp increasing).2.2 other early last (by simp)
      exact earlier.trans (follows last ends).1
    · rw [List.mem_singleton.mp same]
      exact (follows last ends).1
  have fresh : row.sampledAt ∉ w.samples.map MempoolCounterSampleRow.sampledAt := by
    intro listed
    obtain ⟨other, member, same⟩ := List.mem_map.mp listed
    exact absurd (above other member) (by rw [same]; exact lt_irrefl _)
  rw [insertSample, if_neg fresh]
  refine ⟨inv.system, inv.inPlace, ?_, ?_, ?_, trivial, inv.times.sampling _ _⟩
  · intro other member
    rcases List.mem_append.mp member with old | new
    · exact inv.past other old
    · rw [List.mem_singleton.mp new]
      exact past
  · refine List.pairwise_append.mpr ⟨inv.increasing, List.pairwise_singleton _ _, ?_⟩
    intro other member new same
    rw [List.mem_singleton.mp same]
    exact above other member
  -- The new window follows the last one, and was counted as it stands.
  · refine List.isChain_append.mpr ⟨inv.sampled, .singleton _, ?_⟩
    intro last ends new same
    obtain rfl : row = new := Option.some.inj same
    exact (follows last ends).2

/-- When a window is counted, the last flush that came through began less than the safety margin
before the clock of the sample. -/
def Prompt (w : SamplerWorld) (op : SamplerOp) : Prop :=
  match op, w.pc with
  | .countDeltas, .counting _ windowEnd => windowEnd + safetyMargin - w.flushed < safetyMargin
  | _, _ => True

instance (w : SamplerWorld) (op : SamplerOp) : Decidable (w.Prompt op) := by
  unfold Prompt
  split <;> infer_instance

theorem SamplerInv.step {op : SamplerOp} (inv : w.SamplerInv) (prompt : w.Prompt op)
    (h : w.step op = some next) : next.SamplerInv := by
  cases op with
  | sample =>
    simp only [SamplerWorld.step] at h
    split at h <;> cases h
    exact inv.withPc (show _ - safetyMargin + safetyMargin ≤ _ by rw [sub_add_cancel]; exact le_rfl)
  | readCursor =>
    simp only [SamplerWorld.step] at h
    split at h
    · rename_i windowEnd here
      have known := inv.pc
      rw [PcInv, here] at known
      have cursor := inv.latestSampledAt_eq
      split at h
      · rename_i nothing
        cases h
        rw [nothing, eq_comm, Option.map_eq_none_iff] at cursor
        refine inv.withPc ⟨known, ?_⟩
        intro last ends
        rw [cursor] at ends
        cases ends
      · rename_i windowStart latest
        cases h
        rw [latest, eq_comm, Option.map_eq_some_iff] at cursor
        obtain ⟨last, ends, at_last⟩ := cursor
        refine inv.withPc ?_
        split_ifs with covered
        · trivial
        · exact ⟨last, ends, at_last, not_le.mp covered, known⟩
    · cases h
  | readRestarts =>
    simp only [SamplerWorld.step] at h
    split at h
    · rename_i windowStart windowEnd here
      cases h
      have known := inv.pc
      rw [PcInv, here] at known
      obtain ⟨last, ends, cursor, ordered, past⟩ := known
      refine inv.withPc ?_
      split_ifs with restarted
      · refine ⟨past, fun other same => ?_⟩
        obtain rfl : last = other := Option.some.inj (ends.symm.trans same)
        subst cursor
        exact ⟨ordered, .inl ⟨rfl, restarted⟩⟩
      · exact ⟨last, ends, cursor, ordered, past⟩
    · cases h
  | countDeltas =>
    simp only [SamplerWorld.step] at h
    split at h
    · rename_i windowStart windowEnd here
      cases h
      have known := inv.pc
      rw [PcInv, here] at known
      obtain ⟨last, ends, cursor, ordered, past⟩ := known
      refine inv.withPc ⟨past, fun other same => ?_⟩
      obtain rfl : last = other := Option.some.inj (ends.symm.trans same)
      have covered : w.system.Covered windowStart windowEnd := by
        simp only [Prompt, here] at prompt
        exact inv.times.covered (lt_of_add_lt_add_right (sub_lt_iff_lt_add'.mp prompt))
      subst cursor
      exact ⟨ordered, .inr ⟨rfl, covered⟩⟩
    · cases h
  | insert =>
    simp only [SamplerWorld.step] at h
    split at h
    · rename_i row here
      cases h
      exact inv.insert here
    · cases h
  | fail =>
    cases h
    exact inv.withPc trivial
  | recordServerStarted =>
    cases h
    have times := inv.times
    refine inv.around inv.system inv.inPlace rfl rfl le_rfl ?_
      ⟨times.begun, times.flushed, times.left, times.behind⟩ fun _ _ _ covered => ⟨covered, rfl⟩
    exact fun time member => List.mem_append_left _ member
  | system op =>
    simp only [SamplerWorld.step] at h
    obtain ⟨system, stepped, rfl⟩ := Option.map_eq_some_iff.mp h
    obtain ⟨inPlace, -, -⟩ := System.log_step inv.system inv.inPlace stepped
    have times := inv.times.moved inv.system inv.inPlace stepped
    obtain ⟨same, samples, started, pc, epoch⟩ := moved_eq w system op
    refine inv.around ?_ ?_ samples pc ?_ ?_ times ?_
    · rw [same]
      exact inv.system.step stepped
    · rw [same]
      exact inPlace
    · rw [clock, clock, same, epoch]
      exact clock_step stepped
    · rw [started]
      exact fun _ member => member
    · rw [same]
      exact fun _ _ past covered => covered.step inv.system inv.inPlace stepped past
  | restart live =>
    cases h
    -- what was not written is gone with the process
    have restarted : SamplerInv { w with
        system := System.initial w.system.gate.now ⟨live, [], false⟩ w.system.db
        begun := w.clock
        flushed := w.clock } := by
      refine inv.around (.initial _ _ _) trivial rfl rfl le_rfl (fun _ member => member) ?_ ?_
      · refine ⟨le_rfl, le_rfl, fun entry member => ?_, fun batch tx writing => ?_⟩
        · cases member
        · cases writing
      · intro windowStart windowEnd past covered
        exact ⟨(fun entry member => nomatch member), rfl⟩
    exact restarted.withPc trivial

theorem SamplerInv.initial {now : ℕ} {ledger : MempoolLedger} {db : Db} {epoch : OffsetDateTime}
    {interval : ℕ} {serverStarted : List OffsetDateTime} :
    (SamplerWorld.initial now ledger db epoch interval serverStarted).SamplerInv where
  system := .initial now ledger db
  inPlace := trivial
  past := by simp [SamplerWorld.initial]
  increasing := .nil
  sampled := .nil
  pc := trivial
  times := ⟨le_rfl, before_le_clock _ _, fun _ member => before_le member,
    fun _ _ writing => nomatch writing⟩

/-- A sample counts a row: the row lies in its window, and its counters are those of the
rows the table has for that window. -/
def Counts (w : SamplerWorld) (window : MempoolCounterSampleRow × MempoolCounterSampleRow)
    (row : MempoolDelta) : Prop :=
  InWindow window.1.sampledAt window.2.sampledAt row.createdAt ∧
    (window.2.addedTxs, window.2.confirmedTxs, window.2.evictedTxs) =
      let counts := w.system.db.countDeltasIn window.1.sampledAt window.2.sampledAt
      (some counts.1, some counts.2.1, some counts.2.2)

instance (w : SamplerWorld) (window : MempoolCounterSampleRow × MempoolCounterSampleRow)
    (row : MempoolDelta) : Decidable (w.Counts window row) :=
  inferInstanceAs (Decidable (_ ∧ _))

/-- The row's window was not counted because the server started in it. -/
def Nulled (w : SamplerWorld) (row : MempoolDelta) : Prop :=
  ∃ window ∈ w.samples.consecutivePairs,
    InWindow window.1.sampledAt window.2.sampledAt row.createdAt ∧ window.2.addedTxs = none ∧
      w.serverStartedIn window.1.sampledAt window.2.sampledAt = true

instance (w : SamplerWorld) (row : MempoolDelta) : Decidable (w.Nulled row) :=
  inferInstanceAs (Decidable (∃ window ∈ w.samples.consecutivePairs, _))

end SamplerWorld

open SamplerWorld in
/-- In every run in which some flush that came through began less than `SAFETY_MARGIN` before the
clock of each sample, every row between the first cursor and the latest is counted by exactly
one sample, unless the server started in its window. -/
theorem deltas_counted_once {now : ℕ} {ledger : MempoolLedger} {db : Db} {epoch : OffsetDateTime}
    {interval : ℕ} {serverStarted : List OffsetDateTime} {ops : List SamplerOp} {w : SamplerWorld}
    (prompt : Along step Prompt (initial now ledger db epoch interval serverStarted) ops)
    (ran : run step (initial now ledger db epoch interval serverStarted) ops = some w) :
    ∀ row ∈ w.system.db.mempoolDeltas, ∀ first ∈ w.samples.head?, ∀ latest ∈ w.latestSampledAt,
      first.sampledAt < row.createdAt → row.createdAt ≤ latest → ¬ w.Nulled row →
      ∃! window, window ∈ w.samples.consecutivePairs ∧ w.Counts window row := by
  have inv : w.SamplerInv :=
    run_induction_along (motive := SamplerInv)
      (fun s op next inv prompt stepped => inv.step prompt stepped) .initial prompt ran
  intro row _ first head latest cursor after upTo counted
  rw [inv.latestSampledAt_eq] at cursor
  obtain ⟨last, final, rfl⟩ := Option.map_eq_some_iff.mp cursor
  obtain ⟨window, ⟨member, inside⟩, only⟩ :=
    existsUnique_window inv.increasing head final after upTo
  refine ⟨window, ⟨member, inside, ?_⟩, fun other found => only other ⟨found.1, found.2.1⟩⟩
  rcases forall_consecutivePairs inv.sampled window member with ⟨null, restarted⟩ | ⟨sampled, -⟩
  · exact absurd ⟨window, member, inside, by rw [null]; rfl, restarted⟩ counted
  · rw [sampled]
    rfl

/-! ### Two blocks in a row -/

/-- The clock and the hash order of the calls below. -/
def promptCall : Call := ⟨fun _ => 0, .sorted _⟩

def queueAdd : List SamplerOp := [.system (.produce (.assertPresent promptCall ["t"]))]

/-- A tick that writes one add. -/
def flushAdd : List SamplerOp :=
  [.system (.tick .tryLock), .system (.tick .checkHeld), .system (.tick (.beginFlush promptCall)),
    .system (.tick .proceed), .system (.tick .bailIf), .system (.tick .exec),
    .system (.tick .proceed), .system (.tick .bailIf), .system (.tick .exec),
    .system (.tick .proceed), .system (.tick .bailIf), .system (.tick .exec),
    .system (.tick .proceed), .system (.tick .bailIf), .system (.tick .commitDb),
    .system (.tick .commitBatch), .system (.tick .finish)]

/-- The first sample sets the cursor, six minutes before `t` is seen. -/
def setCursor : List SamplerOp := [.sample, .readCursor, .insert]

/-- A tick that finds nothing to write. -/
def emptyTick : List SamplerOp :=
  [.system (.tick .tryLock), .system (.tick .checkHeld), .system (.tick (.beginFlush promptCall))]

def sampleWindow : List SamplerOp := [.sample, .readCursor, .readRestarts, .countDeltas, .insert]

def seenAtStart : SamplerWorld := .initial 0 .default .empty 0 60 []

open SamplerWorld in
theorem deltas_counted_once_of_flushed :
    ∃ w, run step seenAtStart (setCursor ++ queueAdd ++ flushAdd ++
        [.system (.advance (350 * 10 ^ 9))] ++ emptyTick ++ [.system (.advance (50 * 10 ^ 9))] ++
          sampleWindow) = some w ∧
      w.system.db.mempoolDeltas = [⟨"t", .addMempool, 0⟩] ∧
      ∃! window, window ∈ w.samples.consecutivePairs ∧ w.Counts window ⟨"t", .addMempool, 0⟩ := by
  obtain ⟨w, ran⟩ : ∃ w, run step seenAtStart (setCursor ++ queueAdd ++ flushAdd ++
      [.system (.advance (350 * 10 ^ 9))] ++ emptyTick ++ [.system (.advance (50 * 10 ^ 9))] ++
        sampleWindow) = some w :=
    Option.isSome_iff_exists.mp (by decide)
  have counted := deltas_counted_once (by decide) ran
  obtain rfl : _ = w := Option.some.inj ran
  exact ⟨_, rfl, rfl, counted _ (.head _) _ rfl _ rfl (by decide) (by decide) (by decide)⟩

/-- Some time passes, and a tick finds the gate shut. -/
def gatedTick (elapsed : ℕ) : List SamplerOp :=
  [.system (.advance elapsed), .system (.tick .tryLock), .system (.tick .checkHeld)]

def gatedTicks (elapsed count : ℕ) : List SamplerOp :=
  (List.replicate count (gatedTick elapsed)).flatten

namespace SamplerWorld

/-- The state some time later. -/
def after (w : SamplerWorld) (elapsed : ℕ) : SamplerWorld :=
  { w with system.gate.now := w.system.gate.now + elapsed }

/-- A block has the gate since `start`, and no tick is under way. -/
structure Shut (w : SamplerWorld) (start : ℕ) : Prop where
  idle : w.system.tick = .idle
  unleased : w.system.gate.lease = .none
  shut : w.system.gate.gate = ⟨some start, false⟩
  held : ∃ granted, w.system.gate.holder = .holding start granted

theorem Shut.timely {w : SamplerWorld} {start : ℕ} (shut : w.Shut start)
    (inTime : w.system.gate.now < start + maxHold) : w.system.Timely := by
  obtain ⟨granted, held⟩ := shut.held
  intro other same
  obtain rfl : start = other := by simpa [held, Holder.start] using same
  exact inTime

theorem Shut.run_gatedTick {w : SamplerWorld} {start : ℕ} (shut : w.Shut start) {elapsed : ℕ}
    (inTime : w.system.gate.now + elapsed < start + maxHold) :
    run step w (gatedTick elapsed) = some (w.after elapsed) ∧
      Along step (fun w _ => w.system.Timely) w (gatedTick elapsed) := by
  have first := shut.timely (by omega)
  obtain ⟨⟨⟨now, gate, lease, holder⟩, ledger, db, tick, block⟩, epoch, interval, samples, started,
    pc, begun, flushed⟩ := w
  obtain ⟨idle, unleased, shut, granted, held⟩ := shut
  simp only at idle unleased shut held inTime
  subst idle unleased shut held
  have positive : 0 < maxHold := by decide
  have recent : now + elapsed - start < maxHold := by omega
  have later (gate : BlockGate) (lease : Lease) : System.Timely
      ⟨⟨now + elapsed, gate, lease, .holding start granted⟩, ledger, db, .idle, block⟩ := by
    intro other same
    obtain rfl : start = other := Option.some.inj same
    exact inTime
  constructor
  -- Within the hold the gate stays shut, so the tick looks once and does nothing.
  · simp [gatedTick, run, step, SystemOp.stamped, System.step, System.stepTick, GateState.step,
      BlockGate.isHeld, recent, GateState.unlock, after, moved]
  · exact .cons rfl first (.cons rfl (later _ _) ⟨later _ _, fun _ _ => trivial⟩)

/-- Nothing but the clock changes while a block has the gate in time. -/
theorem Shut.run_gatedTicks {w : SamplerWorld} {start : ℕ} (shut : w.Shut start)
    (elapsed count : ℕ) (inTime : w.system.gate.now + count * elapsed < start + maxHold) :
    run step w (gatedTicks elapsed count) = some (w.after (count * elapsed)) ∧
      Along step (fun w _ => w.system.Timely) w (gatedTicks elapsed count) := by
  induction count generalizing w with
  | zero => exact ⟨by simp [gatedTicks, run, after], trivial⟩
  | succ count ih =>
    rw [Nat.succ_mul] at inTime
    obtain ⟨once, timely⟩ := shut.run_gatedTick (by omega : _ + elapsed < _)
    have still : (w.after elapsed).Shut start := ⟨shut.idle, shut.unleased, shut.shut, shut.held⟩
    obtain ⟨rest, timelyAfter⟩ := ih still (by simp only [after]; omega)
    rw [gatedTicks, List.replicate_succ, List.flatten_cons, ← gatedTicks]
    constructor
    · rw [run_append, once, Option.bind_some, rest, Nat.succ_mul, Nat.add_comm (count * elapsed)]
      simp only [after, Nat.add_assoc]
    · refine timely.append fun mid ran => ?_
      obtain rfl : w.after elapsed = mid := Option.some.inj (once.symm.trans ran)
      exact timelyAfter

end SamplerWorld

/-- A block is granted the gate. -/
def grantGate (hash : String) : List SamplerOp :=
  [.system (.block (.start hash)), .system (.block .lock), .system (.block .grant)]

/-- It is applied, and lets go of the gate. -/
def applyGranted (block : GetBlockModel) : List SamplerOp :=
  [.system (.block (.fetched block)), .system (.block (.insert 0)),
    .system (.block (.assertAbsent promptCall)), .system (.block .finish)]

/-- `t` is seen, and a first block is granted the gate. -/
def firstGrant : List SamplerOp := setCursor ++ queueAdd ++ grantGate "g"

/-- It is applied, and the next one follows. -/
def secondGrant : List SamplerOp := applyGranted ⟨"g", 0, 0, []⟩ ++ grantGate "h"

/-- The window of `t` is counted before the second block is through. -/
def countThenFlush : List SamplerOp := sampleWindow ++ applyGranted ⟨"h", 1, 0, []⟩ ++ flushAdd

/-- Two blocks of 200 seconds each, one right after the other. -/
def consecutiveBlocks : List SamplerOp :=
  firstGrant ++ (gatedTicks 1000000000 200 ++ (secondGrant ++ (gatedTicks 1000000000 200 ++
    countThenFlush)))

open SamplerWorld in
/-- No hold reaches `MAX_HOLD` and nothing fails, and `t` is never counted. -/
theorem consecutive_blocks_lose_a_delta :
    ∃ w, run step seenAtStart consecutiveBlocks = some w ∧
      Along step (fun w _ => w.system.Timely) seenAtStart consecutiveBlocks ∧
      w.system.db.mempoolDeltas = [⟨"t", .addMempool, 0⟩] ∧
      w.samples.map (·.sampledAt) = [-360000000, 40000000] ∧
      ¬ w.Nulled ⟨"t", .addMempool, 0⟩ ∧
      ¬ ∃ window ∈ w.samples.consecutivePairs, w.Counts window ⟨"t", .addMempool, 0⟩ := by
  let first := (run step seenAtStart firstGrant).get (by decide +kernel)
  have ran₁ : run step seenAtStart firstGrant = some first := (Option.some_get _).symm
  have shut₁ : first.Shut 0 := ⟨rfl, rfl, by decide +kernel, 0, by decide +kernel⟩
  obtain ⟨held₁, timely₁⟩ := shut₁.run_gatedTicks 1000000000 200 (by decide +kernel)
  let second := (run step (first.after (200 * 1000000000)) secondGrant).get (by decide +kernel)
  have ran₂ : run step (first.after (200 * 1000000000)) secondGrant = some second :=
    (Option.some_get _).symm
  have shut₂ : second.Shut 200000000000 :=
    ⟨rfl, rfl, by decide +kernel, 200000000000, by decide +kernel⟩
  obtain ⟨held₂, timely₂⟩ := shut₂.run_gatedTicks 1000000000 200 (by decide +kernel)
  let last := (run step (second.after (200 * 1000000000)) countThenFlush).get (by decide +kernel)
  have ran₃ : run step (second.after (200 * 1000000000)) countThenFlush = some last :=
    (Option.some_get _).symm
  refine ⟨last, ?_, ?_, ?_⟩
  · rw [consecutiveBlocks, run_append, ran₁, Option.bind_some, run_append, held₁, Option.bind_some,
      run_append, ran₂, Option.bind_some, run_append, held₂, Option.bind_some, ran₃]
  -- The five parts of the run, each timely on its own.
  · refine .append (by decide +kernel) fun w ran => ?_
    obtain rfl : first = w := Option.some.inj (ran₁.symm.trans ran)
    refine timely₁.append fun w ran => ?_
    obtain rfl : first.after (200 * 1000000000) = w := Option.some.inj (held₁.symm.trans ran)
    refine .append (by decide +kernel) fun w ran => ?_
    obtain rfl : second = w := Option.some.inj (ran₂.symm.trans ran)
    refine timely₂.append fun w ran => ?_
    obtain rfl : second.after (200 * 1000000000) = w := Option.some.inj (held₂.symm.trans ran)
    decide +kernel
  · exact ⟨by decide +kernel, by decide +kernel, by decide +kernel, by decide +kernel⟩

end MempoolObserver
