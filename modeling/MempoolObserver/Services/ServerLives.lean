import MempoolObserver.Library.Runs
import MempoolObserver.Services.ClusterStream
import MempoolObserver.Services.Resolution
import MempoolObserver.Web.TimeCharts

/-!
# The lives of the server on a chart

A process of the server records its start, samples the gauges while it is up, and once a signal
has come records that it stops; a crash records nothing. The signal leaves no trace of its own:
the row says when it was written, and the sampler may still take a sample before that. A chart
reads the samples and the events of its range and draws lines between the samples.

Across any number of lives, a line joins two neighbouring samples exactly when no stop was
recorded between them, the first was not taken after a stop the chart knows of, and they are
close enough in time. A process that crashed is told from one that ran on only by the gap.

The database stamps the events and the process its samples; both read one clock.

## Main definitions

* `ServerWorld.step` — the lives of the server, one process after the other
* `ServerWorld.gaugeChart` — the chart of a range

## Main results

* `line_drawn_iff`
-/

namespace MempoolObserver

open Runs Neighbours Grouping

structure SystemEventRow where
  id : ℕ
  kind : SystemEventKind
  createdAt : OffsetDateTime
  deriving DecidableEq

/-- A sample, with the stops recorded before it, and when the process that took it had recorded
its own. -/
structure GaugeSample where
  row : MempoolGaugeSampleRow
  stops : ℕ
  stopped : Option OffsetDateTime
  deriving DecidableEq

/-- The process: whether it samples yet, whether it was told to end, and when it recorded that. -/
inductive ServerPhase where
  | down
  | up (ready signalled : Bool) (stopped : Option OffsetDateTime)
  deriving DecidableEq

structure ServerWorld where
  clock : OffsetDateTime
  phase : ServerPhase
  /-- The stops recorded. -/
  stops : ℕ
  events : List SystemEventRow
  samples : List GaugeSample
  deriving DecidableEq

inductive ServerAct where
  /-- The listener is bound; the event may fail to be written. -/
  | start (recorded : Bool)
  /-- An event of another kind. -/
  | log (kind : SystemEventKind)
  /-- Bootstrap ends, and the sampler starts. -/
  | ready
  | sample (clusterCount clusteredTxCount mempoolTxCount : Int32) (totalWeight totalFee : Int64)
    (inserted : Bool)
  | signal
  /-- `record_server_stopped`, some time after the signal. -/
  | stop (recorded : Bool)
  /-- The drains end. -/
  | exit
  | crash

def ServerAct.recorded : ServerAct → Bool
  | .start recorded => recorded
  | .stop recorded => recorded
  | _ => true

/-- The acts that add a row. -/
def ServerAct.writes : ServerAct → Bool
  | .start _ | .log _ | .sample .. | .stop _ => true
  | .ready | .signal | .exit | .crash => false

/-- An act, and the microseconds since the one before. -/
structure ServerOp where
  elapsed : ℕ
  act : ServerAct

namespace ServerWorld

def initial (clock : OffsetDateTime) : ServerWorld := ⟨clock, .down, 0, [], []⟩

/-- `SystemEventService::record`. -/
def record (w : ServerWorld) (kind : SystemEventKind) (recorded : Bool) : ServerWorld :=
  if recorded then { w with events := w.events ++ [⟨w.events.length, kind, w.clock⟩] } else w

def stepAct (w : ServerWorld) : ServerAct → Option ServerWorld
  | .start recorded =>
    match w.phase with
    | .down => some ({ w with phase := .up false false none }.record .serverStarted recorded)
    | .up .. => none
  | .log kind =>
    match w.phase with
    | .down => none
    | .up .. => if kind ∈ lifecycleKinds then none else some (w.record kind true)
  | .ready =>
    match w.phase with
    | .down => none
    | .up _ signalled stopped => some { w with phase := .up true signalled stopped }
  | .sample clusterCount clusteredTxCount mempoolTxCount totalWeight totalFee inserted =>
    match w.phase with
    | .up true _ stopped =>
      let row := ⟨w.clock, clusterCount, clusteredTxCount, mempoolTxCount, totalWeight, totalFee⟩
      some (if inserted then { w with samples := w.samples ++ [⟨row, w.stops, stopped⟩] } else w)
    | _ => none
  | .signal =>
    match w.phase with
    | .up ready false stopped => some { w with phase := .up ready true stopped }
    | _ => none
  | .stop recorded =>
    match w.phase with
    | .up ready true none =>
      some ({ w with phase := .up ready true (some w.clock), stops := w.stops + 1 }.record
        .serverStopped recorded)
    | _ => none
  | .exit =>
    match w.phase with
    | .up _ _ (some _) => some { w with phase := .down }
    | _ => none
  | .crash =>
    match w.phase with
    | .down => none
    | .up .. => some { w with phase := .down }

def step (w : ServerWorld) (op : ServerOp) : Option ServerWorld :=
  { w with clock := w.clock + op.elapsed }.stepAct op.act

/-- The times that rows carry. -/
def stamps (w : ServerWorld) : List OffsetDateTime :=
  w.events.map SystemEventRow.createdAt ++ w.samples.map fun sample => sample.row.sampledAt

/-- A new row has a time later than all others: the page reads times in milliseconds, and no two
rows share one. -/
def Fresh (w : ServerWorld) : Prop := ∀ time ∈ w.stamps, time + 1000 ≤ w.clock

/-- The events of starts and stops are written, and rows lie a millisecond apart. -/
def Recorded (w : ServerWorld) (op : ServerOp) : Prop :=
  op.act.recorded = true ∧
    (op.act.writes = true → Fresh { w with clock := w.clock + op.elapsed })

instance (w : ServerWorld) (op : ServerOp) : Decidable (w.Recorded op) :=
  inferInstanceAs (Decidable (_ ∧ (_ → ∀ time ∈ _, _)))

end ServerWorld

/-! ### The chart -/

inductive GaugeMetric where
  | clusterCount
  | clusteredTxCount
  | mempoolTxCount
  | totalVsize
  | totalFee
  deriving DecidableEq

def metricValue (metric : GaugeMetric) (row : MempoolGaugeSampleRow) : Int64 :=
  match metric with
  | .clusterCount => row.clusterCount.toInt64
  | .clusteredTxCount => row.clusteredTxCount.toInt64
  | .mempoolTxCount => row.mempoolTxCount.toInt64
  | .totalVsize => vsizeFromWeight row.totalWeight
  | .totalFee => row.totalFee

/-- `dayjs(time).valueOf()`: whole milliseconds. -/
def msOf (time : OffsetDateTime) : ℚ := (time / 1000 : ℤ)

/-- A point of the series as the page reads it. -/
def gaugePoint (metric : GaugeMetric) (row : MempoolGaugeSampleRow) : GaugePoint :=
  ⟨msOf row.sampledAt, (metricValue metric row).toInt⟩

structure GaugeSeries where
  metric : GaugeMetric
  resolutionSecs : ℤ
  points : List GaugePoint
  deriving DecidableEq

namespace ServerWorld

def metricSeries (w : ServerWorld) (metric : GaugeMetric) (now : OffsetDateTime)
    (fromAt toAt : Option OffsetDateTime) : Except ApiError GaugeSeries :=
  match GaugeSampleService.fetchRange now fromAt toAt (w.samples.map GaugeSample.row) with
  | .error e => .error e
  | .ok (resolutionSecs, rows) => .ok ⟨metric, resolutionSecs, rows.map (gaugePoint metric)⟩

/-- `SystemEventRepository::list`, in the order of the ids. -/
def listEvents (w : ServerWorld) (fromAt toAt : OffsetDateTime) : List SystemEventRow :=
  w.events.filter fun e => fromAt ≤ e.createdAt ∧ e.createdAt ≤ toAt

def systemEvents (w : ServerWorld) (fromAt toAt : OffsetDateTime) : List SystemEvent :=
  (w.listEvents fromAt toAt).map fun e => ⟨e.id, e.kind, msOf e.createdAt⟩

/-- `MetricLineChart` of a series and the events of the same range. -/
def gaugeChart (w : ServerWorld) (scaleTime scaleNice : ℚ × ℚ → ℚ × ℚ → ℚ → ℚ)
    (series : GaugeSeries) (fromAt toAt : OffsetDateTime) (width height : ℚ) : GaugeLayout :=
  gaugeLayout scaleTime scaleNice
    { points := series.points
      resolutionSecs := series.resolutionSecs
      events := w.systemEvents fromAt toAt
      domain := ⟨msOf fromAt, msOf toAt⟩ } width height

end ServerWorld

/-! ### What the events say -/

def SystemEventRow.isStop (e : SystemEventRow) : Bool := e.kind = .serverStopped

/-- The events up to a time. -/
def upTo (time : OffsetDateTime) (events : List SystemEventRow) : List SystemEventRow :=
  events.filter fun e => e.createdAt ≤ time

/-- A stop at that time which no start has followed yet. -/
def OpenStop (events : List SystemEventRow) (time : OffsetDateTime) : Prop :=
  (∃ stop ∈ events, stop.kind = .serverStopped ∧ stop.createdAt = time) ∧
    ∀ start ∈ events, start.kind = .serverStarted → start.createdAt ≤ time

namespace ServerWorld

/-- The times of rows lie a millisecond apart, and each sample knows what the events up to it
say. -/
structure RowInv (w : ServerWorld) : Prop where
  past : ∀ time ∈ w.stamps, time ≤ w.clock
  spaced : ∀ time ∈ w.stamps, ∀ later ∈ w.stamps, time < later → time + 1000 ≤ later
  nodup : w.stamps.Nodup
  counted : ∀ sample ∈ w.samples,
    sample.stops = (upTo sample.row.sampledAt w.events).countP SystemEventRow.isStop
  ending : ∀ sample ∈ w.samples, ∀ time,
    sample.stopped = some time ↔ OpenStop (upTo sample.row.sampledAt w.events) time

/-- The process knows what the events say. -/
structure LifeInv (w : ServerWorld) : Prop where
  stops : w.stops = w.events.countP SystemEventRow.isStop
  stopped : ∀ ready signalled stopped, w.phase = .up ready signalled stopped →
    ∀ time, stopped = some time ↔ OpenStop w.events time

end ServerWorld

section Events

variable {events : List SystemEventRow} {e : SystemEventRow} {time : OffsetDateTime}

theorem upTo_concat_of_later (later : time < e.createdAt) :
    upTo time (events ++ [e]) = upTo time events := by
  rw [upTo, List.filter_append]
  simp [upTo, later]

theorem upTo_eq_self (past : ∀ e ∈ events, e.createdAt ≤ time) : upTo time events = events := by
  rw [upTo, List.filter_eq_self]
  simpa using past

theorem openStop_concat_other (kind : e.kind ∉ lifecycleKinds) :
    OpenStop (events ++ [e]) time ↔ OpenStop events time := by
  obtain ⟨started, stopped⟩ : e.kind ≠ .serverStarted ∧ e.kind ≠ .serverStopped := by
    simpa [lifecycleKinds] using kind
  simp [OpenStop, or_and_right, exists_or, started, stopped, forall_and, or_imp]

/-- A start ends whatever was open. -/
theorem not_openStop_concat_start (kind : e.kind = .serverStarted)
    (later : ∀ old ∈ events, old.createdAt < e.createdAt) :
    ¬ OpenStop (events ++ [e]) time := by
  rintro ⟨⟨stop, listed, stopped, rfl⟩, starts⟩
  have followed := starts e (List.mem_append_right _ (List.mem_singleton_self e)) kind
  rcases List.mem_append.mp listed with old | new
  · exact absurd followed (not_le.mpr (later stop old))
  · rw [List.mem_singleton.mp new, kind] at stopped
    cases stopped

/-- The first stop after all starts is the only open one. -/
theorem openStop_concat_stop (kind : e.kind = .serverStopped) (closed : ∀ time, ¬ OpenStop events time)
    (later : ∀ old ∈ events, old.createdAt < e.createdAt) :
    OpenStop (events ++ [e]) time ↔ e.createdAt = time := by
  have starts (start : SystemEventRow) (listed : start ∈ events ++ [e])
      (started : start.kind = .serverStarted) : start ∈ events := by
    rcases List.mem_append.mp listed with old | new
    · exact old
    · rw [List.mem_singleton.mp new, kind] at started
      cases started
  constructor
  · rintro ⟨⟨stop, listed, stopped, rfl⟩, followed⟩
    rcases List.mem_append.mp listed with old | new
    · refine absurd ⟨⟨stop, old, stopped, rfl⟩, fun start member => ?_⟩ (closed stop.createdAt)
      exact followed start (List.mem_append_left _ member)
    · rw [List.mem_singleton.mp new]
  · rintro rfl
    refine ⟨⟨e, List.mem_append_right _ (List.mem_singleton_self e), kind, rfl⟩, ?_⟩
    exact fun start listed started => (later start (starts start listed started)).le

end Events

namespace ServerWorld

section Steps

variable {w next : ServerWorld}

theorem Fresh.lt (fresh : w.Fresh) {time : OffsetDateTime} (listed : time ∈ w.stamps) :
    time < w.clock :=
  (lt_add_of_pos_right time (by decide)).trans_le (fresh time listed)

theorem createdAt_mem_stamps {e : SystemEventRow} (listed : e ∈ w.events) :
    e.createdAt ∈ w.stamps :=
  List.mem_append_left _ (List.mem_map_of_mem listed)

theorem sampledAt_mem_stamps {sample : GaugeSample} (listed : sample ∈ w.samples) :
    sample.row.sampledAt ∈ w.stamps :=
  List.mem_append_right _ (List.mem_map.mpr ⟨sample, listed, rfl⟩)

/-- A row with the time of the clock is added. -/
theorem RowInv.stamp (inv : w.RowInv) (fresh : w.Fresh)
    (stamped : next.stamps.Perm (w.clock :: w.stamps)) (clock : next.clock = w.clock)
    (counted : ∀ sample ∈ next.samples,
      sample.stops = (upTo sample.row.sampledAt next.events).countP SystemEventRow.isStop)
    (ending : ∀ sample ∈ next.samples, ∀ time,
      sample.stopped = some time ↔ OpenStop (upTo sample.row.sampledAt next.events) time) :
    next.RowInv where
  past time listed := by
    rw [clock]
    rcases List.mem_cons.mp (stamped.mem_iff.mp listed) with rfl | old
    · exact le_rfl
    · exact inv.past time old
  spaced time listed later listedLater before := by
    rcases List.mem_cons.mp (stamped.mem_iff.mp listed) with rfl | old
    · rcases List.mem_cons.mp (stamped.mem_iff.mp listedLater) with rfl | oldLater
      · exact absurd before (lt_irrefl _)
      · exact absurd before (inv.past later oldLater).not_gt
    · rcases List.mem_cons.mp (stamped.mem_iff.mp listedLater) with rfl | oldLater
      · exact fresh time old
      · exact inv.spaced time old later oldLater before
  nodup := by
    rw [stamped.nodup_iff, List.nodup_cons]
    exact ⟨fun listed => (fresh.lt listed).false, inv.nodup⟩
  counted := counted
  ending := ending

theorem RowInv.record (inv : w.RowInv) (fresh : w.Fresh) (kind : SystemEventKind)
    (recorded : Bool) : (w.record kind recorded).RowInv := by
  cases recorded with
  | false => exact inv
  | true =>
    have unseen (sample : GaugeSample) (listed : sample ∈ w.samples) :
        upTo sample.row.sampledAt (w.events ++ [⟨w.events.length, kind, w.clock⟩]) =
          upTo sample.row.sampledAt w.events :=
      upTo_concat_of_later (fresh.lt (sampledAt_mem_stamps listed))
    refine inv.stamp fresh ?_ rfl (fun sample listed => ?_) fun sample listed time => ?_
    · simp [ServerWorld.record, stamps, List.perm_middle]
    · exact (inv.counted sample listed).trans
        (congrArg (List.countP SystemEventRow.isStop) (unseen sample listed).symm)
    · exact (inv.ending sample listed time).trans (iff_of_eq
        (congrArg (OpenStop · time) (unseen sample listed).symm))

/-- A sample is taken while the process is up. -/
theorem RowInv.sample (inv : w.RowInv) (life : w.LifeInv) (fresh : w.Fresh)
    {signalled : Bool} {stopped : Option OffsetDateTime}
    (up : w.phase = .up true signalled stopped)
    {row : MempoolGaugeSampleRow} (now : row.sampledAt = w.clock) :
    RowInv { w with samples := w.samples ++ [⟨row, w.stops, stopped⟩] } := by
  have all : upTo row.sampledAt w.events = w.events := by
    rw [now]
    exact upTo_eq_self fun e listed => inv.past _ (createdAt_mem_stamps listed)
  refine inv.stamp fresh ?_ rfl (fun sample listed => ?_) fun sample listed time => ?_
  · rw [stamps, List.map_append, ← List.append_assoc, ← now]
    exact List.perm_append_singleton _ _
  · rcases List.mem_append.mp listed with old | new
    · exact inv.counted sample old
    · rw [List.mem_singleton.mp new]
      dsimp only
      rw [all, life.stops]
  · rcases List.mem_append.mp listed with old | new
    · exact inv.ending sample old time
    · rw [List.mem_singleton.mp new]
      dsimp only
      rw [all]
      exact life.stopped true signalled stopped up time

/-- The rows do not depend on the process. -/
theorem RowInv.relive (inv : w.RowInv) (phase : ServerPhase) (stops : ℕ) :
    RowInv { w with phase := phase, stops := stops } :=
  ⟨inv.past, inv.spaced, inv.nodup, inv.counted, inv.ending⟩

theorem LifeInv.start (life : w.LifeInv) (fresh : w.Fresh) :
    LifeInv ({ w with phase := .up false false none }.record .serverStarted true) where
  stops := by
    rw [ServerWorld.record, if_pos rfl, List.countP_append]
    exact life.stops
  stopped ready signalled stopped up time := by
    obtain ⟨rfl, rfl, rfl⟩ := ServerPhase.up.inj up
    refine iff_of_false (by simp) (not_openStop_concat_start rfl fun e listed => ?_)
    exact fresh.lt (createdAt_mem_stamps listed)

theorem LifeInv.log (life : w.LifeInv) {kind : SystemEventKind} (other : kind ∉ lifecycleKinds) :
    LifeInv (w.record kind true) where
  stops := by
    have apart : kind ≠ .serverStopped := by
      rintro rfl
      exact other (by decide)
    rw [ServerWorld.record, if_pos rfl, List.countP_append]
    simp [SystemEventRow.isStop, apart, life.stops]
  stopped ready signalled stopped up time := by
    rw [life.stopped ready signalled stopped up time]
    exact (openStop_concat_other other).symm

/-- A process goes on with what it has recorded. -/
theorem LifeInv.goOn (life : w.LifeInv) {ready signalled ready' signalled' : Bool}
    {stopped : Option OffsetDateTime} (up : w.phase = .up ready signalled stopped) :
    LifeInv { w with phase := .up ready' signalled' stopped } where
  stops := life.stops
  stopped _ _ _ again := by
    obtain ⟨-, -, rfl⟩ := ServerPhase.up.inj again
    exact life.stopped ready signalled stopped up

theorem LifeInv.stop (life : w.LifeInv) (fresh : w.Fresh) {ready : Bool}
    (up : w.phase = .up ready true none) :
    LifeInv ({ w with phase := .up ready true (some w.clock), stops := w.stops + 1 }.record
      .serverStopped true) where
  stops := by
    rw [ServerWorld.record, if_pos rfl, List.countP_append, ← life.stops]
    rfl
  stopped ready' signalled' stopped' up' time := by
    obtain ⟨rfl, rfl, rfl⟩ := ServerPhase.up.inj up'
    have closed (time : OffsetDateTime) : ¬ OpenStop w.events time := by
      rw [← life.stopped ready true none up time]
      simp
    rw [Option.some.injEq]
    exact (openStop_concat_stop (e := ⟨w.events.length, .serverStopped, w.clock⟩) rfl closed
      fun _ listed => fresh.lt (createdAt_mem_stamps listed)).symm

theorem LifeInv.down (life : w.LifeInv) : LifeInv { w with phase := .down } where
  stops := life.stops
  stopped _ _ _ up := by cases up

theorem inv_stepAct {act : ServerAct} (inv : w.RowInv) (life : w.LifeInv)
    (fresh : act.writes = true → w.Fresh) (recorded : act.recorded = true)
    (stepped : w.stepAct act = some next) : next.RowInv ∧ next.LifeInv := by
  cases act with
  | start recorded' =>
    obtain rfl : recorded' = true := recorded
    rw [stepAct] at stepped
    split at stepped
    · cases stepped
      exact ⟨(inv.relive (.up false false none) w.stops).record (fresh rfl) _ _,
        life.start (fresh rfl)⟩
    · cases stepped
  | log kind =>
    rw [stepAct] at stepped
    split at stepped
    · cases stepped
    · split_ifs at stepped with other
      cases stepped
      exact ⟨inv.record (fresh rfl) kind true, life.log other⟩
  | ready =>
    rw [stepAct] at stepped
    split at stepped
    · cases stepped
    · next up =>
      cases stepped
      exact ⟨inv.relive _ _, life.goOn up⟩
  | sample a b c d e inserted =>
    rw [stepAct] at stepped
    split at stepped
    · next signalled stopped up =>
      cases stepped
      cases inserted with
      | false => exact ⟨inv, life⟩
      | true => exact ⟨inv.sample life (fresh rfl) up rfl, life.stops, life.stopped⟩
    · cases stepped
  | signal =>
    rw [stepAct] at stepped
    split at stepped
    · next up =>
      cases stepped
      exact ⟨inv.relive _ _, life.goOn up⟩
    · cases stepped
  | stop recorded' =>
    obtain rfl : recorded' = true := recorded
    rw [stepAct] at stepped
    split at stepped
    · next ready up =>
      cases stepped
      exact ⟨(inv.relive (.up ready true (some w.clock)) (w.stops + 1)).record (fresh rfl) _ _,
        life.stop (fresh rfl) up⟩
    · cases stepped
  | exit =>
    rw [stepAct] at stepped
    split at stepped
    · cases stepped
      exact ⟨inv.relive _ _, life.down⟩
    · cases stepped
  | crash =>
    rw [stepAct] at stepped
    split at stepped
    · cases stepped
    · cases stepped
      exact ⟨inv.relive _ _, life.down⟩

theorem inv_step {op : ServerOp} (inv : w.RowInv ∧ w.LifeInv) (recorded : w.Recorded op)
    (stepped : w.step op = some next) : next.RowInv ∧ next.LifeInv := by
  let now : ServerWorld := { w with clock := w.clock + op.elapsed }
  have passed : w.clock ≤ now.clock := le_add_of_nonneg_right (Int.natCast_nonneg _)
  have waited : now.RowInv := ⟨fun time listed => (inv.1.past time listed).trans passed,
    inv.1.spaced, inv.1.nodup, inv.1.counted, inv.1.ending⟩
  exact inv_stepAct waited ⟨inv.2.stops, inv.2.stopped⟩ recorded.2 recorded.1 stepped

theorem inv_initial (clock : OffsetDateTime) :
    (initial clock).RowInv ∧ (initial clock).LifeInv := by
  refine ⟨⟨?_, ?_, List.nodup_nil, ?_, ?_⟩, ⟨rfl, ?_⟩⟩
  · intro time listed
    cases listed
  · intro time listed
    cases listed
  · intro sample listed
    cases listed
  · intro sample listed
    cases listed
  · intro ready signalled stopped up
    cases up

end Steps

end ServerWorld

/-! ### What the chart makes of them -/

/-- Some time lies after `ta` and before all later times of a list. -/
theorem exists_before_later {ta : ℚ} {times : List ℚ} (later : ∀ time ∈ times, ta < time) :
    ∃ t, ta < t ∧ ∀ time ∈ times, t < time := by
  induction times with
  | nil => exact ⟨ta + 1, lt_add_one ta, by simp⟩
  | cons first times ih =>
    obtain ⟨t, after, before⟩ := ih fun time listed => later time (List.mem_cons_of_mem _ listed)
    obtain ⟨u, lower, upper⟩ := exists_between (lt_min after (later first List.mem_cons_self))
    rw [lt_min_iff] at upper
    refine ⟨u, lower, fun time listed => ?_⟩
    rcases List.mem_cons.mp listed with rfl | old
    · exact upper.2
    · exact upper.1.trans (before time old)

/-- A downtime meets an open interval if it begins there, or had begun and not ended before. -/
theorem exists_down_iff {events : List SystemEvent} {ta tb domainTo : ℚ} (before : ta < tb)
    (within : tb ≤ domainTo) :
    (∃ t ∈ Set.Ioo ta tb, Down events domainTo t) ↔
      (∃ stop ∈ events, stop.kind = .serverStopped ∧ ta < stop.createdAt ∧ stop.createdAt < tb) ∨
        ∃ stop ∈ events, stop.kind = .serverStopped ∧ stop.createdAt ≤ ta ∧
          ∀ start ∈ events, start.kind = .serverStarted →
            ¬ (stop.createdAt < start.createdAt ∧ start.createdAt ≤ ta) := by
  constructor
  · rintro ⟨t, ⟨after, early⟩, stop, listed, stopped, begun, down, -⟩
    by_cases inside : ta < stop.createdAt
    · exact .inl ⟨stop, listed, stopped, inside, begun.trans_lt early⟩
    · refine .inr ⟨stop, listed, stopped, not_lt.mp inside, fun start member started ended => ?_⟩
      exact down start member started ⟨ended.1, ended.2.trans after.le⟩
  · rintro (⟨stop, listed, stopped, inside, early⟩ | ⟨stop, listed, stopped, begun, down⟩)
    · refine ⟨stop.createdAt, ⟨inside, early⟩, stop, listed, stopped, le_rfl, ?_, fun _ => ?_⟩
      · exact fun start _ _ ended => (ended.1.trans_le ended.2).false
      · exact early.trans_le within
    · have future : ∀ time ∈ tb :: (events.map SystemEvent.createdAt).filter (ta < ·),
          ta < time := by
        intro time listed
        rcases List.mem_cons.mp listed with rfl | later
        · exact before
        · simpa using (List.mem_filter.mp later).2
      obtain ⟨t, after, next⟩ := exists_before_later future
      have early := next tb List.mem_cons_self
      refine ⟨t, ⟨after, early⟩, stop, listed, stopped, begun.trans after.le, ?_, fun _ => ?_⟩
      · intro start member started ended
        refine down start member started ⟨ended.1, ?_⟩
        by_contra later
        refine (next start.createdAt ?_).not_ge ended.2
        refine List.mem_cons_of_mem _ (List.mem_filter.mpr ⟨List.mem_map_of_mem member, ?_⟩)
        simpa using later
      · exact early.trans_le within

theorem msOf_mono {time later : OffsetDateTime} (order : time ≤ later) :
    msOf time ≤ msOf later :=
  Int.cast_le.mpr (Int.ediv_le_ediv (by decide) order)

theorem msOf_lt {time later : OffsetDateTime} (apart : time + 1000 ≤ later) :
    msOf time < msOf later := by
  have shifted : (time + 1 * 1000) / 1000 = time / 1000 + 1 :=
    Int.add_mul_ediv_right time 1 (by decide)
  have order : (time + 1000) / 1000 ≤ later / 1000 := Int.ediv_le_ediv (by decide) apart
  exact Int.cast_lt.mpr ((Int.lt_add_one_of_le le_rfl).trans_le (shifted ▸ order))

namespace ServerWorld.RowInv

variable {w : ServerWorld} {time later : OffsetDateTime}

/-- The page can tell the times of the rows apart. -/
theorem msOf_lt_iff (inv : w.RowInv) (listed : time ∈ w.stamps) (listedLater : later ∈ w.stamps) :
    msOf time < msOf later ↔ time < later := by
  constructor
  · intro before
    by_contra order
    exact (msOf_mono (not_lt.mp order)).not_gt before
  · exact fun before => msOf_lt (inv.spaced time listed later listedLater before)

theorem msOf_le_iff (inv : w.RowInv) (listed : time ∈ w.stamps) (listedLater : later ∈ w.stamps) :
    msOf time ≤ msOf later ↔ time ≤ later := by
  rw [← not_lt, inv.msOf_lt_iff listedLater listed, not_lt]

theorem msOf_inj (inv : w.RowInv) (listed : time ∈ w.stamps) (listedLater : later ∈ w.stamps)
    (same : msOf time = msOf later) : time = later :=
  le_antisymm ((inv.msOf_le_iff listed listedLater).mp same.le)
    ((inv.msOf_le_iff listedLater listed).mp same.ge)

end ServerWorld.RowInv

/-! ### The rows of a range -/

/-- A range has rows of the table that lie in it, at ascending times. -/
theorem GaugeSampleRepository.range_spec {rows out : List MempoolGaugeSampleRow}
    {fromAt toAt : OffsetDateTime} {res : ℤ}
    (distinct : (rows.map MempoolGaugeSampleRow.sampledAt).Nodup)
    (ranged : GaugeSampleRepository.range fromAt toAt res rows = some out) :
    (∀ row ∈ out, row ∈ rows ∧ fromAt ≤ row.sampledAt ∧ row.sampledAt ≤ toAt) ∧
      out.Pairwise fun row later => row.sampledAt < later.sampledAt := by
  let above : MempoolGaugeSampleRow → MempoolGaugeSampleRow → Prop :=
    fun row later => row.sampledAt ≤ later.sampledAt
  have : Std.Total above := ⟨fun _ _ => le_total _ _⟩
  have : IsTrans MempoolGaugeSampleRow above := ⟨fun _ _ _ lower upper => le_trans lower upper⟩
  -- what is sorted has ascending times, if no two of them are the same
  have sorts (list : List MempoolGaugeSampleRow)
      (apart : list.Pairwise fun row other => row.sampledAt ≠ other.sampledAt) :
      (list.insertionSort above).Pairwise fun row later => row.sampledAt < later.sampledAt := by
    have symmetric := apart.perm (List.perm_insertionSort above list).symm Ne.symm
    exact (List.pairwise_insertionSort above list).imp₂
      (fun _ _ order distinct => lt_of_le_of_ne order distinct) symmetric
  have native (row : MempoolGaugeSampleRow)
      (listed : row ∈ rangeNative MempoolGaugeSampleRow.sampledAt fromAt toAt rows) :
      row ∈ rows ∧ fromAt ≤ row.sampledAt ∧ row.sampledAt ≤ toAt :=
    mem_sampledIn.mp ((List.mem_insertionSort above).mp listed)
  rw [GaugeSampleRepository.range] at ranged
  split_ifs at ranged with whole
  · cases ranged
    have apart : rows.Pairwise fun row other => row.sampledAt ≠ other.sampledAt :=
      List.pairwise_map.mp distinct
    exact ⟨native, sorts _ (apart.sublist List.filter_sublist)⟩
  · cases ranged
    constructor
    · intro row listed
      obtain ⟨k, -, last⟩ := List.mem_filterMap.mp ((List.mem_insertionSort above).mp listed)
      exact native row (mem_group.mp (List.mem_of_getLast? last)).1
    · refine sorts _ (List.pairwise_filterMap.mpr ((nodup_keys _ _).imp ?_))
      intro k other apart row last row' last' same
      have key := (mem_group.mp (List.mem_of_getLast? last)).2
      have key' := (mem_group.mp (List.mem_of_getLast? last')).2
      rw [same] at key
      exact apart (key.symm.trans key')

/-- The stops up to a time and those after it, up to a later one. -/
theorem countP_upTo {time later : OffsetDateTime} (order : time ≤ later)
    (events : List SystemEventRow) :
    (upTo later events).countP SystemEventRow.isStop =
      (upTo time events).countP SystemEventRow.isStop +
        events.countP fun e => e.isStop && (time < e.createdAt && e.createdAt ≤ later) := by
  induction events with
  | nil => rfl
  | cons e events ih =>
    rw [upTo, upTo] at ih ⊢
    rw [List.countP_cons]
    by_cases early : e.createdAt ≤ time
    · have within := early.trans order
      simp [early, within, early.not_gt, ih, List.countP_cons]
      omega
    · by_cases within : e.createdAt ≤ later
      · simp [early, within, not_le.mp early, ih, List.countP_cons]
        omega
      · simp [early, within, ih]

namespace ServerWorld

variable {w : ServerWorld} {first second : GaugeSample} {fromAt toAt : OffsetDateTime}

theorem RowInv.stops_ne_iff (inv : w.RowInv) (firstIn : first ∈ w.samples)
    (secondIn : second ∈ w.samples) (order : first.row.sampledAt ≤ second.row.sampledAt) :
    first.stops ≠ second.stops ↔ ∃ stop ∈ w.events, stop.kind = .serverStopped ∧
      first.row.sampledAt < stop.createdAt ∧ stop.createdAt ≤ second.row.sampledAt := by
  have split := countP_upTo order w.events
  rw [← inv.counted first firstIn, ← inv.counted second secondIn] at split
  have positive : first.stops ≠ second.stops ↔ 0 < w.events.countP fun e =>
      e.isStop && (first.row.sampledAt < e.createdAt && e.createdAt ≤ second.row.sampledAt) := by
    omega
  rw [positive, List.countP_pos_iff]
  simp [SystemEventRow.isStop]

/-- No event shares its time with a sample. -/
theorem RowInv.createdAt_ne (inv : w.RowInv) {e : SystemEventRow} (listed : e ∈ w.events)
    (taken : first ∈ w.samples) : e.createdAt ≠ first.row.sampledAt :=
  (List.nodup_append.mp inv.nodup).2.2 _ (List.mem_map_of_mem listed) _
    (List.mem_map.mpr ⟨first, taken, rfl⟩)

theorem mem_upTo {events : List SystemEventRow} {e : SystemEventRow} {time : OffsetDateTime} :
    e ∈ upTo time events ↔ e ∈ events ∧ e.createdAt ≤ time := by
  simp [upTo]

theorem mem_systemEvents {e : SystemEvent} : e ∈ w.systemEvents fromAt toAt ↔
    ∃ row ∈ w.events, (fromAt ≤ row.createdAt ∧ row.createdAt ≤ toAt) ∧
      (⟨row.id, row.kind, msOf row.createdAt⟩ : SystemEvent) = e := by
  simp [systemEvents, listEvents, and_assoc]

/-- The chart sees a downtime between two samples when a stop was recorded between them, or when
the first was taken after one that lies in the range. -/
theorem RowInv.down_between_iff (inv : w.RowInv) (firstIn : first ∈ w.samples)
    (secondIn : second ∈ w.samples) (after : fromAt ≤ first.row.sampledAt)
    (within : second.row.sampledAt ≤ toAt) (order : first.row.sampledAt < second.row.sampledAt) :
    (∃ t ∈ Set.Ioo (msOf first.row.sampledAt) (msOf second.row.sampledAt),
      Down (w.systemEvents fromAt toAt) (msOf toAt) t) ↔
      first.stops ≠ second.stops ∨
        ∃ time, first.stopped = some time ∧ fromAt ≤ time := by
  have firstAt := sampledAt_mem_stamps firstIn
  have secondAt := sampledAt_mem_stamps secondIn
  rw [exists_down_iff ((inv.msOf_lt_iff firstAt secondAt).mpr order) (msOf_mono within),
    inv.stops_ne_iff firstIn secondIn order.le]
  refine or_congr ?_ ?_
  · constructor
    · rintro ⟨stop, listed, stopped, later, before⟩
      obtain ⟨row, member, -, rfl⟩ := mem_systemEvents.mp listed
      have stamp := createdAt_mem_stamps member
      exact ⟨row, member, stopped, (inv.msOf_lt_iff firstAt stamp).mp later,
        ((inv.msOf_lt_iff stamp secondAt).mp before).le⟩
    · rintro ⟨row, member, stopped, later, before⟩
      have stamp := createdAt_mem_stamps member
      have earlier := lt_of_le_of_ne before (inv.createdAt_ne member secondIn)
      refine ⟨⟨row.id, row.kind, msOf row.createdAt⟩, mem_systemEvents.mpr
        ⟨row, member, ⟨after.trans later.le, before.trans within⟩, rfl⟩, stopped, ?_, ?_⟩
      · exact (inv.msOf_lt_iff firstAt stamp).mpr later
      · exact (inv.msOf_lt_iff stamp secondAt).mpr earlier
  · constructor
    · rintro ⟨stop, listed, stopped, begun, down⟩
      obtain ⟨row, member, ⟨known, -⟩, rfl⟩ := mem_systemEvents.mp listed
      have early := (inv.msOf_le_iff (createdAt_mem_stamps member) firstAt).mp begun
      refine ⟨row.createdAt, (inv.ending first firstIn row.createdAt).mpr ⟨⟨row,
        mem_upTo.mpr ⟨member, early⟩, stopped, rfl⟩, fun start started kind => ?_⟩, known⟩
      obtain ⟨present, before⟩ := mem_upTo.mp started
      by_contra later
      -- a start in between would be on the chart
      have stamp := createdAt_mem_stamps present
      refine down ⟨start.id, start.kind, msOf start.createdAt⟩ (mem_systemEvents.mpr ⟨start,
        present, ⟨known.trans (not_le.mp later).le, before.trans (order.le.trans within)⟩, rfl⟩)
        kind ⟨?_, ?_⟩
      · exact (inv.msOf_lt_iff (createdAt_mem_stamps member) stamp).mpr (not_le.mp later)
      · exact (inv.msOf_le_iff stamp firstAt).mpr before
    · rintro ⟨time, ended, known⟩
      obtain ⟨⟨row, listed, stopped, rfl⟩, starts⟩ := (inv.ending first firstIn time).mp ended
      obtain ⟨member, early⟩ := mem_upTo.mp listed
      refine ⟨⟨row.id, row.kind, msOf row.createdAt⟩, mem_systemEvents.mpr ⟨row, member,
        ⟨known, early.trans (order.le.trans within)⟩, rfl⟩, stopped, msOf_mono early, ?_⟩
      intro start listedStart kind followed
      obtain ⟨other, present, -, rfl⟩ := mem_systemEvents.mp listedStart
      have stamp := createdAt_mem_stamps present
      have before := (inv.msOf_le_iff stamp firstAt).mp followed.2
      have later := (inv.msOf_lt_iff (createdAt_mem_stamps member) stamp).mp followed.1
      exact (starts other (mem_upTo.mpr ⟨present, before⟩) kind).not_gt later

/-- The times of the chart's events are distinct. -/
theorem RowInv.nodup_systemEvents (inv : w.RowInv) (fromAt toAt : OffsetDateTime) :
    ((w.systemEvents fromAt toAt).map SystemEvent.createdAt).Nodup := by
  have rows : (w.events.map SystemEventRow.createdAt).Nodup := (List.nodup_append.mp inv.nodup).1
  have apart := (List.pairwise_map.mp rows).sublist
    (List.filter_sublist (p := fun e => fromAt ≤ e.createdAt ∧ e.createdAt ≤ toAt))
  rw [systemEvents, listEvents, List.map_map]
  refine List.pairwise_map.mpr (apart.imp_of_mem fun {e other} listed listedOther distinct same => ?_)
  exact distinct (inv.msOf_inj (createdAt_mem_stamps (List.mem_filter.mp listed).1)
    (createdAt_mem_stamps (List.mem_filter.mp listedOther).1) same)

end ServerWorld

theorem segments_gaugeLayout (scaleTime scaleNice : ℚ × ℚ → ℚ × ℚ → ℚ → ℚ)
    (input : GaugeLayoutInput) (width height : ℚ) :
    (gaugeLayout scaleTime scaleNice input width height).segments.map (List.map PointPx.point) =
      splitSegments GaugePoint.sampledAt input.resolutionSecs
        (downtimeWindows input.events input.domain.toMs) input.points := by
  rw [gaugeLayout]
  simp [List.map_map, Function.comp_def]

/-- The windows of the chart meet an interval exactly when some time in it is spent down. -/
theorem unsafe_iff_down {events : List SystemEvent}
    (distinct : (events.map SystemEvent.createdAt).Nodup) {domainTo resolutionSecs : ℚ}
    {p q : GaugePoint} :
    Unsafe GaugePoint.sampledAt resolutionSecs (downtimeWindows events domainTo) p q ↔
      (∃ t ∈ Set.Ioo p.sampledAt q.sampledAt, Down events domainTo t) ∨
        2 * (resolutionSecs * 1000) < q.sampledAt - p.sampledAt := by
  refine or_congr_left ?_
  simp only [← covers_downtimeWindows distinct, Covers, Set.Nonempty, Set.mem_inter_iff]
  constructor
  · rintro ⟨window, listed, t, between, inside⟩
    exact ⟨t, between, window, listed, inside⟩
  · rintro ⟨t, between, window, listed, inside⟩
    exact ⟨window, listed, t, between, inside⟩

namespace ServerWorld

variable {w : ServerWorld} {fromAt toAt now : OffsetDateTime} {metric : GaugeMetric}
  {series : GaugeSeries}

/-- The points of a series are samples of the range, at ascending times. -/
theorem RowInv.series_spec (inv : w.RowInv)
    (served : w.metricSeries metric now (some fromAt) (some toAt) = .ok series) :
    (∀ p ∈ series.points, ∃ sample ∈ w.samples, gaugePoint metric sample.row = p ∧
      fromAt ≤ sample.row.sampledAt ∧ sample.row.sampledAt ≤ toAt) ∧
      series.points.Pairwise fun p q => p.sampledAt < q.sampledAt := by
  rw [metricSeries] at served
  split at served
  · cases served
  · next res rows fetched =>
    cases served
    rw [GaugeSampleService.fetchRange, fetchRange] at fetched
    dsimp only [Option.getD_some] at fetched
    split_ifs at fetched with backwards
    split at fetched
    · next out ranged =>
      cases fetched
      have distinct : ((w.samples.map GaugeSample.row).map
          MempoolGaugeSampleRow.sampledAt).Nodup := by
        rw [List.map_map]
        exact (List.nodup_append.mp inv.nodup).2.1
      obtain ⟨members, ascending⟩ := GaugeSampleRepository.range_spec distinct ranged
      have sampled (row : MempoolGaugeSampleRow) (listed : row ∈ rows) :
          ∃ sample ∈ w.samples, sample.row = row ∧ fromAt ≤ row.sampledAt ∧
            row.sampledAt ≤ toAt := by
        obtain ⟨stored, bounds⟩ := members row listed
        obtain ⟨sample, taken, rfl⟩ := List.mem_map.mp stored
        exact ⟨sample, taken, rfl, bounds⟩
      refine ⟨fun p listed => ?_, List.pairwise_map.mpr (ascending.imp_of_mem ?_)⟩
      · obtain ⟨row, member, rfl⟩ := List.mem_map.mp listed
        obtain ⟨sample, taken, rfl, bounds⟩ := sampled row member
        exact ⟨sample, taken, rfl, bounds⟩
      · intro row later listed listedLater before
        obtain ⟨sample, taken, rfl, -⟩ := sampled row listed
        obtain ⟨sample', taken', rfl, -⟩ := sampled later listedLater
        exact (inv.msOf_lt_iff (sampledAt_mem_stamps taken) (sampledAt_mem_stamps taken')).mpr
          before
    · cases fetched

/-- A point of the series lies in the range at its full precision. -/
theorem RowInv.mem_range (inv : w.RowInv)
    (served : w.metricSeries metric now (some fromAt) (some toAt) = .ok series)
    {sample : GaugeSample} (taken : sample ∈ w.samples)
    (listed : gaugePoint metric sample.row ∈ series.points) :
    fromAt ≤ sample.row.sampledAt ∧ sample.row.sampledAt ≤ toAt := by
  obtain ⟨other, taken', same, bounds⟩ := (inv.series_spec served).1 _ listed
  have sameTime : other.row.sampledAt = sample.row.sampledAt :=
    inv.msOf_inj (sampledAt_mem_stamps taken') (sampledAt_mem_stamps taken)
      (congrArg GaugePoint.sampledAt same)
  rwa [sameTime] at bounds

end ServerWorld

open ServerWorld in
/-- Where the starts and the stops are written and no two rows share a millisecond, a chart of
any range joins two samples by a line exactly when they follow each other in its series, at most
two resolutions apart, no stop was recorded between them, and the first was not taken after its
process had recorded a stop that lies in the range. -/
theorem line_drawn_iff {clock : OffsetDateTime} {ops : List ServerOp} {w : ServerWorld}
    (recorded : Along step Recorded (.initial clock) ops)
    (ran : run step (.initial clock) ops = some w) {metric : GaugeMetric}
    {now fromAt toAt : OffsetDateTime} {series : GaugeSeries}
    (served : w.metricSeries metric now (some fromAt) (some toAt) = .ok series)
    (scaleTime scaleNice : ℚ × ℚ → ℚ × ℚ → ℚ → ℚ) (width height : ℚ)
    {first second : GaugeSample} (firstIn : first ∈ w.samples) (secondIn : second ∈ w.samples) :
    let p := gaugePoint metric first.row
    let q := gaugePoint metric second.row
    (∃ segment ∈ (w.gaugeChart scaleTime scaleNice series fromAt toAt width height).segments,
      Adjacent p q (segment.map PointPx.point)) ↔
      Adjacent p q series.points ∧
        q.sampledAt - p.sampledAt ≤ 2 * (series.resolutionSecs * 1000) ∧
        first.stops = second.stops ∧
        ∀ time, first.stopped = some time → time < fromAt := by
  intro p q
  have inv := (run_induction_along (fun _ _ _ held fine stepped => inv_step held fine stepped)
    (inv_initial clock) recorded ran).1
  obtain ⟨-, ascending⟩ := inv.series_spec served
  have drawn := segments_gaugeLayout scaleTime scaleNice ⟨series.points, series.resolutionSecs,
    w.systemEvents fromAt toAt, ⟨msOf fromAt, msOf toAt⟩⟩ width height
  have points : (∃ segment ∈ (w.gaugeChart scaleTime scaleNice series fromAt toAt width
      height).segments, Adjacent p q (segment.map PointPx.point)) ↔
      ∃ segment ∈ splitSegments GaugePoint.sampledAt series.resolutionSecs
        (downtimeWindows (w.systemEvents fromAt toAt) (msOf toAt)) series.points,
        Adjacent p q segment := by
    rw [← drawn, gaugeChart]
    simp
  rw [points, adjacent_splitSegments ascending]
  refine and_congr_right fun adjacent => ?_
  have order : p.sampledAt < q.sampledAt :=
    Adjacent.rel (fun p q => p.sampledAt < q.sampledAt) ascending.isChain adjacent
  have bounds := inv.mem_range served firstIn adjacent.mem.1
  have boundsLater := inv.mem_range served secondIn adjacent.mem.2
  have before := (inv.msOf_lt_iff (sampledAt_mem_stamps firstIn)
    (sampledAt_mem_stamps secondIn)).mp order
  have down : (∃ t ∈ Set.Ioo p.sampledAt q.sampledAt,
      Down (w.systemEvents fromAt toAt) (msOf toAt) t) ↔ first.stops ≠ second.stops ∨
        ∃ time, first.stopped = some time ∧ fromAt ≤ time :=
    inv.down_between_iff firstIn secondIn bounds.1 boundsLater.2 before
  rw [unsafe_iff_down (inv.nodup_systemEvents fromAt toAt), down]
  push Not
  constructor
  · rintro ⟨⟨same, unknown⟩, near⟩
    exact ⟨near, same, unknown⟩
  · rintro ⟨near, same, unknown⟩
    exact ⟨⟨same, unknown⟩, near⟩

/-- The first of two processes takes a sample, is told to end, takes another before it records
that, and a third one later; the second process takes one more. -/
def restart : List ServerOp :=
  [⟨1000000, .start true⟩, ⟨1000000, .ready⟩, ⟨1000000, .sample 1 2 3 4 5 true⟩,
    ⟨500, .signal⟩, ⟨1000000, .sample 1 2 3 4 5 true⟩, ⟨1000000, .stop true⟩,
    ⟨1000000, .sample 1 2 3 4 5 true⟩, ⟨0, .exit⟩, ⟨1000000, .start true⟩, ⟨0, .ready⟩,
    ⟨1000000, .sample 1 2 3 4 5 true⟩]

def sampleAt (time : OffsetDateTime) (stops : ℕ) (stopped : Option OffsetDateTime) : GaugeSample :=
  ⟨⟨time, 1, 2, 3, 4, 5⟩, stops, stopped⟩

def afterRestart : ServerWorld :=
  ⟨8000500, .up true false none, 1,
    [⟨0, .serverStarted, 1000000⟩, ⟨1, .serverStopped, 5000500⟩, ⟨2, .serverStarted, 7000500⟩],
    [sampleAt 3000000 0 none, sampleAt 4000500 0 none, sampleAt 6000500 1 (some 5000500),
      sampleAt 8000500 1 none]⟩

def restartSeries : GaugeSeries := ⟨.totalFee, 60, [⟨3000, 5⟩, ⟨4000, 5⟩, ⟨6000, 5⟩, ⟨8000, 5⟩]⟩

/-- The chart joins the samples on both sides of the signal, and not those on both sides of its
record. -/
theorem no_line_across_restart :
    run ServerWorld.step (.initial 0) restart = some afterRestart ∧
      afterRestart.metricSeries .totalFee 0 (some 0) (some 10000000) = .ok restartSeries ∧
      (∃ segment ∈ (afterRestart.gaugeChart (fun _ _ x => x) (fun _ _ y => y) restartSeries 0
          10000000 800 400).segments,
        Adjacent (gaugePoint .totalFee (sampleAt 3000000 0 none).row)
          (gaugePoint .totalFee (sampleAt 4000500 0 none).row) (segment.map PointPx.point)) ∧
      ¬ ∃ segment ∈ (afterRestart.gaugeChart (fun _ _ x => x) (fun _ _ y => y) restartSeries 0
          10000000 800 400).segments,
        Adjacent (gaugePoint .totalFee (sampleAt 4000500 0 none).row)
          (gaugePoint .totalFee (sampleAt 6000500 1 (some 5000500)).row)
            (segment.map PointPx.point) := by
  have ran : run ServerWorld.step (.initial 0) restart = some afterRestart := by decide +kernel
  have served : afterRestart.metricSeries .totalFee 0 (some 0) (some 10000000) =
      .ok restartSeries := by
    decide +kernel
  have recorded : Along ServerWorld.step ServerWorld.Recorded (.initial 0) restart := by
    decide +kernel
  have firstIn : sampleAt 3000000 0 none ∈ afterRestart.samples := by decide +kernel
  have secondIn : sampleAt 4000500 0 none ∈ afterRestart.samples := by decide +kernel
  have thirdIn : sampleAt 6000500 1 (some 5000500) ∈ afterRestart.samples := by decide +kernel
  refine ⟨ran, served, ?_, fun drawn => ?_⟩
  · apply (line_drawn_iff recorded ran served (fun _ _ x => x) (fun _ _ y => y) 800 400
      firstIn secondIn).mpr
    refine ⟨?_, by decide +kernel, rfl, fun time stopped => by cases stopped⟩
    exact .inl (by decide +kernel)
  · have joined := (line_drawn_iff recorded ran served (fun _ _ x => x) (fun _ _ y => y) 800 400
      secondIn thirdIn).mp drawn
    exact absurd joined.2.2.1 Nat.zero_ne_one

end MempoolObserver
