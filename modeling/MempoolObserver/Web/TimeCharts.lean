import MempoolObserver.Library.Adjacent
import MempoolObserver.Web.ChartPlot
import MempoolObserver.Web.Downtime

/-!
# The gauge and counter charts

Both charts draw a series as lines, and must not draw one across a downtime, a missing bucket or
a value that was not measured. A gauge series is cut at the unsafe neighbours. A counter series
is first cut at its nulls, and each run that is left at its unsafe neighbours.

Either way, two points are joined by a line exactly when they follow each other in the series,
both with a value, and it is safe to join them.

## Main definitions

* `gaugeLayout`, `counterLayout` — the layouts, without the texts of the paths and the ticks
* `nonNullRuns` — the runs of a series between its nulls

## Main results

* `counter_lines_join`
-/

namespace MempoolObserver

open Neighbours

structure ChartRange where
  fromMs : ℚ
  toMs : ℚ
  deriving DecidableEq

structure PointPx (α : Type) where
  px : ℚ
  py : ℚ
  point : α

structure SystemEventMarkerPx where
  px : ℚ
  event : SystemEvent

/-- The subset of events that get a vertical marker, sorted. -/
def lifecycleMarkers (events : List SystemEvent) : List SystemEvent :=
  sortByCreatedAt (events.filter (·.kind ∈ lifecycleKinds))

/-- The end of the time axis. -/
def tMax (domain : ChartRange) : ℚ :=
  if domain.fromMs < domain.toMs then domain.toMs else domain.fromMs + 1

/-- The markers that lie in the domain. -/
def markersIn (events : List SystemEvent) (domain : ChartRange) (xScale : ℚ → ℚ) :
    List SystemEventMarkerPx :=
  ((lifecycleMarkers events).filter fun event =>
    domain.fromMs ≤ event.createdAt ∧ event.createdAt ≤ domain.toMs).map fun event =>
      ⟨xScale event.createdAt, event⟩

/-- The end of the value axis: the largest of the values, or 1. -/
def yMax (values : List ℤ) : ℤ :=
  let vMax := values.max?.getD 0
  if 0 < vMax then vMax else 1

/-! ### Gauges -/

structure GaugePoint where
  sampledAt : ℚ
  value : ℤ
  deriving DecidableEq

structure GaugeLayoutInput where
  points : List GaugePoint
  resolutionSecs : ℚ
  events : List SystemEvent
  domain : ChartRange

structure GaugeLayout where
  points : List (PointPx GaugePoint)
  segments : List (List (PointPx GaugePoint))
  markers : List SystemEventMarkerPx
  plot : PlotRect

section Layouts

-- `scaleTime().domain(domain).range(range)`, and `scaleLinear()` with `.nice()`.
variable (scaleTime scaleNice : ℚ × ℚ → ℚ × ℚ → ℚ → ℚ)

def gaugeLayout (input : GaugeLayoutInput) (w h : ℚ) : GaugeLayout :=
  let plot := plotRect w h
  let xScale := scaleTime (input.domain.fromMs, tMax input.domain)
    (plot.left, plot.left + plot.width)
  let yScale := scaleNice (0, yMax (input.points.map GaugePoint.value))
    (plot.top + plot.height, plot.top)
  let toPx := List.map fun p : GaugePoint => PointPx.mk (xScale p.sampledAt) (yScale p.value) p
  let windows := downtimeWindows input.events input.domain.toMs
  { points := toPx input.points
    segments := (splitSegments GaugePoint.sampledAt input.resolutionSecs windows
      input.points).map toPx
    markers := markersIn input.events input.domain xScale
    plot := plot }

/-! ### Counters -/

structure CounterPoint where
  sampledAt : ℚ
  addedTxs : Option ℤ
  confirmedTxs : Option ℤ
  evictedTxs : Option ℤ
  deriving DecidableEq

inductive CounterSeriesKey where
  | addedTxs
  | confirmedTxs
  | evictedTxs
  deriving DecidableEq

def seriesKeys : List CounterSeriesKey := [.addedTxs, .confirmedTxs, .evictedTxs]

def valueAt (key : CounterSeriesKey) (p : CounterPoint) : Option ℤ :=
  match key with
  | .addedTxs => p.addedTxs
  | .confirmedTxs => p.confirmedTxs
  | .evictedTxs => p.evictedTxs

structure CounterLayoutInput where
  points : List CounterPoint
  resolutionSecs : ℚ
  events : List SystemEvent
  domain : ChartRange
  visible : CounterSeriesKey → Bool

/-- What the loop of `nonNullRuns` carries from point to point. -/
structure NullSplit (α : Type) where
  runs : List (List α)
  current : List α

/-- The run that is under way, if it has points, ends. -/
def NullSplit.close {α : Type} (state : NullSplit α) : List (List α) :=
  if state.current = [] then state.runs else state.runs ++ [state.current]

def NullSplit.step {α β : Type} (get : α → Option β) (state : NullSplit α) (p : α) :
    NullSplit α :=
  match get p with
  | none => ⟨state.close, []⟩
  | some _ => ⟨state.runs, state.current ++ [p]⟩

/-- A null is "not measured", so it breaks the line however close its neighbours are. -/
def nonNullRuns {α β : Type} (points : List α) (get : α → Option β) : List (List α) :=
  (points.foldl (NullSplit.step get) ⟨[], []⟩).close

structure CounterLayout where
  hoverPoints : List (ℚ × CounterPoint)
  series : CounterSeriesKey → List (List (PointPx CounterPoint))
  markers : List SystemEventMarkerPx
  plot : PlotRect

/-- The values that the axis looks at: not null, and of a series that is shown. -/
def visibleValues (input : CounterLayoutInput) : List ℤ :=
  input.points.flatMap fun p => (seriesKeys.filter input.visible).filterMap (valueAt · p)

def counterLayout (input : CounterLayoutInput) (w h : ℚ) : CounterLayout :=
  let plot := plotRect w h
  let xScale := scaleTime (input.domain.fromMs, tMax input.domain)
    (plot.left, plot.left + plot.width)
  let yScale := scaleNice (0, yMax (visibleValues input)) (plot.top + plot.height, plot.top)
  let windows := downtimeWindows input.events input.domain.toMs
  { hoverPoints := input.points.map fun p => (xScale p.sampledAt, p)
    series := fun key =>
      let segments := (nonNullRuns input.points (valueAt key)).flatMap
        (splitSegments CounterPoint.sampledAt input.resolutionSecs windows)
      segments.map (List.map fun p =>
        ⟨xScale p.sampledAt, yScale ((valueAt key p).getD 0), p⟩)
    markers := markersIn input.events input.domain xScale
    plot := plot }

end Layouts

/-! ### Runs between nulls -/

section Runs

variable {α β : Type} {get : α → Option β} {seen : List α} {state : NullSplit α} {a b : α}

/-- The state after the points `seen`: the runs keep the neighbours that both have a value. -/
structure NullSplit.Splits (get : α → Option β) (seen : List α) (state : NullSplit α) : Prop where
  points : state.runs.flatten ++ state.current = seen.filter fun p => (get p).isSome
  full : [] ∉ state.runs
  last : ∀ a, state.current.getLast? = some a ↔ seen.getLast? = some a ∧ (get a).isSome
  joins : ∀ a b, ((∃ run ∈ state.runs, Adjacent a b run) ∨ Adjacent a b state.current) ↔
    Adjacent a b seen ∧ (get a).isSome ∧ (get b).isSome

namespace NullSplit

theorem flatten_close (state : NullSplit α) :
    state.close.flatten = state.runs.flatten ++ state.current := by
  rw [close]
  split_ifs with empty
  · rw [empty, List.append_nil]
  · rw [List.flatten_append, List.flatten_singleton]

theorem adjacent_close : (∃ run ∈ state.close, Adjacent a b run) ↔
    (∃ run ∈ state.runs, Adjacent a b run) ∨ Adjacent a b state.current := by
  rw [close]
  split_ifs with empty
  · rw [empty]
    exact (or_iff_left id).symm
  · simp [or_and_right, exists_or]

theorem Splits.full_close (splits : state.Splits get seen) : [] ∉ state.close := by
  rw [close]
  split_ifs with empty
  · exact splits.full
  · rw [List.mem_append, List.mem_singleton, not_or]
    exact ⟨splits.full, Ne.symm empty⟩

theorem step_null {p : α} (value : get p = none) :
    state.step get p = ⟨state.close, []⟩ := by
  rw [NullSplit.step, value]

theorem step_value {p : α} {v : β} (value : get p = some v) :
    state.step get p = ⟨state.runs, state.current ++ [p]⟩ := by
  rw [NullSplit.step, value]

theorem Splits.step (splits : state.Splits get seen) (p : α) :
    (state.step get p).Splits get (seen ++ [p]) := by
  have neighbours (a b : α) : Adjacent a b (seen ++ [p]) ↔
      Adjacent a b seen ∨ (seen.getLast? = some a ∧ p = b) := by
    rw [adjacent_append]
    simp [Adjacent]
  cases value : get p with
  | none =>
    rw [step_null value]
    refine ⟨?_, splits.full_close, fun a => ?_, fun a b => ?_⟩
    · rw [flatten_close, List.append_nil, splits.points, List.filter_append]
      simp [value]
    · simp only [List.getLast?_nil, List.getLast?_concat, Option.some.injEq]
      constructor
      · rintro ⟨⟩
      · rintro ⟨rfl, measured⟩
        rw [value] at measured
        cases measured
    · change (_ ∨ False) ↔ _
      rw [or_false, adjacent_close, splits.joins, neighbours]
      constructor
      · rintro ⟨adjacent, measured⟩
        exact ⟨.inl adjacent, measured⟩
      · rintro ⟨adjacent | ⟨-, rfl⟩, measured⟩
        · exact ⟨adjacent, measured⟩
        · rw [value] at measured
          cases measured.2
  | some v =>
    have measured : (get p).isSome := by rw [value]; rfl
    rw [step_value value]
    refine ⟨?_, splits.full, fun a => ?_, fun a b => ?_⟩
    · rw [← List.append_assoc, splits.points, List.filter_append]
      simp [value]
    · rw [List.getLast?_concat, List.getLast?_concat, Option.some.injEq]
      constructor
      · rintro rfl
        exact ⟨rfl, measured⟩
      · exact And.left
    · have runs := splits.joins a b
      have ends := splits.last a
      rw [neighbours, adjacent_append]
      simp only [Adjacent, List.head?_cons, List.head?_nil, Option.some.injEq, reduceCtorEq,
        and_false, or_false, false_or]
      constructor
      · rintro (inside | inside | ⟨last, rfl⟩)
        · exact ⟨.inl (runs.mp (.inl inside)).1, (runs.mp (.inl inside)).2⟩
        · exact ⟨.inl (runs.mp (.inr inside)).1, (runs.mp (.inr inside)).2⟩
        · exact ⟨.inr ⟨(ends.mp last).1, rfl⟩, (ends.mp last).2, measured⟩
      · rintro ⟨adjacent | ⟨last, rfl⟩, both⟩
        · rcases runs.mpr ⟨adjacent, both⟩ with inside | inside
          · exact .inl inside
          · exact .inr (.inl inside)
        · exact .inr (.inr ⟨ends.mpr ⟨last, both.1⟩, rfl⟩)

theorem Splits.foldl (splits : state.Splits get seen) (rest : List α) :
    (rest.foldl (NullSplit.step get) state).Splits get (seen ++ rest) := by
  induction rest generalizing seen state with
  | nil => rwa [List.append_nil]
  | cons p rest ih =>
    have next := ih (splits.step p)
    rwa [List.append_assoc] at next

theorem splits_nil : (⟨[], []⟩ : NullSplit α).Splits get [] where
  points := rfl
  full := List.not_mem_nil
  last _ := by simp
  joins _ _ := by simp [Adjacent]

end NullSplit

theorem nonNullRuns_splits (get : α → Option β) (points : List α) :
    (points.foldl (NullSplit.step get) ⟨[], []⟩).Splits get points :=
  NullSplit.splits_nil.foldl points

variable {sampledAt : α → ℚ} {resolutionSecs : ℚ} {windows : List DowntimeWindow}

theorem joined_iff (before : sampledAt a < sampledAt b) :
    joined sampledAt resolutionSecs windows a b = true ↔
      ¬ Unsafe sampledAt resolutionSecs windows a b := by
  refine ⟨not_unsafe_of_joined, fun safe => ?_⟩
  by_contra apart
  rcases unsafe_of_not_joined before.le (Bool.not_eq_true _ ▸ apart) with separated | ⟨same, -⟩
  · exact safe separated
  · exact before.ne same

/-- Exactly the safe neighbours stay together. -/
theorem adjacent_splitSegments {points : List α}
    (ascending : points.Pairwise fun a b => sampledAt a < sampledAt b) :
    (∃ segment ∈ splitSegments sampledAt resolutionSecs windows points, Adjacent a b segment) ↔
      Adjacent a b points ∧ ¬ Unsafe sampledAt resolutionSecs windows a b := by
  rw [splitSegments_eq_splitBy, exists_adjacent_splitBy]
  exact and_congr_right fun adjacent => joined_iff
    (Adjacent.rel (fun a b => sampledAt a < sampledAt b) ascending.isChain adjacent)

theorem flatten_splitSegments (points : List α) :
    (splitSegments sampledAt resolutionSecs windows points).flatten = points := by
  rw [splitSegments_eq_splitBy, List.flatten_splitBy]

theorem not_mem_splitSegments (points : List α) :
    [] ∉ splitSegments sampledAt resolutionSecs windows points := by
  rw [splitSegments_eq_splitBy]
  exact fun empty => List.ne_nil_of_mem_splitBy empty rfl

theorem flatten_flatMap_splitSegments (runs : List (List α)) :
    (runs.flatMap (splitSegments sampledAt resolutionSecs windows)).flatten = runs.flatten := by
  induction runs with
  | nil => rfl
  | cons run runs ih =>
    rw [List.flatMap_cons, List.flatten_append, flatten_splitSegments, ih, List.flatten_cons]

end Runs

/-! ### The lines of the counters -/

section Counters

variable {scaleTime scaleNice : ℚ × ℚ → ℚ × ℚ → ℚ → ℚ} {input : CounterLayoutInput}

/-- The points of the segments of a series. -/
def drawnSegments (layout : CounterLayout) (key : CounterSeriesKey) : List (List CounterPoint) :=
  (layout.series key).map (List.map PointPx.point)

theorem drawnSegments_counterLayout (w h : ℚ) (key : CounterSeriesKey) :
    drawnSegments (counterLayout scaleTime scaleNice input w h) key =
      (nonNullRuns input.points (valueAt key)).flatMap (splitSegments CounterPoint.sampledAt
        input.resolutionSecs (downtimeWindows input.events input.domain.toMs)) := by
  rw [drawnSegments, counterLayout]
  simp [List.map_map, Function.comp_def]

theorem le_yMax {values : List ℤ} {v : ℤ} (listed : v ∈ values) : v ≤ yMax values := by
  cases top : values.max? with
  | none =>
    rw [List.max?_eq_none_iff] at top
    rw [top] at listed
    cases listed
  | some m =>
    have above := (List.max?_eq_some_iff.mp top).2 v listed
    rw [yMax, top]
    dsimp only [Option.getD_some]
    split_ifs with positive
    · exact above
    · omega

/-- The segments of a counter hold its measured points in order. Two points are joined by a line
exactly when they follow each other in the series, both are measured, and no downtime and no
missing bucket lies between them; and the axis of values reaches every point of a series that
is shown. -/
theorem counter_lines_join
    (ascending : input.points.Pairwise fun p q => p.sampledAt < q.sampledAt) (w h : ℚ)
    (key : CounterSeriesKey) :
    let segments := drawnSegments (counterLayout scaleTime scaleNice input w h) key
    let windows := downtimeWindows input.events input.domain.toMs
    [] ∉ segments ∧
      segments.flatten = input.points.filter (fun p => (valueAt key p).isSome) ∧
      (∀ p q, (∃ segment ∈ segments, Adjacent p q segment) ↔
        Adjacent p q input.points ∧ (valueAt key p).isSome ∧ (valueAt key q).isSome ∧
          ¬ Unsafe CounterPoint.sampledAt input.resolutionSecs windows p q) ∧
      (input.visible key = true → ∀ p ∈ segments.flatten, ∀ v ∈ valueAt key p,
        v ≤ yMax (visibleValues input)) := by
  intro segments windows
  have splits := nonNullRuns_splits (valueAt key) input.points
  let runs := nonNullRuns input.points (valueAt key)
  have segmentsEq : segments =
      runs.flatMap (splitSegments CounterPoint.sampledAt input.resolutionSecs windows) :=
    drawnSegments_counterLayout w h key
  have measured : runs.flatten = input.points.filter fun p => (valueAt key p).isSome := by
    rw [← splits.points]
    exact NullSplit.flatten_close _
  have flattened : segments.flatten = input.points.filter fun p => (valueAt key p).isSome := by
    rw [segmentsEq, flatten_flatMap_splitSegments, measured]
  have ordered (run : List CounterPoint) (listed : run ∈ runs) :
      run.Pairwise fun p q => p.sampledAt < q.sampledAt := by
    have within := List.sublist_flatten_of_mem listed
    rw [measured] at within
    exact ascending.sublist (within.trans List.filter_sublist)
  refine ⟨?_, flattened, fun p q => ?_, fun shown p drawn v value => ?_⟩
  · rw [segmentsEq, List.mem_flatMap]
    rintro ⟨run, -, empty⟩
    exact not_mem_splitSegments run empty
  · rw [segmentsEq]
    calc (∃ segment ∈ runs.flatMap (splitSegments CounterPoint.sampledAt input.resolutionSecs
          windows), Adjacent p q segment)
        ↔ ∃ run ∈ runs, Adjacent p q run ∧
            ¬ Unsafe CounterPoint.sampledAt input.resolutionSecs windows p q := by
          constructor
          · rintro ⟨segment, listed, adjacent⟩
            obtain ⟨run, member, cut⟩ := List.mem_flatMap.mp listed
            exact ⟨run, member,
              (adjacent_splitSegments (ordered run member)).mp ⟨segment, cut, adjacent⟩⟩
          · rintro ⟨run, member, joins⟩
            obtain ⟨segment, cut, adjacent⟩ :=
              (adjacent_splitSegments (ordered run member)).mpr joins
            exact ⟨segment, List.mem_flatMap.mpr ⟨run, member, cut⟩, adjacent⟩
      _ ↔ (∃ run ∈ runs, Adjacent p q run) ∧
            ¬ Unsafe CounterPoint.sampledAt input.resolutionSecs windows p q := by
          simp only [← and_assoc, exists_and_right]
      _ ↔ _ := by
          rw [show runs = NullSplit.close _ from rfl, NullSplit.adjacent_close, splits.joins,
            and_assoc, and_assoc]
  · rw [flattened] at drawn
    refine le_yMax (List.mem_flatMap.mpr ⟨p, (List.mem_filter.mp drawn).1, ?_⟩)
    refine List.mem_filterMap.mpr ⟨key, List.mem_filter.mpr ⟨?_, shown⟩, value⟩
    cases key <;> decide

end Counters

/-- The second point is not measured, and the fourth comes after a missing bucket. -/
def gappyCounters : CounterLayoutInput where
  points := [⟨0, some 3, some 0, some 0⟩, ⟨60000, none, none, none⟩,
    ⟨120000, some 1, some 0, some 0⟩, ⟨300000, some 2, some 0, some 0⟩]
  resolutionSecs := 60
  events := []
  domain := ⟨0, 300000⟩
  visible _ := true

theorem counter_lines_of_gappyCounters :
    (drawnSegments (counterLayout (fun _ _ x => x) (fun _ _ y => y) gappyCounters 800 400)
      .addedTxs).flatten = gappyCounters.points.filter fun p => (valueAt .addedTxs p).isSome :=
  (counter_lines_join (by decide +kernel) 800 400 .addedTxs).2.1

end MempoolObserver
