import MempoolObserver.Library.Runs
import MempoolObserver.Web.TimeCharts

/-!
# Fetching what a chart shows

`useHttpGet` fetches a path when it is mounted and whenever the path changes, and aborts the
request it leaves behind. The data that is on screen stays there while the next request runs. An
answer that was read in full before its request was aborted is still delivered. A render and its
effects are one step.

A gauge chart fetches its series and its events this way, each on its own, for a range that
moves with the clock. Whatever the requests do, a chart that waits for nothing shows the answers
for one range, the current one.

## Main definitions

* `HttpGet.rerender`, `HttpGet.answer` — the hook
* `ChartPage.step`, `ChartPage.view` — the chart over two of them

## Main results

* `quiet_chart_shows_range`
-/

namespace MempoolObserver

open Runs

inductive HttpGetState (D : Type) where
  | loading
  | error (message : String)
  | loaded (data : D)
  deriving DecidableEq

/-- A request that has settled and not been delivered, with the number of its effect. -/
structure Settled (P D : Type) where
  generation : ℕ
  path : P
  outcome : Except String D
  deriving DecidableEq

/-- The hook: the path it was last rendered with, and the effects it has run. -/
structure HttpGet (P D : Type) where
  path : P
  generation : ℕ
  /-- The request of the last effect has not settled. Those before it are aborted. -/
  inFlight : Bool
  settled : List (Settled P D)
  state : HttpGetState D
  deriving DecidableEq

inductive HttpAnswer (D : Type) where
  /-- The request of the last effect settles. -/
  | settle (outcome : Except String D)
  /-- The oldest settled request calls its handler. -/
  | deliver

namespace HttpGet

variable {P D : Type}

def mount (path : P) : HttpGet P D := ⟨path, 0, true, [], .loading⟩

/-- A refetch keeps the previous data on screen; only a cold start blanks. -/
def HttpGetState.refetch : HttpGetState D → HttpGetState D
  | .loaded data => .loaded data
  | _ => .loading

/-- A render; the effect runs again when the path changed. -/
def rerender [DecidableEq P] (path : P) (get : HttpGet P D) : HttpGet P D :=
  if path = get.path then get
  else ⟨path, get.generation + 1, true, get.settled, HttpGetState.refetch get.state⟩

def answer (get : HttpGet P D) : HttpAnswer D → Option (HttpGet P D)
  | .settle outcome =>
    if get.inFlight then
      some { get with
        inFlight := false
        settled := get.settled ++ [⟨get.generation, get.path, outcome⟩] }
    else none
  | .deliver =>
    match get.settled with
    | [] => none
    | entry :: rest =>
      let get := { get with settled := rest }
      match entry.outcome with
      -- `then` does not look at the signal
      | .ok data => some { get with state := .loaded data }
      -- `catch` does: an aborted request changes nothing
      | .error message =>
        if entry.generation < get.generation then some get
        else some { get with state := .error message }

variable {get next : HttpGet P D}

/-- Delivering takes the first settled request off. Its data always goes on screen, its error
only when the request is that of the last effect. -/
theorem deliver_cases (stepped : get.answer .deliver = some next) :
    ∃ entry rest, get.settled = entry :: rest ∧
      ((∃ data, entry.outcome = .ok data ∧
          next = { get with settled := rest, state := .loaded data }) ∨
        (entry.generation < get.generation ∧ next = { get with settled := rest }) ∨
        ∃ message, next = { get with settled := rest, state := .error message }) := by
  rw [answer] at stepped
  cases queue : get.settled with
  | nil => simp [queue] at stepped
  | cons entry rest =>
    refine ⟨entry, rest, rfl, ?_⟩
    simp only [queue] at stepped
    cases outcome : entry.outcome with
    | ok data =>
      simp only [outcome, Option.some.injEq] at stepped
      exact .inl ⟨data, rfl, stepped.symm⟩
    | error message =>
      simp only [outcome] at stepped
      split_ifs at stepped with old
      · exact .inr (.inl ⟨old, (Option.some.inj stepped).symm⟩)
      · exact .inr (.inr ⟨message, (Option.some.inj stepped).symm⟩)

/-- The request of the last effect has not been delivered. -/
def Pending (get : HttpGet P D) : Prop :=
  get.inFlight = true ∨ ∃ entry ∈ get.settled, entry.generation = get.generation

/-- Settled requests wait in the order of their effects, and the last one is not behind them.
What is on screen answers the path, or the answer is still to come. -/
structure FetchInv (answers : P → D → Prop) (get : HttpGet P D) : Prop where
  past : ∀ entry ∈ get.settled, entry.generation ≤ get.generation
  running : get.inFlight = true → ∀ entry ∈ get.settled, entry.generation < get.generation
  ascending : get.settled.Pairwise fun entry next => entry.generation < next.generation
  path : ∀ entry ∈ get.settled, entry.generation = get.generation → entry.path = get.path
  sound : ∀ entry ∈ get.settled, ∀ data, entry.outcome = .ok data → answers entry.path data
  behind : ∀ entry ∈ get.settled, entry.generation < get.generation → get.Pending
  loading : get.state = .loading → get.Pending
  current : ∀ data, get.state = .loaded data → answers get.path data ∨ get.Pending
  loaded : ∀ data, get.state = .loaded data → ∃ path, answers path data

namespace FetchInv

variable {answers : P → D → Prop}

theorem mount (answers : P → D → Prop) (path : P) : (mount path).FetchInv answers where
  past := by simp [HttpGet.mount]
  running := by simp [HttpGet.mount]
  ascending := List.Pairwise.nil
  path := by simp [HttpGet.mount]
  sound := by simp [HttpGet.mount]
  behind := by simp [HttpGet.mount]
  loading _ := .inl rfl
  current _ held := by cases held
  loaded _ held := by cases held

theorem rerender [DecidableEq P] (inv : get.FetchInv answers) (path : P) :
    (get.rerender path).FetchInv answers := by
  rw [HttpGet.rerender]
  split_ifs with same
  · exact inv
  · have earlier : ∀ entry ∈ get.settled, entry.generation < get.generation + 1 :=
      fun entry listed => Nat.lt_succ_of_le (inv.past entry listed)
    refine ⟨fun entry listed => (earlier entry listed).le, fun _ => earlier, inv.ascending,
      fun entry listed new => absurd new (earlier entry listed).ne, inv.sound,
      fun _ _ _ => .inl rfl, fun _ => .inl rfl, fun _ _ => .inr (.inl rfl), fun data held => ?_⟩
    cases state : get.state with
    | loading => simp [state, HttpGetState.refetch] at held
    | error _ => simp [state, HttpGetState.refetch] at held
    | loaded old =>
      have kept : old = data := by simpa [state, HttpGetState.refetch] using held
      exact inv.loaded data (kept ▸ state)

theorem settle (inv : get.FetchInv answers) {outcome : Except String D}
    (fair : ∀ data, outcome = .ok data → answers get.path data)
    (stepped : get.answer (.settle outcome) = some next) : next.FetchInv answers := by
  rw [answer] at stepped
  split_ifs at stepped with running
  cases stepped
  have here : ∃ entry ∈ get.settled ++ [⟨get.generation, get.path, outcome⟩],
      entry.generation = get.generation :=
    ⟨_, List.mem_append_right _ (List.mem_singleton_self _), rfl⟩
  have members {entry : Settled P D}
      (listed : entry ∈ get.settled ++ [⟨get.generation, get.path, outcome⟩]) :
      entry ∈ get.settled ∨ entry = ⟨get.generation, get.path, outcome⟩ := by
    simpa using listed
  refine ⟨fun entry listed => ?_, fun off => absurd off Bool.false_ne_true, ?_,
    fun entry listed new => ?_, fun entry listed data held => ?_, fun _ _ _ => .inr here,
    fun _ => .inr here, fun _ _ => .inr (.inr here), inv.loaded⟩
  · rcases members listed with old | rfl
    · exact inv.past entry old
    · exact le_rfl
  · refine List.pairwise_append.mpr ⟨inv.ascending, List.pairwise_singleton _ _, ?_⟩
    intro entry old other last
    rw [List.mem_singleton.mp last]
    exact inv.running running entry old
  · rcases members listed with old | rfl
    · exact absurd new (inv.running running entry old).ne
    · rfl
  · rcases members listed with old | rfl
    · exact inv.sound entry old data held
    · exact fair data held

/-- A request older than the last effect's leaves the last one pending. -/
theorem pending_rest {entry : Settled P D} {rest : List (Settled P D)}
    (queue : get.settled = entry :: rest) (old : entry.generation ≠ get.generation)
    (pending : get.Pending) (state : HttpGetState D) :
    { get with settled := rest, state := state }.Pending := by
  rcases pending with running | ⟨last, listed, current⟩
  · exact .inl running
  · rw [queue, List.mem_cons] at listed
    rcases listed with rfl | listed
    · exact absurd current old
    · exact .inr ⟨last, listed, current⟩

/-- The first settled request is taken off, whatever its handler puts on screen. -/
theorem take (inv : get.FetchInv answers) {entry : Settled P D} {rest : List (Settled P D)}
    (queue : get.settled = entry :: rest) (state : HttpGetState D)
    (loading : state = .loading → entry.generation < get.generation)
    (current : ∀ data, state = .loaded data →
      answers get.path data ∨ entry.generation < get.generation)
    (loaded : ∀ data, state = .loaded data → ∃ path, answers path data) :
    { get with settled := rest, state := state }.FetchInv answers := by
  have first : entry ∈ get.settled := queue ▸ List.mem_cons_self
  have later : ∀ other ∈ rest, other ∈ get.settled :=
    fun other listed => queue ▸ List.mem_cons_of_mem _ listed
  have ascending := inv.ascending
  rw [queue, List.pairwise_cons] at ascending
  have waiting (old : entry.generation < get.generation) :
      { get with settled := rest, state := state }.Pending :=
    pending_rest queue old.ne (inv.behind entry first old) state
  exact {
    past := fun other listed => inv.past other (later other listed)
    running := fun running other listed => inv.running running other (later other listed)
    ascending := ascending.2
    path := fun other listed => inv.path other (later other listed)
    sound := fun other listed => inv.sound other (later other listed)
    -- the first is older still than one that is behind
    behind := fun other listed old => waiting ((ascending.1 other listed).trans old)
    loading := fun held => waiting (loading held)
    current := fun data held => (current data held).imp_right waiting
    loaded := loaded }

theorem deliver (inv : get.FetchInv answers) (stepped : get.answer .deliver = some next) :
    next.FetchInv answers := by
  obtain ⟨entry, rest, queue, handled⟩ := deliver_cases stepped
  have first : entry ∈ get.settled := queue ▸ List.mem_cons_self
  rcases handled with ⟨data, outcome, rfl⟩ | ⟨old, rfl⟩ | ⟨message, rfl⟩
  · have sound := inv.sound entry first data outcome
    refine inv.take queue _ (fun held => by cases held) (fun shown held => ?_)
      (fun shown held => ?_)
    · cases held
      -- data of the last effect answers its path; older data is to be replaced
      rcases (inv.past entry first).lt_or_eq with old | last
      · exact .inr old
      · exact .inl (inv.path entry first last ▸ sound)
    · cases held
      exact ⟨_, sound⟩
  · exact inv.take queue _ (fun _ => old) (fun _ _ => .inr old) inv.loaded
  · exact inv.take queue _ (fun held => by cases held) (fun _ held => by cases held)
      (fun _ held => by cases held)

end FetchInv

/-- One answer, of which the data answers the path it was asked for. -/
theorem FetchInv.answer {answers : P → D → Prop} {received : HttpAnswer D}
    (inv : get.FetchInv answers)
    (fair : ∀ data, received = .settle (.ok data) → answers get.path data)
    (stepped : get.answer received = some next) : next.FetchInv answers := by
  cases received with
  | settle outcome => exact inv.settle (fun data ok => fair data (ok ▸ rfl)) stepped
  | deliver => exact inv.deliver stepped

theorem answer_path {received : HttpAnswer D} (stepped : get.answer received = some next) :
    next.path = get.path := by
  cases received with
  | settle outcome =>
    rw [answer] at stepped
    split_ifs at stepped
    exact (Option.some.inj stepped) ▸ rfl
  | deliver =>
    obtain ⟨entry, rest, -, ⟨-, -, rfl⟩ | ⟨-, rfl⟩ | ⟨-, rfl⟩⟩ := deliver_cases stepped
    all_goals rfl

@[simp]
theorem rerender_path [DecidableEq P] (path : P) :
    (get.rerender path).path = path := by
  rw [rerender]
  split_ifs with same
  · exact same.symm
  · rfl

end HttpGet

/-- `GaugeMetricChart`, with the range it was last rendered for. `S` is a gauge series and `E` a
system event. -/
structure GaugeMetricChart (S E : Type) where
  range : ChartRange
  series : HttpGet ChartRange S
  events : HttpGet ChartRange (List E)
  deriving DecidableEq

inductive ChartAction (S E : Type) where
  | render (nowMs : ℕ)
  | series (received : HttpAnswer S)
  | events (received : HttpAnswer (List E))

inductive ChartView (S E : Type) where
  | loading
  | failed
  | lineChart (series : S) (range : ChartRange) (events : List E)

namespace GaugeMetricChart

variable {S E : Type}

def rangeHours : ℕ := 24

/-- Rounded to the minute so that the path stays the same across renders. -/
def currentRange (nowMs : ℕ) : ChartRange :=
  let toMs : ℚ := (nowMs / 60000 * 60000 : ℕ)
  ⟨toMs - rangeHours * 3600000, toMs⟩

def mount (nowMs : ℕ) : GaugeMetricChart S E :=
  let range := currentRange nowMs
  ⟨range, .mount range, .mount range⟩

def step (chart : GaugeMetricChart S E) : ChartAction S E → Option (GaugeMetricChart S E)
  | .render nowMs =>
    let range := currentRange nowMs
    some ⟨range, chart.series.rerender range, chart.events.rerender range⟩
  | .series received => (chart.series.answer received).map fun series => { chart with series }
  | .events received => (chart.events.answer received).map fun events => { chart with events }

/-- A failed request for the events leaves the chart without markers. -/
def view (chart : GaugeMetricChart S E) : ChartView S E :=
  match chart.series.state, chart.events.state with
  | .loading, _ => .loading
  | _, .loading => .loading
  | .error _, _ => .failed
  | .loaded series, .loaded events => .lineChart series chart.range events
  | .loaded series, .error _ => .lineChart series chart.range []

/-- The data that settles a request answers the path the request was made for. -/
def Honest (seriesAnswers : ChartRange → S → Prop) (eventsAnswer : ChartRange → List E → Prop)
    (chart : GaugeMetricChart S E) : ChartAction S E → Prop
  | .series (.settle (.ok data)) => seriesAnswers chart.series.path data
  | .events (.settle (.ok data)) => eventsAnswer chart.events.path data
  | _ => True

instance Honest.decidable {seriesAnswers : ChartRange → S → Prop}
    {eventsAnswer : ChartRange → List E → Prop}
    [∀ range data, Decidable (seriesAnswers range data)]
    [∀ range data, Decidable (eventsAnswer range data)] (chart : GaugeMetricChart S E) :
    (action : ChartAction S E) → Decidable (chart.Honest seriesAnswers eventsAnswer action)
  | .series (.settle (.ok data)) =>
    inferInstanceAs (Decidable (seriesAnswers chart.series.path data))
  | .events (.settle (.ok data)) =>
    inferInstanceAs (Decidable (eventsAnswer chart.events.path data))
  | .render _ | .series (.settle (.error _)) | .events (.settle (.error _))
  | .series .deliver | .events .deliver => .isTrue trivial

/-- No request waits for its answer or for its handler. -/
def Quiet (chart : GaugeMetricChart S E) : Prop :=
  ¬ chart.series.Pending ∧ ¬ chart.events.Pending

structure ChartInv (seriesAnswers : ChartRange → S → Prop)
    (eventsAnswer : ChartRange → List E → Prop) (chart : GaugeMetricChart S E) : Prop where
  series : chart.series.FetchInv seriesAnswers
  events : chart.events.FetchInv eventsAnswer
  seriesPath : chart.series.path = chart.range
  eventsPath : chart.events.path = chart.range

variable {seriesAnswers : ChartRange → S → Prop} {eventsAnswer : ChartRange → List E → Prop}
  {chart next : GaugeMetricChart S E}

theorem ChartInv.step {action : ChartAction S E} (inv : chart.ChartInv seriesAnswers eventsAnswer)
    (honest : chart.Honest seriesAnswers eventsAnswer action)
    (stepped : chart.step action = some next) : next.ChartInv seriesAnswers eventsAnswer := by
  cases action with
  | render nowMs =>
    cases stepped
    exact ⟨inv.series.rerender _, inv.events.rerender _, HttpGet.rerender_path _,
      HttpGet.rerender_path _⟩
  | series received =>
    obtain ⟨series, answered, rfl⟩ := Option.map_eq_some_iff.mp stepped
    have fair : ∀ data, received = .settle (.ok data) → seriesAnswers chart.series.path data := by
      rintro data rfl
      exact honest
    exact ⟨inv.series.answer fair answered, inv.events,
      (HttpGet.answer_path answered).trans inv.seriesPath, inv.eventsPath⟩
  | events received =>
    obtain ⟨events, answered, rfl⟩ := Option.map_eq_some_iff.mp stepped
    have fair : ∀ data, received = .settle (.ok data) → eventsAnswer chart.events.path data := by
      rintro data rfl
      exact honest
    exact ⟨inv.series, inv.events.answer fair answered, inv.seriesPath,
      (HttpGet.answer_path answered).trans inv.eventsPath⟩

theorem ChartInv.run {nowMs : ℕ} {actions : List (ChartAction S E)}
    (honest : Along GaugeMetricChart.step (Honest seriesAnswers eventsAnswer)
      (GaugeMetricChart.mount nowMs) actions)
    (ran : Runs.run GaugeMetricChart.step (GaugeMetricChart.mount nowMs) actions = some chart) :
    chart.ChartInv seriesAnswers eventsAnswer :=
  run_induction_along (motive := ChartInv seriesAnswers eventsAnswer)
    (fun _ _ _ inv honest stepped => inv.step honest stepped)
    ⟨HttpGet.FetchInv.mount _ _, HttpGet.FetchInv.mount _ _, rfl, rfl⟩ honest ran

theorem view_eq_loading_iff :
    chart.view = .loading ↔ chart.series.state = .loading ∨ chart.events.state = .loading := by
  unfold view
  split <;> simp_all

theorem view_eq_lineChart {series : S} {range : ChartRange} {events : List E}
    (shown : chart.view = .lineChart series range events) :
    chart.series.state = .loaded series ∧ range = chart.range ∧
      (chart.events.state = .loaded events ∨
        events = [] ∧ ∃ message, chart.events.state = .error message) := by
  unfold view at shown
  split at shown <;> simp_all

/-- A chart that nothing is pending for shows the series of the range it is rendered for, with
the events of that range or, if their request failed, none; or its own request for the series
failed. While it says that it is loading, something is pending. A series it shows has always
been the answer for some range. -/
theorem quiet_chart_shows_range (seriesAnswers : ChartRange → S → Prop)
    (eventsAnswer : ChartRange → List E → Prop) (nowMs : ℕ) (actions : List (ChartAction S E))
    (chart : GaugeMetricChart S E)
    (honest : Along step (Honest seriesAnswers eventsAnswer) (mount nowMs) actions)
    (ran : run step (mount nowMs) actions = some chart) :
    (chart.Quiet → (∃ message, chart.series.state = .error message ∧ chart.view = .failed) ∨
      ∃ series events, chart.view = .lineChart series chart.range events ∧
        seriesAnswers chart.range series ∧ (eventsAnswer chart.range events ∨
          events = [] ∧ ∃ message, chart.events.state = .error message)) ∧
    (chart.view = .loading → ¬ chart.Quiet) ∧
    (∀ series range events, chart.view = .lineChart series range events →
      ∃ asked, seriesAnswers asked series) := by
  have inv := ChartInv.run honest ran
  refine ⟨fun quiet => ?_, fun loading quiet => ?_, fun series range events shown => ?_⟩
  · cases seriesState : chart.series.state with
    | loading => exact absurd (inv.series.loading seriesState) quiet.1
    | error message =>
      cases eventsState : chart.events.state with
      | loading => exact absurd (inv.events.loading eventsState) quiet.2
      | error _ | loaded _ =>
        exact .inl ⟨message, rfl, by simp only [view, seriesState, eventsState]⟩
    | loaded series =>
      have asked : seriesAnswers chart.range series :=
        inv.seriesPath ▸ (inv.series.current series seriesState).resolve_right quiet.1
      cases eventsState : chart.events.state with
      | loading => exact absurd (inv.events.loading eventsState) quiet.2
      | error message =>
        exact .inr ⟨series, [], by simp only [view, seriesState, eventsState], asked,
          .inr ⟨rfl, message, rfl⟩⟩
      | loaded events =>
        have marked : eventsAnswer chart.range events :=
          inv.eventsPath ▸ (inv.events.current events eventsState).resolve_right quiet.2
        exact .inr ⟨series, events, by simp only [view, seriesState, eventsState], asked,
          .inl marked⟩
  · rcases view_eq_loading_iff.mp loading with first | second
    · exact quiet.1 (inv.series.loading first)
    · exact quiet.2 (inv.events.loading second)
  · exact inv.series.loaded series (view_eq_lineChart shown).1

/-- The answer for the first minute comes when the range has moved on, and the events fail. -/
def movedRange : List (ChartAction ℚ ℚ) :=
  [.series (.settle (.ok 0)), .render 60000, .series .deliver, .series (.settle (.ok 60000)),
    .events (.settle (.error "500")), .events .deliver, .series .deliver]

def movedChart : GaugeMetricChart ℚ ℚ :=
  let range : ChartRange := ⟨-86340000, 60000⟩
  ⟨range, ⟨range, 1, false, [], .loaded 60000⟩, ⟨range, 1, false, [], .error "500"⟩⟩

theorem moved_chart_shows_range :
    ∃ series events, movedChart.view = .lineChart series movedChart.range events ∧
      series = movedChart.range.toMs ∧ (events = [movedChart.range.toMs] ∨
        events = [] ∧ ∃ message, movedChart.events.state = .error message) := by
  have ran : run step (mount 0) movedRange = some movedChart := by decide +kernel
  have honest : Along step (Honest (fun range series => series = range.toMs)
      (fun range events => events = [range.toMs])) (mount 0) movedRange := by
    decide +kernel
  have quiet : movedChart.Quiet := by
    simp [Quiet, HttpGet.Pending, movedChart]
  refine ((quiet_chart_shows_range _ _ 0 movedRange movedChart honest ran).1 quiet).resolve_left ?_
  rintro ⟨message, failed, -⟩
  cases failed

end GaugeMetricChart

end MempoolObserver
