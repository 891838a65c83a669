import Mathlib.Algebra.Order.Field.Basic
import Mathlib.Algebra.Order.Field.Rat
import Mathlib.Data.List.Sort
import Mathlib.Data.List.SplitBy
import Mathlib.Order.CompletePartialOrder
import Mathlib.Order.Interval.Set.Disjoint
import Mathlib.Tactic.Linarith

/-!
# Downtime on the charts

A chart must not draw a connected line across a time in which nothing was measured.
The lifecycle events pair up into windows of downtime, each from a stop to the next
start, and a series is cut into segments wherever two neighbours have a window
between them or are too far apart for a healthy sampler.

Times are epoch milliseconds.

## Main definitions

* `downtimeWindows` — the windows of a list of events
* `Down` — a stop came before the time and no start since
* `splitSegments` — a series cut into runs that are safe to draw

## Main results

* `covers_downtimeWindows` — the windows cover exactly the time spent down
* `splitSegments_eq_splitBy` — the loop cuts between each unsafe pair of neighbours
-/

namespace MempoolObserver

/-! ### Windows -/

inductive SystemEventKind
  | serverStarted | serverStopped | bootstrapStarted | bootstrapCompleted
  | nodeConnected | nodeDisconnected | nodeVersionChanged
  deriving DecidableEq, Repr

structure SystemEvent where
  id : ℕ
  kind : SystemEventKind
  createdAt : ℚ
  deriving DecidableEq, Repr

/-- A span that a line must not cross; only spans of positive length are recorded. -/
structure DowntimeWindow where
  fromMs : ℚ
  toMs : ℚ
  ordered : fromMs < toMs
  deriving DecidableEq

/-- The kinds that mark a lifecycle transition. -/
def lifecycleKinds : List SystemEventKind := [.serverStarted, .serverStopped]

def sortByCreatedAt (events : List SystemEvent) : List SystemEvent :=
  events.insertionSort fun a b => a.createdAt ≤ b.createdAt

/-- What the loop of `downtimeWindows` carries from event to event. -/
structure Pairing where
  windows : List DowntimeWindow
  openFrom : Option ℚ

def Pairing.step (pairing : Pairing) (e : SystemEvent) : Pairing :=
  if e.kind = .serverStopped then
    -- a second stop with no start between: downtime began at the first one
    ⟨pairing.windows, some (pairing.openFrom.getD e.createdAt)⟩
  else
    match pairing.openFrom with
    | some openFrom =>
      if later : openFrom < e.createdAt then
        ⟨pairing.windows ++ [⟨openFrom, e.createdAt, later⟩], none⟩
      else ⟨pairing.windows, none⟩
    -- a start with nothing open is a first boot, not an outage
    | none => pairing

/-- A window still open at the end reaches to the end of the domain. -/
def Pairing.finish (pairing : Pairing) (domainTo : ℚ) : List DowntimeWindow :=
  match pairing.openFrom with
  | some openFrom =>
    if later : openFrom < domainTo then
      pairing.windows ++ [⟨openFrom, domainTo, later⟩]
    else pairing.windows
  | none => pairing.windows

/-- Pairs each stop with the next start. -/
def downtimeWindows (events : List SystemEvent) (domainTo : ℚ) : List DowntimeWindow :=
  let sorted := sortByCreatedAt (events.filter (·.kind ∈ lifecycleKinds))
  (sorted.foldl Pairing.step ⟨[], none⟩).finish domainTo

/-! ### The time spent down -/

def DowntimeWindow.times (window : DowntimeWindow) : Set ℚ := Set.Ico window.fromMs window.toMs

def Covers (windows : List DowntimeWindow) (t : ℚ) : Prop := ∃ window ∈ windows, t ∈ window.times

/-- Some stop came before `t` with no start between them, and the time lies before the next
start, or before the end of the domain when no start follows. -/
def Down (events : List SystemEvent) (domainTo t : ℚ) : Prop :=
  ∃ stop ∈ events, stop.kind = .serverStopped ∧ stop.createdAt ≤ t ∧
    (∀ start ∈ events, start.kind = .serverStarted →
      ¬ (stop.createdAt < start.createdAt ∧ start.createdAt ≤ t)) ∧
    ((∀ start ∈ events, start.kind = .serverStarted → start.createdAt ≤ t) → t < domainTo)

section Windows

variable {pairing : Pairing} {e : SystemEvent} {events : List SystemEvent} {domainTo t : ℚ}

/-- The same while the loop is running: an open stop may lie before the events that are
left. -/
def DownFrom (openFrom : Option ℚ) (events : List SystemEvent) (domainTo t : ℚ) : Prop :=
  ∃ stop, (openFrom = some stop ∨
      ∃ e ∈ events, e.kind = .serverStopped ∧ e.createdAt = stop) ∧
    stop ≤ t ∧
    (∀ start ∈ events, start.kind = .serverStarted →
      ¬ (stop < start.createdAt ∧ start.createdAt ≤ t)) ∧
    ((∀ start ∈ events, start.kind = .serverStarted → start.createdAt ≤ t) → t < domainTo)

theorem downFrom_none : DownFrom none events domainTo t ↔ Down events domainTo t := by
  constructor
  · rintro ⟨stop, stopped, rest⟩
    obtain ⟨e, member, kind, rfl⟩ := stopped.resolve_left (by simp)
    exact ⟨e, member, kind, rest⟩
  · rintro ⟨e, member, kind, rest⟩
    exact ⟨e.createdAt, .inr ⟨e, member, kind, rfl⟩, rest⟩

theorem covers_append {windows more : List DowntimeWindow} :
    Covers (windows ++ more) t ↔ Covers windows t ∨ Covers more t := by
  simp only [Covers, List.mem_append, or_and_right, exists_or]

theorem covers_singleton {window : DowntimeWindow} : Covers [window] t ↔ t ∈ window.times := by
  simp only [Covers, List.mem_singleton, exists_eq_left]

/-- Events the loop has still to see come after the stop it has open. -/
def Pairing.Pending (pairing : Pairing) (events : List SystemEvent) : Prop :=
  ∀ openFrom, pairing.openFrom = some openFrom → ∀ e ∈ events, openFrom < e.createdAt

namespace Pairing

theorem step_stop (stopped : e.kind = .serverStopped) :
    pairing.step e = ⟨pairing.windows, some (pairing.openFrom.getD e.createdAt)⟩ :=
  if_pos stopped

theorem step_start_open {openFrom : ℚ} (started : e.kind = .serverStarted)
    (opened : pairing.openFrom = some openFrom) (later : openFrom < e.createdAt) :
    pairing.step e = ⟨pairing.windows ++ [⟨openFrom, e.createdAt, later⟩], none⟩ := by
  simp [step, started, opened, later]

theorem step_start_closed (started : e.kind = .serverStarted)
    (closed : pairing.openFrom = none) : pairing.step e = pairing := by
  simp [step, started, closed]

theorem Pending.step (pending : pairing.Pending (e :: events))
    (later : ∀ next ∈ events, e.createdAt < next.createdAt) (lifecycle : e.kind ∈ lifecycleKinds) :
    (pairing.step e).Pending events := by
  intro openFrom opened next member
  by_cases stopped : e.kind = .serverStopped
  · rw [step_stop stopped] at opened
    cases was : pairing.openFrom with
    | none =>
      rw [was] at opened
      rw [← Option.some.inj opened]
      exact later next member
    | some before =>
      rw [was] at opened
      rw [← Option.some.inj opened]
      exact pending before was next (List.mem_cons_of_mem _ member)
  · have started : e.kind = .serverStarted := by simpa [lifecycleKinds, stopped] using lifecycle
    cases was : pairing.openFrom with
    | none =>
      rw [step_start_closed started was, was] at opened
      cases opened
    | some before =>
      rw [step_start_open started was (pending before was e List.mem_cons_self)] at opened
      cases opened

end Pairing

/-- A stop opens a window, unless one is open already. -/
theorem downFrom_stop {openFrom : Option ℚ} (stopped : e.kind = .serverStopped)
    (open_lt : ∀ before, openFrom = some before → before < e.createdAt)
    (later : ∀ next ∈ events, e.createdAt < next.createdAt) :
    DownFrom openFrom (e :: events) domainTo t ↔
      DownFrom (some (openFrom.getD e.createdAt)) events domainTo t := by
  have starts (P : SystemEvent → Prop) : (∀ start ∈ e :: events, start.kind = .serverStarted →
      P start) ↔ ∀ start ∈ events, start.kind = .serverStarted → P start := by
    simp [stopped]
  simp only [DownFrom, starts]
  constructor
  · rintro ⟨stop, stopped', before, noStart, beforeNext⟩
    cases openFrom with
    | none =>
      refine ⟨stop, ?_, before, noStart, beforeNext⟩
      obtain ⟨event, member, kind, rfl⟩ := stopped'.resolve_left (by simp)
      cases List.mem_cons.mp member with
      | inl here => exact .inl (by rw [here]; rfl)
      | inr rest => exact .inr ⟨event, rest, kind, rfl⟩
    | some openTime =>
      -- the open stop explains whatever a later one explains, unless a start lies between
      rcases stopped' with same | ⟨event, member, kind, rfl⟩
      · exact ⟨stop, .inl same, before, noStart, beforeNext⟩
      · cases List.mem_cons.mp member with
        | inr rest =>
          exact ⟨event.createdAt, .inr ⟨event, rest, kind, rfl⟩, before, noStart, beforeNext⟩
        | inl here =>
          subst here
          refine ⟨openTime, .inl rfl, (open_lt openTime rfl).le.trans before, ?_, beforeNext⟩
          intro start member' kind' between
          exact noStart start member' kind' ⟨later start member', between.2⟩
  · rintro ⟨stop, stopped', rest⟩
    refine ⟨stop, ?_, rest⟩
    rcases stopped' with same | ⟨event, member, kind, eq⟩
    · cases openFrom with
      | none => exact .inr ⟨e, List.mem_cons_self, stopped, Option.some.inj same⟩
      | some openTime => exact .inl same
    · exact .inr ⟨event, List.mem_cons_of_mem _ member, kind, eq⟩

/-- A start ends what was open before it. -/
theorem downFrom_start {openFrom : Option ℚ} (started : e.kind = .serverStarted)
    (open_lt : ∀ before, openFrom = some before → before < e.createdAt)
    (later : ∀ next ∈ events, e.createdAt < next.createdAt) :
    DownFrom openFrom (e :: events) domainTo t ↔
      (∃ before, openFrom = some before ∧ before ≤ t ∧ t < e.createdAt) ∨
        DownFrom none events domainTo t := by
  constructor
  · rintro ⟨stop, stopped, before, noStart, beforeNext⟩
    rcases stopped with same | ⟨event, member, kind, rfl⟩
    -- The opening time survives up to this start and not beyond it.
    · left
      refine ⟨stop, same, before, ?_⟩
      by_contra past
      exact noStart e List.mem_cons_self started ⟨open_lt stop same, not_lt.mp past⟩
    · right
      have rest : event ∈ events := by
        refine (List.mem_cons.mp member).resolve_left fun here => ?_
        rw [here, started] at kind
        cases kind
      refine ⟨event.createdAt, .inr ⟨event, rest, kind, rfl⟩, before,
        fun start member' => noStart start (List.mem_cons_of_mem _ member'), ?_⟩
      intro past
      apply beforeNext
      intro start member' kind'
      cases List.mem_cons.mp member' with
      | inl here => rw [here]; exact (later event rest).le.trans before
      | inr inRest => exact past start inRest kind'
  · rintro (⟨stop, same, before, beforeStart⟩ | ⟨stop, stopped, before, noStart, beforeNext⟩)
    -- Before this start neither it nor any later start lies between the opening and t.
    · refine ⟨stop, .inl same, before, ?_, ?_⟩
      · intro start member kind between
        cases List.mem_cons.mp member with
        | inl here => exact absurd between.2 (by rw [here]; exact beforeStart.not_ge)
        | inr rest => linarith [later start rest, between.2]
      · intro past
        exact absurd (past e List.mem_cons_self started) beforeStart.not_ge
    · obtain ⟨event, member, kind, rfl⟩ := stopped.resolve_left (by simp)
      refine ⟨event.createdAt, .inr ⟨event, List.mem_cons_of_mem _ member, kind, rfl⟩,
        before, ?_, ?_⟩
      · intro start member' kind' between
        cases List.mem_cons.mp member' with
        | inl here => exact absurd between.1 (by rw [here]; exact (later event member).not_gt)
        | inr rest => exact noStart start rest kind' between
      · intro past
        exact beforeNext fun start member' => past start (List.mem_cons_of_mem _ member')

/-- What the loop adds to its windows is the time spent down among the events it sees. -/
theorem covers_finish_foldl (sorted : events.Pairwise fun a b => a.createdAt < b.createdAt)
    (lifecycle : ∀ e ∈ events, e.kind ∈ lifecycleKinds) (pending : pairing.Pending events) :
    Covers ((events.foldl Pairing.step pairing).finish domainTo) t ↔
      Covers pairing.windows t ∨ DownFrom pairing.openFrom events domainTo t := by
  induction events generalizing pairing with
  | nil =>
    obtain ⟨windows, openFrom⟩ := pairing
    cases openFrom with
    | none => simp [Pairing.finish, DownFrom]
    | some openTime =>
      have ends : DownFrom (some openTime) [] domainTo t ↔ openTime ≤ t ∧ t < domainTo := by
        simp [DownFrom]
      rw [ends]
      -- An outage open at the end runs to the domain end, unless that lies before its stop.
      by_cases later : openTime < domainTo
      · simp only [List.foldl_nil, Pairing.finish, later, dite_true]
        rw [covers_append, covers_singleton, DowntimeWindow.times, Set.mem_Ico]
      · simp only [List.foldl_nil, Pairing.finish, later, dite_false]
        refine (or_iff_left fun inside => ?_).symm
        exact later (inside.1.trans_lt inside.2)
  | cons e events ih =>
    have later : ∀ next ∈ events, e.createdAt < next.createdAt := fun next member =>
      List.rel_of_pairwise_cons sorted member
    have kind := lifecycle e List.mem_cons_self
    have rest : ∀ next ∈ events, next.kind ∈ lifecycleKinds := fun next member =>
      lifecycle next (List.mem_cons_of_mem e member)
    have open_lt : ∀ openFrom, pairing.openFrom = some openFrom → openFrom < e.createdAt :=
      fun openFrom opened => pending openFrom opened e List.mem_cons_self
    rw [List.foldl_cons, ih sorted.of_cons rest (pending.step later kind)]
    by_cases stopped : e.kind = .serverStopped
    · rw [downFrom_stop stopped open_lt later, Pairing.step_stop stopped]
    · have started : e.kind = .serverStarted := by simpa [lifecycleKinds, stopped] using kind
      rw [downFrom_start started open_lt later]
      cases was : pairing.openFrom with
      | none =>
        rw [Pairing.step_start_closed started was, was]
        simp
      | some openFrom =>
        rw [Pairing.step_start_open started was (open_lt openFrom was), covers_append,
          covers_singleton, or_assoc]
        simp [DowntimeWindow.times]

/-- Windows in ascending order, with time between any two of them. -/
def Ascending (windows : List DowntimeWindow) : Prop :=
  windows.Pairwise fun window next => window.toMs < next.fromMs

theorem Ascending.append {windows : List DowntimeWindow} {next : DowntimeWindow}
    (ascending : Ascending windows) (before : ∀ window ∈ windows, window.toMs < next.fromMs) :
    Ascending (windows ++ [next]) := by
  refine List.pairwise_append.mpr ⟨ascending, List.pairwise_singleton .., ?_⟩
  intro window member other here
  rw [List.mem_singleton.mp here]
  exact before window member

/-- Windows in order are disjoint, their end points included. -/
theorem Ascending.disjoint {windows : List DowntimeWindow} (ascending : Ascending windows) :
    windows.Pairwise fun window next =>
      Disjoint (Set.Icc window.fromMs window.toMs) (Set.Icc next.fromMs next.toMs) :=
  ascending.imp fun before => Set.disjoint_left.mpr fun _ inFirst inNext =>
    absurd (inNext.1.trans inFirst.2) before.not_ge

/-- The windows closed so far end before the open stop and before the events to come. -/
structure Pairing.Closed (pairing : Pairing) (events : List SystemEvent) : Prop where
  ascending : Ascending pairing.windows
  before_open : ∀ window ∈ pairing.windows, ∀ openFrom, pairing.openFrom = some openFrom →
    window.toMs < openFrom
  before : ∀ window ∈ pairing.windows, ∀ e ∈ events, window.toMs < e.createdAt

namespace Pairing

theorem Closed.step (closed : pairing.Closed (e :: events))
    (pending : pairing.Pending (e :: events))
    (later : ∀ next ∈ events, e.createdAt < next.createdAt) (lifecycle : e.kind ∈ lifecycleKinds) :
    (pairing.step e).Closed events := by
  have before : ∀ window ∈ pairing.windows, ∀ next ∈ events, window.toMs < next.createdAt :=
    fun window member next inRest =>
      closed.before window member next (List.mem_cons_of_mem _ inRest)
  by_cases stopped : e.kind = .serverStopped
  · rw [step_stop stopped]
    -- The windows already closed end before any earlier event, hence before an opening kept or made
    -- here.
    refine ⟨closed.ascending, ?_, before⟩
    intro window member openFrom opened
    cases was : pairing.openFrom with
    | none =>
      rw [was] at opened
      rw [← Option.some.inj opened]
      exact closed.before window member e List.mem_cons_self
    | some first =>
      rw [was] at opened
      rw [← Option.some.inj opened]
      exact closed.before_open window member first was
  · have started : e.kind = .serverStarted := by simpa [lifecycleKinds, stopped] using lifecycle
    cases was : pairing.openFrom with
    | none =>
      rw [step_start_closed started was]
      exact ⟨closed.ascending, closed.before_open, before⟩
    | some openFrom =>
      rw [step_start_open started was (pending openFrom was e List.mem_cons_self)]
      refine ⟨closed.ascending.append fun window member =>
        closed.before_open window member openFrom was, ?_, ?_⟩
      · intro window member other opened
        cases opened
      · intro window member next inRest
        cases List.mem_append.mp member with
        | inl old => exact before window old next inRest
        | inr new => rw [List.mem_singleton.mp new]; exact later next inRest

theorem Closed.finish (closed : pairing.Closed []) (domainTo : ℚ) :
    Ascending (pairing.finish domainTo) := by
  unfold Pairing.finish
  cases was : pairing.openFrom with
  | none => exact closed.ascending
  | some openFrom =>
    dsimp only
    split_ifs with later
    · exact closed.ascending.append fun window member =>
        closed.before_open window member openFrom was
    · exact closed.ascending

theorem Closed.finish_foldl (sorted : events.Pairwise fun a b => a.createdAt < b.createdAt)
    (lifecycle : ∀ e ∈ events, e.kind ∈ lifecycleKinds) (pending : pairing.Pending events)
    (closed : pairing.Closed events) (domainTo : ℚ) :
    Ascending ((events.foldl Pairing.step pairing).finish domainTo) := by
  induction events generalizing pairing with
  | nil => exact closed.finish domainTo
  | cons e events ih =>
    have later : ∀ next ∈ events, e.createdAt < next.createdAt := fun next member =>
      List.rel_of_pairwise_cons sorted member
    have kind := lifecycle e List.mem_cons_self
    have rest : ∀ next ∈ events, next.kind ∈ lifecycleKinds := fun next member =>
      lifecycle next (List.mem_cons_of_mem e member)
    exact ih sorted.of_cons rest (pending.step later kind) (closed.step pending later kind)

end Pairing

/-- Sorting events of distinct times puts them in strictly ascending order. -/
theorem pairwise_sortByCreatedAt (distinct : (events.map SystemEvent.createdAt).Nodup) :
    (sortByCreatedAt events).Pairwise fun a b => a.createdAt < b.createdAt := by
  let Before (a b : SystemEvent) : Prop := a.createdAt ≤ b.createdAt
  have total : Std.Total Before := ⟨fun a b => le_total a.createdAt b.createdAt⟩
  have transitive : IsTrans SystemEvent Before := ⟨fun _ _ _ => le_trans⟩
  have ordered : (sortByCreatedAt events).Pairwise Before :=
    List.pairwise_insertionSort Before events
  have perm : (sortByCreatedAt events).Perm events := List.perm_insertionSort Before events
  have apart : (sortByCreatedAt events).Pairwise fun a b => a.createdAt ≠ b.createdAt :=
    List.pairwise_map.mp ((perm.map _).nodup_iff.mpr distinct)
  exact ordered.imp₂ (fun _ _ => lt_of_le_of_ne) apart

/-- Only the lifecycle events matter, in any order. -/
theorem down_lifecycle :
    Down (sortByCreatedAt (events.filter (·.kind ∈ lifecycleKinds))) domainTo t ↔
      Down events domainTo t := by
  have kept (e : SystemEvent) (lifecycle : e.kind ∈ lifecycleKinds) :
      e ∈ sortByCreatedAt (events.filter (·.kind ∈ lifecycleKinds)) ↔ e ∈ events := by
    rw [sortByCreatedAt, List.mem_insertionSort, List.mem_filter]
    exact and_iff_left (decide_eq_true lifecycle)
  have starts (P : SystemEvent → Prop) :
      (∀ start ∈ sortByCreatedAt (events.filter (·.kind ∈ lifecycleKinds)),
        start.kind = .serverStarted → P start) ↔
        ∀ start ∈ events, start.kind = .serverStarted → P start := by
    refine forall_congr' fun start => ?_
    constructor
    · intro holds member kind
      exact holds ((kept start (by simp [lifecycleKinds, kind])).mpr member) kind
    · intro holds member kind
      exact holds ((kept start (by simp [lifecycleKinds, kind])).mp member) kind
  simp only [Down, starts]
  refine exists_congr fun stop => and_congr_left fun stopped => ?_
  exact kept stop (by simp [lifecycleKinds, stopped.1])

private theorem lifecycle_of_mem :
    ∀ e ∈ sortByCreatedAt (events.filter (·.kind ∈ lifecycleKinds)), e.kind ∈ lifecycleKinds := by
  intro e member
  rw [sortByCreatedAt, List.mem_insertionSort] at member
  exact of_decide_eq_true (List.mem_filter.mp member).2

private theorem sorted_lifecycle (distinct : (events.map SystemEvent.createdAt).Nodup) :
    (sortByCreatedAt (events.filter (·.kind ∈ lifecycleKinds))).Pairwise fun a b =>
      a.createdAt < b.createdAt :=
  pairwise_sortByCreatedAt (distinct.sublist (List.filter_sublist.map _))

private theorem pending_start : Pairing.Pending ⟨[], none⟩ events := by
  intro openFrom opened
  cases opened

/-- The windows cover exactly the time spent down. -/
theorem covers_downtimeWindows (distinct : (events.map SystemEvent.createdAt).Nodup) :
    Covers (downtimeWindows events domainTo) t ↔ Down events domainTo t := by
  rw [downtimeWindows, covers_finish_foldl (sorted_lifecycle distinct) lifecycle_of_mem
    pending_start, downFrom_none, down_lifecycle]
  simp [Covers]

theorem ascending_downtimeWindows (distinct : (events.map SystemEvent.createdAt).Nodup)
    (domainTo : ℚ) : Ascending (downtimeWindows events domainTo) := by
  refine Pairing.Closed.finish_foldl (sorted_lifecycle distinct) lifecycle_of_mem pending_start
    ?_ domainTo
  exact ⟨List.Pairwise.nil, by simp, by simp⟩

end Windows

/-! ### Segments -/

section Segments

variable {α : Type} (sampledAt : α → ℚ) (resolutionSecs : ℚ) (windows : List DowntimeWindow)

/-- Past this many resolutions a bucket is missing between two neighbours. -/
def gapFactor : ℚ := 2

def maxGapMs : ℚ := gapFactor * resolutionSecs * 1000

/-- The test of the loop: a window lies between the neighbours, or a bucket is missing. -/
def breaksAt (ta tb : ℚ) : Bool :=
  windows.any (fun w => w.fromMs < tb ∧ ta < w.toMs) ∨ maxGapMs resolutionSecs < tb - ta

/-- What the loop of `splitSegments` carries from point to point. -/
structure Splitting (α : Type) where
  segments : List (List α)
  current : List α
  ta : ℚ

def Splitting.step (splitting : Splitting α) (b : α) : Splitting α :=
  if breaksAt resolutionSecs windows splitting.ta (sampledAt b) then
    ⟨splitting.segments ++ [splitting.current], [b], sampledAt b⟩
  else ⟨splitting.segments, splitting.current ++ [b], sampledAt b⟩

/-- Splits a series into runs that are safe to draw as connected lines. -/
def splitSegments : List α → List (List α)
  | [] => []
  | first :: rest =>
    let splitting := rest.foldl (Splitting.step sampledAt resolutionSecs windows)
      ⟨[], [first], sampledAt first⟩
    splitting.segments ++ [splitting.current]

/-- Neighbours that the loop keeps together. -/
def joined (a b : α) : Bool := !breaksAt resolutionSecs windows (sampledAt a) (sampledAt b)

/-- The loop cuts the series between the neighbours that are not safe to join. -/
theorem splitSegments_eq_splitBy (points : List α) :
    splitSegments sampledAt resolutionSecs windows points =
      points.splitBy (joined sampledAt resolutionSecs windows) := by
  -- The accumulator of the loop, reversed, is the one of the library's splitter.
  have run (rest : List α) (last : α) (before : List α) (segments : List (List α)) :
      let splitting := rest.foldl (Splitting.step sampledAt resolutionSecs windows)
        ⟨segments.reverse, before.reverse ++ [last], sampledAt last⟩
      splitting.segments ++ [splitting.current] =
        List.splitBy.loop (joined sampledAt resolutionSecs windows) rest last before segments := by
    induction rest generalizing last before segments with
    | nil => simp [List.splitBy.loop]
    | cons b rest ih =>
      rw [List.foldl_cons, Splitting.step, List.splitBy.loop, joined]
      cases breaksAt resolutionSecs windows (sampledAt last) (sampledAt b) with
      | true =>
        simpa using ih b [] ((last :: before).reverse :: segments)
      | false =>
        simpa using ih b (last :: before) segments
  cases points with
  | nil => rfl
  | cons first rest => exact run rest first [] []

/-- No line may be drawn between the two: a window meets the open interval between them, or
the gap exceeds twice the resolution. -/
def Unsafe (a b : α) : Prop :=
  (∃ window ∈ windows, (Set.Ioo (sampledAt a) (sampledAt b) ∩ window.times).Nonempty) ∨
    2 * (resolutionSecs * 1000) < sampledAt b - sampledAt a

variable {sampledAt resolutionSecs windows} {a b : α}

theorem DowntimeWindow.meets_iff (window : DowntimeWindow) {ta tb : ℚ} (before : ta < tb) :
    (Set.Ioo ta tb ∩ window.times).Nonempty ↔ window.fromMs < tb ∧ ta < window.toMs := by
  constructor
  · rintro ⟨t, between, inside⟩
    exact ⟨inside.1.trans_lt between.2, between.1.trans inside.2⟩
  · rintro ⟨fromBefore, toAfter⟩
    obtain ⟨t, lower, upper⟩ := exists_between (max_lt (lt_min before toAfter)
      (lt_min fromBefore window.ordered))
    rw [max_lt_iff] at lower
    rw [lt_min_iff] at upper
    exact ⟨t, ⟨lower.1, upper.1⟩, ⟨lower.2.le, upper.2⟩⟩

theorem breaksAt_iff {ta tb : ℚ} :
    breaksAt resolutionSecs windows ta tb = true ↔
      (∃ window ∈ windows, window.fromMs < tb ∧ ta < window.toMs) ∨
        2 * (resolutionSecs * 1000) < tb - ta := by
  simp [breaksAt, maxGapMs, gapFactor, mul_assoc]

/-- The loop cuts at least where it must. -/
theorem not_unsafe_of_joined (together : joined sampledAt resolutionSecs windows a b = true) :
    ¬ Unsafe sampledAt resolutionSecs windows a b := by
  rw [joined, Bool.not_eq_true', ← Bool.not_eq_true, breaksAt_iff, not_or] at together
  intro separated
  rcases separated with ⟨window, member, t, between, inside⟩ | gap
  · exact together.1 ⟨window, member, inside.1.trans_lt between.2, between.1.trans inside.2⟩
  · exact together.2 gap

/-- It cuts elsewhere only between two samples of one instant inside a window. -/
theorem unsafe_of_not_joined (ascending : sampledAt a ≤ sampledAt b)
    (apart : joined sampledAt resolutionSecs windows a b = false) :
    Unsafe sampledAt resolutionSecs windows a b ∨ sampledAt a = sampledAt b ∧
      ∃ window ∈ windows, sampledAt a ∈ Set.Ioo window.fromMs window.toMs := by
  rw [joined, Bool.not_eq_false', breaksAt_iff] at apart
  rcases apart with ⟨window, member, crosses⟩ | gap
  · rcases ascending.lt_or_eq with before | same
    · exact .inl (.inl ⟨window, member, (window.meets_iff before).mpr crosses⟩)
    · exact .inr ⟨same, window, member, by rw [same]; exact crosses.1, crosses.2⟩
  · exact .inl (.inr gap)

/-- What holds between points in their order holds across the cuts. -/
theorem across_splitSegments {R : α → α → Prop} {points : List α} (sampledAt : α → ℚ)
    (resolutionSecs : ℚ) (windows : List DowntimeWindow) (ordered : points.Pairwise R) :
    (splitSegments sampledAt resolutionSecs windows points).IsChain
      fun segment next => ∀ a ∈ segment, ∀ b ∈ next, R a b := by
  rw [splitSegments_eq_splitBy]
  rw [← List.flatten_splitBy (joined sampledAt resolutionSecs windows) points] at ordered
  exact (List.pairwise_flatten.mp ordered).2.isChain

/-- Two segments that follow each other, at the cut between them. -/
theorem cuts_splitSegments {points : List α} (sampledAt : α → ℚ) (resolutionSecs : ℚ)
    (windows : List DowntimeWindow)
    (ascending : points.Pairwise fun a b => sampledAt a ≤ sampledAt b) :
    (splitSegments sampledAt resolutionSecs windows points).IsChain fun segment next =>
      ∃ ends begins, Unsafe sampledAt resolutionSecs windows (segment.getLast ends)
          (next.head begins) ∨
        sampledAt (segment.getLast ends) = sampledAt (next.head begins) ∧
          ∃ window ∈ windows,
            sampledAt (segment.getLast ends) ∈ Set.Ioo window.fromMs window.toMs := by
  have order := across_splitSegments sampledAt resolutionSecs windows ascending
  rw [splitSegments_eq_splitBy] at order ⊢
  have cut := List.isChain_getLast_head_splitBy (joined sampledAt resolutionSecs windows) points
  rw [List.isChain_iff_getElem] at cut order ⊢
  intro i bound
  obtain ⟨ends, begins, apart⟩ := cut i bound
  exact ⟨ends, begins, unsafe_of_not_joined
    (order i bound _ (List.getLast_mem ends) _ (List.head_mem begins)) apart⟩

/-- Points of distinct times are cut only where the line between them would be unsafe. -/
theorem cuts_splitSegments_of_lt {points : List α} (sampledAt : α → ℚ) (resolutionSecs : ℚ)
    (windows : List DowntimeWindow)
    (ascending : points.Pairwise fun a b => sampledAt a < sampledAt b) :
    (splitSegments sampledAt resolutionSecs windows points).IsChain fun segment next =>
      ∃ ends begins, Unsafe sampledAt resolutionSecs windows (segment.getLast ends)
        (next.head begins) := by
  have order := across_splitSegments sampledAt resolutionSecs windows ascending
  have cut := cuts_splitSegments sampledAt resolutionSecs windows (ascending.imp le_of_lt)
  rw [List.isChain_iff_getElem] at cut order ⊢
  intro i bound
  obtain ⟨ends, begins, crosses | ⟨same, -⟩⟩ := cut i bound
  · exact ⟨ends, begins, crosses⟩
  · exact absurd same (order i bound _ (List.getLast_mem ends) _ (List.head_mem begins)).ne

/-- The windows of a list of events are ascending, disjoint and nonempty, and cover the time
spent down; the segments of a series are the coarsest cut of it that never draws a line
across a window or a missing bucket. Only two points of one time, inside a window, are cut
without that. -/
theorem downtime_segmentation {events : List SystemEvent}
    (distinct : (events.map SystemEvent.createdAt).Nodup) (domainTo : ℚ) {points : List α}
    (ascending : points.Pairwise fun a b => sampledAt a ≤ sampledAt b)
    (resolutionSecs : ℚ) (windows : List DowntimeWindow) :
    (Ascending (downtimeWindows events domainTo) ∧
      (downtimeWindows events domainTo).Pairwise (fun window next =>
        Disjoint (Set.Icc window.fromMs window.toMs) (Set.Icc next.fromMs next.toMs)) ∧
      (∀ window ∈ downtimeWindows events domainTo, window.times.Nonempty) ∧
      ∀ t, Covers (downtimeWindows events domainTo) t ↔ Down events domainTo t) ∧
    (∀ segment ∈ splitSegments sampledAt resolutionSecs windows points, segment ≠ [] ∧
      segment.IsChain fun a b => ¬ Unsafe sampledAt resolutionSecs windows a b) ∧
    (splitSegments sampledAt resolutionSecs windows points).flatten = points ∧
    ((splitSegments sampledAt resolutionSecs windows points).IsChain fun segment next =>
      ∃ ends begins, Unsafe sampledAt resolutionSecs windows (segment.getLast ends)
          (next.head begins) ∨
        sampledAt (segment.getLast ends) = sampledAt (next.head begins) ∧
          ∃ window ∈ windows,
            sampledAt (segment.getLast ends) ∈ Set.Ioo window.fromMs window.toMs) ∧
    ((points.Pairwise fun a b => sampledAt a < sampledAt b) →
      (splitSegments sampledAt resolutionSecs windows points).IsChain fun segment next =>
        ∃ ends begins, Unsafe sampledAt resolutionSecs windows (segment.getLast ends)
          (next.head begins)) := by
  refine ⟨⟨ascending_downtimeWindows distinct domainTo,
    (ascending_downtimeWindows distinct domainTo).disjoint, ?_, ?_⟩, ?_, ?_,
    cuts_splitSegments sampledAt resolutionSecs windows ascending,
    cuts_splitSegments_of_lt sampledAt resolutionSecs windows⟩
  · intro window _
    exact Set.nonempty_Ico.mpr window.ordered
  · intro t
    exact covers_downtimeWindows distinct
  · intro segment member
    rw [splitSegments_eq_splitBy] at member
    exact ⟨List.ne_nil_of_mem_splitBy member,
      (List.isChain_of_mem_splitBy member).imp fun _ _ => not_unsafe_of_joined⟩
  · rw [splitSegments_eq_splitBy, List.flatten_splitBy]

/-- A restart reported last, and three points around it. -/
theorem restart_segmentation :
    let events : List SystemEvent :=
      [⟨2, .serverStarted, 300⟩, ⟨1, .serverStopped, 100⟩, ⟨3, .serverStopped, 200⟩]
    Covers (downtimeWindows events 1000) 250 ∧
      splitSegments (fun t => t) 60 (downtimeWindows events 1000) [50, 100, 350] =
        [[50, 100], [350]] ∧
      Unsafe (fun t => t) 60 (downtimeWindows events 1000) 100 350 := by
  intro events
  have distinct : (events.map SystemEvent.createdAt).Nodup := by decide
  have ascending : [(50 : ℚ), 100, 350].Pairwise fun a b => a < b := by decide
  have cut : splitSegments (fun t => t) 60 (downtimeWindows events 1000) [50, 100, 350] =
      [[50, 100], [350]] := by decide +kernel
  obtain ⟨⟨-, -, -, covers⟩, -, -, -, strict⟩ := downtime_segmentation distinct 1000
    (ascending.imp le_of_lt) 60 (downtimeWindows events 1000)
  refine ⟨(covers 250).mpr ⟨⟨1, .serverStopped, 100⟩, ?_⟩, cut, ?_⟩
  · refine ⟨by simp [events], rfl, by norm_num, ?_, ?_⟩ <;> simp [events] <;> norm_num
  · have chain := strict ascending
    rw [cut, List.isChain_pair] at chain
    obtain ⟨_, _, crosses⟩ := chain
    exact crosses

end Segments

end MempoolObserver
