import MempoolObserver.Library.RunEnds
import MempoolObserver.Web.ChartPlot

/-!
# The feerate diagram chart

The chart draws the part of the cumulative diagram that fits a window of blocks, with at most
one point for each pixel column, and the first one of all. The point drawn in a column is the
last that falls into it, and it keeps the feerate of its own chunk, taken before points are left
out.

## Main definitions

* `filterToWindow`, `decimatePoints`, `marginalFeerateAt`
* `feerateDiagramLayout` — the drawn points and the block boundaries

## Main results

* `drawn_curve_fills_columns`
-/

namespace MempoolObserver

open RunEnds

/-- One point of the diagram; both numbers are cumulative. -/
structure FeerateDiagramPoint where
  weight : ℕ
  feeSats : ℤ
  deriving DecidableEq

/-- Weight units in one block. -/
def blockWeight : ℕ := 4000000

inductive FeerateDiagramWindow where
  | one
  | two
  | three
  | all

/-- The blocks of a window that is not the whole diagram. -/
def FeerateDiagramWindow.blocks : FeerateDiagramWindow → Option ℕ
  | .one => some 1
  | .two => some 2
  | .three => some 3
  | .all => none

structure FeerateDiagramPointPx where
  px : ℚ
  py : ℚ
  point : FeerateDiagramPoint
  /-- The feerate of the chunk that ends here, from the point before it. -/
  marginalSatPerVb : Option ℚ

structure FeerateDiagramBlockBoundary where
  weight : ℕ
  px : ℚ

structure FeerateDiagramLayout where
  points : List FeerateDiagramPointPx
  plot : PlotRect
  blockBoundaries : List FeerateDiagramBlockBoundary

def totalWeight (points : List FeerateDiagramPoint) : ℕ :=
  (points.getLast?.map FeerateDiagramPoint.weight).getD 0

def windowMaxWeight (points : List FeerateDiagramPoint) (window : FeerateDiagramWindow) : ℕ :=
  match window.blocks with
  | none => totalWeight points
  | some blocks => min (blocks * blockWeight) (totalWeight points)

def filterToWindow (points : List FeerateDiagramPoint) (window : FeerateDiagramWindow) :
    List FeerateDiagramPoint :=
  points.filter fun p => p.weight ≤ windowMaxWeight points window

/-- The loop of `blockBoundaryWeights`, at `weight`. -/
def boundariesFrom (windowMax weight : ℕ) : List ℕ :=
  if weight ≤ windowMax then weight :: boundariesFrom windowMax (weight + blockWeight) else []
termination_by windowMax + 1 - weight
decreasing_by
  rw [blockWeight]
  omega

/-- Every multiple of the block weight up to `windowMax`. -/
def blockBoundaryWeights (windowMax : ℕ) : List ℕ := boundariesFrom windowMax blockWeight

/-- What the loop of `decimatePoints` carries: objects are told apart by identity, so each point
comes with its index. -/
structure Decimation where
  out : List (FeerateDiagramPointPx × ℕ)
  bucket : ℤ

def Decimation.step (decimation : Decimation) (p : FeerateDiagramPointPx × ℕ) : Decimation :=
  let b := ⌊p.1.px⌋
  if b = decimation.bucket then { decimation with out := decimation.out.dropLast ++ [p] }
  else ⟨decimation.out ++ [p], b⟩

/-- At most one point for each pixel column, the last in it, with the first point kept. -/
def decimatePoints (points : List FeerateDiagramPointPx) : List FeerateDiagramPointPx :=
  if points.length ≤ 2 then points
  else match points.zipIdx with
    | [] => []
    | first :: rest =>
      let out := (rest.foldl Decimation.step ⟨[first], ⌊first.1.px⌋⟩).out
      -- `out[0] !== points[0]`
      let restored := if out.head?.map Prod.snd = some first.2 then out else first :: out
      restored.map Prod.fst

/-- Slope between a point and the one before it, in sat/vB. -/
def marginalFeerateAt (points : List FeerateDiagramPoint) (index : ℕ) : Option ℚ :=
  if index = 0 then none
  else do
    let cur ← points[index]?
    let prev ← points[index - 1]?
    if cur.weight ≤ prev.weight then none
    else some (4 * (cur.feeSats - prev.feeSats) / (cur.weight - prev.weight))

section Layout

-- `scaleLinear().domain(domain).range(range)`, and the same with `.nice()`.
variable (scaleLinear scaleNice : ℚ × ℚ → ℚ × ℚ → ℚ → ℚ)

/-- The points of the window in pixels, each with the feerate of its chunk. -/
def pxPoints (xScale yScale : ℚ → ℚ) (filtered : List FeerateDiagramPoint) :
    List FeerateDiagramPointPx :=
  filtered.mapIdx fun i p => ⟨xScale p.weight, yScale p.feeSats, p, marginalFeerateAt filtered i⟩

/-- Guarded against a window that clips to nothing or to the origin. -/
def xDomainMax (points : List FeerateDiagramPoint) (window : FeerateDiagramWindow) : ℕ :=
  if 0 < windowMaxWeight points window then windowMaxWeight points window else 1

/-- The layout of the curve, clipped to the window, in a viewBox of `w` by `h`. -/
def feerateDiagramLayout (points : List FeerateDiagramPoint) (window : FeerateDiagramWindow)
    (w h : ℚ) : FeerateDiagramLayout :=
  let plot := plotRect w h
  let filtered := filterToWindow points window
  match points, filtered.getLast? with
  | [], _ => ⟨[], plot, []⟩
  | _, none => ⟨[], plot, []⟩
  | _, some last =>
    let xScale := scaleLinear (0, xDomainMax points window) (plot.left, plot.left + plot.width)
    let yDomainMax := if 0 < last.feeSats then last.feeSats else 1
    let yScale := scaleNice (0, yDomainMax) (plot.top + plot.height, plot.top)
    ⟨decimatePoints (pxPoints xScale yScale filtered), plot,
      (blockBoundaryWeights (windowMaxWeight points window)).map fun weight =>
        ⟨weight, xScale weight⟩⟩

end Layout

/-- The column of pixels a point falls into. -/
def column (p : FeerateDiagramPointPx) : ℤ := ⌊p.px⌋

def indexedColumn (p : FeerateDiagramPointPx × ℕ) : ℤ := column p.1

section Decimation

variable {points rest : List FeerateDiagramPointPx} {first : FeerateDiagramPointPx}
  {front : List (FeerateDiagramPointPx × ℕ)} {last p : FeerateDiagramPointPx × ℕ}

theorem Decimation.step_same (same : indexedColumn last = indexedColumn p) :
    Decimation.step ⟨front ++ [last], indexedColumn last⟩ p =
      ⟨front ++ [p], indexedColumn p⟩ := by
  calc Decimation.step ⟨front ++ [last], indexedColumn last⟩ p
      = ⟨(front ++ [last]).dropLast ++ [p], indexedColumn last⟩ := if_pos same.symm
    _ = ⟨front ++ [p], indexedColumn p⟩ := by rw [List.dropLast_concat, same]

theorem Decimation.step_apart (apart : indexedColumn last ≠ indexedColumn p) :
    Decimation.step ⟨front ++ [last], indexedColumn last⟩ p =
      ⟨front ++ [last] ++ [p], indexedColumn p⟩ :=
  if_neg apart.symm

/-- The loop keeps the last point of each run of one bucket. -/
theorem out_foldl_step (front rest : List (FeerateDiagramPointPx × ℕ))
    (last : FeerateDiagramPointPx × ℕ) :
    (rest.foldl Decimation.step ⟨front ++ [last], indexedColumn last⟩).out =
      front ++ runEnds indexedColumn (last :: rest) := by
  induction rest generalizing front last with
  | nil => rfl
  | cons p rest ih =>
    rw [List.foldl_cons]
    by_cases same : indexedColumn last = indexedColumn p
    · rw [Decimation.step_same same, ih, runEnds_cons_of_eq same]
    · rw [Decimation.step_apart same, ih, runEnds_cons_of_ne same, List.append_assoc]
      rfl

/-- The points with their indices, thinned out, and the first point put back where its bucket
lost it. -/
theorem decimatePoints_cons (first : FeerateDiagramPointPx) (rest : List FeerateDiagramPointPx) :
    let ends := runEnds indexedColumn ((first :: rest).zipIdx)
    decimatePoints (first :: rest) =
      (if ends.head?.map Prod.snd = some 0 then ends else (first, 0) :: ends).map Prod.fst := by
  rcases rest with _ | ⟨second, _ | ⟨third, rest⟩⟩
  · rfl
  · intro ends
    by_cases same : column first = column second
    · have kept : ends = [(second, 1)] := runEnds_cons_of_eq same
      rw [kept]
      rfl
    · have kept : ends = [(first, 0), (second, 1)] := runEnds_cons_of_ne same
      rw [kept]
      rfl
  · intro ends
    have looped := out_foldl_step [] ((second :: third :: rest).zipIdx 1) (first, 0)
    have many : ¬ (first :: second :: third :: rest).length ≤ 2 := by
      simp
    rw [decimatePoints, if_neg many]
    exact congrArg (fun out : List (FeerateDiagramPointPx × ℕ) =>
      (if out.head?.map Prod.snd = some 0 then out else (first, 0) :: out).map Prod.fst) looped

theorem map_fst_runEnds (points : List (FeerateDiagramPointPx × ℕ)) :
    (runEnds indexedColumn points).map Prod.fst = runEnds column (points.map Prod.fst) :=
  (map_runEnds Prod.fst points).symm

/-- What is drawn are the last points of the runs, after the first point if that is not one. -/
theorem decimatePoints_cons_cases (first : FeerateDiagramPointPx)
    (rest : List FeerateDiagramPointPx) :
    let ends := runEnds column (first :: rest)
    (decimatePoints (first :: rest) = ends ∧ ends.head? = some first) ∨
      (decimatePoints (first :: rest) = first :: ends ∧ ends.Sublist rest) := by
  intro ends
  have unindexed : (runEnds indexedColumn ((first :: rest).zipIdx)).map Prod.fst = ends := by
    rw [map_fst_runEnds, List.zipIdx_map_fst]
  rw [decimatePoints_cons]
  have kept : (runEnds indexedColumn ((first :: rest).zipIdx)).Sublist
      ((first, 0) :: rest.zipIdx 1) := runEnds_sublist _
  split_ifs with intact
  · left
    refine ⟨unindexed, ?_⟩
    obtain ⟨p, begins, index⟩ := Option.map_eq_some_iff.mp intact
    -- only the first point has the index 0
    have listed := kept.subset (List.mem_of_head? begins)
    rw [← unindexed, List.head?_map, begins]
    rcases List.mem_cons.mp listed with rfl | later
    · rfl
    · have bound := List.le_snd_of_mem_zipIdx later
      omega
  · right
    rw [List.map_cons, unindexed]
    refine ⟨rfl, ?_⟩
    rcases List.sublist_cons_iff.mp kept with within | ⟨ends', opened, -⟩
    · have unindexed' := within.map Prod.fst
      rwa [unindexed, List.zipIdx_map_fst] at unindexed'
    · rw [opened] at intact
      exact absurd rfl intact

variable (points) in
/-- The drawn points are some of the points, the first and the last among them. -/
theorem decimatePoints_sublist : (decimatePoints points).Sublist points := by
  cases points with
  | nil => exact List.Sublist.refl []
  | cons first rest =>
    rcases decimatePoints_cons_cases first rest with ⟨drawn, -⟩ | ⟨drawn, within⟩
    · rw [drawn]
      exact runEnds_sublist _
    · rw [drawn]
      exact within.cons_cons first

variable (points) in
theorem head?_decimatePoints : (decimatePoints points).head? = points.head? := by
  cases points with
  | nil => rfl
  | cons first rest =>
    rcases decimatePoints_cons_cases first rest with ⟨drawn, begins⟩ | ⟨drawn, -⟩
    · rw [drawn, begins, List.head?_cons]
    · rw [drawn, List.head?_cons, List.head?_cons]

variable (points) in
theorem getLast?_decimatePoints : (decimatePoints points).getLast? = points.getLast? := by
  cases points with
  | nil => rfl
  | cons first rest =>
    have ends : (runEnds column (first :: rest)).getLast? = (first :: rest).getLast? :=
      getLast?_runEnds _
    rcases decimatePoints_cons_cases first rest with ⟨drawn, -⟩ | ⟨drawn, -⟩
    · rw [drawn, ends]
    · rw [drawn, List.getLast?_cons, ends, List.getLast?_cons]
      rfl

/-- Every drawn point but the first is the last one of a column, and all those are drawn. -/
theorem runEnds_sublist_decimatePoints : (runEnds column points).Sublist (decimatePoints points) := by
  cases points with
  | nil => exact List.Sublist.refl []
  | cons first rest =>
    rcases decimatePoints_cons_cases first rest with ⟨drawn, -⟩ | ⟨drawn, -⟩
    · rw [drawn]
    · rw [drawn]
      exact List.sublist_cons_self _ _

theorem length_decimatePoints_le :
    (decimatePoints points).length ≤ (runEnds column points).length + 1 := by
  cases points with
  | nil => exact Nat.zero_le _
  | cons first rest =>
    rcases decimatePoints_cons_cases first rest with ⟨drawn, -⟩ | ⟨drawn, -⟩
    · rw [drawn]
      exact Nat.le_succ _
    · rw [drawn, List.length_cons]

end Decimation

section Window

variable {points : List FeerateDiagramPoint} {window : FeerateDiagramWindow}

/-- Cumulative points keep the window's part of them in one piece. -/
theorem filterToWindow_front (ascending : points.Pairwise fun p q => p.weight ≤ q.weight)
    (window : FeerateDiagramWindow) :
    filterToWindow points window <+: points := by
  rw [filterToWindow]
  generalize windowMaxWeight points window = windowMax
  induction points with
  | nil => exact List.prefix_rfl
  | cons p points ih =>
    obtain ⟨lower, rest⟩ := List.pairwise_cons.mp ascending
    by_cases fits : p.weight ≤ windowMax
    · rw [List.filter_cons_of_pos (by simpa using fits)]
      exact List.prefix_cons_inj p |>.mpr (ih rest)
    · have none : (p :: points).filter (fun q => q.weight ≤ windowMax) = [] := by
        rw [List.filter_eq_nil_iff]
        intro q listed
        rcases List.mem_cons.mp listed with rfl | later
        · simpa using fits
        · have below := lower q later
          simp only [decide_eq_true_eq]
          omega
      rw [none]
      exact List.nil_prefix

/-- The slope of a chunk does not depend on where the window ends. -/
theorem marginalFeerateAt_of_front {filtered : List FeerateDiagramPoint}
    (front : filtered <+: points) {index : ℕ} (bound : index < filtered.length) :
    marginalFeerateAt filtered index = marginalFeerateAt points index := by
  obtain ⟨rest, rfl⟩ := front
  have before : index - 1 < filtered.length := by omega
  rw [marginalFeerateAt, marginalFeerateAt, List.getElem?_append_left bound,
    List.getElem?_append_left before]

variable {xScale yScale : ℚ → ℚ} {filtered : List FeerateDiagramPoint}

theorem map_point_pxPoints :
    (pxPoints xScale yScale filtered).map FeerateDiagramPointPx.point = filtered := by
  apply List.ext_getElem?
  intro index
  rw [List.getElem?_map, pxPoints, List.getElem?_mapIdx]
  cases filtered[index]? <;> rfl

theorem mem_pxPoints {q : FeerateDiagramPointPx} (listed : q ∈ pxPoints xScale yScale filtered) :
    ∃ index, filtered[index]? = some q.point ∧
      q.marginalSatPerVb = marginalFeerateAt filtered index ∧ q.px = xScale q.point.weight := by
  obtain ⟨index, bound, rfl⟩ := List.mem_mapIdx.mp listed
  exact ⟨index, List.getElem?_eq_getElem bound, rfl, rfl⟩

theorem pairwise_pxPoints {relation : FeerateDiagramPoint → FeerateDiagramPoint → Prop}
    (ordered : filtered.Pairwise relation) :
    (pxPoints xScale yScale filtered).Pairwise fun p q => relation p.point q.point := by
  rw [← List.pairwise_map (R := relation), map_point_pxPoints]
  exact ordered

/-- The window keeps the origin. -/
theorem head?_filterToWindow (origin : points.head?.map FeerateDiagramPoint.weight = some 0)
    (window : FeerateDiagramWindow) :
    (filterToWindow points window).head? = points.head? := by
  cases points with
  | nil => cases origin
  | cons p points =>
    have weightless : p.weight = 0 := Option.some.inj origin
    rw [filterToWindow, List.filter_cons_of_pos (by simp [weightless]), List.head?_cons,
      List.head?_cons]

theorem weight_le_xDomainMax {p : FeerateDiagramPoint} (listed : p ∈ filterToWindow points window) :
    p.weight ≤ xDomainMax points window := by
  have fits : p.weight ≤ windowMaxWeight points window := by
    simpa using (List.mem_filter.mp listed).2
  rw [xDomainMax]
  split_ifs <;> omega

theorem xDomainMax_pos : 0 < xDomainMax points window := by
  rw [xDomainMax]
  split_ifs with positive
  · exact positive
  · exact Nat.one_pos

end Window

/-- What is asked of the scales of the charting library: along a domain and a range that go up
they rise from one end to the other. -/
structure ScalesLinearly (scale : ℚ × ℚ → ℚ × ℚ → ℚ → ℚ) : Prop where
  monotone : ∀ domain range, domain.1 < domain.2 → range.1 ≤ range.2 →
    Monotone (scale domain range)
  lower : ∀ domain range, domain.1 < domain.2 → scale domain range domain.1 = range.1
  upper : ∀ domain range, domain.1 < domain.2 → scale domain range domain.2 = range.2

section Curve

variable {scaleLinear scaleNice : ℚ × ℚ → ℚ × ℚ → ℚ → ℚ} {points : List FeerateDiagramPoint}

/-- The horizontal scale of a layout. -/
def xScaleOf (scaleLinear : ℚ × ℚ → ℚ × ℚ → ℚ → ℚ) (points : List FeerateDiagramPoint)
    (window : FeerateDiagramWindow) (w h : ℚ) : ℚ → ℚ :=
  scaleLinear (0, xDomainMax points window)
    ((plotRect w h).left, (plotRect w h).left + (plotRect w h).width)

theorem monotone_xScaleOf (linear : ScalesLinearly scaleLinear)
    (points : List FeerateDiagramPoint) (window : FeerateDiagramWindow) (w h : ℚ) :
    Monotone (xScaleOf scaleLinear points window w h) :=
  linear.monotone _ _ (Nat.cast_pos.mpr xDomainMax_pos)
    (le_add_of_nonneg_right (width_nonneg w h))

theorem xScaleOf_mem (linear : ScalesLinearly scaleLinear) (window : FeerateDiagramWindow)
    (w h : ℚ) {p : FeerateDiagramPoint} (listed : p ∈ filterToWindow points window) :
    xScaleOf scaleLinear points window w h p.weight ∈
      Set.Icc (plotRect w h).left ((plotRect w h).left + (plotRect w h).width) := by
  have positive : (0 : ℚ) < xDomainMax points window := Nat.cast_pos.mpr xDomainMax_pos
  have fits : (p.weight : ℚ) ≤ xDomainMax points window :=
    Nat.cast_le.mpr (weight_le_xDomainMax listed)
  have rises := monotone_xScaleOf linear points window w h
  constructor
  · exact (linear.lower _ _ positive).symm.trans_le (rises (Nat.cast_nonneg p.weight))
  · exact (rises fits).trans_eq (linear.upper _ _ positive)

/-- A diagram with an origin has a curve. -/
theorem points_feerateDiagramLayout
    (origin : points.head?.map FeerateDiagramPoint.weight = some 0)
    (window : FeerateDiagramWindow) (w h : ℚ) :
    ∃ yScale, (feerateDiagramLayout scaleLinear scaleNice points window w h).points =
      decimatePoints (pxPoints (xScaleOf scaleLinear points window w h) yScale
        (filterToWindow points window)) := by
  have begins := head?_filterToWindow origin window
  cases points with
  | nil => cases origin
  | cons p rest =>
    cases ends : (filterToWindow (p :: rest) window).getLast? with
    | none =>
      rw [List.getLast?_eq_none_iff.mp ends] at begins
      cases begins
    | some last =>
      simp only [feerateDiagramLayout, ends]
      exact ⟨_, rfl⟩

theorem plot_feerateDiagramLayout (window : FeerateDiagramWindow) (w h : ℚ) :
    (feerateDiagramLayout scaleLinear scaleNice points window w h).plot = plotRect w h := by
  rw [feerateDiagramLayout.eq_def]
  dsimp only
  split <;> rfl

/-- The curve runs from the origin to the last point of the window, through points of the
diagram in their order, each with the slope of its own chunk. It has no more points than the
plot has columns and one more, and in the column of every point of the window it goes through
the last one there. -/
theorem drawn_curve_fills_columns (linear : ScalesLinearly scaleLinear)
    (origin : points.head?.map FeerateDiagramPoint.weight = some 0)
    (ascending : points.Pairwise fun p q => p.weight ≤ q.weight)
    (window : FeerateDiagramWindow) (w h : ℚ) :
    let layout := feerateDiagramLayout scaleLinear scaleNice points window w h
    let drawn := layout.points.map FeerateDiagramPointPx.point
    let xColumn := fun p : FeerateDiagramPoint =>
      ⌊xScaleOf scaleLinear points window w h p.weight⌋
    filterToWindow points window <+: points ∧
      drawn.Sublist (filterToWindow points window) ∧ drawn.head? = points.head? ∧
      drawn.getLast? = (filterToWindow points window).getLast? ∧
      drawn.length ≤ ⌊layout.plot.width⌋₊ + 2 ∧
      (∀ q ∈ layout.points, ∃ index, points[index]? = some q.point ∧
        q.marginalSatPerVb = marginalFeerateAt points index) ∧
      ∀ p ∈ filterToWindow points window, ∃ q ∈ drawn, xColumn q = xColumn p ∧
        ((filterToWindow points window).filter fun other => xColumn other = xColumn p).getLast? =
          some q ∧
        ∀ other ∈ filterToWindow points window, xColumn other = xColumn p →
          other.weight ≤ q.weight := by
  intro layout drawn xColumn
  obtain ⟨yScale, curve⟩ : ∃ yScale, layout.points = decimatePoints (pxPoints
      (xScaleOf scaleLinear points window w h) yScale (filterToWindow points window)) :=
    points_feerateDiagramLayout origin window w h
  let pixels := pxPoints (xScaleOf scaleLinear points window w h) yScale
    (filterToWindow points window)
  have front := filterToWindow_front ascending window
  have named : pixels.map FeerateDiagramPointPx.point = filterToWindow points window :=
    map_point_pxPoints
  have columns : ∀ q ∈ pixels, column q = xColumn q.point := by
    intro q listed
    obtain ⟨-, -, -, placed⟩ := mem_pxPoints listed
    exact congrArg Int.floor placed
  have order : pixels.Pairwise fun p q => p.point.weight ≤ q.point.weight :=
    pairwise_pxPoints (ascending.sublist front.sublist)
  have rises : pixels.Pairwise fun p q => column p ≤ column q := by
    refine order.imp_of_mem fun {p q} first second below => ?_
    rw [columns p first, columns q second]
    exact Int.floor_le_floor
      (monotone_xScaleOf linear points window w h (Nat.cast_le.mpr below))
  have drawnEq : drawn = (decimatePoints pixels).map FeerateDiagramPointPx.point :=
    congrArg (List.map FeerateDiagramPointPx.point) curve
  refine ⟨front, ?_, ?_, ?_, ?_, ?_, ?_⟩
  · rw [drawnEq, ← named]
    exact (decimatePoints_sublist pixels).map _
  · rw [drawnEq, List.head?_map, head?_decimatePoints, ← List.head?_map, named,
      head?_filterToWindow origin]
  · rw [drawnEq, List.getLast?_map, getLast?_decimatePoints, ← List.getLast?_map, named]
  · -- one point for each column of the plot, and the first
    have bounded : ∀ q ∈ runEnds column pixels,
        64 ≤ column q ∧ column q ≤ 64 + ⌊(plotRect w h).width⌋ := by
      intro q kept
      have listed := (runEnds_sublist pixels).subset kept
      have inWindow : q.point ∈ filterToWindow points window := by
        rw [← named]
        exact List.mem_map_of_mem listed
      obtain ⟨lower, upper⟩ := xScaleOf_mem linear window w h inWindow
      rw [columns q listed]
      constructor
      · exact Int.le_floor.mpr lower
      · have capped := Int.floor_le_floor upper
        rwa [show (plotRect w h).left = ((64 : ℤ) : ℚ) from rfl, Int.floor_intCast_add] at capped
    have few := length_le_of_keys (pairwise_runEnds rises) bounded
    have width := Int.floor_nonneg.mpr (width_nonneg w h)
    have most : (decimatePoints pixels).length ≤ (runEnds column pixels).length + 1 :=
      length_decimatePoints_le
    rw [drawnEq, List.length_map, plot_feerateDiagramLayout, ← Int.floor_toNat]
    omega
  · intro q listed
    rw [curve] at listed
    obtain ⟨index, found, slope, -⟩ := mem_pxPoints ((decimatePoints_sublist pixels).subset listed)
    obtain ⟨bound, -⟩ := List.getElem?_eq_some_iff.mp found
    refine ⟨index, ?_, slope.trans (marginalFeerateAt_of_front front bound)⟩
    obtain ⟨rest, whole⟩ := front
    rw [← whole, List.getElem?_append_left bound, found]
  · intro p listed
    set inColumn := (filterToWindow points window).filter fun other => xColumn other = xColumn p
      with inColumn_eq
    have nonempty : inColumn ≠ [] :=
      List.ne_nil_of_mem (List.mem_filter.mpr ⟨listed, decide_eq_true rfl⟩)
    obtain ⟨q, last⟩ : ∃ q, inColumn.getLast? = some q := ⟨_, List.getLast?_eq_some_getLast nonempty⟩
    refine ⟨q, ?_, ?_, last, fun other inWindow otherColumn => ?_⟩
    · have placed : inColumn = (pixels.filter fun q => column q = xColumn p).map
          FeerateDiagramPointPx.point := by
        rw [inColumn_eq, ← named, List.filter_map]
        refine congrArg _ (List.filter_congr fun q listed => ?_)
        simp [columns q listed]
      rw [placed, List.getLast?_map] at last
      obtain ⟨q, lastPixel, rfl⟩ := Option.map_eq_some_iff.mp last
      rw [drawnEq]
      exact List.mem_map_of_mem
        (runEnds_sublist_decimatePoints.subset (mem_runEnds_of_getLast? rises lastPixel))
    · exact of_decide_eq_true (List.mem_filter.mp (List.mem_of_getLast? last)).2
    · have final : inColumn.getLast nonempty = q :=
        Option.some.inj ((List.getLast?_eq_some_getLast nonempty).symm.trans last)
      have within := (ascending.sublist front.sublist).filter fun other => xColumn other = xColumn p
      rw [← final]
      exact within.rel_getLast_of_rel_getLast_getLast
        (List.mem_filter.mpr ⟨inWindow, decide_eq_true otherColumn⟩) le_rfl

end Curve

/-- The scale of the charting library, in exact arithmetic. -/
def exactScale (domain range : ℚ × ℚ) (x : ℚ) : ℚ :=
  range.1 + (x - domain.1) / (domain.2 - domain.1) * (range.2 - range.1)

theorem exactScale_linear : ScalesLinearly exactScale where
  monotone domain range rising climbing x y below := by
    have wide := sub_pos.mpr rising
    have tall := sub_nonneg.mpr climbing
    rw [exactScale, exactScale]
    gcongr
  lower domain range _ := by simp [exactScale]
  upper domain range rising := by
    have wide := (sub_pos.mpr rising).ne'
    simp [exactScale, wide]

theorem drawn_curve_of_two_chunks :
    ((feerateDiagramLayout exactScale exactScale [⟨0, 0⟩, ⟨400, 900⟩, ⟨5000000, 1000⟩] .one
      800 400).points.map FeerateDiagramPointPx.point).head? = some ⟨0, 0⟩ :=
  (drawn_curve_fills_columns exactScale_linear rfl (by simp) .one 800 400).2.2.1

end MempoolObserver
