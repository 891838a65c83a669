import Mathlib

/-!
# The plot of a chart

The drawing area that the charts share, and the hit test of their tooltips: the loop returns the
first of the points that are nearest to the pointer.
-/

namespace MempoolObserver

/-- Drawing area inside the viewBox, once margins are subtracted. -/
structure PlotRect where
  left : ℚ
  top : ℚ
  width : ℚ
  height : ℚ

/-- The plot of a chart in a viewBox of `w` by `h`. -/
def plotRect (w h : ℚ) : PlotRect :=
  ⟨64, 16, max 0 (w - 64 - 16), max 0 (h - 16 - 40)⟩

theorem width_nonneg (w h : ℚ) : 0 ≤ (plotRect w h).width := le_max_left _ _

/-- What the loop of `nearestPointIndex` carries; no distance stands for infinity. -/
structure Nearest where
  nearest : ℕ
  nearestDist : Option ℚ

def Nearest.step (px : ℚ) (state : Nearest) (point : ℚ × ℕ) : Nearest :=
  let dist := |point.1 - px|
  if state.nearestDist.all (dist < ·) then ⟨point.2, some dist⟩ else state

/-- Index of the point nearest `px`, for hover hit-testing. -/
def nearestPointIndex (pxs : List ℚ) (px : ℚ) : ℕ :=
  (pxs.zipIdx.foldl (Nearest.step px) ⟨0, none⟩).nearest

/-- The nearest of the points seen so far, and the first of them. -/
structure Nearest.Best (px : ℚ) (seen : List ℚ) (state : Nearest) : Prop where
  found : ∃ x, seen[state.nearest]? = some x ∧ state.nearestDist = some |x - px| ∧
    (∀ y ∈ seen, |x - px| ≤ |y - px|) ∧ ∀ y ∈ seen.take state.nearest, |x - px| < |y - px|

namespace Nearest.Best

variable {px y : ℚ} {seen : List ℚ} {state : Nearest}

theorem step (best : state.Best px seen) :
    (state.step px (y, seen.length)).Best px (seen ++ [y]) := by
  obtain ⟨x, placed, dist, least, first⟩ := best.found
  obtain ⟨bound, -⟩ := List.getElem?_eq_some_iff.mp placed
  rw [Nearest.step]
  split_ifs with nearer
  · have below : |y - px| < |x - px| := by simpa [dist] using nearer
    refine ⟨y, by simp, rfl, fun z listed => ?_, fun z listed => ?_⟩
    · rcases List.mem_append.mp listed with old | new
      · exact (below.trans_le (least z old)).le
      · exact (congrArg (|· - px|) (List.mem_singleton.mp new)).ge
    · rw [List.take_left' rfl] at listed
      exact below.trans_le (least z listed)
  · have above : |x - px| ≤ |y - px| := by simpa [dist] using nearer
    refine ⟨x, by rw [List.getElem?_append_left bound, placed], dist, fun z listed => ?_,
      fun z listed => first z ?_⟩
    · rcases List.mem_append.mp listed with old | new
      · exact least z old
      · exact above.trans_eq (congrArg (|· - px|) (List.mem_singleton.mp new)).symm
    · rwa [List.take_append_of_le_length bound.le] at listed

theorem foldl (rest : List ℚ) (best : state.Best px seen) :
    ((rest.zipIdx seen.length).foldl (Nearest.step px) state).Best px (seen ++ rest) := by
  induction rest generalizing seen state with
  | nil => simpa using best
  | cons y rest ih =>
    have next := ih (best.step (y := y))
    rw [List.length_append, List.length_singleton, List.append_assoc] at next
    exact next

end Nearest.Best

/-- The index is that of the first of the nearest points. -/
theorem nearestPointIndex_best {pxs : List ℚ} (shown : pxs ≠ []) (px : ℚ) :
    ∃ x, pxs[nearestPointIndex pxs px]? = some x ∧ (∀ y ∈ pxs, |x - px| ≤ |y - px|) ∧
      ∀ y ∈ pxs.take (nearestPointIndex pxs px), |x - px| < |y - px| := by
  cases pxs with
  | nil => exact absurd rfl shown
  | cons first rest =>
    have begun : Nearest.Best px [first] ⟨0, some |first - px|⟩ :=
      ⟨first, rfl, rfl, fun y listed => by rw [List.mem_singleton.mp listed], by simp⟩
    obtain ⟨x, placed, -, least, before⟩ := (begun.foldl rest).found
    exact ⟨x, placed, least, before⟩

end MempoolObserver
