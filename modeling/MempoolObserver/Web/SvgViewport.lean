import Mathlib

/-!
# Pan and zoom of a drawing

The maths of an SVG that keeps its viewBox and transforms a group inside it. The element is
letterboxed: one scale for both axes, and a blank margin on the axis that has slack.
Coordinates are exact, where the runtime rounds.

## Main results

* `screenToLayout_zoomAbout` — zooming keeps the point under the pointer
* `screenToLayout_drag` — a pan by the way of the pointer does too
* `fitToView_shows` — a fitted drawing is in the viewBox as a whole
-/

namespace MempoolObserver.SvgViewport

structure Point where
  x : ℚ
  y : ℚ
  deriving DecidableEq

structure Viewport where
  tx : ℚ
  ty : ℚ
  k : ℚ
  deriving DecidableEq

/-- The size of the viewBox. -/
structure ViewBox where
  w : ℚ
  h : ℚ

structure DOMRect where
  left : ℚ
  top : ℚ
  width : ℚ
  height : ℚ
  deriving DecidableEq

def minK : ℚ := 1 / 4

def maxK : ℚ := 8

/-- Clamps `v` to `[low, high]`. -/
def clamp (v low high : ℚ) : ℚ := min high (max low v)

/-- Pixels for each unit of the viewBox. A hidden element has a side of zero, which counts as
one. -/
def viewScale (rect : DOMRect) (view : ViewBox) : ℚ :=
  let rectW := if rect.width = 0 then 1 else rect.width
  let rectH := if rect.height = 0 then 1 else rect.height
  min (rectW / view.w) (rectH / view.h)

/-- Client coordinates to layout coordinates, through the element and the transform. -/
def screenToLayout (clientX clientY : ℚ) (rect : DOMRect) (view : ViewBox) (vp : Viewport) :
    Point :=
  let scale := viewScale rect view
  -- the content is centred on the axis that is letterboxed
  let offsetX := (rect.width - view.w * scale) / 2
  let offsetY := (rect.height - view.h * scale) / 2
  let vx := (clientX - rect.left - offsetX) / scale
  let vy := (clientY - rect.top - offsetY) / scale
  ⟨(vx - vp.tx) / vp.k, (vy - vp.ty) / vp.k⟩

/-- Zoom to `nextK` with `layoutPt` under `viewPt`. -/
def zoomAbout (layoutPt viewPt : Point) (nextK : ℚ) : Viewport where
  k := nextK
  tx := viewPt.x - layoutPt.x * nextK
  ty := viewPt.y - layoutPt.y * nextK

/-- The transform that fits a drawing into the viewBox. -/
def fitToView (width height : ℚ) (view : ViewBox) (padding topK : ℚ) : Viewport :=
  if width ≤ 0 ∨ height ≤ 0 then ⟨0, 0, 1⟩
  else
    let availW := max (view.w - 2 * padding) 1
    let availH := max (view.h - 2 * padding) 1
    let k := clamp (min (availW / width) (availH / height)) minK topK
    { k
      tx := (view.w - width * k) / 2
      ty := (view.h - height * k) / 2 }

def identityVp : Viewport := ⟨0, 0, 1⟩

/-- Where the transform of the group draws a point. -/
def Viewport.draw (vp : Viewport) (pt : Point) : Point := ⟨vp.tx + pt.x * vp.k, vp.ty + pt.y * vp.k⟩

variable {view : ViewBox} {vp : Viewport} {rect : DOMRect} {clientX clientY : ℚ}

theorem le_clamp {v low high : ℚ} (ordered : low ≤ high) : low ≤ clamp v low high :=
  le_min ordered (le_max_left _ _)

theorem clamp_le (v low high : ℚ) : clamp v low high ≤ high := min_le_left _ _

theorem minK_pos : 0 < minK := by norm_num [minK]

theorem minK_le_maxK : minK ≤ maxK := by norm_num [minK, maxK]

/-- The point of the layout under the pointer is drawn there. -/
theorem draw_screenToLayout (zoomed : vp.k ≠ 0) :
    vp.draw (screenToLayout clientX clientY rect view vp) =
      screenToLayout clientX clientY rect view identityVp := by
  simp only [Viewport.draw, screenToLayout, identityVp, sub_zero, div_one, Point.mk.injEq]
  constructor <;> rw [div_mul_cancel₀ _ zoomed, add_sub_cancel]

theorem draw_zoomAbout (layoutPt viewPt : Point) (nextK : ℚ) :
    (zoomAbout layoutPt viewPt nextK).draw layoutPt = viewPt := by
  simp [Viewport.draw, zoomAbout]

/-- Two points drawn at one place are one point. -/
theorem draw_injective (zoomed : vp.k ≠ 0) : Function.Injective vp.draw := by
  intro a b same
  simp only [Viewport.draw, Point.mk.injEq, add_right_inj] at same
  obtain ⟨ax, ay⟩ := a
  obtain ⟨bx, byy⟩ := b
  simp only [Point.mk.injEq]
  exact ⟨mul_right_cancel₀ zoomed same.1, mul_right_cancel₀ zoomed same.2⟩

theorem screenToLayout_zoomAbout {nextK : ℚ} (zoomed : nextK ≠ 0) (layoutPt : Point) :
    screenToLayout clientX clientY rect view
      (zoomAbout layoutPt (screenToLayout clientX clientY rect view identityVp) nextK) =
      layoutPt := by
  -- both are drawn where the pointer is
  have zoomed' : (zoomAbout layoutPt
      (screenToLayout clientX clientY rect view identityVp) nextK).k ≠ 0 := zoomed
  apply draw_injective zoomed'
  rw [draw_screenToLayout zoomed', draw_zoomAbout]

theorem screenToLayout_drag (vp : Viewport) (startX startY : ℚ) :
    screenToLayout clientX clientY rect view
      { vp with
        tx := vp.tx + (clientX - startX) / viewScale rect view
        ty := vp.ty + (clientY - startY) / viewScale rect view } =
      screenToLayout startX startY rect view vp := by
  simp only [screenToLayout, Point.mk.injEq]
  constructor <;> congr 1 <;> ring

section Fit

variable {width height padding topK : ℚ}

theorem fitToView_mem (low : minK ≤ topK) (one : 1 ≤ topK) :
    minK ≤ (fitToView width height view padding topK).k ∧
      (fitToView width height view padding topK).k ≤ topK := by
  rw [fitToView]
  split_ifs
  · exact ⟨by norm_num [minK], one⟩
  · exact ⟨le_clamp low, clamp_le _ _ _⟩

/-- One axis of a drawing that is scaled to fit and centred. -/
theorem centred_mem {side extent k x : ℚ} (fits : extent * k ≤ side) (positive : 0 ≤ k)
    (low : 0 ≤ x) (high : x ≤ extent) :
    0 ≤ (side - extent * k) / 2 + x * k ∧ (side - extent * k) / 2 + x * k ≤ side := by
  have scaled : x * k ≤ extent * k := mul_le_mul_of_nonneg_right high positive
  have start : 0 ≤ x * k := mul_nonneg low positive
  constructor <;> linarith

/-- A drawing that needs no zoom below the least one is fitted as a whole. -/
theorem fitToView_shows (w : 0 < width) (h : 0 < height) (viewW : 1 ≤ view.w) (viewH : 1 ≤ view.h)
    (low : minK ≤ topK) (wide : width * minK ≤ view.w) (tall : height * minK ≤ view.h)
    {pt : Point} (left : 0 ≤ pt.x) (right : pt.x ≤ width) (top : 0 ≤ pt.y)
    (bottom : pt.y ≤ height) :
    let drawn := (fitToView width height view 0 topK).draw pt
    (0 ≤ drawn.x ∧ drawn.x ≤ view.w) ∧ 0 ≤ drawn.y ∧ drawn.y ≤ view.h := by
  have k_le : clamp (min (view.w / width) (view.h / height)) minK topK ≤
      min (view.w / width) (view.h / height) := by
    have least : minK ≤ min (view.w / width) (view.h / height) :=
      le_min ((le_div_iff₀' w).mpr wide) ((le_div_iff₀' h).mpr tall)
    exact (min_le_right _ _).trans (max_le least le_rfl)
  have k_nonneg : 0 ≤ clamp (min (view.w / width) (view.h / height)) minK topK :=
    minK_pos.le.trans (le_clamp low)
  have across := (le_div_iff₀' w).mp (k_le.trans (min_le_left _ _))
  have down := (le_div_iff₀' h).mp (k_le.trans (min_le_right _ _))
  simp only [fitToView, not_or.mpr ⟨w.not_ge, h.not_ge⟩, if_false, mul_zero, sub_zero,
    max_eq_left viewW, max_eq_left viewH, Viewport.draw]
  exact ⟨centred_mem across k_nonneg left right, centred_mem down k_nonneg top bottom⟩

end Fit

end MempoolObserver.SvgViewport
