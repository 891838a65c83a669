import MempoolObserver.Library.Runs
import MempoolObserver.Services.TransactionLookup
import MempoolObserver.Web.SvgViewport
import MempoolObserver.Web.TxDagGraph

/-!
# The canvas of a transaction graph

The canvas draws the laid-out graph through a viewport that the user moves by wheel and pointer.
Live data changes the graph under it. A view that nobody has touched is refitted, and a touched
one stays where it is. Nodes that are new since the last change of the graph flash.

Each event sees the view as it was rendered after the event before. The layout library is the
parameter `size`, the box it gives the nodes in an orientation, and `exp` is the exponential of a
wheel step.

## Main definitions

* `TxDagCanvas.step` — a render with new props, or a gesture
* `FlashState.render` — the comparison with the graph drawn before

## Main results

* `pointer_keeps_its_point`
* `untouched_view_shows_graph`
* `flash_marks_new_nodes`
-/

namespace MempoolObserver

open Runs SvgViewport

inductive TxDagOrientation
  | horizontal
  | vertical
  deriving DecidableEq

/-- The node ids and the box of a laid-out graph. -/
structure TxDagLayout where
  nodes : List String
  width : ℚ
  height : ℚ

/-- What the layout effect depends on. -/
structure LayoutDims where
  width : ℚ
  height : ℚ
  nodeCount : ℕ
  deriving DecidableEq

def TxDagLayout.dims (layout : TxDagLayout) : LayoutDims :=
  ⟨layout.width, layout.height, layout.nodes.length⟩

/-- The ids of the nodes, in the order in which they are drawn. -/
def drawnIds (txs : List TxDagInput) : List String :=
  let graphNodes := ((txDagGraph txs).map TxDagGraph.graphNodes).getD []
  (nodeIds graphNodes).insertionSort (· ≤ ·)

def txDagLayout (size : TxDagOrientation → List GraphNodeDatum → ℚ × ℚ)
    (txs : List TxDagInput) (orientation : TxDagOrientation) : TxDagLayout :=
  if txs.isEmpty then ⟨drawnIds txs, 0, 0⟩
  else
    let box := size orientation (((txDagGraph txs).map TxDagGraph.graphNodes).getD [])
    ⟨drawnIds txs, box.1, box.2⟩

structure PanState where
  pointerId : ℕ
  startClientX : ℚ
  startClientY : ℚ
  startTx : ℚ
  startTy : ℚ
  deriving DecidableEq

/-- The nodes drawn when the graph last changed, and which of them were new. -/
structure FlashState where
  seenTxidKey : Option String
  flashedTxids : List String
  deriving DecidableEq

/-- What the canvas was rendered with and what it keeps. `shown` says that the SVG is mounted,
and `fitted` holds the dependencies of the layout effect when it last ran. -/
structure TxDagCanvas (K : Type) where
  txs : List TxDagInput
  shown : Bool
  resetKey : K
  orientation : TxDagOrientation
  viewport : Viewport
  touched : Bool
  pan : Option PanState
  fitted : LayoutDims
  flash : FlashState

inductive Gesture
  | wheel (clientX clientY deltaY : ℚ) (rect : DOMRect)
  | pointerDown (pointerId : ℕ) (clientX clientY : ℚ)
  | pointerMove (pointerId : ℕ) (clientX clientY : ℚ) (rect : DOMRect)
  /-- The pointer goes up or is cancelled. -/
  | endPan (pointerId : ℕ)
  | reset
  | orient (next : TxDagOrientation)

inductive CanvasAction (K : Type)
  /-- `blank` says that the transactions are loading and none of them is cached. -/
  | render (txs : List TxDagInput) (blank : Bool) (resetKey : K)
  | gesture (gesture : Gesture)

def viewBox : ViewBox := ⟨720, 480⟩

def fitPadding : ℚ := 0

def zoomSensitivity : ℚ := 1 / 500

/-- Zoom ceiling for the initial fit. -/
def maxFitK (nodeCount : ℕ) : ℚ := if nodeCount = 1 then 1 else maxK

def fitNodes (dims : LayoutDims) : Viewport :=
  fitToView dims.width dims.height viewBox fitPadding (maxFitK dims.nodeCount)

/-- One text for all orders of the same nodes. -/
def txidKey (displayNodes : List String) : String := joinTxids (displayNodes.insertionSort (· ≤ ·))

/-- Compares the nodes with those of the last render. The first paint never flashes. -/
def FlashState.render (displayNodes : List String) (state : FlashState) : FlashState :=
  let currentTxidKey := txidKey displayNodes
  if some currentTxidKey = state.seenTxidKey then state
  else
    match state.seenTxidKey with
    | none => ⟨some currentTxidKey, []⟩
    | some key => ⟨some currentTxidKey, displayNodes.filter (· ∉ splitCommas key)⟩

namespace TxDagCanvas

variable {K : Type} (exp : ℚ → ℚ) (size : TxDagOrientation → List GraphNodeDatum → ℚ × ℚ)

def layout (canvas : TxDagCanvas K) : TxDagLayout := txDagLayout size canvas.txs canvas.orientation

/-- Refits when the layout has changed, unless the user has taken the wheel. -/
def layoutEffect (canvas : TxDagCanvas K) : TxDagCanvas K :=
  let dims := (canvas.layout size).dims
  { canvas with
    fitted := dims
    viewport :=
      if dims = canvas.fitted ∨ canvas.touched = true then canvas.viewport else fitNodes dims }

/-- The render that follows a change of the state, and the effect after it. -/
def commit (canvas : TxDagCanvas K) : TxDagCanvas K :=
  layoutEffect size { canvas with flash := canvas.flash.render (canvas.layout size).nodes }

def mount (txs : List TxDagInput) (blank : Bool) (resetKey : K) : TxDagCanvas K :=
  let layout := txDagLayout size txs .horizontal
  { txs
    shown := !txs.isEmpty && !blank
    resetKey
    orientation := .horizontal
    viewport := fitNodes layout.dims
    touched := false
    pan := none
    fitted := layout.dims
    flash := FlashState.render layout.nodes ⟨none, []⟩ }

def handleWheel (clientX clientY deltaY : ℚ) (rect : DOMRect) (canvas : TxDagCanvas K) :
    TxDagCanvas K :=
  let prev := canvas.viewport
  let nextK := clamp (prev.k * exp (-deltaY * zoomSensitivity)) minK maxK
  let layoutPt := screenToLayout clientX clientY rect viewBox prev
  let viewPt := screenToLayout clientX clientY rect viewBox identityVp
  { canvas with touched := true, viewport := zoomAbout layoutPt viewPt nextK }

def handleBackgroundPointerDown (pointerId : ℕ) (clientX clientY : ℚ) (canvas : TxDagCanvas K) :
    TxDagCanvas K :=
  { canvas with
    touched := true
    pan := some ⟨pointerId, clientX, clientY, canvas.viewport.tx, canvas.viewport.ty⟩ }

def handleBackgroundPointerMove (pointerId : ℕ) (clientX clientY : ℚ) (rect : DOMRect)
    (canvas : TxDagCanvas K) : TxDagCanvas K :=
  match canvas.pan with
  | none => canvas
  | some pan =>
    if pan.pointerId ≠ pointerId then canvas
    else
      let scale := viewScale rect viewBox
      { canvas with
        viewport := { canvas.viewport with
          tx := pan.startTx + (clientX - pan.startClientX) / scale
          ty := pan.startTy + (clientY - pan.startClientY) / scale } }

def endBackgroundPan (pointerId : ℕ) (canvas : TxDagCanvas K) : TxDagCanvas K :=
  if canvas.pan.map PanState.pointerId = some pointerId then { canvas with pan := none }
  else canvas

def handleReset (canvas : TxDagCanvas K) : TxDagCanvas K :=
  { canvas with touched := false, viewport := fitNodes (canvas.layout size).dims }

/-- The effect is left to refit. -/
def handleOrientationChange (next : TxDagOrientation) (canvas : TxDagCanvas K) : TxDagCanvas K :=
  if next = canvas.orientation then canvas
  else { canvas with touched := false, orientation := next }

/-- A gesture before the render that follows it. -/
def handle (canvas : TxDagCanvas K) : Gesture → TxDagCanvas K
  | .wheel clientX clientY deltaY rect => canvas.handleWheel exp clientX clientY deltaY rect
  | .pointerDown pointerId clientX clientY =>
    canvas.handleBackgroundPointerDown pointerId clientX clientY
  | .pointerMove pointerId clientX clientY rect =>
    canvas.handleBackgroundPointerMove pointerId clientX clientY rect
  | .endPan pointerId => canvas.endBackgroundPan pointerId
  | .reset => canvas.handleReset size
  | .orient next => canvas.handleOrientationChange next

section Steps

variable [DecidableEq K]

/-- A new key drops the user's pan and zoom. -/
def receive (txs : List TxDagInput) (blank : Bool) (resetKey : K) (canvas : TxDagCanvas K) :
    TxDagCanvas K :=
  let canvas := { canvas with txs, shown := !txs.isEmpty && !blank }
  if resetKey = canvas.resetKey then canvas
  else { canvas with resetKey, touched := false, viewport := fitNodes (canvas.layout size).dims }

def step (canvas : TxDagCanvas K) : CanvasAction K → Option (TxDagCanvas K)
  | .render txs blank resetKey => some ((canvas.receive size txs blank resetKey).commit size)
  | .gesture gesture =>
    if canvas.shown then some ((canvas.handle exp size gesture).commit size) else none

end Steps

/-! ### One render -/

variable {exp size} {canvas next : TxDagCanvas K}

theorem commit_viewport_of_touched (touched : canvas.touched = true) :
    (canvas.commit size).viewport = canvas.viewport := if_pos (.inr touched)

theorem commit_viewport_of_fitted (fitted : (canvas.layout size).dims = canvas.fitted) :
    (canvas.commit size).viewport = canvas.viewport := if_pos (.inl fitted)

theorem commit_viewport_of_moved (moved : (canvas.layout size).dims ≠ canvas.fitted)
    (untouched : canvas.touched = false) :
    (canvas.commit size).viewport = fitNodes (canvas.layout size).dims := by
  refine if_neg ?_
  rintro (fitted | touched)
  · exact moved fitted
  · exact Bool.false_ne_true (untouched.symm.trans touched)

/-- A pointer that holds no pan moves nothing. -/
theorem pointerMove_cases (canvas : TxDagCanvas K) (pointerId : ℕ) (clientX clientY : ℚ)
    (rect : DOMRect) :
    (canvas.handleBackgroundPointerMove pointerId clientX clientY rect = canvas ∧
      ∀ pan, canvas.pan = some pan → pan.pointerId ≠ pointerId) ∨
    ∃ pan, canvas.pan = some pan ∧ pan.pointerId = pointerId ∧
      canvas.handleBackgroundPointerMove pointerId clientX clientY rect =
        { canvas with
          viewport := { canvas.viewport with
            tx := pan.startTx + (clientX - pan.startClientX) / viewScale rect viewBox
            ty := pan.startTy + (clientY - pan.startClientY) / viewScale rect viewBox } } := by
  cases held : canvas.pan with
  | none => exact .inl ⟨by simp only [handleBackgroundPointerMove, held], nofun⟩
  | some pan =>
    by_cases same : pan.pointerId = pointerId
    · refine .inr ⟨pan, rfl, same, ?_⟩
      simp only [handleBackgroundPointerMove, held, same, ne_eq, not_true, if_false]
    · refine .inl ⟨?_, ?_⟩
      · simp only [handleBackgroundPointerMove, held, ne_eq, same, not_false_eq_true, if_true]
      · rintro _ ⟨⟩
        exact same

/-! ### The zoom -/

/-- The zoom stays between its bounds. -/
def ZoomIn (canvas : TxDagCanvas K) : Prop := minK ≤ canvas.viewport.k ∧ canvas.viewport.k ≤ maxK

theorem fitNodes_mem (dims : LayoutDims) : minK ≤ (fitNodes dims).k ∧ (fitNodes dims).k ≤ maxK := by
  have top : minK ≤ maxFitK dims.nodeCount ∧ 1 ≤ maxFitK dims.nodeCount ∧
      maxFitK dims.nodeCount ≤ maxK := by
    rw [maxFitK]
    split_ifs <;> norm_num [minK, maxK]
  have fit : minK ≤ (fitNodes dims).k ∧ (fitNodes dims).k ≤ maxFitK dims.nodeCount :=
    fitToView_mem top.1 top.2.1
  exact ⟨fit.1, fit.2.trans top.2.2⟩

theorem ZoomIn.commit (inside : canvas.ZoomIn) : (canvas.commit size).ZoomIn := by
  rw [ZoomIn, TxDagCanvas.commit, layoutEffect]
  dsimp only
  split_ifs
  · exact inside
  · exact fitNodes_mem _

theorem ZoomIn.handle (inside : canvas.ZoomIn) (gesture : Gesture) :
    (canvas.handle exp size gesture).ZoomIn := by
  cases gesture with
  | wheel => exact ⟨le_clamp minK_le_maxK, clamp_le _ _ _⟩
  | pointerDown => exact inside
  | pointerMove pointerId clientX clientY rect =>
    obtain ⟨still, -⟩ | ⟨pan, -, -, moved⟩ :=
      canvas.pointerMove_cases pointerId clientX clientY rect
    · rwa [TxDagCanvas.handle, still]
    · rw [TxDagCanvas.handle, moved]
      exact inside
  | endPan =>
    rw [TxDagCanvas.handle, endBackgroundPan]
    split_ifs <;> exact inside
  | reset => exact fitNodes_mem _
  | orient =>
    rw [TxDagCanvas.handle, handleOrientationChange]
    split_ifs <;> exact inside

theorem zoomIn_mount (txs : List TxDagInput) (blank : Bool) (resetKey : K) :
    (mount size txs blank resetKey).ZoomIn := fitNodes_mem _

variable [DecidableEq K] {action : CanvasAction K}

theorem ZoomIn.receive (inside : canvas.ZoomIn) (txs : List TxDagInput) (blank : Bool)
    (resetKey : K) : (canvas.receive size txs blank resetKey).ZoomIn := by
  rw [TxDagCanvas.receive]
  split_ifs
  · exact inside
  · exact fitNodes_mem _

theorem step_gesture {gesture : Gesture}
    (stepped : canvas.step exp size (.gesture gesture) = some next) :
    next = (canvas.handle exp size gesture).commit size := by
  rw [step] at stepped
  split_ifs at stepped
  exact (Option.some.inj stepped).symm

theorem ZoomIn.step (inside : canvas.ZoomIn) (stepped : canvas.step exp size action = some next) :
    next.ZoomIn := by
  cases action with
  | render txs blank resetKey =>
    cases stepped
    exact (inside.receive txs blank resetKey).commit
  | gesture gesture =>
    rw [step_gesture stepped]
    exact (inside.handle gesture).commit

/-! ### The point under the pointer -/

theorem wheel_keeps_point {clientX clientY deltaY : ℚ} {rect : DOMRect}
    (stepped : canvas.step exp size (.gesture (.wheel clientX clientY deltaY rect)) = some next) :
    screenToLayout clientX clientY rect viewBox next.viewport =
      screenToLayout clientX clientY rect viewBox canvas.viewport := by
  rw [step_gesture stepped, commit_viewport_of_touched rfl]
  exact screenToLayout_zoomAbout (minK_pos.trans_le (le_clamp minK_le_maxK)).ne' _

/-- The pointer holds a pan that it began in an earlier canvas, at a zoom that has not changed
since. -/
structure Holding (pointerId : ℕ) (startX startY : ℚ) (before canvas : TxDagCanvas K) : Prop where
  touched : canvas.touched = true
  pan : canvas.pan = some ⟨pointerId, startX, startY, before.viewport.tx, before.viewport.ty⟩
  zoom : canvas.viewport.k = before.viewport.k
  resetKey : canvas.resetKey = before.resetKey

/-- What may happen while the pointer holds its pan: the same graph is rendered with other
transactions, pointers move, and others let go. -/
def Leaves (pointerId : ℕ) (resetKey : K) : CanvasAction K → Prop
  | .render _ _ key => key = resetKey
  | .gesture (.pointerMove _ _ _ _) => True
  | .gesture (.endPan other) => other ≠ pointerId
  | .gesture _ => False

namespace Holding

variable {pointerId : ℕ} {startX startY : ℚ} {before : TxDagCanvas K}

omit [DecidableEq K] in
theorem commit (holding : Holding pointerId startX startY before canvas) :
    Holding pointerId startX startY before (canvas.commit size) where
  touched := holding.touched
  pan := holding.pan
  zoom := (congrArg Viewport.k (commit_viewport_of_touched holding.touched)).trans holding.zoom
  resetKey := holding.resetKey

theorem start {clientX clientY : ℚ} (stepped : canvas.step exp size
      (.gesture (.pointerDown pointerId clientX clientY)) = some next) :
    Holding pointerId clientX clientY canvas next := by
  rw [step_gesture stepped]
  exact commit ⟨rfl, rfl, rfl, rfl⟩

theorem step (holding : Holding pointerId startX startY before canvas)
    (leaves : Leaves pointerId before.resetKey action)
    (stepped : canvas.step exp size action = some next) :
    Holding pointerId startX startY before next := by
  cases action with
  | render txs blank resetKey =>
    cases stepped
    have same : resetKey = canvas.resetKey := Eq.trans leaves holding.resetKey.symm
    rw [receive, if_pos same]
    exact commit ⟨holding.touched, holding.pan, holding.zoom, holding.resetKey⟩
  | gesture gesture =>
    rw [step_gesture stepped]
    refine commit ?_
    cases gesture with
    | wheel | pointerDown | reset | orient => exact leaves.elim
    | pointerMove other clientX clientY rect =>
      obtain ⟨still, -⟩ | ⟨pan, -, -, moved⟩ := canvas.pointerMove_cases other clientX clientY rect
      · rwa [handle, still]
      · rw [handle, moved]
        exact ⟨holding.touched, holding.pan, holding.zoom, holding.resetKey⟩
    | endPan other =>
      have others : canvas.pan.map PanState.pointerId ≠ some other := by
        rw [holding.pan]
        exact fun same => leaves (Option.some.inj same).symm
      rw [handle, endBackgroundPan, if_neg others]
      exact holding

/-- The pan takes the point it began at to where the pointer is. -/
theorem move (holding : Holding pointerId startX startY before canvas) {clientX clientY : ℚ}
    {rect : DOMRect} (stepped : canvas.step exp size
      (.gesture (.pointerMove pointerId clientX clientY rect)) = some next) :
    screenToLayout clientX clientY rect viewBox next.viewport =
      screenToLayout startX startY rect viewBox before.viewport := by
  obtain ⟨-, free⟩ | ⟨pan, held, -, moved⟩ :=
    canvas.pointerMove_cases pointerId clientX clientY rect
  · exact absurd rfl (free _ holding.pan)
  · obtain rfl := Option.some.inj (holding.pan.symm.trans held)
    have touched : (canvas.handle exp size
        (.pointerMove pointerId clientX clientY rect)).touched = true := by
      rw [handle, moved]
      exact holding.touched
    rw [step_gesture stepped, commit_viewport_of_touched touched, handle, moved]
    simp only [holding.zoom]
    exact screenToLayout_drag before.viewport startX startY

end Holding

/-- The zoom never leaves its bounds, every turn of the wheel keeps the point under the pointer,
and a pan keeps the point it began at under its pointer, whatever the data and the other pointers
do meanwhile. -/
theorem pointer_keeps_its_point (exp : ℚ → ℚ)
    (size : TxDagOrientation → List GraphNodeDatum → ℚ × ℚ) (txs : List TxDagInput) (blank : Bool)
    (resetKey : K) (actions : List (CanvasAction K)) (canvas : TxDagCanvas K)
    (ran : run (step exp size) (mount size txs blank resetKey) actions = some canvas) :
    (minK ≤ canvas.viewport.k ∧ canvas.viewport.k ≤ maxK) ∧
    (∀ clientX clientY deltaY rect next,
      canvas.step exp size (.gesture (.wheel clientX clientY deltaY rect)) = some next →
      screenToLayout clientX clientY rect viewBox next.viewport =
        screenToLayout clientX clientY rect viewBox canvas.viewport) ∧
    ∀ pointerId startX startY clientX clientY rect next, ∀ meanwhile : List (CanvasAction K),
      (∀ action ∈ meanwhile, Leaves pointerId canvas.resetKey action) →
      run (step exp size) canvas (.gesture (.pointerDown pointerId startX startY) :: meanwhile ++
        [.gesture (.pointerMove pointerId clientX clientY rect)]) = some next →
      screenToLayout clientX clientY rect viewBox next.viewport =
        screenToLayout startX startY rect viewBox canvas.viewport := by
  refine ⟨run_induction (motive := ZoomIn) (fun _ _ _ inside stepped => inside.step stepped)
    (zoomIn_mount txs blank resetKey) ran, fun _ _ _ _ _ stepped => wheel_keeps_point stepped, ?_⟩
  intro pointerId startX startY clientX clientY rect next meanwhile leaves panned
  rw [List.cons_append, run] at panned
  obtain ⟨down, stepped, rest⟩ := Option.bind_eq_some_iff.mp panned
  rw [run_append] at rest
  obtain ⟨up, held, last⟩ := Option.bind_eq_some_iff.mp rest
  rw [run] at last
  obtain ⟨final, moved, ended⟩ := Option.bind_eq_some_iff.mp last
  obtain rfl : final = next := Option.some.inj ended
  have along : Along (step exp size) (fun _ action => Leaves pointerId canvas.resetKey action)
      down meanwhile := along_of_forall_mem fun action listed _ => leaves action listed
  have holding : Holding pointerId startX startY canvas up :=
    run_induction_along (motive := Holding pointerId startX startY canvas)
      (fun _ _ _ holding leaves stepped => holding.step leaves stepped) (.start stepped) along held
  exact holding.move moved

/-- Two transactions of which the inputs are unknown. -/
def unlinked : List TxDagInput := [⟨hashOf 'a', none, 10⟩, ⟨hashOf 'b', none, 10⟩]

/-- The box of unlinked transactions of radius 10, which share a layer: the nodes, the gaps
between them and the padding. -/
def layerBox : TxDagOrientation → List GraphNodeDatum → ℚ × ℚ := fun orientation nodes =>
  let across : ℚ := 20 * nodes.length + 16 * (nodes.length - 1) + 48
  match orientation with
  | .horizontal => (68, across)
  | .vertical => (across, 68)

/-- A wheel that does not turn, which the exponential takes to one. -/
def stillExp : ℚ → ℚ := fun x => 1 + x

theorem panned_canvas_keeps_point :
    ∃ canvas next,
      run (step stillExp layerBox) (mount layerBox (unlinked.take 1) false ())
        [.gesture (.wheel 360 240 0 ⟨0, 0, 720, 480⟩)] = some canvas ∧
      run (step stillExp layerBox) canvas [.gesture (.pointerDown 1 360 240),
        .render unlinked false (), .gesture (.pointerMove 1 400 260 ⟨0, 0, 720, 480⟩)] =
        some next ∧
      screenToLayout 400 260 ⟨0, 0, 720, 480⟩ viewBox next.viewport =
        screenToLayout 360 240 ⟨0, 0, 720, 480⟩ viewBox canvas.viewport := by
  refine ⟨_, _, rfl, rfl, ?_⟩
  have kept := pointer_keeps_its_point stillExp layerBox (unlinked.take 1) false ()
    [.gesture (.wheel 360 240 0 ⟨0, 0, 720, 480⟩)] _ rfl
  refine kept.2.2 1 360 240 400 260 ⟨0, 0, 720, 480⟩ _ [.render unlinked false ()] ?_ rfl
  intro action listed
  rw [List.mem_singleton.mp listed]
  rfl

/-! ### A view nobody has touched -/

/-- The view that is given up is not held by a pan, and a change of the orientation changes what
the effect depends on. -/
def Refits (size : TxDagOrientation → List GraphNodeDatum → ℚ × ℚ) (canvas : TxDagCanvas K) :
    CanvasAction K → Prop
  | .render _ _ resetKey => resetKey = canvas.resetKey ∨ canvas.pan = none
  | .gesture .reset => canvas.pan = none
  | .gesture (.orient next) => next = canvas.orientation ∨ canvas.touched = false ∨
      canvas.pan = none ∧ (txDagLayout size canvas.txs next).dims ≠ (canvas.layout size).dims
  | .gesture _ => True

structure FitInv (size : TxDagOrientation → List GraphNodeDatum → ℚ × ℚ)
    (canvas : TxDagCanvas K) : Prop where
  fitted : canvas.fitted = (canvas.layout size).dims
  held : canvas.touched = false → canvas.pan = none
  fit : canvas.touched = false → canvas.viewport = fitNodes (canvas.layout size).dims

omit [DecidableEq K] in
/-- A view that is fitted, or about to be, is fitted after the render. -/
theorem FitInv.commit (held : canvas.touched = false → canvas.pan = none)
    (fit : canvas.touched = false → (canvas.layout size).dims = canvas.fitted →
      canvas.viewport = fitNodes (canvas.layout size).dims) :
    (canvas.commit size).FitInv size where
  fitted := rfl
  held := held
  fit untouched := by
    by_cases same : (canvas.layout size).dims = canvas.fitted
    · exact (commit_viewport_of_fitted same).trans (fit untouched same)
    · exact commit_viewport_of_moved same untouched

omit [DecidableEq K] in
/-- What changes neither the graph nor its orientation, and leaves a touched view. -/
theorem FitInv.commit_touched (touched : canvas.touched = true) :
    (canvas.commit size).FitInv size :=
  .commit (fun untouched => absurd (touched.symm.trans untouched) nofun)
    fun untouched _ => absurd (touched.symm.trans untouched) nofun

omit [DecidableEq K] in
theorem FitInv.recommit (inv : canvas.FitInv size) : (canvas.commit size).FitInv size :=
  .commit inv.held fun untouched _ => inv.fit untouched

theorem FitInv.step (inv : canvas.FitInv size) (refits : canvas.Refits size action)
    (stepped : canvas.step exp size action = some next) : next.FitInv size := by
  cases action with
  | render txs blank resetKey =>
    cases stepped
    rw [receive]
    split_ifs with same
    · -- an untouched view waits for the effect if the layout moved
      refine .commit inv.held fun untouched kept => ?_
      exact (inv.fit untouched).trans (congrArg fitNodes (inv.fitted.symm.trans kept.symm))
    · exact .commit (fun _ => refits.resolve_left same) fun _ _ => rfl
  | gesture gesture =>
    rw [step_gesture stepped]
    cases gesture with
    | wheel => exact .commit_touched rfl
    | pointerDown => exact .commit_touched rfl
    | pointerMove pointerId clientX clientY rect =>
      obtain ⟨still, -⟩ | ⟨pan, held, -, moved⟩ :=
        canvas.pointerMove_cases pointerId clientX clientY rect
      · rw [handle, still]
        exact inv.recommit
      · have touched : canvas.touched = true := by
          by_contra untouched
          exact absurd (held.symm.trans (inv.held (Bool.not_eq_true _ ▸ untouched))) nofun
        rw [handle, moved]
        exact .commit_touched touched
    | endPan pointerId =>
      rw [handle, endBackgroundPan]
      split_ifs
      · exact .commit (fun _ => rfl) fun untouched _ => inv.fit untouched
      · exact inv.recommit
    | reset => exact .commit (fun _ => refits) fun _ _ => rfl
    | orient next =>
      rw [handle, handleOrientationChange]
      split_ifs with same
      · exact inv.recommit
      · rcases refits.resolve_left same with untouched | ⟨free, moves⟩
        · refine .commit (fun _ => inv.held untouched) fun _ kept => ?_
          exact (inv.fit untouched).trans (congrArg fitNodes (inv.fitted.symm.trans kept.symm))
        · exact .commit (fun _ => free) fun _ kept => absurd (kept.trans inv.fitted) moves

/-- As long as no view is given up in the middle of a pan and every change of the orientation of
a touched view changes the box of the graph, a view that is not touched is fitted to the graph it
draws, and all of the graph is in it unless that takes more than the least zoom. -/
theorem untouched_view_shows_graph (exp : ℚ → ℚ)
    (size : TxDagOrientation → List GraphNodeDatum → ℚ × ℚ) (txs : List TxDagInput) (blank : Bool)
    (resetKey : K) (actions : List (CanvasAction K)) (canvas : TxDagCanvas K)
    (along : Along (step exp size) (Refits size) (mount size txs blank resetKey) actions)
    (ran : run (step exp size) (mount size txs blank resetKey) actions = some canvas)
    (untouched : canvas.touched = false) :
    canvas.viewport = fitNodes (canvas.layout size).dims ∧
    (0 < (canvas.layout size).width → 0 < (canvas.layout size).height →
      (canvas.layout size).width * minK ≤ viewBox.w →
      (canvas.layout size).height * minK ≤ viewBox.h →
      ∀ pt : Point, (0 ≤ pt.x ∧ pt.x ≤ (canvas.layout size).width) →
        (0 ≤ pt.y ∧ pt.y ≤ (canvas.layout size).height) →
        (0 ≤ (canvas.viewport.draw pt).x ∧ (canvas.viewport.draw pt).x ≤ viewBox.w) ∧
          0 ≤ (canvas.viewport.draw pt).y ∧ (canvas.viewport.draw pt).y ≤ viewBox.h) := by
  have inv : canvas.FitInv size :=
    run_induction_along (motive := FitInv size)
      (fun _ _ _ inv refits stepped => inv.step refits stepped)
      ⟨rfl, fun _ => rfl, fun _ => rfl⟩ along ran
  have fit := inv.fit untouched
  refine ⟨fit, fun w h wide tall pt across down => ?_⟩
  have top : minK ≤ maxFitK (canvas.layout size).dims.nodeCount := by
    rw [maxFitK]
    split_ifs <;> norm_num [minK, maxK]
  rw [fit]
  exact fitToView_shows w h (by norm_num [viewBox]) (by norm_num [viewBox]) top wide tall
    across.1 across.2 down.1 down.2

/-- A pan, a reset, and a second transaction. -/
def resetPan : List (CanvasAction Unit) :=
  [.gesture (.pointerDown 1 360 240), .gesture (.pointerMove 1 400 260 ⟨0, 0, 720, 480⟩),
    .gesture (.endPan 1), .gesture .reset, .render unlinked false ()]

theorem reset_canvas_shows_graph :
    ∃ canvas, run (step stillExp layerBox) (mount layerBox (unlinked.take 1) false ()) resetPan =
        some canvas ∧
      canvas.viewport = fitNodes (canvas.layout layerBox).dims := by
  refine ⟨_, rfl, ?_⟩
  have along : Along (step stillExp layerBox) (Refits layerBox)
      (mount layerBox (unlinked.take 1) false ()) resetPan :=
    .cons rfl trivial (.cons rfl trivial (.cons rfl trivial (.cons rfl rfl
      (.cons rfl (.inl rfl) trivial))))
  exact (untouched_view_shows_graph _ _ _ _ _ resetPan _ along rfl rfl).1

/-- The graph of one transaction has the same box in both orientations: a panned view stays where
it is when the orientation changes, and counts as untouched. -/
example : (run (step stillExp layerBox) (mount layerBox (unlinked.take 1) false ())
    (resetPan.take 3 ++ [.gesture (.orient .vertical)])).any (fun canvas =>
      !canvas.touched && canvas.viewport ≠ fitNodes (canvas.layout layerBox).dims) = true := by
  decide +kernel

end TxDagCanvas

/-! ### What flashes -/

/-- A transaction and its parents are named by their hashes, each transaction once. -/
def Named (txs : List TxDagInput) : Prop := (txs.map TxDagInput.txid).Nodup ∧ Hashes txs

theorem comma_notMem_of_isTxid {txid : String} (isTxid : IsTxid txid) : ',' ∉ txid.toList := by
  intro comma
  have digit := isTxid.digits ',' comma
  revert digit
  decide

/-- A node is named by a hash, or is the text that stands for elided parents of one. -/
theorem mem_drawnIds {txs : List TxDagInput} (named : Named txs) {id : String}
    (drawn : id ∈ drawnIds txs) : IsTxid id ∨ ∃ txid, IsTxid txid ∧ id = aggregateId txid := by
  rw [drawnIds, List.mem_insertionSort] at drawn
  have distinct : (ids (sortByTxid txs)).Nodup := (perm_sortByTxid.map _).nodup_iff.mpr named.1
  have hashes : Hashes (sortByTxid txs) := fun t member => named.2 t (mem_sortByTxid.mp member)
  have spec : Collects (sortByTxid txs) (collect (sortByTxid txs)) := foldl_addTx distinct hashes
  cases found : findCyclicTargets (ids (sortByTxid txs))
      (collect (sortByTxid txs)).internalEdges with
  | none =>
    have nothing : txDagGraph txs = none := by
      rw [txDagGraph, ← ids, found]
      rfl
    simp [nothing, nodeIds] at drawn
  | some cyclic =>
    rw [txDagGraph_eq_some found, Option.map_some, Option.getD_some, mem_nodeIds spec] at drawn
    rcases drawn with known | ⟨x, stub | text⟩
    · exact .inl (isTxid_of_mem_ids hashes known)
    · exact .inl (isTxid_stub hashes spec stub)
    · obtain ⟨t, listed, -, -, rfl⟩ := (mem_aggregateEdges spec).mp text
      exact .inr ⟨t.txid, (hashes t listed).1, rfl⟩

/-- Sorted ids that a text joined by commas can hold. -/
structure Joinable (ids : List String) : Prop where
  sorted : ids.Pairwise (· ≤ ·)
  nonempty : "" ∉ ids
  plain : ∀ id ∈ ids, ',' ∉ id.toList

theorem joinable_drawnIds {txs : List TxDagInput} (named : Named txs) :
    Joinable (drawnIds txs) where
  sorted := List.pairwise_insertionSort _ _
  nonempty drawn := by
    rcases mem_drawnIds named drawn with isTxid | ⟨txid, -, text⟩
    · exact absurd isTxid.length (by decide)
    · have length := congrArg String.length text
      rw [aggregateId, String.length_append] at length
      exact absurd length (Nat.ne_of_lt (Nat.add_pos_left (by decide) _))
  plain id drawn := by
    rcases mem_drawnIds named drawn with isTxid | ⟨txid, isTxid, rfl⟩
    · exact comma_notMem_of_isTxid isTxid
    · have plain := comma_notMem_of_isTxid isTxid
      simpa [aggregateId] using plain

/-- The key of no nodes is read back as one node without a name. -/
theorem splitCommas_txidKey {ids : List String} (joinable : Joinable ids) :
    splitCommas (txidKey ids) = if ids = [] then [""] else ids := by
  rw [txidKey, joinable.sorted.insertionSort_eq]
  split_ifs with none
  · rw [none]
    rfl
  · exact splitCommas_joinTxids none joinable.plain

theorem mem_splitCommas_txidKey {ids : List String} (joinable : Joinable ids) {id : String}
    (nonempty : id ≠ "") : id ∈ splitCommas (txidKey ids) ↔ id ∈ ids := by
  rw [splitCommas_txidKey joinable]
  split_ifs with none
  · simp [none, nonempty]
  · rfl

theorem txidKey_inj {ids others : List String} (joinable : Joinable ids)
    (joinable' : Joinable others) (same : txidKey ids = txidKey others) : ids = others := by
  have parts := congrArg splitCommas same
  rw [splitCommas_txidKey joinable, splitCommas_txidKey joinable'] at parts
  split_ifs at parts with none none' none'
  · rw [none, none']
  · exact absurd (parts ▸ List.mem_singleton_self "") joinable'.nonempty
  · exact absurd (parts ▸ List.mem_singleton_self "") joinable.nonempty
  · exact parts

/-- The last of the graphs drawn, newest first, that is not the current one. -/
def previousGraph (drawn : List (List String)) (current : List String) : Option (List String) :=
  drawn.find? (· ≠ current)

/-- What the state holds after the graphs drawn, newest first, of which `current` is the last. -/
structure FlashState.Of (drawn : List (List String)) (current : List String) (state : FlashState) :
    Prop where
  last : drawn.head? = some current
  seen : state.seenTxidKey = some (txidKey current)
  flashed : ∀ id, id ∈ state.flashedTxids ↔
    id ∈ current ∧ ∃ previous, previousGraph drawn current = some previous ∧ id ∉ previous

namespace FlashState.Of

variable {drawn : List (List String)} {current displayed : List String} {state : FlashState}

theorem first (ids : List String) : (FlashState.render ids ⟨none, []⟩).Of [ids] ids where
  last := rfl
  seen := rfl
  flashed id := by simp [FlashState.render, previousGraph]

theorem render_eq (of : state.Of drawn current) : state.render current = state :=
  if_pos of.seen.symm

theorem render (of : state.Of drawn current) (joinable : Joinable current)
    (joinable' : Joinable displayed) :
    (state.render displayed).Of (displayed :: drawn) displayed := by
  by_cases same : displayed = current
  · subst same
    rw [of.render_eq]
    refine ⟨rfl, of.seen, fun id => ?_⟩
    have skipped :
        previousGraph (displayed :: drawn) displayed = previousGraph drawn displayed := by
      simp [previousGraph]
    rw [skipped]
    exact of.flashed id
  · have moved : some (txidKey displayed) ≠ some (txidKey current) :=
      fun keys => same (txidKey_inj joinable' joinable (Option.some.inj keys))
    have previous : previousGraph (displayed :: drawn) displayed = some current := by
      obtain ⟨rest, rfl⟩ := List.head?_eq_some_iff.mp of.last
      simp [previousGraph, Ne.symm same]
    rw [FlashState.render, of.seen, if_neg moved]
    refine ⟨rfl, rfl, fun id => ?_⟩
    simp only [List.mem_filter, decide_eq_true_eq, previous, Option.some.injEq, exists_eq_left']
    refine and_congr_right fun listed => not_congr (mem_splitCommas_txidKey joinable ?_)
    rintro rfl
    exact joinable'.nonempty listed

end FlashState.Of

namespace TxDagCanvas

variable {K : Type} [DecidableEq K] {exp : ℚ → ℚ}
  {size : TxDagOrientation → List GraphNodeDatum → ℚ × ℚ} {canvas next : TxDagCanvas K}

def noteRender (seen : List (List TxDagInput)) : CanvasAction K → List (List TxDagInput)
  | .render txs _ _ => txs :: seen
  | .gesture _ => seen

/-- The transactions of the renders so far, newest first. -/
def rendered (txs : List TxDagInput) (actions : List (CanvasAction K)) : List (List TxDagInput) :=
  actions.foldl noteRender [txs]

omit [DecidableEq K] in
@[simp]
theorem nodes_layout : (canvas.layout size).nodes = drawnIds canvas.txs := by
  rw [layout, txDagLayout]
  split_ifs <;> rfl

omit [DecidableEq K] in
theorem txs_handle (exp : ℚ → ℚ) (size : TxDagOrientation → List GraphNodeDatum → ℚ × ℚ)
    (canvas : TxDagCanvas K) (gesture : Gesture) :
    (canvas.handle exp size gesture).txs = canvas.txs ∧
      (canvas.handle exp size gesture).flash = canvas.flash := by
  cases gesture with
  | wheel | pointerDown | reset => exact ⟨rfl, rfl⟩
  | pointerMove pointerId clientX clientY rect =>
    obtain ⟨still, -⟩ | ⟨pan, -, -, moved⟩ :=
      canvas.pointerMove_cases pointerId clientX clientY rect
    · rw [handle, still]
      exact ⟨rfl, rfl⟩
    · rw [handle, moved]
      exact ⟨rfl, rfl⟩
  | endPan pointerId =>
    rw [handle, endBackgroundPan]
    split_ifs <;> exact ⟨rfl, rfl⟩
  | orient next =>
    rw [handle, handleOrientationChange]
    split_ifs <;> exact ⟨rfl, rfl⟩

theorem txs_receive (size : TxDagOrientation → List GraphNodeDatum → ℚ × ℚ)
    (canvas : TxDagCanvas K) (txs : List TxDagInput) (blank : Bool) (resetKey : K) :
    (canvas.receive size txs blank resetKey).txs = txs ∧
      (canvas.receive size txs blank resetKey).flash = canvas.flash := by
  rw [receive]
  split_ifs <;> exact ⟨rfl, rfl⟩

/-- The canvas flashes what is new in the last of the graphs rendered. -/
def Flashes (canvas : TxDagCanvas K) (seen : List (List TxDagInput)) : Prop :=
  (∀ txs ∈ seen, Named txs) → (∃ earlier, seen = canvas.txs :: earlier) ∧
    canvas.flash.Of (seen.map drawnIds) (drawnIds canvas.txs)

omit [DecidableEq K] in
theorem flashes_mount (txs : List TxDagInput) (blank : Bool) (resetKey : K) :
    (mount size txs blank resetKey).Flashes [txs] := by
  have nodes : (txDagLayout size txs .horizontal).nodes = drawnIds txs := by
    rw [txDagLayout]
    split_ifs <;> rfl
  refine fun _ => ⟨⟨[], rfl⟩, ?_⟩
  simpa [mount, nodes] using FlashState.Of.first (drawnIds txs)

theorem Flashes.step {seen : List (List TxDagInput)} {action : CanvasAction K}
    (flashes : canvas.Flashes seen) (stepped : canvas.step exp size action = some next) :
    next.Flashes (noteRender seen action) := by
  intro named
  cases action with
  | render txs blank resetKey =>
    cases stepped
    obtain ⟨⟨earlier, rfl⟩, of⟩ := flashes fun txs' listed =>
      named txs' (List.mem_cons_of_mem _ listed)
    obtain ⟨txs_eq, flash_eq⟩ := canvas.txs_receive size txs blank resetKey
    refine ⟨⟨_, congrArg (· :: _) txs_eq.symm⟩, ?_⟩
    have drawn := of.render (joinable_drawnIds (named canvas.txs (by simp [noteRender])))
      (joinable_drawnIds (named txs (by simp [noteRender])))
    simpa [noteRender, commit, layoutEffect, txs_eq, flash_eq] using drawn
  | gesture gesture =>
    -- the same nodes are rendered again
    obtain ⟨head, of⟩ := flashes named
    obtain ⟨txs_eq, flash_eq⟩ := canvas.txs_handle exp size gesture
    rw [step_gesture stepped]
    refine ⟨?_, ?_⟩
    · simpa [noteRender, commit, layoutEffect, txs_eq] using head
    · simpa [noteRender, commit, layoutEffect, txs_eq, flash_eq, of.render_eq] using of

/-- A node flashes exactly when the last other graph that was drawn did not have it. Gestures,
refits and renders of the same nodes neither start a flash nor end one. -/
theorem flash_marks_new_nodes (exp : ℚ → ℚ)
    (size : TxDagOrientation → List GraphNodeDatum → ℚ × ℚ) (txs : List TxDagInput) (blank : Bool)
    (resetKey : K) (actions : List (CanvasAction K)) (canvas : TxDagCanvas K)
    (named : ∀ txs' ∈ rendered txs actions, Named txs')
    (ran : run (step exp size) (mount size txs blank resetKey) actions = some canvas) :
    ∀ id, id ∈ canvas.flash.flashedTxids ↔ id ∈ (canvas.layout size).nodes ∧
      ∃ previous, previousGraph ((rendered txs actions).map drawnIds) (canvas.layout size).nodes =
        some previous ∧ id ∉ previous := by
  have flashes : canvas.Flashes (rendered txs actions) :=
    run_foldl (fun _ _ _ _ flashes stepped => flashes.step stepped)
      (flashes_mount txs blank resetKey) ran
  rw [nodes_layout]
  exact (flashes named).2.flashed

theorem second_transaction_flashes :
    ∃ canvas, run (step stillExp layerBox) (mount layerBox (unlinked.take 1) false ())
        [.render unlinked false ()] = some canvas ∧
      (hashOf 'b' ∈ canvas.flash.flashedTxids ↔ hashOf 'b' ∈ (canvas.layout layerBox).nodes ∧
        ∃ previous, previousGraph [drawnIds unlinked, drawnIds (unlinked.take 1)]
          (canvas.layout layerBox).nodes = some previous ∧ hashOf 'b' ∉ previous) := by
  refine ⟨_, rfl, ?_⟩
  have named : Named unlinked := by
    refine ⟨by decide +kernel, fun t listed => ?_⟩
    simp only [unlinked, List.mem_cons, List.not_mem_nil, or_false] at listed
    obtain rfl | rfl := listed <;> exact ⟨isTxid_hashOf (by decide), nofun⟩
  have one : Named (unlinked.take 1) :=
    ⟨named.1.sublist ((List.take_sublist _ _).map _),
      fun t listed => named.2 t (List.mem_of_mem_take listed)⟩
  refine flash_marks_new_nodes stillExp layerBox (unlinked.take 1) false ()
    [.render unlinked false ()] _ ?_ rfl (hashOf 'b')
  intro txs listed
  rcases List.mem_cons.mp listed with rfl | listed
  · exact named
  · exact List.mem_singleton.mp listed ▸ one

end TxDagCanvas

end MempoolObserver
