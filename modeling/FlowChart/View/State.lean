import FlowChart.Layout.Box
import FlowChart.Layout.Config
import FlowChart.Number.Checked

/-!
# Views

The pan and zoom of the main canvas. A point of the chart is shown at `point * zoom + pan`.
Zooming keeps the point under the cursor where it is, and stays between the least and the greatest
zoom.
-/

namespace FlowChart

/-- What part of a chart is shown. -/
structure View (α : Type) where
  /-- The shift to the right. -/
  panX : α
  /-- The shift downwards. -/
  panY : α
  /-- The scale. -/
  zoom : α
  /-- The least zoom. -/
  minZoom : α
  /-- The greatest zoom. -/
  maxZoom : α
  deriving Repr, DecidableEq

namespace View

variable {α : Type} [Scalar α]

open Scalar

/-- The factor of a turn of the wheel towards the user. -/
def wheelForward : α := 1.1

/-- The factor of any other turn of the wheel. -/
def wheelBackward : α := 0.9

/-- The factor of the button that enlarges. -/
def buttonLarger : α := 1.2

/-- The factor of the button that reduces. -/
def buttonSmaller : α := 0.8

/-- The zoom after a reset. -/
def plainZoom : α := ((1 : Nat) : α)

/-- The view that is not panned, in plain size. -/
def standard : View α :=
  ⟨((0 : Nat) : α), ((0 : Nat) : α), plainZoom, Config.standard.minZoom, Config.standard.maxZoom⟩

/-- The view that a chart starts with. -/
def initial (pan : Point α) (zoom : α) (config : Config α) : View α :=
  ⟨pan.x, pan.y, zoom, config.minZoom, config.maxZoom⟩

/-- The point of the chart that is shown at a point of the canvas. -/
def toGraph (v : View α) (p : Point α) : Except Fault (Point α) := do
  let x ← divide (p.x - v.panX) v.zoom
  let y ← divide (p.y - v.panY) v.zoom
  return ⟨x, y⟩

/-- The point of the canvas where a point of the chart is shown. -/
def toScreen (v : View α) (p : Point α) : Point α :=
  ⟨p.x * v.zoom + v.panX, p.y * v.zoom + v.panY⟩

/-- The zoom nearest to a wanted one that lies within the bounds. -/
def clamp (v : View α) (zoom : α) : α := smaller (larger zoom v.minZoom) v.maxZoom

/-- Scale the zoom by a factor, keeping the point that is shown at `p`. -/
def zoomAt (v : View α) (p : Point α) (factor : α) : Except Fault (View α) := do
  let anchor ← v.toGraph p
  let zoom := v.clamp (v.zoom * factor)
  return { v with zoom, panX := p.x - anchor.x * zoom, panY := p.y - anchor.y * zoom }

/-- Zoom by a turn of the wheel at `p`. -/
def wheel (v : View α) (p : Point α) (delta : α) : Except Fault (View α) :=
  v.zoomAt p (if ((0 : Nat) : α) < delta then wheelForward else wheelBackward)

/-- The middle of a canvas. -/
def canvasCenter (width height : α) : Point α := ⟨half width, half height⟩

/-- Enlarge around the middle of a canvas. -/
def zoomIn (v : View α) (width height : α) : Except Fault (View α) :=
  v.zoomAt (canvasCenter width height) buttonLarger

/-- Reduce around the middle of a canvas. -/
def zoomOut (v : View α) (width height : α) : Except Fault (View α) :=
  v.zoomAt (canvasCenter width height) buttonSmaller

/-- Go back to plain size without pan. -/
def reset (v : View α) : View α :=
  { v with panX := ((0 : Nat) : α), panY := ((0 : Nat) : α), zoom := plainZoom }

/-- Zooming does not change the bounds of the zoom. -/
theorem zoomAt_bounds {v w : View α} {p : Point α} {factor : α} (h : v.zoomAt p factor = .ok w) :
    w.minZoom = v.minZoom ∧ w.maxZoom = v.maxZoom ∧ w.zoom = v.clamp (v.zoom * factor) := by
  unfold zoomAt at h
  cases ha : v.toGraph p with
  | error fault => simp [ha, bind, Except.bind] at h
  | ok anchor =>
    simp only [ha, bind, Except.bind, pure, Except.pure, Except.ok.injEq] at h
    subst h
    exact ⟨rfl, rfl, rfl⟩

end View

end FlowChart
