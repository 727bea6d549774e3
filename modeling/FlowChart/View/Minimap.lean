import FlowChart.Chart
import FlowChart.View.State

/-!
# Minimaps

A minimap shows the rectangle around all boxes, with some space around it, in a fixed panel. It is
scaled equally in both directions, so that it just fits, and centred.
-/

namespace FlowChart

/-- A rectangle by its sides. -/
structure Bounds (α : Type) where
  /-- The left side. -/
  minX : α
  /-- The top side. -/
  minY : α
  /-- The right side. -/
  maxX : α
  /-- The bottom side. -/
  maxY : α
  deriving Repr, DecidableEq

namespace Bounds

variable {α : Type} [Scalar α]

open Scalar

/-- The width. -/
def width (b : Bounds α) : α := b.maxX - b.minX

/-- The height. -/
def height (b : Bounds α) : α := b.maxY - b.minY

/-- The width and height of the rectangle that stands for no boxes. -/
def emptyExtent : α := ((1000 : Nat) : α)

/-- The rectangle around some boxes, grown by `padding`. -/
def ofBoxes (boxes : List (Box α)) (padding : α) : Bounds α :=
  match boxes with
  | [] => ⟨((0 : Nat) : α), ((0 : Nat) : α), emptyExtent, emptyExtent⟩
  | b :: rest =>
    ⟨smallest b.x (rest.map Box.x) - padding, smallest b.y (rest.map Box.y) - padding,
      largest b.right (rest.map Box.right) + padding,
      largest b.bottom (rest.map Box.bottom) + padding⟩

/-- No boxes are shown as a square that starts at the top left corner. -/
theorem ofBoxes_nil (padding : α) :
    ofBoxes [] padding = ⟨((0 : Nat) : α), ((0 : Nat) : α), emptyExtent, emptyExtent⟩ := rfl

end Bounds

/-- How a chart is shown in a panel. -/
structure Minimap (α : Type) where
  /-- The rectangle of the chart that is shown. -/
  bounds : Bounds α
  /-- The scale. -/
  scale : α
  /-- Where the rectangle starts in the panel. -/
  offset : Point α
  /-- The width of the panel. -/
  panelWidth : α
  /-- The height of the panel. -/
  panelHeight : α
  deriving Repr, DecidableEq

namespace Minimap

variable {α : Type} [Scalar α]

open Scalar

/-- The minimap of some boxes. -/
def fit (boxes : List (Box α)) (config : Config α) : Except Fault (Minimap α) := do
  let bounds := Bounds.ofBoxes boxes config.minimapPadding
  let panelWidth := config.minimapWidth
  let panelHeight := config.minimapHeight
  let scaleX ← divide panelWidth bounds.width
  let scaleY ← divide panelHeight bounds.height
  let scale := smaller scaleX scaleY
  return {
    bounds, scale, panelWidth, panelHeight
    offset := ⟨half (panelWidth - bounds.width * scale), half (panelHeight - bounds.height * scale)⟩ }

/-- The point of the panel where a point of the chart is shown. -/
def toPanel (m : Minimap α) (p : Point α) : Point α :=
  ⟨(p.x - m.bounds.minX) * m.scale + m.offset.x, (p.y - m.bounds.minY) * m.scale + m.offset.y⟩

/-- The point of the chart that is shown at a point of the panel. -/
def toGraph (m : Minimap α) (p : Point α) : Except Fault (Point α) := do
  let x ← divide (p.x - m.offset.x) m.scale
  let y ← divide (p.y - m.offset.y) m.scale
  return ⟨m.bounds.minX + x, m.bounds.minY + y⟩

/-- The rectangle of the panel where a box is shown. -/
def boxRect (m : Minimap α) (b : Box α) : Rect α :=
  let p := m.toPanel ⟨b.x, b.y⟩
  ⟨p.x, p.y, b.width * m.scale, b.height * m.scale⟩

/-- The rectangle of the panel that a view on a canvas shows; the whole panel, if the size of the
canvas is not known. -/
def viewRect (m : Minimap α) (v : View α) (canvasWidth canvasHeight : Option α) :
    Except Fault (Rect α) :=
  match canvasWidth, canvasHeight with
  | some width, some height => do
    let width := Canvas.orElse width Canvas.standard.width
    let height := Canvas.orElse height Canvas.standard.height
    let x ← divide (-v.panX) v.zoom
    let y ← divide (-v.panY) v.zoom
    let corner := m.toPanel ⟨x, y⟩
    let width ← divide width v.zoom
    let height ← divide height v.zoom
    return ⟨corner.x, corner.y, width * m.scale, height * m.scale⟩
  | _, _ => .ok ⟨((0 : Nat) : α), ((0 : Nat) : α), m.panelWidth, m.panelHeight⟩

/-- The view panned so that the point under a click is in the middle of the canvas. -/
def panTo (m : Minimap α) (click : Point α) (v : View α) (canvasWidth canvasHeight : α) :
    Except Fault (View α) := do
  let target ← m.toGraph click
  return { v with
    panX := half canvasWidth - target.x * v.zoom
    panY := half canvasHeight - target.y * v.zoom }

end Minimap

end FlowChart
