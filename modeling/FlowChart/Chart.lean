import FlowChart.Layout.Placement
import FlowChart.Route.Basic
import FlowChart.Warning

/-!
# Charts

A chart is what a renderer needs of a graph: a box for every block, a route for every edge, and
the pan and zoom that show the entry near the top of the canvas.
-/

namespace FlowChart

/-- A drawn graph. -/
structure Chart (α : Type) where
  /-- The box of each block. -/
  boxes : Table String (Box α)
  /-- The level of each block. -/
  levels : Table String Int
  /-- The routes of the edges in edge order. -/
  routes : List (Route α)
  /-- The pan that a view starts with. -/
  pan : Point α
  /-- The zoom that a view starts with. -/
  zoom : α

/-- The size of a canvas. -/
structure Canvas (α : Type) where
  /-- The width. -/
  width : α
  /-- The height. -/
  height : α

namespace Canvas

variable {α : Type} [Scalar α]

/-- The canvas that is assumed if none is given. -/
def standard : Canvas α := ⟨((800 : Nat) : α), ((600 : Nat) : α)⟩

/-- A size, or another one in place of zero. -/
def orElse (size other : α) : α := if Scalar.isZero size then other else size

end Canvas

namespace Chart

variable {α : Type} [Scalar α]

/-- The pan if there is no entry to show. -/
def fallbackPan : Point α := ⟨((50 : Nat) : α), ((50 : Nat) : α)⟩

/-- The chart without blocks. -/
def blank : Chart α := ⟨.empty, .empty, [], fallbackPan, Config.standard.initialZoom⟩

instance : Inhabited (Chart α) := ⟨blank⟩

/-- The pan and zoom that put the top of the entry's box near the top of the canvas and its middle
in the middle. -/
def initialView (entry : Option (Box α)) (canvasWidth : Option α) (config : Config α) :
    Point α × α :=
  let zoom := config.initialZoom
  match entry with
  | none => (fallbackPan, zoom)
  | some box =>
    let width := Canvas.orElse (canvasWidth.getD Canvas.standard.width) Canvas.standard.width
    (⟨Scalar.half width - box.centerX * zoom, config.initialTopOffset - box.y * zoom⟩, zoom)

/-- The warnings about edges that have no route. -/
def unplacedWarnings (edges : List Edge) (boxes : Table String (Box α)) : List Warning :=
  (Route.unplacedEdges edges boxes).map fun e ↦ .unplacedEdge e.source e.target

/-- The chart of a graph. -/
def ofGraph (g : Graph) (canvasWidth : Option α) (config : Config α) : Except Fault (Chart α) := do
  let placement ← g.place config
  let routes ← Route.ofEdges config g.edges placement.boxes
  let (pan, zoom) :=
    initialView (g.entry?.bind fun b ↦ placement.boxes.get? b.id) canvasWidth config
  return ⟨placement.boxes, placement.levels, routes, pan, zoom⟩

/-- The chart of a graph, with warnings about edges that have no route. -/
def draw (g : Graph) (canvasWidth : Option α) (config : Config α) : Logged (Chart α) := do
  let chart ← Logged.ofFaulty (ofGraph g canvasWidth config)
  Logged.warn (unplacedWarnings g.edges chart.boxes)
  return chart

end Chart

end FlowChart
