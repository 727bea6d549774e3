import FlowChart.Graph.Basic
import FlowChart.Layout.Config
import FlowChart.Number.Checked
import FlowChart.Route.Anchor
import FlowChart.Route.Collision

/-!
# Routes

An edge runs from the bottom side of its source to the top side of its target, in horizontal and
vertical pieces. An edge to a deeper level goes down, across and down again; if that hits a block,
it goes around on a side lane. An edge to the same level or a higher one always takes a side lane.
Lanes of neighbouring edges are staggered by the position of the edge.
-/

namespace FlowChart

/-- The way of an edge. -/
structure Route (α : Type) where
  /-- The edge. -/
  edge : Edge
  /-- The points where the way starts, turns and ends. -/
  points : List (Point α)
  /-- Whether the target is not on a deeper level than the source. -/
  isBack : Bool := false
  /-- Whether the way takes a side lane. -/
  isDetour : Bool := false

namespace Route

variable {α : Type} [Scalar α]

open Scalar

/-- The ends of a way. -/
structure Ends (α : Type) where
  /-- Where the way leaves the source. -/
  start : Point α
  /-- Where the way enters the target. -/
  finish : Point α

/-- The ends of the way between two boxes, with the offsets of its anchors. -/
def Ends.between (source target : Box α) (sourceOffset targetOffset : α) : Ends α :=
  ⟨⟨source.centerX + sourceOffset, source.bottom⟩, ⟨target.centerX + targetOffset, target.y⟩⟩

/-- The points of a way that goes down, across at `y`, and down. -/
def Ends.across (e : Ends α) (y : α) : List (Point α) :=
  [e.start, ⟨e.start.x, y⟩, ⟨e.finish.x, y⟩, e.finish]

/-- The points of a way that passes along a lane at `x` between two heights. -/
def Ends.along (e : Ends α) (x exitY entryY : α) : List (Point α) :=
  [e.start, ⟨e.start.x, exitY⟩, ⟨x, exitY⟩, ⟨x, entryY⟩, ⟨e.finish.x, entryY⟩, e.finish]

/-- The place of a side lane on the right or the left of some boxes. -/
def laneX (boxes : List (Box α)) (onRight : Bool) (clearance : α) : Except Fault α := do
  if onRight then
    return (← largestOf (boxes.map Box.right)) + clearance
  else
    return (← smallestOf (boxes.map Box.x)) - clearance

/-- Whether the way that goes down, across at `y`, and down hits a box. -/
def Ends.acrossHits (e : Ends α) (y margin : α) (b : Box α) : Bool :=
  b.hitVertically margin e.start.x e.start.y y ||
    b.hitHorizontally margin y e.start.x e.finish.x ||
    b.hitVertically margin e.finish.x y e.finish.y

/-- The height at which the edge at a position goes across. -/
def acrossY (spacing : α) (index : Int) (e : Ends α) : α :=
  e.start.y + half (e.finish.y - e.start.y) + ((index % 5 - 2 : Int) : α) * spacing

/-- The way of an edge back to its own level or a higher one. -/
def back (config : Config α) (index : Int) (edge : Edge) (source target : Box α)
    (boxes : List (Box α)) (rowBottom : α) (e : Ends α) : Except Fault (Route α) := do
  let stagger := ((index % 3 : Int) : α) * config.edgeSpacing
  let exitY := rowBottom + config.edgeMargin + config.backEdgeClearance + stagger
  let entryY := e.finish.y - config.edgeMargin - config.backEdgeClearance - stagger
  let obstacles := source :: target :: Box.inBand boxes entryY exitY
  let x ← laneX obstacles (source.centerX < e.start.x)
    (config.detourMargin + (index : α) * config.edgeSpacing)
  return { edge, points := e.along x exitY entryY, isBack := true, isDetour := true }

/-- The way of an edge to a deeper level around the boxes in its path, on the side that is
nearer. -/
def around (config : Config α) (index : Int) (edge : Edge) (boxes inPath : List (Box α))
    (rowBottom : α) (e : Ends α) : Except Fault (Route α) := do
  let stagger := ((index % 3 : Int) : α) * config.edgeSpacing
  let leftDistance := smaller e.start.x e.finish.x - (← smallestOf (inPath.map Box.x))
  let rightDistance := (← largestOf (inPath.map Box.right)) - larger e.start.x e.finish.x
  let exitY := rowBottom + config.edgeMargin + stagger
  let entryY := e.finish.y - config.edgeMargin - stagger
  let obstacles := inPath ++ Box.inBand boxes exitY entryY
  let x ← laneX obstacles (rightDistance < leftDistance)
    (config.detourMargin + (index : α) * config.edgeSpacing)
  return { edge, points := e.along x exitY entryY, isDetour := true }

/-- The way of an edge to a deeper level. -/
def forward (config : Config α) (index : Int) (edge : Edge) (source target : Box α)
    (boxes : List (Box α)) (rowBottom : α) (e : Ends α) : Except Fault (Route α) :=
  let inPath := Box.between source target boxes config.edgeMargin
  let y := acrossY config.edgeSpacing index e
  if inPath.isEmpty && magnitude (e.start.x - e.finish.x) < config.straightTolerance then
    .ok { edge, points := [e.start, e.finish] }
  else if inPath.any (e.acrossHits y config.edgeMargin) then
    around config index edge boxes inPath rowBottom e
  else .ok { edge, points := e.across y }

/-- The way of the edge at a position between two boxes among others. `rowBottoms` holds the
lowest bottom side on each level. Positions may be of either sign; staggering repeats every three
of them, and the heights of crossings every five. -/
def between (config : Config α) (index : Int) (edge : Edge) (source target : Box α)
    (boxes : List (Box α)) (rowBottoms : Table Int α) (sourceOffset targetOffset : α) :
    Except Fault (Route α) :=
  let e := Ends.between source target sourceOffset targetOffset
  let rowBottom := (rowBottoms.get? source.level).getD e.start.y
  if target.level ≤ source.level then back config index edge source target boxes rowBottom e
  else forward config index edge source target boxes rowBottom e

/-- The lowest bottom sides of the levels with one more box. -/
def addBottom (bottoms : Table Int α) (b : Box α) : Table Int α :=
  bottoms.insert b.level (larger ((bottoms.get? b.level).getD b.bottom) b.bottom)

/-- The lowest bottom side on each level. -/
def rowBottoms (boxes : List (Box α)) : Table Int α := boxes.foldl addBottom .empty

/-- The edges with their positions and boxes, where both ends have a box. -/
def placedEdges (edges : List Edge) (boxes : Table String (Box α)) :
    List (Nat × Edge × Box α × Box α) :=
  edges.zipIdx.filterMap fun (edge, index) ↦
    match boxes.get? edge.source, boxes.get? edge.target with
    | some source, some target => some (index, edge, source, target)
    | _, _ => none

/-- The edges that have no route, because one of their ends has no box. -/
def unplacedEdges (edges : List Edge) (boxes : Table String (Box α)) : List Edge :=
  edges.filter fun edge ↦ !(boxes.contains edge.source && boxes.contains edge.target)

/-- The routes of the edges between placed blocks, in edge order. -/
def ofEdges (config : Config α) (edges : List Edge) (boxes : Table String (Box α)) :
    Except Fault (List (Route α)) := do
  let placed := boxes.values
  let bottoms := rowBottoms placed
  let widths := Table.ofList (placed.map fun b ↦ (b.id, b.width))
  let (sources, targets) ←
    Anchor.ofEdges edges config.parallelOffset (some widths) config.edgeMargin
  (placedEdges edges boxes).mapM fun (index, edge, source, target) ↦
    between config index edge source target placed bottoms
      (sources[index]?.getD ((0 : Nat) : α)) (targets[index]?.getD ((0 : Nat) : α))

end Route

end FlowChart
