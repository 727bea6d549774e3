import FlowChart.Graph.Basic

/-!
# Adjacency

The graph seen as a relation between blocks: one node for each id and one arc for each connected
pair. Parallel edges become one arc, which lists their kinds in order. An edge with an end that is
no block has no part in the relation.
-/

namespace FlowChart

/-- Nodes, and arcs with the kinds of their edges. -/
structure Adjacency where
  /-- The block of each id. -/
  nodes : Table String Block
  /-- The kinds of the edges of each connected pair. -/
  arcs : Table (String × String) (List EdgeKind)

namespace Adjacency

/-- The arcs with the kind of one more edge. -/
def addEdge (arcs : Table (String × String) (List EdgeKind)) (e : Edge) :
    Table (String × String) (List EdgeKind) :=
  let pair := (e.source, e.target)
  arcs.insert pair ((arcs.get? pair).getD [] ++ [e.kind])

end Adjacency

namespace Graph

/-- The relation between the blocks of a graph. -/
def adjacency (g : Graph) : Adjacency where
  nodes := .ofList (g.blocks.map fun b ↦ (b.id, b))
  arcs := (g.edges.filter g.hasEnds).foldl Adjacency.addEdge .empty

end Graph

end FlowChart
