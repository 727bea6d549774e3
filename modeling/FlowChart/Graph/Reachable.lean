import FlowChart.Graph.Basic
import FlowChart.Search

/-!
# Restriction to reachable blocks

Restricting a graph to a set of ids keeps the blocks in the set, shortens their successor and
predecessor lists to it, and keeps the edges with both ends in it. Pruning restricts a graph to
what can be reached from its entry along the successor lists.
-/

namespace FlowChart

namespace Block

/-- A block within a set of ids. It is an exit exactly when no successor is left. -/
def restrict (keep : String → Bool) (b : Block) : Block :=
  let successors := b.successors.filter keep
  { b with
    successors := successors
    predecessors := b.predecessors.filter keep
    isExit := successors.isEmpty }

end Block

namespace Graph

/-- The part of a graph within a set of ids. -/
def restrict (g : Graph) (keep : String → Bool) : Graph where
  blocks := (g.blocks.filter fun b ↦ keep b.id).map (·.restrict keep)
  edges := g.edges.filter fun e ↦ keep e.source && keep e.target

/-- The ids that can be reached from a block along successor lists, its own included. -/
def reachableFrom (g : Graph) (id : String) : List String :=
  Search.reached g.successorsOf g.blocks.length id

end Graph

/-- What is left of a graph after pruning. -/
structure Pruned where
  /-- The reachable part. -/
  graph : Graph
  /-- The id of the entry, if there is one. -/
  entry : Option String
  /-- The ids of the blocks that were dropped, in block order. -/
  removed : List String

namespace Graph

/-- The part of a graph that can be reached from its entry. Without an entry nothing can. -/
def prune (g : Graph) : Pruned :=
  match g.entry? with
  | none => ⟨.empty, none, g.ids⟩
  | some entry =>
    let kept := g.reachableFrom entry.id
    ⟨g.restrict kept.contains, some entry.id, g.ids.filter fun id ↦ !kept.contains id⟩

/-- The ids of a restricted graph are those in the set. -/
theorem ids_restrict (g : Graph) (keep : String → Bool) :
    (g.restrict keep).ids = g.ids.filter keep := by
  simp [restrict, ids, List.map_map, List.filter_map, Function.comp_def, Block.restrict]

end Graph

end FlowChart
