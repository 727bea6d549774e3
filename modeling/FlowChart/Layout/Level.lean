import FlowChart.Graph.Basic
import FlowChart.Search
import FlowChart.Sorting

/-!
# Levels

A level is a row of the chart, the entry's being level zero. Blocks get their levels in address
order. A block goes one level below the deepest of its predecessors with a lower address; without
such a predecessor its distance from the entry decides. A jump back to the head of a loop comes
from a higher address, so it never pulls the head below the loop.
-/

namespace FlowChart

namespace Graph

/-- Whether a block does not come after another one in address order. -/
def addressLe (a b : Block) : Bool :=
  a.sortAddress < b.sortAddress || (a.sortAddress == b.sortAddress && a.index ≤ b.index)

/-- The blocks in address order. -/
def inAddressOrder (g : Graph) : List Block := sortBy addressLe g.blocks

/-- The position of each block in address order. -/
def ranks (g : Graph) : Table String Nat :=
  .ofList (g.inAddressOrder.zipIdx.map fun (b, rank) ↦ (b.id, rank))

/-- How many edges lead from a block to each block that they reach. -/
def edgeDistances (g : Graph) (id : String) : Table String Nat :=
  ⟨Search.distances g.targetsOf g.blocks.length id⟩

end Graph

/-- The levels of the blocks of a graph, with what they were found from. -/
structure Leveling where
  /-- The level of each block. -/
  levels : Table String Int
  /-- The position of each block in address order. -/
  ranks : Table String Nat
  /-- The distance of each block from the entry, where there is one. -/
  distances : Table String Nat

/-- Ids in rows from top to bottom. -/
abbrev Rows := Table Int (List String)

namespace Leveling

/-- The position of a block in address order. Every block has one. -/
def rankOf (ranks : Table String Nat) (id : String) : Nat := (ranks.get? id).getD 0

/-- The levels of the predecessors of a block that come before it in address order and have a
level already. -/
def forwardLevels (ranks : Table String Nat) (levels : Table String Int) (b : Block) : List Int :=
  let own := rankOf ranks b.id
  b.predecessors.filterMap fun p ↦
    (levels.get? p).bind fun level ↦
      if (ranks.get? p).getD own < own then some level else none

/-- The level of a block, given the levels of the blocks before it. -/
def levelOf (ranks distances : Table String Nat) (levels : Table String Int) (b : Block) : Int :=
  match forwardLevels ranks levels b with
  | [] => (distances.get? b.id).getD 1
  | level :: others => others.foldl max level + 1

/-- The levels with that of one more block. The entry keeps its own. -/
def assignNext (ranks distances : Table String Nat) (entry : String)
    (levels : Table String Int) (b : Block) : Table String Int :=
  if b.id = entry then levels else levels.insert b.id (levelOf ranks distances levels b)

/-- The levels of the blocks of a graph that is entered at a block. -/
def assign (g : Graph) (entry : String) : Except Fault Leveling :=
  if g.contains entry then
    let ranks := g.ranks
    let distances := g.edgeDistances entry
    let order := sortBy (fun a b ↦ rankOf ranks a.id ≤ rankOf ranks b.id) g.blocks
    let levels := order.foldl (assignNext ranks distances entry) (.ofList [(entry, 0)])
    .ok ⟨levels, ranks, distances⟩
  else .error (.unknownStart entry)

/-- The number of levels down to the deepest one. -/
def levelCount (l : Leveling) : Int :=
  match l.levels.values with
  | [] => 0
  | level :: others => others.foldl max level + 1

/-- The ids of each level in address order, from the top level down. -/
def rows (l : Leveling) : Rows :=
  let ids := sortBy (fun a b ↦ rankOf l.ranks a ≤ rankOf l.ranks b) l.levels.keys
  let levels := sortBy (fun a b ↦ decide (a ≤ b)) l.levels.values.eraseDups
  ⟨levels.map fun level ↦ (level, ids.filter fun id ↦ l.levels.get? id == some level)⟩

end Leveling

end FlowChart
