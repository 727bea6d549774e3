import FlowChart.Graph.Basic
import FlowChart.Instruction.Record

/-!
# Graphs as records

A graph written as the two sequences of records that it can be brought in from. Predecessors and
exits are left out, since they follow from the successors.
-/

namespace FlowChart

/-- The record of a block. -/
def Block.toRecord (b : Block) : Json := .object [
  ("id", .text b.id),
  ("instructions", .array (b.instructions.map Instruction.toRecord)),
  ("startAddress", .text b.start),
  ("endAddress", .text b.stop),
  ("successors", .array (b.successors.map .text)),
  ("isEntry", .bool b.isEntry)]

/-- The record of an edge. -/
def Edge.toRecord (e : Edge) : Json := .object [
  ("from", .text e.source), ("to", .text e.target), ("type", .text e.kind.toText)]

namespace Graph

/-- The records of the blocks. -/
def blockRecords (g : Graph) : Json := .array (g.blocks.map Block.toRecord)

/-- The records of the edges. -/
def edgeRecords (g : Graph) : Json := .array (g.edges.map Edge.toRecord)

end Graph

end FlowChart
