import FlowChart.Graph.Listing
import FlowChart.Graph.Reachable
import FlowChart.Warning

/-!
# Graphs with warnings

Splitting and pruning are pure; here they come with the warnings and rejections that callers are
told about.
-/

namespace FlowChart

/-- The warnings about addresses of a listing that denote no number. -/
def Listing.warnings (listing : List Instruction) : List Warning :=
  (unaddressed listing).map fun (position, text) ↦ .unparseableAddress position text

namespace Graph

/-- The graph of a listing, split for an instruction set. -/
def ofListing (architecture : Architecture) (registry : Registry) (listing : List Instruction) :
    Logged Graph :=
  match Listing.splitFor architecture registry listing with
  | .ok g => do
    Logged.warn (Listing.warnings listing)
    return g
  | .error name => .reject (.unknownArchitecture name)

/-- The warning about a graph that has blocks, but none that is entered. -/
def entryWarnings (g : Graph) : List Warning :=
  if g.entry?.isNone && !g.blocks.isEmpty then [.noEntryBlock g.blocks.length] else []

/-- The reachable part of a graph, with a warning if nothing is entered. -/
def pruneLogged (g : Graph) : Logged Pruned := do
  Logged.warn g.entryWarnings
  return g.prune

end Graph

end FlowChart
