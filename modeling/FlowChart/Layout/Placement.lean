import FlowChart.Layout.Box
import FlowChart.Layout.Config
import FlowChart.Layout.Row
import FlowChart.Layout.Tree

/-!
# Placement

Every block of a graph gets a box. The steps on the way are kept in a record: sizes, levels,
owners, subtree widths, and the left sides after each step of their arrangement.
-/

namespace FlowChart

/-- The boxes of the blocks, and their levels. -/
structure Placement (α : Type) where
  /-- The box of each block. -/
  boxes : Table String (Box α)
  /-- The level of each block. -/
  levels : Table String Int

/-- The steps of a placement. -/
structure PlacementSteps (α : Type) where
  /-- The width of each block. -/
  widths : Table String α
  /-- The height of each block. -/
  heights : Table String α
  /-- The levels, with address ranks and distances. -/
  leveling : Leveling
  /-- The ids in rows. -/
  rows : Rows
  /-- The owner of each block that has one. -/
  owners : Table String String
  /-- The subtree width of each block. -/
  subtree : Table String α
  /-- The left sides of the blocks of the ownership tree. -/
  treeXs : Table String α
  /-- The blocks that the tree does not hold. -/
  leftovers : List String
  /-- The left sides when the leftovers are placed too. -/
  filledXs : Table String α
  /-- The left sides when neighbours are pushed apart. -/
  separatedXs : Table String α
  /-- The left sides when rows are centred. -/
  xs : Table String α
  /-- The top of each row. -/
  ys : Table Int α

namespace Graph

variable {α : Type} [Scalar α]

/-- The width of each block. -/
def blockWidths (g : Graph) (config : Config α) : Table String α :=
  .ofList (g.blocks.map fun b ↦ (b.id, config.blockWidth))

/-- The height of each block. -/
def blockHeights (g : Graph) (config : Config α) : Table String α :=
  .ofList (g.blocks.map fun b ↦ (b.id, config.blockHeight b.instructions.length))

/-- The steps of placing a graph that is entered at `entry`, with the given widths. -/
def placementSteps (g : Graph) (config : Config α) (entry : String) (widths : Table String α) :
    Except Fault (PlacementSteps α) := do
  let heights := g.blockHeights config
  let leveling ← Leveling.assign g entry
  let rows := leveling.rows
  let owners := g.owners entry leveling.levels
  let subtree ← g.subtreeWidths leveling.levels owners widths config.hGap
  let treeXs ← g.treeXs entry owners widths subtree config.hGap config.leftMargin
  let (leftovers, filledXs) ←
    Row.placeLeftovers g.ids treeXs leveling.levels widths config.hGap
  let separatedXs ← Row.separate rows filledXs widths config.hGap
  let xs ← Row.centerRows rows separatedXs widths
  let ys ← Row.tops rows heights config.topMargin config.vGap
  return {
    widths, heights, leveling, rows, owners, subtree, treeXs, leftovers, filledXs, separatedXs,
    xs, ys }

/-- The box of a block after the steps of a placement. -/
def boxOf (steps : PlacementSteps α) (b : Block) : Except Fault (Box α) := do
  let level ← steps.leveling.levels.fetch b.id
  return {
    id := b.id
    x := ← steps.xs.fetch b.id
    y := ← steps.ys.fetch level
    width := ← steps.widths.fetch b.id
    height := ← steps.heights.fetch b.id
    level := level }

/-- The placement of a graph. Nothing is placed in a graph without entry. -/
def place (g : Graph) (config : Config α) : Except Fault (Placement α) :=
  match g.entry? with
  | none => .ok ⟨.empty, .empty⟩
  | some entry => do
    let steps ← g.placementSteps config entry.id (g.blockWidths config)
    let boxes ← g.blocks.mapM (boxOf steps)
    return ⟨.ofList (boxes.map fun b ↦ (b.id, b)), steps.leveling.levels⟩

end Graph

end FlowChart
