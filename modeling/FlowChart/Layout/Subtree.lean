import FlowChart.Layout.Ownership
import FlowChart.Number.Checked

/-!
# Subtree widths

The width of a block's subtree is its own width or, if that is more, the widths of the subtrees
that it owns with gaps between them. Owned blocks lie deeper, so going through the levels from the
bottom up meets every block after those that it owns.
-/

namespace FlowChart.Graph

variable {α : Type} [Scalar α]

/-- The width of some subtrees side by side. -/
def sideBySide (gap : α) (widths : List α) : α :=
  Scalar.sum widths + gap * (((widths.length : Int) - 1 : Int) : α)

/-- The width of the subtree of a child: the one found already, or else the child's own. -/
def childWidth (widths found : Table String α) (child : String) : Except Fault α := do
  let own ← widths.fetch child
  return (found.get? child).getD own

/-- The subtree widths with that of one more block. -/
def addSubtree (g : Graph) (owners : Table String String) (widths : Table String α) (gap : α)
    (found : Table String α) (id : String) : Except Fault (Table String α) := do
  let own ← widths.fetch id
  let children := g.ownedBy owners id
  if children.isEmpty then
    return found.insert id own
  else do
    let childWidths ← children.mapM (childWidth widths found)
    return found.insert id (Scalar.larger own (sideBySide gap childWidths))

/-- The ids of the blocks from the deepest level up. -/
def fromBottom (g : Graph) (levels : Table String Int) : List String :=
  let levelOf := fun id ↦ (levels.get? id).getD 0
  sortBy (fun a b ↦ levelOf b ≤ levelOf a) g.ids

/-- The width of the subtree of each block. -/
def subtreeWidths (g : Graph) (levels : Table String Int) (owners : Table String String)
    (widths : Table String α) (gap : α) : Except Fault (Table String α) :=
  (g.fromBottom levels).foldlM (g.addSubtree owners widths gap) .empty

end FlowChart.Graph
