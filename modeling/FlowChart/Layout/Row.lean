import FlowChart.Layout.Level
import FlowChart.Number.Checked
import FlowChart.Sorting.Runs

/-!
# Arranging rows

What happens to the left sides of blocks after the ownership tree is placed: blocks that the tree
does not hold go to the right end of their rows, neighbours that are too close are pushed apart,
and every row is centred on the whole chart. The tops of rows follow from the heights in them.
-/

namespace FlowChart.Row

variable {α : Type} [Scalar α]

/-- The right side of a placed block. -/
def rightOf (xs widths : Table String α) (id : String) : Except Fault α := do
  let x ← xs.fetch id
  let width ← widths.fetch id
  return x + width

/-- The right end of what is placed on a level; zero if nothing is. -/
def rightEnd (levels : Table String Int) (widths xs : Table String α) (level : Int) :
    Except Fault α := do
  let onLevel := xs.keys.filter fun id ↦ levels.get? id == some level
  match ← onLevel.mapM (rightOf xs widths) with
  | [] => return ((0 : Nat) : α)
  | right :: others => return Scalar.largest right others

/-- Place a block at the right end of its row, unless it has a place. -/
def placeLeftover (levels : Table String Int) (widths : Table String α) (gap : α)
    (s : List String × Table String α) (id : String) :
    Except Fault (List String × Table String α) :=
  if s.2.contains id then .ok s
  else do
    let right ← rightEnd levels widths s.2 ((levels.get? id).getD 0)
    return (s.1 ++ [id], s.2.insert id (right + gap))

/-- Place the blocks that have no place yet, in order. The ids placed this way come first. -/
def placeLeftovers (ids : List String) (xs : Table String α) (levels : Table String Int)
    (widths : Table String α) (gap : α) : Except Fault (List String × Table String α) :=
  ids.foldlM (placeLeftover levels widths gap) ([], xs)

/-- The placed blocks among some ids, from left to right. A left side may be undefined. -/
def fromLeft (xs : Table String α) (ids : List String) : List String :=
  let placed := ids.filterMap fun id ↦ (xs.get? id).map (id, ·)
  (sortByRuns (fun a b ↦ decide (a.2 < b.2)) placed).map (·.1)

/-- Push a block to the right, if it is closer than a gap to its left neighbour. -/
def push (widths : Table String α) (gap : α) (xs : Table String α) (left right : String) :
    Except Fault (Table String α) := do
  let least := (← rightOf xs widths left) + gap
  let x ← xs.fetch right
  return if x < least then xs.insert right least else xs

/-- Push the blocks of a row apart, given from left to right. -/
def separateRow (widths : Table String α) (gap : α) (xs : Table String α) (row : List String) :
    Except Fault (Table String α) :=
  (row.zip row.tail).foldlM (fun xs (left, right) ↦ push widths gap xs left right) xs

/-- Push the blocks of every row apart. -/
def separate (rows : Rows) (xs widths : Table String α) (gap : α) :
    Except Fault (Table String α) :=
  rows.values.foldlM (fun xs ids ↦ separateRow widths gap xs (fromLeft xs ids)) xs

/-- The middle between the left and the right end of some placed blocks. -/
def middle (xs widths : Table String α) (ids : List String) : Except Fault α := do
  let left ← Scalar.smallestOf (← ids.mapM xs.fetch)
  let right ← Scalar.largestOf (← ids.mapM (rightOf xs widths))
  return Scalar.half (left + right)

/-- Move a block that is placed. -/
def moveBy (offset : α) (xs : Table String α) (id : String) : Table String α :=
  match xs.get? id with
  | none => xs
  | some x => xs.insert id (x + offset)

/-- Move a row so that its middle is at `center`. -/
def centerRow (widths : Table String α) (center : α) (xs : Table String α) (ids : List String) :
    Except Fault (Table String α) :=
  let present := ids.filter xs.contains
  if present.isEmpty then .ok xs
  else do
    let offset := center - (← middle xs widths present)
    return present.foldl (moveBy offset) xs

/-- Move every row so that its middle is that of the whole chart. -/
def centerRows (rows : Rows) (xs widths : Table String α) : Except Fault (Table String α) :=
  if xs.isEmpty then .ok xs
  else do
    let center ← middle xs widths xs.keys
    rows.values.foldlM (centerRow widths center) xs

/-- The tops of rows from the first one at `top` on. -/
def topsFrom (heights : Table String α) (gap : α) :
    α → List (Int × List String) → Except Fault (List (Int × α))
  | _, [] => .ok []
  | top, (level, ids) :: rest => do
    let height ← Scalar.largestOf (← ids.mapM heights.fetch)
    let tops ← topsFrom heights gap (top + (height + gap)) rest
    return (level, top) :: tops

/-- The top of each row: below the tallest block of the row above it, and a gap further. -/
def tops (rows : Rows) (heights : Table String α) (top gap : α) : Except Fault (Table Int α) := do
  return ⟨← topsFrom heights gap top rows.entries⟩

end FlowChart.Row
