import FlowChart.Layout.Subtree

/-!
# Placing the ownership tree

From the entry down, every block is centred, and the blocks that it owns share a strip centred
below it, each with a slice as wide as its subtree. The walk keeps a stack of blocks with the
centres that they are to have; a block is placed the first time that it leaves the stack.
-/

namespace FlowChart

/-- The state of the walk that places the ownership tree. -/
structure TreeWalk (α : Type) where
  /-- The left side of each placed block. -/
  xs : Table String α
  /-- The blocks still to be placed with their centres, the next one first. -/
  stack : List (String × α)

namespace TreeWalk

variable {α : Type} [Scalar α]

/-- The centres of slices that lie side by side from `x` on. -/
def slices (gap : α) : α → List (String × α) → List (String × α)
  | _, [] => []
  | x, (id, width) :: rest => (id, x + Scalar.half width) :: slices gap (x + (width + gap)) rest

/-- Place a block that has left the stack, and put the blocks that it owns on the stack. -/
def place (g : Graph) (owners : Table String String) (widths subtree : Table String α) (gap : α)
    (s : TreeWalk α) (id : String) (center : α) : Except Fault (TreeWalk α) :=
  if s.xs.contains id then .ok s
  else do
    let width ← widths.fetch id
    let xs := s.xs.insert id (center - Scalar.half width)
    let children := g.childrenOf owners id
    if children.isEmpty then
      return { s with xs := xs }
    else do
      let childWidths ← children.mapM subtree.fetch
      let left := center - Scalar.half (Graph.sideBySide gap childWidths)
      return ⟨xs, (slices gap left (children.zip childWidths)).reverse ++ s.stack⟩

/-- Work the stack off, at most `bound` entries of it. -/
def run (g : Graph) (owners : Table String String) (widths subtree : Table String α) (gap : α) :
    Nat → TreeWalk α → Except Fault (TreeWalk α)
  | 0, s => .ok s
  | bound + 1, s =>
    match s.stack with
    | [] => .ok s
    | (id, center) :: rest => do
      let s ← place g owners widths subtree gap { s with stack := rest } id center
      run g owners widths subtree gap bound s

/-- There is a centre for each slice. -/
theorem map_fst_slices (gap x : α) (children : List (String × α)) :
    (slices gap x children).map (·.1) = children.map (·.1) := by
  induction children generalizing x with
  | nil => rfl
  | cons child rest ih => simp [slices, ih]

end TreeWalk

namespace Graph

variable {α : Type} [Scalar α]

/-- The most entries that the stack of a walk ever takes: the entry, and the successors of every
block once. -/
def walkBound (g : Graph) : Nat := 1 + (g.blocks.flatMap (·.successors)).length

/-- The left sides of the entry and of the blocks that it owns, directly or through others. -/
def treeXs (g : Graph) (entry : String) (owners : Table String String)
    (widths subtree : Table String α) (gap margin : α) : Except Fault (Table String α) := do
  let width ← subtree.fetch entry
  let start : TreeWalk α := ⟨.empty, [(entry, Scalar.half width + margin)]⟩
  let done ← TreeWalk.run g owners widths subtree gap g.walkBound start
  return done.xs

end Graph

end FlowChart
