import FlowChart.Graph.Basic
import FlowChart.Sorting

/-!
# Ownership

Where control merges, a block has several predecessors, but its width must be counted once. Every
block is owned by the first block that reaches it, in a breadth-first walk from the entry along
successors on strictly deeper levels. The walk keeps a queue; a block enters it only once.
-/

namespace FlowChart

/-- The state of the walk that finds owners. -/
structure OwnerWalk where
  /-- The owner of each block that has one. -/
  owners : Table String String
  /-- The blocks that have entered the queue. -/
  seen : List String
  /-- The blocks whose successors are still to be claimed, in order. -/
  queue : List String

namespace OwnerWalk

/-- Claim a successor for a block on a level, if it lies deeper. -/
def claim (levels : Table String Int) (owner : String) (level : Int) (s : OwnerWalk)
    (child : String) : OwnerWalk :=
  match levels.get? child with
  | none => s
  | some childLevel =>
    if childLevel ≤ level then s
    else
      let owners := s.owners.insertIfNew child owner
      if s.seen.contains child then { s with owners := owners }
      else ⟨owners, child :: s.seen, s.queue ++ [child]⟩

/-- Claim all successors of a block that has left the queue. -/
def visit (g : Graph) (levels : Table String Int) (s : OwnerWalk) (id : String) : OwnerWalk :=
  match g.block? id with
  | none => s
  | some b => b.successors.foldl (claim levels id ((levels.get? id).getD 0)) s

/-- Work the queue off, at most `bound` blocks of it. -/
def run (g : Graph) (levels : Table String Int) : Nat → OwnerWalk → OwnerWalk
  | 0, s => s
  | bound + 1, s =>
    match s.queue with
    | [] => s
    | id :: rest => run g levels bound (visit g levels { s with queue := rest } id)

end OwnerWalk

namespace Graph

/-- The owner of each block that has one. Besides the entry, only blocks with a level enter the
queue, which bounds the walk. -/
def owners (g : Graph) (entry : String) (levels : Table String Int) : Table String String :=
  (OwnerWalk.run g levels (levels.entries.length + 1) ⟨.empty, [entry], [entry]⟩).owners

/-- The successors that a block owns, in successor order. -/
def ownedBy (g : Graph) (owners : Table String String) (id : String) : List String :=
  match g.block? id with
  | none => []
  | some b => b.successors.filter fun s ↦ owners.get? s == some id

/-- Where a block stands among those that its owner owns: the taken branch of a condition first,
then the target of a jump, then all others. -/
def childRank (g : Graph) (owner child : String) : Nat :=
  match (g.edgeBetween? owner child).map Edge.kind with
  | some .conditionalTrue => 0
  | some .unconditional => 1
  | _ => 2

/-- The successors that a block owns, from left to right. -/
def childrenOf (g : Graph) (owners : Table String String) (id : String) : List String :=
  sortBy (fun a b ↦ g.childRank id a ≤ g.childRank id b) (g.ownedBy owners id)

/-- A block owns those of its successors whose owner it is. -/
theorem mem_ownedBy {g : Graph} {owners : Table String String} {id child : String} :
    child ∈ g.ownedBy owners id ↔
      ∃ b, g.block? id = some b ∧ child ∈ b.successors ∧ owners.get? child = some id := by
  unfold ownedBy
  split <;> simp_all

/-- Putting the owned blocks in order only moves them. -/
theorem mem_childrenOf {g : Graph} {owners : Table String String} {id child : String} :
    child ∈ g.childrenOf owners id ↔ child ∈ g.ownedBy owners id :=
  mem_sortBy

end Graph

end FlowChart
