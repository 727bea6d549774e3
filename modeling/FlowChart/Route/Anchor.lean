import FlowChart.Graph.Basic
import FlowChart.Number.Checked

/-!
# Anchors

Edges that share a block leave or enter it at anchors that lie side by side, symmetrically around
its middle and in edge order. Where the width of the block is known, the anchors move together so
far that all of them stay a margin inside it.
-/

namespace FlowChart.Anchor

variable {α : Type} [Scalar α]

open Scalar

/-- The distance between the `count` anchors of a block, where `count` is at least two. -/
def step (spacing margin : α) (width : Option α) (count : Nat) : Except Fault α :=
  match width with
  | none => .ok spacing
  | some width => do
    let room := larger (width - ((2 : Nat) : α) * margin) ((0 : Nat) : α)
    return smaller spacing (← share room (count - 1))

/-- The offset of the anchor at a position among the `count` anchors of a block. -/
def offset (spacing margin : α) (width : Option α) (count position : Nat) : Except Fault α :=
  if count < 2 then .ok ((0 : Nat) : α)
  else do
    let step ← step spacing margin width count
    return ((position : α) - half ((count - 1 : Nat) : α)) * step

/-- The offsets of the anchors of edges that end at the given blocks, in edge order. -/
def offsets (ends : List String) (spacing margin : α) (widths : Option (Table String α)) :
    Except Fault (List α) :=
  ends.zipIdx.mapM fun (id, i) ↦
    offset spacing margin (widths.bind (·.get? id)) (ends.count id) ((ends.take i).count id)

/-- The offsets where edges leave their sources and where they enter their targets. -/
def ofEdges (edges : List Edge) (spacing : α) (widths : Option (Table String α)) (margin : α) :
    Except Fault (List α × List α) := do
  let sources ← offsets (edges.map (·.source)) spacing margin widths
  let targets ← offsets (edges.map (·.target)) spacing margin widths
  return (sources, targets)

/-- The distance between anchors can always be found for two of them or more. -/
theorem exists_step_eq_ok (spacing margin : α) (width : Option α) {count : Nat}
    (h : 2 ≤ count) : ∃ d, step spacing margin width count = .ok d := by
  cases width with
  | none => exact ⟨spacing, rfl⟩
  | some width =>
    have some_shared : count - 1 ≠ 0 := by omega
    simp [step, share_of_ne_zero _ some_shared, bind, Except.bind, pure, Except.pure]

end FlowChart.Anchor
