import FlowChart.Layout.Box

/-!
# Collisions

Tests whether axis-parallel segments pass through boxes, and searches for the boxes that an edge
may have to avoid. A box grown by a margin counts as hit only in its inside.
-/

namespace FlowChart.Box

variable {α : Type} [Scalar α]

open Scalar

/-- Whether the segment from `x₁` to `x₂` at height `y` passes through a box grown by `margin`. -/
def hitHorizontally (b : Box α) (margin y x₁ x₂ : α) : Bool :=
  let low := smaller x₁ x₂
  let high := larger x₁ x₂
  b.y - margin < y && y < b.bottom + margin && b.x - margin < high && low < b.right + margin

/-- Whether the segment from `y₁` to `y₂` at `x` passes through a box grown by `margin`. -/
def hitVertically (b : Box α) (margin x y₁ y₂ : α) : Bool :=
  let low := smaller y₁ y₂
  let high := larger y₁ y₂
  b.x - margin < x && x < b.right + margin && b.y - margin < high && low < b.bottom + margin

/-- The boxes other than the two ends that meet the rectangle around both ends, grown by
`margin`. -/
def between (source target : Box α) (boxes : List (Box α)) (margin : α) : List (Box α) :=
  let left := smaller source.x target.x - margin
  let right := larger source.right target.right + margin
  let top := smaller source.y target.y - margin
  let bottom := larger source.bottom target.bottom + margin
  boxes.filter fun b ↦
    !(b.id == source.id || b.id == target.id) &&
      !(b.right < left || right < b.x || b.bottom < top || bottom < b.y)

/-- The boxes that reach into the open band between two heights. -/
def inBand (boxes : List (Box α)) (y₁ y₂ : α) : List (Box α) :=
  let low := smaller y₁ y₂
  let high := larger y₁ y₂
  boxes.filter fun b ↦ b.y < high && low < b.bottom

end FlowChart.Box
