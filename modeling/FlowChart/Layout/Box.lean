import FlowChart.Number.Scalar

/-!
# Points and boxes

The geometry of a placed block: a rectangle with its top left corner and its level. Ordinates grow
downwards.
-/

namespace FlowChart

/-- A point of the plane. -/
structure Point (α : Type) where
  /-- The distance from the left. -/
  x : α
  /-- The distance from the top. -/
  y : α
  deriving Repr, DecidableEq

/-- A rectangle by its top left corner and its size. -/
structure Rect (α : Type) where
  /-- The left side. -/
  x : α
  /-- The top side. -/
  y : α
  /-- The width. -/
  width : α
  /-- The height. -/
  height : α
  deriving Repr, DecidableEq

/-- A placed block. -/
structure Box (α : Type) where
  /-- The id of the block. -/
  id : String
  /-- The left side. -/
  x : α
  /-- The top side. -/
  y : α
  /-- The width. -/
  width : α
  /-- The height. -/
  height : α
  /-- The level that the block is on. -/
  level : Int := 0
  deriving Repr, DecidableEq

namespace Box

variable {α : Type} [Scalar α]

/-- The right side. -/
def right (b : Box α) : α := b.x + b.width

/-- The bottom side. -/
def bottom (b : Box α) : α := b.y + b.height

/-- The middle between the left and the right side. -/
def centerX (b : Box α) : α := b.x + Scalar.half b.width

end Box

end FlowChart
