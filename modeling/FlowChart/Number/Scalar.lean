/-!
# Scalars

Coordinates, sizes and zooms are scalars: numbers with arithmetic and a decidable order. All
geometry is written over an arbitrary scalar type, so that the same definition runs on binary
floating point and can be reasoned about over the rationals. Nothing here assumes a law of
arithmetic; the order of operations is part of each definition.
-/

namespace FlowChart

/-- Numbers that geometry is computed with. -/
class Scalar (α : Type) extends
    Add α, Sub α, Mul α, Div α, Neg α, LT α, LE α, NatCast α, IntCast α, OfScientific α where
  /-- The strict order is decidable. -/
  decLt : DecidableLT α
  /-- The order is decidable. -/
  decLe : DecidableLE α

attribute [reducible, instance] Scalar.decLt Scalar.decLe

/-- Binary floating point, rounded at every operation. -/
instance : Scalar Float where
  natCast := Float.ofNat
  intCast := Float.ofInt
  decLt := inferInstance
  decLe := inferInstance

/-- Exact rational arithmetic. -/
instance : Scalar Rat where
  decLt := inferInstance
  decLe := inferInstance

namespace Scalar

variable {α : Type} [Scalar α]

/-- Whether a number is zero, of either sign. -/
def isZero (x : α) : Bool := x ≤ ((0 : Nat) : α) && ((0 : Nat) : α) ≤ x

/-- The larger of two numbers; the first of two that do not differ. -/
def larger (x y : α) : α := if x < y then y else x

/-- The smaller of two numbers; the first of two that do not differ. -/
def smaller (x y : α) : α := if y < x then y else x

/-- The distance of a number from zero. -/
def magnitude (x : α) : α := if x < ((0 : Nat) : α) then -x else x

/-- Half of a number. -/
def half (x : α) : α := x / ((2 : Nat) : α)

/-- The sum of a list, added from the left starting at zero. -/
def sum (xs : List α) : α := xs.foldl (· + ·) ((0 : Nat) : α)

/-- The largest member of a non-empty list, the first of several. -/
def largest (x : α) (xs : List α) : α := xs.foldl larger x

/-- The smallest member of a non-empty list, the first of several. -/
def smallest (x : α) (xs : List α) : α := xs.foldl smaller x

/-- The larger of a number and itself is that number. -/
theorem larger_self (x : α) : larger x x = x := by simp [larger]

/-- The smaller of a number and itself is that number. -/
theorem smaller_self (x : α) : smaller x x = x := by simp [smaller]

end Scalar

end FlowChart
