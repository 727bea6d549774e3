/-!
# Binary floating point numbers, taken apart

A finite number is a sign, a whole significand and a power of two. All exact texts of numbers
are computed from this form.
-/

namespace FlowChart

/-- A binary floating point number, taken apart. -/
inductive Binary where
  /-- Not a number. -/
  | undefined
  /-- Beyond every number, on one side. -/
  | infinite (negative : Bool)
  /-- The number `± significand * 2 ^ exponent`. -/
  | finite (negative : Bool) (significand : Nat) (exponent : Int)
  deriving Repr, DecidableEq

namespace Binary

/-- The bit in front of the fraction, which every number has that is not too small for it. -/
def leadingBit : Nat := 1 <<< 52

/-- The number that 64 bits stand for: one of sign, eleven of biased exponent and 52 of fraction. -/
def ofBits (bits : Nat) : Binary :=
  let negative : Bool := bits.testBit 63
  let biased : Nat := bits / leadingBit % 2048
  let fraction : Nat := bits % leadingBit
  if biased = 2047 then
    if fraction = 0 then .infinite negative else .undefined
  else if biased = 0 then .finite negative fraction (-1074)
  else .finite negative (leadingBit + fraction) ((biased : Int) - 1075)

/-- The form of a binary floating point number. -/
def ofFloat (x : Float) : Binary := ofBits x.toBits.toNat

/-- The number as a fraction of whole numbers, sign apart. -/
def ratio (significand : Nat) (exponent : Int) : Nat × Nat :=
  if exponent < 0 then (significand, 1 <<< exponent.natAbs)
  else (significand <<< exponent.natAbs, 1)

/-- The whole number that a form stands for, if it stands for one. Zero has no sign. -/
def toInt? : Binary → Option Int
  | .finite negative significand exponent =>
    let (num, den) := ratio significand exponent
    if num % den = 0 then
      some (if negative then -((num / den : Nat) : Int) else ((num / den : Nat) : Int))
    else none
  | _ => none

end Binary

end FlowChart
