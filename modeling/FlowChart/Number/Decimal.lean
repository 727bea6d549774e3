import FlowChart.Number.Binary

/-!
# Decimal digits of binary numbers

Two choices of digits for a positive binary number: the fewest digits that read back as the same
number, and a fixed count of digits correctly rounded. Both are computed exactly over the whole
numbers. The layout of chosen digits as text, with or without an exponent, is a separate step.
-/

namespace FlowChart

/-- A positive number in scientific form: `d₀.d₁d₂… * 10 ^ exponent`, where `digits` is the whole
number `d₀d₁d₂…`. -/
structure Decimal where
  /-- The digits as one whole number. -/
  digits : Nat
  /-- How many digits there are. -/
  count : Nat
  /-- The exponent of the first digit. -/
  exponent : Int
  deriving Repr, DecidableEq

namespace Decimal

/-- The number of decimal digits of a whole number; one for zero. -/
def digitCount (n : Nat) : Nat := (Nat.toDigits 10 n).length

/-- A power of ten. -/
def powerOfTen (n : Nat) : Nat := Nat.pow 10 n

/-- The power of ten of the first digit of `num / den`, where `num` is positive and the first
digit is not more than `10 ^ 400` below the point. -/
def leadingExponent (num den : Nat) : Int :=
  (digitCount (num * powerOfTen 400 / den) : Int) - 401

/-- The fraction `num / den` divided by `10 ^ k`. -/
def shift (num den : Nat) (k : Int) : Nat × Nat :=
  if k < 0 then (num * powerOfTen k.natAbs, den) else (num, den * powerOfTen k.natAbs)

/-- A fraction rounded to the nearest whole number, a half to the even neighbour. -/
def roundHalfEven (num den : Nat) : Nat :=
  let low := num / den
  let twice := 2 * (num % den)
  if den < twice || (twice == den && low % 2 == 1) then low + 1 else low

/-- The decimal without the zeros that end it. -/
def trimmed (digits count : Nat) (exponent : Int) : Nat → Decimal
  | 0 => ⟨digits, count, exponent⟩
  | fuel + 1 =>
    if 1 < count && digits % 10 == 0 then trimmed (digits / 10) (count - 1) exponent fuel
    else ⟨digits, count, exponent⟩

/-- The decimal of `n * 10 ^ k` for a positive `n`, without the zeros that end it. -/
def ofScaled (n : Nat) (k : Int) : Decimal :=
  let count := digitCount n
  trimmed n count (k + count - 1) count

/-- Whether `n * 10 ^ k` lies in the interval of numbers that round to
`significand * 2 ^ exponent`. The ends belong to it exactly when the significand is even; below a
power of two the interval is narrower. -/
def readsBack (significand : Nat) (exponent : Int) (n : Nat) (k : Int) : Bool :=
  let below := if significand = Binary.leadingBit && -1074 < exponent then 1 else 2
  let (low, den) := Binary.ratio (4 * significand - below) (exponent - 2)
  let (high, _) := Binary.ratio (4 * significand + 2) (exponent - 2)
  let (point, unit) := if k < 0 then (n, powerOfTen k.natAbs) else (n * powerOfTen k.natAbs, 1)
  if significand % 2 = 0 then low * unit ≤ point * den && point * den ≤ high * unit
  else low * unit < point * den && point * den < high * unit

/-- The nearest of the two neighbours on the grid of multiples of `10 ^ k` that reads back. -/
def onGrid? (significand : Nat) (exponent : Int) (k : Int) : Option Nat :=
  let (num, den) := Binary.ratio significand exponent
  let (a, b) := shift num den k
  let low := a / b
  let nearest := roundHalfEven a b
  let other := if nearest = low then low + 1 else low
  if readsBack significand exponent nearest k then some nearest
  else if readsBack significand exponent other k then some other
  else none

/-- The first grid that holds a number reading back, from coarse to fine. -/
def search (significand : Nat) (exponent : Int) (k : Int) : Nat → Decimal
  | 0 => ofScaled significand 0
  | fuel + 1 =>
    match onGrid? significand exponent k with
    | some n => ofScaled n k
    | none => search significand exponent (k - 1) fuel

/-- The fewest digits that read back as `significand * 2 ^ exponent`, for a positive
significand. -/
def shortest (significand : Nat) (exponent : Int) : Decimal :=
  let (num, den) := Binary.ratio significand exponent
  search significand exponent (leadingExponent num den) 20

/-- The first `count` digits of `significand * 2 ^ exponent`, correctly rounded, for a positive
significand. The zeros that end them are dropped. -/
def rounded (count : Nat) (significand : Nat) (exponent : Int) : Decimal :=
  let value := Binary.ratio significand exponent
  let k := leadingExponent value.1 value.2 - ((count : Int) - 1)
  let scaled := shift value.1 value.2 k
  ofScaled (roundHalfEven scaled.1 scaled.2) k

/-- An exponent with its sign and at least two digits. -/
def exponentText (e : Int) : List Char :=
  let digits := Nat.toDigits 10 e.natAbs
  (if e < 0 then '-' else '+') :: (List.replicate (2 - digits.length) '0' ++ digits)

/-- The digits written with a point and no exponent. `whole` is what stands after the digits of a
number without fraction. -/
def positional (d : Decimal) (whole : List Char) : List Char :=
  let digits := Nat.toDigits 10 d.digits
  if d.exponent < 0 then
    '0' :: '.' :: (List.replicate (d.exponent.natAbs - 1) '0' ++ digits)
  else
    let before := d.exponent.toNat + 1
    if d.count ≤ before then digits ++ List.replicate (before - d.count) '0' ++ whole
    else digits.take before ++ '.' :: digits.drop before

/-- The digits written with a point after the first and an exponent. -/
def scientific (d : Decimal) : List Char :=
  let digits := Nat.toDigits 10 d.digits
  let mantissa := if d.count ≤ 1 then digits else digits.take 1 ++ '.' :: digits.drop 1
  mantissa ++ 'e' :: exponentText d.exponent

end Decimal

/-- How the chosen digits of a number are laid out. -/
structure DecimalFormat where
  /-- The least exponent of the first digit that is written without exponent. -/
  least : Int
  /-- The greatest exponent of the first digit that is written without exponent. -/
  greatest : Int
  /-- What stands after the digits of a number without fraction. -/
  whole : List Char

namespace DecimalFormat

/-- The text of the digits in a format. -/
def write (format : DecimalFormat) (d : Decimal) : List Char :=
  if format.least ≤ d.exponent && d.exponent ≤ format.greatest then d.positional format.whole
  else d.scientific

end DecimalFormat

end FlowChart
