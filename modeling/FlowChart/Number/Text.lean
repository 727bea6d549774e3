import FlowChart.Number.Decimal

/-!
# Texts of numbers

Two texts of a binary floating point number. The *full* text has the fewest digits that read back
and always shows that the number is not a whole-number value: it has a point or an exponent. The
*brief* text writes a whole number exactly and rounds any other to six digits.
-/

namespace FlowChart

/-- Full texts are positional from `0.0001` up to below `10 ^ 16`, and whole numbers end in
`.0`. -/
def fullFormat : DecimalFormat := ⟨-4, 15, ['.', '0']⟩

/-- Brief texts are positional from `0.0001` up to below `10 ^ 6`. -/
def briefFormat : DecimalFormat := ⟨-4, 5, []⟩

/-- How many digits a brief text keeps. -/
def briefDigits : Nat := 6

namespace Binary

/-- A text with a minus sign in front of a negative number. -/
def signed (negative : Bool) (cs : List Char) : List Char :=
  if negative then '-' :: cs else cs

/-- The text with the fewest digits that read back. -/
def fullChars : Binary → List Char
  | .undefined => ['n', 'a', 'n']
  | .infinite negative => signed negative ['i', 'n', 'f']
  | .finite negative significand exponent =>
    signed negative <|
      if significand = 0 then '0' :: fullFormat.whole
      else fullFormat.write (Decimal.shortest significand exponent)

/-- The text that keeps six digits of a number with a fraction, and all of a whole one. -/
def briefChars (x : Binary) : List Char :=
  match x.toInt? with
  | some n => (toString n).toList
  | none =>
    match x with
    | .undefined => ['n', 'a', 'n']
    | .infinite negative => signed negative ['i', 'n', 'f']
    | .finite negative significand exponent =>
      signed negative (briefFormat.write (Decimal.rounded briefDigits significand exponent))

end Binary

/-- The text of a number with the fewest digits that read back. -/
def fullText (x : Float) : String := String.ofList (Binary.ofFloat x).fullChars

/-- The text of a coordinate in path data. -/
def briefText (x : Float) : String := String.ofList (Binary.ofFloat x).briefChars

end FlowChart
