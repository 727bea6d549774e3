import FlowChart.Text.Blank
import FlowChart.Text.Digit
import FlowChart.Text.Hex

/-!
# Reading numbers

The grammar of decimal numbers in text is shared by the JSON reader, which allows nothing around
the number, and by free-standing texts, which may be surrounded by blanks, use digits of any
script, group digits with underscores and name the infinities.
-/

namespace FlowChart

/-- The binary number nearest to `± digits * 10 ^ exponent`. Exponents far beyond the range give
infinity or zero without computing the power. -/
def floatOfDecimal (negative : Bool) (digits : Nat) (exponent : Int) : Float :=
  let size := (Nat.toDigits 10 digits).length
  let unsigned :=
    if digits = 0 then 0.0
    else if 400 < exponent + size then 1.0 / 0.0
    else if exponent + size < -400 then 0.0
    else Float.ofScientific digits (exponent < 0) exponent.natAbs
  if negative then -unsigned else unsigned

namespace Text

/-- A number's text, taken apart: the digits before and after the point, and the exponent. -/
structure DecimalParts where
  /-- The digits before the point. -/
  whole : List Char
  /-- The digits after the point. -/
  fraction : List Char
  /-- The power of ten that the number is multiplied by. -/
  exponent : Int

namespace DecimalParts

/-- The nearest binary number. -/
def toFloat (parts : DecimalParts) (negative : Bool) : Float :=
  floatOfDecimal negative (ofDecimalDigits (parts.whole ++ parts.fraction))
    (parts.exponent - parts.fraction.length)

end DecimalParts

/-- A leading sign and the rest. -/
def splitSign : List Char → Bool × List Char
  | '-' :: rest => (true, rest)
  | '+' :: rest => (false, rest)
  | cs => (false, cs)

/-- An exponent mark with at least one digit after an optional sign, and the rest. -/
def splitExponent? : List Char → Option (Int × List Char)
  | [] => none
  | mark :: cs =>
    if mark == 'e' || mark == 'E' then
      let (negative, rest) := splitSign cs
      let digits := rest.takeWhile isDecimalDigit
      if digits.isEmpty then none
      else
        let size : Int := ofDecimalDigits digits
        some (if negative then -size else size, rest.dropWhile isDecimalDigit)
    else none

/-- Whether underscores stand only between two digits. -/
def underscoresBetween (isDigit : Char → Bool) : List Char → Bool
  | [] => true
  | '_' :: _ => false
  | c :: '_' :: d :: rest => isDigit c && isDigit d && underscoresBetween isDigit (d :: rest)
  | [_, '_'] => false
  | _ :: rest => underscoresBetween isDigit rest

/-- A number with optional point and exponent and nothing after it. At least one digit stands
before or after the point. -/
def unsignedParts? (cs : List Char) : Option DecimalParts :=
  let whole := cs.takeWhile isDecimalDigit
  let rest := cs.dropWhile isDecimalDigit
  let (fraction, rest) := match rest with
    | '.' :: after => (after.takeWhile isDecimalDigit, after.dropWhile isDecimalDigit)
    | _ => ([], rest)
  if whole.isEmpty && fraction.isEmpty then none
  else match rest with
    | [] => some ⟨whole, fraction, 0⟩
    | _ => match splitExponent? rest with
      | some (exponent, []) => some ⟨whole, fraction, exponent⟩
      | _ => none

/-- Whether a text is `word` up to the case of its letters. -/
def isWord (word : String) (cs : List Char) : Bool := cs.map Char.toLower == word.toList

/-- The binary number that a free-standing text denotes. -/
def toFloat? (text : String) : Option Float :=
  let cs := trimBy isBlankBesideDigits (withAsciiDigits text.toList)
  if underscoresBetween isDecimalDigit cs then
    let (negative, body) := splitSign (cs.filter (· != '_'))
    if isWord "inf" body || isWord "infinity" body then
      some (if negative then -(1.0 / 0.0) else 1.0 / 0.0)
    else if isWord "nan" body then some (0.0 / 0.0)
    else (unsignedParts? body).map (·.toFloat negative)
  else none

/-- The whole number that a free-standing hexadecimal text denotes. It may have a sign and a `0x`
in front of its digits. -/
def toHexInt? (text : List Char) : Option Int :=
  let (negative, body) := splitSign (trimBy isBlankBesideDigits (withAsciiDigits text))
  let body := match body with
    | '0' :: 'x' :: rest | '0' :: 'X' :: rest => match rest with
      | '_' :: digits => digits
      | _ => rest
    | _ => body
  let digits := body.filter (· != '_')
  if digits.isEmpty || !digits.all isHexDigit || !underscoresBetween isHexDigit body then none
  else
    let size : Int := ofHexDigits digits
    some (if negative then -size else size)

end Text

end FlowChart
