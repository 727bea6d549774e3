import FlowChart.Text.Blank
import FlowChart.Text.Hex

/-!
# Addresses

An address is a number, written in hexadecimal with or without a `0x` in front and with any
leading zeros. Operand texts hold addresses as literals, which always start with `0x`; the first
literal of an operand text is taken for the target of a jump.
-/

namespace FlowChart.Address

open Text

/-- The text after a leading `0x` or `0X`. -/
def dropMark : List Char → List Char
  | '0' :: 'x' :: rest => rest
  | '0' :: 'X' :: rest => rest
  | cs => cs

/-- The number that a text without surrounding blanks denotes. -/
def ofTrimmed? (cs : List Char) : Option Nat :=
  let digits := dropMark cs
  if digits.isEmpty || !digits.all isHexDigit then none else some (ofHexDigits digits)

/-- The address that a text denotes. Surrounding blanks do not matter. -/
def ofChars? (cs : List Char) : Option Nat := ofTrimmed? (trim cs)

/-- The address that a text denotes. -/
def ofText? (text : String) : Option Nat := ofChars? text.toList

/-- The one form of an address: `0x`, then lower-case digits without leading zeros. -/
def toText (address : Nat) : String := String.ofList (hexLiteral address)

/-- The one form of the address that a text denotes. -/
def normalize? (text : String) : Option String := (ofText? text).map toText

/-- The number of the literal that a text starts with. All digits that follow the `0x` belong to
it. -/
def literal? : List Char → Option Nat
  | '0' :: 'x' :: rest =>
    let digits := rest.takeWhile isHexDigit
    if digits.isEmpty then none else some (ofHexDigits digits)
  | _ => none

/-- The number of the first literal of a text. -/
def firstLiteral? : List Char → Option Nat
  | [] => none
  | c :: rest =>
    match literal? (c :: rest) with
    | some address => some address
    | none => firstLiteral? rest

/-- The address that an operand text is taken to jump to. -/
def jumpTarget? (operands : String) : Option Nat := firstLiteral? operands.toList

/-- A text that starts with a literal has it as its first literal. -/
theorem firstLiteral?_of_literal? {cs : List Char} {address : Nat}
    (h : literal? cs = some address) : firstLiteral? cs = some address := by
  cases cs with
  | nil => simp [literal?] at h
  | cons c rest => simp [firstLiteral?, h]

end FlowChart.Address
