import FlowChart.Text.CodePoint
import FlowChart.Text.Hex
import FlowChart.Text.Printable

/-!
# Quoted text

A text between quotes, with every character that would not show as itself escaped. Single quotes
are used unless the text holds a single quote and no double quote.
-/

namespace FlowChart.Text

/-- A number as at least `width` hexadecimal digits. -/
def hexPadded (width n : Nat) : List Char :=
  let digits := hexDigits n
  List.replicate (width - digits.length) '0' ++ digits

/-- A character inside `quote` marks: the mark and the backslash are escaped, line breaks and tabs
have letters, and other characters that do not print are given by code point. -/
def quotedChar (quote c : Char) : List Char :=
  if c == quote || c == '\\' then ['\\', c]
  else if c == '\n' then ['\\', 'n']
  else if c == '\r' then ['\\', 'r']
  else if c == '\t' then ['\\', 't']
  else if isPrintable c then [c]
  else if c.toNat < 0x100 then '\\' :: 'x' :: hexPadded 2 c.toNat
  else if c.toNat < 0x10000 then '\\' :: 'u' :: hexPadded 4 c.toNat
  else '\\' :: 'U' :: hexPadded 8 c.toNat

/-- A code point inside `quote` marks. Half of a surrogate pair does not print. -/
def quotedPoint (quote : Char) (n : Nat) : List Char :=
  if isHalf n then '\\' :: 'u' :: hexPadded 4 n else quotedChar quote (Char.ofNat n)

/-- The mark that a text is quoted with. -/
def quoteMark (cs : List Char) : Char :=
  if cs.contains '\'' && !cs.contains '"' then '"' else '\''

/-- A text between quotes. -/
def quoted (text : String) : String :=
  let cs := text.toList
  let mark := quoteMark cs
  String.ofList (mark :: ((codePoints cs).flatMap (quotedPoint mark) ++ [mark]))

end FlowChart.Text
