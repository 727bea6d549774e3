import FlowChart.Json.Basic
import FlowChart.Number.Digits
import FlowChart.Number.Reading

/-!
# Reading JSON

A reader of JSON text that tells where and why it stopped. It also accepts the words `NaN`,
`Infinity` and `-Infinity` as numbers, and takes numbers beyond the binary range as infinite. Each
step takes the text that remains and returns what it read with the text that then remains; a defect
is placed by the text that remained there. Well-formed text may still be refused, if it writes a
whole number with too many digits or nests values too deep; that is a fault.
-/

namespace FlowChart.Json

/-- Why reading stopped. -/
inductive Defect where
  /-- No value starts here. -/
  | expectingValue
  /-- An element is followed neither by a comma nor by the end of its array or object. -/
  | expectingComma
  /-- A name is not followed by a colon. -/
  | expectingColon
  /-- A field does not start with a name. -/
  | expectingName
  /-- The text that starts here does not end. -/
  | unterminated
  /-- A control character stands inside a text. -/
  | controlCharacter
  /-- A backslash is followed by a character that it does not escape. -/
  | invalidEscape
  /-- An escaped code point does not have four digits. -/
  | invalidCodePoint
  /-- Something stands after the value. -/
  | extraData
  /-- The text starts with a byte order mark. -/
  | byteOrderMark
  deriving Repr, DecidableEq

/-- The wording of a defect. -/
def Defect.message : Defect → String
  | .expectingValue => "Expecting value"
  | .expectingComma => "Expecting ',' delimiter"
  | .expectingColon => "Expecting ':' delimiter"
  | .expectingName => "Expecting property name enclosed in double quotes"
  | .unterminated => "Unterminated string starting at"
  | .controlCharacter => "Invalid control character at"
  | .invalidEscape => "Invalid \\escape"
  | .invalidCodePoint => "Invalid \\uXXXX escape"
  | .extraData => "Extra data"
  | .byteOrderMark => "Unexpected UTF-8 BOM (decode using utf-8-sig)"

/-- A defect at a place of a text. -/
structure ReadError where
  /-- What is wrong. -/
  defect : Defect
  /-- The line of the place, counted from one. -/
  line : Nat
  /-- The column of the place in its line, counted from one. -/
  column : Nat
  /-- How many characters stand before the place. -/
  offset : Nat
  deriving Repr, DecidableEq

/-- The wording of a defect with its place. -/
def ReadError.message (e : ReadError) : String :=
  e.defect.message ++ ": line " ++ toString e.line ++ " column " ++ toString e.column ++
    " (char " ++ toString e.offset ++ ")"

/-- How reading ends without a value. -/
inductive ReadFailure where
  /-- The text is not JSON. -/
  | malformed (error : ReadError)
  /-- The text is not accepted, though it may be JSON. -/
  | broken (fault : Fault)
  deriving Repr, DecidableEq

/-- Where and why the reader stopped. -/
inductive Stop where
  /-- A defect, and the text that remained where it was found. -/
  | malformed (defect : Defect) (rest : List Char)
  /-- A fault. -/
  | broken (fault : Fault)

/-- A defect with its place, given the text before it. Places count code points. -/
def placed (defect : Defect) (before : List Char) : ReadError :=
  let points := Text.codePoints before
  ⟨defect, 1 + points.count '\n'.toNat,
    1 + (points.reverse.takeWhile (· != '\n'.toNat)).length, points.length⟩

/-- The failure that a stop in a text amounts to. -/
def Stop.failure (whole : List Char) : Stop → ReadFailure
  | .malformed defect rest => .malformed (placed defect (whole.take (whole.length - rest.length)))
  | .broken fault => .broken fault

/-- How deep arrays and objects may be nested. -/
def nestingLimit : Nat := 990

/-- White space between the parts of a value. -/
def isSpace (c : Char) : Bool := c == ' ' || c == '\t' || c == '\n' || c == '\r'

/-- The text after leading white space. -/
def skipSpace (cs : List Char) : List Char := cs.dropWhile isSpace

/-- The character that a backslash and a letter stand for. -/
def escaped? (c : Char) : Option Char :=
  if c == '"' || c == '\\' || c == '/' then some c
  else if c == 'b' then some '\x08'
  else if c == 'f' then some '\x0c'
  else if c == 'n' then some '\n'
  else if c == 'r' then some '\r'
  else if c == 't' then some '\t'
  else none

/-- The number that the four digits at the start of a text denote, with the text after them. At
least one more character follows them. -/
def fourDigits? (cs : List Char) : Option (Nat × List Char) :=
  let digits := cs.take 4
  if digits.length = 4 && digits.all Text.isHexDigit && !(cs.drop 4).isEmpty then
    some (Text.ofHexDigits digits, cs.drop 4)
  else none

/-- The escaped second half of a surrogate pair at the start of a text, with the text after it. -/
def escapedLowHalf? : List Char → Option (Nat × List Char)
  | '\\' :: 'u' :: rest => (fourDigits? rest).filter fun (n, _) ↦ Text.isLowHalf n
  | _ => none

/-- The code point of the escape at the start of `cs`, in a text that starts at `opening`, with the
text after it. The two halves of a surrogate pair are joined if both are escaped. -/
def readEscape (opening cs : List Char) : Except Stop (Nat × List Char) :=
  match cs.tail with
  | [] => .error (.malformed .unterminated opening)
  | c :: rest =>
    if c == 'u' then
      match fourDigits? rest with
      | none => .error (.malformed .invalidCodePoint (c :: rest))
      | some (n, after) =>
        if Text.isHighHalf n then
          match escapedLowHalf? after with
          | some (low, after) => .ok (Text.joinHalves n low, after)
          | none => .ok (n, after)
        else .ok (n, after)
    else match escaped? c with
      | some d => .ok (d.toNat, rest)
      | none => .error (.malformed .invalidEscape cs)

/-- The characters of the text that starts at `opening`, up to its closing quote. `before` holds
those in front of `cs`, last first. -/
def readChars (opening : List Char) :
    Nat → List Char → List Char → Except Stop (List Char × List Char)
  | 0, _, _ => .error (.malformed .unterminated opening)
  | _ + 1, _, [] => .error (.malformed .unterminated opening)
  | fuel + 1, before, c :: rest =>
    if c == '"' then .ok (before.reverse, rest)
    else if c == '\\' then
      match readEscape opening (c :: rest) with
      | .error stop => .error stop
      | .ok (n, after) => readChars opening fuel ((Text.spell n).reverse ++ before) after
    else if c.toNat < 0x20 then .error (.malformed .controlCharacter (c :: rest))
    else readChars opening fuel (c :: before) rest

/-- The text whose opening quote is the first character of `cs`. -/
def readText (fuel : Nat) (cs : List Char) : Except Stop (String × List Char) := do
  let (chars, rest) ← readChars cs fuel [] cs.tail
  .ok (String.ofList chars, rest)

/-- The whole digits of a number: a single zero, or digits that do not start with zero. -/
def wholeDigits? : List Char → Option (List Char × List Char)
  | [] => none
  | c :: rest =>
    if c == '0' then some ([c], rest)
    else if Text.isDecimalDigit c then
      some (c :: rest.takeWhile Text.isDecimalDigit, rest.dropWhile Text.isDecimalDigit)
    else none

/-- The digits after a point, with the text after them; none unless a digit follows the point. -/
def fractionDigits : List Char → List Char × List Char
  | '.' :: rest =>
    let digits := rest.takeWhile Text.isDecimalDigit
    if digits.isEmpty then ([], '.' :: rest) else (digits, rest.dropWhile Text.isDecimalDigit)
  | cs => ([], cs)

/-- A whole number, given its digits. -/
def wholeNumber (negative : Bool) (digits : List Char) : Except Fault Number :=
  if digitLimit < digits.length then .error (.tooManyDigits digits.length)
  else
    let size : Int := Text.ofDecimalDigits digits
    .ok (.whole (if negative then -size else size))

/-- The number at the start of a text, with the text after it. It extends as far as its grammar
allows. -/
def number? (cs : List Char) : Option (Except Fault Number × List Char) :=
  let (negative, body) := match cs with
    | '-' :: rest => (true, rest)
    | _ => (false, cs)
  (wholeDigits? body).map fun (whole, afterWhole) ↦
    let (fraction, afterFraction) := fractionDigits afterWhole
    match Text.splitExponent? afterFraction with
    | some (exponent, rest) =>
      (.ok (.float ((Text.DecimalParts.mk whole fraction exponent).toFloat negative)), rest)
    | none =>
      if fraction.isEmpty then (wholeNumber negative whole, afterFraction)
      else (.ok (.float ((Text.DecimalParts.mk whole fraction 0).toFloat negative)), afterFraction)

/-- The words that are values. -/
def words : List (String × Json) :=
  [("null", .null), ("true", .bool true), ("false", .bool false),
    ("NaN", .number (.float (0.0 / 0.0))), ("Infinity", .number (.float (1.0 / 0.0))),
    ("-Infinity", .number (.float (-(1.0 / 0.0))))]

/-- The text after `word`, if it starts with `word`. -/
def after? : List Char → List Char → Option (List Char)
  | [], cs => some cs
  | _ :: _, [] => none
  | w :: word, c :: cs => if w == c then after? word cs else none

/-- The word at the start of a text. -/
def word? (cs : List Char) : Option (Json × List Char) :=
  words.findSome? fun w ↦ (after? w.1.toList cs).map fun rest ↦ (w.2, rest)

/-- The word or number at the start of a text. -/
def readScalar (cs : List Char) : Except Stop (Json × List Char) :=
  match word? cs with
  | some found => .ok found
  | none => match number? cs with
    | some (.ok n, rest) => .ok (.number n, rest)
    | some (.error fault, _) => .error (.broken fault)
    | none => .error (.malformed .expectingValue cs)

mutual

/-- The value at the start of a text. Arrays and objects may be nested `depth` deep. -/
def readValue (depth : Nat) : Nat → List Char → Except Stop (Json × List Char)
  | 0, cs => .error (.malformed .expectingValue cs)
  | fuel + 1, cs =>
    match cs with
    | '"' :: _ => do
      let (s, rest) ← readText (fuel + 1) cs
      .ok (.text s, rest)
    | '[' :: rest =>
      if depth = 0 then .error (.broken .tooDeep)
      else match skipSpace rest with
        | ']' :: after => .ok (.array [], after)
        | items => do
          let (items, rest) ← readItems (depth - 1) fuel items
          .ok (.array items, rest)
    | '{' :: rest =>
      if depth = 0 then .error (.broken .tooDeep)
      else match skipSpace rest with
        | '}' :: after => .ok (.object [], after)
        | fields => do
          let (fields, rest) ← readFields (depth - 1) fuel fields
          .ok (ofFields fields, rest)
    | _ => readScalar cs

/-- The items of an array from the first one on, up to the closing bracket. -/
def readItems (depth : Nat) : Nat → List Char → Except Stop (List Json × List Char)
  | 0, cs => .error (.malformed .expectingValue cs)
  | fuel + 1, cs => do
    let (item, rest) ← readValue depth fuel cs
    match skipSpace rest with
    | ']' :: after => .ok ([item], after)
    | ',' :: after => do
      let (items, rest) ← readItems depth fuel (skipSpace after)
      .ok (item :: items, rest)
    | rest => .error (.malformed .expectingComma rest)

/-- The fields of an object from the first one on, up to the closing brace. -/
def readFields (depth : Nat) : Nat → List Char → Except Stop (List (String × Json) × List Char)
  | 0, cs => .error (.malformed .expectingName cs)
  | fuel + 1, cs =>
    match cs with
    | '"' :: _ => do
      let (name, rest) ← readText (fuel + 1) cs
      match skipSpace rest with
      | ':' :: after => do
        let (value, rest) ← readValue depth fuel (skipSpace after)
        match skipSpace rest with
        | '}' :: after => .ok ([(name, value)], after)
        | ',' :: after => do
          let (fields, rest) ← readFields depth fuel (skipSpace after)
          .ok ((name, value) :: fields, rest)
        | rest => .error (.malformed .expectingComma rest)
      | rest => .error (.malformed .expectingColon rest)
    | _ => .error (.malformed .expectingName cs)

end

/-- The only value of a text. -/
def readDocument (cs : List Char) : Except Stop Json :=
  if cs.head? = some (Char.ofNat 0xfeff) then .error (.malformed .byteOrderMark cs)
  else do
    let (value, rest) ← readValue nestingLimit (2 * cs.length + 2) (skipSpace cs)
    match skipSpace rest with
    | [] => .ok value
    | rest => .error (.malformed .extraData rest)

/-- The JSON value that a text denotes. -/
def read (text : String) : Except ReadFailure Json :=
  let cs := text.toList
  (readDocument cs).mapError (·.failure cs)

end FlowChart.Json
