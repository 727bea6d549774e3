import FlowChart.Fault
import FlowChart.Graph.Basic
import FlowChart.Json.Display
import FlowChart.Number.Reading

/-!
# Colours

A colour is its red, green and blue part. It is painted as it is, or with an opacity.
-/

namespace FlowChart

/-- A colour. -/
structure Color where
  /-- The red part. -/
  red : Int
  /-- The green part. -/
  green : Int
  /-- The blue part. -/
  blue : Int
  deriving Repr, DecidableEq

namespace Color

/-- A colour as a mark and two digits for each part. -/
def toText (c : Color) : String :=
  String.ofList ('#' :: [c.red, c.green, c.blue].flatMap fun part ↦ Text.hexByte part.toNat)

/-- A colour with an opacity. -/
def translucent (c : Color) (alpha : Number) : String :=
  "rgba(" ++ ", ".intercalate [toString c.red, toString c.green, toString c.blue, alpha.display] ++
    ")"

/-- The part of a colour in two characters. -/
def partOf (cs : List Char) : Except Fault Int :=
  match Text.toHexInt? cs with
  | some part => .ok part
  | none => .error (.notANumber (String.ofList cs))

/-- The colour that a text denotes. Marks in front of it and what follows the three parts do not
matter. -/
def ofText (text : String) : Except Fault Color := do
  let cs := text.toList.dropWhile (· == '#')
  let red ← partOf (cs.take 2)
  let green ← partOf ((cs.drop 2).take 2)
  let blue ← partOf ((cs.drop 4).take 2)
  return ⟨red, green, blue⟩

/-- The colour that a text denotes, with an opacity. -/
def withAlpha (text : String) (alpha : Number) : Except Fault String :=
  (ofText text).map (·.translucent alpha)

/-- What stands for success: the entry, a taken branch, a reachable block. -/
def leaf : Color := ⟨0x4c, 0xaf, 0x50⟩

/-- What stands for an end: an exit, a branch that is not taken. -/
def flame : Color := ⟨0xff, 0x57, 0x22⟩

/-- What stands for the present block. -/
def azure : Color := ⟨0x21, 0x96, 0xf3⟩

/-- What stands for a block that cannot be reached. -/
def brick : Color := ⟨0xf4, 0x43, 0x36⟩

/-- What stands for a block that is reached under a condition. -/
def amber : Color := ⟨0xff, 0x98, 0x00⟩

/-- What stands for a jump that is always taken. -/
def sky : Color := ⟨0x4f, 0xc1, 0xff⟩

/-- What stands for falling through. -/
def gray : Color := ⟨0x80, 0x80, 0x80⟩

/-- The border of a block of which nothing is known. -/
def paleGray : Color := ⟨0x9e, 0x9e, 0x9e⟩

/-- The border of a block about which nothing is said. -/
def neutralBorder : Color := ⟨0x3c, 0x3c, 0x3c⟩

/-- The header of a block about which nothing is said. -/
def neutralHeader : Color := ⟨0x1a, 0x1a, 0x1a⟩

/-- The opacity of a coloured header. -/
def headerAlpha : Number := .float 0.2

/-- The colour of an edge. -/
def ofEdge : EdgeKind → Color
  | .conditionalTrue => leaf
  | .conditionalFalse => flame
  | .unconditional => sky
  | .normal => gray

end Color

end FlowChart
