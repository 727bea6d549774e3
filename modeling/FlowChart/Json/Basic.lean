import FlowChart.Table
import FlowChart.Text.CodePoint

/-!
# JSON values

Records that come from outside are JSON values. Whole numbers and numbers with a point or an
exponent are kept apart, and the fields of an object keep their order.
-/

namespace FlowChart

/-- A JSON number: whole, of any size, or binary floating point. -/
inductive Number where
  /-- A number written without point and exponent. -/
  | whole (value : Int)
  /-- A number written with a point or an exponent. -/
  | float (value : Float)

/-- A JSON value. -/
inductive Json where
  /-- The absent value. -/
  | null
  /-- A truth value. -/
  | bool (value : Bool)
  /-- A number. -/
  | number (value : Number)
  /-- A text. -/
  | text (value : String)
  /-- A sequence of values. -/
  | array (items : List Json)
  /-- Values under names, in order. -/
  | object (fields : List (String × Json))

namespace Number

/-- The nearest binary floating point number. -/
def toFloat : Number → Float
  | .whole n => Float.ofInt n
  | .float x => x

/-- Whether the number is zero. -/
def isZero : Number → Bool
  | .whole n => n == 0
  | .float x => x == 0.0

end Number

namespace Json

/-- The object written by a list of fields from left to right. A repeated name keeps its first
position and its last value. -/
def ofFields (fields : List (String × Json)) : Json := .object (Table.ofList fields).entries

/-- The field of an object with a name. -/
def field? (name : String) : Json → Option Json
  | .object fields => Table.find name fields
  | _ => none

/-- Whether the value counts as true: empty and zero values and the absent value do not. -/
def truth : Json → Bool
  | .null => false
  | .bool b => b
  | .number n => !n.isZero
  | .text s => !s.isEmpty
  | .array items => !items.isEmpty
  | .object fields => !fields.isEmpty

/-- The members of a value used as a sequence: the items of an array, the code points of a text and
the names of an object. Other values have no members. -/
def members? : Json → Option (List Json)
  | .array items => some items
  | .text s => some ((Text.codePoints s.toList).map fun n ↦ .text (String.ofList (Text.spell n)))
  | .object fields => some (fields.map fun f ↦ .text f.1)
  | _ => none

/-- The field that was written last under a name is found. -/
theorem field?_ofFields_concat (fields : List (String × Json)) (name : String) (j : Json) :
    (ofFields (fields ++ [(name, j)])).field? name = some j := by
  have h : (Table.ofList (fields ++ [(name, j)])).get? name = some j := by
    simp [Table.ofList, Table.insertAll]
  exact h

end Json

end FlowChart
