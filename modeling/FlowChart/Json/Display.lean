import FlowChart.Json.Basic
import FlowChart.Number.Text
import FlowChart.Text.Quoted

/-!
# Texts of JSON values

A value has two texts. Inspecting it quotes every text in it; displaying it does the same, but
shows a value that is itself a text as it is. Messages also name the kind of a value.
-/

namespace FlowChart

namespace Number

/-- The text of a number. -/
def display : Number → String
  | .whole n => toString n
  | .float x => fullText x

end Number

namespace Json

mutual

/-- The text of a value, with every text in it quoted. -/
def inspect : Json → String
  | .null => "None"
  | .bool true => "True"
  | .bool false => "False"
  | .number n => n.display
  | .text s => Text.quoted s
  | .array items => "[" ++ ", ".intercalate (inspectItems items) ++ "]"
  | .object fields => "\x7b" ++ ", ".intercalate (inspectFields fields) ++ "\x7d"

/-- The texts of the items of an array. -/
def inspectItems : List Json → List String
  | [] => []
  | item :: rest => item.inspect :: inspectItems rest

/-- The texts of the fields of an object. -/
def inspectFields : List (String × Json) → List String
  | [] => []
  | (name, value) :: rest => (Text.quoted name ++ ": " ++ value.inspect) :: inspectFields rest

end

/-- The text of a value; a text is itself. -/
def display : Json → String
  | .text s => s
  | j => j.inspect

/-- The name of a value's kind. -/
def kindName : Json → String
  | .null => "NoneType"
  | .bool _ => "bool"
  | .number (.whole _) => "int"
  | .number (.float _) => "float"
  | .text _ => "str"
  | .array _ => "list"
  | .object _ => "dict"

/-- A text displays as itself. -/
@[simp] theorem display_text (s : String) : (Json.text s).display = s := rfl

end Json

end FlowChart
