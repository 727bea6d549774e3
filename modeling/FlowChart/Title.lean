import FlowChart.Text.Blank

/-!
# Titles

The title of a chart is the name of its function, without the offset that a disassembler appends.
-/

namespace FlowChart

/-- What stands between a function's name and an offset. -/
def offsetMark : List Char := [' ', '+', ' ']

/-- A text up to the first offset mark. -/
def beforeOffset : List Char → List Char
  | [] => []
  | c :: rest => if offsetMark.isPrefixOf (c :: rest) then [] else c :: beforeOffset rest

/-- The title for a function name. A name that consists of an offset only is kept. -/
def functionTitle (name : String) : String :=
  match beforeOffset name.toList with
  | [] => name
  | cs => String.ofList cs

end FlowChart
