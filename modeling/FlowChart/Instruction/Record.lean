import FlowChart.Instruction.Basic
import FlowChart.Json.Display
import FlowChart.Json.Reader

/-!
# Instruction records

Instructions come in and go out as JSON objects. An address and an operation must be given; every
other field has a default, and a value that is not a text is taken by its text.
-/

namespace FlowChart

/-- Why a record or a list of records is not accepted. -/
inductive RecordDefect where
  /-- A record is not an object. -/
  | notAnObject (found : Json)
  /-- A record lacks fields that must be given. -/
  | missing (fields : List String) (record : Json)
  /-- A list of records is not JSON. -/
  | unreadable (error : Json.ReadError)
  /-- A list of records is JSON, but no array. -/
  | notAnArray

/-- The wording of a defect. -/
def RecordDefect.message : RecordDefect → String
  | .notAnObject found => "instruction record must be an object, got " ++ found.kindName
  | .missing fields record =>
    "instruction record missing " ++ ", ".intercalate fields ++ ": " ++ record.inspect
  | .unreadable error => "instruction list is not valid JSON: " ++ error.message
  | .notAnArray => "instruction list must be a JSON array"

namespace Json

/-- The text of a field, or a default if there is no such field. -/
def fieldText (j : Json) (name : String) (default : String) : String :=
  ((j.field? name).map Json.display).getD default

end Json

namespace Instruction

/-- The fields that a record must have. -/
def requiredFields : List String := ["address", "opcode"]

/-- The instruction of a record. -/
def ofRecord (record : Json) : Except RecordDefect Instruction :=
  match record with
  | .object _ =>
    let missing := requiredFields.filter fun name ↦ (record.field? name).isNone
    if missing.isEmpty then
      .ok {
        address := record.fieldText "address" ""
        bytes := record.fieldText "bytes" ""
        opcode := record.fieldText "opcode" ""
        operands := record.fieldText "operands" ""
        detail := (record.field? "detail").getD .null }
    else .error (.missing missing record)
  | found => .error (.notAnObject found)

/-- The record of an instruction. A detail is given only if there is one. -/
def toRecord (i : Instruction) : Json :=
  let texts := [("address", Json.text i.address), ("bytes", .text i.bytes),
    ("opcode", .text i.opcode), ("operands", .text i.operands)]
  match i.detail with
  | .null => .object texts
  | detail => .object (texts ++ [("detail", detail)])

/-- Reading the record of an instruction gives the instruction. -/
theorem ofRecord_toRecord (i : Instruction) : ofRecord i.toRecord = .ok i := by
  obtain ⟨address, bytes, opcode, operands, detail⟩ := i
  cases detail <;>
    simp [toRecord, ofRecord, requiredFields, Json.field?, Json.fieldText, Table.find, List.filter]

end Instruction

end FlowChart
