import FlowChart.Rejection

/-!
# Lists of instructions as text

A list of instructions comes in as the text of a JSON array of records. It is rejected if the text
is not JSON, the value no array or a record not accepted.
-/

namespace FlowChart.Instruction

/-- The instructions of a list of records. -/
def ofRecords (records : Json) : Except RecordDefect (List Instruction) :=
  match records with
  | .array items => items.mapM ofRecord
  | _ => .error .notAnArray

/-- The instructions of the text of a list of records. -/
def readAll (text : String) : Except Failure (List Instruction) :=
  match Json.read text with
  | .ok records => (ofRecords records).mapError fun defect ↦ .rejected (.invalidInstruction defect)
  | .error (.malformed error) => .error (.rejected (.invalidInstruction (.unreadable error)))
  | .error (.broken fault) => .error (.broken fault)

end FlowChart.Instruction
