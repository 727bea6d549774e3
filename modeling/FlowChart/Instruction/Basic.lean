import FlowChart.Instruction.Address
import FlowChart.Json.Basic
import FlowChart.Text.LowerCase

/-!
# Instructions

One disassembled instruction, with the texts that the disassembler gave it.
-/

namespace FlowChart

/-- A disassembled instruction. -/
structure Instruction where
  /-- The text of the address. -/
  address : String
  /-- The text of the encoded bytes. -/
  bytes : String
  /-- The operation, in any letter case and with any blanks around it. -/
  opcode : String
  /-- The text of the operands. -/
  operands : String
  /-- What else the disassembler said; null if nothing. -/
  detail : Json := .null

namespace Instruction

/-- The operation in lower case without surrounding blanks. -/
def mnemonic (i : Instruction) : String :=
  Text.lower (String.ofList (Text.trim i.opcode.toList))

/-- The address of the instruction, if its text denotes one. -/
def address? (i : Instruction) : Option Nat := Address.ofText? i.address

/-- The address that the operands name, if they name one. -/
def target? (i : Instruction) : Option Nat := Address.jumpTarget? i.operands

end Instruction

end FlowChart
