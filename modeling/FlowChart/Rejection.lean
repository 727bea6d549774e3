import FlowChart.Graph.Basic
import FlowChart.Instruction.Record

/-!
# Rejections

A rejection is the answer to a request that cannot be met: a record or a graph that is not what it
should be, an instruction set that is not known, a graph that is never entered. A request ends
in a failure when it is rejected or meets a fault.
-/

namespace FlowChart

/-- Why a graph from outside is not accepted. -/
inductive GraphDefect where
  /-- The block at a position has no id. -/
  | withoutId (position : Nat)
  /-- An edge lacks one of its ends. -/
  | withoutEnd (field : String) (record : Json)
  /-- An edge is of a kind that does not exist. -/
  | unknownKind (name : String)

/-- The wording of a defect. -/
def GraphDefect.message : GraphDefect → String
  | .withoutId position => "external block #" ++ toString position ++ " has no id"
  | .withoutEnd field record =>
    "external edge missing " ++ Text.quoted field ++ ": " ++ record.inspect
  | .unknownKind name => "unknown edge type: " ++ Text.quoted name

/-- The kind of edge with a name, or the defect of naming none. -/
def EdgeKind.ofText (name : String) : Except GraphDefect EdgeKind :=
  match EdgeKind.ofText? name with
  | some kind => .ok kind
  | none => .error (.unknownKind name)

/-- Why a request cannot be met. -/
inductive Rejection where
  /-- An instruction record or a list of them is not accepted. -/
  | invalidInstruction (defect : RecordDefect)
  /-- A graph is not accepted. -/
  | invalidGraph (defect : GraphDefect)
  /-- No classifier is registered under a name. -/
  | unknownArchitecture (name : String)
  /-- None of the blocks is entered. -/
  | noEntry (blocks : Nat)

/-- The wording of a rejection. -/
def Rejection.message : Rejection → String
  | .invalidInstruction defect => defect.message
  | .invalidGraph defect => defect.message
  | .unknownArchitecture name => "unknown architecture: " ++ Text.quoted name
  | .noEntry blocks => "no entry block among " ++ toString blocks ++ " blocks"

/-- How a request fails. -/
inductive Failure where
  /-- The request is answered with a rejection. -/
  | rejected (reason : Rejection)
  /-- The request meets a fault. -/
  | broken (fault : Fault)

instance : Coe Rejection Failure := ⟨.rejected⟩

instance : Coe Fault Failure := ⟨.broken⟩

end FlowChart
