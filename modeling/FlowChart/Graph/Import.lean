import FlowChart.Graph.Basic
import FlowChart.Warning

/-!
# Graphs from outside

Another analyser hands over a graph as two sequences of records, one for its blocks and one for
its edges. Blocks keep the order of their records. Edges between unknown blocks are dropped with a
warning. A block may list its successors itself, and then the list counts; otherwise its edges
give them. Predecessors and exits always follow from the successors.
-/

namespace FlowChart.Graph.Import

/-- The members of a value used as a sequence. -/
def members (j : Json) : Logged (List Json) :=
  match j.members? with
  | some items => pure items
  | none => .broken (.wrongKind j.kindName)

/-- Whether a value contains `name`: as a field, as a part of a text, or as an item. -/
def mentions (name : String) : Json → Except Fault Bool
  | .object fields => .ok (fields.any (·.1 == name))
  | .text s => .ok (occursIn name.toList s.toList)
  | .array items => .ok (items.any fun | .text s => s == name | _ => false)
  | j => .error (.wrongKind j.kindName)
where
  /-- Whether a text occurs in another one. -/
  occursIn (part : List Char) : List Char → Bool
    | [] => part.isEmpty
    | c :: rest => part.isPrefixOf (c :: rest) || occursIn part rest

/-- The instructions of a block record. -/
def instructionsOf (record : Json) : Logged (List Instruction) := do
  let items ← members ((record.field? "instructions").getD (.array []))
  items.mapM fun item ↦
    match Instruction.ofRecord item with
    | .ok i => pure i
    | .error defect => .reject (.invalidInstruction defect)

/-- The block of the record at a position, not connected yet. -/
def blockOf (position : Nat) (record : Json) : Logged Block := do
  if !(← Logged.ofFaulty (mentions "id" record)) then
    .reject (.invalidGraph (.withoutId position))
  else match record with
    | .object _ => do
      let instructions ← instructionsOf record
      pure <| Block.withAddresses {
        index := position
        id := record.fieldText "id" ""
        instructions := instructions
        start := record.fieldText "startAddress" ""
        stop := record.fieldText "endAddress" ""
        isEntry := ((record.field? "isEntry").map Json.truth).getD false }
    | _ => .broken (.withoutFields record.kindName)

/-- The text of an end of an edge record. -/
def endOf (field : String) (record : Json) : Logged String :=
  match record with
  | .object _ =>
    match record.field? field with
    | some j => pure j.display
    | none => .reject (.invalidGraph (.withoutEnd field record))
  | _ => .broken (.wrongKind record.kindName)

/-- The edge of a record, if both of its ends are known. -/
def edgeOf (known : List String) (record : Json) : Logged (Option Edge) := do
  let source ← endOf "from" record
  let target ← endOf "to" record
  if known.contains source && known.contains target then
    match EdgeKind.ofText (record.fieldText "type" EdgeKind.normal.toText) with
    | .ok kind => pure (some ⟨source, target, kind⟩)
    | .error defect => .reject (.invalidGraph defect)
  else do
    Logged.warn [.droppedEdge source target]
    pure none

/-- The block with its successors: those that its record lists, or the targets of its edges. -/
def withSuccessors (known : List String) (edges : List Edge) (record : Json) (b : Block) :
    Logged Block :=
  match record.field? "successors" with
  | some listed => do
    let items ← members listed
    pure { b with successors := (items.map Json.display).filter known.contains }
  | none => pure { b with successors := (edges.filter (·.source == b.id)).map (·.target) }

/-- The sources of all successors listed under an id, in block order. -/
def sourcesOf (blocks : List Block) (id : String) : List String :=
  blocks.flatMap fun b ↦ (b.successors.filter (· == id)).map fun _ ↦ b.id

/-- Whether no later block has the id of the block at a position. -/
def isLastOfId (blocks : List Block) (position : Nat) (id : String) : Bool :=
  !(blocks.drop (position + 1)).any (·.id == id)

/-- The blocks with the predecessors and exits that follow from their successors. Predecessors
belong to the block that an id means. -/
def withPredecessors (blocks : List Block) : List Block :=
  blocks.zipIdx.map fun (b, position) ↦
    { b with
      predecessors := if isLastOfId blocks position b.id then sourcesOf blocks b.id else []
      isExit := b.successors.isEmpty }

end Import

/-- The graph of block records and edge records. -/
def ofRecords (blocks edges : Json) : Logged Graph := do
  let blockRecords ← Import.members blocks
  let arena ← blockRecords.zipIdx.mapM fun (record, position) ↦ Import.blockOf position record
  let known := arena.map (·.id)
  let edgeRecords ← Import.members edges
  let typed ← edgeRecords.mapM (Import.edgeOf known)
  let typed := typed.filterMap id
  let connected ← (blockRecords.zip arena).mapM fun (record, b) ↦
    Import.withSuccessors known typed record b
  pure ⟨Import.withPredecessors connected, typed⟩

end FlowChart.Graph
