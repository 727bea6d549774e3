import FlowChart.Fault
import FlowChart.Instruction.Basic

/-!
# Control-flow graphs

A graph is a list of blocks in construction order and a list of typed edges. Blocks also list the
ids of their successors and predecessors. Nothing forces these views to agree: a graph that was
brought in from outside may name more successors than it has edges, and may have several blocks
with one id, of which the last one is meant by it.
-/

namespace FlowChart

/-- How control passes along an edge. -/
inductive EdgeKind where
  /-- Falling through to the next block. -/
  | normal
  /-- A conditional jump that is taken. -/
  | conditionalTrue
  /-- A conditional jump that is not taken. -/
  | conditionalFalse
  /-- A jump that is always taken. -/
  | unconditional
  deriving Repr, DecidableEq

namespace EdgeKind

/-- The name of a kind. -/
def toText : EdgeKind → String
  | .normal => "normal"
  | .conditionalTrue => "conditional-true"
  | .conditionalFalse => "conditional-false"
  | .unconditional => "unconditional"

/-- All kinds. -/
def all : List EdgeKind := [.normal, .conditionalTrue, .conditionalFalse, .unconditional]

/-- The kind with a name. -/
def ofText? (text : String) : Option EdgeKind := all.find? (·.toText == text)

/-- Every kind is found under its name. -/
theorem ofText?_toText (k : EdgeKind) : ofText? k.toText = some k := by
  cases k <;> rfl

end EdgeKind

/-- A straight run of instructions. -/
structure Block where
  /-- The position of the block in its graph as built. -/
  index : Int
  /-- The id of the block. -/
  id : String
  /-- The instructions in order. -/
  instructions : List Instruction
  /-- The text of the address where the block starts. -/
  start : String
  /-- The text of the address of the block's last instruction. -/
  stop : String
  /-- The ids of the blocks that control passes to. -/
  successors : List String := []
  /-- The ids of the blocks that control comes from. -/
  predecessors : List String := []
  /-- Whether the function is entered here. -/
  isEntry : Bool := false
  /-- Whether the function is left here. -/
  isExit : Bool := false

namespace Block

/-- What the id of a numbered block starts with. -/
def idStem : String := "block_"

/-- The id of the block at a position. -/
def idAt (position : Int) : String := idStem ++ toString position

/-- A text, or another one in place of the empty text. -/
def orElseText (text : String) (other : Option String) : String :=
  if text.isEmpty then other.getD "" else text

/-- A block whose addresses, where they are not given, are those of its first and last
instruction. -/
def withAddresses (b : Block) : Block :=
  { b with
    start := orElseText b.start (b.instructions.head?.map (·.address))
    stop := orElseText b.stop (b.instructions.getLast?.map (·.address)) }

/-- The instruction that decides where control passes to. -/
def last? (b : Block) : Option Instruction := b.instructions.getLast?

/-- The address that an id contains: after the stem, a literal and nothing else. -/
def idAddress? (id : String) : Option Nat :=
  let stem := idStem.toList
  let cs := id.toList
  if stem.isPrefixOf cs then
    match cs.drop stem.length with
    | '0' :: 'x' :: digits =>
      if digits.isEmpty || !digits.all Text.isHexDigit then none
      else some (Text.ofHexDigits digits)
    | _ => none
  else none

/-- The address that blocks are ordered by: the one in the id, else that of the first instruction,
else zero. -/
def sortAddress (b : Block) : Nat :=
  match idAddress? b.id with
  | some address => address
  | none => (b.instructions.head?.bind (·.address?)).getD 0

end Block

/-- A transfer of control from one block to another. -/
structure Edge where
  /-- The id of the block that control leaves. -/
  source : String
  /-- The id of the block that control enters. -/
  target : String
  /-- How control passes. -/
  kind : EdgeKind := .normal
  deriving Repr, DecidableEq

/-- Blocks in construction order, and typed edges. -/
structure Graph where
  /-- The blocks. -/
  blocks : List Block := []
  /-- The edges. -/
  edges : List Edge := []

namespace Graph

/-- The graph without blocks. -/
def empty : Graph := {}

/-- The ids of the blocks in order. -/
def ids (g : Graph) : List String := g.blocks.map (·.id)

/-- Whether a block has the id. -/
def contains (g : Graph) (id : String) : Bool := g.blocks.any (·.id == id)

/-- The block that an id means: the last one that has it. -/
def block? (g : Graph) (id : String) : Option Block := (g.blocks.filter (·.id == id)).getLast?

/-- The block that an id means, where there must be one. -/
def block (g : Graph) (id : String) : Except Fault Block :=
  match g.block? id with
  | some b => .ok b
  | none => .error (.missingKey id)

/-- The first block where the function is entered. -/
def entry? (g : Graph) : Option Block := g.blocks.find? (·.isEntry)

/-- All instructions in block order. -/
def instructions (g : Graph) : List Instruction := g.blocks.flatMap (·.instructions)

/-- The edges that leave a block. -/
def edgesFrom (g : Graph) (id : String) : List Edge := g.edges.filter (·.source == id)

/-- The first edge from one block to another. -/
def edgeBetween? (g : Graph) (source target : String) : Option Edge :=
  g.edges.find? fun e ↦ e.source == source && e.target == target

/-- Whether both ends of an edge are blocks. -/
def hasEnds (g : Graph) (e : Edge) : Bool := g.contains e.source && g.contains e.target

/-- The blocks that the successor lists of a node lead to. Several blocks with one id are one
node. -/
def successorsOf (g : Graph) (id : String) : List String :=
  (g.blocks.filter (·.id == id)).flatMap fun b ↦ b.successors.filter g.contains

/-- The blocks that the edges of a node lead to. -/
def targetsOf (g : Graph) (id : String) : List String :=
  (g.edges.filter fun e ↦ e.source == id && g.hasEnds e).map (·.target)

/-- A graph has a block with an id exactly when the id is listed. -/
theorem contains_iff (g : Graph) (id : String) : g.contains id = true ↔ id ∈ g.ids := by
  simp [contains, ids]

/-- The block that an id means is a block of the graph and has the id. -/
theorem mem_and_id_of_block? {g : Graph} {id : String} {b : Block} (h : g.block? id = some b) :
    b ∈ g.blocks ∧ b.id = id := by
  have hb := List.mem_of_getLast? h
  simpa using hb

/-- An id means a block exactly when a block has it. -/
theorem isSome_block? (g : Graph) (id : String) : (g.block? id).isSome = g.contains id := by
  rw [Bool.eq_iff_iff, contains_iff, ids, block?]
  simp

end Graph

end FlowChart
