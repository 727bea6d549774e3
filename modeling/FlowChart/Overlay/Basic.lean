import FlowChart.Overlay.Color
import FlowChart.Warning

/-!
# Overlays

An overlay says for some blocks whether and how they can be reached, as another analyser found. It
only colours a chart: with an overlay a block is coloured by its status, and without one by
whether it is an entry or an exit.
-/

namespace FlowChart

/-- Whether and how a block can be reached. -/
inductive ReachStatus where
  /-- Control is here. -/
  | current
  /-- Control can come here. -/
  | reachable
  /-- Control cannot come here. -/
  | unreachable
  /-- Control comes here under a condition. -/
  | conditional
  /-- Nothing is known. -/
  | unknown
  deriving Repr, DecidableEq

namespace ReachStatus

/-- The name of a status. -/
def toText : ReachStatus → String
  | .current => "current"
  | .reachable => "reachable"
  | .unreachable => "unreachable"
  | .conditional => "conditional"
  | .unknown => "unknown"

/-- All statuses. -/
def all : List ReachStatus := [.current, .reachable, .unreachable, .conditional, .unknown]

/-- The status with a name; nothing is known under any other name. -/
def ofText (text : String) : ReachStatus := (all.find? (·.toText == text)).getD .unknown

/-- The colour of a status, where it has one. -/
def color? : ReachStatus → Option Color
  | .current => some .azure
  | .reachable => some .leaf
  | .unreachable => some .brick
  | .conditional => some .amber
  | .unknown => none

/-- Every status is found under its name. -/
theorem ofText_toText (s : ReachStatus) : ofText s.toText = s := by
  cases s <;> rfl

end ReachStatus

/-- What is said about a block. -/
structure Reach where
  /-- Whether and how the block can be reached. -/
  status : ReachStatus
  /-- The condition under which it is reached. -/
  condition : String
  /-- How likely it is reached. -/
  probability : Option Float

/-- What is said about blocks, under their ids. -/
abbrev Overlay := Table String Reach

namespace Overlay

/-- The number that a value stands for. -/
def numberOf : Json → Except Fault Float
  | .number (.float x) => .ok x
  | .number (.whole n) =>
    let x := Float.ofInt n
    if x.isInf then .error .beyondRange else .ok x
  | .bool b => .ok (if b then 1.0 else 0.0)
  | .text s =>
    match Text.toFloat? s with
    | some x => .ok x
    | none => .error (.notANumber s)
  | j => .error (.wrongKind j.kindName)

/-- The probability of a record, if it gives one. -/
def probabilityOf (record : Json) : Except Fault (Option Float) :=
  match record.field? "probability" with
  | none | some .null => .ok none
  | some j => (numberOf j).map some

/-- The overlay with one more record. A record without block id is passed over with a warning. -/
def addRecord (overlay : Overlay) (record : Json) : Logged Overlay :=
  match record with
  | .object _ =>
    match record.field? "blockId" with
    | none | some .null => do
      Logged.warn [.withoutBlock record]
      return overlay
    | some id => do
      let probability ← Logged.ofFaulty (probabilityOf record)
      return overlay.insert id.display {
        status := ReachStatus.ofText (record.fieldText "status" ReachStatus.unknown.toText)
        condition := record.fieldText "condition" ""
        probability := probability }
  | _ => .broken (.withoutFields record.kindName)

/-- The overlay of a sequence of records. -/
def ofRecords (records : Json) : Logged Overlay :=
  match records.members? with
  | some items => items.foldlM addRecord .empty
  | none => .broken (.wrongKind records.kindName)

end Overlay

namespace Block

/-- The colour of a block by itself: whether it is an entry or else an exit. -/
def ownColor? (b : Block) : Option Color :=
  if b.isEntry then some .leaf else if b.isExit then some .flame else none

/-- The colour of a block's border. -/
def borderColor (b : Block) : Option Overlay → Color
  | none => b.ownColor?.getD .neutralBorder
  | some overlay =>
    match overlay.get? b.id with
    | none => .neutralBorder
    | some reach => reach.status.color?.getD .paleGray

/-- The paint of a block's header. -/
def headerPaint (b : Block) (overlay : Option Overlay) : String :=
  let color := match overlay with
    | none => b.ownColor?
    | some overlay => (overlay.get? b.id).bind fun reach ↦ reach.status.color?
  match color with
  | some color => color.translucent Color.headerAlpha
  | none => Color.neutralHeader.toText

end Block

end FlowChart
