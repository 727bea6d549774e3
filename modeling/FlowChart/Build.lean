import FlowChart.Chart
import FlowChart.Graph.Import
import FlowChart.Graph.Source
import FlowChart.Instruction.Document
import FlowChart.View.Minimap

/-!
# Builds

A build goes all the way from a listing, or from a graph from outside, to the chart of its
reachable part. A rejection does not end it: the build then has failed, holds nothing and says why.
Only a fault ends it.
-/

namespace FlowChart

/-- How far a build has come. -/
inductive BuildStatus where
  /-- Nothing is built yet. -/
  | loading
  /-- The build was rejected. -/
  | failed
  /-- The build is done. -/
  | loaded
  deriving Repr, DecidableEq

/-- The name of a status. -/
def BuildStatus.toText : BuildStatus → String
  | .loading => "loading"
  | .failed => "error"
  | .loaded => "loaded"

/-- The outcome of a build. -/
structure Build (α : Type) where
  /-- How far the build has come. -/
  status : BuildStatus
  /-- The reachable part of the graph. -/
  graph : Graph
  /-- The chart of the reachable part. -/
  chart : Chart α
  /-- The ids of the blocks that cannot be reached. -/
  removed : List String
  /-- Why the build was rejected. -/
  error : Option String

namespace Build

variable {α : Type} [Scalar α]

/-- A build that holds nothing. -/
def empty (status : BuildStatus) : Build α := ⟨status, .empty, .blank, [], none⟩

/-- A build as it is before anything is built. -/
def initial : Build α := empty .loading

/-- Whether the build is done. -/
def isLoaded (b : Build α) : Bool := b.status == .loaded

/-- The minimap of the chart. -/
def minimap (b : Build α) (config : Config α) : Except Fault (Minimap α) :=
  Minimap.fit b.chart.boxes.values config

/-- The build of a graph. A graph without blocks is done at once; one with blocks must be
entered. -/
def ofGraph (g : Graph) (canvasWidth : Option α) (config : Config α) : Logged (Build α) := do
  let pruned ← g.pruneLogged
  match pruned.entry with
  | none =>
    if g.blocks.isEmpty then return empty .loaded
    else Logged.reject (.noEntry g.blocks.length)
  | some _ =>
    let chart ← Chart.draw pruned.graph canvasWidth config
    return ⟨.loaded, pruned.graph, chart, pruned.removed, none⟩

/-- A build that goes on after a rejection as a failed build, with a warning. -/
def settle (warning : String → Warning) (build : Logged (Build α)) : Logged (Build α) :=
  match build.outcome with
  | .error (.rejected reason) =>
    ⟨build.warnings ++ [warning reason.message],
      .ok { (empty .failed : Build α) with error := some reason.message }⟩
  | _ => build

/-- The build of a listing. -/
def ofListing (architecture : Architecture) (registry : Registry) (canvasWidth : Option α)
    (config : Config α) (listing : List Instruction) : Logged (Build α) :=
  settle .buildFailed do
    ofGraph (← Graph.ofListing architecture registry listing) canvasWidth config

/-- The build of the text of a JSON array of instruction records. -/
def ofText (architecture : Architecture) (registry : Registry) (canvasWidth : Option α)
    (config : Config α) (text : String) : Logged (Build α) :=
  match Instruction.readAll text with
  | .ok listing => ofListing architecture registry canvasWidth config listing
  | .error failure => settle .buildFailed (.fail failure)

/-- The build of a graph from outside, given by its block records and edge records. -/
def ofRecords (blocks edges : Json) (canvasWidth : Option α) (config : Config α) :
    Logged (Build α) :=
  settle .importFailed do
    ofGraph (← Graph.ofRecords blocks edges) canvasWidth config

/-- A build that was not rejected is not touched. -/
theorem settle_of_ok {warning : String → Warning} {build : Logged (Build α)} {b : Build α}
    (h : build.outcome = .ok b) : settle warning build = build := by
  simp [settle, h]

end Build

end FlowChart
