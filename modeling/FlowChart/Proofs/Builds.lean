import FlowChart.Build
import FlowChart.Proofs.Charts
import FlowChart.Proofs.Graph.Pruning
import FlowChart.Proofs.Graph.Splitting
import FlowChart.Proofs.Requests
import Mathlib

/-!
# Builds never fault

A build of the text of a list of instructions ends with a build: either the list is accepted, and
the build holds a chart of the reachable part of its graph, or it is rejected, and the build holds
nothing. Every stage of the way hands on what the next one relies on, so that no look-up, extremum
or division on the way can fault. Only a text that the reader of JSON does not get through, for its
nesting or its digits, ends a build with a fault.
-/

namespace FlowChart

/-! ### Instructions -/

/-- A value is an object with the fields that an instruction must have. -/
def Json.IsInstruction (j : Json) : Prop :=
  ∃ fields, j = .object fields ∧ (j.field? "address").isSome ∧ (j.field? "opcode").isSome

namespace Instruction

/-- A record is accepted exactly when it is an object with the fields that it must have. -/
theorem exists_ofRecord_eq_ok_iff {record : Json} :
    (∃ i, ofRecord record = .ok i) ↔ record.IsInstruction := by
  unfold Json.IsInstruction
  cases record with
  | object fields =>
    cases haddress : (Json.object fields).field? "address" <;>
      cases hopcode : (Json.object fields).field? "opcode" <;>
        simp [ofRecord, requiredFields, haddress, hopcode]
  | _ => simp [ofRecord]

/-- A list of records is accepted exactly when all of its records are. -/
theorem exists_mapM_ofRecord_iff {items : List Json} :
    (∃ listing, items.mapM ofRecord = .ok listing) ↔ ∀ item ∈ items, item.IsInstruction := by
  constructor
  · rintro ⟨listing, h⟩ item hitem
    obtain ⟨i, -, hi⟩ := exists_of_forall₂ (forall₂_of_mapM_eq_ok h).flip hitem
    exact exists_ofRecord_eq_ok_iff.mp ⟨i, hi⟩
  · intro h
    have heach : ∀ item ∈ items, Succeeds (ofRecord item) fun _ ↦ True := by
      intro item hitem
      obtain ⟨i, hi⟩ := exists_ofRecord_eq_ok_iff.mpr (h item hitem)
      exact ⟨i, hi, trivial⟩
    obtain ⟨listing, hlisting, -⟩ := Succeeds.mapM heach
    exact ⟨listing, hlisting⟩

/-- The instructions of a text are those of the records of an array. -/
theorem readAll_eq_ok_iff {text : String} {listing : List Instruction} :
    readAll text = .ok listing ↔
      ∃ items, Json.read text = .ok (.array items) ∧ items.mapM ofRecord = .ok listing := by
  unfold readAll
  cases hread : Json.read text with
  | error failure => cases failure <;> simp
  | ok j =>
    cases j with
    | array items =>
      cases hitems : items.mapM ofRecord <;> simp [ofRecords, hitems, Except.mapError]
    | _ => simp [ofRecords, Except.mapError]

/-- Reading instructions faults only if reading JSON does. -/
theorem read_eq_broken {text : String} {fault : Fault}
    (h : readAll text = .error (.broken fault)) : Json.read text = .error (.broken fault) := by
  unfold readAll at h
  cases hread : Json.read text with
  | error failure => cases failure <;> simp_all
  | ok j => cases hrecords : ofRecords j <;> simp [hread, hrecords, Except.mapError] at h

end Instruction

/-! ### Graphs -/

namespace Listing

variable {registry : Registry} {name : String} {listing : List Instruction}

/-- A listing is split exactly when it is empty or its instruction set is registered. -/
theorem exists_splitFor_eq_ok_iff :
    (∃ g, splitFor (.named name) registry listing = .ok g) ↔
      listing = [] ∨ ∃ c, registry.get? (Text.lower name) = some c := by
  unfold splitFor Architecture.resolve Registry.lookup?
  rw [← List.isEmpty_iff]
  split
  · next h => simp [h]
  · next h => cases hget : registry.get? (Text.lower name) <;> simp [h, hget, Except.map]

/-- The graph of a listing has different ids and all instructions. -/
theorem nodup_and_instructions_of_splitFor {g : Graph}
    (h : splitFor (.named name) registry listing = .ok g) :
    g.ids.Nodup ∧ g.instructions = listing := by
  unfold splitFor at h
  split at h
  · next hempty =>
    cases h
    exact ⟨List.nodup_nil, (List.isEmpty_iff.mp hempty).symm⟩
  · cases hresolve : Architecture.resolve registry (.named name) with
    | error unknown => simp [hresolve, Except.map] at h
    | ok c =>
      rw [hresolve] at h
      cases h
      exact ⟨nodup_ids_split c listing, instructions_split c listing⟩

end Listing

namespace Build

variable {α : Type} [Scalar α]

/-- What a build holds of a graph. -/
structure Holds (b : Build α) (g : Graph) : Prop where
  /-- The build is done. -/
  loaded : b.status = .loaded
  /-- The blocks have boxes, and nothing else has. -/
  boxes : b.chart.boxes.Covers b.graph
  /-- The blocks have levels, and nothing else has. -/
  levels : b.chart.levels.Covers b.graph
  /-- Kept and dropped ids are those of the graph. -/
  perm_ids : (b.graph.ids ++ b.removed).Perm g.ids
  /-- The reachable ids are kept. -/
  mem_ids : ∀ id, id ∈ b.graph.ids ↔ id ∈ g.ids ∧ g.Reachable id
  /-- The instructions of the reachable blocks are kept, in order. -/
  instructions : ∃ keep : Block → Bool, (∀ b ∈ g.blocks, keep b = true ↔ g.Reachable b.id) ∧
    b.graph.instructions = (g.blocks.filter keep).flatMap (·.instructions)
  /-- The edges have routes, in order. -/
  routes : b.chart.routes.map (·.edge) = b.graph.edges

/-- A build that holds nothing, because it was rejected. -/
structure IsRejected (b : Build α) : Prop where
  /-- The build has failed. -/
  failed : b.status = .failed
  /-- There is no graph. -/
  graph : b.graph = .empty
  /-- There are no boxes. -/
  boxes : b.chart.boxes = .empty
  /-- There are no levels. -/
  levels : b.chart.levels = .empty
  /-- There are no routes. -/
  routes : b.chart.routes = []
  /-- Nothing was dropped. -/
  removed : b.removed = []

/-- The build of a graph that is entered holds its reachable part and the chart of that. -/
theorem outcome_ofGraph {g : Graph} {id : String} (hentry : g.prune.entry = some id)
    {canvasWidth : Option α} {config : Config α} {chart : Chart α}
    (hchart : Chart.ofGraph g.prune.graph canvasWidth config = .ok chart) :
    (ofGraph g canvasWidth config).outcome =
      .ok ⟨.loaded, g.prune.graph, chart, g.prune.removed, none⟩ := by
  have hprune : g.pruneLogged.outcome = .ok g.prune := rfl
  have hdraw : (Chart.draw g.prune.graph canvasWidth config).outcome = .ok chart := by
    unfold Chart.draw
    rw [hchart]
    rfl
  unfold ofGraph
  rw [Logged.outcome_bind, hprune]
  simp only [bind, Except.bind]
  rw [hentry]
  show (Chart.draw g.prune.graph canvasWidth config >>= _).outcome = _
  rw [Logged.outcome_bind, hdraw]
  rfl

/-- The build of a consistent graph with an entry holds its reachable part. -/
theorem succeeds_ofGraph {g : Graph} (hg : g.IsConsistent) {entry : Block}
    (hentry : g.entry? = some entry) (canvasWidth : Option α) (config : Config α) :
    Succeeds (ofGraph g canvasWidth config).outcome (Holds · g) := by
  have hpart := Graph.isReachablePart_prune hg hentry
  obtain ⟨id, hid⟩ := Option.isSome_iff_exists.mp hpart.entry.1
  obtain ⟨entry', hentry'⟩ := Option.isSome_iff_exists.mp hpart.entry.2
  obtain ⟨chart, hchart, steps, offsets, hdrawn⟩ :=
    Chart.succeeds_ofGraph hentry' canvasWidth config
  have hlevels : chart.levels = steps.leveling.levels := hdrawn.readOff.levels
  refine ⟨⟨.loaded, g.prune.graph, chart, g.prune.removed, none⟩, outcome_ofGraph hid hchart, ?_⟩
  exact {
    loaded := rfl
    boxes := hdrawn.readOff.boxes
    levels := by
      rw [hlevels]
      exact hdrawn.sound.levels
    perm_ids := hpart.perm_ids
    mem_ids := hpart.mem_ids
    instructions := hpart.instructions
    routes := hdrawn.map_edge hpart.ends }

/-- The build of no instructions holds nothing and is done. -/
private theorem holds_empty : (empty .loaded : Build α).Holds .empty where
  loaded := rfl
  boxes := ⟨Table.hasDistinctKeys_empty, fun _ ↦ Iff.rfl⟩
  levels := ⟨Table.hasDistinctKeys_empty, fun _ ↦ Iff.rfl⟩
  perm_ids := .refl _
  mem_ids id := by simp [empty, Graph.empty, Graph.ids]
  instructions := ⟨fun _ ↦ true, by simp [Graph.empty], rfl⟩
  routes := rfl

/-! ### Texts -/

/-- A text is an array of instruction records, and the instruction set is registered unless the
array is empty. -/
def Accepts (registry : Registry) (name text : String) : Prop :=
  ∃ items, Json.read text = .ok (.array items) ∧ (∀ item ∈ items, item.IsInstruction) ∧
    (items = [] ∨ ∃ c, registry.get? (Text.lower name) = some c)

private theorem accepts_iff {registry : Registry} {name text : String} :
    Accepts registry name text ↔ ∃ listing, Instruction.readAll text = .ok listing ∧
      (listing = [] ∨ ∃ c, registry.get? (Text.lower name) = some c) := by
  have hnil : ∀ {items listing}, items.mapM Instruction.ofRecord = .ok listing →
      (items = [] ↔ listing = []) := by
    intro items listing h
    have hlength := (forall₂_of_mapM_eq_ok h).length_eq
    rw [← List.length_eq_zero_iff, ← List.length_eq_zero_iff, hlength]
  constructor
  · rintro ⟨items, hread, hitems, hknown⟩
    obtain ⟨listing, hlisting⟩ := Instruction.exists_mapM_ofRecord_iff.mpr hitems
    refine ⟨listing, Instruction.readAll_eq_ok_iff.mpr ⟨items, hread, hlisting⟩, ?_⟩
    exact hknown.imp_left (hnil hlisting).mp
  · rintro ⟨listing, hall, hknown⟩
    obtain ⟨items, hread, hlisting⟩ := Instruction.readAll_eq_ok_iff.mp hall
    refine ⟨items, hread, Instruction.exists_mapM_ofRecord_iff.mp ⟨listing, hlisting⟩, ?_⟩
    exact hknown.imp_left (hnil hlisting).mpr

private theorem succeeds_settle_of_rejected {warning : String → Warning}
    {build : Logged (Build α)} {reason : Rejection}
    (h : build.outcome = .error (.rejected reason)) :
    Succeeds (settle warning build).outcome IsRejected := by
  unfold settle
  rw [h]
  exact .ok ⟨rfl, rfl, rfl, rfl, rfl, rfl⟩

section

variable {architecture : Architecture} {registry : Registry} {canvasWidth : Option α}
  {config : Config α} {listing : List Instruction}

/-- The build of a listing that is split is that of its graph. -/
theorem outcome_ofListing {g : Graph} (hsplit : Listing.splitFor architecture registry listing = .ok g)
    {b : Build α} (h : (ofGraph g canvasWidth config).outcome = .ok b) :
    (ofListing architecture registry canvasWidth config listing).outcome = .ok b := by
  have hbuild : (Graph.ofListing architecture registry listing >>= fun g ↦
      ofGraph g canvasWidth config).outcome = .ok b := by
    unfold Graph.ofListing
    rw [hsplit, Logged.outcome_bind]
    exact h
  unfold ofListing
  rw [settle_of_ok hbuild]
  exact hbuild

/-- The build of a listing for an instruction set that is not known has failed. -/
theorem outcome_ofListing_of_unknown {unknown : String}
    (hsplit : Listing.splitFor architecture registry listing = .error unknown) :
    (ofListing architecture registry canvasWidth config listing).outcome =
      .ok { (empty .failed : Build α) with
        error := some (Rejection.unknownArchitecture unknown).message } := by
  unfold ofListing Graph.ofListing
  rw [hsplit]
  rfl

end

variable (registry : Registry) (name : String) (canvasWidth : Option α) (config : Config α)

private theorem succeeds_ofListing {listing : List Instruction} {g : Graph}
    (hsplit : Listing.splitFor (.named name) registry listing = .ok g) :
    Succeeds (ofListing (.named name) registry canvasWidth config listing).outcome (Holds · g) := by
  have hgraph : Succeeds (ofGraph g canvasWidth config).outcome (Holds · g) := by
    unfold Listing.splitFor at hsplit
    split at hsplit
    · cases hsplit
      exact .ok holds_empty
    · next hne =>
      rw [List.isEmpty_iff] at hne
      cases hresolve : Architecture.resolve registry (.named name) with
      | error unknown => simp [hresolve, Except.map] at hsplit
      | ok c =>
        rw [hresolve] at hsplit
        cases hsplit
        obtain ⟨entry, hentry⟩ := Option.isSome_iff_exists.mp (Listing.isSome_entry?_split hne)
        exact succeeds_ofGraph (Listing.isConsistent_split c listing) hentry canvasWidth config
  obtain ⟨b, hb, hholds⟩ := hgraph
  exact ⟨b, outcome_ofListing hsplit hb, hholds⟩

private theorem succeeds_ofListing_of_unknown {listing : List Instruction}
    (h : ¬ ∃ g, Listing.splitFor (.named name) registry listing = .ok g) :
    Succeeds (ofListing (.named name) registry canvasWidth config listing).outcome IsRejected := by
  cases hsplit : Listing.splitFor (.named name) registry listing with
  | ok g => exact absurd ⟨g, hsplit⟩ h
  | error unknown =>
    rw [outcome_ofListing_of_unknown hsplit]
    exact .ok ⟨rfl, rfl, rfl, rfl, rfl, rfl⟩

/-- What a build of a text amounts to. -/
structure Answers (b : Build α) (registry : Registry) (name text : String) : Prop where
  /-- What is not accepted is rejected. -/
  rejected : ¬ Accepts registry name text → b.IsRejected
  /-- What is accepted is split into blocks, and the build holds the reachable part: its
  instructions are those of the listing that lie in reachable blocks, in order. -/
  accepted : Accepts registry name text → ∃ listing g,
    Instruction.readAll text = .ok listing ∧
      Listing.splitFor (.named name) registry listing = .ok g ∧
        g.ids.Nodup ∧ g.instructions = listing ∧ b.Holds g ∧
          b.graph.instructions.Sublist listing

omit [Scalar α] in
private theorem Holds.sublist {b : Build α} {g : Graph} (h : b.Holds g) :
    b.graph.instructions.Sublist g.instructions := by
  obtain ⟨keep, -, hkeep⟩ := h.instructions
  rw [hkeep, Graph.instructions]
  exact List.filter_sublist.flatMap _

/-- A text that the reader of JSON gets through is built without fault, whatever it holds and
whatever instruction set is named. -/
theorem exists_ofText_answers (text : String)
    (hread : ∀ fault, Json.read text ≠ .error (.broken fault)) :
    ∃ b, (ofText (.named name) registry canvasWidth config text).outcome = .ok b ∧
      b.Answers registry name text := by
  show Succeeds _ _
  unfold ofText
  cases hall : Instruction.readAll text with
  | error failure =>
    have hnot : ¬ Accepts registry name text := by
      rw [accepts_iff, hall]
      simp
    cases failure with
    | rejected reason =>
      exact (succeeds_settle_of_rejected rfl).imp fun b hb ↦ ⟨fun _ ↦ hb, fun h ↦ absurd h hnot⟩
    | broken fault => exact absurd (Instruction.read_eq_broken hall) (hread fault)
  | ok listing =>
    have hsplits : Accepts registry name text ↔
        ∃ g, Listing.splitFor (.named name) registry listing = .ok g := by
      rw [accepts_iff, hall, Listing.exists_splitFor_eq_ok_iff]
      simp
    by_cases haccepts : Accepts registry name text
    · obtain ⟨g, hg⟩ := hsplits.mp haccepts
      obtain ⟨hnodup, hinstructions⟩ := Listing.nodup_and_instructions_of_splitFor hg
      apply (succeeds_ofListing registry name canvasWidth config hg).imp
      intro b hb
      exact ⟨fun h ↦ absurd haccepts h, fun _ ↦
        ⟨listing, g, hall, hg, hnodup, hinstructions, hb, hinstructions ▸ hb.sublist⟩⟩
    · apply (succeeds_ofListing_of_unknown registry name canvasWidth config
        (mt hsplits.mpr haccepts)).imp
      intro b hb
      exact ⟨fun _ ↦ hb, fun h ↦ absurd h haccepts⟩

/-- A return is built so. -/
theorem exists_ofText_answers_return :
    let text := "[\x7b\"address\": \"0x0\", \"opcode\": \"ret\"\x7d]"
    (∀ fault, Json.read text ≠ .error (.broken fault)) ∧
      ∃ b, (ofText (.named "auto") .builtin none (Config.standard : Config Rat) text).outcome =
        .ok b ∧ b.Answers .builtin "auto" text := by
  have hread : Json.read "[\x7b\"address\": \"0x0\", \"opcode\": \"ret\"\x7d]" =
      .ok (.array [.object [("address", .text "0x0"), ("opcode", .text "ret")]]) := by cbv
  have hsound : ∀ fault, Json.read "[\x7b\"address\": \"0x0\", \"opcode\": \"ret\"\x7d]" ≠
      .error (.broken fault) := by
    intro fault
    rw [hread]
    simp
  exact ⟨hsound, exists_ofText_answers .builtin "auto" none .standard _ hsound⟩

end Build

end FlowChart
