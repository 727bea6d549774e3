import FlowChart.Proofs.Builds
import FlowChart.Proofs.Graph.Records

/-!
# Builds of graphs from outside

The records of a graph from outside can hold any value under any name. What cannot be decoded is
rejected, and so is a graph that has blocks but no entry; all else is built, and no look-up,
extremum or division on the way can fault. One kind of record is neither rejected nor built: a
block whose instructions or successors are listed under a value that has no members ends the build
with a fault.
-/

namespace FlowChart

/-! ### Records -/

namespace Json

end Json

namespace Graph

namespace Import

end Import

open Import

variable {blocks edges : List Json}

end Graph

namespace Build

variable {α : Type} [Scalar α]

/-- A build of a graph that holds its reachable part. -/
structure Loads (b : Build α) (g : Graph) : Prop where
  /-- The build is done. -/
  loaded : b.status = .loaded
  /-- Nothing went wrong. -/
  error : b.error = none
  /-- The graph is what is left after pruning. -/
  graph : b.graph = g.prune.graph
  /-- All else was dropped. -/
  removed : b.removed = g.prune.removed
  /-- The blocks have boxes, and nothing else has. -/
  boxes : b.chart.boxes.Covers b.graph
  /-- The blocks have levels, and nothing else has. -/
  levels : b.chart.levels.Covers b.graph

/-- The build of a graph that is entered holds its reachable part. -/
private theorem loads_of_drawn {g : Graph} {config : Config α} {steps : PlacementSteps α}
    {offsets : List α × List α} {chart : Chart α}
    (h : chart.Drawn g.prune.graph config steps offsets) :
    Loads ⟨.loaded, g.prune.graph, chart, g.prune.removed, none⟩ g where
  loaded := rfl
  error := rfl
  graph := rfl
  removed := rfl
  boxes := h.readOff.boxes
  levels := by
    have hlevels : chart.levels = steps.leveling.levels := h.readOff.levels
    rw [hlevels]
    exact h.sound.levels

/-- A build that holds nothing holds all of a graph without blocks. -/
private theorem loads_empty {g : Graph} (h : g.blocks = []) (hentry : g.entry? = none) :
    (empty .loaded : Build α).Loads g where
  loaded := rfl
  error := rfl
  graph := by
    rw [Graph.prune, hentry]
    rfl
  removed := by
    rw [Graph.prune, hentry, Graph.ids, h]
    rfl
  boxes := ⟨Table.hasDistinctKeys_empty, fun _ ↦ Iff.rfl⟩
  levels := ⟨Table.hasDistinctKeys_empty, fun _ ↦ Iff.rfl⟩

/-- The build of a graph holds its reachable part, or the graph has blocks but no entry. -/
theorem ends_ofGraph (g : Graph) (canvasWidth : Option α) (config : Config α) :
    (ofGraph g canvasWidth config).Ends
      (fun b ↦ b.Loads g ∧ (g.blocks = [] ∨ g.entry?.isSome))
      (¬ (g.blocks = [] ∨ g.entry?.isSome)) False := by
  cases hentry : g.entry? with
  | some entry =>
    obtain ⟨hid, hsome⟩ := Graph.isSome_entry?_prune hentry
    obtain ⟨entry', hentry'⟩ := Option.isSome_iff_exists.mp hsome
    obtain ⟨chart, hchart, steps, offsets, hdrawn⟩ :=
      Chart.succeeds_ofGraph hentry' canvasWidth config
    unfold Logged.Ends
    rw [outcome_ofGraph hid hchart]
    exact ⟨loads_of_drawn hdrawn, .inr rfl⟩
  | none =>
    have hid : g.prune.entry = none := by rw [Graph.prune, hentry]
    have hpruned : g.pruneLogged.Ends (· = g.prune)
        (¬ (g.blocks = [] ∨ (none : Option Block).isSome)) False := rfl
    apply hpruned.bind
    rintro pruned rfl
    rw [hid]
    dsimp only
    split
    · next hempty =>
      have hblocks := List.isEmpty_iff.mp hempty
      exact Logged.Ends.pure ⟨loads_empty hblocks hentry, .inl hblocks⟩
    · next hempty =>
      have hblocks : g.blocks ≠ [] := mt List.isEmpty_iff.mpr hempty
      apply Logged.Ends.reject
      simp [hblocks]

/-- A build that is settled is not rejected any more: it holds nothing and says why. -/
theorem ends_settle {build : Logged (Build α)} {p : Build α → Prop} {rejects faults : Prop}
    (h : build.Ends p rejects faults) (warning : String → Warning) :
    (settle warning build).Ends
      (fun b ↦ p b ∨ rejects ∧ b.IsRejected ∧ b.error.isSome) False faults := by
  unfold Logged.Ends at h
  unfold settle
  split
  · next reason hreason =>
    rw [hreason] at h
    exact .inr ⟨h, ⟨rfl, rfl, rfl, rfl, rfl, rfl⟩, rfl⟩
  · next hother =>
    unfold Logged.Ends
    cases hbuild : build.outcome with
    | ok b =>
      rw [hbuild] at h
      exact .inl h
    | error failure =>
      cases failure with
      | rejected reason => exact absurd hbuild (hother reason)
      | broken fault =>
        rw [hbuild] at h
        exact h

open Graph.Import

variable {blocks edges : List Json}

end Build

end FlowChart
