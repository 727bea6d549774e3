import FlowChart.Proofs.Layout.Separation
import FlowChart.Proofs.Namesakes
import FlowChart.Proofs.View.Fitting

/-!
# Minimaps of builds

However a build ends, it has a minimap: no box of a chart has a negative size, and a build that
holds nothing has no boxes at all.
-/

namespace FlowChart

namespace Build

/-- A build that is not begun yet, or that some request ended with. -/
inductive IsBuilt (config : Config Rat) : Build Rat → Prop where
  /-- Nothing is built yet. -/
  | initial : IsBuilt config .initial
  /-- A listing was built. -/
  | ofListing {architecture : Architecture} {registry : Registry} {canvasWidth : Option Rat}
      {listing : List Instruction} {b : Build Rat}
      (h : (ofListing architecture registry canvasWidth config listing).outcome = .ok b) :
      IsBuilt config b
  /-- A text was built. -/
  | ofText {architecture : Architecture} {registry : Registry} {canvasWidth : Option Rat}
      {text : String} {b : Build Rat}
      (h : (ofText architecture registry canvasWidth config text).outcome = .ok b) :
      IsBuilt config b
  /-- A graph from outside was built. -/
  | ofRecords {blocks edges : Json} {canvasWidth : Option Rat} {b : Build Rat}
      (h : (ofRecords blocks edges canvasWidth config).outcome = .ok b) :
      IsBuilt config b

/-- The boxes of a build have no negative sizes. -/
def HasSizedBoxes (b : Build Rat) : Prop := ∀ box ∈ b.chart.boxes.values, box.IsSized

variable {config : Config Rat} {b : Build Rat}

private theorem hasSizedBoxes_of_eq_empty (h : b.chart.boxes = .empty) : b.HasSizedBoxes := by
  intro box hbox
  rw [h] at hbox
  cases hbox

/-- Boxes have the width of the settings and the height of their blocks. -/
private theorem hasSizedBoxes_of_drawn (hc : config.HasSizes) {steps : PlacementSteps Rat}
    {offsets : List Rat × List Rat} (h : b.chart.Drawn b.graph config steps offsets) :
    b.HasSizedBoxes := by
  intro box hbox
  have hgives := h.readOff.gives (h.readOff.get?_id hbox)
  refine ⟨?_, h.sound.height_nonneg hc hgives.height⟩
  rw [h.sound.eq_width hgives.width]
  exact hc.blockWidth

/-- A build of a graph that ends has no boxes of negative size. -/
private theorem ends_ofGraph_hasSizedBoxes (hc : config.HasSizes) (g : Graph)
    (canvasWidth : Option Rat) :
    (ofGraph g canvasWidth config).Ends HasSizedBoxes True True := by
  have hends : (ofGraph g canvasWidth config).Ends _ True True :=
    (ends_ofGraph g canvasWidth config).weaken (fun _ ↦ trivial) False.elim
  apply hends.outcome.imp
  rintro b ⟨hb, hloads, -⟩
  cases hentry : g.entry? with
  | some entry =>
    obtain ⟨_, hb', -, steps, offsets, hdrawn⟩ := exists_drawn hentry canvasWidth config
    cases hb.symm.trans hb'
    exact hasSizedBoxes_of_drawn hc hdrawn
  | none =>
    -- Without an entry nothing is kept, and boxes are those of kept blocks.
    intro box hbox
    obtain ⟨id, hid⟩ := hloads.boxes.distinct.mem_values_iff.mp hbox
    have hmem := (hloads.boxes.mem_keys id).mp (Table.mem_keys_iff.mpr ⟨box, hid⟩)
    rw [hloads.graph, Graph.prune, hentry] at hmem
    cases hmem

private theorem hasSizedBoxes_of_settle {warning : String → Warning} {build : Logged (Build Rat)}
    (h : build.Ends HasSizedBoxes True True) (hb : (settle warning build).outcome = .ok b) :
    b.HasSizedBoxes := by
  rcases (ends_settle h warning).of_outcome hb with hsized | ⟨-, hrejected, -⟩
  · exact hsized
  · exact hasSizedBoxes_of_eq_empty hrejected.boxes

private theorem hasSizedBoxes_of_graph (hc : config.HasSizes) {warning : String → Warning}
    {canvasWidth : Option Rat} {graph : Logged Graph}
    (hb : (settle warning (graph >>= fun g ↦ ofGraph g canvasWidth config)).outcome = .ok b) :
    b.HasSizedBoxes := by
  apply hasSizedBoxes_of_settle _ hb
  exact (Logged.Ends.trivial graph).bind fun g _ ↦ ends_ofGraph_hasSizedBoxes hc g canvasWidth

/-- No build has boxes of negative size. -/
theorem IsBuilt.hasSizedBoxes (h : b.IsBuilt config) (hc : config.HasSizes) : b.HasSizedBoxes := by
  cases h with
  | initial => exact hasSizedBoxes_of_eq_empty rfl
  | ofListing hb => exact hasSizedBoxes_of_graph hc hb
  | ofRecords hb => exact hasSizedBoxes_of_graph hc hb
  | ofText hb =>
    unfold Build.ofText at hb
    split at hb
    · exact hasSizedBoxes_of_graph hc hb
    · next failure _ =>
      have hfails : (Logged.fail failure : Logged (Build Rat)).Ends HasSizedBoxes True True := by
        cases failure with
        | rejected reason => exact .reject trivial
        | broken fault => exact .broken trivial
      exact hasSizedBoxes_of_settle hfails hb

end Build

namespace Minimap

/-- Boxes without negative sizes have a minimap with all settings that give it a size and some space:
it fits its panel, and every box is shown inside. So whether a build is not begun, rejected or done,
it has a minimap with the settings that are used unless others are given; all that matters is that
it was built with sizes that are not negative, as those are. -/
theorem exists_fit_isFit :
    (∀ (boxes : List (Box Rat)) (config : Config Rat), (∀ b ∈ boxes, b.IsSized) →
      config.HasPanel → ∃ m, fit boxes config = .ok m ∧ m.IsFit boxes config ∧
        ∀ b ∈ boxes, (m.boxRect b).LiesIn m.panelWidth m.panelHeight) ∧
    ∀ (config : Config Rat) (b : Build Rat), config.HasSizes → b.IsBuilt config →
      ∃ m, b.minimap .standard = .ok m ∧ m.IsFit b.chart.boxes.values .standard := by
  constructor
  · intro boxes config hboxes hconfig
    obtain ⟨m, hm, hfit⟩ := succeeds_fit hconfig hboxes
    exact ⟨m, hm, hfit, fun b ↦ hfit.liesIn_boxRect hconfig⟩
  · intro config b hc hb
    exact succeeds_fit Config.hasPanel_standard (hb.hasSizedBoxes hc)

/-- Two boxes below each other have a minimap, and with the settings that are used unless others are
given so has a build before it is begun, that of a block which is entered and that of a block which
is not. -/
theorem exists_fit_isFit_of_two :
    let boxes : List (Box Rat) := [⟨"a", 50, 50, 380, 26, 0⟩, ⟨"b", 50, 176, 380, 42, 1⟩]
    let blocks (isEntry : Bool) : Json :=
      .array [.object [("id", .text "a"), ("isEntry", .bool isEntry)]]
    (∃ m, fit boxes .standard = .ok m ∧ m.IsFit boxes .standard ∧
      ∀ b ∈ boxes, (m.boxRect b).LiesIn m.panelWidth m.panelHeight) ∧
    ∃ done rejected : Build Rat,
      (Build.ofRecords (blocks true) (.array []) none .standard).outcome = .ok done ∧
      done.status = .loaded ∧
      (Build.ofRecords (blocks false) (.array []) none .standard).outcome = .ok rejected ∧
      rejected.status = .failed ∧
      ∀ b ∈ [.initial, done, rejected],
        ∃ m, b.minimap .standard = .ok m ∧ m.IsFit b.chart.boxes.values .standard := by
  intro boxes blocks
  have hboxes : ∀ b ∈ boxes, b.IsSized := by
    intro b hb
    rcases List.mem_pair.mp hb with rfl | rfl <;> constructor <;> norm_num
  obtain ⟨done, hdone, loaded⟩ : ∃ b : Build Rat,
      (Build.ofRecords (blocks true) (.array []) none .standard).outcome = .ok b ∧
        b.status = .loaded := ⟨_, rfl, rfl⟩
  obtain ⟨rejected, hrejected, failed⟩ : ∃ b : Build Rat,
      (Build.ofRecords (blocks false) (.array []) none .standard).outcome = .ok b ∧
        b.status = .failed := ⟨_, rfl, rfl⟩
  refine ⟨exists_fit_isFit.1 boxes .standard hboxes Config.hasPanel_standard,
    done, rejected, hdone, loaded, hrejected, failed, fun b hb ↦ ?_⟩
  apply exists_fit_isFit.2 .standard b Config.hasSizes_standard
  rcases List.mem_cons.mp hb with rfl | hb
  · exact .initial
  · rcases List.mem_pair.mp hb with rfl | rfl
    · exact .ofRecords hdone
    · exact .ofRecords hrejected

end Minimap

end FlowChart
