import FlowChart.Proofs.Imports

/-!
# Blocks that share an id

Placing keeps what it knows of a block under the id of the block. The records of a graph from
outside may have one id twice, and nothing rejects them. Then the blocks with this id share one box,
which has the height of the last of them. So a build lays out each block as itself exactly if no two
of its blocks have one id, and it does so whenever the ids of the records differ.
-/

namespace FlowChart

namespace Graph

/-- With different ids, every block is the one that its id means. -/
theorem block?_id {g : Graph} (nodup : g.ids.Nodup) {b : Block} (hb : b ∈ g.blocks) :
    g.block? b.id = some b := by
  have hsome : (g.block? b.id).isSome := by
    rw [isSome_block?, contains_iff]
    exact List.mem_map_of_mem hb
  obtain ⟨b', hb'⟩ := Option.isSome_iff_exists.mp hsome
  obtain ⟨hmem, hid⟩ := mem_and_id_of_block? hb'
  rw [hb', List.inj_on_of_nodup_map nodup hmem hb hid]

/-- Pruning leaves some of the ids, in order. -/
theorem sublist_ids_prune (g : Graph) : g.prune.graph.ids.Sublist g.ids := by
  cases hentry : g.entry? with
  | none =>
    rw [prune, hentry]
    exact List.nil_sublist _
  | some entry =>
    obtain ⟨kept, hkeeps⟩ := exists_keeps_prune hentry
    rw [hkeeps.ids]
    exact List.filter_sublist

end Graph

namespace Build

variable {α : Type} [Scalar α] {config : Config α} {canvasWidth : Option α} {b : Build α}
  {g : Graph}

/-! ### Boxes -/

/-- A block is laid out as itself: under its id stands a box of its height. -/
def LaysOutBlock (b : Build α) (config : Config α) (block : Block) : Prop :=
  ∃ box, b.chart.boxes.get? block.id = some box ∧ box.id = block.id ∧
    box.height = config.blockHeight block.instructions.length

/-- All blocks are laid out as themselves, and nothing else is. -/
structure LaysOut (b : Build α) (config : Config α) : Prop where
  /-- There are as many boxes as blocks. -/
  count : b.chart.boxes.entries.length = b.graph.blocks.length
  /-- Each block is laid out as itself. -/
  block : ∀ block ∈ b.graph.blocks, b.LaysOutBlock config block

/-- Every box is read off for the block that its id means. -/
private theorem laysOutBlock_of_drawn {steps : PlacementSteps α} {offsets : List α × List α}
    (h : b.chart.Drawn b.graph config steps offsets) {id : String} {block : Block}
    (hblock : b.graph.block? id = some block) : b.LaysOutBlock config block := by
  obtain ⟨hmem, rfl⟩ := Graph.mem_and_id_of_block? hblock
  obtain ⟨box, hbox⟩ := h.readOff.boxes.exists_get? (List.mem_map_of_mem hmem)
  have hgives := h.readOff.gives hbox
  have hheight := hgives.height
  rw [h.sound.heights, Graph.get?_blockHeights, hblock] at hheight
  exact ⟨box, hbox, hgives.named, (Option.some.inj hheight).symm⟩

/-- The build of a graph that is entered is done and holds a chart that is drawn. -/
theorem exists_drawn {entry : Block} (hentry : g.entry? = some entry)
    (canvasWidth : Option α) (config : Config α) :
    ∃ b, (ofGraph g canvasWidth config).outcome = .ok b ∧ b.status = .loaded ∧
      ∃ steps offsets, b.chart.Drawn b.graph config steps offsets := by
  obtain ⟨hid, hsome⟩ := Graph.isSome_entry?_prune hentry
  obtain ⟨entry', hentry'⟩ := Option.isSome_iff_exists.mp hsome
  obtain ⟨chart, hchart, hdrawn⟩ := Chart.succeeds_ofGraph hentry' canvasWidth config
  rw [outcome_ofGraph hid hchart]
  exact ⟨_, rfl, rfl, hdrawn⟩

/-- The build of a graph lays out each block that an id means. -/
private theorem laysOutBlock_of_block? (h : (ofGraph g canvasWidth config).outcome = .ok b)
    {id : String} {block : Block} (hblock : b.graph.block? id = some block) :
    b.LaysOutBlock config block := by
  cases hentry : g.entry? with
  | some entry =>
    obtain ⟨_, hb, -, steps, offsets, hdrawn⟩ := exists_drawn hentry canvasWidth config
    cases h.symm.trans hb
    exact laysOutBlock_of_drawn hdrawn hblock
  | none =>
    have hloads := ((ends_ofGraph g canvasWidth config).of_outcome h).1
    rw [hloads.graph, Graph.prune, hentry] at hblock
    cases hblock

/-- If ids have boxes, and each block that an id means is laid out, all are exactly if no two of
them have one id. -/
private theorem laysOut_iff (hboxes : b.chart.boxes.Covers b.graph)
    (hblock : ∀ id block, b.graph.block? id = some block → b.LaysOutBlock config block) :
    b.LaysOut config ↔ b.graph.ids.Nodup := by
  have hlength : b.chart.boxes.keys.length = b.chart.boxes.entries.length := List.length_map _
  have hids : b.graph.ids.length = b.graph.blocks.length := List.length_map _
  constructor
  · intro h
    have hsub : b.chart.boxes.keys.Subperm b.graph.ids :=
      hboxes.distinct.subperm fun id ↦ (hboxes.mem_keys id).mp
    have hperm := hsub.perm_of_length_le (by rw [hlength, hids, h.count])
    exact hperm.nodup_iff.mp hboxes.distinct
  · intro nodup
    have hperm := (List.perm_ext_iff_of_nodup hboxes.distinct nodup).mpr hboxes.mem_keys
    refine ⟨by rw [← hlength, ← hids, hperm.length_eq], fun block hmem ↦ ?_⟩
    exact hblock _ block (Graph.block?_id nodup hmem)

/-! ### Graphs from outside -/

variable {blocks edges : Json}

/-- A build of records that is done is that of their graph. -/
theorem exists_ofGraph_of_loaded
    (built : (ofRecords blocks edges canvasWidth config).outcome = .ok b)
    (loaded : b.status = .loaded) :
    ∃ g, (Graph.ofRecords blocks edges).outcome = .ok g ∧
      (ofGraph g canvasWidth config).outcome = .ok b := by
  unfold ofRecords settle at built
  split at built
  · cases built
    cases loaded
  · rw [Logged.outcome_bind] at built
    exact exists_of_bind_eq_ok built

/-- The build of records is done, if their graph is entered. -/
theorem exists_loaded_of_entry? (hg : (Graph.ofRecords blocks edges).outcome = .ok g)
    {entry : Block} (hentry : g.entry? = some entry) (canvasWidth : Option α) (config : Config α) :
    ∃ b, (ofRecords blocks edges canvasWidth config).outcome = .ok b ∧ b.status = .loaded := by
  obtain ⟨b, hb, loaded, -⟩ := exists_drawn hentry canvasWidth config
  have hbuild : (Graph.ofRecords blocks edges >>= fun g ↦ ofGraph g canvasWidth config).outcome =
      .ok b := by
    rw [Logged.outcome_bind, hg]
    exact hb
  rw [ofRecords, settle_of_ok hbuild]
  exact ⟨b, hbuild, loaded⟩

/-- A build of records that is done lays out every block that an id means. It lays out all of its
blocks as themselves exactly if no two of them have one id, and so it does whenever the ids of the
records differ as texts. -/
theorem laysOut_iff_nodup (built : (ofRecords blocks edges canvasWidth config).outcome = .ok b)
    (loaded : b.status = .loaded) :
    (b.LaysOut config ↔ b.graph.ids.Nodup) ∧
      (∀ id block, b.graph.block? id = some block → b.LaysOutBlock config block) ∧
      ∀ records, blocks.members? = some records →
        (records.map fun record ↦ (record.field? "id").map Json.display).Nodup →
          b.LaysOut config := by
  obtain ⟨g, hg, hb⟩ := exists_ofGraph_of_loaded built loaded
  have hloads := ((ends_ofGraph g canvasWidth config).of_outcome hb).1
  have hblock : ∀ id block, b.graph.block? id = some block → b.LaysOutBlock config block :=
    fun _ _ ↦ laysOutBlock_of_block? hb
  have hiff := laysOut_iff hloads.boxes hblock
  refine ⟨hiff, hblock, fun records hrecords nodup ↦ hiff.mpr ?_⟩
  obtain ⟨records', _, hrecords', -, hread, -⟩ := (Graph.reads_ofRecords _ _).of_outcome hg
  cases hrecords.symm.trans hrecords'
  rw [hread.map_id] at nodup
  rw [hloads.graph]
  exact (nodup.of_map some).sublist g.sublist_ids_prune

/-- A block with an instruction leads to one without any, and a third one is not reached. -/
theorem laysOut_iff_nodup_of_two :
    let nop : Json := .object [("address", .text "0x0"), ("opcode", .text "nop")]
    let blocks : Json := .array [
      .object [("id", .text "a"), ("isEntry", .bool true), ("instructions", .array [nop])],
      .object [("id", .text "b")], .object [("id", .text "c")]]
    let edges : Json := .array [.object [("from", .text "a"), ("to", .text "b")]]
    ∃ b : Build Rat, (ofRecords blocks edges none .standard).outcome = .ok b ∧
      b.status = .loaded ∧
      (b.LaysOut .standard ↔ b.graph.ids.Nodup) ∧
      (∀ id block, b.graph.block? id = some block → b.LaysOutBlock .standard block) ∧
      ∀ records, blocks.members? = some records →
        (records.map fun record ↦ (record.field? "id").map Json.display).Nodup →
          b.LaysOut .standard := by
  intro nop blocks edges
  obtain ⟨g, hg, entry, hentry⟩ : ∃ g, (Graph.ofRecords blocks edges).outcome = .ok g ∧
      ∃ entry, g.entry? = some entry := ⟨_, rfl, _, rfl⟩
  obtain ⟨b, built, loaded⟩ := exists_loaded_of_entry? hg hentry none (.standard : Config Rat)
  exact ⟨b, built, loaded, laysOut_iff_nodup built loaded⟩

/-- Two blocks that share an id share one box, and one of them is not laid out as itself. -/
theorem exists_loaded_not_laysOut :
    let nop : Json := .object [("address", .text "0x0"), ("opcode", .text "nop")]
    let blocks : Json := .array [.object [("id", .text "a"), ("isEntry", .bool true)],
      .object [("id", .text "a"), ("instructions", .array [nop])]]
    ∃ b : Build Rat, (ofRecords blocks (.array []) none .standard).outcome = .ok b ∧
      b.status = .loaded ∧ b.graph.blocks.length = 2 ∧ b.chart.boxes.entries.length = 1 ∧
        ¬ b.LaysOut .standard := by
  refine ⟨_, rfl, rfl, rfl, rfl, fun h ↦ ?_⟩
  have hcount : 1 = 2 := h.count
  omega

end Build

end FlowChart
