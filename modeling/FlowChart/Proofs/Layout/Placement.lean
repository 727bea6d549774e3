import FlowChart.Layout.Placement
import FlowChart.Proofs.Layout.Ownership
import FlowChart.Proofs.Layout.Rows

/-!
# Placing succeeds

Every graph with an entry is placed, in any arithmetic. Its boxes are read off from the steps of the
arrangement, and what the steps have achieved is one statement that later results start from.
-/

namespace FlowChart

variable {α : Type} {g : Graph} {config : Config α}

namespace Graph

private theorem covers_ofList {β : Type} (f : Block → β) :
    (Table.ofList (g.blocks.map fun b ↦ (b.id, f b))).Covers g where
  distinct := Table.hasDistinctKeys_ofList _
  mem_keys id := by
    rw [Table.mem_keys_ofList, List.map_map]
    rfl

/-- Every block has a width. -/
theorem covers_blockWidths : (g.blockWidths config).Covers g := covers_ofList _

/-- All blocks have the same width. -/
theorem eq_of_get?_blockWidths {id : String} {w : α} (h : (g.blockWidths config).get? id = some w) :
    w = config.blockWidth := by
  obtain ⟨b, _, hb⟩ := List.mem_map.mp (Table.get?_ofList_eq_some h)
  cases hb
  rfl

variable [Scalar α]

/-- Every block has a height. -/
theorem covers_blockHeights : (g.blockHeights config).Covers g := covers_ofList _

/-- The height under an id is that of the block that the id means. -/
theorem get?_blockHeights (g : Graph) (config : Config α) (id : String) :
    (g.blockHeights config).get? id =
      (g.block? id).map fun b ↦ config.blockHeight b.instructions.length := by
  rw [blockHeights, Table.get?_ofList, List.filter_map, List.getLast?_map, Option.map_map]
  rfl

/-- The height of a block is that of some number of instructions. -/
theorem exists_of_get?_blockHeights {id : String} {height : α}
    (h : (g.blockHeights config).get? id = some height) :
    ∃ count : Nat, height = config.blockHeight count := by
  rw [get?_blockHeights] at h
  obtain ⟨b, -, rfl⟩ := Option.map_eq_some_iff.mp h
  exact ⟨b.instructions.length, rfl⟩

end Graph

variable [Scalar α]

/-- What the steps of a placement have achieved. -/
structure PlacementSteps.Sound (g : Graph) (config : Config α) (steps : PlacementSteps α) :
    Prop where
  /-- Widths are those of the blocks. -/
  widths : steps.widths = g.blockWidths config
  /-- Heights are those of the blocks. -/
  heights : steps.heights = g.blockHeights config
  /-- Every block has a level. -/
  levels : steps.leveling.levels.Covers g
  /-- The rows hold the blocks by level. -/
  rows : steps.rows.Partition steps.leveling.levels
  /-- Every block has a place. -/
  xs : steps.xs.Covers g
  /-- A row is pushed apart and then moved as a whole. -/
  arranged : ∀ ids ∈ steps.rows.values,
    (∃ row : List String, row.Perm ids ∧
      row.IsChain (Row.Pushed steps.widths config.hGap steps.separatedXs)) ∧
    Row.Shifted ids steps.separatedXs steps.xs
  /-- Every row has a top. -/
  tops : Row.tops steps.rows steps.heights config.topMargin config.vGap = .ok steps.ys
  /-- Nothing else has. -/
  keys_ys : steps.ys.keys = steps.rows.keys

namespace Graph

/-- The steps of a placement succeed for every graph and each of its blocks as entry. -/
theorem succeeds_placementSteps {entry : String} (hentry : entry ∈ g.ids) :
    Succeeds (g.placementSteps config entry (g.blockWidths config))
      (PlacementSteps.Sound g config) := by
  have hwidths : ∀ id ∈ g.ids, id ∈ (g.blockWidths config).keys := fun id ↦
    (covers_blockWidths.mem_keys id).mpr
  apply (Leveling.succeeds_assign hentry).bind
  intro leveling hlevels
  have hrows := leveling.partition_rows hlevels.distinct
  have hids : ∀ ids ∈ leveling.rows.values, ∀ id ∈ ids, id ∈ g.ids :=
    Rows.forall_values fun level ids hmem id hid ↦
      hlevels.mem_ids ((hrows.mem_iff hmem id).mp hid)
  have hnodup : ∀ ids ∈ leveling.rows.values, ids.Nodup :=
    Rows.forall_values fun level ids hmem ↦ hrows.nodup hmem
  have howners : ∀ id ∈ (g.owners entry leveling.levels).keys, id ∈ g.ids := fun id ↦
    mem_ids_of_mem_owners hlevels
  apply (succeeds_subtreeWidths hwidths howners).bind
  intro subtree hsubtree
  apply (TreeWalk.succeeds_treeXs hentry hwidths hsubtree howners).bind
  intro treeXs htree
  apply (Row.succeeds_placeLeftovers htree.1 htree.2 hwidths).bind
  intro filled hfilled
  obtain ⟨leftovers, filledXs⟩ := filled
  have hplaced : ∀ ids ∈ leveling.rows.values, ∀ id ∈ ids, id ∈ filledXs.keys :=
    fun ids hids' id hid ↦ (hfilled.mem_keys id).mpr (hids ids hids' id hid)
  apply (Row.succeeds_separate hrows.disjoint hnodup fun _ _ id _ hid ↦
    hwidths id ((hfilled.mem_keys id).mp hid)).bind
  intro separatedXs hseparated
  have hkeys := hseparated.1.keys
  apply (Row.succeeds_centerRows hrows.disjoint hnodup
    (fun ids hids' id hid ↦ hkeys ▸ hplaced ids hids' id hid) fun id hid ↦
      hwidths id ((hfilled.mem_keys id).mp (hkeys ▸ hid))).bind
  rintro xs ⟨hmoves, center, -, hshifted⟩
  have hheights : ∀ ids ∈ leveling.rows.values, ∀ id ∈ ids,
      id ∈ (g.blockHeights config).keys := fun ids hids' id hid ↦
    (covers_blockHeights.mem_keys id).mpr (hids ids hids' id hid)
  obtain ⟨ys, hys, hkeys'⟩ := Row.succeeds_tops config.topMargin config.vGap
    (Rows.forall_values fun level ids hmem ↦ hrows.ne_nil hmem) hheights
  apply Succeeds.bind (p := (· = ys)) ⟨ys, hys, rfl⟩
  intro _ he
  apply Succeeds.ok
  subst he
  have hcovers : xs.Covers g := by
    have hxs_keys : xs.keys = filledXs.keys := hmoves.keys.trans hkeys
    exact ⟨by rw [Table.HasDistinctKeys, hxs_keys]; exact hfilled.distinct,
      fun id ↦ by rw [hxs_keys]; exact hfilled.mem_keys id⟩
  exact {
    widths := rfl
    heights := rfl
    levels := hlevels
    rows := hrows
    xs := hcovers
    arranged := fun ids hids' ↦ ⟨⟨Row.fromLeft filledXs ids,
      Row.perm_fromLeft (hplaced ids hids'),
      (hseparated.2 ids hids').others.imp fun _ _ ↦ Row.PushedFrom.pushed⟩,
      (hshifted ids hids').shifted⟩
    tops := hys
    keys_ys := hkeys' }

end Graph

/-- A box whose parts are those that the steps found for a block. -/
structure PlacementSteps.Gives (steps : PlacementSteps α) (id : String) (box : Box α) : Prop where
  /-- The box is that of the block. -/
  named : box.id = id
  /-- The level. -/
  level : steps.leveling.levels.get? id = some box.level
  /-- The left side. -/
  x : steps.xs.get? id = some box.x
  /-- The top side. -/
  y : steps.ys.get? box.level = some box.y
  /-- The width. -/
  width : steps.widths.get? id = some box.width
  /-- The height. -/
  height : steps.heights.get? id = some box.height

/-- Every row that a block stands in has a top. -/
theorem PlacementSteps.Sound.exists_top {steps : PlacementSteps α} (h : steps.Sound g config)
    {id : String} {level : Int} (hlevel : steps.leveling.levels.get? id = some level) :
    ∃ y, steps.ys.get? level = some y := by
  obtain ⟨ids, hmem⟩ := h.rows.exists_row hlevel
  rw [← Table.mem_keys_iff, h.keys_ys]
  exact List.mem_map_of_mem hmem

namespace Graph

private theorem succeeds_boxOf {steps : PlacementSteps α} (h : steps.Sound g config) {b : Block}
    (hb : b ∈ g.blocks) : Succeeds (boxOf steps b) (steps.Gives b.id) := by
  have hid : b.id ∈ g.ids := List.mem_map_of_mem hb
  obtain ⟨level, hlevel⟩ := h.levels.exists_get? hid
  obtain ⟨x, hx⟩ := h.xs.exists_get? hid
  obtain ⟨y, hy⟩ := h.exists_top hlevel
  obtain ⟨w, hw⟩ := (h.widths ▸ covers_blockWidths : steps.widths.Covers g).exists_get? hid
  obtain ⟨height, hheight⟩ :=
    (h.heights ▸ covers_blockHeights : steps.heights.Covers g).exists_get? hid
  apply (Succeeds.fetch hlevel).bind
  intro _ he
  apply (Succeeds.fetch hx).bind
  intro _ he₁
  subst he he₁
  apply (Succeeds.fetch hy).bind
  intro _ he
  apply (Succeeds.fetch hw).bind
  intro _ he₁
  apply (Succeeds.fetch hheight).bind
  intro _ he₂
  apply Succeeds.ok
  subst he he₁ he₂
  exact ⟨rfl, hlevel, hx, hy, hw, hheight⟩

end Graph

/-- A placement that is read off from steps. -/
structure Placement.ReadOff (g : Graph) (steps : PlacementSteps α) (p : Placement α) : Prop where
  /-- The levels are those of the steps. -/
  levels : p.levels = steps.leveling.levels
  /-- Every block has a box. -/
  boxes : p.boxes.Covers g
  /-- The boxes are those of the steps. -/
  gives : ∀ {id box}, p.boxes.get? id = some box → steps.Gives id box

namespace Placement.ReadOff

variable {steps : PlacementSteps α} {p : Placement α}

omit [Scalar α] in
/-- A box that is found is one of the boxes. -/
theorem mem_values (h : p.ReadOff g steps) {id : String} {box : Box α}
    (hbox : p.boxes.get? id = some box) : box ∈ p.boxes.values :=
  h.boxes.distinct.mem_values_iff.mpr ⟨id, hbox⟩

omit [Scalar α] in
/-- Every box is found under its id. -/
theorem get?_id (h : p.ReadOff g steps) {box : Box α} (hbox : box ∈ p.boxes.values) :
    p.boxes.get? box.id = some box := by
  obtain ⟨id, hid⟩ := h.boxes.distinct.mem_values_iff.mp hbox
  exact (h.gives hid).named ▸ hid

end Placement.ReadOff

omit [Scalar α] in
private theorem readOff_of_forall₂ {steps : PlacementSteps α} {boxes : List (Box α)}
    (h : List.Forall₂ (fun b box ↦ steps.Gives b.id box) g.blocks boxes) :
    Placement.ReadOff g steps
      ⟨.ofList (boxes.map fun b ↦ (b.id, b)), steps.leveling.levels⟩ := by
  have hids : boxes.map (·.id) = g.ids := map_eq_of_forall₂ (fun _ _ hb ↦ hb.named) h
  refine ⟨rfl, ⟨Table.hasDistinctKeys_ofList _, fun id ↦ ?_⟩, fun {id box} hbox ↦ ?_⟩
  · rw [Table.mem_keys_ofList, List.map_map, ← hids]
    rfl
  · obtain ⟨box', hmem, he⟩ := List.mem_map.mp (Table.get?_ofList_eq_some hbox)
    cases he
    obtain ⟨b, _, hb⟩ := exists_of_forall₂ h hmem
    exact hb.named.symm ▸ hb

/-- Every graph with an entry is placed. -/
theorem Graph.succeeds_place {entry : Block} (h : g.entry? = some entry) :
    Succeeds (g.place config) fun p ↦ ∃ steps, steps.Sound g config ∧ p.ReadOff g steps := by
  have hentry : entry.id ∈ g.ids := List.mem_map_of_mem (List.mem_of_find?_eq_some h)
  unfold place
  rw [h]
  apply (succeeds_placementSteps hentry).bind
  intro steps hsteps
  apply (Succeeds.mapM fun b hb ↦ succeeds_boxOf hsteps hb).bind
  intro boxes hboxes
  exact .ok ⟨steps, hsteps, readOff_of_forall₂ hboxes⟩

/-- A placement is read off from the steps that start at the entry. -/
theorem Graph.exists_readOff_of_place {entry : Block} (hentry : g.entry? = some entry)
    {p : Placement α} (h : g.place config = .ok p) :
    ∃ steps, g.placementSteps config entry.id (g.blockWidths config) = .ok steps ∧
      steps.Sound g config ∧ p.ReadOff g steps := by
  have hmem : entry.id ∈ g.ids := List.mem_map_of_mem (List.mem_of_find?_eq_some hentry)
  unfold place at h
  rw [hentry] at h
  obtain ⟨steps, hsteps, h⟩ := exists_of_bind_eq_ok h
  obtain ⟨boxes, hboxes, h⟩ := exists_of_bind_eq_ok h
  cases h
  have hsound := (succeeds_placementSteps hmem).of_eq_ok hsteps
  have hgives := (Succeeds.mapM fun b hb ↦ succeeds_boxOf hsound hb).of_eq_ok hboxes
  exact ⟨steps, hsteps, hsound, readOff_of_forall₂ hgives⟩

/-- How the steps of a placement, up to the rows that are pushed apart, follow from each other. -/
structure PlacementSteps.Follow (g : Graph) (config : Config α) (entry : String)
    (widths : Table String α) (steps : PlacementSteps α) : Prop where
  /-- The widths are those given. -/
  widths : steps.widths = widths
  /-- Levels are assigned from the entry. -/
  leveling : Leveling.assign g entry = .ok steps.leveling
  /-- The rows are those of the levels. -/
  rows : steps.rows = steps.leveling.rows
  /-- Owners are found from the entry. -/
  owners : steps.owners = g.owners entry steps.leveling.levels
  /-- Subtrees are as wide as what blocks own. -/
  subtree : g.subtreeWidths steps.leveling.levels steps.owners steps.widths config.hGap =
    .ok steps.subtree
  /-- The tree is placed from the entry. -/
  treeXs : g.treeXs entry steps.owners steps.widths steps.subtree config.hGap config.leftMargin =
    .ok steps.treeXs
  /-- Leftovers are placed beside it. -/
  filledXs : Row.placeLeftovers g.ids steps.treeXs steps.leveling.levels steps.widths config.hGap =
    .ok (steps.leftovers, steps.filledXs)
  /-- Then the rows are pushed apart. -/
  separatedXs : Row.separate steps.rows steps.filledXs steps.widths config.hGap =
    .ok steps.separatedXs

namespace Graph

/-- The steps of a placement follow from each other. -/
theorem follow_of_placementSteps {entry : String} {widths : Table String α}
    {steps : PlacementSteps α} (h : g.placementSteps config entry widths = .ok steps) :
    steps.Follow g config entry widths := by
  obtain ⟨leveling, hleveling, h⟩ := exists_of_bind_eq_ok h
  obtain ⟨subtree, hsubtree, h⟩ := exists_of_bind_eq_ok h
  obtain ⟨treeXs, htree, h⟩ := exists_of_bind_eq_ok h
  obtain ⟨filled, hfilled, h⟩ := exists_of_bind_eq_ok h
  obtain ⟨separatedXs, hseparated, h⟩ := exists_of_bind_eq_ok h
  obtain ⟨xs, -, h⟩ := exists_of_bind_eq_ok h
  obtain ⟨ys, -, h⟩ := exists_of_bind_eq_ok h
  cases h
  exact ⟨rfl, hleveling, rfl, rfl, hsubtree, htree, hfilled, hseparated⟩

/-- What the steps find until the tree is placed are numbers for blocks. -/
theorem covers_of_follow {entry : String} {steps : PlacementSteps α} (hentry : entry ∈ g.ids)
    (h : steps.Follow g config entry (g.blockWidths config)) :
    steps.leveling.levels.Covers g ∧ (∀ id ∈ steps.treeXs.keys, id ∈ g.ids) ∧
      steps.filledXs.Covers g := by
  obtain ⟨hwidths, hleveling, -, howners, hsubtree, htree, hfilled, -⟩ := h
  rw [hwidths] at hsubtree htree hfilled
  have hlevels := (Leveling.succeeds_assign hentry).of_eq_ok hleveling
  have hids : ∀ id ∈ g.ids, id ∈ (g.blockWidths config).keys := fun id ↦
    (covers_blockWidths.mem_keys id).mpr
  have howned : ∀ id ∈ steps.owners.keys, id ∈ g.ids := fun id hid ↦
    mem_ids_of_mem_owners hlevels (howners ▸ hid)
  have hplaced := (TreeWalk.succeeds_treeXs hentry hids
    ((succeeds_subtreeWidths hids howned).of_eq_ok hsubtree) howned).of_eq_ok htree
  exact ⟨hlevels, hplaced.2,
    (Row.succeeds_placeLeftovers hplaced.1 hplaced.2 hids).of_eq_ok hfilled⟩

/-- The levels of a placement are assigned from the entry. -/
theorem assign_of_placementSteps {entry : String} {widths : Table String α}
    {steps : PlacementSteps α} (h : g.placementSteps config entry widths = .ok steps) :
    Leveling.assign g entry = .ok steps.leveling :=
  (follow_of_placementSteps h).leveling

/-- Every block is on the level that is assigned to it. -/
theorem exists_assign_of_place {entry : Block} (hentry : g.entry? = some entry) {p : Placement α}
    (h : g.place config = .ok p) :
    ∃ l, Leveling.assign g entry.id = .ok l ∧ p.levels = l.levels := by
  unfold place at h
  rw [hentry] at h
  obtain ⟨steps, hsteps, h⟩ := exists_of_bind_eq_ok h
  obtain ⟨boxes, -, h⟩ := exists_of_bind_eq_ok h
  cases h
  exact ⟨_, assign_of_placementSteps hsteps, rfl⟩

end Graph

end FlowChart
