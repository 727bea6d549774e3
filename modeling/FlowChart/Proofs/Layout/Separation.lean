import FlowChart.Proofs.Layout.Placement
import FlowChart.Proofs.Number.Exact

/-!
# Placements without collisions

In exact arithmetic no two boxes of a placement collide: blocks of one level stand side by side with
gaps between them, and deeper levels lie below. Pushing makes the gaps, centring keeps them because
it moves a row as a whole, and the tops of rows are stacked with gaps over the tallest block.
-/

namespace FlowChart

/-- Sizes of blocks and gaps between them that are not negative. -/
structure Config.HasSizes (config : Config Rat) : Prop where
  /-- The width of blocks. -/
  blockWidth : 0 ≤ config.blockWidth
  /-- The height of headers. -/
  headerHeight : 0 ≤ config.headerHeight
  /-- The height of instructions. -/
  lineHeight : 0 ≤ config.lineHeight
  /-- The height of borders. -/
  borderHeight : 0 ≤ config.borderHeight
  /-- The gap between blocks of one level. -/
  hGap : 0 ≤ config.hGap
  /-- The gap between levels. -/
  vGap : 0 ≤ config.vGap

/-- Boxes that keep their distances, with the levels of their blocks. -/
structure Placement.CollisionFree (p : Placement Rat) (config : Config Rat) : Prop where
  /-- A box lies on the level of its block. -/
  level : ∀ {id box}, p.boxes.get? id = some box → p.levels.get? id = some box.level
  /-- Boxes of one level have one top side and stand side by side, a gap apart. -/
  beside : ∀ {idA idB a b}, p.boxes.get? idA = some a → p.boxes.get? idB = some b →
    idA ≠ idB → a.level = b.level →
      a.y = b.y ∧ (a.right + config.hGap ≤ b.x ∨ b.right + config.hGap ≤ a.x)
  /-- A box on a deeper level lies below, a gap apart. -/
  below : ∀ {idA idB a b}, p.boxes.get? idA = some a → p.boxes.get? idB = some b →
    a.level < b.level → a.bottom + config.vGap ≤ b.y

/-- The settings that are used unless others are given have sizes that are not negative. -/
theorem Config.hasSizes_standard : (standard : Config Rat).HasSizes := by
  constructor <;> simp [standard]

/-- No block has a negative height. -/
theorem Config.HasSizes.blockHeight_nonneg {config : Config Rat} (h : config.HasSizes)
    (count : Nat) : 0 ≤ config.blockHeight count := by
  have hlines : 0 ≤ config.lineHeight * (count : Rat) :=
    mul_nonneg h.lineHeight (Nat.cast_nonneg count)
  have hheader := h.headerHeight
  have hborder := h.borderHeight
  show 0 ≤ config.headerHeight + config.lineHeight * ((count : Int) : Rat) + config.borderHeight
  push_cast
  linarith

/-- In a list whose members are related in order, any two of them are related. -/
theorem or_of_pairwise {α : Type} {r : α → α → Prop} {xs : List α} (h : xs.Pairwise r)
    {a b : α} (ha : a ∈ xs) (hb : b ∈ xs) (hne : a ≠ b) : r a b ∨ r b a := by
  have hboth : xs.Pairwise fun a b ↦ r a b ∨ r b a := h.imp Or.inl
  have : Std.Symm fun a b ↦ r a b ∨ r b a := ⟨fun _ _ ↦ Or.symm⟩
  exact hboth.forall ha hb hne

namespace Row

variable {xs xs' : Table String Rat}

/-! ### Side by side -/

/-- A block lies wholly to the right of another one, a gap apart. -/
def Clear (width gap : Rat) (xs : Table String Rat) (left right : String) : Prop :=
  ∃ x x', xs.get? left = some x ∧ xs.get? right = some x' ∧ x + width + gap ≤ x'

private theorem Clear.trans {width gap : Rat} (h : 0 ≤ width + gap) {a b c : String}
    (hab : Clear width gap xs a b) (hbc : Clear width gap xs b c) : Clear width gap xs a c := by
  obtain ⟨x, y, hx, hy, hxy⟩ := hab
  obtain ⟨y', z, hy', hz, hyz⟩ := hbc
  rw [hy] at hy'
  cases hy'
  exact ⟨x, z, hx, hz, by linarith⟩

private theorem Pushed.clear {widths : Table String Rat} {width gap : Rat}
    (hwidths : ∀ {id w}, widths.get? id = some w → w = width) {a b : String}
    (h : Pushed widths gap xs a b) : Clear width gap xs a b := by
  obtain ⟨x, w, x', hx, hw, hx', hcase⟩ := h
  obtain rfl := hwidths hw
  refine ⟨x, x', hx, hx', ?_⟩
  rcases hcase with he | hnot
  · exact he.ge
  · exact not_lt.mp hnot

/-- Moving a row as a whole leaves the gaps in it. -/
theorem Shifted.clear {ids : List String} {width gap : Rat} (h : Shifted ids xs xs')
    {a b : String} (ha : a ∈ ids) (hb : b ∈ ids) (hab : Clear width gap xs a b) :
    Clear width gap xs' a b := by
  obtain ⟨offset, hoffset⟩ := h
  obtain ⟨x, y, hx, hy, hxy⟩ := hab
  refine ⟨x + offset, y + offset, ?_, ?_, by linarith⟩
  · rw [hoffset a ha, hx, Option.map_some]
  · rw [hoffset b hb, hy, Option.map_some]

/-- Blocks that were pushed apart in a chain are clear of each other, not only of their neighbours.
Any two of them stand a gap apart. -/
theorem clear_of_isChain {widths : Table String Rat} {width gap : Rat} (hgap : 0 ≤ width + gap)
    (hwidths : ∀ {id w}, widths.get? id = some w → w = width) {row : List String}
    (h : row.IsChain (Pushed widths gap xs)) {a b : String} (ha : a ∈ row) (hb : b ∈ row)
    (hne : a ≠ b) : Clear width gap xs a b ∨ Clear width gap xs b a := by
  have : Trans (Clear width gap xs) (Clear width gap xs) (Clear width gap xs) :=
    ⟨Clear.trans hgap⟩
  have hchain : row.IsChain (Clear width gap xs) := h.imp fun _ _ ↦ Pushed.clear hwidths
  exact or_of_pairwise hchain.pairwise ha hb hne

/-! ### One below the other -/

variable {heights : Table String Rat} {gap : Rat}

/-- Tops that leave room for the blocks of each row and a gap before the next one. -/
inductive Stacked (heights : Table String Rat) (gap : Rat) :
    Rat → List (Int × List String) → List (Int × Rat) → Prop where
  /-- No rows have no tops. -/
  | nil {top} : Stacked heights gap top [] []
  /-- The next row starts below every block of this one. -/
  | cons {top next level ids rest tops} (le : top ≤ next)
      (room : ∀ id ∈ ids, ∀ height, heights.get? id = some height → top + height + gap ≤ next)
      (tail : Stacked heights gap next rest tops) :
      Stacked heights gap top ((level, ids) :: rest) ((level, top) :: tops)

namespace Stacked

variable {top : Rat} {entries : List (Int × List String)} {tops : List (Int × Rat)}

private theorem mem_levels (h : Stacked heights gap top entries tops) {e : Int × Rat}
    (he : e ∈ tops) : ∃ ids, (e.1, ids) ∈ entries := by
  induction h with
  | nil => simp at he
  | @cons top next level ids rest tops _ _ _ ih =>
    rcases List.mem_cons.mp he with rfl | he
    · exact ⟨ids, List.mem_cons_self⟩
    · obtain ⟨ids', hids'⟩ := ih he
      exact ⟨ids', List.mem_cons_of_mem _ hids'⟩

private theorem le_of_mem (h : Stacked heights gap top entries tops) {e : Int × Rat}
    (he : e ∈ tops) : top ≤ e.2 := by
  induction h with
  | nil => simp at he
  | @cons top next level ids rest tops le _ _ ih =>
    rcases List.mem_cons.mp he with rfl | he
    · exact le_refl top
    · exact le.trans (ih he)

/-- Every deeper row starts below every block of a row, a gap apart. -/
theorem room_below (h : Stacked heights gap top entries tops)
    (ascending : (entries.map (·.1)).Pairwise (· < ·)) {level level' : Int} {y y' : Rat}
    (hy : (level, y) ∈ tops) (hy' : (level', y') ∈ tops) (hlt : level < level')
    {ids : List String} (hids : (level, ids) ∈ entries) {id : String} (hid : id ∈ ids)
    {height : Rat} (hheight : heights.get? id = some height) : y + height + gap ≤ y' := by
  induction h with
  | nil => simp at hy
  | @cons top next first ids₀ rest tops _ room tail ih =>
    have parts := List.pairwise_cons.mp ascending
    have hdeeper : ∀ {e : Int × Rat}, e ∈ tops → first < e.1 := fun {e} he ↦ by
      obtain ⟨ids', hmem⟩ := tail.mem_levels he
      exact parts.1 _ (List.mem_map_of_mem hmem)
    rcases List.mem_cons.mp hy' with he' | htail'
    · -- nothing lies above the first row
      cases he'
      rcases List.mem_cons.mp hy with he | htail
      · cases he
        exact absurd hlt (lt_irrefl _)
      · exact absurd (hlt.trans (hdeeper htail)) (lt_irrefl _)
    · rcases List.mem_cons.mp hy with he | htail
      · cases he
        rcases List.mem_cons.mp hids with he | hmem
        · cases he
          exact (room id hid height hheight).trans (tail.le_of_mem htail')
        · exact absurd (parts.1 _ (List.mem_map_of_mem hmem)) (lt_irrefl _)
      · rcases List.mem_cons.mp hids with he | hmem
        · cases he
          exact absurd (hdeeper htail) (lt_irrefl _)
        · exact ih parts.2 htail htail' hmem

end Stacked

private theorem succeeds_height {ids : List String} (hne : ids ≠ [])
    (hheights : ∀ id ∈ ids, id ∈ heights.keys) :
    Succeeds (ids.mapM heights.fetch >>= Scalar.largestOf) fun greatest ↦
      ∀ id ∈ ids, ∀ height, heights.get? id = some height → height ≤ greatest := by
  have hfetch : ∀ id ∈ ids, Succeeds (heights.fetch id) fun height ↦
      heights.get? id = some height := fun id hid ↦ by
    obtain ⟨height, hheight⟩ := Table.mem_keys_iff.mp (hheights id hid)
    exact (Succeeds.fetch hheight).imp fun _ he ↦ he ▸ hheight
  apply (Succeeds.mapM hfetch).bind
  intro found hfound
  obtain ⟨id, rest, rfl⟩ := List.exists_cons_of_ne_nil hne
  cases hfound with
  | @cons _ first _ others hfirst hothers =>
    refine ⟨_, rfl, fun id' hid' height hheight ↦ ?_⟩
    have hall : List.Forall₂ (fun id height ↦ heights.get? id = some height) (id :: rest)
        (first :: others) := .cons hfirst hothers
    obtain ⟨height', hmem, he⟩ := exists_of_forall₂ hall.flip hid'
    have he : heights.get? id' = some height' := he
    rw [hheight] at he
    cases he
    exact Scalar.le_of_largestOf rfl _ hmem

/-- The tops of rows are stacked. -/
theorem succeeds_topsFrom_stacked {entries : List (Int × List String)} (hgap : 0 ≤ gap)
    (hne : ∀ e ∈ entries, e.2 ≠ []) (hheights : ∀ e ∈ entries, ∀ id ∈ e.2, id ∈ heights.keys)
    (hnonneg : ∀ {id height}, heights.get? id = some height → 0 ≤ height) (top : Rat) :
    Succeeds (topsFrom heights gap top entries) (Stacked heights gap top entries) := by
  induction entries generalizing top with
  | nil => exact .ok .nil
  | cons e rest ih =>
    obtain ⟨level, ids⟩ := e
    have hids : ids ≠ [] := hne _ List.mem_cons_self
    have hkeys : ∀ id ∈ ids, id ∈ heights.keys := hheights _ List.mem_cons_self
    have hrest := ih (fun e he ↦ hne e (List.mem_cons_of_mem _ he))
      fun e he ↦ hheights e (List.mem_cons_of_mem _ he)
    rw [topsFrom, ← bind_assoc]
    apply (succeeds_height hids hkeys).bind
    intro greatest hgreatest
    apply (hrest (top + (greatest + gap))).bind
    intro tops htops
    apply Succeeds.ok
    obtain ⟨id, hid⟩ := List.exists_mem_of_ne_nil ids hids
    obtain ⟨height, hheight⟩ := Table.mem_keys_iff.mp (hkeys id hid)
    have hpos := (hnonneg hheight).trans (hgreatest id hid height hheight)
    refine .cons (by linarith) (fun id hid height hheight ↦ ?_) htops
    have := hgreatest id hid height hheight
    linarith

end Row

/-! ### Placements -/

variable {g : Graph} {config : Config Rat} {steps : PlacementSteps Rat}

namespace PlacementSteps.Sound

/-- All blocks have the width of the settings. -/
theorem eq_width (h : steps.Sound g config) {id : String} {w : Rat}
    (hw : steps.widths.get? id = some w) : w = config.blockWidth := by
  rw [h.widths] at hw
  exact Graph.eq_of_get?_blockWidths hw

/-- No block has a negative height. -/
theorem height_nonneg (h : steps.Sound g config) (hc : config.HasSizes) {id : String}
    {height : Rat} (hheight : steps.heights.get? id = some height) : 0 ≤ height := by
  rw [h.heights] at hheight
  obtain ⟨count, rfl⟩ := Graph.exists_of_get?_blockHeights hheight
  exact hc.blockHeight_nonneg count

private theorem beside (h : steps.Sound g config) (hc : config.HasSizes) {idA idB : String}
    {a b : Box Rat} (ha : steps.Gives idA a) (hb : steps.Gives idB b) (hne : idA ≠ idB)
    (hlevel : a.level = b.level) :
    a.right + config.hGap ≤ b.x ∨ b.right + config.hGap ≤ a.x := by
  have hgap : 0 ≤ config.blockWidth + config.hGap := add_nonneg hc.blockWidth hc.hGap
  obtain ⟨ids, hrow⟩ := h.rows.exists_row ha.level
  have hmemA : idA ∈ ids := (h.rows.mem_iff hrow idA).mpr ha.level
  have hmemB : idB ∈ ids := (h.rows.mem_iff hrow idB).mpr (hlevel ▸ hb.level)
  obtain ⟨⟨row, hperm, hchain⟩, hshifted⟩ := h.arranged ids (List.mem_map_of_mem hrow)
  have hclear := Row.clear_of_isChain hgap h.eq_width hchain (hperm.mem_iff.mpr hmemA)
    (hperm.mem_iff.mpr hmemB) hne
  rcases hclear with hAB | hBA
  · obtain ⟨x, x', hx, hx', hle⟩ := hshifted.clear hmemA hmemB hAB
    cases ha.x.symm.trans hx
    cases hb.x.symm.trans hx'
    left
    rw [Box.right, h.eq_width ha.width]
    exact hle
  · obtain ⟨x, x', hx, hx', hle⟩ := hshifted.clear hmemB hmemA hBA
    cases hb.x.symm.trans hx
    cases ha.x.symm.trans hx'
    right
    rw [Box.right, h.eq_width hb.width]
    exact hle

private theorem below (h : steps.Sound g config) (hc : config.HasSizes) {idA idB : String}
    {a b : Box Rat} (ha : steps.Gives idA a) (hb : steps.Gives idB b)
    (hlevel : a.level < b.level) : a.bottom + config.vGap ≤ b.y := by
  have hkeys : ∀ e ∈ steps.rows.entries, ∀ id ∈ e.2, id ∈ steps.heights.keys := by
    intro e he id hid
    rw [h.heights, Graph.covers_blockHeights.mem_keys]
    exact h.levels.mem_ids ((h.rows.mem_iff he id).mp hid)
  have hstacked : Succeeds (Row.tops steps.rows steps.heights config.topMargin config.vGap)
      fun ys ↦ Row.Stacked steps.heights config.vGap config.topMargin steps.rows.entries
        ys.entries :=
    (Row.succeeds_topsFrom_stacked hc.vGap (fun e he ↦ h.rows.ne_nil he) hkeys (h.height_nonneg hc)
      config.topMargin).bind fun tops htops ↦ .ok htops
  obtain ⟨ids, hrow⟩ := h.rows.exists_row ha.level
  exact (hstacked.of_eq_ok h.tops).room_below h.rows.ascending (Table.mem_entries_of_get? ha.y)
    (Table.mem_entries_of_get? hb.y) hlevel hrow ((h.rows.mem_iff hrow idA).mpr ha.level) ha.height

end PlacementSteps.Sound

/-- What is read off from steps that succeed is free of collisions. -/
theorem Placement.ReadOff.collisionFree {p : Placement Rat} (hp : p.ReadOff g steps)
    (h : steps.Sound g config) (hc : config.HasSizes) : p.CollisionFree config where
  level hbox := hp.levels ▸ (hp.gives hbox).level
  beside ha hb hne hlevel := by
    constructor
    · have hy := (hp.gives ha).y
      rw [hlevel] at hy
      exact Option.some.inj (hy.symm.trans (hp.gives hb).y)
    · exact h.beside hc (hp.gives ha) (hp.gives hb) hne hlevel
  below ha hb hlevel := h.below hc (hp.gives ha) (hp.gives hb) hlevel

/-- Every graph with an entry is placed, every block of it gets a box, and no boxes collide. -/
theorem Graph.exists_collisionFree_placement (g : Graph) (config : Config Rat)
    (hentry : g.entry?.isSome) (hc : config.HasSizes) :
    ∃ p, g.place config = .ok p ∧ (∀ id, id ∈ p.boxes.keys ↔ id ∈ g.ids) ∧
      p.CollisionFree config := by
  obtain ⟨entry, hentry⟩ := Option.isSome_iff_exists.mp hentry
  have hplace : Succeeds (g.place config) _ := succeeds_place hentry
  obtain ⟨p, hp, steps, hsteps, hread⟩ := hplace
  exact ⟨p, hp, hread.boxes.mem_keys, hread.collisionFree hsteps hc⟩

/-- Two blocks are placed so with the settings that are used unless others are given. -/
theorem Graph.exists_collisionFree_placement_pair :
    let g : Graph := ⟨[
      { index := 0, id := "a", instructions := [], start := "", stop := "", successors := ["b"],
        isEntry := true },
      { index := 1, id := "b", instructions := [], start := "", stop := "", predecessors := ["a"],
        isExit := true }], [⟨"a", "b", .normal⟩]⟩
    g.entry?.isSome ∧ (Config.standard : Config Rat).HasSizes ∧
      ∃ p, g.place .standard = .ok p ∧ (∀ id, id ∈ p.boxes.keys ↔ id ∈ g.ids) ∧
        p.CollisionFree .standard :=
  ⟨rfl, Config.hasSizes_standard,
    exists_collisionFree_placement _ .standard rfl Config.hasSizes_standard⟩

end FlowChart
