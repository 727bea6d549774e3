import FlowChart.Proofs.Layout.Pushing
import FlowChart.Proofs.Layout.Separation
import FlowChart.Proofs.Layout.Strips

/-!
# Rows that need no pushing

In exact arithmetic the blocks of the ownership tree are placed a gap apart from each other within
their levels, and every leftover a gap to the right of all that its level holds. So no two blocks of
a level are too close, and pushing neighbours apart moves none of them: it only has to make up for
the rounding of other arithmetics.
-/

namespace FlowChart

namespace Row

variable {levels : Table String Int} {widths xs : Table String Rat} {width gap : Rat}

/-- Any two placed blocks of one level stand a gap apart. -/
def SpreadOut (levels : Table String Int) (width gap : Rat) (xs : Table String Rat) : Prop :=
  ∀ a ∈ xs.keys, ∀ b ∈ xs.keys, a ≠ b → ∀ level, levels.get? a = some level →
    levels.get? b = some level → Clear width gap xs a b ∨ Clear width gap xs b a

/-! ### Leftovers -/

/-- The right end of a level is behind every block of it. -/
private theorem le_rightEnd {level : Int} {right : Rat}
    (h : rightEnd levels widths xs level = .ok right) {id : String} {x w : Rat}
    (hlevel : levels.get? id = some level) (hx : xs.get? id = some x)
    (hw : widths.get? id = some w) : x + w ≤ right := by
  obtain ⟨rights, hrights, h⟩ := exists_of_bind_eq_ok h
  have hid : id ∈ xs.keys.filter fun id ↦ levels.get? id == some level :=
    List.mem_filter.mpr ⟨Table.mem_keys_iff.mpr ⟨x, hx⟩, beq_iff_eq.mpr hlevel⟩
  obtain ⟨r, hr, hright⟩ := exists_of_forall₂ (forall₂_of_mapM_eq_ok hrights).flip hid
  have hright : rightOf xs widths id = .ok r := hright
  rw [rightOf_eq_ok hx hw] at hright
  cases hright
  cases rights with
  | nil => simp at hr
  | cons first others =>
    cases h
    exact Scalar.le_of_largestOf (Scalar.largestOf_cons first others) _ hr

/-- A block that is placed at the right end of its level stands a gap apart from all others. -/
private theorem SpreadOut.insert (h : SpreadOut levels width gap xs)
    (hwidths : ∀ id ∈ xs.keys, widths.get? id = some width) {id : String} (hnew : id ∉ xs.keys)
    {right : Rat} (hright : rightEnd levels widths xs ((levels.get? id).getD 0) = .ok right) :
    SpreadOut levels width gap (xs.insert id (right + gap)) := by
  have hkept : ∀ {a}, a ∈ xs.keys → (xs.insert id (right + gap)).get? a = xs.get? a :=
    fun ha ↦ Table.get?_insert_of_ne xs (ne_of_mem_of_not_mem ha hnew).symm _
  have hother : ∀ {a b}, a ∈ xs.keys → b ∈ xs.keys → Clear width gap xs a b →
      Clear width gap (xs.insert id (right + gap)) a b := by
    rintro a b ha hb ⟨x, x', hx, hx', hle⟩
    exact ⟨x, x', (hkept ha).trans hx, (hkept hb).trans hx', hle⟩
  have hbefore : ∀ {a level}, a ∈ xs.keys → levels.get? a = some level →
      levels.get? id = some level → Clear width gap (xs.insert id (right + gap)) a id := by
    intro a level ha hlevel hid
    obtain ⟨x, hx⟩ := Table.mem_keys_iff.mp ha
    rw [hid, Option.getD_some] at hright
    have hle := le_rightEnd hright hlevel hx (hwidths a ha)
    exact ⟨x, right + gap, (hkept ha).trans hx, Table.get?_insert_self _ _ _, by linarith⟩
  intro a ha b hb hne level hlevel hlevel'
  rcases Table.mem_keys_insert.mp ha with rfl | ha' <;>
    rcases Table.mem_keys_insert.mp hb with rfl | hb'
  · exact absurd rfl hne
  · exact .inr (hbefore hb' hlevel' hlevel)
  · exact .inl (hbefore ha' hlevel hlevel')
  · exact (h a ha' b hb' hne level hlevel hlevel').imp (hother ha' hb') (hother hb' ha')

/-- Placing leftovers keeps the blocks of each level a gap apart. -/
theorem SpreadOut.placeLeftovers (h : SpreadOut levels width gap xs) {g : Graph}
    (hplaced : ∀ id ∈ xs.keys, id ∈ g.ids) (hwidths : ∀ id ∈ g.ids, widths.get? id = some width)
    {r : List String × Table String Rat}
    (hplace : placeLeftovers g.ids xs levels widths gap = .ok r) :
    SpreadOut levels width gap r.2 := by
  let inv : List String × Table String Rat → Prop := fun s ↦
    (∀ id ∈ s.2.keys, id ∈ g.ids) ∧ SpreadOut levels width gap s.2
  suffices hinv : inv r from hinv.2
  refine foldlM_induction (fun id hid s s' hs hstep ↦ ?_) (show inv ([], xs) from ⟨hplaced, h⟩)
    hplace
  obtain ⟨-, rfl⟩ | ⟨hnew, right, hright, rfl⟩ := placeLeftover_cases hstep
  · exact hs
  · refine ⟨fun k hk ↦ ?_, hs.2.insert (fun k hk ↦ hwidths k (hs.1 k hk)) hnew hright⟩
    rcases Table.mem_keys_insert.mp hk with rfl | hk
    · exact hid
    · exact hs.1 k hk

/-! ### Pushing apart -/

/-- From left to right, no block that stands a gap apart from its left neighbour is pushed. -/
private theorem isChain_fromLeft {ids : List String} (hnodup : ids.Nodup)
    (hwidths : ∀ id ∈ ids, widths.get? id = some width)
    (hspread : ∀ a ∈ ids, ∀ b ∈ ids, a ≠ b → Clear width gap xs a b ∨ Clear width gap xs b a) :
    (fromLeft xs ids).IsChain (Pushed widths gap xs) := by
  have hleft : IsFromLeft xs ids (fromLeft xs ids) := isFromLeft_fromLeft hnodup
  have hdistinct : (fromLeft xs ids).Nodup := hleft.perm.nodup_iff.mpr (hnodup.filter _)
  apply List.Pairwise.isChain
  refine (hleft.pairwise.and hdistinct).imp_of_mem ?_
  rintro a b ha hb ⟨hbefore, hne⟩
  have ha := (mem_fromLeft.mp ha).1
  suffices hclear : Clear width gap xs a b by
    obtain ⟨x, x', hx, hx', hle⟩ := hclear
    exact ⟨x, width, x', hx, hwidths a ha, hx', .inr (not_lt.mpr hle)⟩
  rcases hspread a ha b (mem_fromLeft.mp hb).1 hne with hclear | ⟨x', x, hx', hx, hle⟩
  · exact hclear
  · -- then both stand in one place, and neither the width nor the gap takes any
    have hsame := hbefore.le
    rw [Table.orZero_of_get? hx, Table.orZero_of_get? hx'] at hsame
    exact ⟨x, x', hx, hx', by linarith⟩

/-- Rows whose blocks stand a gap apart are not changed by pushing. -/
theorem separate_eq_self {rows : Rows} (hrows : rows.Partition levels)
    (hspread : SpreadOut levels width gap xs)
    (hxs : ∀ ids ∈ rows.values, ∀ id ∈ ids, id ∈ xs.keys)
    (hwidths : ∀ id ∈ xs.keys, widths.get? id = some width) :
    separate rows xs widths gap = .ok xs := by
  apply foldlM_eq_ok_self
  intro ids hids
  have hall := hxs ids hids
  obtain ⟨⟨level, ids⟩, hmem, rfl⟩ := List.mem_map.mp hids
  have hclear : ∀ a ∈ ids, ∀ b ∈ ids, a ≠ b →
      Clear width gap xs a b ∨ Clear width gap xs b a := fun a ha b hb hne ↦
    hspread a (hall a ha) b (hall b hb) hne level ((hrows.mem_iff hmem a).mp ha)
      ((hrows.mem_iff hmem b).mp hb)
  exact separateRow_eq_self (isChain_fromLeft (hrows.nodup hmem)
    (fun id hid ↦ hwidths id (hall id hid)) hclear)

end Row

/-! ### Placements -/

namespace Graph

variable {g : Graph} {config : Config Rat}

/-- The width of a block is that of the settings. -/
theorem get?_blockWidths {id : String} (h : id ∈ g.ids) :
    (g.blockWidths config).get? id = some config.blockWidth := by
  have hcovers : (g.blockWidths config).Covers g := covers_blockWidths
  obtain ⟨w, hw⟩ := hcovers.exists_get? h
  rw [hw, eq_of_get?_blockWidths hw]

/-- The tree is placed with the blocks of each level a gap apart. -/
theorem spreadOut_treeXs {entry : String} {steps : PlacementSteps Rat}
    (hwidth : 0 ≤ config.blockWidth) (hgap : 0 ≤ config.hGap) (hentry : entry ∈ g.ids)
    (h : steps.Follow g config entry (g.blockWidths config)) :
    Row.SpreadOut steps.leveling.levels config.blockWidth config.hGap steps.treeXs := by
  obtain ⟨hlevels, hplaced, -⟩ := covers_of_follow hentry h
  obtain ⟨hwidths, -, -, howners, hsubtree, htree, -, -⟩ := h
  rw [hwidths, howners] at hsubtree htree
  have hnonneg : ∀ {id w}, (g.blockWidths config).get? id = some w → 0 ≤ w := fun hw ↦
    (eq_of_get?_blockWidths hw).symm ▸ hwidth
  have hholds := subtreesHold_of_subtreeWidths hlevels covers_blockWidths hnonneg hsubtree
  intro a ha b hb hne level hlevel hlevel'
  have hapart := TreeWalk.apart_of_treeXs (fun id ↦ (steps.leveling.levels.get? id).getD 0) hgap
    hholds lt_of_mem_ownedBy htree ha hb hne (by simp only [hlevel, hlevel'])
  obtain ⟨x, hx⟩ := Table.mem_keys_iff.mp ha
  obtain ⟨x', hx'⟩ := Table.mem_keys_iff.mp hb
  simp only [TreeWalk.stripOf, Table.orZero_of_get? hx, Table.orZero_of_get? hx',
    Table.orZero_of_get? (get?_blockWidths (hplaced a ha)),
    Table.orZero_of_get? (get?_blockWidths (hplaced b hb))] at hapart
  exact hapart.imp (fun hle ↦ ⟨x, x', hx, hx', hle⟩) fun hle ↦ ⟨x', x, hx', hx, hle⟩

/-- What the tree and the leftovers hold is spread out, and pushing neighbours apart leaves it. -/
theorem spreadOut_of_follow {entry : String} {steps : PlacementSteps Rat}
    (hwidth : 0 ≤ config.blockWidth) (hgap : 0 ≤ config.hGap) (hentry : entry ∈ g.ids)
    (h : steps.Follow g config entry (g.blockWidths config)) (hsound : steps.Sound g config) :
    Row.SpreadOut steps.leveling.levels config.blockWidth config.hGap steps.filledXs ∧
      steps.separatedXs = steps.filledXs := by
  obtain ⟨-, hplaced, hfilled⟩ := covers_of_follow hentry h
  have hwidths : ∀ id ∈ g.ids, steps.widths.get? id = some config.blockWidth := fun id hid ↦
    h.widths ▸ get?_blockWidths hid
  have hspread := (spreadOut_treeXs hwidth hgap hentry h).placeLeftovers hplaced hwidths h.filledXs
  have hrows : ∀ ids ∈ steps.rows.values, ∀ id ∈ ids, id ∈ steps.filledXs.keys :=
    Rows.forall_values fun level ids hmem id hid ↦
      (hfilled.mem_keys id).mpr (hsound.levels.mem_ids ((hsound.rows.mem_iff hmem id).mp hid))
  have hsame := Row.separate_eq_self hsound.rows hspread hrows fun id hid ↦
    hwidths id ((hfilled.mem_keys id).mp hid)
  exact ⟨hspread, Except.ok.inj (h.separatedXs.symm.trans hsame)⟩

/-- In exact arithmetic, with a width of blocks and a gap that are not negative, the tree and the
leftovers are placed so that any two blocks of one level stand a gap apart. Pushing neighbours apart
changes nothing. -/
theorem exists_spreadOut_steps (g : Graph) (config : Config Rat) {entry : Block}
    (hentry : g.entry? = some entry) (hwidth : 0 ≤ config.blockWidth) (hgap : 0 ≤ config.hGap) :
    ∃ steps, g.placementSteps config entry.id (g.blockWidths config) = .ok steps ∧
      steps.filledXs.Covers g ∧
      Row.SpreadOut steps.leveling.levels config.blockWidth config.hGap steps.filledXs ∧
      steps.separatedXs = steps.filledXs := by
  have hentry : entry.id ∈ g.ids := List.mem_map_of_mem (List.mem_of_find?_eq_some hentry)
  have hsucceeds : Succeeds (g.placementSteps config entry.id (g.blockWidths config)) _ :=
    succeeds_placementSteps hentry
  obtain ⟨steps, hsteps, hsound⟩ := hsucceeds
  have hfollow := follow_of_placementSteps hsteps
  obtain ⟨-, -, hfilled⟩ := covers_of_follow hentry hfollow
  exact ⟨steps, hsteps, hfilled, spreadOut_of_follow hwidth hgap hentry hfollow hsound⟩

/-- A condition leads to two blocks of one level, beside which a block that is not reached is
placed. -/
theorem exists_spreadOut_steps_condition :
    let a : Block :=
      { index := 0, id := "a", instructions := [], start := "", stop := "",
        successors := ["b", "c"], isEntry := true }
    let g : Graph := ⟨[a,
      { index := 1, id := "b", instructions := [], start := "", stop := "", predecessors := ["a"],
        isExit := true },
      { index := 2, id := "c", instructions := [], start := "", stop := "", predecessors := ["a"],
        isExit := true },
      { index := 3, id := "d", instructions := [], start := "", stop := "", isExit := true }],
      [⟨"a", "b", .conditionalTrue⟩, ⟨"a", "c", .conditionalFalse⟩]⟩
    let config : Config Rat := .standard
    g.entry? = some a ∧ 0 ≤ config.blockWidth ∧ 0 ≤ config.hGap ∧
      ∃ steps, g.placementSteps config a.id (g.blockWidths config) = .ok steps ∧
        steps.filledXs.Covers g ∧
        Row.SpreadOut steps.leveling.levels config.blockWidth config.hGap steps.filledXs ∧
        steps.separatedXs = steps.filledXs := by
  intro a g config
  have hsizes : config.HasSizes := Config.hasSizes_standard
  exact ⟨rfl, hsizes.blockWidth, hsizes.hGap,
    exists_spreadOut_steps g config rfl hsizes.blockWidth hsizes.hGap⟩

end Graph

end FlowChart
