import FlowChart.Proofs.Layout.Coverage
import FlowChart.Proofs.Layout.Spread

/-!
# The order of siblings

What a block owns is put in order by the edges that lead to it: the taken branch of a condition comes
first, then the target of a jump, then all others. In exact arithmetic this order is that of the
chart. The slices of siblings are reserved in it, all at once, when their owner is placed; what is
placed in a slice stays there; the leftovers do not move it, and neither does pushing, since nothing
is too close. Centring moves the siblings of one level together.
-/

namespace FlowChart

namespace TreeWalk

variable {g : Graph} {entry : String} {owners : Table String String}
  {widths subtree : Table String Rat} {gap : Rat}

/-! ### Slices in order -/

/-- The slices of siblings lie in their order. -/
private theorem before_of_mem_slices (hgap : 0 ≤ gap) (hsubtree : ∀ id, 0 ≤ subtree.orZero id)
    {id : String} {left : Rat} {i j : String × Rat}
    (hi : i ∈ slices gap left
      ((g.childrenOf owners id).zip ((g.childrenOf owners id).map subtree.orZero)))
    (hj : j ∈ slices gap left
      ((g.childrenOf owners id).zip ((g.childrenOf owners id).map subtree.orZero)))
    (hrank : g.childRank id i.1 < g.childRank id j.1) :
    (sliceOf subtree i).Before gap (sliceOf subtree j) := by
  have hsorted : (g.childrenOf owners id).Pairwise fun a b ↦ g.childRank id a ≤ g.childRank id b :=
    pairwise_sortBy_decide (r := fun a b : String ↦ g.childRank id a ≤ g.childRank id b)
      (fun _ _ _ ↦ Nat.le_trans) (fun _ _ ↦ Nat.le_total _ _) _
  have hfst := map_fst_slices gap left
    ((g.childrenOf owners id).zip ((g.childrenOf owners id).map subtree.orZero))
  rw [List.map_fst_zip (by simp)] at hfst
  rw [← hfst, List.pairwise_map] at hsorted
  have hne : i ≠ j := by
    rintro rfl
    exact lt_irrefl _ hrank
  have hboth := (pairwise_slices hgap hsubtree (g.childrenOf owners id) left).and hsorted
  rcases or_of_pairwise hboth hi hj hne with ⟨hbefore, -⟩ | ⟨-, hle⟩
  · exact hbefore
  · exact absurd hrank (not_lt.mpr hle)

/-! ### The walk -/

/-- A strip of its row that a block takes, or that is reserved for it. -/
inductive Stands (widths subtree : Table String Rat) (s : TreeWalk Rat) : String → Strip → Prop where
  /-- A placed block takes a strip. -/
  | placed {id} : id ∈ s.xs.keys → Stands widths subtree s id (stripOf widths s.xs id)
  /-- A slice is reserved for what waits. -/
  | waiting {id center} : (id, center) ∈ s.stack →
    Stands widths subtree s id (sliceOf subtree (id, center))

/-- What a walk keeps in order. -/
structure KeepsOrder (g : Graph) (owners : Table String String) (widths subtree : Table String Rat)
    (gap : Rat) (s : TreeWalk Rat) : Prop where
  /-- What is owned gets its slice after its owner is placed. -/
  owner : ∀ id strip, Stands widths subtree s id strip →
    ∀ parent, owners.get? id = some parent → parent ∈ s.xs.keys
  /-- Siblings are in order. -/
  siblings : ∀ parent left right, owners.get? left = some parent →
    owners.get? right = some parent → g.childRank parent left < g.childRank parent right →
    ∀ strip strip', Stands widths subtree s left strip → Stands widths subtree s right strip' →
      strip.Before gap strip'

namespace KeepsOrder

variable {xs : Table String Rat} {rest : List (String × Rat)} {id : String} {center width : Rat}
  {s s' : TreeWalk Rat}

/-- What waits may be dropped. -/
private theorem drop {item : String × Rat}
    (h : KeepsOrder g owners widths subtree gap ⟨xs, item :: rest⟩) :
    KeepsOrder g owners widths subtree gap ⟨xs, rest⟩ := by
  have hbefore : ∀ {k strip}, Stands widths subtree ⟨xs, rest⟩ k strip →
      Stands widths subtree ⟨xs, item :: rest⟩ k strip := by
    rintro _ _ (hk | hk)
    · exact .placed hk
    · exact .waiting (List.mem_cons_of_mem item hk)
  exact ⟨fun k strip hk ↦ h.owner k strip (hbefore hk),
    fun parent left right hleft hright hrank strip strip' hstrip hstrip' ↦
      h.siblings parent left right hleft hright hrank strip strip' (hbefore hstrip)
        (hbefore hstrip')⟩

/-- When a block is placed in its slice, what stands then is new, or is within what stood before. -/
private theorem stands_place (hnew : id ∉ xs.keys) (hwidth : widths.get? id = some width)
    (hle : width ≤ subtree.orZero id) {inner : List (String × Rat)} {k : String} {strip : Strip}
    (h : Stands widths subtree ⟨xs.insert id (center - Scalar.half width), inner ++ rest⟩ k strip) :
    (∃ item ∈ inner, k = item.1 ∧ strip = sliceOf subtree item) ∨
      ∃ strip', Stands widths subtree ⟨xs, (id, center) :: rest⟩ k strip' ∧
        strip.Within strip' := by
  rcases h with hk | hk
  · right
    rcases Table.mem_keys_insert.mp hk with rfl | hk
    · rw [stripOf_insert_self hwidth]
      exact ⟨_, .waiting List.mem_cons_self, Strip.around_within hle center⟩
    · rw [stripOf_insert_of_ne (ne_of_mem_of_not_mem hk hnew).symm]
      exact ⟨_, .placed hk, Strip.Within.refl _⟩
  · rcases List.mem_append.mp hk with hinner | hrest
    · exact .inl ⟨_, hinner, rfl, rfl⟩
    · exact .inr ⟨_, .waiting (List.mem_cons_of_mem _ hrest), Strip.Within.refl _⟩

/-- A block may be placed in its slice, if slices are reserved for what it owns, in order. -/
private theorem place (h : KeepsOrder g owners widths subtree gap ⟨xs, (id, center) :: rest⟩)
    (hnew : id ∉ xs.keys) (hwidth : widths.get? id = some width)
    (hle : width ≤ subtree.orZero id) {inner : List (String × Rat)}
    (howned : ∀ item ∈ inner, owners.get? item.1 = some id)
    (hordered : ∀ i ∈ inner, ∀ j ∈ inner, g.childRank id i.1 < g.childRank id j.1 →
      (sliceOf subtree i).Before gap (sliceOf subtree j)) :
    KeepsOrder g owners widths subtree gap
      ⟨xs.insert id (center - Scalar.half width), inner ++ rest⟩ := by
  have hearlier : ∀ {k strip}, Stands widths subtree ⟨xs, (id, center) :: rest⟩ k strip →
      owners.get? k ≠ some id := fun hk howner ↦ hnew (h.owner _ _ hk id howner)
  constructor
  · intro k strip hk parent hparent
    rw [Table.mem_keys_insert]
    rcases stands_place hnew hwidth hle hk with ⟨item, hitem, rfl, -⟩ | ⟨strip', hk', -⟩
    · exact .inl (Option.some.inj (hparent.symm.trans (howned item hitem)))
    · exact .inr (h.owner k strip' hk' parent hparent)
  · intro parent left right hleft hright hrank strip strip' hstrip hstrip'
    -- nothing that the block owns has stood before, so siblings are both new or both not
    rcases stands_place hnew hwidth hle hstrip with ⟨i, hi, rfl, rfl⟩ | ⟨t, ht, hwithin⟩ <;>
      rcases stands_place hnew hwidth hle hstrip' with ⟨j, hj, rfl, rfl⟩ | ⟨t', ht', hwithin'⟩
    · cases hleft.symm.trans (howned i hi)
      exact hordered i hi j hj hrank
    · cases hleft.symm.trans (howned i hi)
      exact absurd hright (hearlier ht')
    · cases hright.symm.trans (howned j hj)
      exact absurd hleft (hearlier ht)
    · exact (h.siblings parent left right hleft hright hrank t t' ht ht').of_within hwithin hwithin'

/-- A step of the walk keeps siblings in order. -/
private theorem step (hgap : 0 ≤ gap) (hholds : g.SubtreesHold owners widths subtree gap)
    (h : KeepsOrder g owners widths subtree gap s) (hstack : s.stack = (id, center) :: rest)
    (hplace : TreeWalk.place g owners widths subtree gap { s with stack := rest } id center =
      .ok s') : KeepsOrder g owners widths subtree gap s' := by
  obtain ⟨xs, stack⟩ := s
  dsimp only at hstack hplace
  subst hstack
  obtain rfl | ⟨hnew, width, hwidth, hle, rfl⟩ := place_cases_of_subtreesHold hholds hplace
  · exact h.drop
  · refine h.place hnew hwidth hle (fun item hitem ↦ ?_) fun i hi j hj ↦ ?_
    · obtain ⟨_, -, -, howner⟩ := Graph.mem_ownedBy.mp
        (mem_ownedBy_of_mem_slices (by simp) (List.mem_reverse.mp hitem))
      exact howner
    · exact before_of_mem_slices hgap hholds.nonneg (List.mem_reverse.mp hi)
        (List.mem_reverse.mp hj)

end KeepsOrder

/-- Siblings that the walk places are in order, a gap apart. -/
theorem before_of_treeXs (hgap : 0 ≤ gap) (hholds : g.SubtreesHold owners widths subtree gap)
    (hentry : entry ∉ owners.keys) {margin : Rat} {xs : Table String Rat}
    (h : g.treeXs entry owners widths subtree gap margin = .ok xs) {parent left right : String}
    (hleft : owners.get? left = some parent) (hright : owners.get? right = some parent)
    (hrank : g.childRank parent left < g.childRank parent right) (hplaced : left ∈ xs.keys)
    (hplaced' : right ∈ xs.keys) :
    (stripOf widths xs left).Before gap (stripOf widths xs right) := by
  obtain ⟨width, -, h⟩ := exists_of_bind_eq_ok h
  obtain ⟨last, hrun, h⟩ := exists_of_bind_eq_ok h
  cases h
  have hstart : KeepsOrder g owners widths subtree gap
      ⟨.empty, [(entry, Scalar.half width + margin)]⟩ := by
    have hunowned : ∀ {k strip parent}, Stands widths subtree
        ⟨.empty, [(entry, Scalar.half width + margin)]⟩ k strip →
          owners.get? k ≠ some parent := by
      rintro _ _ parent (hk | hk) howner
      · simp at hk
      · cases List.mem_singleton.mp hk
        exact hentry (Table.mem_keys_iff.mpr ⟨parent, howner⟩)
    exact ⟨fun _ _ hk _ howner ↦ absurd howner (hunowned hk),
      fun _ _ _ howner _ _ _ _ hk ↦ absurd howner (hunowned hk)⟩
  exact (run_induction (KeepsOrder.step hgap hholds) hstart hrun).siblings parent left right hleft
    hright hrank _ _ (.placed hplaced) (.placed hplaced')

end TreeWalk

/-! ### Placements -/

/-- Two blocks of one level with one owner. The first one comes before the second one in the order of
what the owner owns. -/
structure Graph.AreSiblings (g : Graph) (levels : Table String Int) (owners : Table String String)
    (parent left right : String) : Prop where
  /-- The first one is owned. -/
  owner_left : owners.get? left = some parent
  /-- The second one has the same owner. -/
  owner_right : owners.get? right = some parent
  /-- They are on one level. -/
  level_eq : levels.get? left = levels.get? right
  /-- The edge to the first one has the lower rank. -/
  rank_lt : g.childRank parent left < g.childRank parent right

namespace PlacementSteps

variable {g : Graph} {config : Config Rat} {entry : String} {steps : PlacementSteps Rat}
  {parent left right : String}

/-- Siblings are placed in order. -/
private theorem clear_treeXs (hwidth : 0 ≤ config.blockWidth) (hgap : 0 ≤ config.hGap)
    (hentry : entry ∈ g.ids) (h : steps.Follow g config entry (g.blockWidths config))
    (hsiblings : g.AreSiblings steps.leveling.levels steps.owners parent left right) :
    Row.Clear config.blockWidth config.hGap steps.treeXs left right := by
  obtain ⟨hlevels, hplaced, -⟩ := Graph.covers_of_follow hentry h
  obtain ⟨hwidths, hl, -, howners, hsubtree, htree, -, -⟩ := h
  have hlineage : g.IsLineage entry steps.leveling.levels steps.owners :=
    howners ▸ Graph.isLineage_owners (Leveling.get?_levels_entry hl)
      fun _ _ ↦ Leveling.levels_nonneg hl
  have hunowned : entry ∉ steps.owners.keys := fun hkey ↦
    ((hlineage.owned_iff entry).mp hkey).1 rfl
  have howned : ∀ {id}, steps.owners.get? id = some parent → id ∈ steps.treeXs.keys := by
    intro id hid
    rw [TreeWalk.mem_keys_treeXs htree, hlineage.reflTransGen_iff]
    exact .inr (Table.mem_keys_iff.mpr ⟨parent, hid⟩)
  have hleft := howned hsiblings.owner_left
  have hright := howned hsiblings.owner_right
  have hholds : g.SubtreesHold steps.owners steps.widths steps.subtree config.hGap := by
    rw [hwidths, howners] at hsubtree ⊢
    exact Graph.subtreesHold_of_subtreeWidths hlevels Graph.covers_blockWidths
      (fun hw ↦ (Graph.eq_of_get?_blockWidths hw).symm ▸ hwidth) hsubtree
  have hbefore := TreeWalk.before_of_treeXs hgap hholds hunowned htree hsiblings.owner_left
    hsiblings.owner_right hsiblings.rank_lt hleft hright
  obtain ⟨x, hx⟩ := Table.mem_keys_iff.mp hleft
  obtain ⟨x', hx'⟩ := Table.mem_keys_iff.mp hright
  rw [hwidths] at hbefore
  simp only [Strip.Before, TreeWalk.stripOf, Table.orZero_of_get? hx, Table.orZero_of_get? hx',
    Table.orZero_of_get? (Graph.get?_blockWidths (hplaced left hleft))] at hbefore
  exact ⟨x, x', hx, hx', hbefore⟩

/-- Neither leftovers nor pushing move what the tree holds. -/
private theorem get?_separatedXs (hwidth : 0 ≤ config.blockWidth) (hgap : 0 ≤ config.hGap)
    (hentry : entry ∈ g.ids) (h : steps.Follow g config entry (g.blockWidths config))
    (hsound : steps.Sound g config) {id : String} (hid : id ∈ steps.treeXs.keys) :
    steps.separatedXs.get? id = steps.treeXs.get? id := by
  rw [(Graph.spreadOut_of_follow hwidth hgap hentry h hsound).2]
  exact Row.get?_placeLeftovers h.filledXs hid

/-- Siblings end up in order. -/
private theorem clear_xs (hwidth : 0 ≤ config.blockWidth) (hgap : 0 ≤ config.hGap)
    (hentry : entry ∈ g.ids) (h : steps.Follow g config entry (g.blockWidths config))
    (hsound : steps.Sound g config)
    (hsiblings : g.AreSiblings steps.leveling.levels steps.owners parent left right) :
    Row.Clear config.blockWidth config.hGap steps.xs left right := by
  obtain ⟨x, x', hx, hx', hle⟩ := clear_treeXs hwidth hgap hentry h hsiblings
  have hkept : ∀ {id y}, steps.treeXs.get? id = some y → steps.separatedXs.get? id = some y :=
    fun hy ↦ (get?_separatedXs hwidth hgap hentry h hsound
      (Table.mem_keys_iff.mpr ⟨_, hy⟩)).trans hy
  have hid : left ∈ g.ids := (Graph.covers_of_follow hentry h).2.1 left
    (Table.mem_keys_iff.mpr ⟨x, hx⟩)
  obtain ⟨level, hlevel⟩ := hsound.levels.exists_get? hid
  obtain ⟨ids, hrow⟩ := hsound.rows.exists_row hlevel
  exact (hsound.arranged ids (List.mem_map_of_mem hrow)).2.clear
    ((hsound.rows.mem_iff hrow left).mpr hlevel)
    ((hsound.rows.mem_iff hrow right).mpr (hsiblings.level_eq ▸ hlevel))
    ⟨x, x', hkept hx, hkept hx', hle⟩

end PlacementSteps

namespace Graph

/-- In exact arithmetic, with a width of blocks and a gap that are not negative, siblings of one level
stand in the order of their edges, a gap apart. -/
theorem exists_siblings_inOrder (g : Graph) (config : Config Rat) {entry : Block}
    (hentry : g.entry? = some entry) (hwidth : 0 ≤ config.blockWidth) (hgap : 0 ≤ config.hGap) :
    ∃ l p, Leveling.assign g entry.id = .ok l ∧ g.place config = .ok p ∧
      ∀ parent left right, g.AreSiblings l.levels (g.owners entry.id l.levels) parent left right →
        ∃ a b, p.boxes.get? left = some a ∧ p.boxes.get? right = some b ∧
          a.x + config.blockWidth + config.hGap ≤ b.x := by
  have hmem : entry.id ∈ g.ids := List.mem_map_of_mem (List.mem_of_find?_eq_some hentry)
  have hplace : Succeeds (g.place config) _ := succeeds_place hentry
  obtain ⟨p, hp, -⟩ := hplace
  obtain ⟨steps, hsteps, hsound, hread⟩ := exists_readOff_of_place hentry hp
  have hfollow := follow_of_placementSteps hsteps
  refine ⟨steps.leveling, p, hfollow.leveling, hp, fun parent left right hsiblings ↦ ?_⟩
  rw [← hfollow.owners] at hsiblings
  obtain ⟨x, x', hx, hx', hle⟩ :=
    PlacementSteps.clear_xs hwidth hgap hmem hfollow hsound hsiblings
  have hbox : ∀ {id y}, steps.xs.get? id = some y → ∃ b, p.boxes.get? id = some b ∧ b.x = y := by
    intro id y hy
    obtain ⟨b, hb⟩ := hread.boxes.exists_get? (hsound.xs.mem_ids hy)
    exact ⟨b, hb, Option.some.inj ((hread.gives hb).x.symm.trans hy)⟩
  obtain ⟨a, ha, rfl⟩ := hbox hx
  obtain ⟨b, hb, rfl⟩ := hbox hx'
  exact ⟨a, b, ha, hb, hle⟩

/-- The taken branch of a condition is the second successor, and stands first. -/
theorem exists_siblings_inOrder_condition :
    let a : Block :=
      { index := 0, id := "a", instructions := [], start := "", stop := "",
        successors := ["b", "c"], isEntry := true }
    let g : Graph := ⟨[a,
      { index := 1, id := "b", instructions := [], start := "", stop := "", predecessors := ["a"],
        isExit := true },
      { index := 2, id := "c", instructions := [], start := "", stop := "", predecessors := ["a"],
        isExit := true }],
      [⟨"a", "b", .conditionalFalse⟩, ⟨"a", "c", .conditionalTrue⟩]⟩
    let config : Config Rat := .standard
    g.entry? = some a ∧ 0 ≤ config.blockWidth ∧ 0 ≤ config.hGap ∧
      ∃ l p, Leveling.assign g a.id = .ok l ∧ g.place config = .ok p ∧
        g.AreSiblings l.levels (g.owners a.id l.levels) "a" "c" "b" ∧
        ∀ parent left right, g.AreSiblings l.levels (g.owners a.id l.levels) parent left right →
          ∃ a b, p.boxes.get? left = some a ∧ p.boxes.get? right = some b ∧
            a.x + config.blockWidth + config.hGap ≤ b.x := by
  intro a g config
  have hsizes : config.HasSizes := Config.hasSizes_standard
  obtain ⟨l, p, hl, hp, hordered⟩ :=
    exists_siblings_inOrder g config rfl hsizes.blockWidth hsizes.hGap
  have hfound : ((Leveling.assign g a.id).toOption.any fun l ↦
      (g.owners a.id l.levels).get? "c" == some "a" &&
        ((g.owners a.id l.levels).get? "b" == some "a" &&
          l.levels.get? "c" == l.levels.get? "b")) = true := by decide +kernel
  rw [hl] at hfound
  simp only [Except.toOption, Option.any_some, Bool.and_eq_true, beq_iff_eq] at hfound
  obtain ⟨hleft, hright, hlevel⟩ := hfound
  exact ⟨rfl, hsizes.blockWidth, hsizes.hGap, l, p, hl, hp, ⟨hleft, hright, hlevel, by decide⟩,
    hordered⟩

end Graph

end FlowChart
