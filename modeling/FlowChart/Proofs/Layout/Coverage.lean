import FlowChart.Proofs.Layout.Lineage
import FlowChart.Proofs.Layout.Rows
import FlowChart.Proofs.Layout.Worklist

/-!
# What is placed

The walk down the ownership tree places the entry and what it owns, directly or through others. If
owners are as they are found in the graph, that is all that is owned. Whatever the tree does not
hold is a leftover, and is placed after it in block order.
-/

namespace FlowChart

namespace Row

variable {α : Type} [Scalar α] {levels : Table String Int} {widths xs : Table String α} {gap : α}
  {ids : List String} {r : List String × Table String α}

/-! ### Leftovers -/

/-- Leftovers do not move what is placed. -/
theorem get?_placeLeftovers (h : placeLeftovers ids xs levels widths gap = .ok r) {id : String}
    (hid : id ∈ xs.keys) : r.2.get? id = xs.get? id := by
  let inv : List String × Table String α → Prop := fun s ↦ id ∈ s.2.keys ∧ s.2.get? id = xs.get? id
  suffices hinv : inv r from hinv.2
  refine foldlM_induction (fun k _ s s' hs hstep ↦ ?_) (show inv ([], xs) from ⟨hid, rfl⟩) h
  obtain ⟨-, rfl⟩ | ⟨hnew, right, -, rfl⟩ := placeLeftover_cases hstep
  · exact hs
  · refine ⟨Table.mem_keys_insert.mpr (.inr hs.1), ?_⟩
    exact (Table.get?_insert_of_ne _ (ne_of_mem_of_not_mem hs.1 hnew).symm _).trans hs.2

/-- The leftovers are the ids that have no place, in order. They are placed in this order. -/
theorem placeLeftovers_eq (hids : ids.Nodup)
    (h : placeLeftovers ids xs levels widths gap = .ok r) :
    r.1 = ids.filter (fun id ↦ id ∉ xs.keys) ∧ r.2.keys = xs.keys ++ r.1 := by
  suffices hall : ∀ s : List String × Table String α,
      ids.foldlM (placeLeftover levels widths gap) s = .ok r →
        ∃ left, left = ids.filter (fun id ↦ id ∉ s.2.keys) ∧ r.1 = s.1 ++ left ∧
          r.2.keys = s.2.keys ++ left by
    obtain ⟨left, rfl, hleft, hkeys⟩ := hall _ h
    rw [List.nil_append] at hleft
    exact ⟨hleft, hleft ▸ hkeys⟩
  clear h
  induction ids with
  | nil =>
    rintro s h
    cases h
    exact ⟨[], by simp⟩
  | cons id rest ih =>
    obtain ⟨hid, hrest⟩ := List.nodup_cons.mp hids
    intro s h
    rw [List.foldlM_cons] at h
    obtain ⟨s', hstep, h⟩ := exists_of_bind_eq_ok h
    obtain ⟨left, hleft, hfirst, hkeys⟩ := ih hrest s' h
    obtain ⟨hplaced, rfl⟩ | ⟨hnew, right, -, rfl⟩ := placeLeftover_cases hstep
    · refine ⟨left, ?_, hfirst, hkeys⟩
      rw [hleft, List.filter_cons_of_neg (by simpa using hplaced)]
    · -- placing one leftover makes no other one less left over
      have hsame : left = rest.filter fun k ↦ k ∉ s.2.keys := by
        rw [hleft]
        refine List.filter_congr fun k hk ↦ ?_
        have hne : k ≠ id := ne_of_mem_of_not_mem hk hid
        simp [Table.mem_keys_insert, hne]
      refine ⟨id :: left, ?_, ?_, ?_⟩
      · rw [hsame, List.filter_cons_of_pos (by simpa using hnew)]
      · rw [hfirst, List.append_assoc, List.singleton_append]
      · rw [hkeys, Table.keys_insert, if_neg hnew, List.append_assoc, List.singleton_append]

end Row

namespace Graph

variable {α : Type} [Scalar α] {g : Graph} {entry : String} {levels : Table String Int}
  {owners : Table String String} {widths subtree : Table String α}

/-! ### The tree and the rest -/

/-- What has an owner is among what the owner owns. -/
theorem IsLineage.mem_ownedBy (h : g.IsLineage entry levels owners) {child owner : String}
    (howner : owners.get? child = some owner) : child ∈ g.ownedBy owners owner := by
  obtain ⟨⟨block, _, _, hblock, hchild, -⟩, -⟩ := h.owner child owner howner
  exact Graph.mem_ownedBy.mpr ⟨block, hblock, hchild, howner⟩

/-- The entry owns what is owned, directly or through others. -/
theorem IsLineage.reflTransGen_iff (h : g.IsLineage entry levels owners) (id : String) :
    Relation.ReflTransGen (Search.Step (g.ownedBy owners)) entry id ↔
      id = entry ∨ id ∈ owners.keys := by
  constructor
  · rintro (_ | ⟨-, hchild⟩)
    · exact .inl rfl
    · exact .inr (mem_owners_of_mem_ownedBy hchild)
  · rintro (rfl | hid)
    · exact .refl
    · obtain ⟨_, n, -, -, habove⟩ := h.chain id hid
      clear hid
      induction n generalizing id with
      | zero =>
        cases habove
        exact .refl
      | succ n ih =>
        obtain ⟨owner, howner, habove⟩ := Option.bind_eq_some_iff.mp habove
        exact (ih owner habove).tail (h.mem_ownedBy howner)

/-- Where the blocks of a graph are placed: some in the tree, and all others after it. -/
structure IsTreeAndRest (g : Graph) (entry : String) (owners : Table String String)
    (xs : Table String α) (leftovers : List String) (filled : Table String α) : Prop where
  /-- The tree holds the entry and what is owned. -/
  tree_iff : ∀ id, id ∈ xs.keys ↔ id = entry ∨ id ∈ owners.keys
  /-- The leftovers are all other blocks, in block order. -/
  leftovers_eq : leftovers = g.ids.filter fun id ↦ id ∉ xs.keys
  /-- They are placed in this order, after the tree. -/
  keys_eq : filled.keys = xs.keys ++ leftovers
  /-- No block is placed twice. -/
  distinct : filled.HasDistinctKeys
  /-- The tree stays where it is. -/
  kept : ∀ id ∈ xs.keys, filled.get? id = xs.get? id

/-- In a graph with different ids that is entered at a block, exactly the blocks below the entry are
owned, and exactly they and the entry are placed in the tree. All others are placed after it. -/
theorem exists_isLineage (hids : g.ids.Nodup) (hentry : entry ∈ g.ids)
    (hwidths : ∀ id ∈ g.ids, id ∈ widths.keys) (hsubtree : ∀ id ∈ g.ids, id ∈ subtree.keys)
    (gap margin : α) :
    ∃ l xs leftovers filled, Leveling.assign g entry = .ok l ∧
      g.IsLineage entry l.levels (g.owners entry l.levels) ∧
      g.treeXs entry (g.owners entry l.levels) widths subtree gap margin = .ok xs ∧
      Row.placeLeftovers g.ids xs l.levels widths gap = .ok (leftovers, filled) ∧
      g.IsTreeAndRest entry (g.owners entry l.levels) xs leftovers filled := by
  obtain ⟨l, hl, hlevels⟩ := Leveling.succeeds_assign hentry
  have hlineage : g.IsLineage entry l.levels (g.owners entry l.levels) :=
    isLineage_owners (Leveling.get?_levels_entry hl) fun _ _ ↦ Leveling.levels_nonneg hl
  have htree : Succeeds (g.treeXs entry (g.owners entry l.levels) widths subtree gap margin) _ :=
    TreeWalk.succeeds_treeXs hentry hwidths hsubtree fun _ ↦ mem_ids_of_mem_owners hlevels
  obtain ⟨xs, hxs, hdistinct, hplaced⟩ := htree
  have hrest : Succeeds (Row.placeLeftovers g.ids xs l.levels widths gap) _ :=
    Row.succeeds_placeLeftovers hdistinct hplaced hwidths
  obtain ⟨⟨leftovers, filled⟩, hfilled, hcovers⟩ := hrest
  obtain ⟨hleftovers, hkeys⟩ := Row.placeLeftovers_eq hids hfilled
  exact ⟨l, xs, leftovers, filled, hl, hlineage, hxs, hfilled, {
    tree_iff := fun id ↦
      (TreeWalk.mem_keys_treeXs hxs id).trans (hlineage.reflTransGen_iff id)
    leftovers_eq := hleftovers
    keys_eq := hkeys
    distinct := hcovers.distinct
    kept := fun _ ↦ Row.get?_placeLeftovers hfilled }⟩

/-- Two ways meet and lead back to the entry. One block is not reached. -/
theorem exists_isLineage_meeting :
    let g : Graph := ⟨[
      { index := 0, id := "a", instructions := [], start := "", stop := "",
        successors := ["b", "c"], predecessors := ["d"], isEntry := true },
      { index := 1, id := "b", instructions := [], start := "", stop := "",
        successors := ["d"], predecessors := ["a"] },
      { index := 2, id := "c", instructions := [], start := "", stop := "",
        successors := ["d"], predecessors := ["a"] },
      { index := 3, id := "d", instructions := [], start := "", stop := "",
        successors := ["a"], predecessors := ["b", "c"] },
      { index := 4, id := "e", instructions := [], start := "", stop := "", isExit := true }],
      [⟨"a", "b", .conditionalTrue⟩, ⟨"a", "c", .conditionalFalse⟩, ⟨"b", "d", .unconditional⟩,
        ⟨"c", "d", .normal⟩, ⟨"d", "a", .unconditional⟩]⟩
    let widths : Table String Rat := .ofList (g.ids.map fun id ↦ (id, 380))
    g.ids.Nodup ∧ "a" ∈ g.ids ∧ (∀ id ∈ g.ids, id ∈ widths.keys) ∧
      ∃ l xs leftovers filled, Leveling.assign g "a" = .ok l ∧
        g.IsLineage "a" l.levels (g.owners "a" l.levels) ∧
        g.treeXs "a" (g.owners "a" l.levels) widths widths 60 0 = .ok xs ∧
        Row.placeLeftovers g.ids xs l.levels widths 60 = .ok (leftovers, filled) ∧
        g.IsTreeAndRest "a" (g.owners "a" l.levels) xs leftovers filled := by
  intro g widths
  have hids : g.ids.Nodup := by decide
  have hentry : "a" ∈ g.ids := by decide
  have hwidths : ∀ id ∈ g.ids, id ∈ widths.keys := by
    intro id hid
    exact Table.mem_keys_ofList.mpr (by simpa using hid)
  exact ⟨hids, hentry, hwidths, exists_isLineage hids hentry hwidths hwidths 60 0⟩

end Graph

end FlowChart
