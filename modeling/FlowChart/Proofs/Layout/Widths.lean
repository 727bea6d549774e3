import FlowChart.Proofs.Layout.Subtrees

/-!
# Subtree widths by recursion

The width of a subtree is defined by recursion: from the width of its block and the widths of the
subtrees that the block owns. The pass from the bottom up goes through the blocks once, and yet it
gives every block the width of the definition, in any arithmetic. When it comes to a block it has
been to all that the block owns, since what is owned lies deeper, and has found their widths for
good. So it never has to put up with a block's own width in place of that of its subtree.
-/

namespace FlowChart.Graph

variable {α : Type} [Scalar α]

/-- The width of a subtree, by recursion on what blocks own. -/
inductive IsSubtreeWidth (g : Graph) (owners : Table String String) (widths : Table String α)
    (gap : α) : String → α → Prop where
  /-- A block that owns nothing keeps its own width. -/
  | alone {id own} (hown : widths.get? id = some own) (hnone : g.ownedBy owners id = []) :
    IsSubtreeWidth g owners widths gap id own
  /-- Another block takes the widths of the subtrees that it owns and of the gaps between them, if
  that is more. -/
  | shared {id own} (width : String → α) (hown : widths.get? id = some own)
    (hsome : g.ownedBy owners id ≠ [])
    (hchildren : ∀ child ∈ g.ownedBy owners id,
      IsSubtreeWidth g owners widths gap child (width child)) :
    IsSubtreeWidth g owners widths gap id
      (Scalar.larger own (Scalar.sum ((g.ownedBy owners id).map width) +
        gap * ((((g.ownedBy owners id).length : Int) - 1 : Int) : α)))

variable {g : Graph} {entry id child : String} {levels : Table String Int}
  {owners : Table String String} {widths found : Table String α} {gap w w' : α}

/-- A subtree has one width at most. -/
theorem IsSubtreeWidth.unique (h : g.IsSubtreeWidth owners widths gap id w)
    (h' : g.IsSubtreeWidth owners widths gap id w') : w' = w := by
  induction h generalizing w' with
  | alone hown hnone =>
    cases h' with
    | alone hown' _ => exact Option.some.inj (hown'.symm.trans hown)
    | shared _ _ hsome' _ => exact absurd hnone hsome'
  | shared width hown hsome hchildren ih =>
    cases h' with
    | alone _ hnone' => exact absurd hnone' hsome
    | shared width' hown' _ hchildren' =>
      cases hown.symm.trans hown'
      have hsame : (g.ownedBy owners _).map width' = (g.ownedBy owners _).map width :=
        List.map_congr_left fun child hchild ↦ ih child hchild (hchildren' child hchild)
      rw [hsame]

/-! ### From the bottom up -/

/-- What a block owns comes before it. -/
theorem not_mem_of_fromBottom {before after : List String}
    (h : g.fromBottom levels = before ++ id :: after)
    (hchild : child ∈ g.ownedBy (g.owners entry levels) id) : child ∉ id :: after := by
  have hsorted := pairwise_fromBottom g levels
  rw [h] at hsorted
  have hbelow := (List.pairwise_cons.mp (List.pairwise_append.mp hsorted).2.1).1
  have hdeeper := lt_of_mem_ownedBy hchild
  rw [List.mem_cons]
  rintro (rfl | hafter)
  · exact lt_irrefl _ hdeeper
  · exact absurd hdeeper (not_lt.mpr (hbelow child hafter))

/-- What holds of a block as soon as it holds of all that the block owns, holds of every block. -/
theorem induction_fromBottom (entry : String) (hlevels : levels.Covers g) {p : String → Prop}
    (step : ∀ id ∈ g.ids, (∀ child ∈ g.ownedBy (g.owners entry levels) id, p child) → p id) :
    ∀ id ∈ g.ids, p id := by
  have hmem : ∀ {id}, id ∈ g.fromBottom levels ↔ id ∈ g.ids := mem_sortBy
  suffices hrest : ∀ after before, g.fromBottom levels = before ++ after → (∀ id ∈ before, p id) →
      ∀ id ∈ after, p id from fun id hid ↦ hrest _ [] rfl (by simp) id (hmem.mpr hid)
  intro after
  induction after with
  | nil => simp
  | cons id after ih =>
    intro before hsplit hbefore
    have hid : p id := by
      refine step id (hmem.mp (hsplit ▸ by simp)) fun child hchild ↦ hbefore child ?_
      have hblock : child ∈ g.fromBottom levels :=
        hmem.mpr (mem_ids_of_mem_owners hlevels (mem_owners_of_mem_ownedBy hchild))
      rw [hsplit, List.mem_append] at hblock
      exact hblock.resolve_right (not_mem_of_fromBottom hsplit hchild)
    refine List.forall_mem_cons.mpr ⟨hid, ih (before ++ [id]) (by simp [hsplit]) ?_⟩
    intro k hk
    rcases List.mem_append.mp hk with hk | hk
    · exact hbefore k hk
    · exact List.mem_singleton.mp hk ▸ hid

/-! ### The pass -/

/-- The pass finds the widths of the definition. -/
private theorem isSubtreeWidth_of_subtreeWidths (hlevels : levels.Covers g)
    (hwidths : ∀ id ∈ g.ids, id ∈ widths.keys)
    (h : g.subtreeWidths levels (g.owners entry levels) widths gap = .ok found) :
    ∀ id ∈ g.ids, ∀ w, found.get? id = some w →
      g.IsSubtreeWidth (g.owners entry levels) widths gap id w := by
  refine induction_fromBottom entry hlevels (p := fun id ↦ ∀ w, found.get? id = some w →
    g.IsSubtreeWidth (g.owners entry levels) widths gap id w) fun id hid ih w hw ↦ ?_
  obtain ⟨own, width, hown, hchildren, hget⟩ :=
    exists_width_of_subtreeWidths hlevels hwidths h hid
  rw [hw, Option.some.injEq] at hget
  subst hget
  split
  · next hnone => exact .alone hown hnone
  · next hsome =>
    rw [sideBySide, List.length_map]
    exact .shared width hown hsome fun child hchild ↦ ih child hchild _ (hchildren child hchild)

/-- When the pass comes to a block, the widths of all that the block owns are found for good. -/
private theorem exists_found_before {before after : List String}
    (hlevels : levels.Covers g) (hwidths : ∀ id ∈ g.ids, id ∈ widths.keys)
    (h : g.subtreeWidths levels (g.owners entry levels) widths gap = .ok found)
    (hsplit : g.fromBottom levels = before ++ id :: after) :
    ∃ sofar, before.foldlM (g.addSubtree (g.owners entry levels) widths gap) .empty = .ok sofar ∧
      ∀ child ∈ g.ownedBy (g.owners entry levels) id,
        ∃ w, sofar.get? child = some w ∧ found.get? child = some w := by
  have howners : ∀ id ∈ (g.owners entry levels).keys, id ∈ g.ids := fun _ ↦
    mem_ids_of_mem_owners hlevels
  have hkeys := (succeeds_subtreeWidths hwidths howners).of_eq_ok h
  rw [subtreeWidths, hsplit, List.foldlM_append] at h
  obtain ⟨sofar, hbefore, hrest⟩ := exists_of_bind_eq_ok h
  obtain ⟨sums, hrun⟩ := exists_run_of_subtreeWidths hrest
  refine ⟨sofar, hbefore, fun child hchild ↦ ?_⟩
  obtain ⟨w, hw⟩ := Table.mem_keys_iff.mp
    (hkeys child (howners child (mem_owners_of_mem_ownedBy hchild)))
  rw [← hrun.get?_of_not_mem (not_mem_of_fromBottom hsplit hchild)]
  exact ⟨w, hw, hw⟩

/-- One pass from the bottom up gives every block the one width that the definition gives it. The
widths of what a block owns are always found before it, and are final. -/
theorem exists_isSubtreeWidth (hentry : entry ∈ g.ids) (hwidths : ∀ id ∈ g.ids, id ∈ widths.keys)
    (gap : α) :
    ∃ l found, Leveling.assign g entry = .ok l ∧
      g.subtreeWidths l.levels (g.owners entry l.levels) widths gap = .ok found ∧
      (∀ id ∈ g.ids, ∃ w, found.get? id = some w ∧
        ∀ w', g.IsSubtreeWidth (g.owners entry l.levels) widths gap id w' ↔ w' = w) ∧
      ∀ before id after, g.fromBottom l.levels = before ++ id :: after →
        ∃ sofar, before.foldlM (g.addSubtree (g.owners entry l.levels) widths gap) .empty =
            .ok sofar ∧
          ∀ child ∈ g.ownedBy (g.owners entry l.levels) id,
            ∃ w, sofar.get? child = some w ∧ found.get? child = some w := by
  obtain ⟨l, hl, hlevels⟩ := Leveling.succeeds_assign hentry
  have hsucceeds : Succeeds (g.subtreeWidths l.levels (g.owners entry l.levels) widths gap) _ :=
    succeeds_subtreeWidths hwidths fun _ ↦ mem_ids_of_mem_owners hlevels
  obtain ⟨found, hfound, hkeys⟩ := hsucceeds
  refine ⟨l, found, hl, hfound, fun id hid ↦ ?_, fun _ _ _ ↦
    exists_found_before hlevels hwidths hfound⟩
  obtain ⟨w, hw⟩ := Table.mem_keys_iff.mp (hkeys id hid)
  have hdefined := isSubtreeWidth_of_subtreeWidths hlevels hwidths hfound id hid w hw
  refine ⟨w, hw, fun w' ↦ ⟨hdefined.unique, ?_⟩⟩
  rintro rfl
  exact hdefined

/-- The body of a loop jumps back to its head, and the way out of the loop meets another one. -/
theorem exists_isSubtreeWidth_loop :
    let g := Listing.split .x86 [⟨"0x0", "", "je", "0x10", .null⟩, ⟨"0x4", "", "je", "0x10", .null⟩,
      ⟨"0x8", "", "nop", "", .null⟩, ⟨"0xc", "", "jmp", "0x4", .null⟩,
      ⟨"0x10", "", "ret", "", .null⟩]
    let widths : Table String Rat := .ofList (g.ids.map fun id ↦ (id, 380))
    "block_0" ∈ g.ids ∧ (∀ id ∈ g.ids, id ∈ widths.keys) ∧
      ∃ l found, Leveling.assign g "block_0" = .ok l ∧
        g.subtreeWidths l.levels (g.owners "block_0" l.levels) widths 60 = .ok found ∧
        (∀ id ∈ g.ids, ∃ w, found.get? id = some w ∧
          ∀ w', g.IsSubtreeWidth (g.owners "block_0" l.levels) widths 60 id w' ↔ w' = w) ∧
        ∀ before id after, g.fromBottom l.levels = before ++ id :: after →
          ∃ sofar, before.foldlM (g.addSubtree (g.owners "block_0" l.levels) widths 60) .empty =
              .ok sofar ∧
            ∀ child ∈ g.ownedBy (g.owners "block_0" l.levels) id,
              ∃ w, sofar.get? child = some w ∧ found.get? child = some w := by
  intro g widths
  have hentry : "block_0" ∈ g.ids := by decide +kernel
  have hwidths : ∀ id ∈ g.ids, id ∈ widths.keys := by
    intro id hid
    exact Table.mem_keys_ofList.mpr (by simpa using hid)
  exact ⟨hentry, hwidths, exists_isSubtreeWidth hentry hwidths 60⟩

end FlowChart.Graph
