import FlowChart.Graph.Import
import FlowChart.Proofs.Graph.Coherence
import FlowChart.Proofs.Layout.Ownership

/-!
# Subtrees are counted once

The widths of subtrees are added up from the bottom up, over the successors that a block owns.
A block has at most one owner, so its width enters the sum of that one only, and as often as the
owner lists it. A block that is not listed twice is therefore counted once at most. In the graph of
a listing no block is. In one from outside a block may be: edges side by side between two blocks
make the one list the other twice, and then its width is counted twice.
-/

namespace FlowChart.Graph

variable {g : Graph} {owners : Table String String}

/-- How often a block is listed by its owner. -/
def timesOwned (g : Graph) (owners : Table String String) (child : String) : Nat :=
  match (owners.get? child).bind g.block? with
  | none => 0
  | some owner => owner.successors.count child

/-- The owned successors of a node are those of its block. -/
private theorem count_ownedBy (id child : String) :
    (g.ownedBy owners id).count child =
      if owners.get? child = some id then g.timesOwned owners child else 0 := by
  unfold ownedBy timesOwned
  split
  · next hnone =>
    split
    · next howner => simp [howner, hnone]
    · rfl
  · next b hb =>
    split
    · next howner =>
      rw [List.count_filter (by simpa using howner)]
      simp [howner, hb]
    · next howner =>
      rw [List.count_eq_zero]
      intro hmem
      exact howner (by simpa using (List.mem_filter.mp hmem).2)

private theorem count_flatMap_ownedBy {ids : List String} (nodup : ids.Nodup)
    {child owner : String} (howner : owners.get? child = some owner) :
    (ids.flatMap (g.ownedBy owners)).count child =
      if owner ∈ ids then g.timesOwned owners child else 0 := by
  induction ids with
  | nil => rfl
  | cons id ids ih =>
    obtain ⟨hid, hids⟩ := List.nodup_cons.mp nodup
    rw [List.flatMap_cons, List.count_append, count_ownedBy, ih hids, howner]
    by_cases heq : owner = id
    · subst heq
      simp [hid]
    · simp [heq]

/-- Among the successors that the blocks own, a block occurs as often as its owner lists it. -/
theorem count_owned (distinct : g.ids.Nodup) {ids : List String} (hids : ids.Perm g.ids)
    (child : String) :
    (ids.flatMap (g.ownedBy owners)).count child = g.timesOwned owners child := by
  rw [(hids.flatMap_right _).count_eq]
  cases howner : owners.get? child with
  | none =>
    rw [timesOwned, howner, Option.bind_none, List.count_eq_zero]
    intro hmem
    obtain ⟨id, -, hchild⟩ := List.mem_flatMap.mp hmem
    obtain ⟨b, -, -, hsome⟩ := mem_ownedBy.mp hchild
    rw [howner] at hsome
    cases hsome
  | some owner =>
    rw [count_flatMap_ownedBy distinct howner]
    split
    · rfl
    · next hout =>
      have hnone : g.block? owner = none := by
        rw [← Option.not_isSome_iff_eq_none, isSome_block?, contains_iff]
        exact hout
      rw [timesOwned, howner, Option.bind_some, hnone]

/-! ### Sums -/

variable {α : Type} [Scalar α]

/-- The width of a subtree: that of its block or, if that is more, of the subtrees whose widths are
added up. -/
def subtreeWidth (gap own : α) (terms : List (String × α)) : α :=
  if terms.isEmpty then own else Scalar.larger own (sideBySide gap (terms.map (·.2)))

/-- A run of the pass that adds up widths, block by block, with the terms of each sum: there is one
for each successor that the block owns. -/
inductive SubtreeRun (g : Graph) (owners : Table String String) (widths : Table String α)
    (gap : α) :
    Table String α → List String → List (List (String × α)) → Table String α → Prop where
  /-- No block is left. -/
  | done (found) : SubtreeRun g owners widths gap found [] [] found
  /-- The sum of the next block is taken. -/
  | next {found id own terms rest sums last} (hown : widths.get? id = some own)
      (hterms : List.Forall₂ (fun child term ↦ term.1 = child ∧
        childWidth widths found child = .ok term.2) (g.ownedBy owners id) terms)
      (hrest : SubtreeRun g owners widths gap (found.insert id (subtreeWidth gap own terms)) rest
        sums last) :
      SubtreeRun g owners widths gap found (id :: rest) (terms :: sums) last

variable {widths : Table String α} {gap : α}

/-- The terms of all sums are the owned successors. -/
theorem SubtreeRun.map_fst {found last : Table String α} {ids : List String}
    {sums : List (List (String × α))} (h : SubtreeRun g owners widths gap found ids sums last) :
    sums.flatten.map (·.1) = ids.flatMap (g.ownedBy owners) := by
  induction h with
  | done => rfl
  | next _ hterms _ ih =>
    have hhere := map_eq_of_forall₂ (f := id) (g := (·.1)) (fun _ _ h ↦ h.1) hterms
    rw [List.flatten_cons, List.map_append, List.flatMap_cons, ih, hhere, List.map_id]

private theorem forall₂_zip {β γ : Type} {r : β → γ → Prop} {xs : List β} {ys : List γ}
    (h : List.Forall₂ r xs ys) : List.Forall₂ (fun x p ↦ p.1 = x ∧ r x p.2) xs (xs.zip ys) := by
  induction h with
  | nil => exact .nil
  | cons hxy _ ih => exact .cons ⟨rfl, hxy⟩ ih

/-- A step of the pass takes the sum of a block. -/
private theorem exists_terms_of_addSubtree {found found' : Table String α} {id : String}
    (h : g.addSubtree owners widths gap found id = .ok found') :
    ∃ own terms, widths.get? id = some own ∧
      List.Forall₂ (fun child term ↦ term.1 = child ∧
        childWidth widths found child = .ok term.2) (g.ownedBy owners id) terms ∧
      found' = found.insert id (subtreeWidth gap own terms) := by
  obtain ⟨own, hown, h⟩ := exists_of_bind_eq_ok h
  refine ⟨own, ?_⟩
  dsimp only at h
  split at h
  · next hnone =>
    rw [List.isEmpty_iff] at hnone
    cases h
    exact ⟨[], Table.fetch_eq_ok_iff.mp hown, hnone ▸ .nil, rfl⟩
  · next hsome =>
    obtain ⟨childWidths, hwidths, h⟩ := exists_of_bind_eq_ok h
    cases h
    have hall := forall₂_of_mapM_eq_ok hwidths
    have hsnd : ((g.ownedBy owners id).zip childWidths).map (·.2) = childWidths :=
      List.map_snd_zip (Nat.le_of_eq hall.length_eq.symm)
    have hfst : ((g.ownedBy owners id).zip childWidths).map (·.1) = g.ownedBy owners id :=
      List.map_fst_zip (Nat.le_of_eq hall.length_eq)
    refine ⟨_, Table.fetch_eq_ok_iff.mp hown, forall₂_zip hall, ?_⟩
    have hterms : ((g.ownedBy owners id).zip childWidths).isEmpty = false := by
      rw [← Bool.not_eq_true, List.isEmpty_iff]
      intro hnil
      rw [hnil] at hfst
      exact hsome (List.isEmpty_iff.mpr hfst.symm)
    rw [subtreeWidth, hterms, hsnd]
    rfl

/-- A pass that succeeds is a run. -/
theorem exists_run_of_subtreeWidths {ids : List String} {found last : Table String α}
    (h : ids.foldlM (g.addSubtree owners widths gap) found = .ok last) :
    ∃ sums, SubtreeRun g owners widths gap found ids sums last := by
  induction ids generalizing found with
  | nil =>
    cases h
    exact ⟨[], .done _⟩
  | cons id rest ih =>
    rw [List.foldlM_cons] at h
    obtain ⟨found', hstep, hrest⟩ := exists_of_bind_eq_ok h
    obtain ⟨own, terms, hown, hterms, rfl⟩ := exists_terms_of_addSubtree hstep
    obtain ⟨sums, hsums⟩ := ih hrest
    exact ⟨terms :: sums, .next hown hterms hsums⟩

/-! ### Counting -/

/-- A graph of a listing, or one from outside with different ids. -/
inductive Given : Graph → Prop where
  /-- A listing has a graph. -/
  | ofListing (c : Classifier) (listing : List Instruction) : Given (Listing.split c listing)
  /-- Records are accepted, and no two blocks have one id. -/
  | ofRecords {blocks edges : Json} {g : Graph}
      (accepted : (Graph.ofRecords blocks edges).outcome = .ok g) (distinct : g.ids.Nodup) : Given g

/-- No block lists a block twice among its successors. -/
inductive ListsOnce (child : String) : Graph → Prop where
  /-- In the graph of a listing no block does so. -/
  | ofListing (c : Classifier) (listing : List Instruction) :
      ListsOnce child (Listing.split c listing)
  /-- In another graph no block may do so. -/
  | ofBlocks {g : Graph} (once : ∀ b ∈ g.blocks, b.successors.count child ≤ 1) : ListsOnce child g

/-- How the width of a subtree is counted, where the successors that blocks own are the terms of
sums. -/
structure Counts (g : Graph) (owners : Table String String) (sums : List (List (String × α)))
    (child : String) : Prop where
  /-- At most one block owns it. -/
  owner : ∀ {id id'}, child ∈ g.ownedBy owners id → child ∈ g.ownedBy owners id' → id = id'
  /-- It is owned as often as its owner lists it. -/
  owned : (g.ids.flatMap (g.ownedBy owners)).count child = g.timesOwned owners child
  /-- It is a term of the sums as often as its owner lists it. -/
  summed : (sums.flatten.map (·.1)).count child = g.timesOwned owners child
  /-- It is counted once at most, if it is not listed twice. -/
  once : g.ListsOnce child → g.timesOwned owners child ≤ 1

private theorem Given.nodup_ids (h : g.Given) : g.ids.Nodup := by
  cases h with
  | ofListing c listing => exact Listing.nodup_ids_split c listing
  | ofRecords _ distinct => exact distinct

private theorem ListsOnce.count_le_one {child : String} (h : g.ListsOnce child) :
    ∀ b ∈ g.blocks, b.successors.count child ≤ 1 := by
  cases h with
  | ofListing c listing =>
    intro b hb
    have hnodup := (Listing.isCoherent_split c listing).nodup_successors b hb
    exact List.nodup_iff_count_le_one.mp hnodup child
  | ofBlocks once => exact once

private theorem timesOwned_le_one {child : String} (h : g.ListsOnce child) :
    g.timesOwned owners child ≤ 1 := by
  unfold timesOwned
  split
  · exact Nat.zero_le 1
  · next owner howner =>
    obtain ⟨id, -, hid⟩ := Option.bind_eq_some_iff.mp howner
    exact h.count_le_one owner (mem_and_id_of_block? hid).1

/-- Every block is owned by one block at most, and its width is a term of the sum of that block
alone, as often as the block lists it. Where no block lists another one twice, this is once. -/
theorem exists_sums_count (hg : g.Given) {entry : String} (hentry : entry ∈ g.ids)
    {widths : Table String α} (hwidths : ∀ id ∈ g.ids, id ∈ widths.keys) (gap : α) :
    ∃ l found sums, Leveling.assign g entry = .ok l ∧
      g.subtreeWidths l.levels (g.owners entry l.levels) widths gap = .ok found ∧
      SubtreeRun g (g.owners entry l.levels) widths gap .empty (g.fromBottom l.levels) sums found ∧
      ∀ child, g.Counts (g.owners entry l.levels) sums child := by
  obtain ⟨l, hl, hcovers⟩ := Leveling.succeeds_assign hentry
  have howners : ∀ id ∈ (g.owners entry l.levels).keys, id ∈ g.ids :=
    fun _ ↦ mem_ids_of_mem_owners hcovers
  have hsucceeds : Succeeds (g.subtreeWidths l.levels (g.owners entry l.levels) widths gap) _ :=
    succeeds_subtreeWidths hwidths howners
  obtain ⟨found, hfound, -⟩ := hsucceeds
  obtain ⟨sums, hsums⟩ := exists_run_of_subtreeWidths hfound
  refine ⟨l, found, sums, hl, hfound, hsums, fun child ↦ ?_⟩
  constructor
  · intro id id' hid hid'
    obtain ⟨_, -, -, howner⟩ := mem_ownedBy.mp hid
    obtain ⟨_, -, -, howner'⟩ := mem_ownedBy.mp hid'
    exact Option.some.inj (howner.symm.trans howner')
  · exact count_owned hg.nodup_ids (.refl _) child
  · rw [hsums.map_fst]
    exact count_owned hg.nodup_ids (perm_sortBy _ _) child
  · exact timesOwned_le_one

/-- Two ways meet again, so that the last block has two predecessors. -/
theorem exists_sums_count_meeting :
    let g := Listing.split .x86 [⟨"0x0", "", "je", "0x8", .null⟩, ⟨"0x4", "", "nop", "", .null⟩,
      ⟨"0x8", "", "ret", "", .null⟩]
    let widths : Table String Rat := .ofList (g.ids.map fun id ↦ (id, 380))
    g.Given ∧ "block_0" ∈ g.ids ∧ (∀ id ∈ g.ids, id ∈ widths.keys) ∧
      ∃ l found sums, Leveling.assign g "block_0" = .ok l ∧
        g.subtreeWidths l.levels (g.owners "block_0" l.levels) widths 60 = .ok found ∧
        SubtreeRun g (g.owners "block_0" l.levels) widths 60 .empty (g.fromBottom l.levels) sums
          found ∧
        ∀ child, g.Counts (g.owners "block_0" l.levels) sums child := by
  intro g widths
  have hg : g.Given := .ofListing _ _
  have hentry : "block_0" ∈ g.ids := by decide +kernel
  have hwidths : ∀ id ∈ g.ids, id ∈ widths.keys := by
    intro id hid
    exact Table.mem_keys_ofList.mpr (by simpa using hid)
  exact ⟨hg, hentry, hwidths, exists_sums_count hg hentry hwidths 60⟩

private theorem exists_of_toOption_bind {ε β γ : Type} {x : Except ε β} {f : β → Option γ} {c : γ}
    (h : x.toOption.bind f = some c) : ∃ b, x = .ok b ∧ f b = some c := by
  cases x with
  | error failure => cases h
  | ok b => exact ⟨b, rfl, h⟩

/-- Two edges side by side make a block from outside list the other one twice. It owns it twice,
and counts its width twice. -/
theorem exists_counted_twice :
    let blocks : Json := .array [.object [("id", .text "a"), ("isEntry", .bool true)],
      .object [("id", .text "b")]]
    let edges : Json := .array [
      .object [("from", .text "a"), ("to", .text "b"), ("type", .text "conditional-true")],
      .object [("from", .text "a"), ("to", .text "b"), ("type", .text "conditional-false")]]
    let g : Graph := ⟨[⟨0, "a", [], "", "", ["b", "b"], [], true, false⟩,
      ⟨1, "b", [], "", "", [], ["a", "a"], false, true⟩],
      [⟨"a", "b", .conditionalTrue⟩, ⟨"a", "b", .conditionalFalse⟩]⟩
    let widths : Table String Rat := .ofList [("a", 380), ("b", 380)]
    (Graph.ofRecords blocks edges).outcome = .ok g ∧ g.ids.Nodup ∧
      ∃ l, Leveling.assign g "a" = .ok l ∧
        g.ids.flatMap (g.ownedBy (g.owners "a" l.levels)) = ["b", "b"] ∧
        ∃ found, g.subtreeWidths l.levels (g.owners "a" l.levels) widths 60 = .ok found ∧
          found.get? "a" = some 820 := by
  intro blocks edges g widths
  have hfound : ((Leveling.assign g "a").toOption.bind fun l ↦
      if g.ids.flatMap (g.ownedBy (g.owners "a" l.levels)) = ["b", "b"] then
        (g.subtreeWidths l.levels (g.owners "a" l.levels) widths 60).toOption.bind (·.get? "a")
      else none) = some 820 := by decide +kernel
  obtain ⟨l, hl, h⟩ := exists_of_toOption_bind hfound
  split at h
  · next howned => exact ⟨rfl, by decide, l, hl, howned, exists_of_toOption_bind h⟩
  · cases h

end FlowChart.Graph
