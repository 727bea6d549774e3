import FlowChart.Layout.Tree
import FlowChart.Proofs.Layout.Levels

/-!
# Walks along ownership

Only blocks of the graph are ever owned, since only they have levels, and they lie deeper than their
owners. So the widths that the bottom-up pass and the walk down the tree ask for are always there:
both succeed on every graph, whatever its successor lists name, and place nothing but blocks of the
graph.
-/

namespace FlowChart

namespace OwnerWalk

variable {levels : Table String Int} {s : OwnerWalk}

/-- A successor that does not lie deeper is passed over. Any other one is claimed, and enters the
queue unless it has done so before. -/
theorem claim_cases (levels : Table String Int) (owner : String) (level : Int) (s : OwnerWalk)
    (child : String) :
    (∀ childLevel, levels.get? child = some childLevel → childLevel ≤ level) ∧
      claim levels owner level s child = s ∨
    (∃ childLevel, levels.get? child = some childLevel ∧ level < childLevel) ∧
      (child ∈ s.seen ∧ claim levels owner level s child =
          ⟨s.owners.insertIfNew child owner, s.seen, s.queue⟩ ∨
        child ∉ s.seen ∧ claim levels owner level s child =
          ⟨s.owners.insertIfNew child owner, child :: s.seen, s.queue ++ [child]⟩) := by
  unfold claim
  cases hchild : levels.get? child with
  | none => exact .inl ⟨by simp, rfl⟩
  | some childLevel =>
    by_cases hle : childLevel ≤ level
    · exact .inl ⟨fun _ h ↦ Option.some.inj h ▸ hle, if_pos hle⟩
    · refine .inr ⟨⟨childLevel, rfl, Int.not_le.mp hle⟩, ?_⟩
      dsimp only
      rw [if_neg hle]
      by_cases hseen : child ∈ s.seen
      · exact .inl ⟨hseen, if_pos (List.contains_iff_mem.mpr hseen)⟩
      · exact .inr ⟨hseen, if_neg (mt List.contains_iff_mem.mp hseen)⟩

/-- Whatever is owned has a level, which is deeper than that of its owner. -/
def OwnsDeeper (levels : Table String Int) (s : OwnerWalk) : Prop :=
  ∀ child owner, s.owners.get? child = some owner →
    ∃ level, levels.get? child = some level ∧ (levels.get? owner).getD 0 < level

private theorem ownsDeeper_claim (h : OwnsDeeper levels s) (owner child : String) :
    OwnsDeeper levels (claim levels owner ((levels.get? owner).getD 0) s child) := by
  obtain ⟨-, heq⟩ | ⟨⟨level, hlevel, hdeeper⟩, hclaim⟩ :=
    claim_cases levels owner ((levels.get? owner).getD 0) s child
  · rw [heq]
    exact h
  · have hclaimed : ∀ seen queue,
        OwnsDeeper levels ⟨s.owners.insertIfNew child owner, seen, queue⟩ := by
      intro seen queue k o hget
      rw [Table.get?_insertIfNew] at hget
      split at hget
      · next hnew =>
        cases hget
        exact ⟨level, hnew.2 ▸ hlevel, hdeeper⟩
      · exact h k o hget
    rcases hclaim with ⟨-, heq⟩ | ⟨-, heq⟩ <;> rw [heq] <;> exact hclaimed _ _

private theorem ownsDeeper_visit (h : OwnsDeeper levels s) (g : Graph) (id : String) :
    OwnsDeeper levels (visit g levels s id) := by
  unfold visit
  split
  · exact h
  · next b _ =>
    generalize b.successors = children
    induction children generalizing s with
    | nil => exact h
    | cons child rest ih => exact ih (ownsDeeper_claim h id child)

private theorem ownsDeeper_run (h : OwnsDeeper levels s) (g : Graph) (bound : Nat) :
    OwnsDeeper levels (run g levels bound s) := by
  induction bound generalizing s with
  | zero => exact h
  | succ bound ih =>
    unfold run
    split
    · exact h
    · next id rest _ => exact ih (ownsDeeper_visit (s := { s with queue := rest }) h g id)

end OwnerWalk

namespace Graph

variable {g : Graph} {entry : String} {levels : Table String Int} {owners : Table String String}

/-- Whatever is owned has a level, which is deeper than that of its owner. -/
theorem exists_level_of_owner {child owner : String}
    (h : (g.owners entry levels).get? child = some owner) :
    ∃ level, levels.get? child = some level ∧ (levels.get? owner).getD 0 < level := by
  have start : OwnerWalk.OwnsDeeper levels ⟨.empty, [entry], [entry]⟩ := by
    intro child owner hget
    simp at hget
  exact OwnerWalk.ownsDeeper_run start g _ child owner h

/-- What a block owns is on a deeper level. -/
theorem lt_of_mem_ownedBy {id child : String} (h : child ∈ g.ownedBy (g.owners entry levels) id) :
    (levels.get? id).getD 0 < (levels.get? child).getD 0 := by
  obtain ⟨_, -, -, howner⟩ := mem_ownedBy.mp h
  obtain ⟨level, hlevel, hlt⟩ := exists_level_of_owner howner
  rwa [hlevel, Option.getD_some]

/-- Only blocks of the graph are owned, if only they have levels. -/
theorem mem_ids_of_mem_owners (h : levels.Covers g) {id : String}
    (hid : id ∈ (g.owners entry levels).keys) : id ∈ g.ids := by
  obtain ⟨owner, howner⟩ := Table.mem_keys_iff.mp hid
  obtain ⟨level, hlevel, -⟩ := exists_level_of_owner howner
  exact h.mem_ids hlevel

/-- What a block owns has an owner. -/
theorem mem_owners_of_mem_ownedBy {id child : String}
    (h : child ∈ g.ownedBy owners id) : child ∈ owners.keys := by
  obtain ⟨_, _, _, hget⟩ := mem_ownedBy.mp h
  exact Table.mem_keys_iff.mpr ⟨id, hget⟩

variable {α : Type} [Scalar α] {widths : Table String α}

private theorem succeeds_addSubtree {gap : α} {found : Table String α} {id : String}
    (hwidths : ∀ id ∈ g.ids, id ∈ widths.keys) (howners : ∀ id ∈ owners.keys, id ∈ g.ids)
    (hid : id ∈ g.ids) :
    Succeeds (g.addSubtree owners widths gap found id)
      fun found' ↦ ∀ k, k ∈ found'.keys ↔ k = id ∨ k ∈ found.keys := by
  obtain ⟨own, hown⟩ := Table.mem_keys_iff.mp (hwidths id hid)
  unfold addSubtree
  apply (Succeeds.fetch hown).bind
  intro _ _
  dsimp only
  split
  · exact .ok fun k ↦ Table.mem_keys_insert
  · have hchildren : ∀ child ∈ g.ownedBy owners id,
        Succeeds (childWidth widths found child) fun _ ↦ True := by
      intro child hchild
      obtain ⟨w, hw⟩ := Table.mem_keys_iff.mp
        (hwidths child (howners child (mem_owners_of_mem_ownedBy hchild)))
      exact (Succeeds.fetch hw).bind fun _ _ ↦ .ok trivial
    exact (Succeeds.mapM hchildren).bind fun _ _ ↦ .ok fun k ↦ Table.mem_keys_insert

/-- Every block gets a subtree width. -/
theorem succeeds_subtreeWidths {gap : α} (hwidths : ∀ id ∈ g.ids, id ∈ widths.keys)
    (howners : ∀ id ∈ owners.keys, id ∈ g.ids) :
    Succeeds (g.subtreeWidths levels owners widths gap)
      fun found ↦ ∀ id ∈ g.ids, id ∈ found.keys := by
  have hmem : ∀ id, id ∈ g.fromBottom levels ↔ id ∈ g.ids := fun _ ↦ mem_sortBy
  refine (Succeeds.foldlM (fun done found ↦ ∀ id ∈ done, id ∈ found.keys) (by simp)
    fun done id rest hsplit found hfound ↦ ?_).imp fun found h id hid ↦ h id ((hmem id).mpr hid)
  have hid : id ∈ g.ids := (hmem id).mp (hsplit ▸ by simp)
  apply (succeeds_addSubtree hwidths howners hid).imp
  intro found' hkeys k hk
  rcases List.mem_append.mp hk with hk | hk
  · exact (hkeys k).mpr (.inr (hfound k hk))
  · exact (hkeys k).mpr (.inl (List.mem_singleton.mp hk))

end Graph

namespace TreeWalk

variable {α : Type} [Scalar α] {g : Graph} {owners : Table String String}
  {widths subtree : Table String α} {gap : α} {s : TreeWalk α}

/-- A block that leaves the stack is dropped if it has a place. Otherwise it gets one, and what it owns
goes on the stack. -/
theorem place_cases {id : String} {center : α} {s' : TreeWalk α}
    (h : place g owners widths subtree gap s id center = .ok s') :
    id ∈ s.xs.keys ∧ s' = s ∨
    id ∉ s.xs.keys ∧ ∃ width childWidths, widths.get? id = some width ∧
      List.Forall₂ (fun child w ↦ subtree.get? child = some w) (g.childrenOf owners id)
        childWidths ∧
      s' = ⟨s.xs.insert id (center - Scalar.half width),
        (slices gap (center - Scalar.half (Graph.sideBySide gap childWidths))
          ((g.childrenOf owners id).zip childWidths)).reverse ++ s.stack⟩ := by
  unfold place at h
  split at h
  · next hplaced =>
    cases h
    exact .inl ⟨(s.xs.contains_iff_mem_keys id).mp hplaced, rfl⟩
  · next hnew =>
    refine .inr ⟨mt (s.xs.contains_iff_mem_keys id).mpr hnew, ?_⟩
    obtain ⟨width, hwidth, h⟩ := exists_of_bind_eq_ok h
    refine ⟨width, ?_⟩
    dsimp only at h
    split at h
    · next hnone =>
      cases h
      rw [List.isEmpty_iff.mp hnone]
      exact ⟨[], Table.fetch_eq_ok_iff.mp hwidth, .nil, rfl⟩
    · obtain ⟨childWidths, hwidths, h⟩ := exists_of_bind_eq_ok h
      cases h
      refine ⟨childWidths, Table.fetch_eq_ok_iff.mp hwidth, ?_, rfl⟩
      exact (forall₂_of_mapM_eq_ok hwidths).imp fun _ _ ↦ Table.fetch_eq_ok_iff.mp

/-- What every step of the walk keeps holds when it ends. -/
theorem run_induction {inv : TreeWalk α → Prop}
    (step : ∀ {s s' : TreeWalk α} {id center rest}, inv s → s.stack = (id, center) :: rest →
      place g owners widths subtree gap { s with stack := rest } id center = .ok s' → inv s')
    {bound : Nat} {last : TreeWalk α} (start : inv s)
    (h : run g owners widths subtree gap bound s = .ok last) : inv last := by
  induction bound generalizing s with
  | zero =>
    cases h
    exact start
  | succ bound ih =>
    unfold run at h
    split at h
    · cases h
      exact start
    · next id center rest hstack =>
      obtain ⟨s', hplace, hrun⟩ := exists_of_bind_eq_ok h
      exact ih (step start hstack hplace) hrun

/-- The walk stays within the graph: what is placed and what waits are blocks of it, and no block is
placed twice. -/
structure StaysWithin (g : Graph) (s : TreeWalk α) : Prop where
  /-- No block is placed twice. -/
  distinct : s.xs.HasDistinctKeys
  /-- What is placed are blocks. -/
  placed : ∀ id ∈ s.xs.keys, id ∈ g.ids
  /-- What waits are blocks. -/
  waiting : ∀ item ∈ s.stack, item.1 ∈ g.ids

/-- Slices are for what a block owns. -/
theorem mem_ownedBy_of_mem_slices {id : String} {left : α} {childWidths : List α}
    (hlen : (g.childrenOf owners id).length = childWidths.length) {item : String × α}
    (hitem : item ∈ slices gap left ((g.childrenOf owners id).zip childWidths)) :
    item.1 ∈ g.ownedBy owners id := by
  have hfst := List.mem_map_of_mem (f := (·.1)) hitem
  rwa [map_fst_slices, List.map_fst_zip (Nat.le_of_eq hlen), Graph.mem_childrenOf] at hfst

private theorem succeeds_place (hwidths : ∀ id ∈ g.ids, id ∈ widths.keys)
    (hsubtree : ∀ id ∈ g.ids, id ∈ subtree.keys) (howners : ∀ id ∈ owners.keys, id ∈ g.ids)
    (hs : s.StaysWithin g) {id : String} (hid : id ∈ g.ids) (center : α) :
    Succeeds (place g owners widths subtree gap s id center) (StaysWithin g) := by
  unfold place
  split
  · exact .ok hs
  · obtain ⟨w, hw⟩ := Table.mem_keys_iff.mp (hwidths id hid)
    apply (Succeeds.fetch hw).bind
    intro width _
    have hxs := hs.distinct.insert id (center - Scalar.half width)
    have hplaced : ∀ k ∈ (s.xs.insert id (center - Scalar.half width)).keys, k ∈ g.ids := by
      intro k hk
      rcases Table.mem_keys_insert.mp hk with rfl | hk
      · exact hid
      · exact hs.placed k hk
    dsimp only
    split
    · exact .ok ⟨hxs, hplaced, hs.waiting⟩
    · have hchildren : ∀ child ∈ g.childrenOf owners id,
          Succeeds (subtree.fetch child) fun _ ↦ True := by
        intro child hchild
        obtain ⟨v, hv⟩ := Table.mem_keys_iff.mp (hsubtree child
          (howners child (Graph.mem_owners_of_mem_ownedBy (Graph.mem_childrenOf.mp hchild))))
        exact (Succeeds.fetch hv).imp fun _ _ ↦ trivial
      refine (Succeeds.mapM hchildren).bind fun childWidths hall ↦ .ok ⟨hxs, hplaced, ?_⟩
      intro item hitem
      rcases List.mem_append.mp hitem with hitem | hitem
      · exact howners _ (Graph.mem_owners_of_mem_ownedBy
          (mem_ownedBy_of_mem_slices hall.length_eq (List.mem_reverse.mp hitem)))
      · exact hs.waiting item hitem

private theorem succeeds_run (hwidths : ∀ id ∈ g.ids, id ∈ widths.keys)
    (hsubtree : ∀ id ∈ g.ids, id ∈ subtree.keys) (howners : ∀ id ∈ owners.keys, id ∈ g.ids)
    (hs : s.StaysWithin g) (bound : Nat) :
    Succeeds (run g owners widths subtree gap bound s) (StaysWithin g) := by
  induction bound generalizing s with
  | zero => exact .ok hs
  | succ bound ih =>
    unfold run
    split
    · exact .ok hs
    · next id center rest hstack =>
      have hrest : StaysWithin g { s with stack := rest } :=
        ⟨hs.distinct, hs.placed, fun item hitem ↦
          hs.waiting item (hstack ▸ List.mem_cons_of_mem _ hitem)⟩
      have hid : id ∈ g.ids := hs.waiting (id, center) (hstack ▸ List.mem_cons_self)
      exact (succeeds_place hwidths hsubtree howners hrest hid center).bind fun s' hs' ↦ ih hs'

/-- The walk down the ownership tree places blocks of the graph, each once. -/
theorem succeeds_treeXs {entry : String} {margin : α} (hentry : entry ∈ g.ids)
    (hwidths : ∀ id ∈ g.ids, id ∈ widths.keys) (hsubtree : ∀ id ∈ g.ids, id ∈ subtree.keys)
    (howners : ∀ id ∈ owners.keys, id ∈ g.ids) :
    Succeeds (g.treeXs entry owners widths subtree gap margin)
      fun xs ↦ xs.HasDistinctKeys ∧ ∀ id ∈ xs.keys, id ∈ g.ids := by
  obtain ⟨w, hw⟩ := Table.mem_keys_iff.mp (hsubtree entry hentry)
  apply (Succeeds.fetch hw).bind
  intro width _
  have start : StaysWithin g
      (⟨.empty, [(entry, Scalar.half width + margin)]⟩ : TreeWalk α) :=
    ⟨Table.hasDistinctKeys_empty, by simp, by simpa using hentry⟩
  apply (succeeds_run hwidths hsubtree howners start _).bind
  intro s hs
  exact .ok ⟨hs.distinct, hs.placed⟩

end TreeWalk

end FlowChart
