import FlowChart.Proofs.Layout.Ownership
import FlowChart.Proofs.Search
import Mathlib.Data.List.Flatten

/-!
# Working the stack off

The walk down the ownership tree takes entries off its stack and puts others there, and the stack
may hold a block several times. But what a block owns goes on the stack only when the block is
placed, and no block is placed twice, so at most the successors of all blocks are ever put there:
the loop ends, whatever the owners are, in cycles or not. Then the entry and all that it owns,
directly or through others, are placed, each where it was to stand when it first left the stack.
Only a width that is not known can end the loop before.
-/

namespace FlowChart

namespace TreeWalk

variable {α : Type} {g : Graph} {entry : String} {owners : Table String String}
  {widths subtree xs : Table String α} {gap : α} {s s' last : TreeWalk α} {id : String} {center : α}
  {rest pops : List (String × α)}

/-- What was put on the stack when the blocks were placed that have a place. -/
def pushed (g : Graph) (owners : Table String String) (s : TreeWalk α) : List String :=
  s.xs.keys.flatMap (g.childrenOf owners)

/-- Only successors are put there, those of a block once. -/
private theorem pushed_le (h : s.xs.HasDistinctKeys) :
    (s.pushed g owners).length ≤ (g.blocks.flatMap (·.successors)).length := by
  have hblocks : (s.xs.keys.filterMap g.block?).Subperm g.blocks := by
    refine List.subperm_of_subset (h.filterMap fun id id' b hb hb' ↦ ?_) fun b hb ↦ ?_
    · exact (Graph.mem_and_id_of_block? hb).2.symm.trans (Graph.mem_and_id_of_block? hb').2
    · obtain ⟨id, -, hid⟩ := List.mem_filterMap.mp hb
      exact (Graph.mem_and_id_of_block? hid).1
  have hsuccessors : (s.pushed g owners).length ≤
      ((s.xs.keys.filterMap g.block?).flatMap (·.successors)).length := by
    unfold pushed
    generalize s.xs.keys = ids
    induction ids with
    | nil => exact le_rfl
    | cons id rest ih =>
      have hlength : (g.childrenOf owners id).length = (g.ownedBy owners id).length :=
        (perm_sortBy _ _).length_eq
      rw [List.flatMap_cons, List.length_append, hlength, Graph.ownedBy, List.filterMap_cons]
      cases g.block? id with
      | none => simpa using ih
      | some b =>
        rw [List.flatMap_cons, List.length_append]
        exact Nat.add_le_add (List.length_filter_le _ _) ih
  obtain ⟨blocks, hperm, hsublist⟩ := hblocks
  calc (s.pushed g owners).length
      ≤ ((s.xs.keys.filterMap g.block?).flatMap (·.successors)).length := hsuccessors
    _ = (blocks.flatMap (·.successors)).length := (hperm.flatMap_right _).length_eq.symm
    _ ≤ (g.blocks.flatMap (·.successors)).length := (hsublist.flatMap _).length_le

/-! ### What the walk has come to -/

/-- A block waits on the stack. -/
def Waits (s : TreeWalk α) (id : String) : Prop := id ∈ s.stack.map (·.1)

/-- What the walk has come to. -/
structure Explores (g : Graph) (entry : String) (owners : Table String String) (s : TreeWalk α) :
    Prop where
  /-- No block is placed twice. -/
  distinct : s.xs.HasDistinctKeys
  /-- The entry is placed, or waits. -/
  entered : entry ∈ s.xs.keys ∨ s.Waits entry
  /-- The entry owns what is placed or waits, directly or through others. -/
  reached : ∀ id, (id ∈ s.xs.keys ∨ s.Waits id) →
    Relation.ReflTransGen (Search.Step (g.ownedBy owners)) entry id
  /-- What a placed block owns is placed, or waits. -/
  closed : ∀ id ∈ s.xs.keys, ∀ child ∈ g.ownedBy owners id, child ∈ s.xs.keys ∨ s.Waits child

namespace Explores

/-- At first the entry waits. -/
theorem start (g : Graph) (entry : String) (owners : Table String String) (center : α) :
    Explores g entry owners ⟨.empty, [(entry, center)]⟩ := by
  refine ⟨Table.hasDistinctKeys_empty, .inr (List.mem_singleton_self entry), ?_, by simp⟩
  rintro id (hid | hid)
  · simp at hid
  · exact List.mem_singleton.mp hid ▸ .refl

/-- In the end the entry and all that it owns are placed. -/
theorem mem_keys_iff (h : Explores g entry owners ⟨xs, []⟩) (id : String) :
    id ∈ xs.keys ↔ Relation.ReflTransGen (Search.Step (g.ownedBy owners)) entry id := by
  have hplaced : ∀ {k}, k ∈ xs.keys ∨ Waits (⟨xs, []⟩ : TreeWalk α) k → k ∈ xs.keys := by
    intro k hk
    exact hk.resolve_right (by simp [Waits])
  refine ⟨fun hid ↦ h.reached id (.inl hid), fun hpath ↦ ?_⟩
  induction hpath with
  | refl => exact hplaced h.entered
  | tail _ hchild ih => exact hplaced (h.closed _ ih _ hchild)

/-- An entry may leave the stack, if its block is placed. -/
private theorem drop {item : String × α} (h : Explores g entry owners ⟨xs, item :: rest⟩)
    (hplaced : item.1 ∈ xs.keys) : Explores g entry owners ⟨xs, rest⟩ := by
  have hkept : ∀ {id}, id ∈ xs.keys ∨ Waits ⟨xs, item :: rest⟩ id ↔
      id ∈ xs.keys ∨ Waits ⟨xs, rest⟩ id := by
    intro id
    simp only [Waits, List.map_cons, List.mem_cons]
    constructor
    · rintro (hid | rfl | hid)
      · exact .inl hid
      · exact .inl hplaced
      · exact .inr hid
    · exact Or.imp_right .inr
  exact ⟨h.distinct, hkept.mp h.entered, fun id hid ↦ h.reached id (hkept.mpr hid),
    fun id hid child hchild ↦ hkept.mp (h.closed id hid child hchild)⟩

/-- A block may leave the stack, when it is placed and what it owns is put on the stack. -/
private theorem place {stack : List (String × α)}
    (h : Explores g entry owners ⟨xs, (id, center) :: rest⟩)
    (hstack : stack.map (·.1) = (g.childrenOf owners id).reverse ++ rest.map (·.1)) (x : α) :
    Explores g entry owners ⟨xs.insert id x, stack⟩ := by
  have hbefore : ∀ {k}, Waits ⟨xs, (id, center) :: rest⟩ k ↔ k = id ∨ k ∈ rest.map (·.1) :=
    List.mem_cons
  have hafter : ∀ {xs k}, Waits ⟨xs, stack⟩ k ↔ k ∈ g.ownedBy owners id ∨ k ∈ rest.map (·.1) := by
    intro xs k
    rw [Waits, hstack, List.mem_append, List.mem_reverse, Graph.mem_childrenOf]
  have hkept : ∀ {k}, k ∈ xs.keys ∨ Waits ⟨xs, (id, center) :: rest⟩ k →
      k ∈ (xs.insert id x).keys ∨ Waits ⟨xs.insert id x, stack⟩ k := by
    intro k hk
    rw [hbefore] at hk
    rw [hafter, Table.mem_keys_insert]
    tauto
  have hid : Relation.ReflTransGen (Search.Step (g.ownedBy owners)) entry id :=
    h.reached id (.inr (hbefore.mpr (.inl rfl)))
  refine ⟨h.distinct.insert _ _, hkept h.entered, fun k hk ↦ ?_, fun k hk child hchild ↦ ?_⟩
  · rw [hafter, Table.mem_keys_insert] at hk
    rcases hk with (rfl | hk) | hk | hk
    · exact hid
    · exact h.reached k (.inl hk)
    · exact hid.tail hk
    · exact h.reached k (.inr (hbefore.mpr (.inr hk)))
  · rcases Table.mem_keys_insert.mp hk with rfl | hk
    · exact .inr (hafter.mpr (.inl hchild))
    · exact hkept (h.closed k hk child hchild)

end Explores

variable [Scalar α]

/-- What is put on the stack for a block are the blocks that it owns. -/
private theorem map_fst_slicesOf (gap left : α) {childWidths : List α}
    (h : (g.childrenOf owners id).length = childWidths.length) :
    (slices gap left ((g.childrenOf owners id).zip childWidths)).reverse.map (·.1) =
      (g.childrenOf owners id).reverse := by
  rw [List.map_reverse, map_fst_slices, List.map_fst_zip h.le]

/-- A step of the walk goes on exploring. -/
private theorem Explores.step (h : Explores g entry owners ⟨xs, (id, center) :: rest⟩)
    (hplace : TreeWalk.place g owners widths subtree gap ⟨xs, rest⟩ id center = .ok s') :
    s'.Explores g entry owners := by
  obtain ⟨hplaced, rfl⟩ | ⟨hnew, width, childWidths, -, hchildren, rfl⟩ := place_cases hplace
  · exact h.drop hplaced
  · exact h.place (by rw [List.map_append, map_fst_slicesOf _ _ hchildren.length_eq]) _

/-- A step of the walk puts on the stack what is pushed. -/
private theorem length_stack_place
    (hplace : place g owners widths subtree gap ⟨xs, rest⟩ id center = .ok s') :
    s'.stack.length + (pushed g owners (⟨xs, rest⟩ : TreeWalk α)).length =
      rest.length + (s'.pushed g owners).length := by
  obtain ⟨-, rfl⟩ | ⟨hnew, width, childWidths, -, hchildren, rfl⟩ := place_cases hplace
  · rfl
  · have hfst := map_fst_slicesOf gap (center - Scalar.half (Graph.sideBySide gap childWidths))
      hchildren.length_eq
    generalize (slices gap _ _).reverse = slices at hfst ⊢
    have hlength : slices.length = (g.childrenOf owners id).length := by
      rw [← List.length_map (·.1), hfst, List.length_reverse]
    simp only [pushed, Table.keys_insert, if_neg hnew, List.flatMap_append,
      List.flatMap_singleton, List.length_append, hlength]
    omega

/-- A step of the walk keeps ids distinct. -/
private theorem hasDistinctKeys_place (h : xs.HasDistinctKeys)
    (hplace : place g owners widths subtree gap ⟨xs, rest⟩ id center = .ok s') :
    s'.xs.HasDistinctKeys := by
  obtain ⟨-, rfl⟩ | ⟨-, width, childWidths, -, -, rfl⟩ := place_cases hplace
  · exact h
  · exact h.insert _ _

/-- A step of the walk fails only at a block without width, or at a block that it owns without
subtree width. -/
private theorem of_place_eq_error {fault : Fault}
    (hplace : place g owners widths subtree gap s id center = .error fault) :
    id ∉ widths.keys ∧ fault = .missingKey id ∨
      ∃ child ∈ g.ownedBy owners id, child ∉ subtree.keys ∧ fault = .missingKey child := by
  unfold place at hplace
  split at hplace
  · cases hplace
  · rcases eq_error_of_bind_eq_error hplace with hfetch | ⟨width, -, hplace⟩
    · obtain ⟨hnone, hfault⟩ := get?_eq_none_of_fetch hfetch
      exact .inl ⟨Table.get?_eq_none_iff.mp hnone, hfault⟩
    · dsimp only at hplace
      split at hplace
      · cases hplace
      · rcases eq_error_of_bind_eq_error hplace with hchildren | ⟨childWidths, -, hplace⟩
        · obtain ⟨child, hchild, hfetch⟩ := exists_of_mapM_eq_error hchildren
          obtain ⟨hnone, hfault⟩ := get?_eq_none_of_fetch hfetch
          exact .inr ⟨child, Graph.mem_childrenOf.mp hchild, Table.get?_eq_none_iff.mp hnone,
            hfault⟩
        · cases hplace

/-! ### The loop -/

/-- The loop of the walk, without a bound: an entry leaves the stack and is placed, until the stack
is empty or a fault ends the loop. The list holds what leaves the stack, in order. -/
inductive WorksOff (g : Graph) (owners : Table String String) (widths subtree : Table String α)
    (gap : α) : TreeWalk α → List (String × α) → Except Fault (TreeWalk α) → Prop where
  /-- The stack is empty. -/
  | done {xs : Table String α} : WorksOff g owners widths subtree gap ⟨xs, []⟩ [] (.ok ⟨xs, []⟩)
  /-- The next entry cannot be placed. -/
  | fault {xs : Table String α} {id : String} {center : α} {rest : List (String × α)}
      {fault : Fault}
      (hplace : place g owners widths subtree gap ⟨xs, rest⟩ id center = .error fault) :
      WorksOff g owners widths subtree gap ⟨xs, (id, center) :: rest⟩ [(id, center)] (.error fault)
  /-- The next entry is placed, and the loop goes on. -/
  | pop {xs : Table String α} {id : String} {center : α} {rest pops : List (String × α)}
      {s : TreeWalk α} {result : Except Fault (TreeWalk α)}
      (hplace : place g owners widths subtree gap ⟨xs, rest⟩ id center = .ok s)
      (hrest : WorksOff g owners widths subtree gap s pops result) :
      WorksOff g owners widths subtree gap ⟨xs, (id, center) :: rest⟩ ((id, center) :: pops) result

/-- The loop ends, with the result of the walk with a bound, if the bound allows for what waits and
for all that is still to be pushed. -/
theorem exists_worksOff {bound : Nat} (hdistinct : s.xs.HasDistinctKeys)
    (hbound : (g.blocks.flatMap (·.successors)).length + s.stack.length ≤
      (s.pushed g owners).length + bound) :
    ∃ pops, WorksOff g owners widths subtree gap s pops (run g owners widths subtree gap bound s) ∧
      pops.length ≤ bound := by
  induction bound generalizing s with
  | zero =>
    have hpushed : (s.pushed g owners).length ≤ _ := pushed_le hdistinct
    obtain ⟨xs, stack⟩ := s
    obtain rfl : stack = [] := List.length_eq_zero_iff.mp (by dsimp only at hbound; omega)
    exact ⟨[], .done, Nat.le_refl _⟩
  | succ bound ih =>
    obtain ⟨xs, _ | ⟨⟨id, center⟩, rest⟩⟩ := s
    · exact ⟨[], .done, Nat.zero_le _⟩
    · cases hplace : place g owners widths subtree gap ⟨xs, rest⟩ id center with
      | error fault =>
        have hrun : run g owners widths subtree gap (bound + 1) ⟨xs, (id, center) :: rest⟩ =
            .error fault := by rw [run]; exact congrArg (· >>= _) hplace
        exact ⟨[(id, center)], hrun ▸ .fault hplace, Nat.succ_le_succ (Nat.zero_le bound)⟩
      | ok s' =>
        have hrun : run g owners widths subtree gap (bound + 1) ⟨xs, (id, center) :: rest⟩ =
            run g owners widths subtree gap bound s' := by rw [run]; exact congrArg (· >>= _) hplace
        have hlength := length_stack_place hplace
        rw [List.length_cons] at hbound
        obtain ⟨pops, hpops, hle⟩ := ih (s := s') (hasDistinctKeys_place hdistinct hplace) (by
          simp only [pushed] at hlength hbound ⊢
          omega)
        exact ⟨(id, center) :: pops, hrun ▸ .pop hplace hpops, Nat.succ_le_succ hle⟩

namespace WorksOff

variable {fault : Fault}

/-- What every step of the walk keeps holds when the stack is empty. -/
private theorem induction (inv : TreeWalk α → Prop)
    (step : ∀ {xs rest id center s'}, inv ⟨xs, (id, center) :: rest⟩ →
      place g owners widths subtree gap ⟨xs, rest⟩ id center = .ok s' → inv s')
    (h : WorksOff g owners widths subtree gap s pops (.ok last)) (start : inv s) :
    last.stack = [] ∧ inv last := by
  generalize hresult : Except.ok last = result at h
  induction h with
  | done =>
    cases hresult
    exact ⟨rfl, start⟩
  | fault _ => cases hresult
  | pop hplace _ ih => exact ih (step start hplace) hresult

private theorem stack_eq_nil (h : WorksOff g owners widths subtree gap s pops (.ok last)) :
    last.stack = [] :=
  (h.induction (fun _ ↦ True) (fun _ _ ↦ trivial) trivial).1

/-- What is placed stays where it is. -/
private theorem get?_eq (h : WorksOff g owners widths subtree gap s pops (.ok last)) {x : α}
    (hid : s.xs.get? id = some x) : last.xs.get? id = some x := by
  refine (h.induction (fun s ↦ s.xs.get? id = some x)
    (fun {xs rest k center s'} hk hplace ↦ ?_) hid).2
  obtain ⟨-, rfl⟩ | ⟨hnew, width, childWidths, -, -, rfl⟩ := place_cases hplace
  · exact hk
  · have hne : k ≠ id := by
      rintro rfl
      exact hnew (Table.mem_keys_iff.mpr ⟨x, hk⟩)
    exact (Table.get?_insert_of_ne _ hne _).trans hk

/-- What the loop places stands where it was to stand when it first left the stack. -/
private theorem exists_firstPop (h : WorksOff g owners widths subtree gap s pops (.ok last))
    (hid : id ∈ last.xs.keys) (hnew : id ∉ s.xs.keys) :
    ∃ center width, pops.find? (·.1 == id) = some (id, center) ∧ widths.get? id = some width ∧
      last.xs.get? id = some (center - Scalar.half width) := by
  generalize hresult : Except.ok last = result at h
  induction h with
  | done =>
    cases hresult
    exact absurd hid hnew
  | fault _ => cases hresult
  | @pop xs k center rest pops s' result hplace hrest ih =>
    subst hresult
    by_cases hk : k = id
    · subst hk
      obtain ⟨hplaced, -⟩ | ⟨-, width, childWidths, hwidth, -, rfl⟩ := place_cases hplace
      · exact absurd hplaced hnew
      · exact ⟨center, width, by simp, hwidth, hrest.get?_eq (Table.get?_insert_self _ _ _)⟩
    · have hlater : id ∉ s'.xs.keys := by
        obtain ⟨-, rfl⟩ | ⟨-, width, childWidths, -, -, rfl⟩ := place_cases hplace
        · exact hnew
        · exact fun hmem ↦ (Table.mem_keys_insert.mp hmem).elim (fun h ↦ hk h.symm) hnew
      obtain ⟨center', width, hfind, hwidth, hx⟩ := ih hlater rfl
      exact ⟨center', width, by rwa [List.find?_cons_of_neg (by simpa using hk)], hwidth, hx⟩

/-- What a placed block owns has a subtree width. -/
private theorem mem_keys_subtree (h : WorksOff g owners widths subtree gap s pops (.ok last))
    (hstart : ∀ k ∈ s.xs.keys, ∀ child ∈ g.ownedBy owners k, child ∈ subtree.keys) :
    ∀ k ∈ last.xs.keys, ∀ child ∈ g.ownedBy owners k, child ∈ subtree.keys := by
  refine (h.induction (fun s ↦ ∀ k ∈ s.xs.keys, ∀ child ∈ g.ownedBy owners k, child ∈ subtree.keys)
    (fun {xs rest id center s'} hkeys hplace ↦ ?_) hstart).2
  obtain ⟨-, rfl⟩ | ⟨-, width, childWidths, -, hchildren, rfl⟩ := place_cases hplace
  · exact hkeys
  · intro k hk child hchild
    rcases Table.mem_keys_insert.mp hk with rfl | hk
    · obtain ⟨w, -, hw⟩ := exists_of_forall₂ hchildren.flip (Graph.mem_childrenOf.mpr hchild)
      exact Table.mem_keys_iff.mpr ⟨w, hw⟩
    · exact hkeys k hk child hchild

/-- The loop fails only at a block of the tree of which a width is not known. -/
private theorem exists_of_error (h : WorksOff g owners widths subtree gap s pops (.error fault))
    (hexplores : s.Explores g entry owners) :
    ∃ id, Relation.ReflTransGen (Search.Step (g.ownedBy owners)) entry id ∧
      (id ∉ widths.keys ∨ id ∉ subtree.keys) ∧ fault = .missingKey id := by
  generalize hresult : Except.error fault = result at h
  induction h with
  | done => cases hresult
  | @fault xs id center rest fault' hplace =>
    cases hresult
    have hid : Relation.ReflTransGen (Search.Step (g.ownedBy owners)) entry id :=
      hexplores.reached id (.inr List.mem_cons_self)
    rcases of_place_eq_error hplace with ⟨hwidth, hfault⟩ | ⟨child, hchild, hwidth, hfault⟩
    · exact ⟨id, hid, .inl hwidth, hfault⟩
    · exact ⟨child, hid.tail hchild, .inr hwidth, hfault⟩
  | pop hplace _ ih => exact ih (hexplores.step hplace) hresult

end WorksOff

/-- The tree below an entry as it is placed by a loop, given what leaves the stack in order. -/
structure PlacesTree (g : Graph) (entry : String) (owners : Table String String)
    (widths : Table String α) (pops : List (String × α)) (xs : Table String α) : Prop where
  /-- No block is placed twice. -/
  distinct : xs.HasDistinctKeys
  /-- The entry and what it owns, directly or through others, is placed, and nothing else. -/
  mem_keys_iff : ∀ id, id ∈ xs.keys ↔
    Relation.ReflTransGen (Search.Step (g.ownedBy owners)) entry id
  /-- Everything stands where it was to stand when it first left the stack. -/
  exists_firstPop : ∀ id ∈ xs.keys, ∃ center width,
    pops.find? (·.1 == id) = some (id, center) ∧ widths.get? id = some width ∧
      xs.get? id = some (center - Scalar.half width)

namespace WorksOff

/-- A loop that works off its stack with the entry alone places the tree. -/
private theorem placesTree
    (h : WorksOff g owners widths subtree gap ⟨.empty, [(entry, center)]⟩ pops (.ok last)) :
    PlacesTree g entry owners widths pops last.xs := by
  obtain ⟨hdone, hexplores⟩ := h.induction (Explores g entry owners) Explores.step (.start ..)
  obtain ⟨xs, stack⟩ := last
  obtain rfl : stack = [] := hdone
  exact ⟨hexplores.distinct, hexplores.mem_keys_iff, fun id hid ↦ h.exists_firstPop hid (by simp)⟩

/-- It has asked for both widths of all blocks of the tree. -/
private theorem mem_keys
    (h : WorksOff g owners widths subtree gap ⟨.empty, [(entry, center)]⟩ pops (.ok last))
    (hentry : entry ∈ subtree.keys) (id : String)
    (hid : Relation.ReflTransGen (Search.Step (g.ownedBy owners)) entry id) :
    id ∈ widths.keys ∧ id ∈ subtree.keys := by
  have hplaces := h.placesTree
  constructor
  · obtain ⟨_, width, -, hwidth, -⟩ :=
      hplaces.exists_firstPop id ((hplaces.mem_keys_iff id).mpr hid)
    exact Table.mem_keys_iff.mpr ⟨width, hwidth⟩
  · cases hid with
    | refl => exact hentry
    | tail hpath hchild =>
      exact h.mem_keys_subtree (by simp) _ ((hplaces.mem_keys_iff _).mpr hpath) id hchild

end WorksOff

/-- The walk with a bound gives what the loop without one gives. -/
private theorem exists_worksOff_treeXs {margin width : α}
    (hwidth : subtree.get? entry = some width) :
    ∃ pops result, WorksOff g owners widths subtree gap
        ⟨.empty, [(entry, Scalar.half width + margin)]⟩ pops result ∧
      pops.length ≤ g.walkBound ∧
      g.treeXs entry owners widths subtree gap margin = result.map TreeWalk.xs := by
  let start : TreeWalk α := ⟨.empty, [(entry, Scalar.half width + margin)]⟩
  have hbound : (g.blocks.flatMap (·.successors)).length + start.stack.length ≤
      (start.pushed g owners).length + g.walkBound := by
    simp only [start, pushed, Graph.walkBound, Table.keys_empty, List.flatMap_nil, List.length_nil,
      List.length_singleton]
    omega
  obtain ⟨pops, hpops, hle⟩ : ∃ pops, WorksOff g owners widths subtree gap start pops _ ∧ _ :=
    exists_worksOff Table.hasDistinctKeys_empty hbound
  refine ⟨pops, _, hpops, hle, ?_⟩
  rw [Graph.treeXs, Table.fetch_eq_ok_iff.mpr hwidth]
  show (run g owners widths subtree gap g.walkBound start >>= fun done ↦ pure done.xs) = _
  cases run g owners widths subtree gap g.walkBound start <;> rfl

/-- The walk places what the entry owns, directly or through others, and the entry itself. -/
theorem mem_keys_treeXs {margin : α} {xs : Table String α}
    (h : g.treeXs entry owners widths subtree gap margin = .ok xs) (id : String) :
    id ∈ xs.keys ↔ Relation.ReflTransGen (Search.Step (g.ownedBy owners)) entry id := by
  obtain ⟨width, hwidth, -⟩ := exists_of_bind_eq_ok h
  obtain ⟨pops, result, hpops, -, hresult⟩ :
      ∃ pops result, WorksOff g owners widths subtree gap _ pops result ∧ _ :=
    exists_worksOff_treeXs (Table.fetch_eq_ok_iff.mp hwidth)
  rw [h] at hresult
  cases result with
  | error fault => cases hresult
  | ok last =>
    cases hresult
    exact hpops.placesTree.mem_keys_iff id

end TreeWalk

namespace Graph

variable {α : Type} [Scalar α] {g : Graph} {entry : String} {widths subtree : Table String α}

/-- Both widths are known of a block and of all that it owns, directly or through others. -/
def KnowsTree (g : Graph) (entry : String) (owners : Table String String)
    (widths subtree : Table String α) : Prop :=
  ∀ id, Relation.ReflTransGen (Search.Step (g.ownedBy owners)) entry id →
    id ∈ widths.keys ∧ id ∈ subtree.keys

/-- For any owners, in cycles or not, the loop that places the tree below a block ends. If the
widths of all that the block owns, directly or through others, are known, it places the block and
these, each where it was to stand when it first left the stack. Otherwise it fails for want of a
width of something owned that is no block. -/
theorem exists_placesTree (owners : Table String String) (gap margin : α) (hentry : entry ∈ g.ids)
    (hwidths : ∀ id ∈ g.ids, id ∈ widths.keys) (hsubtree : ∀ id ∈ g.ids, id ∈ subtree.keys) :
    ∃ width pops result, subtree.get? entry = some width ∧
      TreeWalk.WorksOff g owners widths subtree gap
        ⟨.empty, [(entry, Scalar.half width + margin)]⟩ pops result ∧
      pops.length ≤ g.walkBound ∧
      g.treeXs entry owners widths subtree gap margin = result.map TreeWalk.xs ∧
      (g.KnowsTree entry owners widths subtree →
        ∃ xs, result = .ok ⟨xs, []⟩ ∧ TreeWalk.PlacesTree g entry owners widths pops xs) ∧
      (¬ g.KnowsTree entry owners widths subtree →
        ∃ id, Relation.ReflTransGen (Search.Step (g.ownedBy owners)) entry id ∧ id ∉ g.ids ∧
          result = .error (.missingKey id)) := by
  obtain ⟨width, hwidth⟩ := Table.mem_keys_iff.mp (hsubtree entry hentry)
  obtain ⟨pops, result, hpops, hle, hresult⟩ :
      ∃ pops result, TreeWalk.WorksOff g owners widths subtree gap _ pops result ∧ _ :=
    TreeWalk.exists_worksOff_treeXs hwidth
  refine ⟨width, pops, result, hwidth, hpops, hle, hresult, ?_⟩
  cases result with
  | ok last =>
    have hknown : g.KnowsTree entry owners widths subtree :=
      hpops.mem_keys (hsubtree entry hentry)
    obtain ⟨xs, stack⟩ := last
    obtain rfl : stack = [] := hpops.stack_eq_nil
    exact ⟨fun _ ↦ ⟨xs, rfl, hpops.placesTree⟩, fun hnot ↦ absurd hknown hnot⟩
  | error fault =>
    obtain ⟨id, hid, hunknown, rfl⟩ := hpops.exists_of_error (.start ..)
    refine ⟨fun hknown ↦ ?_, fun _ ↦ ⟨id, hid, fun hmem ↦ ?_, rfl⟩⟩
    · exact hunknown.elim (absurd (hknown id hid).1) (absurd (hknown id hid).2)
    · exact hunknown.elim (absurd (hwidths id hmem)) (absurd (hsubtree id hmem))

/-- Two blocks own each other, and one of them waits twice. -/
theorem exists_placesTree_cycle :
    let g : Graph := ⟨[
      { index := 0, id := "a", instructions := [], start := "", stop := "",
        successors := ["b", "a", "b"], predecessors := ["a", "b"], isEntry := true },
      { index := 1, id := "b", instructions := [], start := "", stop := "",
        successors := ["a"], predecessors := ["a", "a"] }], []⟩
    let owners : Table String String := .ofList [("a", "b"), ("b", "a")]
    let widths : Table String Rat := .ofList [("a", 100), ("b", 100)]
    "a" ∈ g.ids ∧ (∀ id ∈ g.ids, id ∈ widths.keys) ∧ g.KnowsTree "a" owners widths widths ∧
      ∃ pops xs, TreeWalk.WorksOff g owners widths widths 10
          ⟨.empty, [("a", Scalar.half 100 + 0)]⟩ pops (.ok ⟨xs, []⟩) ∧
        TreeWalk.PlacesTree g "a" owners widths pops xs := by
  intro g owners widths
  have hentry : "a" ∈ g.ids := by decide
  have hwidths : ∀ id ∈ g.ids, id ∈ widths.keys := by decide
  have hknown : g.KnowsTree "a" owners widths widths := by
    have howned : ∀ id ∈ owners.keys, id ∈ widths.keys := by decide
    intro id hid
    cases hid with
    | refl => exact ⟨hwidths "a" hentry, hwidths "a" hentry⟩
    | tail _ hchild =>
      have hmem := howned id (mem_owners_of_mem_ownedBy hchild)
      exact ⟨hmem, hmem⟩
  obtain ⟨width, pops, result, hwidth, hpops, -, -, hplaced, -⟩ :=
    exists_placesTree owners 10 0 hentry hwidths hwidths
  obtain ⟨xs, rfl, hplaces⟩ := hplaced hknown
  cases hwidth
  exact ⟨hentry, hwidths, hknown, pops, xs, hpops, hplaces⟩

/-- A successor that is no block, and is owned, is never placed: nothing is known of its width,
though it is known of all blocks. -/
theorem treeXs_eq_error_of_strangeSuccessor :
    let g : Graph := ⟨[
      { index := 0, id := "a", instructions := [], start := "", stop := "",
        successors := ["x"], isEntry := true }], []⟩
    let owners : Table String String := .ofList [("x", "a")]
    let widths : Table String Rat := .ofList [("a", 100), ("x", 100)]
    let subtree : Table String Rat := .ofList [("a", 100)]
    "a" ∈ g.ids ∧ (∀ id ∈ g.ids, id ∈ widths.keys) ∧ (∀ id ∈ g.ids, id ∈ subtree.keys) ∧
      g.treeXs "a" owners widths subtree 10 0 = .error (.missingKey "x") := by
  intro g owners widths subtree
  exact ⟨by decide, by decide, by decide, rfl⟩

end Graph

end FlowChart
