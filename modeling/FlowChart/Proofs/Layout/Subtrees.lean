import FlowChart.Proofs.Layout.Sums
import FlowChart.Proofs.Number.Exact
import Mathlib.Algebra.Order.BigOperators.Group.List
import Mathlib.Tactic.Ring

/-!
# Subtrees hold what they own

The widths of subtrees are added up from the bottom up. What a block owns lies deeper, so its width
is final by the time that it becomes a term of a sum, and the sums can be read off from the widths in
the end. In exact arithmetic the subtree of a block is therefore as wide as the block at least, and
as the subtrees that it owns, side by side.
-/

namespace FlowChart

/-- The number under a key; zero, if there is none. -/
def Table.orZero (t : Table String Rat) (id : String) : Rat := (t.get? id).getD 0

/-- The number that is found under a key. -/
theorem Table.orZero_of_get? {t : Table String Rat} {id : String} {x : Rat}
    (h : t.get? id = some x) : t.orZero id = x := by
  rw [orZero, h, Option.getD_some]

/-- Where nothing is found, the number is zero. -/
theorem Table.orZero_of_not_mem {t : Table String Rat} {id : String} (h : id ∉ t.keys) :
    t.orZero id = 0 := by
  rw [orZero, get?_eq_none_iff.mpr h, Option.getD_none]

/-- Numbers that are found under keys. -/
theorem Table.eq_map_orZero {t : Table String Rat} {ids : List String} {ws : List Rat}
    (h : List.Forall₂ (fun id w ↦ t.get? id = some w) ids ws) : ws = ids.map t.orZero := by
  have hsame := map_eq_of_forall₂ (f := t.orZero) (g := fun w : Rat ↦ w)
    (fun _ _ hw ↦ (orZero_of_get? hw).symm) h
  rwa [List.map_id'] at hsame

namespace Graph

section

variable {α : Type} [Scalar α] {g : Graph} {owners : Table String String} {widths : Table String α}
  {gap : α} {found last : Table String α} {ids : List String} {sums : List (List (String × α))}
  {entry id : String} {levels : Table String Int}

/-- A run leaves the widths of the blocks that it does not come to. -/
theorem SubtreeRun.get?_of_not_mem (h : SubtreeRun g owners widths gap found ids sums last)
    {k : String} (hk : k ∉ ids) : last.get? k = found.get? k := by
  induction h with
  | done => rfl
  | next _ _ _ ih =>
    rw [List.mem_cons, not_or] at hk
    rw [ih hk.2, Table.get?_insert_of_ne _ (Ne.symm hk.1)]

/-- If blocks come after all that they own, the width of each subtree is that of its sum, with the
terms that there are in the end. -/
theorem SubtreeRun.exists_terms (h : SubtreeRun g owners widths gap found ids sums last)
    (levelOf : String → Int) (hsorted : ids.Pairwise fun a b ↦ levelOf b ≤ levelOf a)
    (hdeeper : ∀ {id child}, child ∈ g.ownedBy owners id → levelOf id < levelOf child) {id : String}
    (hid : id ∈ ids) :
    ∃ own terms, widths.get? id = some own ∧
      List.Forall₂ (fun child term ↦ term.1 = child ∧ childWidth widths last child = .ok term.2)
        (g.ownedBy owners id) terms ∧
      last.get? id = some (subtreeWidth gap own terms) := by
  induction h with
  | done => simp at hid
  | @next found id₀ own terms rest sums last hown hterms hrest ih =>
    obtain ⟨hfirst, hsorted⟩ := List.pairwise_cons.mp hsorted
    by_cases hlater : id ∈ rest
    · exact ih hsorted hlater
    · obtain rfl := (List.mem_cons.mp hid).resolve_right hlater
      -- what a block owns lies deeper, so it is not among the blocks to come
      have hfinal : ∀ child ∈ g.ownedBy owners id, last.get? child = found.get? child := by
        intro child hchild
        apply SubtreeRun.get?_of_not_mem (.next hown hterms hrest)
        rintro (_ | ⟨_, hlater⟩)
        · exact lt_irrefl _ (hdeeper hchild)
        · exact absurd (hdeeper hchild) (not_lt.mpr (hfirst child hlater))
      have howned := (List.forall₂_and_left _ _).mpr ⟨hfinal, hterms⟩
      refine ⟨own, terms, hown, howned.imp ?_, ?_⟩
      · rintro child term ⟨hfinal, hterm⟩
        rw [childWidth, hfinal]
        exact hterm
      · rw [hrest.get?_of_not_mem hlater, Table.get?_insert_self]

/-- Deeper blocks come first. -/
theorem pairwise_fromBottom (g : Graph) (levels : Table String Int) :
    (g.fromBottom levels).Pairwise fun a b ↦ (levels.get? b).getD 0 ≤ (levels.get? a).getD 0 :=
  pairwise_sortBy_decide (r := fun a b ↦ (levels.get? b).getD 0 ≤ (levels.get? a).getD 0)
    (fun _ _ _ hab hbc ↦ Int.le_trans hbc hab) (fun _ _ ↦ Int.le_total _ _) g.ids

/-- The width that is found for a block is that of its own width and of the widths that are found
for what it owns. -/
theorem exists_width_of_subtreeWidths (hlevels : levels.Covers g)
    (hwidths : ∀ id ∈ g.ids, id ∈ widths.keys)
    (h : g.subtreeWidths levels (g.owners entry levels) widths gap = .ok found) (hid : id ∈ g.ids) :
    ∃ own width, widths.get? id = some own ∧
      (∀ child ∈ g.ownedBy (g.owners entry levels) id, found.get? child = some (width child)) ∧
      found.get? id = some (if g.ownedBy (g.owners entry levels) id = [] then own
        else Scalar.larger own
          (sideBySide gap ((g.ownedBy (g.owners entry levels) id).map width))) := by
  have howners : ∀ id ∈ (g.owners entry levels).keys, id ∈ g.ids := fun _ ↦
    mem_ids_of_mem_owners hlevels
  have hkeys := (succeeds_subtreeWidths hwidths howners).of_eq_ok h
  obtain ⟨sums, hrun⟩ := exists_run_of_subtreeWidths h
  obtain ⟨own, terms, hown, hterms, hget⟩ :=
    hrun.exists_terms (fun id ↦ (levels.get? id).getD 0) (pairwise_fromBottom g levels)
      lt_of_mem_ownedBy (mem_sortBy.mpr hid)
  have hfound : ∀ child ∈ g.ownedBy (g.owners entry levels) id,
      found.get? child = some ((found.get? child).getD own) := by
    intro child hchild
    obtain ⟨v, hv⟩ := Table.mem_keys_iff.mp
      (hkeys child (howners child (mem_owners_of_mem_ownedBy hchild)))
    rw [hv, Option.getD_some]
  refine ⟨own, fun child ↦ (found.get? child).getD own, hown, hfound, ?_⟩
  have hmap : terms.map (·.2) = (g.ownedBy (g.owners entry levels) id).map
      fun child ↦ (found.get? child).getD own := by
    refine map_eq_of_forall₂ ?_ ((List.forall₂_and_left _ _).mpr ⟨hfound, hterms⟩)
    rintro child term ⟨hchild, -, hterm⟩
    obtain ⟨own', -, hterm⟩ := exists_of_bind_eq_ok hterm
    rw [hchild, Option.getD_some] at hterm
    exact (Except.ok.inj hterm).symm
  have hempty : terms = [] ↔ g.ownedBy (g.owners entry levels) id = [] := by
    rw [← List.map_eq_nil_iff, hmap, List.map_eq_nil_iff]
  rw [hget, subtreeWidth, hmap]
  simp only [List.isEmpty_iff, hempty]

end

/-! ### Exact arithmetic -/

variable {gap : Rat}

/-- The width of some subtrees side by side is that of all subtrees and of the gaps. -/
theorem sideBySide_eq (gap : Rat) (ws : List Rat) :
    sideBySide gap ws = ws.sum + gap * (ws.length - 1) := by
  rw [sideBySide, Scalar.sum_eq_sum]
  push_cast
  rfl

/-- One more subtree takes its width and a gap. -/
theorem sideBySide_cons (w : Rat) (ws : List Rat) :
    sideBySide gap (w :: ws) = w + gap + sideBySide gap ws := by
  simp only [sideBySide_eq, List.sum_cons, List.length_cons]
  push_cast
  ring

/-- The first of some subtrees takes part of the width. -/
theorem le_sideBySide_cons (hgap : 0 ≤ gap) (w : Rat) {ws : List Rat} (h : ∀ v ∈ ws, 0 ≤ v) :
    w ≤ sideBySide gap (w :: ws) := by
  have hsum : 0 ≤ ws.sum := List.sum_nonneg h
  have hgaps : 0 ≤ gap * ws.length := mul_nonneg hgap (Nat.cast_nonneg _)
  rw [sideBySide_eq, List.sum_cons, List.length_cons]
  push_cast
  linarith

/-- The order does not matter. -/
theorem sideBySide_perm {ws ws' : List Rat} (h : ws.Perm ws') :
    sideBySide gap ws = sideBySide gap ws' := by
  rw [sideBySide_eq, sideBySide_eq, h.sum_eq, h.length_eq]

/-- Subtrees that are wide enough for what they hold. -/
structure SubtreesHold (g : Graph) (owners : Table String String) (widths subtree : Table String Rat)
    (gap : Rat) : Prop where
  /-- No width is negative. -/
  nonneg : ∀ id, 0 ≤ subtree.orZero id
  /-- A subtree holds its block. -/
  own : ∀ id, widths.orZero id ≤ subtree.orZero id
  /-- A subtree holds the subtrees that its block owns, side by side. -/
  owned : ∀ id, g.childrenOf owners id ≠ [] →
    sideBySide gap ((g.childrenOf owners id).map subtree.orZero) ≤ subtree.orZero id

variable {g : Graph} {entry : String} {levels : Table String Int} {widths subtree : Table String Rat}

/-- The subtree of a block is as wide as the block and as what the block owns. -/
private theorem exists_own_of_subtreeWidths (hlevels : levels.Covers g) (hwidths : widths.Covers g)
    (h : g.subtreeWidths levels (g.owners entry levels) widths gap = .ok subtree) {id : String}
    (hid : id ∈ g.ids) :
    ∃ own, widths.get? id = some own ∧ own ≤ subtree.orZero id ∧
      (g.childrenOf (g.owners entry levels) id ≠ [] →
        sideBySide gap ((g.childrenOf (g.owners entry levels) id).map subtree.orZero) ≤
          subtree.orZero id) := by
  obtain ⟨own, width, hown, hchildren, hget⟩ :=
    exists_width_of_subtreeWidths hlevels (fun id ↦ (hwidths.mem_keys id).mpr) h hid
  have hmap : (g.ownedBy (g.owners entry levels) id).map subtree.orZero =
      (g.ownedBy (g.owners entry levels) id).map width :=
    List.map_congr_left fun child hchild ↦ Table.orZero_of_get? (hchildren child hchild)
  have hperm : (g.childrenOf (g.owners entry levels) id).Perm
      (g.ownedBy (g.owners entry levels) id) := perm_sortBy _ _
  rw [Table.orZero_of_get? hget, sideBySide_perm (hperm.map _), hmap]
  refine ⟨own, hown, ?_⟩
  split
  · next hnone =>
    rw [hnone, List.perm_nil] at hperm
    exact ⟨le_rfl, absurd hperm⟩
  · rw [Scalar.larger_eq_max]
    exact ⟨le_max_left _ _, fun _ ↦ le_max_right _ _⟩

/-- The subtrees that are computed are wide enough, if blocks have widths. -/
theorem subtreesHold_of_subtreeWidths (hlevels : levels.Covers g) (hwidths : widths.Covers g)
    (hnonneg : ∀ {id w}, widths.get? id = some w → 0 ≤ w)
    (h : g.subtreeWidths levels (g.owners entry levels) widths gap = .ok subtree) :
    g.SubtreesHold (g.owners entry levels) widths subtree gap := by
  have houtside : ∀ {id}, id ∉ g.ids → subtree.orZero id = 0 := by
    intro id hid
    obtain ⟨sums, hrun⟩ := exists_run_of_subtreeWidths h
    apply Table.orZero_of_not_mem
    rw [← Table.get?_eq_none_iff]
    exact hrun.get?_of_not_mem (mt mem_sortBy.mp hid)
  constructor
  · intro id
    by_cases hid : id ∈ g.ids
    · obtain ⟨own, hown, hle, -⟩ := exists_own_of_subtreeWidths hlevels hwidths h hid
      exact (hnonneg hown).trans hle
    · exact (houtside hid).ge
  · intro id
    by_cases hid : id ∈ g.ids
    · obtain ⟨own, hown, hle, -⟩ := exists_own_of_subtreeWidths hlevels hwidths h hid
      exact (Table.orZero_of_get? hown).trans_le hle
    · rw [houtside hid, Table.orZero_of_not_mem (mt (hwidths.mem_keys id).mp hid)]
  · intro id hne
    obtain ⟨child, hchild⟩ := List.exists_mem_of_ne_nil _ hne
    obtain ⟨b, hb, -, -⟩ := mem_ownedBy.mp (mem_childrenOf.mp hchild)
    obtain ⟨hmem, rfl⟩ := mem_and_id_of_block? hb
    obtain ⟨-, -, -, howned⟩ :=
      exists_own_of_subtreeWidths hlevels hwidths h (List.mem_map_of_mem hmem)
    exact howned hne

end Graph

end FlowChart
