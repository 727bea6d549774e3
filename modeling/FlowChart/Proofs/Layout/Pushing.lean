import FlowChart.Proofs.Layout.Rows
import FlowChart.Proofs.Layout.Subtrees

/-!
# Pushing apart is least

In exact arithmetic, pushing the blocks of a row apart is a greedy way to keep them a gap apart:
each block goes as far as its left neighbour, where that was pushed to, forces it to go, and no
farther. So of all the ways to move blocks of the row to the right, in the order in which they
stand, it moves every block least. What stands apart in this way keeps its order, and pushing again
finds nothing to do.
-/

namespace FlowChart.Row

variable {widths xs xs' : Table String Rat} {gap : Rat} {ids row : List String}

/-! ### From left to right -/

/-- A block stands farther to the left than another one or, at one place, earlier in the row. -/
def Precedes (xs : Table String Rat) (ids : List String) (a b : String) : Prop :=
  xs.orZero a < xs.orZero b ∨ xs.orZero a = xs.orZero b ∧ ids.idxOf a < ids.idxOf b

/-- The placed blocks of a row, from left to right; at one place, in the order of the row. -/
structure IsFromLeft (xs : Table String Rat) (ids row : List String) : Prop where
  /-- These are the placed blocks of the row. -/
  perm : row.Perm (ids.filter xs.contains)
  /-- Each one stands before all that come after it. -/
  pairwise : row.Pairwise (Precedes xs ids)

private theorem pairwise_idxOf (nodup : ids.Nodup) :
    ids.Pairwise fun a b ↦ ids.idxOf a < ids.idxOf b := by
  rw [List.pairwise_iff_getElem]
  intro i j hi hj hij
  rwa [nodup.idxOf_getElem i hi, nodup.idxOf_getElem j hj]

private theorem isWeakOrder_left :
    IsWeakOrder fun a b : String × Rat ↦ decide (a.2 < b.2) where
  asymm a b hab := decide_eq_false (of_decide_eq_true hab).asymm
  trans a b c hba hcb := by
    rw [decide_eq_false_iff_not, not_lt] at hba hcb ⊢
    exact hba.trans hcb

/-- The order in which a row is pushed apart is that from left to right. -/
theorem isFromLeft_fromLeft (nodup : ids.Nodup) : IsFromLeft xs ids (fromLeft xs ids) where
  perm := perm_fromLeft_filter xs ids
  pairwise := by
    have hplaced : (ids.filterMap fun id ↦ (xs.get? id).map (id, ·)).Pairwise
        fun p q ↦ ids.idxOf p.1 < ids.idxOf q.1 := by
      refine List.pairwise_filterMap.mpr ((pairwise_idxOf nodup).imp ?_)
      intro a b hab p hp q hq
      obtain ⟨x, -, rfl⟩ := Option.map_eq_some_iff.mp hp
      obtain ⟨x', -, rfl⟩ := Option.map_eq_some_iff.mp hq
      exact hab
    have hget : ∀ p ∈ ids.filterMap fun id ↦ (xs.get? id).map (id, ·), xs.orZero p.1 = p.2 := by
      intro p hp
      obtain ⟨id, -, hp⟩ := List.mem_filterMap.mp hp
      obtain ⟨x, hx, rfl⟩ := Option.map_eq_some_iff.mp hp
      exact Table.orZero_of_get? hx
    unfold fromLeft
    dsimp only
    rw [sortByRuns_eq_sortStably isWeakOrder_left, List.pairwise_map]
    refine (pairwise_sortStably_of_pairwise isWeakOrder_left hplaced).imp_of_mem ?_
    rintro p q hp hq ⟨hle, htie⟩
    simp only [decide_eq_false_iff_not, not_lt] at hle htie
    rw [Precedes, hget p (mem_sortStably.mp hp), hget q (mem_sortStably.mp hq)]
    rcases hle.lt_or_eq with hlt | heq
    · exact .inl hlt
    · exact .inr ⟨heq, htie heq.ge⟩

/-- From left to right, no block starts before an earlier one. -/
theorem Precedes.le {a b : String} (h : Precedes xs ids a b) :
    xs.orZero a ≤ xs.orZero b := h.elim le_of_lt fun h ↦ h.1.le

/-- There is one order from left to right. -/
theorem IsFromLeft.eq_fromLeft (h : IsFromLeft xs ids row) (nodup : ids.Nodup) :
    fromLeft xs ids = row := by
  have hleft : IsFromLeft xs ids (fromLeft xs ids) := isFromLeft_fromLeft nodup
  refine List.Perm.eq_of_pairwise ?_ hleft.pairwise h.pairwise (hleft.perm.trans h.perm.symm)
  intro a b _ _ hab hba
  rcases hab with hab | hab <;> rcases hba with hba | hba
  · exact absurd hba hab.asymm
  · exact absurd hba.1 hab.ne'
  · exact absurd hab.1 hba.ne'
  · exact absurd hba.2 hab.2.asymm

/-! ### Moving to the right -/

/-- Left sides to which the blocks of a row, given from left to right, may be moved: none goes to
the left, and each one starts a gap behind the end of the one before it, or farther. -/
structure Admissible (widths xs : Table String Rat) (gap : Rat) (row : List String)
    (lefts : String → Rat) : Prop where
  /-- No block goes to the left. -/
  le : ∀ id ∈ row, xs.orZero id ≤ lefts id
  /-- Neighbours are a gap apart. -/
  apart : row.IsChain fun a b ↦ lefts a + widths.orZero a + gap ≤ lefts b

private theorem PushedFrom.eq_max {a b : String} (h : PushedFrom widths gap xs xs' a b) :
    xs'.orZero b = max (xs.orZero b) (xs'.orZero a + widths.orZero a + gap) := by
  obtain ⟨x, w, x₀, hx, hw, hx₀, hx'⟩ := h
  rw [Table.orZero_of_get? hx, Table.orZero_of_get? hw, Table.orZero_of_get? hx₀,
    Table.orZero_of_get? hx', Scalar.larger_eq_max]

private theorem PushedApart.orZero_head (h : PushedApart widths gap xs xs' row) (hne : row ≠ []) :
    xs'.orZero (row.head hne) = xs.orZero (row.head hne) := by
  rw [Table.orZero, h.first _ (List.head_mem_head? hne), Table.orZero]

/-- Pushing moves blocks where they may be moved. -/
theorem PushedApart.admissible (h : PushedApart widths gap xs xs' row) :
    Admissible widths xs gap row xs'.orZero where
  le := by
    refine h.others.induction _ _ (fun a b hpushed _ ↦ ?_) fun hne ↦ (h.orZero_head hne).ge
    rw [hpushed.eq_max]
    exact le_max_left _ _
  apart := h.others.imp fun a b hpushed ↦ by
    rw [hpushed.eq_max]
    exact le_max_right _ _

/-- Pushing moves no block farther than it has to go. -/
theorem PushedApart.le_of_admissible (h : PushedApart widths gap xs xs' row)
    {lefts : String → Rat} (hlefts : Admissible widths xs gap row lefts) :
    ∀ id ∈ row, xs'.orZero id ≤ lefts id := by
  have hsteps : row.IsChain fun a b ↦ PushedFrom widths gap xs xs' a b ∧
      lefts a + widths.orZero a + gap ≤ lefts b ∧ xs.orZero b ≤ lefts b := by
    rw [List.isChain_iff_getElem]
    intro i hi
    exact ⟨List.isChain_iff_getElem.mp h.others i hi,
      List.isChain_iff_getElem.mp hlefts.apart i hi, hlefts.le _ (List.getElem_mem _)⟩
  refine hsteps.induction _ _ ?_ fun hne ↦ ?_
  · rintro a b ⟨hpushed, hapart, hle⟩ ha
    rw [hpushed.eq_max]
    exact max_le hle (by linarith)
  · rw [h.orZero_head hne]
    exact hlefts.le _ (List.head_mem hne)

/-- Where no width with the gap is negative, all pairs of a row are apart, if neighbours are. -/
theorem Admissible.pairwise {lefts : String → Rat} (h : Admissible widths xs gap row lefts)
    (hroom : ∀ id ∈ row, 0 ≤ widths.orZero id + gap) :
    row.Pairwise fun a b ↦ lefts a + widths.orZero a + gap ≤ lefts b := by
  let apart : String → String → Prop := fun a b ↦
    lefts a + widths.orZero a + gap ≤ lefts b ∧ 0 ≤ widths.orZero b + gap
  have : Trans apart apart apart :=
    ⟨fun hab hbc ↦ ⟨by linarith [hab.1, hab.2, hbc.1], hbc.2⟩⟩
  have hchain : row.IsChain apart := h.apart.imp_of_mem_imp fun a b _ hb hle ↦ ⟨hle, hroom b hb⟩
  exact hchain.pairwise.imp And.left

/-! ### Pushing again -/

private theorem push_eq_self {left right : String} (h : Pushed widths gap xs left right) :
    push widths gap xs left right = .ok xs := by
  obtain ⟨x, w, x', hx, hw, hx', h⟩ := h
  have hnot : ¬ x' < x + w + gap := h.elim (fun he ↦ he.not_lt) id
  rw [push, rightOf_eq_ok hx hw, Table.fetch_eq_ok_iff.mpr hx']
  exact congrArg Except.ok (if_neg hnot)

/-- In exact arithmetic, blocks that are pushed apart are not pushed again. -/
theorem separateRow_eq_self (h : row.IsChain (Pushed widths gap xs)) :
    separateRow widths gap xs row = .ok xs := by
  induction h with
  | nil => rfl
  | singleton => rfl
  | @cons_cons a b rest hab _ ih =>
    rw [separateRow_cons_cons, push_eq_self hab]
    exact ih

/-! ### Rows -/

/-- What pushing comes to for a row, the placed blocks of which are given from left to right. -/
structure LeastApart (widths xs xs' : Table String Rat) (gap : Rat) (ids row : List String) :
    Prop where
  /-- The blocks are given in the order in which they stood. -/
  before : IsFromLeft xs ids row
  /-- They stand in this order still. -/
  after : IsFromLeft xs' ids row
  /-- They stand where they may be moved. -/
  admissible : Admissible widths xs gap row xs'.orZero
  /-- No block can be moved less. -/
  least : ∀ lefts, Admissible widths xs gap row lefts → ∀ id ∈ row, xs'.orZero id ≤ lefts id
  /-- Any two of them are a gap apart. -/
  apart : row.Pairwise fun a b ↦ xs'.orZero a + widths.orZero a + gap ≤ xs'.orZero b

private theorem PushedApart.leastApart (h : PushedApart widths gap xs xs' (fromLeft xs ids))
    (nodup : ids.Nodup) (hkeys : xs'.keys = xs.keys)
    (hroom : ∀ id ∈ fromLeft xs ids, 0 < widths.orZero id + gap) :
    LeastApart widths xs xs' gap ids (fromLeft xs ids) := by
  have hleft : IsFromLeft xs ids (fromLeft xs ids) := isFromLeft_fromLeft nodup
  have hplaced : ids.filter xs'.contains = ids.filter xs.contains := by
    refine List.filter_congr fun id _ ↦ Bool.eq_iff_iff.mpr ?_
    rw [Table.contains_iff_mem_keys, Table.contains_iff_mem_keys, hkeys]
  have hapart := h.admissible.pairwise fun id hid ↦ (hroom id hid).le
  refine ⟨hleft, ⟨hplaced ▸ hleft.perm, ?_⟩, h.admissible, fun _ ↦ h.le_of_admissible, hapart⟩
  exact hapart.imp_of_mem fun {a b} ha _ hle ↦ .inl (by linarith [hroom a ha])

/-- In exact arithmetic, with rows that share no block and a gap with which every width takes some
room, pushing apart leaves the blocks outside of the rows where they are. In each row, its placed
blocks go to the least left sides at which each one starts a gap behind the one before it. So no
block goes to the left, the order stays, all pairs are a gap apart, and pushing again changes
nothing. -/
theorem exists_separate_leastApart {rows : Rows} (disjoint : rows.values.Pairwise List.Disjoint)
    (nodup : ∀ ids ∈ rows.values, ids.Nodup)
    (hwidths : ∀ ids ∈ rows.values, ∀ id ∈ ids, id ∈ xs.keys →
      ∃ w, widths.get? id = some w ∧ 0 < w + gap) :
    ∃ xs', separate rows xs widths gap = .ok xs' ∧ OnlyMoves rows.values.flatten xs xs' ∧
      (∀ ids ∈ rows.values, ∃ row, LeastApart widths xs xs' gap ids row) ∧
      (∀ id, xs.orZero id ≤ xs'.orZero id) ∧ separate rows xs' widths gap = .ok xs' := by
  obtain ⟨xs', hxs', hmoves, hpushed⟩ : Succeeds (separate rows xs widths gap) _ :=
    succeeds_separate disjoint nodup fun ids hids id hid hplaced ↦ by
      obtain ⟨w, hw, -⟩ := hwidths ids hids id hid hplaced
      exact Table.mem_keys_iff.mpr ⟨w, hw⟩
  have hleast : ∀ ids ∈ rows.values, LeastApart widths xs xs' gap ids (fromLeft xs ids) := by
    intro ids hids
    refine (hpushed ids hids).leastApart (nodup ids hids) hmoves.keys fun id hid ↦ ?_
    obtain ⟨hid, hplaced⟩ := mem_fromLeft.mp hid
    obtain ⟨w, hw, hroom⟩ := hwidths ids hids id hid hplaced
    rwa [Table.orZero_of_get? hw]
  refine ⟨xs', hxs', hmoves, fun ids hids ↦ ⟨_, hleast ids hids⟩, fun id ↦ ?_, ?_⟩
  · by_cases hplaced : id ∈ xs.keys
    · by_cases hid : id ∈ rows.values.flatten
      · obtain ⟨ids, hids, hid⟩ := List.mem_flatten.mp hid
        exact (hleast ids hids).admissible.le id (mem_fromLeft.mpr ⟨hid, hplaced⟩)
      · rw [Table.orZero, Table.orZero, hmoves.frame id hid]
    · rw [Table.orZero_of_not_mem hplaced, Table.orZero_of_not_mem (hmoves.keys ▸ hplaced)]
  · refine foldlM_eq_ok_self fun ids hids ↦ ?_
    rw [(hleast ids hids).after.eq_fromLeft (nodup ids hids)]
    exact separateRow_eq_self ((hpushed ids hids).others.imp fun _ _ ↦ PushedFrom.pushed)

/-- Two blocks at one place go apart in the order of their row, and the second one, which has no
width, pushes the third; the other row and the block of no row stay. -/
theorem exists_separate_leastApart_of_same_left :
    let rows : Rows := ⟨[(0, ["c", "b", "new", "a"]), (1, ["d"])]⟩
    let xs : Table String Rat := ⟨[("a", 0), ("b", 0), ("c", 60), ("d", 5), ("e", 5)]⟩
    let widths : Table String Rat := ⟨[("a", 0), ("b", 20), ("c", 100), ("d", 20)]⟩
    rows.values.Pairwise List.Disjoint ∧ (∀ ids ∈ rows.values, ids.Nodup) ∧
      (∀ ids ∈ rows.values, ∀ id ∈ ids, id ∈ xs.keys →
        ∃ w, widths.get? id = some w ∧ 0 < w + 40) ∧
      ∃ xs', separate rows xs widths 40 = .ok xs' ∧ OnlyMoves rows.values.flatten xs xs' ∧
        (∀ ids ∈ rows.values, ∃ row, LeastApart widths xs xs' 40 ids row) ∧
        (∀ id, xs.orZero id ≤ xs'.orZero id) ∧ separate rows xs' widths 40 = .ok xs' := by
  intro rows xs widths
  have disjoint : rows.values.Pairwise List.Disjoint := by simp [rows, Table.values]
  have nodup : ∀ ids ∈ rows.values, ids.Nodup := by decide
  have hwidths : ∀ ids ∈ rows.values, ∀ id ∈ ids, id ∈ xs.keys →
      ∃ w, widths.get? id = some w ∧ 0 < w + 40 := by
    have hroom : ∀ id ∈ widths.keys, 0 < widths.orZero id + 40 := by decide +kernel
    have hknown : ∀ ids ∈ rows.values, ∀ id ∈ ids, id ∈ xs.keys → id ∈ widths.keys := by decide
    intro ids hids id hid hplaced
    have hmem := hknown ids hids id hid hplaced
    obtain ⟨w, hw⟩ := Table.mem_keys_iff.mp hmem
    exact ⟨w, hw, Table.orZero_of_get? hw ▸ hroom id hmem⟩
  exact ⟨disjoint, nodup, hwidths, exists_separate_leastApart disjoint nodup hwidths⟩

end FlowChart.Row
