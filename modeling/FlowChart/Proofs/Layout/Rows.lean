import FlowChart.Layout.Row
import FlowChart.Proofs.Layout.Levels
import FlowChart.Proofs.Sorting.Permutation
import Mathlib.Data.List.Chain
import Mathlib.Data.List.Infix

/-!
# What arranging rows does

Every step of the arrangement succeeds if widths and heights are known, and keeps the set of placed
blocks once all are placed. A step for a row only moves the blocks of that row, so what holds of a
row after its own step still holds when the other rows are done. Pushing leaves a chain of
neighbours that are clear of each other, centring moves a row as a whole, and tops are stacked.
-/

namespace FlowChart.Row

variable {α : Type} {xs : Table String α}

/-! ### Steps for rows -/

/-- Two tables agree on a row. -/
def AgreeOn (ids : List String) (xs xs' : Table String α) : Prop :=
  ∀ id ∈ ids, xs'.get? id = xs.get? id

/-- What a step for a row may do: it keeps the keys and moves only blocks of the row. -/
structure OnlyMoves (ids : List String) (xs xs' : Table String α) : Prop where
  /-- The same blocks are placed, in the same order. -/
  keys : xs'.keys = xs.keys
  /-- Blocks outside the row stay. -/
  frame : ∀ id ∉ ids, xs'.get? id = xs.get? id

/-- Steps for disjoint rows, one after the other, do to every row what its own step does. -/
theorem succeeds_foldlM_rows {step : Table String α → List String → Except Fault (Table String α)}
    {rows : List (List String)} (disjoint : rows.Pairwise List.Disjoint)
    (done : List String → Table String α → Table String α → Prop)
    (congr : ∀ {ids xs₁ xs₂ ys₁ ys₂}, AgreeOn ids xs₁ xs₂ → AgreeOn ids ys₁ ys₂ →
      done ids xs₁ ys₁ → done ids xs₂ ys₂)
    (hstep : ∀ ids ∈ rows, ∀ xs', xs'.keys = xs.keys →
      Succeeds (step xs' ids) fun xs'' ↦ OnlyMoves ids xs' xs'' ∧ done ids xs' xs'') :
    Succeeds (rows.foldlM step xs)
      fun xs' ↦ OnlyMoves rows.flatten xs xs' ∧ ∀ ids ∈ rows, done ids xs xs' := by
  induction rows generalizing xs with
  | nil => exact .ok ⟨⟨rfl, fun _ _ ↦ rfl⟩, by simp⟩
  | cons row rest ih =>
    have parts := List.pairwise_cons.mp disjoint
    rw [List.foldlM_cons]
    apply (hstep row (by simp) xs rfl).bind
    intro xs₁ h₁
    apply (ih parts.2 fun ids hids xs' hkeys ↦
      hstep ids (List.mem_cons_of_mem row hids) xs' (hkeys.trans h₁.1.keys)).imp
    intro xs₂ h₂
    have hrow : AgreeOn row xs₁ xs₂ := fun id hid ↦ h₂.1.frame id fun hrest ↦ by
      obtain ⟨ids, hids, hid'⟩ := List.mem_flatten.mp hrest
      exact parts.1 ids hids hid hid'
    refine ⟨⟨h₂.1.keys.trans h₁.1.keys, fun id hid ↦ ?_⟩, fun ids hids ↦ ?_⟩
    · simp only [List.flatten_cons, List.mem_append, not_or] at hid
      exact (h₂.1.frame id hid.2).trans (h₁.1.frame id hid.1)
    · rcases List.mem_cons.mp hids with rfl | hids
      · exact congr (fun _ _ ↦ rfl) hrow h₁.2
      · have hbefore : AgreeOn ids xs₁ xs := fun id hid ↦
          (h₁.1.frame id fun hid' ↦ parts.1 ids hids hid' hid).symm
        exact congr hbefore (fun _ _ ↦ rfl) (h₂.2 ids hids)

variable [Scalar α] {widths : Table String α} {gap : α} {levels : Table String Int}

/-- The right side of a block that is placed and has a width. -/
theorem rightOf_eq_ok {id : String} {x w : α} (hx : xs.get? id = some x)
    (hw : widths.get? id = some w) : rightOf xs widths id = .ok (x + w) := by
  rw [rightOf, Table.fetch_eq_ok_iff.mpr hx, Table.fetch_eq_ok_iff.mpr hw]
  rfl

private theorem succeeds_rightOf {id : String} (hx : id ∈ xs.keys) (hw : id ∈ widths.keys) :
    Succeeds (rightOf xs widths id) fun _ ↦ True := by
  obtain ⟨x, hx⟩ := Table.mem_keys_iff.mp hx
  obtain ⟨w, hw⟩ := Table.mem_keys_iff.mp hw
  exact ⟨x + w, rightOf_eq_ok hx hw, trivial⟩

/-! ### Leftovers -/

private theorem succeeds_rightEnd (hwidths : ∀ id ∈ xs.keys, id ∈ widths.keys) (level : Int) :
    Succeeds (rightEnd levels widths xs level) fun _ ↦ True := by
  have hrights : ∀ id ∈ xs.keys.filter fun id ↦ levels.get? id == some level,
      Succeeds (rightOf xs widths id) fun _ ↦ True := by
    intro id hid
    have hx := List.mem_of_mem_filter hid
    exact succeeds_rightOf hx (hwidths id hx)
  apply (Succeeds.mapM hrights).bind
  intro rights _
  cases rights <;> exact .ok trivial

/-- A block that has a place keeps it. Any other one is placed at the right end of its level. -/
theorem placeLeftover_cases {s s' : List String × Table String α} {id : String}
    (h : placeLeftover levels widths gap s id = .ok s') :
    id ∈ s.2.keys ∧ s' = s ∨
    id ∉ s.2.keys ∧ ∃ right,
      rightEnd levels widths s.2 ((levels.get? id).getD 0) = .ok right ∧
        s' = (s.1 ++ [id], s.2.insert id (right + gap)) := by
  unfold placeLeftover at h
  split at h
  · next hplaced =>
    cases h
    exact .inl ⟨(s.2.contains_iff_mem_keys id).mp hplaced, rfl⟩
  · next hnew =>
    obtain ⟨right, hright, h⟩ := exists_of_bind_eq_ok h
    cases h
    exact .inr ⟨mt (s.2.contains_iff_mem_keys id).mpr hnew, right, hright, rfl⟩

private theorem succeeds_placeLeftover {s : List String × Table String α} {id : String}
    (hwidths : ∀ id ∈ s.2.keys, id ∈ widths.keys) (hs : s.2.HasDistinctKeys) :
    Succeeds (placeLeftover levels widths gap s id)
      fun s' ↦ s'.2.HasDistinctKeys ∧ ∀ k, k ∈ s'.2.keys ↔ k = id ∨ k ∈ s.2.keys := by
  unfold placeLeftover
  split
  · next hplaced =>
    refine .ok ⟨hs, fun k ↦ ⟨.inr, ?_⟩⟩
    rintro (rfl | hk)
    · exact (Table.contains_iff_mem_keys _ _).mp hplaced
    · exact hk
  · apply (succeeds_rightEnd hwidths _).bind
    intro right _
    exact .ok ⟨hs.insert _ _, fun k ↦ Table.mem_keys_insert⟩

/-- Placing leftovers completes the placement of a graph. -/
theorem succeeds_placeLeftovers {g : Graph} (hxs : xs.HasDistinctKeys)
    (hplaced : ∀ id ∈ xs.keys, id ∈ g.ids) (hwidths : ∀ id ∈ g.ids, id ∈ widths.keys) :
    Succeeds (placeLeftovers g.ids xs levels widths gap) fun r ↦ r.2.Covers g := by
  refine (Succeeds.foldlM (fun done s ↦ s.2.HasDistinctKeys ∧ (∀ id ∈ s.2.keys, id ∈ g.ids) ∧
    ∀ id ∈ done, id ∈ s.2.keys) ⟨hxs, hplaced, by simp⟩ fun done id rest hsplit s hs ↦ ?_).imp
    fun s hs ↦ ⟨hs.1, fun id ↦ ⟨hs.2.1 id, hs.2.2 id⟩⟩
  have hid : id ∈ g.ids := hsplit ▸ by simp
  refine (succeeds_placeLeftover (fun k hk ↦ hwidths k (hs.2.1 k hk)) hs.1).imp
    fun s' hs' ↦ ⟨hs'.1, fun k hk ↦ ?_, fun k hk ↦ (hs'.2 k).mpr ?_⟩
  · rcases (hs'.2 k).mp hk with rfl | hk
    · exact hid
    · exact hs.2.1 k hk
  · rcases List.mem_append.mp hk with hk | hk
    · exact .inr (hs.2.2 k hk)
    · exact .inl (List.mem_singleton.mp hk)

/-! ### Pushing apart -/

/-- A block lies where pushing it off its left neighbour leaves it. -/
def Pushed (widths : Table String α) (gap : α) (xs : Table String α) (left right : String) :
    Prop :=
  ∃ x w x', xs.get? left = some x ∧ widths.get? left = some w ∧ xs.get? right = some x' ∧
    (x' = x + w + gap ∨ ¬ x' < x + w + gap)

/-- A block lies where pushing it off its left neighbour moves it from where it stood before. -/
def PushedFrom (widths : Table String α) (gap : α) (xs xs' : Table String α)
    (left right : String) : Prop :=
  ∃ x w x₀, xs'.get? left = some x ∧ widths.get? left = some w ∧ xs.get? right = some x₀ ∧
    xs'.get? right = some (Scalar.larger x₀ (x + w + gap))

/-- What was pushed from where it stood is pushed off its left neighbour. -/
theorem PushedFrom.pushed {xs' : Table String α} {left right : String}
    (h : PushedFrom widths gap xs xs' left right) : Pushed widths gap xs' left right := by
  obtain ⟨x, w, x₀, hx, hw, -, hx'⟩ := h
  refine ⟨x, w, _, hx, hw, hx', ?_⟩
  unfold Scalar.larger
  split
  · exact .inl rfl
  · next hnot => exact .inr hnot

private theorem PushedFrom.congr {ids : List String} {xs₁ xs₂ ys₁ ys₂ : Table String α}
    (hxs : AgreeOn ids xs₁ xs₂) (hys : AgreeOn ids ys₁ ys₂) {left right : String}
    (hleft : left ∈ ids) (hright : right ∈ ids) (h : PushedFrom widths gap xs₁ ys₁ left right) :
    PushedFrom widths gap xs₂ ys₂ left right := by
  obtain ⟨x, w, x₀, hx, hw, hx₀, hx'⟩ := h
  exact ⟨x, w, x₀, (hys left hleft).trans hx, hw, (hxs right hright).trans hx₀,
    (hys right hright).trans hx'⟩

/-- The blocks of a row, given from left to right, lie where pushing them apart moves them: the
first one stays, and every other one is pushed off its left neighbour. -/
structure PushedApart (widths : Table String α) (gap : α) (xs xs' : Table String α)
    (row : List String) : Prop where
  /-- The first block stays. -/
  first : ∀ id ∈ row.head?, xs'.get? id = xs.get? id
  /-- The others are pushed. -/
  others : row.IsChain (PushedFrom widths gap xs xs')

private theorem succeeds_push {left right : String} (hne : left ≠ right)
    (hleft : left ∈ xs.keys) (hright : right ∈ xs.keys) (hw : left ∈ widths.keys) :
    Succeeds (push widths gap xs left right)
      fun xs' ↦ OnlyMoves [right] xs xs' ∧ PushedFrom widths gap xs xs' left right := by
  obtain ⟨x, hx⟩ := Table.mem_keys_iff.mp hleft
  obtain ⟨x', hx'⟩ := Table.mem_keys_iff.mp hright
  obtain ⟨w, hw⟩ := Table.mem_keys_iff.mp hw
  have hend : Succeeds (rightOf xs widths left) (· = x + w) := ⟨_, rightOf_eq_ok hx hw, rfl⟩
  apply hend.bind
  intro _ hend
  apply (Succeeds.fetch hx').bind
  intro _ he
  subst hend he
  split
  · next hlt =>
    refine .ok ⟨⟨Table.keys_insert_of_mem hright _, fun id hid ↦ ?_⟩, x, w, _, ?_, hw, hx', ?_⟩
    · exact Table.get?_insert_of_ne _ (by simpa [eq_comm] using hid) _
    · exact (Table.get?_insert_of_ne _ hne.symm _).trans hx
    · rw [Table.get?_insert_self, Scalar.larger, if_pos hlt]
  · next hnot =>
    refine .ok ⟨⟨rfl, fun _ _ ↦ rfl⟩, x, w, _, hx, hw, hx', ?_⟩
    rw [hx', Scalar.larger, if_neg hnot]

/-- Pushing a row apart starts with its first two blocks. -/
theorem separateRow_cons_cons (a b : String) (rest : List String) :
    separateRow widths gap xs (a :: b :: rest) =
      push widths gap xs a b >>= fun xs' ↦ separateRow widths gap xs' (b :: rest) := rfl

/-- Pushing the blocks of a row apart moves all but the first one, each off its left neighbour. -/
theorem succeeds_separateRow {row : List String} (nodup : row.Nodup)
    (hxs : ∀ id ∈ row, id ∈ xs.keys) (hwidths : ∀ id ∈ row, id ∈ widths.keys) :
    Succeeds (separateRow widths gap xs row)
      fun xs' ↦ OnlyMoves row.tail xs xs' ∧ row.IsChain (PushedFrom widths gap xs xs') := by
  induction row generalizing xs with
  | nil => exact .ok ⟨⟨rfl, fun _ _ ↦ rfl⟩, .nil⟩
  | cons a row ih =>
    cases row with
    | nil => exact .ok ⟨⟨rfl, fun _ _ ↦ rfl⟩, .singleton a⟩
    | cons b rest =>
      have parts := List.nodup_cons.mp nodup
      have parts' := List.nodup_cons.mp parts.2
      have hab : a ≠ b := fun h ↦ parts.1 (by simp [h])
      rw [separateRow_cons_cons]
      apply (succeeds_push hab (hxs a (by simp)) (hxs b (by simp)) (hwidths a (by simp))).bind
      intro xs₁ h₁
      apply (ih parts.2 (fun id hid ↦ h₁.1.keys ▸ hxs id (List.mem_cons_of_mem a hid))
        fun id hid ↦ hwidths id (List.mem_cons_of_mem a hid)).imp
      intro xs₂ h₂
      -- what comes after only moves blocks behind `b`, so the first two keep their places
      have hfirst : AgreeOn [a, b] xs₁ xs₂ := by
        intro id hid
        apply h₂.1.frame id
        intro hrest
        rcases List.mem_cons.mp hid with rfl | hid
        · exact parts.1 (List.mem_cons_of_mem b hrest)
        · exact parts'.1 (List.mem_singleton.mp hid ▸ hrest)
      -- and the first push leaves the blocks behind `b` where they stood
      have hbehind : ∀ id ∈ rest, xs.get? id = xs₁.get? id := by
        intro id hid
        apply (h₁.1.frame id _).symm
        rw [List.mem_singleton]
        rintro rfl
        exact parts'.1 hid
      refine ⟨⟨h₂.1.keys.trans h₁.1.keys, fun id hid ↦ ?_⟩, ?_⟩
      · simp only [List.tail_cons, List.mem_cons, not_or] at hid
        exact (h₂.1.frame id hid.2).trans (h₁.1.frame id (by simpa using hid.1))
      · refine List.isChain_cons_cons.mpr ⟨?_, h₂.2.imp_of_mem_tail_imp ?_⟩
        · exact h₁.2.congr (fun _ _ ↦ rfl) hfirst (by simp) (by simp)
        · rintro left right - hright ⟨x, w, x₀, hx, hw, hx₀, hx'⟩
          exact ⟨x, w, x₀, hx, hw, (hbehind right hright).trans hx₀, hx'⟩

/-- From left to right stand the placed blocks among some ids. -/
theorem perm_fromLeft_filter (xs : Table String α) (ids : List String) :
    (fromLeft xs ids).Perm (ids.filter xs.contains) := by
  apply ((perm_sortByRuns _ _).map _).trans
  apply List.Perm.of_eq
  rw [List.map_filterMap, ← List.filterMap_eq_filter]
  refine List.filterMap_congr fun id _ ↦ ?_
  cases hx : xs.get? id <;> simp [Option.guard, Table.contains, hx]

/-- From left to right stand the placed blocks of a row. -/
theorem perm_fromLeft {ids : List String} (h : ∀ id ∈ ids, id ∈ xs.keys) :
    (fromLeft xs ids).Perm ids :=
  (perm_fromLeft_filter xs ids).trans (.of_eq (xs.filter_contains h))

/-- What stands in a row from left to right are the blocks of it that are placed. -/
theorem mem_fromLeft {ids : List String} {id : String} :
    id ∈ fromLeft xs ids ↔ id ∈ ids ∧ id ∈ xs.keys := by
  rw [(perm_fromLeft_filter xs ids).mem_iff, List.mem_filter, Table.contains_iff_mem_keys]

/-- What stands where in a row only depends on the row. -/
theorem fromLeft_congr {ids : List String} {xs' : Table String α} (h : AgreeOn ids xs xs') :
    fromLeft xs' ids = fromLeft xs ids := by
  unfold fromLeft
  rw [List.filterMap_congr fun id hid ↦ congrArg (Option.map (id, ·)) (h id hid)]

private theorem PushedApart.congr {ids row : List String} {xs₁ xs₂ ys₁ ys₂ : Table String α}
    (hxs : AgreeOn ids xs₁ xs₂) (hys : AgreeOn ids ys₁ ys₂) (hrow : ∀ id ∈ row, id ∈ ids)
    (h : PushedApart widths gap xs₁ ys₁ row) : PushedApart widths gap xs₂ ys₂ row where
  first id hid := by
    have hmem := hrow id (List.mem_of_mem_head? hid)
    rw [hys id hmem, h.first id hid, hxs id hmem]
  others := h.others.imp_of_mem_imp fun a b ha hb hp ↦ hp.congr hxs hys (hrow a ha) (hrow b hb)

/-- Pushing the blocks of every row apart moves only these blocks, each off its left neighbour. -/
theorem succeeds_separate {rows : Rows} (disjoint : rows.values.Pairwise List.Disjoint)
    (nodup : ∀ ids ∈ rows.values, ids.Nodup)
    (hwidths : ∀ ids ∈ rows.values, ∀ id ∈ ids, id ∈ xs.keys → id ∈ widths.keys) :
    Succeeds (separate rows xs widths gap) fun xs' ↦ OnlyMoves rows.values.flatten xs xs' ∧
      ∀ ids ∈ rows.values, PushedApart widths gap xs xs' (fromLeft xs ids) := by
  refine succeeds_foldlM_rows disjoint
    (fun ids xs xs' ↦ PushedApart widths gap xs xs' (fromLeft xs ids)) ?_ ?_
  · intro ids xs₁ xs₂ ys₁ ys₂ hxs hys h
    rw [fromLeft_congr hxs]
    exact h.congr hxs hys fun id hid ↦ (mem_fromLeft.mp hid).1
  · intro ids hids xs' hkeys
    have hrow : (fromLeft xs' ids).Nodup :=
      (perm_fromLeft_filter xs' ids).nodup_iff.mpr ((nodup ids hids).filter _)
    refine (succeeds_separateRow hrow (fun id hid ↦ (mem_fromLeft.mp hid).2) fun id hid ↦ ?_).imp
      fun xs'' h ↦ ⟨⟨h.1.keys, fun id hid ↦ ?_⟩, fun id hid ↦ ?_, h.2⟩
    · obtain ⟨hid, hplaced⟩ := mem_fromLeft.mp hid
      exact hwidths ids hids id hid (hkeys ▸ hplaced)
    · exact h.1.frame id fun htail ↦ hid (mem_fromLeft.mp (List.mem_of_mem_tail htail)).1
    · apply h.1.frame id
      obtain ⟨tail, htail⟩ := List.head?_eq_some_iff.mp hid
      rw [htail, List.nodup_cons] at hrow
      rw [htail]
      exact hrow.1

/-! ### Centring -/

private theorem keys_moveBy (offset : α) (xs : Table String α) (id : String) :
    (moveBy offset xs id).keys = xs.keys := by
  unfold moveBy
  split
  · rfl
  · next x hx => exact Table.keys_insert_of_mem (Table.mem_keys_iff.mpr ⟨x, hx⟩) _

private theorem get?_moveBy (offset : α) (xs : Table String α) (id k : String) :
    (moveBy offset xs id).get? k =
      if id = k then (xs.get? id).map (· + offset) else xs.get? k := by
  unfold moveBy
  split
  · next hx =>
    split
    · next hk => rw [← hk, hx, Option.map_none]
    · rfl
  · next x hx => rw [Table.get?_insert, hx, Option.map_some]

private theorem foldl_moveBy (offset : α) {ids : List String} (nodup : ids.Nodup)
    (xs : Table String α) :
    (ids.foldl (moveBy offset) xs).keys = xs.keys ∧ ∀ k,
      (ids.foldl (moveBy offset) xs).get? k =
        if k ∈ ids then (xs.get? k).map (· + offset) else xs.get? k := by
  induction ids generalizing xs with
  | nil => exact ⟨rfl, fun _ ↦ by simp⟩
  | cons id rest ih =>
    have parts := List.nodup_cons.mp nodup
    have hrest := ih parts.2 (moveBy offset xs id)
    constructor
    · exact hrest.1.trans (keys_moveBy offset xs id)
    · intro k
      rw [List.foldl_cons, hrest.2 k, get?_moveBy]
      by_cases hk : id = k
      · subst hk
        simp [parts.1]
      · simp [hk, Ne.symm hk]

/-- Blocks that are placed and have widths, of which there are some, have a middle. -/
theorem succeeds_middle {ids : List String} (hne : ids ≠ [])
    (hxs : ∀ id ∈ ids, id ∈ xs.keys) (hwidths : ∀ id ∈ ids, id ∈ widths.keys) :
    Succeeds (middle xs widths ids) fun _ ↦ True := by
  have hlefts : ∀ id ∈ ids, Succeeds (xs.fetch id) fun _ ↦ True := fun id hid ↦ by
    obtain ⟨x, hx⟩ := Table.mem_keys_iff.mp (hxs id hid)
    exact (Succeeds.fetch hx).imp fun _ _ ↦ trivial
  have hrights : ∀ id ∈ ids, Succeeds (rightOf xs widths id) fun _ ↦ True := fun id hid ↦
    succeeds_rightOf (hxs id hid) (hwidths id hid)
  obtain ⟨id, rest, rfl⟩ := List.exists_cons_of_ne_nil hne
  apply (Succeeds.mapM hlefts).bind
  intro lefts hall
  cases hall
  apply Succeeds.bind (p := fun _ ↦ True) (.ok trivial)
  intro _ _
  apply (Succeeds.mapM hrights).bind
  intro rights hall
  cases hall
  apply Succeeds.bind (p := fun _ ↦ True) (.ok trivial)
  intro _ _
  exact .ok trivial

private theorem middle_congr {ids : List String} {xs' : Table String α} (h : AgreeOn ids xs xs') :
    middle xs' widths ids = middle xs widths ids := by
  have hfetch : ∀ id ∈ ids, xs'.fetch id = xs.fetch id := fun id hid ↦ by
    rw [Table.fetch, Table.fetch, h id hid]
  have hright : ∀ id ∈ ids, rightOf xs' widths id = rightOf xs widths id := fun id hid ↦ by
    rw [rightOf, rightOf, hfetch id hid]
  rw [middle, middle, mapM_eq_of_forall₂ (fun _ _ ↦ id) (List.forall₂_same.mpr hfetch),
    mapM_eq_of_forall₂ (fun _ _ ↦ id) (List.forall₂_same.mpr hright)]

/-- A row has moved as a whole. -/
def Shifted (ids : List String) (xs xs' : Table String α) : Prop :=
  ∃ offset, ∀ id ∈ ids, xs'.get? id = (xs.get? id).map (· + offset)

/-- A row has moved as a whole, as far as its middle was from `center`. -/
def ShiftedTo (widths : Table String α) (center : α) (ids : List String) (xs xs' : Table String α) :
    Prop :=
  ids ≠ [] → ∃ mid, middle xs widths ids = .ok mid ∧
    ∀ id ∈ ids, xs'.get? id = (xs.get? id).map (· + (center - mid))

/-- What has moved so far has moved as a whole. -/
theorem ShiftedTo.shifted {center : α} {ids : List String} {xs' : Table String α}
    (h : ShiftedTo widths center ids xs xs') : Shifted ids xs xs' := by
  by_cases hne : ids = []
  · exact ⟨center, by simp [hne]⟩
  · obtain ⟨mid, -, hmoved⟩ := h hne
    exact ⟨center - mid, hmoved⟩

private theorem ShiftedTo.congr {center : α} {ids : List String} {xs₁ xs₂ ys₁ ys₂ : Table String α}
    (hxs : AgreeOn ids xs₁ xs₂) (hys : AgreeOn ids ys₁ ys₂)
    (h : ShiftedTo widths center ids xs₁ ys₁) : ShiftedTo widths center ids xs₂ ys₂ := by
  intro hne
  obtain ⟨mid, hmid, hmoved⟩ := h hne
  refine ⟨mid, (middle_congr hxs).trans hmid, fun id hid ↦ ?_⟩
  rw [hys id hid, hmoved id hid, hxs id hid]

private theorem succeeds_centerRow {ids : List String} (nodup : ids.Nodup)
    (hxs : ∀ id ∈ ids, id ∈ xs.keys) (hwidths : ∀ id ∈ ids, id ∈ widths.keys) (center : α) :
    Succeeds (centerRow widths center xs ids)
      fun xs' ↦ OnlyMoves ids xs xs' ∧ ShiftedTo widths center ids xs xs' := by
  unfold centerRow
  dsimp only
  rw [xs.filter_contains hxs]
  split
  · next hempty =>
    exact .ok ⟨⟨rfl, fun _ _ ↦ rfl⟩, fun hne ↦ absurd (List.isEmpty_iff.mp hempty) hne⟩
  · next hne =>
    obtain ⟨mid, hmid, -⟩ := succeeds_middle (by simpa using hne) hxs hwidths
    rw [hmid]
    have hmoved := foldl_moveBy (center - mid) nodup xs
    refine .ok ⟨⟨hmoved.1, fun id hid ↦ ?_⟩, fun _ ↦ ⟨mid, hmid, fun id hid ↦ ?_⟩⟩
    · rw [hmoved.2 id, if_neg hid]
    · rw [hmoved.2 id, if_pos hid]

/-- Centring moves every row as a whole, as far as its middle is from that of the chart. -/
theorem succeeds_centerRows {rows : Rows} (disjoint : rows.values.Pairwise List.Disjoint)
    (nodup : ∀ ids ∈ rows.values, ids.Nodup) (hxs : ∀ ids ∈ rows.values, ∀ id ∈ ids, id ∈ xs.keys)
    (hwidths : ∀ id ∈ xs.keys, id ∈ widths.keys) :
    Succeeds (centerRows rows xs widths) fun xs' ↦ OnlyMoves rows.values.flatten xs xs' ∧
      ∃ center, (xs.keys ≠ [] → middle xs widths xs.keys = .ok center) ∧
        ∀ ids ∈ rows.values, ShiftedTo widths center ids xs xs' := by
  unfold centerRows
  split
  · next h =>
    have hkeys := Table.isEmpty_iff.mp h
    refine .ok ⟨⟨rfl, fun _ _ ↦ rfl⟩, ((0 : Nat) : α), absurd hkeys, fun ids hids hne ↦ ?_⟩
    obtain ⟨id, hid⟩ := List.exists_mem_of_ne_nil ids hne
    have := hxs ids hids id hid
    simp [hkeys] at this
  · next h =>
    obtain ⟨center, hcenter, -⟩ :=
      succeeds_middle (mt Table.isEmpty_iff.mpr h) (fun _ h ↦ h) hwidths
    have hrows := succeeds_foldlM_rows disjoint (ShiftedTo widths center) ShiftedTo.congr
      fun ids hids xs' hkeys' ↦ succeeds_centerRow (nodup ids hids)
        (fun id hid ↦ hkeys' ▸ hxs ids hids id hid)
        (fun id hid ↦ hwidths id (hxs ids hids id hid)) center
    rw [hcenter]
    exact hrows.imp fun xs' hxs' ↦ ⟨hxs'.1, center, fun _ ↦ rfl, hxs'.2⟩

/-! ### Tops -/

private theorem succeeds_largest {heights : Table String α} {ids : List String} (hne : ids ≠ [])
    (hheights : ∀ id ∈ ids, id ∈ heights.keys) :
    Succeeds (ids.mapM heights.fetch >>= Scalar.largestOf) fun _ ↦ True := by
  have hall : ∀ id ∈ ids, Succeeds (heights.fetch id) fun _ ↦ True := fun id hid ↦ by
    obtain ⟨h, hh⟩ := Table.mem_keys_iff.mp (hheights id hid)
    exact (Succeeds.fetch hh).imp fun _ _ ↦ trivial
  obtain ⟨id, rest, rfl⟩ := List.exists_cons_of_ne_nil hne
  apply (Succeeds.mapM hall).bind
  intro hs h
  cases h
  exact .ok trivial

private theorem succeeds_topsFrom {heights : Table String α} (entries : List (Int × List String))
    (hne : ∀ e ∈ entries, e.2 ≠ []) (hheights : ∀ e ∈ entries, ∀ id ∈ e.2, id ∈ heights.keys)
    (top : α) :
    Succeeds (topsFrom heights gap top entries)
      fun tops ↦ tops.map (·.1) = entries.map (·.1) := by
  induction entries generalizing top with
  | nil => exact .ok rfl
  | cons e rest ih =>
    obtain ⟨level, ids⟩ := e
    have hrest := ih (fun e he ↦ hne e (List.mem_cons_of_mem _ he))
      fun e he ↦ hheights e (List.mem_cons_of_mem _ he)
    rw [topsFrom, ← bind_assoc]
    apply (succeeds_largest (hne _ List.mem_cons_self) (hheights _ List.mem_cons_self)).bind
    intro height _
    apply (hrest _).bind
    intro tops htops
    apply Succeeds.ok
    rw [List.map_cons, List.map_cons, htops]

/-- Every row gets a top. -/
theorem succeeds_tops {rows : Rows} {heights : Table String α} (top gap : α)
    (hne : ∀ ids ∈ rows.values, ids ≠ [])
    (hheights : ∀ ids ∈ rows.values, ∀ id ∈ ids, id ∈ heights.keys) :
    Succeeds (tops rows heights top gap) fun ys ↦ ys.keys = rows.keys := by
  have hmem : ∀ e ∈ rows.entries, e.2 ∈ rows.values := fun e he ↦ List.mem_map_of_mem he
  exact (succeeds_topsFrom rows.entries (fun e he ↦ hne e.2 (hmem e he))
    (fun e he ↦ hheights e.2 (hmem e he)) top).bind fun ys h ↦ .ok h

end FlowChart.Row
