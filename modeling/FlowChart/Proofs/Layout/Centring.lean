import FlowChart.Proofs.Layout.Rows
import FlowChart.Proofs.Layout.Subtrees

/-!
# One middle for all rows

Centring moves every row as a whole, to the middle that the chart has before any row moves. The rows
then have one middle, and whatever has rows with one middle has this middle itself: the row that
begins farthest to the left ends farthest to the right. So the chart keeps its middle, and centring
again moves no row.
-/

namespace FlowChart.Row

variable {widths xs xs' : Table String Rat} {ids : List String} {left right center : Rat}

/-! ### Extents -/

/-- Some blocks begin at a left side, and end at a right side. -/
structure Spans (xs widths : Table String Rat) (ids : List String) (left right : Rat) : Prop where
  /-- No block begins farther to the left. -/
  left : IsLeast {x | x ∈ ids.map xs.orZero} left
  /-- No block ends farther to the right. -/
  right : IsGreatest {x | x ∈ ids.map fun id ↦ xs.orZero id + widths.orZero id} right

/-- Some blocks span as much to the left of `center` as to the right. -/
def HasMiddle (xs widths : Table String Rat) (ids : List String) (center : Rat) : Prop :=
  ∃ left right, Spans xs widths ids left right ∧ (left + right) / 2 = center

private theorem orZero_of_rightOf {id : String} {r : Rat} (h : rightOf xs widths id = .ok r) :
    r = xs.orZero id + widths.orZero id := by
  obtain ⟨x, hx, h⟩ := exists_of_bind_eq_ok h
  obtain ⟨w, hw, h⟩ := exists_of_bind_eq_ok h
  cases h
  rw [Table.orZero_of_get? (Table.fetch_eq_ok_iff.mp hx),
    Table.orZero_of_get? (Table.fetch_eq_ok_iff.mp hw)]

/-- The computed middle is halfway between the ends. -/
theorem hasMiddle_of_middle (h : middle xs widths ids = .ok center) :
    HasMiddle xs widths ids center := by
  obtain ⟨lefts, hlefts, h⟩ := exists_of_bind_eq_ok h
  obtain ⟨left, hleft, h⟩ := exists_of_bind_eq_ok h
  obtain ⟨rights, hrights, h⟩ := exists_of_bind_eq_ok h
  obtain ⟨right, hright, h⟩ := exists_of_bind_eq_ok h
  cases h
  have hl : lefts = ids.map xs.orZero := Table.eq_map_orZero <|
    (forall₂_of_mapM_eq_ok hlefts).imp fun _ _ ↦ Table.fetch_eq_ok_iff.mp
  have hr : rights.map id = ids.map fun id ↦ xs.orZero id + widths.orZero id :=
    map_eq_of_forall₂ (fun _ _ ↦ orZero_of_rightOf) (forall₂_of_mapM_eq_ok hrights)
  rw [List.map_id] at hr
  subst hl hr
  exact ⟨left, right, ⟨Scalar.isLeast_of_smallestOf hleft, Scalar.isGreatest_of_largestOf hright⟩,
    (Scalar.half_eq_div _).symm⟩

/-- Blocks have one middle at most. -/
theorem HasMiddle.unique {center' : Rat} (h : HasMiddle xs widths ids center)
    (h' : HasMiddle xs widths ids center') : center = center' := by
  obtain ⟨left, right, hspans, rfl⟩ := h
  obtain ⟨left', right', hspans', rfl⟩ := h'
  rw [hspans.left.unique hspans'.left, hspans.right.unique hspans'.right]

/-- Blocks that are placed and have widths have their middle computed. -/
theorem HasMiddle.middle_eq_ok (h : HasMiddle xs widths ids center)
    (hxs : ∀ id ∈ ids, id ∈ xs.keys) (hwidths : ∀ id ∈ ids, id ∈ widths.keys) :
    middle xs widths ids = .ok center := by
  have hne : ids ≠ [] := by
    rintro rfl
    obtain ⟨left, right, hspans, -⟩ := h
    simpa using hspans.left.1
  obtain ⟨mid, hmid, -⟩ := succeeds_middle hne hxs hwidths
  rw [hmid, (hasMiddle_of_middle hmid).unique h]

/-! ### Moving a row -/

/-- What moves as a whole takes its ends with it. -/
theorem Spans.add {offset : Rat} (h : Spans xs widths ids left right)
    (hmoved : ∀ id ∈ ids, xs'.orZero id = xs.orZero id + offset) :
    Spans xs' widths ids (left + offset) (right + offset) := by
  have hlefts : ids.map xs'.orZero = (ids.map xs.orZero).map (· + offset) := by
    rw [List.map_map]
    exact List.map_congr_left hmoved
  have hrights : (ids.map fun id ↦ xs'.orZero id + widths.orZero id) =
      (ids.map fun id ↦ xs.orZero id + widths.orZero id).map (· + offset) := by
    rw [List.map_map]
    refine List.map_congr_left fun id hid ↦ ?_
    rw [hmoved id hid, Function.comp_apply, add_right_comm]
  have hmono : Monotone fun x : Rat ↦ x + offset := monotone_id.add_const offset
  constructor
  · have himage := hmono.map_isLeast h.left
    simpa [hlefts, Set.image] using himage
  · have himage := hmono.map_isGreatest h.right
    simpa [hrights, Set.image] using himage

private theorem orZero_of_map {offset : Rat} (hxs : ∀ id ∈ ids, id ∈ xs.keys)
    (h : ∀ id ∈ ids, xs'.get? id = (xs.get? id).map (· + offset)) :
    ∀ id ∈ ids, xs'.orZero id = xs.orZero id + offset := by
  intro id hid
  obtain ⟨x, hx⟩ := Table.mem_keys_iff.mp (hxs id hid)
  rw [Table.orZero_of_get? hx, Table.orZero, h id hid, hx, Option.map_some, Option.getD_some]

/-- A row that has moved as far as its middle was from `center` has its middle there. -/
theorem ShiftedTo.hasMiddle (h : ShiftedTo widths center ids xs xs')
    (hxs : ∀ id ∈ ids, id ∈ xs.keys) (hne : ids ≠ []) : HasMiddle xs' widths ids center := by
  obtain ⟨mid, hmid, hmoved⟩ := h hne
  obtain ⟨left, right, hspans, rfl⟩ := hasMiddle_of_middle hmid
  exact ⟨_, _, hspans.add (orZero_of_map hxs hmoved), by ring⟩

/-- Blocks in a row that has moved as a whole keep their distances. -/
theorem Shifted.sub_orZero (h : Shifted ids xs xs') (hxs : ∀ id ∈ ids, id ∈ xs.keys) {a b : String}
    (ha : a ∈ ids) (hb : b ∈ ids) :
    xs'.orZero b - xs'.orZero a = xs.orZero b - xs.orZero a := by
  obtain ⟨offset, hmoved⟩ := h
  rw [orZero_of_map hxs hmoved a ha, orZero_of_map hxs hmoved b hb, add_sub_add_right_eq_sub]

/-! ### The chart as a whole -/

/-- Blocks span no more than all blocks of which they are some. -/
theorem Spans.within {row : List String} {left' right' : Rat} (h : Spans xs widths ids left right)
    (hrow : Spans xs widths row left' right') (hmem : ∀ id ∈ row, id ∈ ids) :
    left ≤ left' ∧ right' ≤ right :=
  ⟨h.left.2 (List.map_subset _ hmem hrow.left.1), h.right.2 (List.map_subset _ hmem hrow.right.1)⟩

/-- Blocks that are made up of rows with one middle have this middle. -/
theorem HasMiddle.eq_of_rows {rows : List (List String)} {mid : Rat}
    (h : HasMiddle xs widths ids mid) (hmem : ∀ id, id ∈ rows.flatten ↔ id ∈ ids)
    (hrows : ∀ row ∈ rows, row ≠ [] → HasMiddle xs widths row center) : mid = center := by
  obtain ⟨left, right, hspans, rfl⟩ := h
  have hrow : ∀ id ∈ ids, ∃ row left' right', id ∈ row ∧ Spans xs widths row left' right' ∧
      (left' + right') / 2 = center ∧ left ≤ left' ∧ right' ≤ right := by
    intro id hid
    obtain ⟨row, hrow, hid⟩ := List.mem_flatten.mp ((hmem id).mpr hid)
    obtain ⟨left', right', hspans', hmid⟩ := hrows row hrow (List.ne_nil_of_mem hid)
    exact ⟨row, left', right', hid, hspans', hmid, hspans.within hspans' fun k hk ↦
      (hmem k).mp (List.mem_flatten.mpr ⟨row, hrow, hk⟩)⟩
  apply le_antisymm
  · -- the row of the block that ends farthest to the right ends there too
    obtain ⟨id, hid, hend⟩ := List.mem_map.mp hspans.right.1
    obtain ⟨row, left', right', hid', hspans', hmid, hleft, -⟩ := hrow id hid
    have hright : right ≤ right' := hspans'.right.2 (List.mem_map.mpr ⟨id, hid', hend⟩)
    linarith
  · -- and the row of the block that begins farthest to the left begins there too
    obtain ⟨id, hid, hbegin⟩ := List.mem_map.mp hspans.left.1
    obtain ⟨row, left', right', hid', hspans', hmid, -, hright⟩ := hrow id hid
    have hleft : left' ≤ left := hspans'.left.2 (List.mem_map.mpr ⟨id, hid', hbegin⟩)
    linarith

/-! ### Centring again -/

private theorem foldl_moveBy_zero (xs : Table String Rat) (ids : List String) :
    ids.foldl (moveBy 0) xs = xs := by
  have hstep : ∀ id, moveBy 0 xs id = xs := fun id ↦ by
    unfold moveBy
    split
    · rfl
    · next x hx => rw [add_zero, Table.insert_eq_self hx]
  induction ids with
  | nil => rfl
  | cons id rest ih => rw [List.foldl_cons, hstep, ih]

/-- A row that has its middle at `center` is not moved. -/
theorem centerRow_eq_self (h : ids ≠ [] → HasMiddle xs widths ids center)
    (hxs : ∀ id ∈ ids, id ∈ xs.keys) (hwidths : ∀ id ∈ ids, id ∈ widths.keys) :
    centerRow widths center xs ids = .ok xs := by
  unfold centerRow
  dsimp only
  rw [xs.filter_contains hxs]
  split
  · rfl
  · next hne =>
    rw [(h (by simpa using hne)).middle_eq_ok hxs hwidths]
    show Except.ok (ids.foldl (moveBy (center - center)) xs) = .ok xs
    rw [sub_self, foldl_moveBy_zero]

/-- What centring comes to: the same blocks are placed, and the chart and each row have one middle,
which is where that of the chart was. -/
structure Centered (rows : Rows) (widths xs xs' : Table String Rat) (center : Rat) : Prop where
  /-- The same blocks are placed. -/
  keys : xs'.keys = xs.keys
  /-- The middle that the chart had. -/
  before : HasMiddle xs widths xs.keys center
  /-- The middle that the chart has. -/
  after : HasMiddle xs' widths xs'.keys center
  /-- The middle that each row has. -/
  row : ∀ ids ∈ rows.values, ids ≠ [] → HasMiddle xs' widths ids center
  /-- Blocks of a row keep their distances. -/
  distance : ∀ ids ∈ rows.values, ∀ a ∈ ids, ∀ b ∈ ids,
    xs'.orZero b - xs'.orZero a = xs.orZero b - xs.orZero a

/-- In exact arithmetic, centring the rows of a chart that is not empty gives every row the middle
of the chart, which the chart keeps. It leaves all distances within rows, and centring again changes
nothing. -/
theorem exists_centerRows_centered {rows : Rows} (hne : xs.keys ≠ [])
    (nodup : rows.values.flatten.Nodup) (hmem : ∀ id, id ∈ rows.values.flatten ↔ id ∈ xs.keys)
    (hwidths : ∀ id ∈ xs.keys, id ∈ widths.keys) :
    ∃ xs' center, centerRows rows xs widths = .ok xs' ∧ Centered rows widths xs xs' center ∧
      centerRows rows xs' widths = .ok xs' := by
  have hrows := List.nodup_flatten.mp nodup
  have hxs : ∀ ids ∈ rows.values, ∀ id ∈ ids, id ∈ xs.keys := fun ids hids id hid ↦
    (hmem id).mp (List.mem_flatten.mpr ⟨ids, hids, hid⟩)
  obtain ⟨xs', hxs', hmoves, center, hcenter, hshifted⟩ : Succeeds (centerRows rows xs widths) _ :=
    succeeds_centerRows hrows.2 hrows.1 hxs hwidths
  have hrow : ∀ ids ∈ rows.values, ids ≠ [] → HasMiddle xs' widths ids center := fun ids hids ↦
    (hshifted ids hids).hasMiddle (hxs ids hids)
  have hbefore := hasMiddle_of_middle (hcenter hne)
  have hafter : HasMiddle xs' widths xs'.keys center := by
    rw [hmoves.keys]
    obtain ⟨mid, hmid, -⟩ := succeeds_middle hne (fun id hid ↦ hmoves.keys ▸ hid) hwidths
    have hmiddle := hasMiddle_of_middle hmid
    rwa [hmiddle.eq_of_rows hmem hrow] at hmiddle
  refine ⟨xs', center, hxs', ⟨hmoves.keys, hbefore, hafter, hrow, ?_⟩, ?_⟩
  · intro ids hids a ha b hb
    exact (hshifted ids hids).shifted.sub_orZero (hxs ids hids) ha hb
  · have hwidths' : ∀ id ∈ xs'.keys, id ∈ widths.keys := fun id hid ↦
      hwidths id (hmoves.keys ▸ hid)
    have hxs' : ∀ ids ∈ rows.values, ∀ id ∈ ids, id ∈ xs'.keys := hmoves.keys ▸ hxs
    unfold centerRows
    rw [if_neg (mt Table.isEmpty_iff.mp (hmoves.keys ▸ hne)),
      hafter.middle_eq_ok (fun _ ↦ id) hwidths']
    exact foldlM_eq_ok_self fun ids hids ↦ centerRow_eq_self (hrow ids hids) (hxs' ids hids)
      fun id hid ↦ hwidths' id (hxs' ids hids id hid)

/-- The rows of a chart have different middles, and the chart begins with one row and ends with
another. -/
theorem exists_centerRows_centered_of_apart :
    let rows : Rows := ⟨[(0, ["a"]), (1, ["b", "c"]), (2, [])]⟩
    let xs : Table String Rat := ⟨[("a", 300), ("b", 0), ("c", 100)]⟩
    let widths : Table String Rat := ⟨[("a", 60), ("b", 80), ("c", 0)]⟩
    xs.keys ≠ [] ∧ rows.values.flatten.Nodup ∧
      (∀ id, id ∈ rows.values.flatten ↔ id ∈ xs.keys) ∧ (∀ id ∈ xs.keys, id ∈ widths.keys) ∧
      ∃ xs' center, centerRows rows xs widths = .ok xs' ∧ Centered rows widths xs xs' center ∧
        centerRows rows xs' widths = .ok xs' := by
  intro rows xs widths
  have hne : xs.keys ≠ [] := by decide
  have nodup : rows.values.flatten.Nodup := by decide
  have hmem : ∀ id, id ∈ rows.values.flatten ↔ id ∈ xs.keys := fun _ ↦ .rfl
  have hwidths : ∀ id ∈ xs.keys, id ∈ widths.keys := by decide
  exact ⟨hne, nodup, hmem, hwidths, exists_centerRows_centered hne nodup hmem hwidths⟩

end FlowChart.Row
