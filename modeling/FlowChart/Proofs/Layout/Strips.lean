import FlowChart.Proofs.Layout.Subtrees

/-!
# Strips of the ownership tree

A block that waits to be placed has a slice of its row reserved, as wide as its subtree. The slices
of what waits are a gap apart, and so are the blocks that are placed, unless they lie above what
waits. A block that is placed gives its slice to what it owns, which lies deeper. So in exact
arithmetic blocks of one level are placed a gap apart, in whatever order the walk meets them.
-/

namespace FlowChart

/-- A part of a row. -/
structure Strip where
  /-- Where it starts. -/
  left : Rat
  /-- Where it ends. -/
  right : Rat

namespace Strip

variable {s s' t : Strip} {gap : Rat}

/-- The strip of a width around a centre. -/
def around (center width : Rat) : Strip := ⟨center - width / 2, center + width / 2⟩

/-- The first strip ends before the second one starts, a gap apart. -/
def Before (gap : Rat) (s t : Strip) : Prop := s.right + gap ≤ t.left

/-- Two strips are a gap apart. -/
def Apart (gap : Rat) (s t : Strip) : Prop := s.right + gap ≤ t.left ∨ t.right + gap ≤ s.left

/-- A strip is part of another one. -/
structure Within (s t : Strip) : Prop where
  /-- It does not start before the other one. -/
  left : t.left ≤ s.left
  /-- It does not end after the other one. -/
  right : s.right ≤ t.right

/-- Parts of strips are in the order of the strips. -/
theorem Before.of_within {t' : Strip} (h : s.Before gap t) (hs : s'.Within s) (ht : t'.Within t) :
    s'.Before gap t' := by
  have := hs.right
  have := ht.left
  unfold Before at h ⊢
  linarith

/-- A strip is part of itself. -/
theorem Within.refl (s : Strip) : s.Within s := ⟨le_rfl, le_rfl⟩

/-- Being apart goes both ways. -/
theorem Apart.symm (h : s.Apart gap t) : t.Apart gap s := Or.symm h

/-- Parts of strips that are apart are apart. -/
theorem Apart.of_within (h : s.Apart gap t) (hs : s'.Within s) : s'.Apart gap t := by
  have := hs.left
  have := hs.right
  rcases h with h | h
  · exact .inl (by linarith)
  · exact .inr (by linarith)

/-- A smaller width takes part of a greater one around the same centre. -/
theorem around_within {width width' : Rat} (h : width ≤ width') (center : Rat) :
    (around center width).Within (around center width') :=
  ⟨by simp only [around]; linarith, by simp only [around]; linarith⟩

end Strip

namespace TreeWalk

variable {g : Graph} {owners : Table String String} {widths subtree : Table String Rat} {gap : Rat}

/-- The slice that is reserved for a waiting block and all that it owns. -/
def sliceOf (subtree : Table String Rat) (item : String × Rat) : Strip :=
  .around item.2 (subtree.orZero item.1)

/-- The strip that a placed block takes. -/
def stripOf (widths xs : Table String Rat) (id : String) : Strip :=
  ⟨xs.orZero id, xs.orZero id + widths.orZero id⟩

/-- A block that is placed around a centre takes the strip around it. -/
theorem stripOf_insert_self {width : Rat} {id : String} (h : widths.get? id = some width)
    (xs : Table String Rat) (center : Rat) :
    stripOf widths (xs.insert id (center - Scalar.half width)) id = .around center width := by
  rw [stripOf, Table.orZero_of_get? (Table.get?_insert_self xs id _), Table.orZero_of_get? h,
    Scalar.half_eq_div, Strip.around, Strip.mk.injEq]
  exact ⟨rfl, by ring⟩

/-- Other blocks take the strips that they took before. -/
theorem stripOf_insert_of_ne {id k : String} (h : id ≠ k) (xs : Table String Rat) (x : Rat) :
    stripOf widths (xs.insert id x) k = stripOf widths xs k := by
  rw [stripOf, stripOf, Table.orZero, Table.get?_insert_of_ne xs h, ← Table.orZero]

/-! ### Slices -/

/-- Slices lie side by side from the place where the first one starts. -/
private theorem slices_bounds (hgap : 0 ≤ gap) (hsubtree : ∀ id, 0 ≤ subtree.orZero id)
    (children : List String) (x : Rat) :
    ∀ item ∈ slices gap x (children.zip (children.map subtree.orZero)),
      x ≤ (sliceOf subtree item).left ∧
        (sliceOf subtree item).right ≤ x + Graph.sideBySide gap (children.map subtree.orZero) := by
  induction children generalizing x with
  | nil => simp [slices]
  | cons child rest ih =>
    have hwidths : ∀ v ∈ rest.map subtree.orZero, 0 ≤ v := by
      intro v hv
      obtain ⟨id, -, rfl⟩ := List.mem_map.mp hv
      exact hsubtree id
    have hfirst := Graph.le_sideBySide_cons hgap (subtree.orZero child) hwidths
    rw [List.map_cons, List.zip_cons_cons, slices]
    refine List.forall_mem_cons.mpr ⟨?_, fun item hitem ↦ ?_⟩
    · simp only [sliceOf, Strip.around, Scalar.half_eq_div]
      constructor <;> linarith
    · obtain ⟨hleft, hright⟩ := ih _ item hitem
      have hchild := hsubtree child
      rw [Graph.sideBySide_cons]
      constructor <;> linarith

/-- Slices lie in order, a gap apart. -/
theorem pairwise_slices (hgap : 0 ≤ gap) (hsubtree : ∀ id, 0 ≤ subtree.orZero id)
    (children : List String) (x : Rat) :
    (slices gap x (children.zip (children.map subtree.orZero))).Pairwise fun i j ↦
      (sliceOf subtree i).Before gap (sliceOf subtree j) := by
  induction children generalizing x with
  | nil => exact .nil
  | cons child rest ih =>
    rw [List.map_cons, List.zip_cons_cons, slices]
    refine List.pairwise_cons.mpr ⟨fun item hitem ↦ ?_, ih _⟩
    have hleft := (slices_bounds hgap hsubtree rest _ item hitem).1
    simp only [Strip.Before, sliceOf, Strip.around, Scalar.half_eq_div] at hleft ⊢
    linarith

/-- Slices that are centred as a whole lie within a slice that has room for them. -/
private theorem slices_within (hgap : 0 ≤ gap) (hsubtree : ∀ id, 0 ≤ subtree.orZero id)
    {children : List String} {id : String} (center : Rat)
    (hroom : children ≠ [] →
      Graph.sideBySide gap (children.map subtree.orZero) ≤ subtree.orZero id) :
    ∀ item ∈ slices gap
        (center - Scalar.half (Graph.sideBySide gap (children.map subtree.orZero)))
        (children.zip (children.map subtree.orZero)),
      (sliceOf subtree item).Within (sliceOf subtree (id, center)) := by
  intro item hitem
  obtain ⟨hleft, hright⟩ := slices_bounds hgap hsubtree children _ item hitem
  have hne : children ≠ [] := by
    rintro rfl
    simp [slices] at hitem
  have hroom := hroom hne
  rw [Scalar.half_eq_div] at hleft hright
  have hslice : sliceOf subtree (id, center) =
      ⟨center - subtree.orZero id / 2, center + subtree.orZero id / 2⟩ := rfl
  rw [hslice]
  constructor
  · dsimp only
    linarith
  · dsimp only
    linarith

/-! ### The walk -/

/-- Where subtrees are wide enough, a step of the walk drops a block, or places it within its slice
and divides the slice among what the block owns. -/
theorem place_cases_of_subtreesHold (hholds : g.SubtreesHold owners widths subtree gap)
    {s s' : TreeWalk Rat} {id : String} {center : Rat}
    (h : TreeWalk.place g owners widths subtree gap s id center = .ok s') :
    s' = s ∨ id ∉ s.xs.keys ∧ ∃ width, widths.get? id = some width ∧ width ≤ subtree.orZero id ∧
      s' = ⟨s.xs.insert id (center - Scalar.half width),
        (slices gap (center - Scalar.half (Graph.sideBySide gap
            ((g.childrenOf owners id).map subtree.orZero)))
          ((g.childrenOf owners id).zip ((g.childrenOf owners id).map subtree.orZero))).reverse ++
            s.stack⟩ := by
  obtain ⟨-, rfl⟩ | ⟨hnew, width, childWidths, hwidth, hchildren, rfl⟩ := place_cases h
  · exact .inl rfl
  · obtain rfl := Table.eq_map_orZero hchildren
    exact .inr ⟨hnew, width, hwidth, Table.orZero_of_get? hwidth ▸ hholds.own id, rfl⟩

/-- What a walk keeps apart. -/
structure KeepsApart (levelOf : String → Int) (widths subtree : Table String Rat) (gap : Rat)
    (s : TreeWalk Rat) : Prop where
  /-- The slices of what waits are apart. -/
  waiting : s.stack.Pairwise fun i j ↦ (sliceOf subtree i).Apart gap (sliceOf subtree j)
  /-- A placed block is apart from the slice of what waits or lies above it. -/
  ahead : ∀ a ∈ s.xs.keys, ∀ item ∈ s.stack,
    (stripOf widths s.xs a).Apart gap (sliceOf subtree item) ∨ levelOf a < levelOf item.1
  /-- Placed blocks of one level are apart. -/
  placed : ∀ a ∈ s.xs.keys, ∀ b ∈ s.xs.keys, a ≠ b → levelOf a = levelOf b →
    (stripOf widths s.xs a).Apart gap (stripOf widths s.xs b)

namespace KeepsApart

variable {levelOf : String → Int} {xs : Table String Rat} {rest inner : List (String × Rat)}
  {id : String} {center width : Rat}

/-- What waits may be dropped. -/
private theorem drop {item : String × Rat}
    (h : KeepsApart levelOf widths subtree gap ⟨xs, item :: rest⟩) :
    KeepsApart levelOf widths subtree gap ⟨xs, rest⟩ where
  waiting := (List.pairwise_cons.mp h.waiting).2
  ahead a ha item hitem := h.ahead a ha item (List.mem_cons_of_mem _ hitem)
  placed := h.placed

/-- A waiting block may be placed in its slice. -/
private theorem place (h : KeepsApart levelOf widths subtree gap ⟨xs, (id, center) :: rest⟩)
    (hnew : id ∉ xs.keys) (hwidth : widths.get? id = some width)
    (hle : width ≤ subtree.orZero id) :
    KeepsApart levelOf widths subtree gap
      ⟨xs.insert id (center - Scalar.half width), rest⟩ := by
  have hwithin := Strip.around_within hle center
  have hself := stripOf_insert_self hwidth xs center
  have hother : ∀ {a}, a ∈ xs.keys →
      stripOf widths (xs.insert id (center - Scalar.half width)) a = stripOf widths xs a :=
    fun ha ↦ stripOf_insert_of_ne (ne_of_mem_of_not_mem ha hnew).symm xs _
  have hplaced : ∀ a ∈ xs.keys, levelOf a = levelOf id →
      (stripOf widths xs a).Apart gap (.around center width) := by
    intro a ha hlevel
    rcases h.ahead a ha _ List.mem_cons_self with hapart | hlt
    · exact (hapart.symm.of_within hwithin).symm
    · exact absurd hlevel hlt.ne
  constructor
  · exact (List.pairwise_cons.mp h.waiting).2
  · intro a ha item hitem
    rcases Table.mem_keys_insert.mp ha with rfl | ha
    · rw [hself]
      exact .inl (((List.pairwise_cons.mp h.waiting).1 item hitem).of_within hwithin)
    · rw [hother ha]
      exact h.ahead a ha item (List.mem_cons_of_mem _ hitem)
  · intro a ha b hb hne hlevel
    rcases Table.mem_keys_insert.mp ha with rfl | ha' <;>
      rcases Table.mem_keys_insert.mp hb with rfl | hb'
    · exact absurd rfl hne
    · rw [hself, hother hb']
      exact (hplaced b hb' hlevel.symm).symm
    · rw [hself, hother ha']
      exact hplaced a ha' hlevel
    · rw [hother ha', hother hb']
      exact h.placed a ha' b hb' hne hlevel

/-- A slice may be divided among deeper blocks, once its block is placed. -/
private theorem divide (h : KeepsApart levelOf widths subtree gap ⟨xs, (id, center) :: rest⟩)
    (hplaced : KeepsApart levelOf widths subtree gap
      ⟨xs.insert id (center - Scalar.half width), rest⟩)
    (hnew : id ∉ xs.keys)
    (hinner : inner.Pairwise fun i j ↦ (sliceOf subtree i).Apart gap (sliceOf subtree j))
    (hwithin : ∀ item ∈ inner, (sliceOf subtree item).Within (sliceOf subtree (id, center)))
    (hdeeper : ∀ item ∈ inner, levelOf id < levelOf item.1) :
    KeepsApart levelOf widths subtree gap
      ⟨xs.insert id (center - Scalar.half width), inner ++ rest⟩ where
  waiting := by
    refine List.pairwise_append.mpr ⟨hinner, hplaced.waiting, fun i hi j hj ↦ ?_⟩
    exact ((List.pairwise_cons.mp h.waiting).1 j hj).of_within (hwithin i hi)
  ahead a ha item hitem := by
    rcases List.mem_append.mp hitem with hinside | hrest
    · rcases Table.mem_keys_insert.mp ha with rfl | ha'
      · exact .inr (hdeeper item hinside)
      · have hne : id ≠ a := (ne_of_mem_of_not_mem ha' hnew).symm
        dsimp only
        rw [stripOf_insert_of_ne hne]
        refine (h.ahead a ha' _ List.mem_cons_self).imp (fun hapart ↦ ?_) fun hlt ↦ ?_
        · exact (hapart.symm.of_within (hwithin item hinside)).symm
        · exact hlt.trans (hdeeper item hinside)
    · exact hplaced.ahead a ha item hrest
  placed := hplaced.placed

/-- A step of the walk keeps apart what it places and what waits. -/
private theorem step (hgap : 0 ≤ gap) (hholds : g.SubtreesHold owners widths subtree gap)
    (hdeeper : ∀ {id child}, child ∈ g.ownedBy owners id → levelOf id < levelOf child)
    {s s' : TreeWalk Rat} (h : KeepsApart levelOf widths subtree gap s)
    (hstack : s.stack = (id, center) :: rest)
    (hplace : TreeWalk.place g owners widths subtree gap { s with stack := rest } id center =
      .ok s') : KeepsApart levelOf widths subtree gap s' := by
  obtain ⟨xs, stack⟩ := s
  dsimp only at hstack hplace
  subst hstack
  obtain rfl | ⟨hnew, width, hwidth, hle, rfl⟩ := place_cases_of_subtreesHold hholds hplace
  · exact h.drop
  · refine h.divide (h.place hnew hwidth hle) hnew ?_ (fun item hitem ↦ ?_) fun item hitem ↦ ?_
    · refine List.pairwise_reverse.mpr ?_
      exact (pairwise_slices hgap hholds.nonneg _ _).imp Or.inr
    · exact slices_within hgap hholds.nonneg center (hholds.owned id) item
        (List.mem_reverse.mp hitem)
    · exact hdeeper (mem_ownedBy_of_mem_slices (by simp) (List.mem_reverse.mp hitem))

end KeepsApart

/-- Blocks of one level that the walk places are a gap apart. -/
theorem apart_of_treeXs (levelOf : String → Int) (hgap : 0 ≤ gap)
    (hholds : g.SubtreesHold owners widths subtree gap)
    (hdeeper : ∀ {id child}, child ∈ g.ownedBy owners id → levelOf id < levelOf child)
    {entry : String} {margin : Rat} {xs : Table String Rat}
    (h : g.treeXs entry owners widths subtree gap margin = .ok xs) {a b : String}
    (ha : a ∈ xs.keys) (hb : b ∈ xs.keys) (hne : a ≠ b) (hlevel : levelOf a = levelOf b) :
    (stripOf widths xs a).Apart gap (stripOf widths xs b) := by
  obtain ⟨width, -, h⟩ := exists_of_bind_eq_ok h
  obtain ⟨last, hrun, h⟩ := exists_of_bind_eq_ok h
  cases h
  have hstart : KeepsApart levelOf widths subtree gap
      ⟨.empty, [(entry, Scalar.half width + margin)]⟩ :=
    ⟨List.pairwise_singleton _ _, by simp, by simp⟩
  exact (run_induction (KeepsApart.step hgap hholds hdeeper) hstart hrun).placed a ha b hb hne
    hlevel

end TreeWalk

end FlowChart
