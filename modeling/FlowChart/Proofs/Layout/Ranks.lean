import FlowChart.Proofs.Layout.Levels
import Mathlib.Order.Bounds.Image

/-!
# Edges along address order go down

A block that comes after one of its predecessors in address order gets a deeper level. Levels are
assigned in address order and each of them once, so the level of the predecessor is known, and final,
when that of the block is found. The levels that are assigned in the end therefore obey the rule by
which each of them was found.
-/

namespace FlowChart

/-! ### Ranks -/

/-- A block comes before another one in address order; blocks with equal addresses keep the order in
which they were built. -/
def Block.Precedes (a b : Block) : Prop :=
  a.sortAddress < b.sortAddress ∨ a.sortAddress = b.sortAddress ∧ a.index < b.index

namespace Graph

variable {g : Graph} {a b : Block}

private theorem addressLe_eq_false_iff : addressLe b a = false ↔ a.Precedes b := by
  simp [addressLe, Block.Precedes]
  omega

private theorem pairwise_inAddressOrder (g : Graph) :
    g.inAddressOrder.Pairwise fun a b ↦ addressLe a b = true := by
  apply pairwise_sortBy
  · intro a b c hab hbc
    simp only [addressLe, Bool.or_eq_true, Bool.and_eq_true, decide_eq_true_eq, beq_iff_eq] at *
    omega
  · intro a b
    simp only [addressLe, Bool.or_eq_true, Bool.and_eq_true, decide_eq_true_eq, beq_iff_eq]
    omega

/-- The rank of a block is its position in address order. -/
theorem get?_ranks (hids : g.ids.Nodup) {k : Nat} (h : g.inAddressOrder[k]? = some b) :
    g.ranks.get? b.id = some k := by
  have hperm : (g.inAddressOrder.map (·.id)).Perm g.ids := (perm_sortBy _ g.blocks).map _
  have hnodup := hperm.nodup_iff.mpr hids
  have hget : ∀ {k' : Nat} {b' : Block}, g.inAddressOrder[k']? = some b' →
      (g.inAddressOrder.map (·.id))[k']? = some b'.id := by
    intro k' b' h'
    rw [List.getElem?_map, h', Option.map_some]
  apply Table.get?_ofList_of_mem
  · exact List.mem_map.mpr ⟨(b, k), List.mem_zipIdx_iff_getElem?.mpr h, rfl⟩
  · intro k' hk'
    obtain ⟨⟨b', j⟩, hmem, he⟩ := List.mem_map.mp hk'
    obtain ⟨hid, rfl⟩ := Prod.mk.inj he
    have h' := hget (List.mem_zipIdx_iff_getElem?.mp hmem)
    obtain ⟨hlt, -⟩ := List.getElem?_eq_some_iff.mp h'
    rw [hid] at h'
    exact (List.getElem?_inj hlt hnodup).mp (h'.trans (hget h).symm)

/-- A block that comes before another one has a lower rank. -/
theorem exists_rank_lt (hids : g.ids.Nodup) (ha : a ∈ g.blocks) (hb : b ∈ g.blocks)
    (h : a.Precedes b) :
    ∃ rank, g.ranks.get? a.id = some rank ∧ rank < Leveling.rankOf g.ranks b.id := by
  have hmem : ∀ x, x ∈ g.inAddressOrder ↔ x ∈ g.blocks := fun _ ↦ mem_sortBy
  obtain ⟨i, hi⟩ := List.getElem?_of_mem ((hmem a).mpr ha)
  obtain ⟨j, hj⟩ := List.getElem?_of_mem ((hmem b).mpr hb)
  refine ⟨i, get?_ranks hids hi, ?_⟩
  rw [Leveling.rankOf, get?_ranks hids hj, Option.getD_some]
  have hnot := addressLe_eq_false_iff.mpr h
  obtain ⟨hilt, hai⟩ := List.getElem?_eq_some_iff.mp hi
  obtain ⟨hjlt, hbj⟩ := List.getElem?_eq_some_iff.mp hj
  rcases Nat.lt_trichotomy i j with hlt | rfl | hgt
  · exact hlt
  · -- a block does not come before itself
    obtain rfl : a = b := hai.symm.trans hbj
    simp [Block.Precedes] at h
  · have hle := List.pairwise_iff_getElem.mp (pairwise_inAddressOrder g) j i hjlt hilt hgt
    rw [hai, hbj, hnot] at hle
    exact absurd hle Bool.false_ne_true

/-- What has a rank are the blocks. -/
theorem mem_keys_ranks (g : Graph) {id : String} : id ∈ g.ranks.keys ↔ id ∈ g.ids := by
  have hkeys : (g.inAddressOrder.zipIdx.map fun p : Block × Nat ↦ (p.1.id, p.2)).map (·.1) =
      g.inAddressOrder.map (·.id) := by
    rw [List.map_map, ← List.zipIdx_map_fst 0 g.inAddressOrder, List.map_map]
    simp [Function.comp_def]
  rw [ranks, Table.mem_keys_ofList, hkeys]
  exact ((perm_sortBy addressLe g.blocks).map _).mem_iff

/-- Blocks that have the same ids and are ordered in the same way have the same ranks. -/
theorem ranks_eq_of_forall₂ {g' : Graph} {r : Block → Block → Prop}
    (hid : ∀ a b, r a b → b.id = a.id)
    (hle : ∀ a b a' b', r a b → r a' b' → addressLe b b' = addressLe a a')
    (h : List.Forall₂ r g.blocks g'.blocks) : g'.ranks = g.ranks := by
  refine congrArg Table.ofList (map_eq_of_forall₂ ?_ (forall₂_zipIdx (forall₂_sortBy hle h) 0))
  rintro ⟨a, rank⟩ ⟨b, rank'⟩ ⟨hab, rfl⟩
  exact congrArg (·, rank) (hid a b hab)

end Graph

/-! ### Levels -/

namespace Leveling

variable {g : Graph} {entry : String} {a b : Block}

private theorem pairwise_byRank (g : Graph) :
    (sortBy (fun a b ↦ decide (rankOf g.ranks a.id ≤ rankOf g.ranks b.id)) g.blocks).Pairwise
      fun a b ↦ rankOf g.ranks a.id ≤ rankOf g.ranks b.id :=
  pairwise_sortBy_decide (r := fun a b : Block ↦ rankOf g.ranks a.id ≤ rankOf g.ranks b.id)
    (fun _ _ _ ↦ Nat.le_trans) (fun _ _ ↦ Nat.le_total _ _) g.blocks

private theorem get?_foldl_assignNext (ranks distances : Table String Nat)
    {order : List Block} {levels : Table String Int} {id : String}
    (h : id ∈ order.map (·.id) → id = entry) :
    (order.foldl (assignNext ranks distances entry) levels).get? id = levels.get? id := by
  induction order generalizing levels with
  | nil => rfl
  | cons x rest ih =>
    rw [List.foldl_cons, ih fun hid ↦ h (List.mem_cons_of_mem _ hid), assignNext]
    split
    · rfl
    · next hx =>
      refine Table.get?_insert_of_ne levels (fun he ↦ hx ?_) _
      exact he.trans (h (List.mem_cons.mpr (.inl he.symm)))

/-- Only predecessors with a lower rank have a part in the level of a block. -/
private theorem levelOf_congr {ranks distances : Table String Nat} {levels levels' : Table String Int}
    (h : ∀ p ∈ b.predecessors, ∀ rank, ranks.get? p = some rank → rank < rankOf ranks b.id →
      levels'.get? p = levels.get? p) :
    levelOf ranks distances levels' b = levelOf ranks distances levels b := by
  have hforward : forwardLevels ranks levels' b = forwardLevels ranks levels b := by
    refine List.filterMap_congr fun p hp ↦ ?_
    by_cases hlower : (ranks.get? p).getD (rankOf ranks b.id) < rankOf ranks b.id
    · obtain ⟨rank, hrank⟩ : ∃ rank, ranks.get? p = some rank := by
        rw [← Option.ne_none_iff_exists']
        intro hnone
        rw [hnone] at hlower
        exact Nat.lt_irrefl _ hlower
      rw [hrank] at hlower
      rw [h p hp rank hrank hlower]
    · simp only [hlower, if_false, Option.bind_fun_none]
  rw [levelOf, levelOf, hforward]

/-- In a run through blocks with different ids in order of their ranks, each block gets the level
that it has by the levels in the end. -/
private theorem get?_foldl_assignNext_of_mem {ranks distances : Table String Nat}
    {levels : Table String Int} {order : List Block} (hids : (order.map (·.id)).Nodup)
    (hsorted : order.Pairwise fun a b ↦ rankOf ranks a.id ≤ rankOf ranks b.id) (hb : b ∈ order)
    (hentry : b.id ≠ entry) :
    let last := order.foldl (assignNext ranks distances entry) levels
    last.get? b.id = some (levelOf ranks distances last b) := by
  intro last
  obtain ⟨before, after, rfl⟩ := List.append_of_mem hb
  -- what is known when the run comes to the block
  generalize hpassed : before.foldl (assignNext ranks distances entry) levels = passed
  have hrest : last = (b :: after).foldl (assignNext ranks distances entry) passed := by
    rw [← hpassed, ← List.foldl_append]
  have hfinal : levelOf ranks distances last b = levelOf ranks distances passed b := by
    apply levelOf_congr
    intro p _ rank hrank hlower
    rw [hrest, get?_foldl_assignNext]
    intro hp
    obtain ⟨x, hx, rfl⟩ := List.mem_map.mp hp
    have hle : rankOf ranks b.id ≤ rankOf ranks x.id := by
      rcases List.mem_cons.mp hx with rfl | hx
      · exact Nat.le_refl _
      · exact (List.pairwise_cons.mp (List.pairwise_append.mp hsorted).2.1).1 x hx
    rw [rankOf, rankOf, hrank, Option.getD_some] at hle
    exact absurd hlower (Nat.not_lt.mpr hle)
  rw [List.map_append, List.map_cons, List.nodup_append'] at hids
  have hafter : b.id ∉ after.map (·.id) := (List.nodup_cons.mp hids.2.1).1
  rw [hfinal, hrest, List.foldl_cons, assignNext, if_neg hentry,
    get?_foldl_assignNext ranks distances (absurd · hafter), Table.get?_insert_self]

/-- The levels of the predecessors that count are those of the predecessors with a lower rank. -/
theorem mem_forwardLevels_iff {ranks : Table String Nat} {levels : Table String Int} {level : Int} :
    level ∈ forwardLevels ranks levels b ↔
      ∃ p ∈ b.predecessors, levels.get? p = some level ∧
        ∃ rank, ranks.get? p = some rank ∧ rank < rankOf ranks b.id := by
  rw [forwardLevels, List.mem_filterMap]
  refine exists_congr fun p ↦ and_congr_right fun _ ↦ ?_
  rcases levels.get? p with _ | level'
  · simp
  · rcases ranks.get? p with _ | rank <;> simp [and_comm]

/-- With predecessors that count, a block goes one level below the deepest of them. -/
theorem isGreatest_levelOf {ranks distances : Table String Nat} {levels : Table String Int}
    (h : forwardLevels ranks levels b ≠ []) :
    IsGreatest ((· + 1) '' {level | level ∈ forwardLevels ranks levels b})
      (levelOf ranks distances levels b) := by
  unfold levelOf
  split
  · next hnone => exact absurd hnone h
  · next level others hsome =>
    rw [hsome]
    have hmax : (level :: others).max? = some (others.foldl max level) := List.max?_cons'
    obtain ⟨hmem, hle⟩ := List.max?_eq_some_iff.mp hmax
    refine ⟨⟨_, hmem, rfl⟩, ?_⟩
    rintro _ ⟨x, hx, rfl⟩
    exact Int.add_le_add_right (hle x hx) 1

/-- Without such predecessors, its distance decides. -/
theorem levelOf_eq_distance {ranks distances : Table String Nat} {levels : Table String Int}
    (h : forwardLevels ranks levels b = []) :
    levelOf ranks distances levels b = ((distances.get? b.id).getD 1 : Nat) := by
  rw [levelOf, h]

/-- From levels that are not negative another such level is found. -/
private theorem levelOf_nonneg {ranks distances : Table String Nat} {levels : Table String Int}
    (h : ∀ id level, levels.get? id = some level → 0 ≤ level) (b : Block) :
    0 ≤ levelOf ranks distances levels b := by
  by_cases hnone : forwardLevels ranks levels b = []
  · rw [levelOf_eq_distance hnone]
    exact Int.natCast_nonneg _
  · obtain ⟨⟨level, hlevel, heq⟩, -⟩ : IsGreatest _ (levelOf ranks distances levels b) :=
      isGreatest_levelOf hnone
    obtain ⟨p, -, hp, -⟩ := mem_forwardLevels_iff.mp hlevel
    rw [← heq]
    exact Int.add_nonneg (h p level hp) Int.one_nonneg

private theorem nonneg_foldl_assignNext {ranks distances : Table String Nat} (order : List Block)
    {levels : Table String Int} (h : ∀ id level, levels.get? id = some level → 0 ≤ level) :
    ∀ id level, (order.foldl (assignNext ranks distances entry) levels).get? id = some level →
      0 ≤ level := by
  induction order generalizing levels with
  | nil => exact h
  | cons b rest ih =>
    apply ih
    intro id level hlevel
    unfold assignNext at hlevel
    split at hlevel
    · exact h id level hlevel
    · rw [Table.get?_insert] at hlevel
      split at hlevel
      · exact Option.some.inj hlevel ▸ levelOf_nonneg h b
      · exact h id level hlevel

/-- What an assignment consists of. -/
private theorem exists_of_assign_eq_ok {l : Leveling} (h : assign g entry = .ok l) :
    entry ∈ g.ids ∧ ∃ order : List Block, order.Perm g.blocks ∧
      (order.Pairwise fun a b ↦ rankOf g.ranks a.id ≤ rankOf g.ranks b.id) ∧
      l = ⟨order.foldl (assignNext g.ranks (g.edgeDistances entry) entry) (.ofList [(entry, 0)]),
        g.ranks, g.edgeDistances entry⟩ := by
  unfold assign at h
  split at h
  · next hentry =>
    cases h
    exact ⟨(g.contains_iff entry).mp hentry, _, perm_sortBy _ g.blocks, pairwise_byRank g, rfl⟩
  · cases h

/-- Levels are found from blocks only. -/
theorem mem_ids_of_assign {l : Leveling} (h : assign g entry = .ok l) : entry ∈ g.ids :=
  (exists_of_assign_eq_ok h).1

/-- The entry is on the top level. -/
theorem get?_levels_entry {l : Leveling} (h : assign g entry = .ok l) :
    l.levels.get? entry = some 0 := by
  obtain ⟨-, order, -, -, rfl⟩ := exists_of_assign_eq_ok h
  exact (get?_foldl_assignNext _ _ fun _ ↦ rfl).trans (by simp [Table.ofList, Table.insertAll])

/-- Distances are counted along edges. -/
theorem distances_eq {l : Leveling} (h : assign g entry = .ok l) :
    l.distances = g.edgeDistances entry := by
  obtain ⟨-, order, -, -, rfl⟩ := exists_of_assign_eq_ok h
  rfl

/-- No level is above the top level. -/
theorem levels_nonneg {l : Leveling} (h : assign g entry = .ok l) {id : String} {level : Int}
    (hlevel : l.levels.get? id = some level) : 0 ≤ level := by
  obtain ⟨-, order, -, -, rfl⟩ := exists_of_assign_eq_ok h
  refine nonneg_foldl_assignNext order (fun k level' hlevel' ↦ ?_) id level hlevel
  cases List.mem_singleton.mp (Table.get?_ofList_eq_some hlevel')
  exact le_rfl

/-- Every other block has the level that the levels of all blocks give it. -/
theorem get?_levels (hids : g.ids.Nodup) {l : Leveling} (h : assign g entry = .ok l)
    (hb : b ∈ g.blocks) (hentry : b.id ≠ entry) :
    l.levels.get? b.id = some (levelOf g.ranks (g.edgeDistances entry) l.levels b) := by
  obtain ⟨-, order, hperm, hsorted, rfl⟩ := exists_of_assign_eq_ok h
  exact get?_foldl_assignNext_of_mem ((hperm.map _).nodup_iff.mpr hids) hsorted
    (hperm.mem_iff.mpr hb) hentry

/-- A block that comes after one of its predecessors in address order is on a deeper level, unless
it is the entry. -/
theorem exists_levels_lt (hids : g.ids.Nodup) {l : Leveling} (h : assign g entry = .ok l)
    (ha : a ∈ g.blocks) (hb : b ∈ g.blocks) (hprecedes : a.Precedes b)
    (hpred : a.id ∈ b.predecessors) (hentry : b.id ≠ entry) :
    ∃ level level', l.levels.get? a.id = some level ∧ l.levels.get? b.id = some level' ∧
      level < level' := by
  obtain ⟨rank, hrank, hlt⟩ := Graph.exists_rank_lt hids ha hb hprecedes
  have hcovers := (succeeds_assign (mem_ids_of_assign h)).of_eq_ok h
  obtain ⟨level, hlevel⟩ := hcovers.exists_get? (List.mem_map_of_mem ha)
  have hmem : level ∈ forwardLevels g.ranks l.levels b :=
    mem_forwardLevels_iff.mpr ⟨a.id, hpred, hlevel, rank, hrank, hlt⟩
  refine ⟨level, _, hlevel, get?_levels hids h hb hentry, ?_⟩
  exact Int.lt_of_add_one_le ((isGreatest_levelOf (List.ne_nil_of_mem hmem)).2 ⟨level, hmem, rfl⟩)

end Leveling

end FlowChart
