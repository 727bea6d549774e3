import FlowChart.Layout.Level
import FlowChart.Proofs.Success
import FlowChart.Proofs.Tables

/-!
# Levels and rows

Every block of a graph gets one level, and nothing else does. The rows are therefore a partition of
the ids: they stand in ascending order of levels, none of them is empty, and a row holds exactly the
ids of its level, each once.
-/

namespace FlowChart

/-- The texts of a table's keys are the ids of a graph, each once. -/
structure Table.Covers {α : Type} (t : Table String α) (g : Graph) : Prop where
  /-- No id is listed twice. -/
  distinct : t.HasDistinctKeys
  /-- What is listed are the ids of the graph. -/
  mem_keys : ∀ id, id ∈ t.keys ↔ id ∈ g.ids

/-- Every id of a graph has a value. -/
theorem Table.Covers.exists_get? {α : Type} {t : Table String α} {g : Graph} (h : t.Covers g)
    {id : String} (hid : id ∈ g.ids) : ∃ a, t.get? id = some a :=
  mem_keys_iff.mp ((h.mem_keys id).mpr hid)

/-- What has a value is an id of the graph. -/
theorem Table.Covers.mem_ids {α : Type} {t : Table String α} {g : Graph} (h : t.Covers g)
    {id : String} {a : α} (ha : t.get? id = some a) : id ∈ g.ids :=
  (h.mem_keys id).mp (mem_keys_iff.mpr ⟨a, ha⟩)

namespace Leveling

variable {g : Graph} {entry : String}

private theorem distinct_assignNext (ranks distances : Table String Nat)
    {levels : Table String Int} (h : levels.HasDistinctKeys) (b : Block) :
    (assignNext ranks distances entry levels b).HasDistinctKeys := by
  rw [assignNext]
  split
  · exact h
  · exact h.insert _ _

private theorem mem_keys_assignNext (ranks distances : Table String Nat)
    {levels : Table String Int} (hentry : entry ∈ levels.keys) (b : Block) (id : String) :
    id ∈ (assignNext ranks distances entry levels b).keys ↔ id = b.id ∨ id ∈ levels.keys := by
  rw [assignNext]
  split
  · next hb =>
    constructor
    · exact .inr
    · rintro (rfl | hid)
      · exact hb ▸ hentry
      · exact hid
  · exact Table.mem_keys_insert

private theorem distinct_foldl_assignNext (ranks distances : Table String Nat)
    {levels : Table String Int} (h : levels.HasDistinctKeys) (order : List Block) :
    (order.foldl (assignNext ranks distances entry) levels).HasDistinctKeys := by
  induction order generalizing levels with
  | nil => exact h
  | cons b rest ih => exact ih (distinct_assignNext ranks distances h b)

/-- Assigning levels to some blocks gives levels to them, besides what had levels before. -/
theorem mem_keys_foldl_assignNext (ranks distances : Table String Nat)
    {levels : Table String Int} (hentry : entry ∈ levels.keys) (order : List Block) (id : String) :
    id ∈ (order.foldl (assignNext ranks distances entry) levels).keys ↔
      id ∈ order.map (·.id) ∨ id ∈ levels.keys := by
  induction order generalizing levels with
  | nil => simp
  | cons b rest ih =>
    have hnext := mem_keys_assignNext ranks distances hentry b
    rw [List.foldl_cons, ih ((hnext entry).mpr (.inr hentry)), hnext id, List.map_cons,
      List.mem_cons, or_left_comm, or_assoc]

/-- Levels are found for every graph and each of its blocks as entry. The blocks have levels, and
nothing else has. -/
theorem succeeds_assign (hentry : entry ∈ g.ids) :
    Succeeds (assign g entry) fun l ↦ l.levels.Covers g := by
  rw [assign, if_pos ((g.contains_iff entry).mpr hentry)]
  apply Succeeds.ok
  generalize horder : sortBy _ g.blocks = order
  have hids : ∀ id, id ∈ order.map (·.id) ↔ id ∈ g.ids := by
    intro id
    rw [← horder]
    exact ((perm_sortBy _ g.blocks).map _).mem_iff
  have hstart : (Table.ofList [(entry, (0 : Int))]).keys = [entry] := rfl
  constructor
  · exact distinct_foldl_assignNext _ _ (Table.hasDistinctKeys_ofList _) order
  · intro id
    dsimp only
    rw [mem_keys_foldl_assignNext _ _ (List.mem_singleton.mpr rfl), hids, hstart,
      List.mem_singleton]
    constructor
    · rintro (hid | rfl)
      · exact hid
      · exact hentry
    · exact .inl

end Leveling

/-- Rows that hold the blocks with levels, each in the row of its level. -/
structure Rows.Partition (rows : Rows) (levels : Table String Int) : Prop where
  /-- The rows stand in order of their levels. -/
  ascending : rows.keys.Pairwise (· < ·)
  /-- A row holds the ids of its level. -/
  mem_iff : ∀ {level ids}, (level, ids) ∈ rows.entries →
    ∀ id, id ∈ ids ↔ levels.get? id = some level
  /-- No id stands twice in a row. -/
  nodup : ∀ {level ids}, (level, ids) ∈ rows.entries → ids.Nodup
  /-- A level that an id has is that of a row. -/
  exists_row : ∀ {id level}, levels.get? id = some level → ∃ ids, (level, ids) ∈ rows.entries
  /-- No row is empty. -/
  ne_nil : ∀ {level ids}, (level, ids) ∈ rows.entries → ids ≠ []

private theorem nodup_eraseDups (xs : List Int) : xs.eraseDups.Nodup := by
  induction h : xs.length using Nat.strongRecOn generalizing xs with
  | ind n ih =>
    cases xs with
    | nil => simp
    | cons x xs =>
      rw [List.eraseDups_cons]
      refine List.nodup_cons.mpr ⟨by simp, ih _ ?_ _ rfl⟩
      have := List.length_filter_le (fun b ↦ !b == x) xs
      simp only [List.length_cons] at h
      omega

private theorem ascending_levels (xs : List Int) :
    (sortBy (fun a b ↦ decide (a ≤ b)) xs.eraseDups).Pairwise (· < ·) := by
  have sorted := pairwise_sortBy_decide (r := fun a b : Int ↦ a ≤ b) (fun _ _ _ ↦ Int.le_trans)
    Int.le_total xs.eraseDups
  have distinct := (perm_sortBy (fun a b : Int ↦ decide (a ≤ b)) xs.eraseDups).nodup_iff.mpr
    (nodup_eraseDups xs)
  apply (sorted.and distinct).imp
  rintro a b ⟨hle, hne⟩
  omega

/-- The rows of some levels are a partition of what has a level. -/
theorem Leveling.partition_rows (l : Leveling) (h : l.levels.HasDistinctKeys) :
    l.rows.Partition l.levels := by
  have hrow : ∀ {level : Int} {ids : List String}, (level, ids) ∈ l.rows.entries →
      level ∈ l.levels.values ∧
        ids = (sortBy (fun a b ↦ rankOf l.ranks a ≤ rankOf l.ranks b) l.levels.keys).filter
          fun id ↦ l.levels.get? id == some level := by
    intro level ids hmem
    obtain ⟨level', hlevel', heq⟩ := List.mem_map.mp hmem
    cases heq
    exact ⟨by simpa [mem_sortBy] using hlevel', rfl⟩
  have hmem : ∀ {level : Int} {ids : List String}, (level, ids) ∈ l.rows.entries →
      ∀ id, id ∈ ids ↔ l.levels.get? id = some level := by
    intro level ids hentry id
    rw [(hrow hentry).2, List.mem_filter, mem_sortBy, beq_iff_eq]
    exact ⟨And.right, fun hget ↦ ⟨Table.mem_keys_iff.mpr ⟨level, hget⟩, hget⟩⟩
  refine ⟨?_, hmem, fun hentry ↦ ?_, fun {id level} hget ↦ ?_, fun {level ids} hentry ↦ ?_⟩
  · have hkeys : l.rows.keys = sortBy (fun a b ↦ decide (a ≤ b)) l.levels.values.eraseDups := by
      simp [rows, Table.keys, Function.comp_def]
    rw [hkeys]
    exact ascending_levels _
  · rw [(hrow hentry).2]
    exact (((perm_sortBy _ l.levels.keys).nodup_iff).mpr h).filter _
  · refine ⟨_, List.mem_map.mpr ⟨level, ?_, rfl⟩⟩
    rw [mem_sortBy, List.mem_eraseDups]
    exact h.mem_values_iff.mpr ⟨id, hget⟩
  · obtain ⟨id, hget⟩ := h.mem_values_iff.mp (hrow hentry).1
    exact List.ne_nil_of_mem ((hmem hentry id).mpr hget)

namespace Rows.Partition

variable {rows : Rows} {levels : Table String Int}

/-- No id stands in two rows. -/
theorem disjoint (h : rows.Partition levels) : rows.values.Pairwise List.Disjoint := by
  refine List.pairwise_map.mpr ((List.pairwise_map.mp h.ascending).imp_of_mem ?_)
  intro e e' he he' hlt id hid hid'
  have hlevel := (h.mem_iff he id).mp hid
  rw [(h.mem_iff he' id).mp hid'] at hlevel
  exact Int.ne_of_gt hlt (Option.some.inj hlevel)

end Rows.Partition

/-- What holds of the row of every level holds of every row. -/
theorem Rows.forall_values {rows : Rows} {p : List String → Prop}
    (hp : ∀ level ids, (level, ids) ∈ rows.entries → p ids) : ∀ ids ∈ rows.values, p ids := by
  intro ids hids
  obtain ⟨⟨level, ids'⟩, hmem, rfl⟩ := List.mem_map.mp hids
  exact hp level ids' hmem

end FlowChart
