import FlowChart.Proofs.Graph.Splitting

/-!
# Three views of one relation

A graph says three times which blocks control passes between: in the lists of successors, in the
lists of predecessors and in the edges. In the graph of a listing the three agree, and they go on
to agree when the graph is narrowed, to any set of ids or to what can be reached, as often as one
likes.
-/

namespace FlowChart

namespace Graph

/-- The lists of successors, the lists of predecessors and the edges of a graph say the same, and
speak of nothing but its blocks. -/
structure IsCoherent (g : Graph) : Prop where
  /-- Successors are where edges lead. -/
  mem_successors : ∀ b ∈ g.blocks, ∀ t ∈ g.blocks, t.id ∈ b.successors ↔ g.Leads b.id t.id
  /-- Predecessors are where edges come from. -/
  mem_predecessors : ∀ b ∈ g.blocks, ∀ t ∈ g.blocks, b.id ∈ t.predecessors ↔ g.Leads b.id t.id
  /-- No successor is listed twice. -/
  nodup_successors : ∀ b ∈ g.blocks, b.successors.Nodup
  /-- No predecessor is listed twice. -/
  nodup_predecessors : ∀ b ∈ g.blocks, b.predecessors.Nodup
  /-- Both ends of an edge are blocks. -/
  ends : ∀ e ∈ g.edges, e.source ∈ g.ids ∧ e.target ∈ g.ids
  /-- Successors are blocks. -/
  successors_subset : ∀ b ∈ g.blocks, b.successors ⊆ g.ids
  /-- Predecessors are blocks. -/
  predecessors_subset : ∀ b ∈ g.blocks, b.predecessors ⊆ g.ids
  /-- Exits are the blocks without successors. -/
  isExit : ∀ b ∈ g.blocks, b.isExit = true ↔ b.successors = []

/-- A way to narrow a graph. -/
inductive Narrowing where
  /-- Only the blocks with ids in a set are kept. -/
  | within (keep : String → Bool)
  /-- Only what can be reached from the entry is kept. -/
  | reachable

/-- A graph after it has been narrowed in one way. -/
def narrowBy (g : Graph) : Narrowing → Graph
  | .within keep => g.restrict keep
  | .reachable => g.prune.graph

/-- A graph after it has been narrowed in several ways, one after the other. -/
def narrow (g : Graph) (steps : List Narrowing) : Graph := steps.foldl narrowBy g

variable {g : Graph} {keep : String → Bool}

/-- The graph without blocks is coherent. -/
theorem isCoherent_empty : empty.IsCoherent := by
  constructor <;> simp [empty]

private theorem mem_blocks_restrict {b : Block} :
    b ∈ (g.restrict keep).blocks ↔
      ∃ b₀ ∈ g.blocks, keep b₀.id = true ∧ b = b₀.restrict keep := by
  simp only [restrict, List.mem_map, List.mem_filter, and_assoc, eq_comm (a := b)]

private theorem leads_restrict {a b : String} :
    (g.restrict keep).Leads a b ↔ keep a = true ∧ keep b = true ∧ g.Leads a b := by
  simp only [Leads, restrict, List.mem_filter, Bool.and_eq_true]
  constructor
  · rintro ⟨e, ⟨he, hsource, htarget⟩, rfl, rfl⟩
    exact ⟨hsource, htarget, e, he, rfl, rfl⟩
  · rintro ⟨hsource, htarget, e, he, rfl, rfl⟩
    exact ⟨e, ⟨he, hsource, htarget⟩, rfl, rfl⟩

private theorem filter_subset_ids {xs : List String} (h : xs ⊆ g.ids) :
    xs.filter keep ⊆ (g.restrict keep).ids := by
  rw [ids_restrict]
  exact List.filter_subset keep h

/-- A coherent graph stays so within a set of ids. -/
theorem IsCoherent.restrict (h : g.IsCoherent) (keep : String → Bool) :
    (g.restrict keep).IsCoherent where
  mem_successors := by
    intro b hb t ht
    obtain ⟨b₀, hb₀, hkeep, rfl⟩ := mem_blocks_restrict.mp hb
    obtain ⟨t₀, ht₀, hkeep', rfl⟩ := mem_blocks_restrict.mp ht
    have hlist : t₀.id ∈ b₀.successors.filter keep ↔ g.Leads b₀.id t₀.id := by
      rw [List.mem_filter, h.mem_successors b₀ hb₀ t₀ ht₀]
      exact and_iff_left hkeep'
    rw [leads_restrict]
    exact hlist.trans (by simp [Block.restrict, hkeep, hkeep'])
  mem_predecessors := by
    intro b hb t ht
    obtain ⟨b₀, hb₀, hkeep, rfl⟩ := mem_blocks_restrict.mp hb
    obtain ⟨t₀, ht₀, hkeep', rfl⟩ := mem_blocks_restrict.mp ht
    have hlist : b₀.id ∈ t₀.predecessors.filter keep ↔ g.Leads b₀.id t₀.id := by
      rw [List.mem_filter, h.mem_predecessors b₀ hb₀ t₀ ht₀]
      exact and_iff_left hkeep
    rw [leads_restrict]
    exact hlist.trans (by simp [Block.restrict, hkeep, hkeep'])
  nodup_successors := by
    intro b hb
    obtain ⟨b₀, hb₀, -, rfl⟩ := mem_blocks_restrict.mp hb
    exact (h.nodup_successors b₀ hb₀).filter _
  nodup_predecessors := by
    intro b hb
    obtain ⟨b₀, hb₀, -, rfl⟩ := mem_blocks_restrict.mp hb
    exact (h.nodup_predecessors b₀ hb₀).filter _
  ends := by
    intro e he
    obtain ⟨he, hkept⟩ := List.mem_filter.mp he
    rw [Bool.and_eq_true] at hkept
    obtain ⟨hsource, htarget⟩ := h.ends e he
    rw [ids_restrict]
    exact ⟨List.mem_filter.mpr ⟨hsource, hkept.1⟩, List.mem_filter.mpr ⟨htarget, hkept.2⟩⟩
  successors_subset := by
    intro b hb
    obtain ⟨b₀, hb₀, -, rfl⟩ := mem_blocks_restrict.mp hb
    exact filter_subset_ids (h.successors_subset b₀ hb₀)
  predecessors_subset := by
    intro b hb
    obtain ⟨b₀, hb₀, -, rfl⟩ := mem_blocks_restrict.mp hb
    exact filter_subset_ids (h.predecessors_subset b₀ hb₀)
  isExit := by
    intro b hb
    obtain ⟨b₀, -, -, rfl⟩ := mem_blocks_restrict.mp hb
    exact List.isEmpty_iff

/-- The reachable part of a coherent graph is coherent. Without an entry it is empty. -/
theorem IsCoherent.prune (h : g.IsCoherent) : g.prune.graph.IsCoherent := by
  cases hentry : g.entry? with
  | none =>
    rw [Graph.prune, hentry]
    exact isCoherent_empty
  | some entry =>
    obtain ⟨keep, hkeep⟩ := exists_prune_eq_restrict hentry
    rw [hkeep]
    exact h.restrict keep

/-- A coherent graph stays so when it is narrowed once. -/
theorem IsCoherent.narrowBy (h : g.IsCoherent) (step : Narrowing) :
    (g.narrowBy step).IsCoherent := by
  cases step with
  | within keep => exact h.restrict keep
  | reachable => exact h.prune

/-- A coherent graph stays so however often it is narrowed. -/
theorem IsCoherent.narrow (h : g.IsCoherent) (steps : List Narrowing) :
    (g.narrow steps).IsCoherent := by
  induction steps generalizing g with
  | nil => exact h
  | cons step rest ih => exact ih (h.narrowBy step)

end Graph

namespace Listing

variable {c : Classifier} {listing : List Instruction}

/-- The graph of a listing is coherent. -/
theorem isCoherent_split (c : Classifier) (listing : List Instruction) :
    (split c listing).IsCoherent where
  mem_successors _ hb _ _ := mem_successors_split hb
  mem_predecessors _ _ _ ht := mem_predecessors_split ht
  nodup_successors := by
    intro b hb
    obtain ⟨⟨run, k⟩, -, rfl⟩ := List.mem_map.mp hb
    exact nodup_distinct _
  nodup_predecessors := by
    intro b hb
    obtain ⟨⟨run, k⟩, -, rfl⟩ := List.mem_map.mp hb
    exact nodup_distinct _
  ends _ he := ends_split he
  successors_subset := by
    intro b hb id hid
    obtain ⟨e, he, -, rfl⟩ := (mem_successors_split hb).mp hid
    exact (ends_split he).2
  predecessors_subset := by
    intro b hb id hid
    obtain ⟨e, he, rfl, -⟩ := (mem_predecessors_split hb).mp hid
    exact (ends_split he).1
  isExit := by
    intro b hb
    obtain ⟨⟨run, k⟩, -, rfl⟩ := List.mem_map.mp hb
    exact List.isEmpty_iff

/-- Whatever the graph of a listing is narrowed to, its successors, its predecessors and its edges
say the same. -/
theorem isCoherent_narrow_split (c : Classifier) (listing : List Instruction)
    (steps : List Graph.Narrowing) : ((split c listing).narrow steps).IsCoherent :=
  (isCoherent_split c listing).narrow steps

end Listing

end FlowChart
