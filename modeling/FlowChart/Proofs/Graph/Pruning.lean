import FlowChart.Graph.Reachable
import FlowChart.Proofs.Search

/-!
# Pruning keeps what can be reached

Pruning keeps a block exactly when successor lists lead to it from the entry. What is kept stays in
order and loses nothing but links to what is not there: a successor that is a block is kept with the
block that lists it. In a graph whose successor lists agree with its edges, paths of edges lead to
the same blocks. Kept and dropped ids together are the ids of the graph, the kept instructions are
those of the kept blocks, and no edge of the reachable part leads out of it.
-/

namespace FlowChart.Graph

/-- An edge leads from one id to another. -/
def Leads (g : Graph) (a b : String) : Prop := ∃ e ∈ g.edges, e.source = a ∧ e.target = b

/-- A path of edges leads from the entry to an id. -/
def Reachable (g : Graph) (id : String) : Prop :=
  ∃ entry, g.entry? = some entry ∧ Relation.ReflTransGen g.Leads entry.id id

/-- Edges between blocks, which the successor lists agree with. -/
structure IsConsistent (g : Graph) : Prop where
  /-- Both ends of an edge are blocks. -/
  ends : ∀ e ∈ g.edges, e.source ∈ g.ids ∧ e.target ∈ g.ids
  /-- Successors are where edges lead. -/
  mem_successorsOf : ∀ {a b}, b ∈ g.successorsOf a ↔ g.Leads a b

/-- A block with the first id lists the second one, that of a block, as a successor. -/
def Flows (g : Graph) (a b : String) : Prop :=
  ∃ block ∈ g.blocks, block.id = a ∧ b ∈ block.successors ∧ b ∈ g.ids

variable {g : Graph} {entry : Block}

/-! ### What a search finds -/

/-- The successors of a node are what its blocks list. -/
theorem mem_successorsOf_iff {a b : String} : b ∈ g.successorsOf a ↔ g.Flows a b := by
  simp only [successorsOf, Flows, List.mem_flatMap, List.mem_filter, beq_iff_eq, contains_iff,
    and_assoc]

/-- Successor lists lead from blocks to blocks. -/
theorem mem_ids_of_flows {start id : String} (hstart : start ∈ g.ids)
    (h : Relation.ReflTransGen g.Flows start id) : id ∈ g.ids := by
  cases h with
  | refl => exact hstart
  | tail _ hstep =>
    obtain ⟨_, -, -, -, hid⟩ := hstep
    exact hid

/-- A search finds what successor lists lead to. -/
theorem mem_reachableFrom_iff {start : String} (hstart : start ∈ g.ids) {id : String} :
    id ∈ g.reachableFrom start ↔ Relation.ReflTransGen g.Flows start id := by
  have hstep : Search.Step g.successorsOf = g.Flows := by
    ext a b
    exact mem_successorsOf_iff
  have hnext : ∀ a ∈ g.ids, ∀ b ∈ g.successorsOf a, b ∈ g.ids := by
    intro a ha b hb
    exact mem_ids_of_flows ha (.single (mem_successorsOf_iff.mp hb))
  have hbound : g.ids.length ≤ g.blocks.length := by simp [ids]
  rw [reachableFrom, Search.mem_reached_iff hnext hstart hbound, hstep]

/-- In a consistent graph successor lists lead where edges do. -/
theorem IsConsistent.flows_eq_leads (h : g.IsConsistent) : g.Flows = g.Leads := by
  ext a b
  rw [← mem_successorsOf_iff, h.mem_successorsOf]

/-! ### What is kept -/

/-- What is left of a block where some ids are kept: successors that are no blocks are dropped, and
so are predecessors that are not kept. -/
def keptBlock (g : Graph) (kept : String → Bool) (b : Block) : Block :=
  { b with
    successors := b.successors.filter g.contains
    predecessors := b.predecessors.filter kept
    isExit := (b.successors.filter g.contains).isEmpty }

/-- What is left of a graph that is entered at a block. -/
structure Keeps (g : Graph) (entry : Block) (kept : String → Bool) (p : Pruned) : Prop where
  /-- The ids that are kept are those that successor lists lead to from the entry. -/
  kept_iff : ∀ id, kept id = true ↔ Relation.ReflTransGen g.Flows entry.id id
  /-- The blocks with these ids are kept, in order. -/
  blocks : p.graph.blocks = (g.blocks.filter fun b ↦ kept b.id).map (g.keptBlock kept)
  /-- The edges between them are kept, in order. -/
  edges : p.graph.edges = g.edges.filter fun e ↦ kept e.source && kept e.target
  /-- All other ids are dropped, in block order. -/
  removed : p.removed = g.ids.filter fun id ↦ !kept id
  /-- The entry is named. -/
  named : p.entry = some entry.id
  /-- The entry is still the first one. -/
  first : p.graph.entry? = some (g.keptBlock kept entry)

/-- What pruning makes of a graph. -/
inductive IsPruning (g : Graph) : Pruned → Prop where
  /-- Nothing is kept of a graph without an entry. -/
  | unentered (h : g.entry? = none) : IsPruning g ⟨.empty, none, g.ids⟩
  /-- Of another graph all is kept that successor lists lead to from its first entry. -/
  | entered {kept : String → Bool} {p : Pruned} {entry : Block} (h : g.entry? = some entry)
    (keeps : g.Keeps entry kept p) : IsPruning g p

/-- The first entry of a graph is the first one within a set of ids that it belongs to. -/
theorem entry?_restrict {keep : String → Bool} (h : g.entry? = some entry)
    (hkeep : keep entry.id = true) :
    Graph.entry? (g.restrict keep) = some (entry.restrict keep) := by
  obtain ⟨hentered, before, after, hblocks, hbefore⟩ := List.find?_eq_some_iff_append.mp h
  have hfirst : (g.blocks.filter fun b ↦ keep b.id).find? (·.isEntry) = some entry := by
    rw [List.find?_filter, List.find?_eq_some_iff_append]
    refine ⟨by simp [hkeep, hentered], before, after, hblocks, fun b hb ↦ ?_⟩
    have hnot := hbefore b hb
    simp_all
  rw [Graph.entry?, restrict, List.find?_map]
  exact congrArg (Option.map (·.restrict keep)) hfirst

/-- A block that successor lists lead to is restricted to what they lead to by dropping what is no
block. -/
private theorem restrict_eq_keptBlock {kept : String → Bool} {start : String}
    (hstart : start ∈ g.ids)
    (hkept : ∀ id, kept id = true ↔ Relation.ReflTransGen g.Flows start id) {b : Block}
    (hb : b ∈ g.blocks) (hid : kept b.id = true) : b.restrict kept = g.keptBlock kept b := by
  have hsuccessors : b.successors.filter kept = b.successors.filter g.contains := by
    refine List.filter_congr fun s hs ↦ ?_
    rw [Bool.eq_iff_iff, hkept, contains_iff]
    constructor
    · exact mem_ids_of_flows hstart
    · exact fun hblock ↦ ((hkept b.id).mp hid).tail ⟨b, hb, rfl, hs, hblock⟩
  rw [Block.restrict, keptBlock, hsuccessors]

/-- Pruning a graph that is entered keeps what successor lists lead to from its first entry. -/
theorem exists_keeps_prune (h : g.entry? = some entry) : ∃ kept, g.Keeps entry kept g.prune := by
  have hentry := List.mem_of_find?_eq_some h
  have hstart : entry.id ∈ g.ids := List.mem_map_of_mem hentry
  have hkept : ∀ id, (g.reachableFrom entry.id).contains id = true ↔
      Relation.ReflTransGen g.Flows entry.id id := by
    intro id
    rw [List.contains_iff_mem, mem_reachableFrom_iff hstart]
  have hself : (g.reachableFrom entry.id).contains entry.id = true := (hkept entry.id).mpr .refl
  refine ⟨(g.reachableFrom entry.id).contains, ?_⟩
  rw [prune, h]
  constructor
  · exact hkept
  · refine List.map_congr_left fun b hb ↦ ?_
    obtain ⟨hblock, hid⟩ := List.mem_filter.mp hb
    exact restrict_eq_keptBlock hstart hkept hblock hid
  · rfl
  · rfl
  · rfl
  · rw [entry?_restrict h hself, restrict_eq_keptBlock hstart hkept hentry hself]

/-- Pruning keeps what successor lists lead to from the first entry, and nothing without an
entry. -/
theorem isPruning_prune (g : Graph) : g.IsPruning g.prune := by
  cases h : g.entry? with
  | none =>
    rw [prune, h]
    exact .unentered h
  | some entry =>
    obtain ⟨kept, hkeeps⟩ := exists_keeps_prune h
    exact .entered h hkeeps

namespace Keeps

variable {kept : String → Bool} {p : Pruned} {id : String}

/-- The ids that are left are the kept ones, in block order. -/
theorem ids (h : g.Keeps entry kept p) : p.graph.ids = g.ids.filter kept := by
  rw [Graph.ids, h.blocks, List.map_map, Graph.ids, List.filter_map]
  rfl

/-- Every kept id is that of a block. -/
theorem mem_ids_iff (h : g.Keeps entry kept p) (hentry : g.entry? = some entry) :
    id ∈ p.graph.ids ↔ kept id = true := by
  have hstart : entry.id ∈ g.ids := List.mem_map_of_mem (List.mem_of_find?_eq_some hentry)
  rw [h.ids, List.mem_filter, and_iff_right_iff_imp, h.kept_iff]
  exact mem_ids_of_flows hstart

/-- No edge leads out of what is left. -/
theorem ends (h : g.Keeps entry kept p) (hentry : g.entry? = some entry) :
    ∀ e ∈ p.graph.edges, e.source ∈ p.graph.ids ∧ e.target ∈ p.graph.ids := by
  intro e he
  rw [h.edges, List.mem_filter, Bool.and_eq_true] at he
  rw [h.mem_ids_iff hentry, h.mem_ids_iff hentry]
  exact he.2

/-- What is left lists what the whole graph lists. -/
theorem flows_iff (h : g.Keeps entry kept p) (hentry : g.entry? = some entry) {a b : String} :
    p.graph.Flows a b ↔ kept a = true ∧ g.Flows a b := by
  constructor
  · rintro ⟨block, hblock, rfl, hb, hid⟩
    rw [h.blocks] at hblock
    obtain ⟨block₀, hblock₀, rfl⟩ := List.mem_map.mp hblock
    obtain ⟨hmem, hkept⟩ := List.mem_filter.mp hblock₀
    obtain ⟨hlisted, hcontains⟩ := List.mem_filter.mp hb
    exact ⟨hkept, block₀, hmem, rfl, hlisted, (g.contains_iff b).mp hcontains⟩
  · rintro ⟨hkept, hflows⟩
    have hkept' : kept b = true := (h.kept_iff b).mpr (((h.kept_iff a).mp hkept).tail hflows)
    obtain ⟨block, hblock, rfl, hb, hid⟩ := hflows
    refine ⟨g.keptBlock kept block, ?_, rfl, ?_, (h.mem_ids_iff hentry).mpr hkept'⟩
    · rw [h.blocks]
      exact List.mem_map_of_mem (List.mem_filter.mpr ⟨hblock, hkept⟩)
    · exact List.mem_filter.mpr ⟨hb, (g.contains_iff b).mpr hid⟩

/-- What is left can still be reached along its successor lists. -/
theorem reflTransGen_flows (h : g.Keeps entry kept p) (hentry : g.entry? = some entry)
    (hid : id ∈ p.graph.ids) : Relation.ReflTransGen p.graph.Flows entry.id id := by
  have hpath := (h.kept_iff id).mp ((h.mem_ids_iff hentry).mp hid)
  clear hid
  induction hpath with
  | refl => exact .refl
  | tail hpath hstep ih =>
    exact ih.tail ((h.flows_iff hentry).mpr ⟨(h.kept_iff _).mpr hpath, hstep⟩)

/-- Where the edges of the whole graph lead wherever its successor lists do, so do those that are
left. -/
theorem leads_of_flows (h : g.Keeps entry kept p) (hentry : g.entry? = some entry)
    (hg : ∀ a b, g.Flows a b → g.Leads a b) {a b : String} (hflows : p.graph.Flows a b) :
    p.graph.Leads a b := by
  obtain ⟨hkept, hflows⟩ := (h.flows_iff hentry).mp hflows
  have hkept' : kept b = true := (h.kept_iff b).mpr (((h.kept_iff a).mp hkept).tail hflows)
  obtain ⟨e, he, rfl, rfl⟩ := hg a b hflows
  refine ⟨e, ?_, rfl, rfl⟩
  rw [h.edges, List.mem_filter, Bool.and_eq_true]
  exact ⟨he, hkept, hkept'⟩

/-- Then edges lead from the entry to all that is left. -/
theorem reflTransGen_leads (h : g.Keeps entry kept p) (hentry : g.entry? = some entry)
    (hg : ∀ a b, g.Flows a b → g.Leads a b) (hid : id ∈ p.graph.ids) :
    Relation.ReflTransGen p.graph.Leads entry.id id := by
  have hflows := h.reflTransGen_flows hentry hid
  exact Relation.ReflTransGen.mono (fun a b ↦ h.leads_of_flows hentry hg) _ _ hflows

end Keeps

/-! ### The reachable part -/

/-- What is left of a graph that is entered is a restriction of it. -/
theorem exists_prune_eq_restrict (h : g.entry? = some entry) :
    ∃ keep, g.prune.graph = g.restrict keep := by
  rw [prune, h]
  exact ⟨_, rfl⟩

/-- The blocks of a restricted graph are restricted. -/
theorem exists_of_mem_blocks_restrict {keep : String → Bool} {b : Block}
    (h : b ∈ (g.restrict keep).blocks) : ∃ b₀ ∈ g.blocks, b = b₀.restrict keep := by
  obtain ⟨b₀, hb₀, rfl⟩ := List.mem_map.mp h
  exact ⟨b₀, (List.mem_filter.mp hb₀).1, rfl⟩

/-- What is left of a graph is its reachable part. -/
structure IsReachablePart (g : Graph) (p : Pruned) : Prop where
  /-- No id is lost. -/
  perm_ids : (p.graph.ids ++ p.removed).Perm g.ids
  /-- The reachable ids are kept. -/
  mem_ids : ∀ id, id ∈ p.graph.ids ↔ id ∈ g.ids ∧ g.Reachable id
  /-- The instructions of the reachable blocks are kept, in order. -/
  instructions : ∃ keep : Block → Bool, (∀ b ∈ g.blocks, keep b = true ↔ g.Reachable b.id) ∧
    p.graph.instructions = (g.blocks.filter keep).flatMap (·.instructions)
  /-- No edge leads out of the part. -/
  ends : ∀ e ∈ p.graph.edges, e.source ∈ p.graph.ids ∧ e.target ∈ p.graph.ids
  /-- The part is entered. -/
  entry : p.entry.isSome ∧ p.graph.entry?.isSome

/-- Pruning a graph that is entered leaves a graph that is entered at the same block. -/
theorem isSome_entry?_prune (h : g.entry? = some entry) :
    g.prune.entry = some entry.id ∧ (Graph.entry? g.prune.graph).isSome := by
  obtain ⟨kept, hkeeps⟩ := exists_keeps_prune h
  rw [hkeeps.first]
  exact ⟨hkeeps.named, rfl⟩

/-- Pruning a graph that is entered leaves its reachable part. -/
theorem isReachablePart_prune (h : g.IsConsistent) (hentry : g.entry? = some entry) :
    g.IsReachablePart g.prune := by
  obtain ⟨kept, hkeeps⟩ := exists_keeps_prune hentry
  have hkept : ∀ id, kept id = true ↔ g.Reachable id := by
    intro id
    rw [hkeeps.kept_iff, h.flows_eq_leads]
    constructor
    · intro hpath
      exact ⟨entry, hentry, hpath⟩
    · rintro ⟨entry', hentry', hpath⟩
      rw [hentry] at hentry'
      cases hentry'
      exact hpath
  constructor
  · rw [hkeeps.ids, hkeeps.removed]
    exact List.filter_append_perm kept g.ids
  · intro id
    rw [hkeeps.ids, List.mem_filter, hkept]
  · refine ⟨fun b ↦ kept b.id, fun b _ ↦ hkept b.id, ?_⟩
    rw [instructions, hkeeps.blocks, List.flatMap_map]
    rfl
  · exact hkeeps.ends hentry
  · rw [hkeeps.named, hkeeps.first]
    exact ⟨rfl, rfl⟩

end FlowChart.Graph
