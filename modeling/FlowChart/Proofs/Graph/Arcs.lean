import FlowChart.Graph.Adjacency
import FlowChart.Proofs.Tables

/-!
# Arcs of a graph

The relation between the blocks of a graph has a node for each id and an arc for each pair of blocks
that an edge connects. Edges between one pair share their arc, which lists their kinds in edge
order, whether they stand next to each other or not. So the arcs taken apart are the edges between
blocks again, each as often as the graph has it.
-/

namespace FlowChart

namespace Adjacency

variable {arcs : Table (String × String) (List EdgeKind)} {edges : List Edge} {u v : String}

/-- The edges that arcs stand for. -/
def edgesOf (arcs : Table (String × String) (List EdgeKind)) : List Edge :=
  arcs.entries.flatMap fun arc ↦ arc.2.map (Edge.mk arc.1.1 arc.1.2)

/-- An edge goes from one block to another. -/
def Joins (u v : String) (e : Edge) : Prop := e.source = u ∧ e.target = v
  deriving Decidable

/-- What the relation between the blocks of a graph says about the graph. -/
structure IsViewOf (a : Adjacency) (g : Graph) : Prop where
  /-- There is one node for an id. -/
  nodes_distinct : a.nodes.HasDistinctKeys
  /-- There are nodes for all ids. -/
  mem_nodes_iff : ∀ id, id ∈ a.nodes.keys ↔ id ∈ g.ids
  /-- A node stands for the block that its id means. -/
  get?_nodes : ∀ id, a.nodes.get? id = g.block? id
  /-- There is one arc for a pair. -/
  arcs_distinct : a.arcs.HasDistinctKeys
  /-- There are arcs for the pairs of blocks that an edge joins. -/
  mem_arcs_iff : ∀ u v, (u, v) ∈ a.arcs.keys ↔
    u ∈ g.ids ∧ v ∈ g.ids ∧ ∃ e ∈ g.edges, Joins u v e
  /-- An arc lists the kinds of all edges that join the pair, in edge order. -/
  kinds_eq : ∀ u v kinds, a.arcs.get? (u, v) = some kinds →
    kinds = (g.edges.filter (Joins u v)).map Edge.kind
  /-- The arcs stand for the edges between blocks, each as often as it occurs. -/
  perm_edges : (edgesOf a.arcs).Perm (g.edges.filter g.hasEnds)

/-! ### One more edge -/

/-- One more edge takes part in the arc of the pair that it joins. -/
private theorem getD_addEdge (arcs : Table (String × String) (List EdgeKind)) (e : Edge) :
    ((addEdge arcs e).get? (u, v)).getD [] =
      (arcs.get? (u, v)).getD [] ++ ([e].filter (Joins u v)).map Edge.kind := by
  rw [addEdge, Table.get?_insert, List.filter_singleton]
  by_cases hjoins : Joins u v e
  · obtain ⟨rfl, rfl⟩ := hjoins
    simp [Joins]
  · have hpair : (e.source, e.target) ≠ (u, v) := fun h ↦
      hjoins ⟨congrArg Prod.fst h, congrArg Prod.snd h⟩
    simp [hjoins, hpair]

/-- One more edge is one more among the edges that the arcs stand for. -/
private theorem perm_edgesOf_addEdge (arcs : Table (String × String) (List EdgeKind)) (e : Edge) :
    (edgesOf (addEdge arcs e)).Perm (e :: edgesOf arcs) := by
  rw [addEdge, edgesOf, edgesOf]
  rcases Table.insert_cases arcs (e.source, e.target)
      ((arcs.get? (e.source, e.target)).getD [] ++ [e.kind]) with
    ⟨hnone, hentries⟩ | ⟨before, kinds, after, hsome, harcs, hentries⟩
  · rw [hentries, hnone, List.flatMap_append]
    exact List.perm_append_singleton e _
  · rw [hentries, harcs, hsome]
    simp only [Option.getD_some, List.flatMap_append, List.flatMap_cons, List.map_append,
      List.map_singleton, List.append_assoc, List.singleton_append]
    -- the edge stands behind the others of its arc
    rw [← List.append_assoc, ← List.append_assoc]
    exact List.perm_middle

/-! ### All edges -/

private theorem mem_keys_foldl : (u, v) ∈ (edges.foldl addEdge arcs).keys ↔
    (u, v) ∈ arcs.keys ∨ ∃ e ∈ edges, Joins u v e := by
  induction edges generalizing arcs with
  | nil => simp
  | cons e rest ih =>
    rw [List.foldl_cons, ih, addEdge, Table.mem_keys_insert, List.exists_mem_cons_iff,
      Prod.mk.injEq, Joins, eq_comm, @eq_comm _ v]
    tauto

private theorem getD_foldl : ((edges.foldl addEdge arcs).get? (u, v)).getD [] =
    (arcs.get? (u, v)).getD [] ++ (edges.filter (Joins u v)).map Edge.kind := by
  induction edges generalizing arcs with
  | nil => simp
  | cons e rest ih =>
    rw [List.foldl_cons, ih, getD_addEdge, List.append_assoc, ← List.map_append,
      ← List.filter_append, List.singleton_append]

private theorem hasDistinctKeys_foldl (h : arcs.HasDistinctKeys) :
    (edges.foldl addEdge arcs).HasDistinctKeys := by
  induction edges generalizing arcs with
  | nil => exact h
  | cons e rest ih => exact ih (h.insert _ _)

private theorem perm_edgesOf_foldl :
    (edgesOf (edges.foldl addEdge arcs)).Perm (edgesOf arcs ++ edges) := by
  induction edges generalizing arcs with
  | nil => simp
  | cons e rest ih =>
    rw [List.foldl_cons]
    have hfirst : (edgesOf (addEdge arcs e) ++ rest).Perm (e :: edgesOf arcs ++ rest) :=
      (perm_edgesOf_addEdge arcs e).append_right rest
    exact (ih.trans hfirst).trans List.perm_middle.symm

end Adjacency

namespace Graph

open Adjacency

/-- The pairs that have arcs are the pairs of blocks that an edge joins. -/
private theorem mem_arcs_iff {g : Graph} {u v : String} :
    (u, v) ∈ g.adjacency.arcs.keys ↔ u ∈ g.ids ∧ v ∈ g.ids ∧ ∃ e ∈ g.edges, Joins u v e := by
  rw [adjacency, mem_keys_foldl]
  simp only [Table.keys_empty, List.not_mem_nil, false_or, List.mem_filter, hasEnds,
    Bool.and_eq_true, contains_iff]
  constructor
  · rintro ⟨e, ⟨he, hsource, htarget⟩, rfl, rfl⟩
    exact ⟨hsource, htarget, e, he, rfl, rfl⟩
  · rintro ⟨hu, hv, e, he, rfl, rfl⟩
    exact ⟨e, ⟨he, hu, hv⟩, rfl, rfl⟩

/-- The relation between the blocks of a graph has each id as one node and each connected pair as
one arc, with the kinds of its edges in edge order, and loses or repeats no edge between blocks. -/
theorem isViewOf_adjacency (g : Graph) : g.adjacency.IsViewOf g where
  nodes_distinct := Table.hasDistinctKeys_ofList _
  mem_nodes_iff id := by simp [adjacency, Table.mem_keys_ofList, ids]
  get?_nodes id := by
    rw [adjacency, Table.get?_ofList, block?, List.filter_map, List.getLast?_map, Option.map_map]
    exact Option.map_id'
  arcs_distinct := hasDistinctKeys_foldl Table.hasDistinctKeys_empty
  mem_arcs_iff _ _ := mem_arcs_iff
  kinds_eq u v kinds h := by
    obtain ⟨hu, hv, -⟩ := mem_arcs_iff.mp (Table.mem_keys_iff.mpr ⟨kinds, h⟩)
    have hsame : (g.edges.filter g.hasEnds).filter (Joins u v) = g.edges.filter (Joins u v) := by
      rw [List.filter_filter]
      refine List.filter_congr fun e _ ↦ ?_
      rw [Bool.and_eq_left_iff_imp, decide_eq_true_eq]
      rintro ⟨rfl, rfl⟩
      rw [hasEnds, (contains_iff g _).mpr hu, (contains_iff g _).mpr hv, Bool.and_self]
    have hkinds : (g.adjacency.arcs.get? (u, v)).getD [] =
        ((g.edges.filter g.hasEnds).filter (Joins u v)).map Edge.kind := getD_foldl
    rwa [h, Option.getD_some, hsame] at hkinds
  perm_edges := perm_edgesOf_foldl

end Graph

end FlowChart
