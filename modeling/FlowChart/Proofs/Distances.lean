import FlowChart.Proofs.Imports
import FlowChart.Proofs.Layout.Recurrence

/-!
# Distances after pruning

Pruning goes along successor lists, and distances are counted along edges. In the graph of a listing
both lead to the same blocks, so that every block that pruning keeps has a distance from the entry.
A graph from outside may list successors to which it has no edges. Pruning follows these lists, and
so every block that it keeps has a distance exactly if edges lead from the entry to all successors
that are listed. Then no block is put on the level that is meant for blocks without a distance.
-/

namespace FlowChart

namespace Leveling

/-! ### Levels without distances -/

/-- The level of a block, where a block that has neither predecessors before it nor a distance goes
to a given level. -/
def levelOfOr (fallback : Nat) (ranks distances : Table String Nat) (levels : Table String Int)
    (b : Block) : Int :=
  match forwardLevels ranks levels b with
  | [] => (distances.get? b.id).getD fallback
  | level :: others => others.foldl max level + 1

/-- The levels with that of one more block. -/
def assignNextOr (fallback : Nat) (ranks distances : Table String Nat) (entry : String)
    (levels : Table String Int) (b : Block) : Table String Int :=
  if b.id = entry then levels
  else levels.insert b.id (levelOfOr fallback ranks distances levels b)

/-- The levels of the blocks of a graph, where such blocks go to a given level. -/
def assignOr (fallback : Nat) (g : Graph) (entry : String) : Except Fault Leveling :=
  if g.contains entry then
    let ranks := g.ranks
    let distances := g.edgeDistances entry
    let order := sortBy (fun a b ↦ rankOf ranks a.id ≤ rankOf ranks b.id) g.blocks
    let levels := order.foldl (assignNextOr fallback ranks distances entry) (.ofList [(entry, 0)])
    .ok ⟨levels, ranks, distances⟩
  else .error (.unknownStart entry)

/-- It is the first level below the entry that they go to. -/
theorem assignOr_one : assignOr 1 = assign := rfl

private theorem levelOfOr_eq {ranks distances : Table String Nat} {b : Block} {n : Nat}
    (h : distances.get? b.id = some n) (fallback : Nat) (levels : Table String Int) :
    levelOfOr fallback ranks distances levels b = levelOf ranks distances levels b := by
  rw [levelOfOr, levelOf, h]
  rfl

/-- Where all blocks have distances, it does not matter what would become of others. -/
theorem assignOr_eq_assign {g : Graph} {entry : String}
    (h : ∀ b ∈ g.blocks, ∃ n, (g.edgeDistances entry).get? b.id = some n) (fallback : Nat) :
    assignOr fallback g entry = assign g entry := by
  have hstep : ∀ levels, ∀ b ∈ sortBy (fun a b ↦ decide (rankOf g.ranks a.id ≤ rankOf g.ranks b.id))
      g.blocks, assignNextOr fallback g.ranks (g.edgeDistances entry) entry levels b =
        assignNext g.ranks (g.edgeDistances entry) entry levels b := by
    intro levels b hb
    obtain ⟨n, hn⟩ := h b (mem_sortBy.mp hb)
    rw [assignNextOr, assignNext, levelOfOr_eq hn]
  unfold assignOr assign
  dsimp only
  rw [List.foldl_ext _ _ _ hstep]

end Leveling

namespace Graph

variable {g : Graph} {entry : Block}

/-! ### Distances along edges -/

/-- In a graph whose edges end at blocks, a search along edges steps where they lead. -/
theorem step_targetsOf (hends : ∀ e ∈ g.edges, e.source ∈ g.ids ∧ e.target ∈ g.ids) :
    Search.Step g.targetsOf = g.Leads := by
  ext a b
  simp only [Search.Step, targetsOf, Leads, List.mem_map, List.mem_filter, Bool.and_eq_true,
    beq_iff_eq, hasEnds, contains_iff]
  constructor
  · rintro ⟨e, ⟨he, hsource, -⟩, htarget⟩
    exact ⟨e, he, hsource, htarget⟩
  · rintro ⟨e, he, hsource, htarget⟩
    exact ⟨e, ⟨he, hsource, hends e he⟩, htarget⟩

/-- In a graph whose edges end at blocks, what has a distance is what edges lead to. -/
theorem exists_get?_edgeDistances_iff {start : String} (hstart : start ∈ g.ids)
    (hends : ∀ e ∈ g.edges, e.source ∈ g.ids ∧ e.target ∈ g.ids) {id : String} :
    (∃ n, (g.edgeDistances start).get? id = some n) ↔ Relation.ReflTransGen g.Leads start id := by
  simp only [get?_edgeDistances hstart]
  rw [Search.exists_isDistance_iff, step_targetsOf hends]

/-! ### Graphs whose edges go along with their successor lists -/

/-- The edges of records that list no successors lead wherever the successor lists do. -/
private theorem leads_of_unlisted {blocks : List Json} {edges : Json}
    (accepted : (ofRecords (.array blocks) edges).outcome = .ok g)
    (unlisted : ∀ record ∈ blocks, record.field? "successors" = none) {a b : String}
    (h : g.Flows a b) : g.Leads a b := by
  obtain ⟨records, _, hrecords, -, hread, -⟩ := (reads_ofRecords _ _).of_outcome accepted
  cases hrecords
  obtain ⟨block, hblock, rfl, hb, -⟩ := h
  obtain ⟨⟨record, position⟩, hp, -, hconnects⟩ := exists_of_forall₂ hread.blocks hblock
  have hrecord : record ∈ blocks := List.mem_of_getElem? (List.mem_zipIdx_iff_getElem?.mp hp)
  rw [hconnects.unlisted (unlisted record hrecord)] at hb
  obtain ⟨e, he, rfl⟩ := List.mem_map.mp hb
  obtain ⟨hedge, hsource⟩ := List.mem_filter.mp he
  exact ⟨e, hedge, beq_iff_eq.mp hsource, rfl⟩

/-- The edges of a graph lead to all blocks that its successor lists lead to from an entry. -/
inductive EdgesSuffice (entry : Block) : Graph → Prop where
  /-- Those of a listing do. -/
  | ofListing (c : Classifier) (listing : List Instruction) :
    EdgesSuffice entry (Listing.split c listing)
  /-- Those of records do, if the records list no successors. -/
  | ofRecords {blocks edges : List Json} {g : Graph}
    (accepted : (Graph.ofRecords (.array blocks) (.array edges)).outcome = .ok g)
    (unlisted : ∀ record ∈ blocks, record.field? "successors" = none) : EdgesSuffice entry g
  /-- Those of any graph do, if there is an edge to every successor that a block lists. -/
  | ofEdges {g : Graph} (leads : ∀ a b, g.Flows a b → g.Leads a b) : EdgesSuffice entry g
  /-- Others do, if paths of edges lead from the entry to every successor that is listed by a
  block that pruning keeps. -/
  | ofPaths {g : Graph} (paths : ∀ a b, g.prune.graph.Flows a b →
      Relation.ReflTransGen g.prune.graph.Leads entry.id b) : EdgesSuffice entry g

/-- If edges suffice, they lead to all that pruning keeps. -/
private theorem EdgesSuffice.reflTransGen_leads (hg : g.EdgesSuffice entry)
    (hentry : g.entry? = some entry) {id : String} (hid : id ∈ g.prune.graph.ids) :
    Relation.ReflTransGen g.prune.graph.Leads entry.id id := by
  obtain ⟨kept, hkeeps⟩ := exists_keeps_prune hentry
  cases hg with
  | ofListing c listing =>
    refine hkeeps.reflTransGen_leads hentry (fun a b hflows ↦ ?_) hid
    rwa [(Listing.isConsistent_split c listing).flows_eq_leads] at hflows
  | @ofRecords blocks edges _ accepted unlisted =>
    exact hkeeps.reflTransGen_leads hentry (fun _ _ ↦ leads_of_unlisted accepted unlisted) hid
  | ofEdges leads => exact hkeeps.reflTransGen_leads hentry leads hid
  | ofPaths paths =>
    cases hkeeps.reflTransGen_flows hentry hid with
    | refl => exact .refl
    | tail _ hstep => exact paths _ _ hstep

/-- After pruning, all blocks have distances from the entry exactly if edges suffice. Then their
levels do not depend on where a block without a distance would go. -/
theorem exists_distances_prune (hentry : g.entry? = some entry) :
    ∃ l, Leveling.assign g.prune.graph entry.id = .ok l ∧
      ((∀ b ∈ g.prune.graph.blocks, ∃ n, l.distances.get? b.id = some n) ↔ g.EdgesSuffice entry) ∧
      (g.EdgesSuffice entry → ∀ fallback,
        Leveling.assignOr fallback g.prune.graph entry.id = .ok l) := by
  obtain ⟨kept, hkeeps⟩ := exists_keeps_prune hentry
  have hstart : entry.id ∈ g.prune.graph.ids :=
    (hkeeps.mem_ids_iff hentry).mpr ((hkeeps.kept_iff _).mpr .refl)
  have hdistance : ∀ id, (∃ n, (g.prune.graph.edgeDistances entry.id).get? id = some n) ↔
      Relation.ReflTransGen g.prune.graph.Leads entry.id id := fun id ↦
    exists_get?_edgeDistances_iff hstart (hkeeps.ends hentry)
  have hall : (∀ b ∈ g.prune.graph.blocks,
      ∃ n, (g.prune.graph.edgeDistances entry.id).get? b.id = some n) ↔ g.EdgesSuffice entry := by
    constructor
    · intro h
      refine .ofPaths fun a b hflows ↦ (hdistance b).mp ?_
      obtain ⟨_, -, -, -, hb⟩ := hflows
      obtain ⟨block, hblock, rfl⟩ := List.mem_map.mp hb
      exact h block hblock
    · intro h b hb
      exact (hdistance b.id).mpr (h.reflTransGen_leads hentry (List.mem_map_of_mem hb))
  refine ⟨_, if_pos ((contains_iff _ _).mpr hstart), hall, fun h fallback ↦ ?_⟩
  rw [Leveling.assignOr_eq_assign (hall.mpr h)]
  exact if_pos ((contains_iff _ _).mpr hstart)

/-- In a loop edges suffice. -/
theorem exists_distances_prune_loop :
    let g := Listing.split .x86 [⟨"0x0", "", "nop", "", .null⟩, ⟨"0x4", "", "je", "0x0", .null⟩]
    let entry : Block := ⟨0, "block_0", [⟨"0x0", "", "nop", "", .null⟩,
      ⟨"0x4", "", "je", "0x0", .null⟩], "0x0", "0x4", ["block_0"], ["block_0"], true, false⟩
    g.entry? = some entry ∧
      ∃ l, Leveling.assign g.prune.graph entry.id = .ok l ∧
        ((∀ b ∈ g.prune.graph.blocks, ∃ n, l.distances.get? b.id = some n) ↔
          g.EdgesSuffice entry) ∧
        (g.EdgesSuffice entry → ∀ fallback,
          Leveling.assignOr fallback g.prune.graph entry.id = .ok l) := by
  intro g entry
  have hentry : g.entry? = some entry := rfl
  exact ⟨hentry, exists_distances_prune hentry⟩

/-- Pruning keeps a block that only a successor list leads to. It has no distance, and so it goes
to the level that is meant for such blocks, whichever this is. -/
theorem exists_kept_without_distance :
    let blocks : Json := .array [.object [("id", .text "block_0x2"), ("isEntry", .bool true),
      ("successors", .array [.text "block_0x1"])], .object [("id", .text "block_0x1")]]
    let g : Graph := ⟨[⟨0, "block_0x2", [], "", "", ["block_0x1"], [], true, false⟩,
      ⟨1, "block_0x1", [], "", "", [], ["block_0x2"], false, true⟩], []⟩
    (Graph.ofRecords blocks (.array [])).outcome = .ok g ∧ g.prune.graph = g ∧
      g.prune.entry = some "block_0x2" ∧
      ∃ l l', Leveling.assign g "block_0x2" = .ok l ∧ l.distances.get? "block_0x1" = none ∧
        l.levels.get? "block_0x1" = some 1 ∧
        Leveling.assignOr 2 g "block_0x2" = .ok l' ∧ l'.levels.get? "block_0x1" = some 2 := by
  exact ⟨rfl, rfl, rfl, _, _, rfl, rfl, rfl, rfl, rfl⟩

end Graph

end FlowChart
