import FlowChart.Chart
import FlowChart.Proofs.Graph.Outline

/-!
# Charts depend on outlines

Of the instructions of a block, only their number and the address of the first one have a part in
the chart of a graph, and of the addresses only the order in which they put the blocks. Graphs with
one outline and one order of their blocks therefore have one chart.
-/

namespace FlowChart

/-- Two blocks have one outline. -/
def Block.Alike (a b : Block) : Prop := b.outline = a.outline

namespace Block.Alike

variable {a b : Block} (h : a.Alike b)

include h

theorem index : b.index = a.index := congrArg Outline.index h
theorem id : b.id = a.id := congrArg Outline.id h
theorem size : b.instructions.length = a.instructions.length := congrArg Outline.size h
theorem successors : b.successors = a.successors := congrArg Outline.successors h
theorem predecessors : b.predecessors = a.predecessors := congrArg Outline.predecessors h
theorem isEntry : b.isEntry = a.isEntry := congrArg Outline.isEntry h

end Block.Alike

namespace Graph

variable {g g' : Graph} (h : g'.outline = g.outline)

include h

/-- The blocks of graphs with one outline have outlines in common. -/
theorem forall₂_alike : List.Forall₂ Block.Alike g.blocks g'.blocks := by
  have hblocks : g'.blocks.map (·.outline) = g.blocks.map (·.outline) := congrArg Outline.blocks h
  have hmatched : List.Forall₂ (· = ·) (g'.blocks.map (·.outline)) (g.blocks.map (·.outline)) := by
    rw [hblocks]
    exact List.forall₂_refl _
  rw [List.forall₂_map_left_iff, List.forall₂_map_right_iff] at hmatched
  exact List.Forall₂.flip hmatched

/-- The edges are those of the outline. -/
theorem edges_congr : g'.edges = g.edges := congrArg Outline.edges h

/-- The ids are those of the outline. -/
theorem ids_congr : g'.ids = g.ids := map_eq_of_forall₂ (fun _ _ hb ↦ hb.id) (forall₂_alike h)

/-- Which ids are those of blocks is a matter of the outline. -/
theorem contains_congr : g'.contains = g.contains := by
  funext id
  rw [Bool.eq_iff_iff, contains_iff, contains_iff, ids_congr h]

/-- The entries have one outline. -/
theorem rel_entry? : Option.Rel Block.Alike g.entry? g'.entry? :=
  rel_find? (fun _ _ hb ↦ hb.isEntry) (forall₂_alike h)

private theorem forall₂_withId (id : String) :
    List.Forall₂ Block.Alike (g.blocks.filter (·.id == id)) (g'.blocks.filter (·.id == id)) :=
  forall₂_filter (fun _ _ hb ↦ by rw [hb.id]) (forall₂_alike h)

/-- The blocks that an id means have one outline. -/
theorem rel_block? (id : String) : Option.Rel Block.Alike (g.block? id) (g'.block? id) :=
  rel_getLast? (forall₂_withId h id)

/-- What successor lists lead to is a matter of the outline. -/
theorem successorsOf_congr : g'.successorsOf = g.successorsOf := by
  funext id
  rw [successorsOf, successorsOf, contains_congr h, List.flatMap_def, List.flatMap_def]
  exact congrArg List.flatten
    (map_eq_of_forall₂ (fun _ _ hb ↦ by rw [hb.successors]) (forall₂_withId h id))

/-- What edges lead to is a matter of the outline. -/
theorem targetsOf_congr : g'.targetsOf = g.targetsOf := by
  funext id
  simp only [targetsOf, hasEnds, edges_congr h, contains_congr h]

/-- The number of blocks is that of the outline. -/
theorem length_blocks_congr : g'.blocks.length = g.blocks.length :=
  (forall₂_alike h).length_eq.symm

/-! ### Levels -/

/-- Levels are those of the outline and the order of the blocks. -/
theorem assign_congr (hranks : g'.ranks = g.ranks) :
    Leveling.assign g' = Leveling.assign g := by
  funext entry
  have hdistances : g'.edgeDistances entry = g.edgeDistances entry := by
    rw [edgeDistances, targetsOf_congr h, length_blocks_congr h, edgeDistances]
  let byRank : Block → Block → Bool := fun a b ↦
    Leveling.rankOf g.ranks a.id ≤ Leveling.rankOf g.ranks b.id
  have horder : List.Forall₂ Block.Alike (sortBy byRank g.blocks) (sortBy byRank g'.blocks) :=
    forall₂_sortBy (fun _ _ _ _ ha hb ↦ by simp only [byRank, ha.id, hb.id]) (forall₂_alike h)
  unfold Leveling.assign
  rw [contains_congr h, hranks, hdistances]
  dsimp only
  rw [foldl_eq_of_forall₂ _ horder]
  intro levels a b hb
  rw [Leveling.assignNext, Leveling.assignNext, Leveling.levelOf, Leveling.levelOf,
    Leveling.forwardLevels, Leveling.forwardLevels, hb.id, hb.predecessors]

/-! ### Ownership -/

private theorem visit_congr : OwnerWalk.visit g' = OwnerWalk.visit g := by
  funext levels s id
  have hblock := rel_block? h id
  unfold OwnerWalk.visit
  generalize g.block? id = b at hblock
  generalize g'.block? id = b' at hblock
  cases hblock with
  | none => rfl
  | some hb =>
    dsimp only
    rw [hb.successors]

private theorem run_congr (levels : Table String Int) (bound : Nat) (s : OwnerWalk) :
    OwnerWalk.run g' levels bound s = OwnerWalk.run g levels bound s := by
  induction bound generalizing s with
  | zero => rfl
  | succ bound ih =>
    rw [OwnerWalk.run, OwnerWalk.run, visit_congr h]
    split
    · rfl
    · exact ih _

/-- Owners depend on the outline. -/
theorem owners_congr : g'.owners = g.owners := by
  funext entry levels
  rw [owners, owners, run_congr h]

/-- What a block owns depends on the outline. -/
theorem ownedBy_congr : g'.ownedBy = g.ownedBy := by
  funext owners id
  have hblock := rel_block? h id
  unfold ownedBy
  generalize g.block? id = b at hblock
  generalize g'.block? id = b' at hblock
  cases hblock with
  | none => rfl
  | some hb =>
    dsimp only
    rw [hb.successors]

/-- The order of what a block owns depends on the outline. -/
theorem childrenOf_congr : g'.childrenOf = g.childrenOf := by
  have hrank : g'.childRank = g.childRank := by
    funext owner child
    rw [childRank, edgeBetween?, edges_congr h]
    rfl
  funext owners id
  rw [childrenOf, childrenOf, hrank, ownedBy_congr h]

/-! ### Placement -/

variable {α : Type} [Scalar α]

private theorem subtreeWidths_congr :
    g'.subtreeWidths = (g.subtreeWidths : Table String Int → _ → Table String α → _) := by
  funext levels owners widths gap
  have hadd : g'.addSubtree owners widths gap = g.addSubtree owners widths gap := by
    funext found id
    simp only [addSubtree, ownedBy_congr h]
  simp only [subtreeWidths, fromBottom, ids_congr h, hadd]

private theorem treeXs_congr :
    g'.treeXs = (g.treeXs : String → _ → Table String α → _) := by
  funext entry owners widths subtree gap margin
  have hplace : TreeWalk.place g' owners widths subtree gap =
      TreeWalk.place g owners widths subtree gap := by
    funext s id center
    simp only [TreeWalk.place, childrenOf_congr h]
  have hrun : ∀ bound s, TreeWalk.run g' owners widths subtree gap bound s =
      TreeWalk.run g owners widths subtree gap bound s := by
    intro bound
    induction bound with
    | zero => exact fun _ ↦ rfl
    | succ bound ih =>
      intro s
      rw [TreeWalk.run, TreeWalk.run, hplace]
      simp only [ih]
  have hbound : g'.walkBound = g.walkBound := by
    rw [walkBound, walkBound, List.flatMap_def, List.flatMap_def,
      map_eq_of_forall₂ (fun _ _ hb ↦ hb.successors) (forall₂_alike h)]
  simp only [treeXs, hbound, hrun]

/-- A graph is placed by its outline and the order of its blocks. -/
theorem place_congr (hranks : g'.ranks = g.ranks) (config : Config α) :
    g'.place config = g.place config := by
  have hwidths : g'.blockWidths config = g.blockWidths config :=
    congrArg Table.ofList (map_eq_of_forall₂ (fun _ _ hb ↦ by rw [hb.id]) (forall₂_alike h))
  have hheights : g'.blockHeights config = g.blockHeights config :=
    congrArg Table.ofList
      (map_eq_of_forall₂ (fun _ _ hb ↦ by rw [hb.id, hb.size]) (forall₂_alike h))
  have hsteps : g'.placementSteps config = g.placementSteps config := by
    funext entry widths
    simp only [placementSteps, hheights, assign_congr h hranks, owners_congr h,
      subtreeWidths_congr h, treeXs_congr h, ids_congr h]
  have hboxes : ∀ steps : PlacementSteps α,
      g'.blocks.mapM (boxOf steps) = g.blocks.mapM (boxOf steps) := fun steps ↦
    mapM_eq_of_forall₂ (fun _ _ hb ↦ by rw [boxOf, boxOf, hb.id]) (forall₂_alike h)
  have hentry := rel_entry? h
  unfold place
  generalize g.entry? = entry at hentry
  generalize g'.entry? = entry' at hentry
  cases hentry with
  | none => rfl
  | some hb => simp only [hb.id, hwidths, hsteps, hboxes]

end Graph

/-- Graphs with one outline and one order of their blocks have one chart. -/
theorem Chart.ofGraph_congr {α : Type} [Scalar α] {g g' : Graph} (h : g'.outline = g.outline)
    (hranks : g'.ranks = g.ranks) (canvasWidth : Option α) (config : Config α) :
    ofGraph g' canvasWidth config = ofGraph g canvasWidth config := by
  have hbox : ∀ boxes : Table String (Box α), (g'.entry?.bind fun b ↦ boxes.get? b.id) =
      g.entry?.bind fun b ↦ boxes.get? b.id := by
    intro boxes
    have hentry := Graph.rel_entry? h
    generalize g.entry? = entry at hentry
    generalize g'.entry? = entry' at hentry
    cases hentry with
    | none => rfl
    | some hb => exact congrArg boxes.get? hb.id
  simp only [ofGraph, Graph.place_congr h hranks, Graph.edges_congr h, hbox]

end FlowChart
