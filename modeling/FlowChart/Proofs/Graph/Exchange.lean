import FlowChart.Graph.Export
import FlowChart.Graph.Import
import FlowChart.Proofs.Graph.Coherence
import FlowChart.Proofs.Graph.Partition
import FlowChart.Proofs.Matching

/-!
# Graphs out and in again

The records of a graph leave out the positions of its blocks, their predecessors and which of them
are exits. Where these follow from the rest, bringing the records in gives the graph back, without
a warning. They do for the graph of a listing: the predecessors that it collects from its edges
come in the order of the blocks that the edges leave, which is the order in which they are
collected from the lists of successors.
-/

namespace FlowChart

/-- A request that is met for every member of a list without a warning is met for the list. -/
theorem Logged.mapM_eq_pure {α β : Type} {f : α → Logged β} {g : α → β} {xs : List α}
    (h : ∀ x ∈ xs, f x = Pure.pure (g x)) : xs.mapM f = Pure.pure (xs.map g) := by
  induction xs with
  | nil => rfl
  | cons x xs ih =>
    have hxs := ih fun y hy ↦ h y (List.mem_cons_of_mem x hy)
    rw [List.mapM_cons, h x List.mem_cons_self, hxs]
    rfl

namespace Graph

/-- All that the records of a graph leave out follows from what they say. -/
structure IsRecorded (g : Graph) : Prop where
  /-- Blocks carry their positions. -/
  index : ∀ (k : Nat) (b : Block), g.blocks[k]? = some b → b.index = k
  /-- Addresses are given, or those of the first and last instruction. -/
  addresses : ∀ b ∈ g.blocks, b.withAddresses = b
  /-- No two blocks have one id. -/
  nodup : g.ids.Nodup
  /-- Successors are blocks. -/
  successors_subset : ∀ b ∈ g.blocks, b.successors ⊆ g.ids
  /-- Predecessors are the blocks that list a block among their successors, in block order. -/
  predecessors : ∀ b ∈ g.blocks, b.predecessors = Import.sourcesOf g.blocks b.id
  /-- Exits are the blocks without successors. -/
  isExit : ∀ b ∈ g.blocks, b.isExit = b.successors.isEmpty
  /-- Both ends of an edge are blocks. -/
  ends : ∀ e ∈ g.edges, e.source ∈ g.ids ∧ e.target ∈ g.ids

namespace Import

/-- A block before it is connected to others. -/
def unconnected (b : Block) : Block :=
  { b with successors := [], predecessors := [], isExit := false }

/-- A block of which only the successors are known. -/
def outgoing (b : Block) : Block := { b with predecessors := [], isExit := false }

private theorem instructionsOf_toRecord (b : Block) :
    instructionsOf b.toRecord = pure b.instructions := by
  have hfield : b.toRecord.field? "instructions" =
      some (.array (b.instructions.map Instruction.toRecord)) := rfl
  unfold instructionsOf
  rw [hfield]
  show (b.instructions.map Instruction.toRecord).mapM _ = _
  rw [List.mapM_map, Logged.mapM_eq_pure (g := id), List.map_id]
  intro i _
  simp only [Function.comp_apply, Instruction.ofRecord_toRecord]
  rfl

private theorem blockOf_toRecord {b : Block} {position : Nat} (hindex : b.index = position)
    (haddresses : b.withAddresses = b) :
    blockOf position b.toRecord = pure (unconnected b) := by
  have hmentions : mentions "id" b.toRecord = .ok true := rfl
  have hread : Block.withAddresses
      { index := position, id := b.id, instructions := b.instructions, start := b.start,
        stop := b.stop, isEntry := b.isEntry } = unconnected b.withAddresses := by
    rw [← hindex]
    rfl
  unfold blockOf
  rw [hmentions]
  show (instructionsOf b.toRecord >>= fun instructions ↦ _) = _
  rw [instructionsOf_toRecord, Logged.pure_bind]
  rw [haddresses] at hread
  exact congrArg pure hread

private theorem edgeOf_toRecord {known : List String} {e : Edge} (hsource : e.source ∈ known)
    (htarget : e.target ∈ known) : edgeOf known e.toRecord = pure (some e) := by
  have hfrom : endOf "from" e.toRecord = pure e.source := rfl
  have hto : endOf "to" e.toRecord = pure e.target := rfl
  have htype : e.toRecord.fieldText "type" EdgeKind.normal.toText = e.kind.toText := rfl
  have hkind : EdgeKind.ofText e.kind.toText = .ok e.kind := by
    rw [EdgeKind.ofText, EdgeKind.ofText?_toText]
  have hends : (known.contains e.source && known.contains e.target) = true := by
    simp [hsource, htarget]
  unfold edgeOf
  rw [hfrom, Logged.pure_bind, hto, Logged.pure_bind, if_pos hends, htype, hkind]

private theorem withSuccessors_toRecord {known : List String} {b : Block}
    (h : b.successors ⊆ known) (edges : List Edge) :
    withSuccessors known edges b.toRecord (unconnected b) =
      pure (outgoing b) := by
  have hfield : b.toRecord.field? "successors" = some (.array (b.successors.map .text)) := rfl
  have htexts : (b.successors.map Json.text).map Json.display = b.successors := by
    simp [List.map_map, Function.comp_def]
  have hknown : b.successors.filter known.contains = b.successors :=
    List.filter_eq_self.mpr fun id hid ↦ List.contains_iff_mem.mpr (h hid)
  unfold withSuccessors
  rw [hfield]
  show (pure { unconnected b with successors :=
    ((b.successors.map Json.text).map Json.display).filter known.contains } : Logged Block) = _
  rw [htexts, hknown]
  rfl

/-- With different ids, every block is the last one with its id. -/
theorem isLastOfId_of_nodup {blocks : List Block} (h : (blocks.map (·.id)).Nodup) {k : Nat}
    {b : Block} (hb : blocks[k]? = some b) : isLastOfId blocks k b.id = true := by
  obtain ⟨hlt, hget⟩ := List.getElem?_eq_some_iff.mp hb
  have hdrop := h.sublist ((List.drop_sublist k blocks).map (·.id))
  rw [List.drop_eq_getElem_cons hlt, hget, List.map_cons, List.nodup_cons] at hdrop
  rw [isLastOfId, Bool.not_eq_true', List.any_eq_false]
  intro later hlater heq
  exact hdrop.1 (List.mem_map.mpr ⟨later, hlater, eq_of_beq heq⟩)

private theorem withPredecessors_eq {g : Graph} (h : g.IsRecorded) :
    withPredecessors (g.blocks.map outgoing) = g.blocks := by
  have hids : (g.blocks.map outgoing).map (·.id) = g.ids := by
    rw [List.map_map]
    rfl
  have hlast : ∀ p ∈ g.blocks.zipIdx, isLastOfId (g.blocks.map outgoing) p.2 p.1.id = true := by
    intro p hp
    have hb := List.mem_zipIdx_iff_getElem?.mp hp
    apply isLastOfId_of_nodup (b := outgoing p.1) (hids ▸ h.nodup)
    rw [List.getElem?_map, hb]
    rfl
  have hsources : ∀ id, sourcesOf (g.blocks.map outgoing) id = sourcesOf g.blocks id := by
    intro id
    rw [sourcesOf, List.flatMap_map]
    rfl
  rw [withPredecessors, List.zipIdx_map, List.map_map]
  conv_rhs => rw [← List.zipIdx_map_fst 0 g.blocks]
  apply List.map_congr_left
  intro p hp
  have hb : p.1 ∈ g.blocks := List.mem_of_getElem? (List.mem_zipIdx_iff_getElem?.mp hp)
  show { outgoing p.1 with
    predecessors := if isLastOfId (g.blocks.map outgoing) p.2 p.1.id = true then
      sourcesOf (g.blocks.map outgoing) p.1.id else []
    isExit := p.1.successors.isEmpty } = p.1
  rw [if_pos (hlast p hp), hsources, ← h.predecessors p.1 hb, ← h.isExit p.1 hb]
  rfl

end Import

variable {g : Graph}

/-- A graph is what its records say, if all else follows from them. -/
theorem IsRecorded.ofRecords (h : g.IsRecorded) :
    Graph.ofRecords g.blockRecords g.edgeRecords = pure g := by
  have harena : ((g.blocks.map Block.toRecord).zipIdx.mapM fun p ↦ Import.blockOf p.2 p.1) =
      pure (g.blocks.map Import.unconnected) := by
    have hfst : g.blocks.zipIdx.map (Import.unconnected ∘ Prod.fst) =
        g.blocks.map Import.unconnected := by
      rw [← List.map_map, List.zipIdx_map_fst]
    rw [List.zipIdx_map, List.mapM_map, ← hfst]
    apply Logged.mapM_eq_pure
    intro p hp
    have hb := List.mem_zipIdx_iff_getElem?.mp hp
    exact Import.blockOf_toRecord (h.index p.2 p.1 hb) (h.addresses p.1 (List.mem_of_getElem? hb))
  have hknown : (g.blocks.map Import.unconnected).map (·.id) = g.ids := by
    rw [List.map_map]
    rfl
  have htyped : (g.edges.map Edge.toRecord).mapM (Import.edgeOf g.ids) =
      pure (g.edges.map some) := by
    rw [List.mapM_map]
    apply Logged.mapM_eq_pure
    intro e he
    exact Import.edgeOf_toRecord (h.ends e he).1 (h.ends e he).2
  have hedges : (g.edges.map some).filterMap id = g.edges := by
    simp [List.filterMap_map]
  have hconnected : (((g.blocks.map Block.toRecord).zip (g.blocks.map Import.unconnected)).mapM
      fun p ↦ Import.withSuccessors g.ids g.edges p.1 p.2) =
        pure (g.blocks.map Import.outgoing) := by
    rw [List.zip_map', List.mapM_map]
    apply Logged.mapM_eq_pure
    intro b hb
    exact Import.withSuccessors_toRecord (h.successors_subset b hb) g.edges
  have hblocks : Import.members g.blockRecords = pure (g.blocks.map Block.toRecord) := rfl
  have hedgeRecords : Import.members g.edgeRecords = pure (g.edges.map Edge.toRecord) := rfl
  unfold Graph.ofRecords
  rw [hblocks, Logged.pure_bind]
  rw [harena, Logged.pure_bind]
  dsimp only
  rw [hknown, hedgeRecords, Logged.pure_bind, htyped, Logged.pure_bind, hedges, hconnected,
    Logged.pure_bind, Import.withPredecessors_eq h]

end Graph

/-- Filling in addresses a second time changes nothing. -/
theorem Block.withAddresses_withAddresses (b : Block) :
    b.withAddresses.withAddresses = b.withAddresses := by
  have htwice : ∀ (text : String) (other : Option String),
      orElseText (orElseText text other) other = orElseText text other := by
    intro text other
    by_cases h : text.isEmpty = true <;> simp [orElseText, h]
  simp only [withAddresses, htwice]

namespace Listing

variable {c : Classifier} {listing : List Instruction}

/-- Lists of edges that leave one node each are what a look through all of them finds under the
nodes. -/
private theorem map_filter_flatten {ids : List String} {lists : List (List Edge)}
    (h : List.Forall₂ (fun id es ↦ ∀ e ∈ es, e.source = id) ids lists) (nodup : ids.Nodup) :
    (ids.map fun id ↦ lists.flatten.filter (·.source == id)) = lists := by
  induction h with
  | nil => rfl
  | @cons id es ids lists hes hlists ih =>
    obtain ⟨hid, hids⟩ := List.nodup_cons.mp nodup
    have hhere : es.filter (·.source == id) = es :=
      List.filter_eq_self.mpr fun e he ↦ beq_iff_eq.mpr (hes e he)
    have hlater : lists.flatten.filter (·.source == id) = [] := by
      rw [List.filter_eq_nil_iff]
      intro e he heq
      obtain ⟨es', hes', hmem⟩ := List.mem_flatten.mp he
      obtain ⟨id', hid', hsources⟩ := exists_of_forall₂ hlists hes'
      rw [← beq_iff_eq.mp heq, hsources e hmem] at hid
      exact hid hid'
    have hother : ∀ id' ∈ ids, es.filter (·.source == id') = [] := by
      intro id' hid'
      rw [List.filter_eq_nil_iff]
      intro e he heq
      rw [← hes e he, beq_iff_eq.mp heq] at hid
      exact hid hid'
    rw [List.map_cons, List.flatten_cons, List.filter_append, hhere, hlater, List.append_nil]
    congr 1
    rw [← ih hids]
    apply List.map_congr_left
    intro id' hid'
    rw [List.filter_append, hother id' hid', List.nil_append, ih hids]

private theorem source_of_mem_exitsOf {source mnemonic : String} {target next : Option String} :
    ∀ e ∈ exitsOf c source mnemonic target next, e.source = source := by
  intro e he
  unfold exitsOf at he
  split at he
  · simp at he
  · split at he
    · split at he
      · rcases List.mem_append.mp he with he | he
        · obtain ⟨t, -, rfl⟩ := List.mem_map.mp he
          rfl
        · obtain ⟨t, -, rfl⟩ := List.mem_map.mp he
          rfl
      · obtain ⟨t, -, rfl⟩ := List.mem_map.mp he
        rfl
    · obtain ⟨t, -, rfl⟩ := List.mem_map.mp he
      rfl

/-- The edges stand in the order of the blocks that they leave. -/
theorem edges_split_eq_flatMap :
    (split c listing).edges = (split c listing).ids.flatMap (split c listing).edgesFrom := by
  have hlists : List.Forall₂ (fun id es ↦ ∀ e ∈ es, e.source = id) (split c listing).ids
      (exitLists c listing) := by
    have hids : (split c listing).ids = (runs c listing).zipIdx.map fun p ↦ Block.idAt p.2 := by
      rw [Graph.ids, split, List.map_map]
      rfl
    rw [hids, exitLists, List.forall₂_map_left_iff, List.forall₂_map_right_iff, List.forall₂_same]
    rintro ⟨run, k⟩ - e he
    dsimp only at he
    split at he
    · simp at he
    · exact source_of_mem_exitsOf e he
  have hmap := map_filter_flatten hlists (nodup_ids_split c listing)
  rw [← edges_split] at hmap
  rw [List.flatMap_def]
  conv_lhs => rw [edges_split, ← hmap]
  rfl

/-- What is distinct in lists of copies of different ids are the copies of each. -/
private theorem distinct_flatMap {ids : List String} {f : String → List String} (nodup : ids.Nodup)
    (h : ∀ id ∈ ids, ∀ x ∈ f id, x = id) :
    distinct (ids.flatMap f) = ids.flatMap fun id ↦ distinct (f id) := by
  induction ids with
  | nil => rfl
  | cons id ids ih =>
    obtain ⟨hid, hids⟩ := List.nodup_cons.mp nodup
    have hrest : ∀ id' ∈ ids, ∀ x ∈ f id', x = id' :=
      fun id' hid' ↦ h id' (List.mem_cons_of_mem id hid')
    have hdisjoint : (f id).Disjoint (ids.flatMap f) := by
      intro x hx hx'
      obtain ⟨id', hid', hmem⟩ := List.mem_flatMap.mp hx'
      rw [← hrest id' hid' x hmem, h id List.mem_cons_self x hx] at hid'
      exact hid hid'
    rw [List.flatMap_cons, List.flatMap_cons, ← ih hids hrest]
    exact Search.fresh_append hdisjoint

/-- A block is once among the sources of the edges to an id, or as often as it lists the id. -/
private theorem distinct_sources {b : Block} (hb : b ∈ (split c listing).blocks) (id : String) :
    distinct ((((split c listing).edgesFrom b.id).filter (·.target == id)).map (·.source)) =
      (b.successors.filter (· == id)).map fun _ ↦ b.id := by
  have hmem : ∀ x, x ∈ (((split c listing).edgesFrom b.id).filter (·.target == id)).map (·.source) ↔
      x = b.id ∧ id ∈ b.successors := by
    intro x
    rw [mem_successors_split hb]
    simp only [Graph.edgesFrom, List.mem_map, List.mem_filter, beq_iff_eq]
    constructor
    · rintro ⟨e, ⟨⟨he, hsource⟩, htarget⟩, rfl⟩
      exact ⟨hsource, e, he, hsource, htarget⟩
    · rintro ⟨rfl, e, he, hsource, htarget⟩
      exact ⟨e, ⟨⟨he, hsource⟩, htarget⟩, hsource⟩
  have hnodup := (isCoherent_split c listing).nodup_successors b hb
  rw [List.filter_beq, List.map_replicate]
  by_cases hid : id ∈ b.successors
  · rw [List.count_eq_one_of_mem hnodup hid, List.replicate_one, ← List.perm_singleton,
      List.perm_ext_iff_of_nodup (nodup_distinct _) (List.nodup_singleton _)]
    intro x
    simp [mem_distinct, hmem, hid]
  · rw [List.count_eq_zero_of_not_mem hid, List.replicate_zero, List.eq_nil_iff_forall_not_mem]
    intro x hx
    exact hid ((hmem x).mp (mem_distinct.mp hx)).2

/-- Predecessors are the blocks that list a block among their successors, in block order. -/
private theorem predecessors_split {b : Block} (hb : b ∈ (split c listing).blocks) :
    b.predecessors = Graph.Import.sourcesOf (split c listing).blocks b.id := by
  have hedges : b.predecessors =
      distinct (((split c listing).edges.filter (·.target == b.id)).map (·.source)) := by
    obtain ⟨⟨run, k⟩, -, rfl⟩ := List.mem_map.mp hb
    rfl
  rw [hedges, edges_split_eq_flatMap, List.filter_flatMap, List.map_flatMap,
    distinct_flatMap (nodup_ids_split c listing), Graph.ids, List.flatMap_map,
    Graph.Import.sourcesOf]
  · apply List.flatMap_congr
    intro b' hb'
    exact distinct_sources hb' b.id
  · intro id _ x hx
    obtain ⟨e, he, rfl⟩ := List.mem_map.mp hx
    exact beq_iff_eq.mp (List.mem_filter.mp (List.mem_filter.mp he).1).2

/-- All that the records of the graph of a listing leave out follows from what they say. -/
theorem isRecorded_split (c : Classifier) (listing : List Instruction) :
    (split c listing).IsRecorded where
  index _ _ := index_of_getElem?_blocks
  addresses := by
    intro b hb
    obtain ⟨⟨run, k⟩, -, rfl⟩ := List.mem_map.mp hb
    exact Block.withAddresses_withAddresses _
  nodup := nodup_ids_split c listing
  successors_subset := (isCoherent_split c listing).successors_subset
  predecessors _ := predecessors_split
  isExit := by
    intro b hb
    obtain ⟨⟨run, k⟩, -, rfl⟩ := List.mem_map.mp hb
    rfl
  ends _ he := ends_split he

/-- The graph of a listing is written out and brought in again without a loss and without a
warning. -/
theorem ofRecords_split (c : Classifier) (listing : List Instruction) :
    Graph.ofRecords (split c listing).blockRecords (split c listing).edgeRecords =
      pure (split c listing) :=
  (isRecorded_split c listing).ofRecords

end Listing

end FlowChart
