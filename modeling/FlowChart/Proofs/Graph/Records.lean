import FlowChart.Proofs.Graph.Exchange
import FlowChart.Proofs.Requests

/-!
# What records are read as

A graph is read from records in passes: the blocks, the edges between them, the successors of each
block, and what follows from these. The passes only add to what the earlier ones found, so that what
comes out can be told record by record: a block for every record, at its position, and an edge for
every record that names two blocks. With different ids, predecessors mirror successors: a block is
among the predecessors of another one as often as that is among its successors.
-/

namespace FlowChart.Graph

namespace Import

/-- What is read from the record of a block, apart from how the block is connected. -/
structure Describes (record : Json) (position : Nat) (b : Block) : Prop where
  /-- The block carries the position of the record. -/
  index : b.index = position
  /-- The id is the text of that of the record. -/
  id : (record.field? "id").map Json.display = some b.id
  /-- The instructions are those of the record; there are none, if it lists none. -/
  instructions : ∃ items, ((record.field? "instructions").getD (.array [])).members? = some items ∧
    List.Forall₂ (fun item i ↦ Instruction.ofRecord item = .ok i) items b.instructions
  /-- The start is given, or the address of the first instruction. -/
  start : b.start = Block.orElseText (record.fieldText "startAddress" "")
    (b.instructions.head?.map (·.address))
  /-- The stop is given, or the address of the last instruction. -/
  stop : b.stop = Block.orElseText (record.fieldText "endAddress" "")
    (b.instructions.getLast?.map (·.address))
  /-- The block is an entry if the record says so. -/
  isEntry : b.isEntry = ((record.field? "isEntry").map Json.truth).getD false

/-- How a block is connected, in a graph with some ids and edges. -/
structure Connects (known : List String) (edges : List Edge) (record : Json) (b : Block) :
    Prop where
  /-- Successors that the record lists count, if they are known. -/
  listed : ∀ j, record.field? "successors" = some j →
    ∃ items, j.members? = some items ∧ b.successors = (items.map Json.display).filter known.contains
  /-- If the record lists none, the targets of the edges from the block do, in order. -/
  unlisted : record.field? "successors" = none →
    b.successors = (edges.filter (·.source == b.id)).map (·.target)

/-- Whether what a record has under a name is a known id. -/
def knowsEnd (known : List String) (record : Json) (name : String) : Bool :=
  (record.field? name).any fun j ↦ known.contains j.display

/-- Whether both ends of an edge record are known. -/
def knowsEnds (known : List String) (record : Json) : Bool :=
  knowsEnd known record "from" && knowsEnd known record "to"

/-- What is read from the record of an edge. -/
structure Links (record : Json) (e : Edge) : Prop where
  /-- The source is the text of that of the record. -/
  source : (record.field? "from").map Json.display = some e.source
  /-- The target is the text of that of the record. -/
  target : (record.field? "to").map Json.display = some e.target
  /-- The kind is the one that the record names. -/
  kind : record.fieldText "type" EdgeKind.normal.toText = e.kind.toText

/-! ### One record -/

private theorem reads_members (j : Json) :
    (members j).Ends (fun items ↦ j.members? = some items) True True := by
  unfold members
  split
  · next items hitems => exact .pure hitems
  · exact .broken trivial

private theorem reads_instructionsOf (record : Json) :
    (instructionsOf record).Ends (fun listing ↦ ∃ items,
      ((record.field? "instructions").getD (.array [])).members? = some items ∧
        List.Forall₂ (fun item i ↦ Instruction.ofRecord item = .ok i) items listing) True True := by
  unfold instructionsOf
  apply (reads_members _).bind
  intro items hitems
  refine (Logged.Ends.mapM fun item _ ↦ ?_).imp fun listing hlisting ↦ ⟨items, hitems, hlisting⟩
  split
  · next i hi => exact .pure hi
  · exact .reject trivial

/-- An object mentions the names of its fields. -/
theorem mentions_object (name : String) (fields : List (String × Json)) :
    mentions name (.object fields) = .ok ((Json.object fields).field? name).isSome := by
  have hkey : fields.any (·.1 == name) = (Table.find name fields).isSome := by
    rw [Bool.eq_iff_iff, List.any_eq_true]
    show _ ↔ (Table.mk fields).contains name = true
    rw [Table.contains_iff_mem_keys, Table.keys, List.mem_map]
    simp
  rw [mentions, hkey]
  rfl

/-- The text of a field that is there does not depend on what stands in for it. -/
theorem display_eq_fieldText {record : Json} {name : String} (h : (record.field? name).isSome)
    (other : String) :
    (record.field? name).map Json.display = some (record.fieldText name other) := by
  obtain ⟨j, hj⟩ := Option.isSome_iff_exists.mp h
  rw [Json.fieldText, hj]
  rfl

private theorem reads_blockOf (position : Nat) (record : Json) :
    (blockOf position record).Ends (Describes record position) True True := by
  unfold blockOf
  cases record with
  | object fields =>
    rw [mentions_object]
    show Logged.Ends (Pure.pure _ >>= _) _ _ _
    rw [Logged.pure_bind]
    split
    · exact .reject trivial
    · next hid =>
      rw [Bool.not_eq_true, Bool.not_eq_false'] at hid
      apply (reads_instructionsOf _).bind
      intro listing hlisting
      exact .pure ⟨rfl, display_eq_fieldText hid "", hlisting, rfl, rfl, rfl⟩
  | _ =>
    apply (Logged.Ends.trivial _).bind
    intro found _
    split
    · exact .reject trivial
    · exact .broken trivial

private theorem reads_endOf (name : String) (record : Json) :
    (endOf name record).Ends (fun s ↦ (record.field? name).map Json.display = some s)
      True True := by
  unfold endOf
  split
  · split
    · next j hj => exact .pure (by rw [hj]; rfl)
    · exact .reject trivial
  · exact .broken trivial

/-- A kind is found under its name only. -/
theorem eq_toText_of_ofText {name : String} {kind : EdgeKind}
    (h : EdgeKind.ofText name = .ok kind) : name = kind.toText := by
  unfold EdgeKind.ofText at h
  split at h
  · next k hk =>
    cases h
    unfold EdgeKind.ofText? at hk
    have hname := List.find?_some hk
    exact (eq_of_beq hname).symm
  · cases h

private theorem knowsEnd_eq {known : List String} {record : Json} {name s : String}
    (h : (record.field? name).map Json.display = some s) :
    knowsEnd known record name = known.contains s := by
  obtain ⟨j, hj, rfl⟩ := Option.map_eq_some_iff.mp h
  rw [knowsEnd, hj, Option.any_some]

private theorem reads_edgeOf (known : List String) (record : Json) :
    (edgeOf known record).Ends
      (fun o ↦ if knowsEnds known record then ∃ e, o = some e ∧ Links record e else o = none)
      True True := by
  unfold edgeOf
  apply (reads_endOf "from" record).bind
  intro source hsource
  apply (reads_endOf "to" record).bind
  intro target htarget
  rw [knowsEnds, knowsEnd_eq hsource, knowsEnd_eq htarget]
  split
  · next hknown =>
    split
    · next kind hkind =>
      exact .pure ⟨_, rfl, hsource, htarget, eq_toText_of_ofText hkind⟩
    · exact .reject trivial
  · -- A warning does not change how the request ends.
    exact (rfl : (none : Option Edge) = none)

private theorem reads_withSuccessors (known : List String) (edges : List Edge) (record : Json)
    (b : Block) :
    (withSuccessors known edges record b).Ends
      (fun b' ↦ (∃ successors, b' = { b with successors := successors }) ∧
        Connects known edges record b') True True := by
  unfold withSuccessors
  split
  · next listed hlisted =>
    apply (reads_members listed).bind
    intro items hitems
    refine .pure ⟨⟨_, rfl⟩, fun j hj ↦ ?_, fun hnone ↦ ?_⟩
    · cases hlisted.symm.trans hj
      exact ⟨items, hitems, rfl⟩
    · cases hlisted.symm.trans hnone
  · next hnone =>
    refine .pure ⟨⟨_, rfl⟩, fun j hj ↦ ?_, fun _ ↦ rfl⟩
    cases hnone.symm.trans hj

/-! ### Successors -/

/-- How a block is connected does not touch what its record says about it. -/
private theorem Describes.connected {record : Json} {position : Nat} {b : Block}
    (h : Describes record position b) (successors predecessors : List String) (isExit : Bool) :
    Describes record position { b with successors, predecessors, isExit } :=
  ⟨h.index, h.id, h.instructions, h.start, h.stop, h.isEntry⟩

private theorem Links.target_mem {known : List String} {record : Json} {e : Edge}
    (h : Links record e) (hends : knowsEnds known record = true) : e.target ∈ known := by
  rw [knowsEnds, Bool.and_eq_true, knowsEnd_eq h.target] at hends
  exact List.contains_iff_mem.mp hends.2

/-- Successors are known, if the edges lead to what is known. -/
theorem Connects.subset {known : List String} {edges : List Edge} {record : Json} {b : Block}
    (h : Connects known edges record b) (hedges : ∀ e ∈ edges, e.target ∈ known) :
    b.successors ⊆ known := by
  cases hlisted : record.field? "successors" with
  | some j =>
    obtain ⟨items, -, hsuccessors⟩ := h.listed j hlisted
    intro id hid
    rw [hsuccessors] at hid
    exact List.contains_iff_mem.mp (List.mem_filter.mp hid).2
  | none =>
    intro id hid
    rw [h.unlisted hlisted] at hid
    obtain ⟨e, he, rfl⟩ := List.mem_map.mp hid
    exact hedges e (List.mem_of_mem_filter he)

/-! ### Predecessors -/

private theorem subset_of_mem_sourcesOf {blocks : List Block} {source id : String}
    (h : source ∈ sourcesOf blocks id) : source ∈ blocks.map (·.id) := by
  obtain ⟨b, hb, h⟩ := List.mem_flatMap.mp h
  obtain ⟨-, -, rfl⟩ := List.mem_map.mp h
  exact List.mem_map_of_mem hb

/-- With different ids, a block is a source of an id as often as the id is among its successors. -/
theorem count_sourcesOf {blocks : List Block} (nodup : (blocks.map (·.id)).Nodup) {b : Block}
    (hb : b ∈ blocks) (id : String) :
    (sourcesOf blocks id).count b.id = b.successors.count id := by
  induction blocks with
  | nil => simp at hb
  | cons first rest ih =>
    obtain ⟨hfirst, hrest⟩ := List.nodup_cons.mp nodup
    have hfirst : first.id ∉ rest.map (·.id) := hfirst
    have hcount : (sourcesOf (first :: rest) id).count b.id =
        (if first.id = b.id then first.successors.count id else 0) +
          (sourcesOf rest id).count b.id := by
      rw [sourcesOf, List.flatMap_cons, List.count_append, List.map_const', List.count_replicate,
        ← List.countP_eq_length_filter]
      simp only [beq_iff_eq]
      rfl
    rw [hcount]
    rcases List.mem_cons.mp hb with rfl | hb
    · have hnone : (sourcesOf rest id).count b.id = 0 :=
        List.count_eq_zero.mpr (mt subset_of_mem_sourcesOf hfirst)
      rw [if_pos rfl, hnone, Nat.add_zero]
    · have hmem : b.id ∈ rest.map (·.id) := List.mem_map_of_mem hb
      have hne : first.id ≠ b.id := (ne_of_mem_of_not_mem hmem hfirst).symm
      rw [if_neg hne, Nat.zero_add, ih hrest hb]

/-- What does not depend on predecessors and exits is kept when these are added. -/
theorem map_withPredecessors {β : Type} {f : Block → β}
    (hf : ∀ (b : Block) predecessors isExit, f { b with predecessors, isExit } = f b)
    (blocks : List Block) : (withPredecessors blocks).map f = blocks.map f := by
  rw [withPredecessors, List.map_map]
  conv_rhs => rw [← List.zipIdx_map_fst 0 blocks, List.map_map]
  exact List.map_congr_left fun p _ ↦ hf p.1 _ _

private theorem exists_of_mem_withPredecessors {blocks : List Block} {b : Block}
    (h : b ∈ withPredecessors blocks) (nodup : (blocks.map (·.id)).Nodup) :
    ∃ b₀ ∈ blocks, b.id = b₀.id ∧ b.successors = b₀.successors ∧
      b.predecessors = sourcesOf blocks b₀.id := by
  obtain ⟨⟨b₀, position⟩, hmem, rfl⟩ := List.mem_map.mp h
  have hb₀ := List.mem_zipIdx_iff_getElem?.mp hmem
  exact ⟨b₀, List.mem_of_getElem? hb₀, rfl, rfl, if_pos (isLastOfId_of_nodup nodup hb₀)⟩

/-- With different ids, a block is among the predecessors of another one as often as that is among
its successors. -/
theorem count_predecessors {blocks : List Block} (nodup : (blocks.map (·.id)).Nodup) {b t : Block}
    (hb : b ∈ withPredecessors blocks) (ht : t ∈ withPredecessors blocks) :
    t.predecessors.count b.id = b.successors.count t.id := by
  obtain ⟨b₀, hb₀, hbid, hbsuccessors, -⟩ := exists_of_mem_withPredecessors hb nodup
  obtain ⟨t₀, -, htid, -, htpredecessors⟩ := exists_of_mem_withPredecessors ht nodup
  rw [htpredecessors, hbid, htid, hbsuccessors, count_sourcesOf nodup hb₀]

end Import

open Import

/-! ### The graph of records -/

/-- A graph is that of block records and edge records. -/
structure IsReadFrom (g : Graph) (records edgeRecords : List Json) : Prop where
  /-- Each record of a block gives one, in order. -/
  blocks : List.Forall₂ (fun p b ↦ Describes p.1 p.2 b ∧ Connects g.ids g.edges p.1 b)
    records.zipIdx g.blocks
  /-- Each record of an edge both ends of which are known gives one, in order. -/
  edges : List.Forall₂ Links (edgeRecords.filter (knowsEnds g.ids)) g.edges
  /-- All successors are known. -/
  known : ∀ b ∈ g.blocks, b.successors ⊆ g.ids
  /-- Exits are the blocks without successors. -/
  isExit : ∀ b ∈ g.blocks, b.isExit = true ↔ b.successors = []

/-- Predecessors mirror successors: each pair of blocks is listed equally often by both. -/
def Mirrors (g : Graph) : Prop :=
  ∀ b ∈ g.blocks, ∀ t ∈ g.blocks, t.predecessors.count b.id = b.successors.count t.id

private theorem map_id_of_connected {records : List Json} {arena connected : List Block}
    (hlength : records.length = arena.length)
    (h : List.Forall₂ (fun p b ↦ ∃ successors, b = { p.2 with successors := successors })
      (records.zip arena) connected) : connected.map (·.id) = arena.map (·.id) := by
  have hids : connected.map (·.id) = (records.zip arena).map (·.2.id) :=
    map_eq_of_forall₂ (fun _ _ ⟨_, hb⟩ ↦ by rw [hb]) h
  have hsnd : (records.zip arena).map Prod.snd = arena := List.map_snd_zip hlength.ge
  rw [hids]
  conv_rhs => rw [← hsnd, List.map_map]
  rfl

private theorem isReadFrom_withPredecessors {records edgeRecords : List Json} {edges : List Edge}
    {connected : List Block} {known : List String} (hknown : connected.map (·.id) = known)
    (hblocks : List.Forall₂ (fun p b ↦ Describes p.1 p.2 b ∧ Connects known edges p.1 b)
      records.zipIdx connected)
    (hedges : List.Forall₂ Links (edgeRecords.filter (knowsEnds known)) edges) :
    IsReadFrom ⟨withPredecessors connected, edges⟩ records edgeRecords := by
  have hids : Graph.ids ⟨withPredecessors connected, edges⟩ = known :=
    (map_withPredecessors (fun _ _ _ ↦ rfl) connected).trans hknown
  have hread : List.Forall₂ (fun p b ↦ Describes p.1 p.2 b ∧ Connects known edges p.1 b)
      records.zipIdx (withPredecessors connected) := by
    rw [← List.zipIdx_map_fst 0 connected, List.forall₂_map_right_iff] at hblocks
    rw [withPredecessors, List.forall₂_map_right_iff]
    exact hblocks.imp fun p q h ↦ ⟨h.1.connected _ _ _, h.2.listed, h.2.unlisted⟩
  constructor
  · rwa [hids]
  · rwa [hids]
  · intro b hb
    obtain ⟨p, -, -, hconnects⟩ := exists_of_forall₂ hread hb
    rw [hids]
    refine hconnects.subset fun e he ↦ ?_
    obtain ⟨record, hrecord, hlinks⟩ := exists_of_forall₂ hedges he
    exact hlinks.target_mem (List.mem_filter.mp hrecord).2
  · intro b hb
    obtain ⟨q, -, rfl⟩ := List.mem_map.mp hb
    exact List.isEmpty_iff

/-- The graph of records is read from them, and with different ids predecessors mirror
successors. -/
theorem reads_ofRecords (blocks edges : Json) :
    (ofRecords blocks edges).Ends (fun g ↦ ∃ records edgeRecords,
      blocks.members? = some records ∧ edges.members? = some edgeRecords ∧
        g.IsReadFrom records edgeRecords ∧ (g.ids.Nodup → g.Mirrors)) True True := by
  unfold ofRecords
  apply (reads_members blocks).bind
  intro records hrecords
  apply (Logged.Ends.mapM fun p _ ↦ reads_blockOf p.2 p.1).bind
  intro arena harena
  apply (reads_members edges).bind
  intro edgeRecords hedgeRecords
  apply (Logged.Ends.mapM fun record _ ↦ reads_edgeOf (arena.map (·.id)) record).bind
  intro typed htyped
  apply (Logged.Ends.mapM fun p _ ↦
    reads_withSuccessors (arena.map (·.id)) (typed.filterMap id) p.1 p.2).bind
  intro connected hconnected
  have hlength := harena.length_eq
  rw [List.length_zipIdx] at hlength
  have hids := map_id_of_connected hlength (hconnected.imp fun _ _ ↦ And.left)
  rw [← List.zipIdx_map_fst 0 records, List.zip_map_left, List.forall₂_map_left_iff] at hconnected
  have hblocks : List.Forall₂ (fun p b ↦ Describes p.1 p.2 b ∧
      Connects (arena.map (·.id)) (typed.filterMap id) p.1 b) records.zipIdx connected := by
    refine (forall₂_of_zip harena hconnected).imp ?_
    rintro p b ⟨b₀, hb₀, ⟨successors, rfl⟩, hconnects⟩
    exact ⟨hb₀.connected _ _ _, hconnects⟩
  refine .pure ⟨records, edgeRecords, hrecords, hedgeRecords,
    isReadFrom_withPredecessors hids hblocks (forall₂_filterMap htyped), fun nodup b hb t ht ↦ ?_⟩
  have hsame : (withPredecessors connected).map (·.id) = connected.map (·.id) :=
    map_withPredecessors (fun _ _ _ ↦ rfl) connected
  exact count_predecessors (hsame ▸ nodup) hb ht

/-- The ids of a graph that is read from records are the texts of the ids of its records. -/
theorem IsReadFrom.map_id {g : Graph} {records edgeRecords : List Json}
    (h : g.IsReadFrom records edgeRecords) :
    records.map (fun record ↦ (record.field? "id").map Json.display) = g.ids.map some := by
  have hids : g.blocks.map (fun b ↦ some b.id) =
      records.zipIdx.map fun p ↦ (p.1.field? "id").map Json.display :=
    map_eq_of_forall₂ (fun _ _ h ↦ h.1.id.symm) h.blocks
  rw [ids, List.map_map]
  conv_lhs => rw [← List.zipIdx_map_fst 0 records, List.map_map]
  exact hids.symm

/-- The graph of records that are accepted has their blocks and the edges between these, in order.
All successors are known, a block whose record lists none has the targets of its edges, and exits
are the blocks without successors. If the ids of the records differ as texts, predecessors mirror
successors. -/
theorem exists_isReadFrom {blocks edges : Json} {g : Graph}
    (accepted : (ofRecords blocks edges).outcome = .ok g) :
    ∃ records edgeRecords, blocks.members? = some records ∧ edges.members? = some edgeRecords ∧
      g.IsReadFrom records edgeRecords ∧
        ((records.map fun record ↦ (record.field? "id").map Json.display).Nodup → g.Mirrors) := by
  obtain ⟨records, edgeRecords, hrecords, hedgeRecords, hread, hmirrors⟩ :=
    (reads_ofRecords blocks edges).of_outcome accepted
  refine ⟨records, edgeRecords, hrecords, hedgeRecords, hread, fun nodup ↦ hmirrors ?_⟩
  rw [hread.map_id] at nodup
  exact nodup.of_map some

/-- A block lists itself twice, and two edges lead to it from a block that lists no successors. What
leads to a block that is not there is passed over. -/
theorem exists_isReadFrom_of_repeated :
    let blocks : Json := .array [.object [("id", .text "a"), ("isEntry", .bool true)],
      .object [("id", .text "b"),
        ("successors", .array [.text "b", .text "ghost", .text "a", .text "b"])]]
    let edges : Json := .array [.object [("from", .text "a"), ("to", .text "b")],
      .object [("from", .text "a"), ("to", .text "ghost")],
      .object [("from", .text "a"), ("to", .text "b"), ("type", .text "conditional-true")]]
    let g : Graph := ⟨[
      { index := 0, id := "a", instructions := [], start := "", stop := "",
        successors := ["b", "b"], predecessors := ["b"], isEntry := true },
      { index := 1, id := "b", instructions := [], start := "", stop := "",
        successors := ["b", "a", "b"], predecessors := ["a", "a", "b", "b"] }],
      [⟨"a", "b", .normal⟩, ⟨"a", "b", .conditionalTrue⟩]⟩
    (ofRecords blocks edges).outcome = .ok g ∧
      ∃ records edgeRecords, blocks.members? = some records ∧ edges.members? = some edgeRecords ∧
        g.IsReadFrom records edgeRecords ∧
          ((records.map fun record ↦ (record.field? "id").map Json.display).Nodup → g.Mirrors) := by
  intro blocks edges g
  have accepted : (ofRecords blocks edges).outcome = .ok g := rfl
  exact ⟨accepted, exists_isReadFrom accepted⟩

end FlowChart.Graph
