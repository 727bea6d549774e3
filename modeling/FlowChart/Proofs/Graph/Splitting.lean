import FlowChart.Proofs.Graph.Cutting
import FlowChart.Proofs.Graph.Pruning
import FlowChart.Proofs.Tables

/-!
# Graphs of listings

The graph of a listing has one block for each run, under ids that are told apart, and holds all
instructions in order. Its edges are those that the last instructions of its blocks dictate: an
edge of a jump always enters a block at its first instruction, which is the last one of the listing
that has the address.
-/

namespace FlowChart

/-- Different positions have different ids. -/
theorem Block.idAt_injective {k k' : Nat} (h : idAt k = idAt k') : k = k' := by
  have htext : Nat.repr k = Nat.repr k' := String.append_right_inj _ |>.mp h
  have hdigits := congrArg (fun s : String ↦ Nat.ofDigitChars 10 s.toList 0) htext
  simpa using hdigits

namespace Listing

variable (c : Classifier) (listing : List Instruction)

/-- The runs of instructions that become blocks. -/
def runs : List (List Instruction) := cut (leaders c listing) 0 listing

/-- The runs hold all instructions in order. -/
theorem flatten_runs : (runs c listing).flatten = listing := flatten_cut _ _ _

/-- The blocks hold the runs. -/
theorem map_instructions_split :
    (split c listing).blocks.map (·.instructions) = runs c listing := by
  have hmap : (split c listing).blocks.map (·.instructions) =
      (runs c listing).zipIdx.map Prod.fst := by
    simp only [split, List.map_map]
    rfl
  rw [hmap, List.zipIdx_map_fst]

/-- The blocks hold all instructions in order. -/
theorem instructions_split : (split c listing).instructions = listing := by
  rw [Graph.instructions, List.flatMap_def, map_instructions_split, flatten_runs]

/-- The ids of the blocks are those of their positions. -/
theorem ids_split :
    (split c listing).ids =
      (List.range (runs c listing).length).map fun k : Nat ↦ Block.idAt k := by
  apply List.ext_getElem
  · simp [Graph.ids, split, runs]
  · intro k hk hk'
    simp [Graph.ids, split, blockOf, Block.withAddresses]

/-- No two blocks have one id. -/
theorem nodup_ids_split : (split c listing).ids.Nodup := by
  rw [ids_split]
  exact List.nodup_range.map fun k k' h ↦ Block.idAt_injective h

/-- The edges by the blocks that they leave. -/
def exitLists : List (List Edge) :=
  (runs c listing).zipIdx.map fun (run, k) ↦
    match run.getLast? with
    | none => []
    | some last =>
      exitsOf c (Block.idAt k) last.mnemonic
        ((targetIn (addressIndex listing) last).map fun position ↦
          Block.idAt (blockHolding (leaders c listing) position))
        (if k + 1 < (runs c listing).length then some (Block.idAt (k + 1)) else none)

/-- The edges are those that leave the blocks, in block order. -/
theorem edges_split : (split c listing).edges = (exitLists c listing).flatten := by
  rw [exitLists, ← List.flatMap_def]
  rfl

private theorem length_exitLists :
    (exitLists c listing).length = (split c listing).blocks.length := by
  simp [exitLists, split, runs]

variable {c listing}

/-- The block at a position holds the run at the position. -/
theorem getElem?_blocks {k : Nat} {run : List Instruction}
    (h : (runs c listing)[k]? = some run) :
    (split c listing).blocks[k]? = some (blockOf (split c listing).edges k run) := by
  have hrun : (runs c listing).zipIdx[k]? = some (run, k) := by
    rw [List.getElem?_zipIdx, h, Option.map_some, Nat.zero_add]
  simp only [split]
  rw [List.getElem?_map]
  exact congrArg (Option.map _) hrun

/-! ### Edges -/

/-- A block starts at a position of the listing that the blocks hold. -/
def StartsAt (blocks : List Block) (b : Block) (position : Nat) : Prop :=
  ∃ k, blocks[k]? = some b ∧ ((blocks.take k).flatMap (·.instructions)).length = position

/-- A run starts at every leader, and it has the number of the block that holds the leader. -/
theorem exists_runs_of_mem_leaders {position : Nat} (h : position ∈ leaders c listing) :
    ∃ before run after, runs c listing = before ++ run :: after ∧
      before.flatten.length = position ∧
      before.length = blockHolding (leaders c listing) position := by
  have hnodup : (leaders c listing).Nodup := List.nodup_range.filter _
  obtain ⟨before, run, after, hcut, hposition, hcount⟩ := exists_run_of_mem hnodup listing
    (.inr h) (Nat.zero_le position) (by simpa using (mem_leaders.mp h).1)
  rw [Nat.zero_add] at hposition
  rw [List.countP_eq_length_filter] at hcount
  exact ⟨before, run, after, hcut, hposition, hcount⟩

/-- The block of a run starts where the runs before it end. -/
theorem startsAt_blockOf {before after : List (List Instruction)} {run : List Instruction}
    (h : runs c listing = before ++ run :: after) :
    StartsAt (split c listing).blocks (blockOf (split c listing).edges before.length run)
      before.flatten.length := by
  have hget : (runs c listing)[before.length]? = some run := by
    rw [h, List.getElem?_append_right (Nat.le_refl _), Nat.sub_self]
    rfl
  refine ⟨before.length, getElem?_blocks hget, ?_⟩
  rw [List.flatMap_def, List.map_take, map_instructions_split, h, List.take_left]

/-- The edges that the operands of a last instruction dictate: one to the block that starts with
the last instruction at the address, if there is one. -/
inductive JumpExits (listing : List Instruction) (blocks : List Block) (source : Block)
    (last : Instruction) (kind : EdgeKind) : List Edge → Prop where
  /-- The operands name an address of the listing. -/
  | found {address position : Nat} {target : Block} (names : last.target? = some address)
      (lastAt : LastAt listing address position) (starts : StartsAt blocks target position)
      (head : target.instructions.head? = listing[position]?) :
      JumpExits listing blocks source last kind [⟨source.id, target.id, kind⟩]
  /-- The operands name no address, or none of the listing. -/
  | missing (unknown : ∀ address, last.target? = some address →
      ∀ i ∈ listing, i.address? ≠ some address) :
      JumpExits listing blocks source last kind []

/-- The edge to the next block, if there is one. -/
def nextExits (blocks : List Block) (k : Nat) (source : Block) (kind : EdgeKind) : List Edge :=
  blocks[k + 1]?.toList.map fun next ↦ ⟨source.id, next.id, kind⟩

/-- The edges that the last instruction of the block at a position dictates. -/
inductive Exits (c : Classifier) (listing : List Instruction) (blocks : List Block) (k : Nat)
    (b : Block) : List Edge → Prop where
  /-- A return leaves the function. -/
  | returning {last} (hlast : b.last? = some last) (returns : c.isReturn last.mnemonic = true) :
      Exits c listing blocks k b []
  /-- A conditional jump is taken or not. -/
  | conditional {last jump} (hlast : b.last? = some last)
      (returns : c.isReturn last.mnemonic = false) (branches : c.isBranch last.mnemonic = true)
      (falls : c.isConditional last.mnemonic = true)
      (jumps : JumpExits listing blocks b last .conditionalTrue jump) :
      Exits c listing blocks k b (jump ++ nextExits blocks k b .conditionalFalse)
  /-- Any other jump is taken. -/
  | unconditional {last jump} (hlast : b.last? = some last)
      (returns : c.isReturn last.mnemonic = false) (branches : c.isBranch last.mnemonic = true)
      (falls : c.isConditional last.mnemonic = false)
      (jumps : JumpExits listing blocks b last .unconditional jump) :
      Exits c listing blocks k b jump
  /-- Everything else goes on with the next block. -/
  | plain {last} (hlast : b.last? = some last) (returns : c.isReturn last.mnemonic = false)
      (branches : c.isBranch last.mnemonic = false) :
      Exits c listing blocks k b (nextExits blocks k b .normal)

/-- A branch to an address of the listing enters the block that starts with the last instruction at
that address. -/
private theorem jump_enters {last : Instruction} (hlast : last ∈ listing)
    (hbranch : c.isBranch last.mnemonic = true) {address position : Nat}
    (hnames : last.target? = some address) (hat : LastAt listing address position) :
    ∃ target, StartsAt (split c listing).blocks target position ∧
      target.instructions.head? = listing[position]? ∧
      target.id = Block.idAt (blockHolding (leaders c listing) position) := by
  have hindex : targetIn (addressIndex listing) last = some position := by
    rw [targetIn, hnames, Option.bind_some, get?_addressIndex]
    exact hat
  have hjumps : position ∈ jumpTargets c (addressIndex listing) listing := by
    refine List.mem_filterMap.mpr ⟨last, ?_, hindex⟩
    exact List.mem_filter.mpr ⟨hlast, hbranch⟩
  obtain ⟨before, run, after, hruns, hposition, hcount⟩ :=
    exists_runs_of_mem_leaders (mem_leaders.mpr ⟨hat.lt, .inr (.inr hjumps)⟩)
  refine ⟨_, hposition ▸ startsAt_blockOf hruns, ?_, ?_⟩
  · have hne : run ≠ [] := ne_nil_of_mem_cut (leaders c listing) 0 listing run (by
      rw [← runs, hruns]
      exact List.mem_append_right _ List.mem_cons_self)
    obtain ⟨i, rest, rfl⟩ := List.exists_cons_of_ne_nil hne
    have hflat := flatten_runs c listing
    rw [hruns, List.flatten_append, List.flatten_cons] at hflat
    rw [← hflat, ← hposition, List.getElem?_append_right (Nat.le_refl _), Nat.sub_self]
    rfl
  · rw [← hcount]
    rfl

private theorem jumpExits_targetIn {k : Nat} {run : List Instruction} {last : Instruction}
    (hlast : last ∈ listing) (hbranch : c.isBranch last.mnemonic = true) (kind : EdgeKind) :
    JumpExits listing (split c listing).blocks (blockOf (split c listing).edges k run) last kind
      (((targetIn (addressIndex listing) last).map fun position ↦
        Block.idAt (blockHolding (leaders c listing) position)).toList.map
          fun target ↦ ⟨Block.idAt k, target, kind⟩) := by
  cases htarget : targetIn (addressIndex listing) last with
  | none =>
    refine .missing fun address hnames i hi haddress ↦ ?_
    rw [targetIn, hnames, Option.bind_some, addressIndex, Table.get?_eq_none_iff,
      Table.mem_keys_ofList] at htarget
    obtain ⟨q, hq⟩ := List.getElem?_of_mem hi
    apply htarget
    refine List.mem_map.mpr ⟨(address, q), List.mem_filterMap.mpr ⟨(i, q), ?_, ?_⟩, rfl⟩
    · exact List.mem_zipIdx_iff_getElem?.mpr hq
    · simp [haddress]
  | some position =>
    obtain ⟨address, hnames, hget⟩ := Option.bind_eq_some_iff.mp htarget
    have hat := get?_addressIndex.mp hget
    obtain ⟨target, hstarts, hhead, hid⟩ := jump_enters hlast hbranch hnames hat
    have hexit : JumpExits listing (split c listing).blocks
        (blockOf (split c listing).edges k run) last kind [⟨Block.idAt k, target.id, kind⟩] :=
      .found hnames hat hstarts hhead
    rw [hid] at hexit
    exact hexit

private theorem nextExits_split {k : Nat} {run : List Instruction} (kind : EdgeKind) :
    nextExits (split c listing).blocks k (blockOf (split c listing).edges k run) kind =
      (if k + 1 < (runs c listing).length then some (Block.idAt (k + 1)) else none).toList.map
        fun next ↦ ⟨Block.idAt k, next, kind⟩ := by
  unfold nextExits
  split
  · next hlt =>
    rw [getElem?_blocks (List.getElem?_eq_getElem hlt)]
    rfl
  · next hout =>
    rw [List.getElem?_eq_none (by simpa [split, runs] using Nat.not_lt.mp hout)]
    rfl

/-- What leaves a block is what its last instruction dictates. -/
theorem exits_of_getElem?_blocks {k : Nat} {b : Block}
    (hb : (split c listing).blocks[k]? = some b) :
    ∃ es, (exitLists c listing)[k]? = some es ∧
      Exits c listing (split c listing).blocks k b es := by
  obtain ⟨hk, -⟩ := List.getElem?_eq_some_iff.mp hb
  have hk' : k < (runs c listing).length := by simpa [split, runs] using hk
  obtain ⟨run, hrun⟩ : ∃ run, (runs c listing)[k]? = some run := ⟨_, List.getElem?_eq_getElem hk'⟩
  rw [getElem?_blocks hrun] at hb
  cases hb
  have hmem : run ∈ runs c listing := List.mem_of_getElem? hrun
  have hne : run ≠ [] := ne_nil_of_mem_cut _ _ _ run hmem
  have hlast : (blockOf (split c listing).edges k run).last? = some (run.getLast hne) :=
    List.getLast?_eq_getLast_of_ne_nil hne
  refine ⟨_, by rw [exitLists, List.getElem?_map, List.getElem?_zipIdx, hrun]; rfl, ?_⟩
  have hin : run.getLast hne ∈ listing := by
    rw [← flatten_runs c listing]
    exact List.mem_flatten.mpr ⟨run, hmem, List.getLast_mem hne⟩
  simp only [List.getLast?_eq_getLast_of_ne_nil hne, exitsOf, Nat.zero_add]
  split
  · next hreturns => exact .returning hlast hreturns
  · next hreturns =>
    rw [Bool.not_eq_true] at hreturns
    split
    · next hbranches =>
      split
      · next hfalls =>
        rw [← nextExits_split]
        exact .conditional hlast hreturns hbranches hfalls (jumpExits_targetIn hin hbranches _)
      · next hfalls =>
        rw [Bool.not_eq_true] at hfalls
        exact .unconditional hlast hreturns hbranches hfalls (jumpExits_targetIn hin hbranches _)
    · next hbranches =>
      rw [Bool.not_eq_true] at hbranches
      rw [← nextExits_split]
      exact .plain hlast hreturns hbranches

private theorem mem_ids_of_getElem? {blocks : List Block} {k : Nat} {b : Block}
    (h : blocks[k]? = some b) : b.id ∈ blocks.map (·.id) :=
  List.mem_map_of_mem (List.mem_of_getElem? h)

private theorem JumpExits.ends {blocks : List Block} {b : Block} {last : Instruction}
    {kind : EdgeKind} {es : List Edge} (h : JumpExits listing blocks b last kind es) :
    ∀ e ∈ es, e.source = b.id ∧ e.target ∈ blocks.map (·.id) := by
  intro e he
  cases h with
  | found names lastAt starts head =>
    obtain ⟨k, hk, -⟩ := starts
    rw [List.mem_singleton.mp he]
    exact ⟨rfl, mem_ids_of_getElem? hk⟩
  | missing unknown => simp at he

private theorem nextExits_ends {blocks : List Block} {k : Nat} {b : Block} {kind : EdgeKind} :
    ∀ e ∈ nextExits blocks k b kind, e.source = b.id ∧ e.target ∈ blocks.map (·.id) := by
  intro e he
  obtain ⟨next, hnext, rfl⟩ := List.mem_map.mp he
  exact ⟨rfl, mem_ids_of_getElem? (Option.mem_toList.mp hnext)⟩

/-- What leaves a block ends at blocks. -/
theorem Exits.ends {blocks : List Block} {k : Nat} {b : Block} {es : List Edge}
    (h : Exits c listing blocks k b es) :
    ∀ e ∈ es, e.source = b.id ∧ e.target ∈ blocks.map (·.id) := by
  intro e he
  cases h with
  | returning _ _ => simp at he
  | conditional _ _ _ _ jumps =>
    rcases List.mem_append.mp he with he | he
    · exact jumps.ends e he
    · exact nextExits_ends e he
  | unconditional _ _ _ _ jumps => exact jumps.ends e he
  | plain _ _ _ => exact nextExits_ends e he

/-- Every edge is one of those that the last instruction of a block dictates. -/
theorem exists_exits_of_mem_edges {e : Edge} (he : e ∈ (split c listing).edges) :
    ∃ k b es, (split c listing).blocks[k]? = some b ∧
      Exits c listing (split c listing).blocks k b es ∧ e ∈ es := by
  rw [edges_split] at he
  obtain ⟨es, hes, he⟩ := List.mem_flatten.mp he
  obtain ⟨k, hk⟩ := List.getElem?_of_mem hes
  obtain ⟨hlt, -⟩ := List.getElem?_eq_some_iff.mp hk
  rw [length_exitLists] at hlt
  have hb := List.getElem?_eq_getElem hlt
  obtain ⟨es', hk', hexits⟩ := exits_of_getElem?_blocks hb
  rw [hk] at hk'
  cases hk'
  exact ⟨k, _, es, hb, hexits, he⟩

/-- Both ends of every edge are blocks. -/
theorem ends_split {e : Edge} (he : e ∈ (split c listing).edges) :
    e.source ∈ (split c listing).ids ∧ e.target ∈ (split c listing).ids := by
  obtain ⟨k, b, es, hb, hexits, he⟩ := exists_exits_of_mem_edges he
  obtain ⟨hsource, htarget⟩ := hexits.ends e he
  exact ⟨hsource ▸ mem_ids_of_getElem? hb, htarget⟩

/-- The edges of a listing are those that the last instructions of its blocks dictate, in block
order. -/
theorem exists_exits_split (c : Classifier) (listing : List Instruction) :
    ∃ exits : List (List Edge), (split c listing).edges = exits.flatten ∧
      exits.length = (split c listing).blocks.length ∧
      ∀ k b, (split c listing).blocks[k]? = some b →
        ∃ es, exits[k]? = some es ∧ Exits c listing (split c listing).blocks k b es :=
  ⟨exitLists c listing, edges_split c listing, length_exitLists c listing,
    fun _ _ hb ↦ exits_of_getElem?_blocks hb⟩

/-! ### Entry and successors -/

/-- A listing with instructions is entered. -/
theorem isSome_entry?_split (h : listing ≠ []) : (Graph.entry? (split c listing)).isSome := by
  have hne : runs c listing ≠ [] := by
    intro hnil
    apply h
    rw [← flatten_runs c listing, hnil, List.flatten_nil]
  obtain ⟨run, rest, hruns⟩ := List.exists_cons_of_ne_nil hne
  have hget : (runs c listing)[0]? = some run := by rw [hruns]; rfl
  rw [Graph.entry?, List.find?_isSome]
  exact ⟨_, List.mem_of_getElem? (getElem?_blocks hget), rfl⟩

/-- The successors that a block lists are where its edges lead. -/
theorem mem_successors_split {block : Block} (h : block ∈ (split c listing).blocks)
    {b : String} : b ∈ block.successors ↔
      ∃ e ∈ (split c listing).edges, e.source = block.id ∧ e.target = b := by
  obtain ⟨⟨run, k⟩, _, rfl⟩ := List.mem_map.mp h
  simp only [blockOf, Block.withAddresses, mem_distinct, List.mem_map, List.mem_filter,
    beq_iff_eq, and_assoc]
  rfl

/-- The predecessors of a block are where its edges come from. -/
theorem mem_predecessors_split {block : Block} (h : block ∈ (split c listing).blocks)
    {a : String} : a ∈ block.predecessors ↔
      ∃ e ∈ (split c listing).edges, e.source = a ∧ e.target = block.id := by
  obtain ⟨⟨run, k⟩, _, rfl⟩ := List.mem_map.mp h
  simp only [blockOf, Block.withAddresses, mem_distinct, List.mem_map, List.mem_filter,
    beq_iff_eq]
  constructor
  · rintro ⟨e, ⟨he, htarget⟩, hsource⟩
    exact ⟨e, he, hsource, htarget⟩
  · rintro ⟨e, he, hsource, htarget⟩
    exact ⟨e, ⟨he, htarget⟩, hsource⟩

/-- The successors of a node are where its edges lead. -/
theorem mem_successorsOf_split {a b : String} :
    b ∈ (split c listing).successorsOf a ↔
      ∃ e ∈ (split c listing).edges, e.source = a ∧ e.target = b := by
  simp only [Graph.successorsOf, List.mem_flatMap, List.mem_filter, beq_iff_eq]
  constructor
  · rintro ⟨block, ⟨hblock, rfl⟩, hb, -⟩
    exact (mem_successors_split hblock).mp hb
  · rintro ⟨e, he, rfl, rfl⟩
    obtain ⟨hsource, htarget⟩ := ends_split he
    obtain ⟨block, hblock, hid⟩ := List.mem_map.mp hsource
    refine ⟨block, ⟨hblock, hid⟩, ?_, ?_⟩
    · exact (mem_successors_split hblock).mpr ⟨e, he, hid.symm, rfl⟩
    · exact (Graph.contains_iff _ _).mpr htarget

/-- The graph of a listing is consistent. -/
theorem isConsistent_split (c : Classifier) (listing : List Instruction) :
    (split c listing).IsConsistent where
  ends _ he := ends_split he
  mem_successorsOf := mem_successorsOf_split

end Listing

end FlowChart
