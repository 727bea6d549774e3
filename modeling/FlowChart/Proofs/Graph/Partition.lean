import FlowChart.Proofs.Graph.Splitting

/-!
# Blocks partition a listing

The blocks of a listing are what it is cut into: none of them is empty, their instructions in block
order are those of the listing, and they are numbered from zero on, in their positions as well as in
their ids. The function is entered at the first block and nowhere else.
-/

namespace FlowChart

/-- The blocks of a graph are the pieces of a listing that has instructions. -/
structure Graph.IsPartition (g : Graph) (listing : List Instruction) : Prop where
  /-- No block is empty. -/
  ne_nil : ∀ b ∈ g.blocks, b.instructions ≠ []
  /-- The instructions of the blocks, in block order, are those of the listing. -/
  flatten : (g.blocks.map (·.instructions)).flatten = listing
  /-- Blocks carry their positions. -/
  index : ∀ (k : Nat) (b : Block), g.blocks[k]? = some b → b.index = k
  /-- Ids are numbered by position. -/
  id : ∀ (k : Nat) (b : Block), g.blocks[k]? = some b → b.id = "block_" ++ toString k
  /-- No two blocks have one id. -/
  nodup : g.ids.Nodup
  /-- The first block is entered, no other one is, and it starts with the first instruction. -/
  entry : ∃ first others, g.blocks = first :: others ∧ first.isEntry = true ∧
    (∀ b ∈ others, b.isEntry = false) ∧ first.instructions.head? = listing.head?

namespace Listing

variable {c : Classifier} {listing : List Instruction}

/-- A block is that of the run at its position. -/
theorem exists_run_of_getElem?_blocks {k : Nat} {b : Block}
    (h : (split c listing).blocks[k]? = some b) :
    ∃ run, (runs c listing)[k]? = some run ∧ b = blockOf (split c listing).edges k run := by
  obtain ⟨hlt, -⟩ := List.getElem?_eq_some_iff.mp h
  have hlt' : k < (runs c listing).length := by simpa [split, runs] using hlt
  have hrun := List.getElem?_eq_getElem hlt'
  rw [getElem?_blocks hrun] at h
  exact ⟨_, hrun, (Option.some.inj h).symm⟩

/-- No block of a listing is empty. -/
theorem instructions_ne_nil_of_mem_blocks {b : Block} (h : b ∈ (split c listing).blocks) :
    b.instructions ≠ [] := by
  have hrun : b.instructions ∈ runs c listing := by
    rw [← map_instructions_split]
    exact List.mem_map_of_mem h
  exact ne_nil_of_mem_cut _ _ _ _ hrun

/-- A block carries its position. -/
theorem index_of_getElem?_blocks {k : Nat} {b : Block}
    (h : (split c listing).blocks[k]? = some b) : b.index = k := by
  obtain ⟨run, -, rfl⟩ := exists_run_of_getElem?_blocks h
  rfl

/-- Only the first block is entered. -/
theorem isEntry_of_getElem?_blocks {k : Nat} {b : Block}
    (h : (split c listing).blocks[k]? = some b) : b.isEntry = (k == 0) := by
  obtain ⟨run, -, rfl⟩ := exists_run_of_getElem?_blocks h
  rfl

/-- The blocks of a listing that has instructions partition it. -/
theorem isPartition_split (c : Classifier) {listing : List Instruction} (h : listing ≠ []) :
    (split c listing).IsPartition listing where
  ne_nil _ := instructions_ne_nil_of_mem_blocks
  flatten := by rw [map_instructions_split, runs, flatten_cut]
  index _ _ := index_of_getElem?_blocks
  id k b hb := by
    obtain ⟨run, -, rfl⟩ := exists_run_of_getElem?_blocks hb
    rfl
  nodup := nodup_ids_split c listing
  entry := by
    have hinstructions := instructions_split c listing
    cases hblocks : (split c listing).blocks with
    | nil =>
      rw [Graph.instructions, hblocks] at hinstructions
      exact absurd hinstructions.symm h
    | cons first others =>
      have hget : ∀ k : Nat, (split c listing).blocks[k]? = (first :: others)[k]? := fun k ↦ by
        rw [hblocks]
      refine ⟨first, others, rfl, isEntry_of_getElem?_blocks (hget 0), ?_, ?_⟩
      · intro b hb
        obtain ⟨k, hk⟩ := List.getElem?_of_mem hb
        exact isEntry_of_getElem?_blocks ((hget (k + 1)).trans hk)
      · have hne : first.instructions ≠ [] :=
          instructions_ne_nil_of_mem_blocks (hblocks ▸ List.mem_cons_self)
        rw [← hinstructions, Graph.instructions, hblocks, List.flatMap_cons,
          List.head?_append_of_ne_nil _ hne]

/-- A loop whose branch jumps to the instruction that follows it, and ends the listing. -/
theorem isPartition_split_loop :
    let listing : List Instruction := [⟨"0x0", "", "jne", "0x4", .null⟩,
      ⟨"0x4", "", "nop", "", .null⟩, ⟨"0x8", "", "jmp", "0x0", .null⟩]
    listing ≠ [] ∧ (split .x86 listing).IsPartition listing :=
  ⟨List.cons_ne_nil _ _, isPartition_split .x86 (List.cons_ne_nil _ _)⟩

end Listing

end FlowChart
