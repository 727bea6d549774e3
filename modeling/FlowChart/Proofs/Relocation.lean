import FlowChart.Proofs.Builds
import FlowChart.Proofs.Graph.AddressOrder
import FlowChart.Proofs.Layout.Outlined
import FlowChart.Proofs.Layout.Ranks

/-!
# Relocation

A listing is relocated when all addresses, and all addresses that operands name, are moved by one
distance. The two listings are cut alike, since the same operands name the same instructions; their
blocks keep their order, since all of them are moved alike; and nothing else of an address has a part
in a build. So both builds come to the same end.
-/

namespace FlowChart

/-- The second of two instructions is the first one with its address, and the address that its
operands name, moved by a distance. -/
structure Instruction.Relocated (distance : Nat) (i j : Instruction) : Prop where
  /-- The operation is the same. -/
  opcode : j.opcode = i.opcode
  /-- Both texts denote addresses, the second one further by the distance. -/
  address : ∃ address, i.address? = some address ∧ j.address? = some (address + distance)
  /-- Both operand texts name addresses, the second one further by the distance, or neither does. -/
  target : j.target? = i.target?.map (· + distance)

/-- The second of two blocks is the first one moved by a distance. -/
structure Block.Relocated (distance : Nat) (a b : Block) : Prop where
  /-- They have one outline. -/
  alike : a.Alike b
  /-- The second one is ordered by an address that is further by the distance. -/
  sortAddress : b.sortAddress = a.sortAddress + distance

/-- The second of two graphs is the first one with its blocks moved by a distance. -/
structure Graph.Relocated (distance : Nat) (g g' : Graph) : Prop where
  /-- The blocks are moved. -/
  blocks : List.Forall₂ (Block.Relocated distance) g.blocks g'.blocks
  /-- The edges are the same. -/
  edges : g'.edges = g.edges

/-! ### Graphs -/

/-- A part of a block is moved as the block is. -/
theorem Block.Relocated.restrict {distance : Nat} {a b : Block} (h : a.Relocated distance b)
    (keep : String → Bool) : (a.restrict keep).Relocated distance (b.restrict keep) where
  alike := by
    simp only [Alike, outline, Block.restrict, h.alike.index, h.alike.id, h.alike.size,
      h.alike.successors, h.alike.predecessors, h.alike.isEntry]
  sortAddress := h.sortAddress

namespace Graph.Relocated

variable {distance : Nat} {g g' : Graph}

/-- Moving blocks leaves the outline. -/
theorem outline (h : g.Relocated distance g') : g'.outline = g.outline := by
  rw [Graph.outline, Graph.outline, h.edges,
    map_eq_of_forall₂ (fun _ _ hb ↦ hb.alike) h.blocks]

/-- Moving all blocks by one distance leaves their order. -/
theorem ranks (h : g.Relocated distance g') : g'.ranks = g.ranks := by
  have hsame : ∀ m n : Nat, (m + distance == n + distance) = (m == n) := by simp
  apply ranks_eq_of_forall₂ (fun _ _ hb ↦ hb.alike.id) _ h.blocks
  intro a b a' b' hb hb'
  simp only [addressLe, hb.sortAddress, hb'.sortAddress, hb.alike.index, hb'.alike.index,
    Nat.add_lt_add_iff_right, hsame]

/-- Moving blocks leaves the chart. -/
theorem ofGraph_eq {α : Type} [Scalar α] (h : g.Relocated distance g') (canvasWidth : Option α)
    (config : Config α) :
    Chart.ofGraph g' canvasWidth config = Chart.ofGraph g canvasWidth config :=
  Chart.ofGraph_congr h.outline h.ranks canvasWidth config

/-- Parts of graphs within one set of ids are moved as the graphs are. -/
theorem restrict (h : g.Relocated distance g') (keep : String → Bool) :
    (g.restrict keep).Relocated distance (g'.restrict keep) where
  blocks := by
    have hkept : List.Forall₂ (Block.Relocated distance) (g.blocks.filter fun b ↦ keep b.id)
        (g'.blocks.filter fun b ↦ keep b.id) :=
      forall₂_filter (fun _ _ hb ↦ by rw [hb.alike.id]) h.blocks
    rw [Graph.restrict, Graph.restrict, List.forall₂_map_left_iff, List.forall₂_map_right_iff]
    exact hkept.imp fun _ _ hb ↦ hb.restrict keep
  edges := by
    rw [Graph.restrict, Graph.restrict, h.edges]

/-- Moving blocks leaves which of them can be reached. -/
theorem prune (h : g.Relocated distance g') :
    g.prune.graph.Relocated distance g'.prune.graph ∧ g'.prune.entry = g.prune.entry ∧
      g'.prune.removed = g.prune.removed := by
  have hreached : g'.reachableFrom = g.reachableFrom := by
    funext id
    rw [reachableFrom, successorsOf_congr h.outline, length_blocks_congr h.outline, reachableFrom]
  have hentry := rel_entry? h.outline
  unfold Graph.prune
  generalize g.entry? = entry at hentry
  generalize g'.entry? = entry' at hentry
  cases hentry with
  | none => exact ⟨⟨.nil, rfl⟩, rfl, ids_congr h.outline⟩
  | some hb =>
    dsimp only
    rw [hb.id, hreached, ids_congr h.outline]
    exact ⟨h.restrict _, rfl, rfl⟩

end Graph.Relocated

/-! ### Listings -/

namespace Listing

variable {c : Classifier} {distance : Nat} {listing listing' : List Instruction}

/-- Relocated instructions play the same roles, and their addresses are moved. -/
theorem corresponds_of_relocated {i j : Instruction} (h : i.Relocated distance j) :
    Corresponds c distance i j := by
  have hmnemonic : j.mnemonic = i.mnemonic := by
    rw [Instruction.mnemonic, h.opcode, Instruction.mnemonic]
  obtain ⟨address, hi, hj⟩ := h.address
  constructor
  · rw [hmnemonic]
  · rw [hmnemonic]
  · rw [hmnemonic]
  · rw [hi, hj, Option.map_some]
  · exact h.target

/-- A block that starts with a relocated instruction is ordered by the moved address. -/
private theorem sortAddress_of_relocated {a b : Block} (hid : Block.idAddress? a.id = none)
    (halike : a.Alike b) (hne : a.instructions ≠ [])
    (h : List.Forall₂ (Instruction.Relocated distance) a.instructions b.instructions) :
    b.sortAddress = a.sortAddress + distance := by
  rw [Block.sortAddress, Block.sortAddress, halike.id, hid]
  have hhead := rel_head? h
  have hsome : a.instructions.head?.isSome := List.isSome_head?.mpr hne
  generalize a.instructions.head? = first at hhead hsome
  generalize b.instructions.head? = first' at hhead
  cases hhead with
  | none => cases hsome
  | some hij =>
    obtain ⟨address, hi, hj⟩ := hij.address
    simp [hi, hj]

/-- The graph of a relocated listing is moved. -/
theorem relocated_split (h : List.Forall₂ (Instruction.Relocated distance) listing listing') :
    (split c listing).Relocated distance (split c listing') := by
  have hcorresponds : List.Forall₂ (Corresponds c distance) listing listing' :=
    h.imp fun _ _ hij ↦ corresponds_of_relocated hij
  have houtline := outline_split hcorresponds
  have hruns : List.Forall₂ (List.Forall₂ (Instruction.Relocated distance))
      ((split c listing).blocks.map (·.instructions))
      ((split c listing').blocks.map (·.instructions)) := by
    rw [map_instructions_split, map_instructions_split, runs, runs,
      leaders_of_corresponds hcorresponds]
    exact forall₂_cut h _ 0
  rw [List.forall₂_map_left_iff, List.forall₂_map_right_iff] at hruns
  constructor
  · have hmember : ∀ a ∈ (split c listing).blocks, Block.idAddress? a.id = none ∧
        a.instructions ≠ [] := fun a ha ↦
      ⟨idAddress?_of_mem_blocks ha, instructions_ne_nil_of_mem_blocks ha⟩
    have hboth := (List.forall₂_and_left _ _).mpr ⟨hmember, hruns⟩
    refine List.Forall₂.mp ?_ (Graph.forall₂_alike houtline) hboth
    rintro a b halike ⟨⟨hid, hne⟩, hrun⟩
    exact ⟨halike, sortAddress_of_relocated hid halike hne hrun⟩
  · exact Graph.edges_congr houtline

end Listing

/-! ### Builds -/

namespace Build

variable {α : Type} [Scalar α]

/-- Two builds have come to the same end: they differ at most in the texts of instructions. -/
structure Agrees (b b' : Build α) : Prop where
  /-- Both are done, or both have failed. -/
  status : b'.status = b.status
  /-- The graphs have one outline. -/
  outline : b'.graph.outline = b.graph.outline
  /-- The charts are the same. -/
  chart : b'.chart = b.chart
  /-- The same blocks were dropped. -/
  removed : b'.removed = b.removed
  /-- Both were rejected for the same reason, or neither was. -/
  error : b'.error = b.error

omit [Scalar α] in
private theorem Agrees.refl (b : Build α) : b.Agrees b := ⟨rfl, rfl, rfl, rfl, rfl⟩

/-- The build of a graph with its blocks moved comes to the same end. -/
theorem exists_ofGraph_agrees {distance : Nat} {g g' : Graph} (hg : g.IsConsistent) {entry : Block}
    (hentry : g.entry? = some entry) (h : g.Relocated distance g') (canvasWidth : Option α)
    (config : Config α) :
    ∃ b b' : Build α, (ofGraph g canvasWidth config).outcome = .ok b ∧
      (ofGraph g' canvasWidth config).outcome = .ok b' ∧ b.Agrees b' := by
  obtain ⟨hrelocated, hid', hremoved⟩ := h.prune
  have hpart := Graph.isReachablePart_prune hg hentry
  obtain ⟨id, hid⟩ := Option.isSome_iff_exists.mp hpart.entry.1
  obtain ⟨entry', hentry'⟩ := Option.isSome_iff_exists.mp hpart.entry.2
  obtain ⟨chart, hchart, -⟩ := Chart.succeeds_ofGraph hentry' canvasWidth config
  have hchart' := (hrelocated.ofGraph_eq canvasWidth config).trans hchart
  exact ⟨_, _, outcome_ofGraph hid hchart, outcome_ofGraph (hid'.trans hid) hchart', rfl,
    hrelocated.outline, rfl, hremoved, rfl⟩

/-- The build of a relocated listing comes to the same end. -/
theorem exists_ofListing_agrees (architecture : Architecture) (registry : Registry)
    (canvasWidth : Option α) (config : Config α) {distance : Nat}
    {listing listing' : List Instruction}
    (h : List.Forall₂ (Instruction.Relocated distance) listing listing') :
    ∃ b b' : Build α,
      (ofListing architecture registry canvasWidth config listing).outcome = .ok b ∧
        (ofListing architecture registry canvasWidth config listing').outcome = .ok b' ∧
          b.Agrees b' := by
  by_cases hne : listing = []
  · subst hne
    obtain rfl := List.forall₂_nil_left_iff.mp h
    exact ⟨_, _, outcome_ofListing rfl rfl, outcome_ofListing rfl rfl, .refl _⟩
  · have hne' : listing' ≠ [] := by
      rintro rfl
      exact hne (List.forall₂_nil_right_iff.mp h)
    have hsplit : ∀ xs : List Instruction, xs ≠ [] → Listing.splitFor architecture registry xs =
        (architecture.resolve registry).map fun c ↦ Listing.split c xs := fun xs hxs ↦
      if_neg (mt List.isEmpty_iff.mp hxs)
    cases hresolve : architecture.resolve registry with
    | error unknown =>
      rw [hresolve] at hsplit
      exact ⟨_, _, outcome_ofListing_of_unknown (hsplit _ hne),
        outcome_ofListing_of_unknown (hsplit _ hne'), .refl _⟩
    | ok c =>
      rw [hresolve] at hsplit
      obtain ⟨entry, hentry⟩ := Option.isSome_iff_exists.mp (Listing.isSome_entry?_split hne)
      obtain ⟨b, b', hb, hb', hagrees⟩ := exists_ofGraph_agrees
        (Listing.isConsistent_split c listing) hentry (Listing.relocated_split h) canvasWidth config
      exact ⟨b, b', outcome_ofListing (hsplit _ hne) hb, outcome_ofListing (hsplit _ hne') hb',
        hagrees⟩

/-- A loop moved by one page. -/
theorem exists_ofListing_agrees_loop :
    let listing : List Instruction := [⟨"0x0", "", "nop", "", .null⟩,
      ⟨"0x4", "", "jne", "0x0", .null⟩, ⟨"0x8", "", "ret", "", .null⟩]
    let listing' : List Instruction := [⟨"0x1000", "", "nop", "", .null⟩,
      ⟨"0x1004", "", "jne", "0x1000", .null⟩, ⟨"1008", "", "ret", "", .null⟩]
    List.Forall₂ (Instruction.Relocated 0x1000) listing listing' ∧
      ∃ b b' : Build Rat, (ofListing (.named "x86") .builtin none .standard listing).outcome = .ok b ∧
        (ofListing (.named "x86") .builtin none .standard listing').outcome = .ok b' ∧
          b.Agrees b' := by
  intro listing listing'
  have hrelocated : List.Forall₂ (Instruction.Relocated 0x1000) listing listing' :=
    .cons ⟨rfl, ⟨0, by decide, by decide⟩, by decide⟩
      (.cons ⟨rfl, ⟨4, by decide, by decide⟩, by decide⟩
        (.cons ⟨rfl, ⟨8, by decide, by decide⟩, by decide⟩ .nil))
  exact ⟨hrelocated, exists_ofListing_agrees _ _ none .standard hrelocated⟩

end Build

end FlowChart
