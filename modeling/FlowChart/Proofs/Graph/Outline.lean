import FlowChart.Graph.Listing
import FlowChart.Proofs.Matching
import FlowChart.Proofs.Tables

/-!
# Outlines of graphs

The outline of a graph leaves out the texts of the instructions and keeps only how many of them each
block has. The outline of a listing's graph depends on the addresses and operands of the listing only
through the question which operands name which addresses, and on the operations only through their
roles: listings that agree in this, with all addresses moved by one distance, have one outline.
-/

namespace FlowChart

/-- What a block is apart from the texts of its instructions. -/
structure Block.Outline where
  /-- The position of the block. -/
  index : Int
  /-- The id of the block. -/
  id : String
  /-- The number of its instructions. -/
  size : Nat
  /-- The ids of the blocks that control passes to. -/
  successors : List String
  /-- The ids of the blocks that control comes from. -/
  predecessors : List String
  /-- Whether the function is entered here. -/
  isEntry : Bool
  /-- Whether the function is left here. -/
  isExit : Bool
  deriving Repr, DecidableEq

/-- The outline of a block. -/
def Block.outline (b : Block) : Block.Outline :=
  ⟨b.index, b.id, b.instructions.length, b.successors, b.predecessors, b.isEntry, b.isExit⟩

/-- What a graph is apart from the texts of its instructions. -/
structure Graph.Outline where
  /-- The outlines of the blocks. -/
  blocks : List Block.Outline
  /-- The edges. -/
  edges : List Edge
  deriving Repr, DecidableEq

/-- The outline of a graph. -/
def Graph.outline (g : Graph) : Graph.Outline := ⟨g.blocks.map (·.outline), g.edges⟩

namespace Listing

/-- Two instructions play the same roles, and the addresses that the second one has and names are
those of the first one, moved by a distance. -/
structure Corresponds (c : Classifier) (distance : Nat) (i j : Instruction) : Prop where
  /-- Both are branches, or neither is. -/
  isBranch : c.isBranch j.mnemonic = c.isBranch i.mnemonic
  /-- Both are returns, or neither is. -/
  isReturn : c.isReturn j.mnemonic = c.isReturn i.mnemonic
  /-- Both may fall through, or neither may. -/
  isConditional : c.isConditional j.mnemonic = c.isConditional i.mnemonic
  /-- The address is moved. -/
  address : j.address? = i.address?.map (· + distance)
  /-- The address that the operands name is moved. -/
  target : j.target? = i.target?.map (· + distance)

variable {c : Classifier} {distance : Nat} {listing listing' : List Instruction}

private theorem addressed_of_corresponds
    (h : List.Forall₂ (Corresponds c distance) listing listing') :
    addressed listing' = (addressed listing).map fun (address, position) ↦
      (address + distance, position) := by
  unfold addressed
  generalize (0 : Nat) = start
  induction h generalizing start with
  | nil => rfl
  | @cons i j _ _ hij _ ih =>
    rw [List.zipIdx_cons, List.zipIdx_cons, List.filterMap_cons, List.filterMap_cons, ih]
    dsimp only
    rw [hij.address]
    cases i.address? <;> rfl

/-- Addresses that are moved have the positions that they had. -/
theorem get?_addressIndex_of_corresponds
    (h : List.Forall₂ (Corresponds c distance) listing listing') (address : Nat) :
    (addressIndex listing').get? (address + distance) = (addressIndex listing).get? address := by
  rw [addressIndex, addressed_of_corresponds h]
  exact Table.get?_ofList_map (fun _ _ he ↦ Nat.add_right_cancel he) _ address

private theorem targetIn_of_corresponds
    (h : List.Forall₂ (Corresponds c distance) listing listing') {i j : Instruction}
    (hij : Corresponds c distance i j) :
    targetIn (addressIndex listing') j = targetIn (addressIndex listing) i := by
  rw [targetIn, targetIn, hij.target]
  cases i.target? with
  | none => rfl
  | some address => exact get?_addressIndex_of_corresponds h address

private theorem jumpTargets_of_corresponds
    (h : List.Forall₂ (Corresponds c distance) listing listing') :
    jumpTargets c (addressIndex listing') listing' =
      jumpTargets c (addressIndex listing) listing := by
  have htargets : ∀ {i j}, Corresponds c distance i j →
      targetIn (addressIndex listing') j = targetIn (addressIndex listing) i :=
    targetIn_of_corresponds h
  unfold jumpTargets
  generalize addressIndex listing = index at htargets
  generalize addressIndex listing' = index' at htargets
  induction h with
  | nil => rfl
  | cons hij _ ih =>
    rw [List.filter_cons, List.filter_cons, hij.isBranch]
    split
    · rw [List.filterMap_cons, List.filterMap_cons, htargets hij, ih]
    · exact ih

private theorem followsBranch_of_corresponds
    (h : List.Forall₂ (Corresponds c distance) listing listing') (position : Nat) :
    followsBranch c listing' position = followsBranch c listing position := by
  cases position with
  | zero => rfl
  | succ position =>
    have hroles : listing'.map (fun i ↦ c.isBranch i.mnemonic) =
        listing.map fun i ↦ c.isBranch i.mnemonic :=
      map_eq_of_forall₂ (fun _ _ hij ↦ hij.isBranch) h
    rw [followsBranch, followsBranch, ← List.getElem?_map, ← List.getElem?_map, hroles]

/-- Blocks start at the same positions. -/
theorem leaders_of_corresponds (h : List.Forall₂ (Corresponds c distance) listing listing') :
    leaders c listing' = leaders c listing := by
  unfold leaders
  rw [jumpTargets_of_corresponds h, ← h.length_eq]
  simp only [followsBranch_of_corresponds h]

/-- Lists that are matched stay so when both are cut in the same places. -/
theorem forall₂_cut {α β : Type} {r : α → β → Prop} {xs : List α} {ys : List β}
    (h : List.Forall₂ r xs ys) (starts : List Nat) (position : Nat) :
    List.Forall₂ (List.Forall₂ r) (cut starts position xs) (cut starts position ys) := by
  induction h generalizing position with
  | nil => exact .nil
  | cons hxy _ ih =>
    have hrest := ih (position + 1)
    rw [cut, cut]
    generalize cut starts (position + 1) _ = runs at hrest
    generalize cut starts (position + 1) _ = runs' at hrest
    cases hrest with
    | nil => exact .cons (.cons hxy .nil) .nil
    | cons hrun hruns =>
      dsimp only
      split
      · exact .cons (.cons hxy .nil) (.cons hrun hruns)
      · exact .cons (.cons hxy hrun) hruns

private theorem edgesOf_of_corresponds {index index' : Table Nat Nat}
    (htargets : ∀ {i j}, Corresponds c distance i j → targetIn index' j = targetIn index i)
    (starts : List Nat) {runs runs' : List (List Instruction)}
    (h : List.Forall₂ (List.Forall₂ (Corresponds c distance)) runs runs') :
    edgesOf c starts index' runs' = edgesOf c starts index runs := by
  unfold edgesOf
  rw [← h.length_eq, List.flatMap_def, List.flatMap_def]
  refine congrArg List.flatten (map_eq_of_forall₂ ?_ (forall₂_zipIdx h 0))
  rintro ⟨run, k⟩ ⟨run', k'⟩ ⟨hrun, rfl⟩
  dsimp only at hrun ⊢
  have hlast := rel_getLast? hrun
  generalize run.getLast? = last at hlast
  generalize run'.getLast? = last' at hlast
  cases hlast with
  | none => rfl
  | some hlast =>
    dsimp only
    rw [htargets hlast, exitsOf, exitsOf, hlast.isReturn, hlast.isBranch, hlast.isConditional]

/-- Corresponding listings have graphs with one outline. -/
theorem outline_split (h : List.Forall₂ (Corresponds c distance) listing listing') :
    (split c listing').outline = (split c listing).outline := by
  have hruns : List.Forall₂ (List.Forall₂ (Corresponds c distance))
      (cut (leaders c listing) 0 listing) (cut (leaders c listing') 0 listing') := by
    rw [leaders_of_corresponds h]
    exact forall₂_cut h _ 0
  have hedges : (split c listing').edges = (split c listing).edges := by
    simp only [split]
    rw [leaders_of_corresponds h] at hruns ⊢
    exact edgesOf_of_corresponds (targetIn_of_corresponds h) _ hruns
  have hblocks : (split c listing').blocks.map (·.outline) =
      (split c listing).blocks.map (·.outline) := by
    simp only [split, List.map_map] at hedges ⊢
    rw [hedges]
    refine map_eq_of_forall₂ ?_ (forall₂_zipIdx hruns 0)
    rintro ⟨run, k⟩ ⟨run', k'⟩ ⟨hrun, rfl⟩
    have hlength : run.length = run'.length := List.Forall₂.length_eq hrun
    simp only [Function.comp_apply, Block.outline, blockOf, Block.withAddresses, hlength]
  rw [Graph.outline, Graph.outline, hblocks, hedges]

end Listing

end FlowChart
