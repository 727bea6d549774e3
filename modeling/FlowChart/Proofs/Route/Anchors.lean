import FlowChart.Proofs.Number.Exact
import FlowChart.Proofs.Success
import FlowChart.Route.Anchor
import Mathlib.Algebra.Order.Field.Basic
import Mathlib.Data.List.Chain
import Mathlib.Data.List.Range
import Mathlib.Tactic.Ring

/-!
# Anchors

Offsets of anchors can always be found. In exact arithmetic the anchors of a block fan out around its
middle, in edge order and with one distance between neighbours. They never leave the block, however
many edges share it: the outermost ones are at most half of the room apart from the middle, and the
room is the width without a margin on each side.
-/

namespace FlowChart.Anchor

section Success

variable {α : Type} [Scalar α] (spacing margin : α)

private theorem succeeds_offset (width : Option α) (count position : Nat) :
    Succeeds (offset spacing margin width count position) fun _ ↦ True := by
  unfold offset
  split
  · exact .ok trivial
  · next h =>
    obtain ⟨d, hd⟩ := exists_step_eq_ok spacing margin width (not_lt.mp h)
    exact Succeeds.bind (p := fun _ ↦ True) ⟨d, hd, trivial⟩ fun _ _ ↦ .ok trivial

/-- The offsets of anchors are found, one for each end. -/
theorem succeeds_offsets (ends : List String) (widths : Option (Table String α)) :
    Succeeds (offsets ends spacing margin widths) fun os ↦ os.length = ends.length ∧
      ∀ {i id o}, ends[i]? = some id → os[i]? = some o →
        offset spacing margin (widths.bind (·.get? id)) (ends.count id) ((ends.take i).count id) =
          .ok o := by
  have heach : ∀ e ∈ ends.zipIdx, Succeeds
      (offset spacing margin (widths.bind (·.get? e.1)) (ends.count e.1)
        ((ends.take e.2).count e.1))
      fun o ↦ offset spacing margin (widths.bind (·.get? e.1)) (ends.count e.1)
        ((ends.take e.2).count e.1) = .ok o := by
    intro e _
    obtain ⟨o, ho, _⟩ := succeeds_offset spacing margin (widths.bind (·.get? e.1))
      (ends.count e.1) ((ends.take e.2).count e.1)
    exact ⟨o, ho, ho⟩
  apply (Succeeds.mapM heach).imp
  intro os hos
  obtain ⟨hlength, hget⟩ := List.forall₂_iff_get.mp hos
  rw [List.length_zipIdx] at hlength
  constructor
  · exact hlength.symm
  · intro i id o hid ho
    obtain ⟨hi, rfl⟩ := List.getElem?_eq_some_iff.mp ho
    obtain ⟨hi', rfl⟩ := List.getElem?_eq_some_iff.mp hid
    simpa using hget i (by simpa using hi') hi

/-- The offsets of both ends of all edges are found. -/
theorem succeeds_ofEdges (edges : List Edge) (widths : Option (Table String α)) :
    Succeeds (ofEdges edges spacing widths margin) fun os ↦
      offsets (edges.map (·.source)) spacing margin widths = .ok os.1 ∧
        offsets (edges.map (·.target)) spacing margin widths = .ok os.2 := by
  obtain ⟨sources, hsources, _⟩ := succeeds_offsets spacing margin (edges.map (·.source)) widths
  obtain ⟨targets, htargets, _⟩ := succeeds_offsets spacing margin (edges.map (·.target)) widths
  unfold ofEdges
  rw [hsources, htargets]
  exact .ok ⟨rfl, rfl⟩

end Success

/-! ### Where an anchor is -/

/-- The distance between neighbouring anchors of a block in exact arithmetic: the spacing, or less
if the room is too narrow for it. -/
def gapOf (spacing margin width : Rat) (count : Nat) : Rat :=
  min spacing (max (width - 2 * margin) 0 / ((count : Rat) - 1))

/-- The offset of the anchor at a position in exact arithmetic. -/
def placeOf (spacing margin width : Rat) (count position : Nat) : Rat :=
  ((position : Rat) - ((count : Rat) - 1) / 2) * gapOf spacing margin width count

section Places

variable {spacing margin width : Rat} {count position : Nat}

private theorem step_eq_gapOf (h : 2 ≤ count) :
    step spacing margin (some width) count = .ok (gapOf spacing margin width count) := by
  have hne : count - 1 ≠ 0 := by omega
  simp only [step, Scalar.share_of_ne_zero _ hne, bind, Except.bind, pure, Except.pure,
    Scalar.smaller_eq_min, Scalar.larger_eq_max]
  rw [gapOf, Nat.cast_pred (by omega)]
  norm_cast

/-- The anchor at a position is at its place. -/
theorem offset_eq_placeOf (h : position < count) :
    offset spacing margin (some width) count position =
      .ok (placeOf spacing margin width count position) := by
  unfold offset
  split
  · next hfew =>
    obtain rfl : count = 1 := by omega
    obtain rfl : position = 0 := by omega
    simp [placeOf]
  · next hmany =>
    rw [step_eq_gapOf (not_lt.mp hmany)]
    simp only [placeOf, bind, Except.bind, pure, Except.pure, Scalar.half_eq_div]
    rw [Nat.cast_pred (by omega)]

private theorem pred_nonneg (h : position < count) : (0 : Rat) ≤ (count : Rat) - 1 := by
  rw [sub_nonneg]
  exact_mod_cast (show 1 ≤ count by omega)

private theorem gapOf_nonneg (hspacing : 0 ≤ spacing) (h : position < count) :
    0 ≤ gapOf spacing margin width count :=
  le_min hspacing (div_nonneg (le_max_right _ _) (pred_nonneg h))

private theorem gapOf_pos (hspacing : 0 < spacing) (hroom : 2 * margin < width)
    (h : 2 ≤ count) : 0 < gapOf spacing margin width count := by
  have hcount : (0 : Rat) < (count : Rat) - 1 := by
    rw [sub_pos]
    exact_mod_cast h
  exact lt_min hspacing (div_pos (lt_max_of_lt_left (sub_pos.mpr hroom)) hcount)

/-- All gaps together fit into the room. -/
private theorem mul_gapOf_le (h : position < count) :
    ((count : Rat) - 1) * gapOf spacing margin width count ≤ max (width - 2 * margin) 0 := by
  rcases (pred_nonneg h).eq_or_lt with hzero | hpos
  · rw [← hzero, zero_mul]
    exact le_max_right _ _
  · calc ((count : Rat) - 1) * gapOf spacing margin width count
        ≤ ((count : Rat) - 1) * (max (width - 2 * margin) 0 / ((count : Rat) - 1)) :=
          mul_le_mul_of_nonneg_left (min_le_right _ _) hpos.le
      _ = max (width - 2 * margin) 0 := mul_div_cancel₀ _ hpos.ne'

/-- An anchor lies at most half of the room away from the middle of its block. -/
theorem abs_placeOf_le (hspacing : 0 ≤ spacing) (h : position < count) :
    |placeOf spacing margin width count position| ≤ max (width - 2 * margin) 0 / 2 := by
  have hnonneg : 0 ≤ gapOf spacing margin width count := gapOf_nonneg hspacing h
  have hfits : ((count : Rat) - 1) * gapOf spacing margin width count ≤
      max (width - 2 * margin) 0 := mul_gapOf_le h
  have hfirst : (0 : Rat) ≤ position := Nat.cast_nonneg position
  have hlast : (position : Rat) + 1 ≤ count := by exact_mod_cast h
  -- the outermost anchors lie half of all gaps away from the middle
  have houter : |(position : Rat) - ((count : Rat) - 1) / 2| ≤ ((count : Rat) - 1) / 2 := by
    rw [abs_le]
    constructor <;> linarith
  calc |placeOf spacing margin width count position|
      = |(position : Rat) - ((count : Rat) - 1) / 2| * gapOf spacing margin width count := by
        rw [placeOf, abs_mul, abs_of_nonneg hnonneg]
    _ ≤ ((count : Rat) - 1) / 2 * gapOf spacing margin width count :=
        mul_le_mul_of_nonneg_right houter hnonneg
    _ ≤ max (width - 2 * margin) 0 / 2 := by linarith

/-- Later anchors lie further right, if there is any room. -/
theorem placeOf_lt_placeOf (hspacing : 0 < spacing) (hroom : 2 * margin < width)
    {position' : Nat} (hlt : position < position') (h : position' < count) :
    placeOf spacing margin width count position < placeOf spacing margin width count position' := by
  have hpos := gapOf_pos hspacing hroom (show 2 ≤ count by omega)
  have hcast : (position : Rat) < position' := by exact_mod_cast hlt
  exact mul_lt_mul_of_pos_right (by linarith) hpos

/-- The anchor after another one lies a gap further right. -/
theorem placeOf_succ (spacing margin width : Rat) (count position : Nat) :
    placeOf spacing margin width count (position + 1) =
      placeOf spacing margin width count position + gapOf spacing margin width count := by
  unfold placeOf
  push_cast
  ring

/-- The anchors at the same distance from both ends lie at the same distance from the middle. -/
theorem placeOf_mirror (h : position < count) :
    placeOf spacing margin width count (count - 1 - position) =
      -placeOf spacing margin width count position := by
  have hcast : ((count - 1 - position : Nat) : Rat) = (count : Rat) - 1 - position := by
    rw [Nat.cast_sub (by omega), Nat.cast_pred (by omega)]
  unfold placeOf
  rw [hcast]
  ring

end Places

/-! ### The fan of a block -/

/-- The offsets, in edge order, of the edges that end at a block. -/
def offsetsOf (ends : List String) (os : List Rat) (id : String) : List Rat :=
  ((ends.zip os).filter fun e ↦ e.1 = id).map (·.2)

/-- Offsets that lie side by side around the middle of a block. -/
structure IsFan (spacing margin width : Rat) (count : Nat) (fan : List Rat) : Prop where
  /-- There is one offset for each edge. -/
  length : fan.length = count
  /-- The offsets are symmetric about the middle. -/
  symmetric : fan.reverse = fan.map fun o ↦ -o
  /-- Neighbours are one distance apart. -/
  spaced : fan.IsChain fun o o' ↦ o' = o + gapOf spacing margin width count
  /-- A single edge has its anchor in the middle. -/
  alone : count = 1 → fan = [0]
  /-- Later edges have their anchors further right, if there is any room. -/
  ascending : 0 < spacing → 2 * margin < width → fan.Pairwise (· < ·)
  /-- All anchors lie within the room. -/
  within : ∀ o ∈ fan, |o| ≤ max (width - 2 * margin) 0 / 2

variable {spacing margin width : Rat}

/-- The places of all anchors of a block are a fan. -/
theorem isFan_map_placeOf (hspacing : 0 ≤ spacing) (count : Nat) :
    IsFan spacing margin width count
      ((List.range count).map (placeOf spacing margin width count)) := by
  constructor
  · rw [List.length_map, List.length_range]
  · apply List.ext_getElem
    · simp
    · intro i hi _
      have hi : i < count := by simpa using hi
      simpa using placeOf_mirror hi
  · rw [List.isChain_map, List.isChain_range]
    intro position _
    exact placeOf_succ spacing margin width count position
  · rintro rfl
    simp [placeOf]
  · intro hpos hroom
    rw [List.pairwise_map]
    apply List.pairwise_lt_range.imp_of_mem
    intro position position' _ hmem hlt
    exact placeOf_lt_placeOf hpos hroom hlt (List.mem_range.mp hmem)
  · intro o ho
    obtain ⟨position, hmem, rfl⟩ := List.mem_map.mp ho
    exact abs_placeOf_le hspacing (List.mem_range.mp hmem)

private theorem count_take_lt {xs : List String} {i : Nat} {x : String} (h : xs[i]? = some x) :
    (xs.take i).count x < xs.count x := by
  obtain ⟨hi, hx⟩ := List.getElem?_eq_some_iff.mp h
  have hsplit : xs.take i ++ x :: xs.drop (i + 1) = xs := by
    rw [← hx, ← List.drop_eq_getElem_cons hi, List.take_append_drop]
  have hcount := congrArg (List.count x) hsplit
  rw [List.count_append, List.count_cons_self] at hcount
  omega

/-- If every edge of a block has the offset that belongs to the number of edges of the block before
it, the block has these offsets one after the other. -/
private theorem offsetsOf_eq_map {ends : List String} {os : List Rat} {id : String}
    {place : Nat → Rat} {before : Nat} (hlength : os.length = ends.length)
    (h : ∀ i, ends[i]? = some id → os[i]? = some (place (before + (ends.take i).count id))) :
    offsetsOf ends os id = (List.range' before (ends.count id)).map place := by
  induction ends generalizing os before with
  | nil => simp [offsetsOf]
  | cons x ends ih =>
    obtain ⟨o, os, rfl⟩ := List.exists_cons_of_length_eq_add_one hlength
    have hrest : os.length = ends.length := by simpa using hlength
    by_cases hx : x = id
    · have ho : o = place before := by simpa [hx] using h 0
      have hih : offsetsOf ends os id =
          (List.range' (before + 1) (ends.count id)).map place := ih hrest fun i hi ↦ by
        simpa [hx, Nat.add_assoc, Nat.add_comm 1] using h (i + 1) hi
      rw [hx, List.count_cons_self, List.range'_succ, List.map_cons, ← hih, ← ho]
      simp [offsetsOf]
    · have hih : offsetsOf ends os id =
          (List.range' before (ends.count id)).map place := ih hrest fun i hi ↦ by
        simpa [List.count_cons_of_ne hx] using h (i + 1) hi
      rw [List.count_cons_of_ne hx, ← hih]
      simp [offsetsOf, hx]

section Offsets

variable {ends : List String} {widths : Table String Rat} {os : List Rat} {id : String}
  (h : offsets ends spacing margin (some widths) = .ok os) (hw : widths.get? id = some width)
include h hw

/-- The anchor of an edge is at the place that follows from the edges before it that share its
block. -/
theorem getElem?_offsets {i : Nat} (hid : ends[i]? = some id) :
    os[i]? = some (placeOf spacing margin width (ends.count id) ((ends.take i).count id)) := by
  obtain ⟨hlength, hoffset⟩ := (succeeds_offsets spacing margin ends (some widths)).of_eq_ok h
  have hi : i < os.length := hlength ▸ (List.getElem?_eq_some_iff.mp hid).1
  have hplace := hoffset hid (List.getElem?_eq_getElem hi)
  rw [Option.bind_some, hw, offset_eq_placeOf (count_take_lt hid)] at hplace
  rw [List.getElem?_eq_getElem hi, Except.ok.inj hplace]

/-- The anchor at every position lies within the room of its block. -/
theorem abs_getD_offsets_le (hspacing : 0 ≤ spacing) {i : Nat} (hid : ends[i]? = some id) :
    |os[i]?.getD 0| ≤ max (width - 2 * margin) 0 / 2 := by
  rw [getElem?_offsets h hw hid]
  exact abs_placeOf_le hspacing (count_take_lt hid)

/-- Of two edges that share a block, the later one has its anchor further right. -/
theorem getD_offsets_lt (hspacing : 0 < spacing) (hroom : 2 * margin < width) {i j : Nat}
    (hlt : i < j) (hi : ends[i]? = some id) (hj : ends[j]? = some id) :
    os[i]?.getD 0 < os[j]?.getD 0 := by
  rw [getElem?_offsets h hw hi, getElem?_offsets h hw hj]
  apply placeOf_lt_placeOf hspacing hroom _ (count_take_lt hj)
  have hbefore : (ends.take j)[i]? = some id := by rw [List.getElem?_take_of_lt hlt, hi]
  have hcount := count_take_lt hbefore
  rwa [List.take_take, min_eq_left hlt.le] at hcount

/-- The offsets of the edges that share a block are a fan. -/
theorem isFan_offsetsOf (hspacing : 0 ≤ spacing) :
    IsFan spacing margin width (ends.count id) (offsetsOf ends os id) := by
  have hlength := ((succeeds_offsets spacing margin ends (some widths)).of_eq_ok h).1
  have hplaces : offsetsOf ends os id =
      (List.range' 0 (ends.count id)).map (placeOf spacing margin width (ends.count id)) :=
    offsetsOf_eq_map hlength fun i hid ↦ by rw [getElem?_offsets h hw hid, Nat.zero_add]
  rw [hplaces, ← List.range_eq_range']
  exact isFan_map_placeOf hspacing _

end Offsets

end FlowChart.Anchor
