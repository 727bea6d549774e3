import FlowChart.Proofs.Graph.Partition
import Mathlib.Data.List.Sort

/-!
# Where blocks start

Apart from the first one, a block starts exactly after a branch and where a branch jumps to. So a
branch is always the last instruction of its block, and jumps lead to first instructions only.
Blocks are as long as they can be: they are the longest stretches of a listing of this kind.
-/

namespace FlowChart.Listing

/-- The instruction at a position is a branch. -/
def BranchAt (c : Classifier) (listing : List Instruction) (position : Nat) : Prop :=
  ∃ i, listing[position]? = some i ∧ c.isBranch i.mnemonic = true

/-- The operands of some branch name an address that stands for a position. -/
def TargetAt (c : Classifier) (listing : List Instruction) (position : Nat) : Prop :=
  ∃ i ∈ listing, c.isBranch i.mnemonic = true ∧
    ∃ address, i.target? = some address ∧ (addressIndex listing).get? address = some position

/-- A stretch of a listing, from a position up to another one, that no branch leaves or enters on
the way. -/
structure IsUnbroken (c : Classifier) (listing : List Instruction) (first stop : Nat) : Prop where
  /-- It has instructions. -/
  lt : first < stop
  /-- It ends within the listing. -/
  le : stop ≤ listing.length
  /-- None of its instructions but the last one is a branch. -/
  branches : ∀ p, first ≤ p → p + 1 < stop → ¬ BranchAt c listing p
  /-- None of its instructions but the first one is jumped to. -/
  targets : ∀ p, first < p → p < stop → ¬ TargetAt c listing p

/-- An unbroken stretch that is no part of a longer one. -/
structure IsLongest (c : Classifier) (listing : List Instruction) (first stop : Nat) : Prop where
  /-- The stretch is unbroken. -/
  unbroken : IsUnbroken c listing first stop
  /-- No other unbroken stretch contains it. -/
  eq : ∀ first' stop', IsUnbroken c listing first' stop' → first' ≤ first → stop ≤ stop' →
    first' = first ∧ stop' = stop

/-- Some blocks are the longest unbroken stretches of a listing. -/
structure AreBasicBlocks (c : Classifier) (listing : List Instruction) (blocks : List Block) :
    Prop where
  /-- Of the positions after the first one, a block starts at those that follow a branch or are
  jumped to. -/
  starts : ∀ p, p + 1 < listing.length →
    ((∃ b, StartsAt blocks b (p + 1)) ↔ BranchAt c listing p ∨ TargetAt c listing (p + 1))
  /-- A branch is the last instruction of its block. -/
  branches : ∀ b ∈ blocks, ∀ i ∈ b.instructions.dropLast, c.isBranch i.mnemonic = false
  /-- What is jumped to is the first instruction of its block. -/
  targets : ∀ b first, StartsAt blocks b first → ∀ p, first < p →
    p < first + b.instructions.length → ¬ TargetAt c listing p
  /-- A stretch is that of a block exactly if it is a longest one. -/
  longest : ∀ first stop, (∃ b, StartsAt blocks b first ∧ first + b.instructions.length = stop) ↔
    IsLongest c listing first stop

variable {c : Classifier} {listing : List Instruction}

/-! ### Leaders -/

private theorem followsBranch_iff {p : Nat} :
    followsBranch c listing (p + 1) = true ↔ BranchAt c listing p := by
  rw [followsBranch, BranchAt]
  cases listing[p]? <;> simp

private theorem mem_jumpTargets_iff {p : Nat} :
    p ∈ jumpTargets c (addressIndex listing) listing ↔ TargetAt c listing p := by
  simp only [jumpTargets, TargetAt, targetIn, List.mem_filterMap, List.mem_filter,
    Option.bind_eq_some_iff, and_assoc]

/-- After the first position, a leader is what follows a branch or is jumped to. -/
theorem mem_leaders_succ {p : Nat} :
    p + 1 ∈ leaders c listing ↔
      p + 1 < listing.length ∧ (BranchAt c listing p ∨ TargetAt c listing (p + 1)) := by
  rw [mem_leaders, followsBranch_iff, mem_jumpTargets_iff, or_iff_right (Nat.succ_ne_zero p)]

private theorem zero_mem_leaders (h : listing ≠ []) : 0 ∈ leaders c listing :=
  mem_leaders.mpr ⟨List.length_pos_iff.mpr h, .inl rfl⟩

/-- A stretch is unbroken if no leader but its first position is in it. -/
theorem isUnbroken_iff {first stop : Nat} :
    IsUnbroken c listing first stop ↔ first < stop ∧ stop ≤ listing.length ∧
      ∀ p ∈ leaders c listing, first < p → stop ≤ p := by
  constructor
  · intro h
    refine ⟨h.lt, h.le, fun p hp hfirst ↦ ?_⟩
    by_contra hstop
    cases p with
    | zero => omega
    | succ p =>
      rcases (mem_leaders_succ.mp hp).2 with hbranch | htarget
      · exact h.branches p (by omega) (by omega) hbranch
      · exact h.targets (p + 1) hfirst (by omega) htarget
  · rintro ⟨hlt, hle, hleaders⟩
    constructor
    · exact hlt
    · exact hle
    · intro p hfirst hstop hbranch
      have := hleaders (p + 1) (mem_leaders_succ.mpr ⟨by omega, .inl hbranch⟩) (by omega)
      omega
    · intro p hfirst hstop htarget
      obtain ⟨q, rfl⟩ := Nat.exists_eq_succ_of_ne_zero (show p ≠ 0 by omega)
      have := hleaders (q + 1) (mem_leaders_succ.mpr ⟨by omega, .inr htarget⟩) hfirst
      omega

/-! ### Starts and ends of blocks -/

/-- A block that starts at a position holds the run that comes after so many instructions. -/
theorem exists_runs_of_startsAt {b : Block} {position : Nat}
    (h : StartsAt (split c listing).blocks b position) :
    ∃ before after, runs c listing = before ++ b.instructions :: after ∧
      before.flatten.length = position := by
  obtain ⟨k, hk, hposition⟩ := h
  obtain ⟨run, hrun, hb⟩ := exists_run_of_getElem?_blocks hk
  obtain ⟨hlt, rfl⟩ := List.getElem?_eq_some_iff.mp hrun
  refine ⟨(runs c listing).take k, (runs c listing).drop (k + 1), ?_, ?_⟩
  · rw [hb]
    exact (List.take_append_drop k _).symm.trans
      (congrArg _ (List.drop_eq_getElem_cons hlt))
  · rw [← hposition, List.flatMap_def, List.map_take, map_instructions_split]

/-- Blocks start at leaders. -/
theorem exists_startsAt_iff {position : Nat} :
    (∃ b, StartsAt (split c listing).blocks b position) ↔ position ∈ leaders c listing := by
  constructor
  · rintro ⟨b, hb⟩
    obtain ⟨before, after, hruns, rfl⟩ := exists_runs_of_startsAt hb
    by_cases hnil : before = []
    · rw [hnil]
      apply zero_mem_leaders
      rintro rfl
      rw [hnil] at hruns
      cases hruns
    · have hstart := mem_starts_of_cut_eq listing hruns hnil
      rwa [Nat.zero_add] at hstart
  · intro h
    obtain ⟨before, run, after, hruns, rfl, -⟩ := exists_runs_of_mem_leaders h
    exact ⟨_, startsAt_blockOf hruns⟩

/-- Blocks start at the leaders, in order. -/
theorem startsFrom_runs (c : Classifier) (listing : List Instruction) :
    startsFrom 0 (runs c listing) = leaders c listing := by
  have hsorted : (leaders c listing).Pairwise (· < ·) := List.pairwise_lt_range.filter _
  refine (pairwise_startsFrom (ne_nil_of_mem_cut _ _ _) 0).eq_of_mem_iff hsorted fun p ↦ ?_
  rw [mem_startsFrom_iff, ← exists_startsAt_iff]
  constructor
  · rintro ⟨before, run, after, hruns, hp⟩
    rw [Nat.zero_add] at hp
    exact ⟨_, hp ▸ startsAt_blockOf hruns⟩
  · rintro ⟨b, hb⟩
    obtain ⟨before, after, hruns, hp⟩ := exists_runs_of_startsAt hb
    exact ⟨before, _, after, hruns, by rw [Nat.zero_add, hp]⟩

private theorem length_pos_of_startsAt {b : Block} {position : Nat}
    (h : StartsAt (split c listing).blocks b position) : 0 < b.instructions.length := by
  obtain ⟨k, hk, -⟩ := h
  exact List.length_pos_iff.mpr (instructions_ne_nil_of_mem_blocks (List.mem_of_getElem? hk))

/-- A block ends before any later one starts. -/
private theorem le_of_startsAt_of_lt {b b' : Block} {first first' : Nat}
    (h : StartsAt (split c listing).blocks b first)
    (h' : StartsAt (split c listing).blocks b' first') (hlt : first < first') :
    first + b.instructions.length ≤ first' := by
  obtain ⟨before, after, hruns, rfl⟩ := exists_runs_of_startsAt h
  obtain ⟨before', after', hruns', rfl⟩ := exists_runs_of_startsAt h'
  rw [hruns] at hruns'
  rcases List.append_eq_append_iff.mp hruns' with ⟨between, rfl, hrest⟩ | ⟨between, rfl, -⟩
  · cases between with
    | nil => simp at hlt
    | cons run between =>
      obtain ⟨rfl, -⟩ := List.cons.inj hrest
      simp only [List.flatten_append, List.flatten_cons, List.length_append]
      omega
  · rw [List.flatten_append, List.length_append] at hlt
    omega

/-- A block ends where the listing does or another one starts. -/
private theorem stop_of_startsAt {b : Block} {first : Nat}
    (h : StartsAt (split c listing).blocks b first) :
    first + b.instructions.length = listing.length ∨
      first + b.instructions.length < listing.length ∧
        first + b.instructions.length ∈ leaders c listing := by
  obtain ⟨before, after, hruns, rfl⟩ := exists_runs_of_startsAt h
  cases after with
  | nil =>
    left
    have hflatten := flatten_runs c listing
    rw [hruns, List.flatten_append, List.flatten_singleton] at hflatten
    rw [← hflatten, List.length_append]
  | cons next after =>
    right
    have hruns' : runs c listing = (before ++ [b.instructions]) ++ next :: after := by
      rw [hruns, List.append_assoc, List.singleton_append]
    have hlength : (before ++ [b.instructions]).flatten.length =
        before.flatten.length + b.instructions.length := by
      rw [List.flatten_append, List.flatten_singleton, List.length_append]
    have hleader := exists_startsAt_iff.mp ⟨_, hlength ▸ startsAt_blockOf hruns'⟩
    exact ⟨(mem_leaders.mp hleader).1, hleader⟩

/-- Every position is in a block. -/
private theorem exists_startsAt_of_lt {p : Nat} (h : p < listing.length) :
    ∃ b first, StartsAt (split c listing).blocks b first ∧ first ≤ p ∧
      p < first + b.instructions.length := by
  rw [← flatten_runs c listing] at h
  obtain ⟨before, run, after, hruns, hle, hlt⟩ := exists_part_of_lt h
  exact ⟨_, _, startsAt_blockOf hruns, hle, hlt⟩

/-! ### Longest stretches -/

/-- The stretch of a block is unbroken. -/
private theorem isUnbroken_of_startsAt {b : Block} {first : Nat}
    (h : StartsAt (split c listing).blocks b first) :
    IsUnbroken c listing first (first + b.instructions.length) := by
  have hpos := length_pos_of_startsAt h
  rw [isUnbroken_iff]
  refine ⟨by omega, ?_, fun p hp hfirst ↦ ?_⟩
  · rcases stop_of_startsAt h with hstop | ⟨hstop, -⟩
    · exact hstop.le
    · exact hstop.le
  · obtain ⟨b', hb'⟩ := exists_startsAt_iff.mpr hp
    exact le_of_startsAt_of_lt h hb' hfirst

/-- An unbroken stretch that begins in a block ends in it. -/
private theorem IsUnbroken.stop_le {b : Block} {first first' stop' : Nat}
    (h : IsUnbroken c listing first' stop') (hb : StartsAt (split c listing).blocks b first)
    (hlt : first' < first + b.instructions.length) : stop' ≤ first + b.instructions.length := by
  rcases stop_of_startsAt hb with hstop | ⟨-, hleader⟩
  · rw [hstop]
    exact h.le
  · exact (isUnbroken_iff.mp h).2.2 _ hleader hlt

/-- Blocks are the longest unbroken stretches. -/
private theorem startsAt_iff_isLongest {first stop : Nat} :
    (∃ b, StartsAt (split c listing).blocks b first ∧ first + b.instructions.length = stop) ↔
      IsLongest c listing first stop := by
  constructor
  · rintro ⟨b, hb, rfl⟩
    have hpos := length_pos_of_startsAt hb
    refine ⟨isUnbroken_of_startsAt hb, fun first' stop' h hle hstop ↦ ?_⟩
    have hstop' := h.stop_le hb (by omega)
    have hfirst : ¬ first' < first := by
      -- the block starts at a leader, which is on the way of a stretch that begins before it
      intro hlt
      have := (isUnbroken_iff.mp h).2.2 first (exists_startsAt_iff.mp ⟨b, hb⟩) hlt
      omega
    omega
  · intro h
    have hlt : first < listing.length := h.unbroken.lt.trans_le h.unbroken.le
    obtain ⟨b, first', hb, hle, hinside⟩ := exists_startsAt_of_lt (c := c) hlt
    obtain ⟨rfl, hstop⟩ := h.eq _ _ (isUnbroken_of_startsAt hb) hle (h.unbroken.stop_le hb hinside)
    exact ⟨b, hb, hstop⟩

/-- The instructions of a block are those of its stretch. -/
private theorem getElem?_of_startsAt {b : Block} {first j : Nat}
    (h : StartsAt (split c listing).blocks b first) (hj : j < b.instructions.length) :
    listing[first + j]? = b.instructions[j]? := by
  obtain ⟨before, after, hruns, rfl⟩ := exists_runs_of_startsAt h
  have hflatten := flatten_runs c listing
  rw [hruns, List.flatten_append, List.flatten_cons] at hflatten
  rw [← hflatten, List.getElem?_append_right (Nat.le_add_right _ _), Nat.add_sub_cancel_left,
    List.getElem?_append_left hj]

/-- The blocks of a listing are its longest stretches that no branch leaves or enters on the
way. -/
theorem areBasicBlocks_split (c : Classifier) (listing : List Instruction) :
    AreBasicBlocks c listing (split c listing).blocks where
  starts p hp := by
    rw [exists_startsAt_iff, mem_leaders_succ, and_iff_right hp]
  branches b hb i hi := by
    obtain ⟨k, hk⟩ := List.getElem?_of_mem hb
    obtain ⟨j, hj⟩ := List.getElem?_of_mem hi
    rw [List.getElem?_dropLast] at hj
    split at hj
    · next hlast =>
      have hstart : StartsAt (split c listing).blocks b _ := ⟨k, hk, rfl⟩
      have hunbroken := isUnbroken_of_startsAt hstart
      rw [← getElem?_of_startsAt hstart (by omega)] at hj
      have hbranch := hunbroken.branches _ (Nat.le_add_right _ j) (by omega)
      exact Bool.eq_false_iff.mpr fun htrue ↦ hbranch ⟨i, hj, htrue⟩
    · cases hj
  targets b first hb := (isUnbroken_of_startsAt hb).targets
  longest first stop := startsAt_iff_isLongest

/-- A jump to itself is a block of its own. A call ends none, whatever its operands name. -/
example : (split .x86 [⟨"0x0", "", "nop", "", .null⟩, ⟨"0x4", "", "jmp", "0x4", .null⟩,
    ⟨"0x8", "", "call", "0xc", .null⟩, ⟨"0xc", "", "ret", "", .null⟩]).blocks.map
      (·.instructions.length) = [1, 1, 2] := by
  decide +kernel

end FlowChart.Listing
