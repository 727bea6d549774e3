import FlowChart.Proofs.Graph.Leaders
import FlowChart.Proofs.Matching

/-!
# Listings with one more instruction

An instruction that is no branch, and whose address no operands name, does not cut a listing. Put
between two instructions of one block, it becomes a part of that block, and nothing else changes: the
instructions behind it move on by one position, and so do the blocks that start there and the
positions that operands name.
-/

namespace FlowChart.Listing

/-! ### Positions -/

/-- Where a position goes when something is put at a place. -/
def moved (place position : Nat) : Nat := if position < place then position else position + 1

section

variable {α : Type} {place p q : Nat}

/-- Positions before the place stay. -/
theorem moved_of_lt (h : p < place) : moved place p = p := if_pos h

/-- The others move on by one. -/
theorem moved_of_le (h : place ≤ p) : moved place p = p + 1 := if_neg (Nat.not_lt.mpr h)

/-- Neighbours stay neighbours, unless the place is between them. -/
theorem moved_succ (h : p + 1 ≠ place) : moved place (p + 1) = moved place p + 1 := by
  unfold moved
  split <;> split <;> omega

/-- The order of positions is kept. -/
theorem moved_lt_moved : moved place p < moved place q ↔ p < q := by
  unfold moved
  split <;> split <;> omega

/-- No position goes to the place. -/
theorem moved_ne : moved place p ≠ place := by
  unfold moved
  split <;> omega

/-- Every other one is where some position goes. -/
theorem exists_moved_eq (h : p ≠ place) : ∃ q, moved place q = p := by
  by_cases hlt : p < place
  · exact ⟨p, moved_of_lt hlt⟩
  · exact ⟨p - 1, by rw [moved_of_le (by omega)]; omega⟩

/-- What is put between two parts of a list moves the members of the second one. -/
theorem getElem?_moved (xs ys : List α) (x : α) (p : Nat) :
    (xs ++ x :: ys)[moved xs.length p]? = (xs ++ ys)[p]? := by
  by_cases hlt : p < xs.length
  · rw [moved_of_lt hlt, List.getElem?_append_left hlt, List.getElem?_append_left hlt]
  · have hle := Nat.not_lt.mp hlt
    rw [moved_of_le hle, List.getElem?_append_right (by omega), List.getElem?_append_right hle,
      Nat.sub_add_comm hle, List.getElem?_cons_succ]

end

/-- Where a member is put into a part behind its first one, the parts after it move on. -/
theorem startsFrom_insert {α : Type} {first : List α} (hfirst : first ≠ [])
    (before after : List (List α)) (x : α) (rest : List α) (position : Nat) :
    startsFrom position (before ++ (first ++ x :: rest) :: after) =
      (startsFrom position (before ++ (first ++ rest) :: after)).map
        (moved (position + before.flatten.length + first.length)) := by
  have hpos := List.length_pos_iff.mpr hfirst
  have hbefore : (startsFrom position before).map
      (moved (position + before.flatten.length + first.length)) = startsFrom position before := by
    refine (List.map_congr_left fun p hp ↦ ?_).trans (List.map_id _)
    have hle := (bounds_of_mem_startsFrom hp).2
    exact moved_of_lt (by omega)
  have hafter : (startsFrom (position + before.flatten.length + (first ++ rest).length) after).map
      (moved (position + before.flatten.length + first.length)) =
        startsFrom (position + before.flatten.length + (first ++ x :: rest).length) after := by
    have hlength : (first ++ x :: rest).length = (first ++ rest).length + 1 := by simp [Nat.add_assoc]
    rw [hlength, ← Nat.add_assoc, startsFrom_succ]
    refine List.map_congr_left fun p hp ↦ ?_
    have hle := (bounds_of_mem_startsFrom hp).1
    rw [List.length_append] at hle
    exact moved_of_le (by omega)
  rw [startsFrom_append, startsFrom_append, List.map_append, hbefore, startsFrom, startsFrom,
    List.map_cons, hafter, moved_of_lt (by omega)]

/-- The number of a block does not change when the starts of blocks move on with what it holds. -/
theorem blockHolding_moved {place : Nat} (hplace : 0 < place) (starts : List Nat) (p : Nat) :
    blockHolding (starts.map (moved place)) (moved place p) = blockHolding starts p := by
  have hzero : moved place 0 = 0 := moved_of_lt hplace
  unfold blockHolding
  rw [List.filter_map, List.length_map]
  congr 1
  refine List.filter_congr fun s _ ↦ ?_
  rw [Bool.eq_iff_iff, Function.comp_apply]
  have hpos : 0 < moved place s ↔ 0 < s := by
    rw [← @moved_lt_moved place 0 s, hzero]
  have hle : moved place s ≤ moved place p ↔ s ≤ p := by
    rw [← not_lt, moved_lt_moved, not_lt]
  simp only [Bool.and_eq_true, decide_eq_true_eq, hpos, hle]

/-! ### One more instruction -/

variable {c : Classifier} {listing : List Instruction}

/-- An instruction that does not cut a listing: it is no branch, and no operands of the listing name
its address. -/
structure IsInert (c : Classifier) (listing : List Instruction) (i : Instruction) : Prop where
  /-- Control goes on to the next instruction. -/
  plain : c.isBranch i.mnemonic = false
  /-- The address, if the text denotes one, is not named. -/
  unnamed : ∀ address, i.address? = some address → ∀ j ∈ listing, j.target? ≠ some address

section

variable {xs ys : List Instruction} {i : Instruction} {address p : Nat}

private theorem bind_address?_moved (xs ys : List Instruction) (i : Instruction) (p : Nat) :
    (xs ++ i :: ys)[moved xs.length p]?.bind (·.address?) =
      (xs ++ ys)[p]?.bind (·.address?) := by
  rw [getElem?_moved]

/-- An address that the new instruction does not have means the position where the instruction that
it meant has gone. -/
private theorem lastAt_insert (h : i.address? ≠ some address) :
    LastAt (xs ++ i :: ys) address p ↔
      ∃ q, LastAt (xs ++ ys) address q ∧ moved xs.length q = p := by
  have hplace : (xs ++ i :: ys)[xs.length]?.bind (·.address?) ≠ some address := by
    simpa using h
  constructor
  · intro hp
    have hne : p ≠ xs.length := by
      rintro rfl
      exact hplace hp.here
    obtain ⟨q, rfl⟩ := exists_moved_eq hne
    refine ⟨q, ⟨?_, fun later hlater ↦ ?_⟩, rfl⟩
    · rw [← bind_address?_moved xs ys i]
      exact hp.here
    · rw [← bind_address?_moved xs ys i]
      exact hp.last _ (moved_lt_moved.mpr hlater)
  · rintro ⟨q, hq, rfl⟩
    refine ⟨by rw [bind_address?_moved]; exact hq.here, fun later hlater ↦ ?_⟩
    by_cases hne : later = xs.length
    · rw [hne]
      exact hplace
    · obtain ⟨l, rfl⟩ := exists_moved_eq hne
      rw [bind_address?_moved]
      exact hq.last l (moved_lt_moved.mp hlater)

/-- Operands of the listing name the position where the instruction that they named has gone. -/
theorem IsInert.targetIn_insert (h : IsInert c (xs ++ ys) i) {j : Instruction}
    (hj : j ∈ xs ++ ys) :
    targetIn (addressIndex (xs ++ i :: ys)) j =
      (targetIn (addressIndex (xs ++ ys)) j).map (moved xs.length) := by
  unfold targetIn
  cases htarget : j.target? with
  | none => rfl
  | some address =>
    have hnot : i.address? ≠ some address := fun haddress ↦ h.unnamed address haddress j hj htarget
    rw [Option.bind_some, Option.bind_some]
    ext p
    simp only [get?_addressIndex, lastAt_insert hnot, Option.map_eq_some_iff]

private theorem branchAt_moved :
    BranchAt c (xs ++ i :: ys) (moved xs.length p) ↔ BranchAt c (xs ++ ys) p := by
  rw [BranchAt, BranchAt, getElem?_moved]

private theorem IsInert.not_branchAt (h : IsInert c (xs ++ ys) i) :
    ¬ BranchAt c (xs ++ i :: ys) xs.length := by
  simp [BranchAt, h.plain]

/-- Branches jump to where the instructions that they jumped to have gone. -/
private theorem IsInert.targetAt_iff (h : IsInert c (xs ++ ys) i) :
    TargetAt c (xs ++ i :: ys) p ↔ ∃ q, TargetAt c (xs ++ ys) q ∧ moved xs.length q = p := by
  have htargetAt : ∀ {listing : List Instruction} {p}, TargetAt c listing p ↔
      ∃ j ∈ listing, c.isBranch j.mnemonic = true ∧ targetIn (addressIndex listing) j = some p := by
    intro listing p
    simp only [TargetAt, targetIn, Option.bind_eq_some_iff]
  simp only [htargetAt]
  constructor
  · rintro ⟨j, hj, hbranch, hp⟩
    have hne : j ≠ i := by
      rintro rfl
      rw [h.plain] at hbranch
      cases hbranch
    have hj' : j ∈ xs ++ ys := by
      simp only [List.mem_append, List.mem_cons, hne, false_or] at hj ⊢
      exact hj
    rw [h.targetIn_insert hj', Option.map_eq_some_iff] at hp
    obtain ⟨q, hq, rfl⟩ := hp
    exact ⟨q, ⟨j, hj', hbranch, hq⟩, rfl⟩
  · rintro ⟨q, ⟨j, hj, hbranch, hq⟩, rfl⟩
    have hj' : j ∈ xs ++ i :: ys := by
      simp only [List.mem_append, List.mem_cons] at hj ⊢
      exact hj.imp_right .inr
    refine ⟨j, hj', hbranch, ?_⟩
    rw [h.targetIn_insert hj, hq, Option.map_some]

private theorem IsInert.targetAt_moved_iff (h : IsInert c (xs ++ ys) i) :
    TargetAt c (xs ++ i :: ys) (moved xs.length p) ↔ TargetAt c (xs ++ ys) p := by
  rw [h.targetAt_iff]
  constructor
  · rintro ⟨q, hq, heq⟩
    obtain rfl : q = p := by
      have := @moved_lt_moved xs.length p q
      have := @moved_lt_moved xs.length q p
      omega
    exact hq
  · exact fun hp ↦ ⟨p, hp, rfl⟩

/-- Where no block starts, none starts with the new instruction. -/
private theorem IsInert.length_not_mem (h : IsInert c (xs ++ ys) i) (hxs : xs ≠ [])
    (hys : ys ≠ []) (hplace : xs.length ∉ leaders c (xs ++ ys)) :
    xs.length ∉ leaders c (xs ++ i :: ys) := by
  obtain ⟨n, hn⟩ := Nat.exists_eq_succ_of_ne_zero (List.length_pos_iff.mpr hxs).ne'
  have hlt : n + 1 < (xs ++ ys).length := by
    have := List.length_pos_iff.mpr hys
    rw [List.length_append]
    omega
  intro hmem
  rw [hn, mem_leaders_succ] at hmem hplace
  rcases hmem.2 with hbranch | htarget
  · rw [← moved_of_lt (show n < xs.length by omega), branchAt_moved] at hbranch
    exact hplace ⟨hlt, .inl hbranch⟩
  · obtain ⟨q, -, hq⟩ := h.targetAt_iff.mp htarget
    exact moved_ne (hq.trans hn.symm)

/-- Every other block starts where it started, or one position further on. -/
private theorem IsInert.moved_mem_iff (h : IsInert c (xs ++ ys) i) (hxs : xs ≠ [])
    (hplace : xs.length ∉ leaders c (xs ++ ys)) :
    moved xs.length p ∈ leaders c (xs ++ i :: ys) ↔ p ∈ leaders c (xs ++ ys) := by
  have hpos := List.length_pos_iff.mpr hxs
  cases p with
  | zero =>
    rw [moved_of_lt hpos]
    simp only [mem_leaders, List.length_append, true_or, and_true]
    omega
  | succ p =>
    have hlt : moved xs.length (p + 1) < (xs ++ i :: ys).length ↔ p + 1 < (xs ++ ys).length := by
      simp only [moved, List.length_append, List.length_cons]
      split <;> omega
    have htarget := h.targetAt_moved_iff (p := p + 1)
    by_cases hhere : p + 1 = xs.length
    · -- what stood at the place follows the new instruction, which is no branch
      rw [← hhere, mem_leaders_succ] at hplace
      rw [hhere, moved_of_le (Nat.le_refl _)] at hlt htarget ⊢
      rw [mem_leaders_succ, hlt, htarget, or_iff_right h.not_branchAt, ← hhere, mem_leaders_succ]
      exact and_congr_right fun hlt' ↦ (or_iff_right fun hb ↦ hplace ⟨hlt', .inl hb⟩).symm
    · rw [moved_succ hhere] at hlt htarget ⊢
      rw [mem_leaders_succ, mem_leaders_succ, hlt, branchAt_moved, htarget]

/-- Where no block starts, an instruction that cuts nothing moves the starts of the later blocks on by
one. -/
theorem IsInert.leaders_insert (h : IsInert c (xs ++ ys) i) (hxs : xs ≠ []) (hys : ys ≠ [])
    (hplace : xs.length ∉ leaders c (xs ++ ys)) :
    leaders c (xs ++ i :: ys) = (leaders c (xs ++ ys)).map (moved xs.length) := by
  have hsorted : ∀ listing, (leaders c listing).Pairwise (· < ·) := fun listing ↦
    List.pairwise_lt_range.filter _
  have hmoved : ((leaders c (xs ++ ys)).map (moved xs.length)).Pairwise (· < ·) :=
    (hsorted _).map _ fun _ _ ↦ moved_lt_moved.mpr
  refine (hsorted _).eq_of_mem_iff hmoved fun p ↦ ?_
  rw [List.mem_map]
  constructor
  · intro hp
    have hne : p ≠ xs.length := by
      rintro rfl
      exact h.length_not_mem hxs hys hplace hp
    obtain ⟨q, rfl⟩ := exists_moved_eq hne
    exact ⟨q, (h.moved_mem_iff hxs hplace).mp hp, rfl⟩
  · rintro ⟨q, hq, rfl⟩
    exact (h.moved_mem_iff hxs hplace).mpr hq

/-- No block starts inside another one. -/
private theorem not_mem_leaders {before after : List (List Instruction)}
    {first rest : List Instruction} (hruns : runs c listing = before ++ (first ++ rest) :: after)
    (hfirst : first ≠ []) (hrest : rest ≠ []) :
    (before.flatten ++ first).length ∉ leaders c listing := by
  have hpos := List.length_pos_iff.mpr hfirst
  have hpos' := List.length_pos_iff.mpr hrest
  rw [← startsFrom_runs, hruns, startsFrom_append, startsFrom, List.mem_append, List.mem_cons,
    List.length_append, Nat.zero_add]
  rintro (hp | hp | hp)
  · have hle := (bounds_of_mem_startsFrom hp).2
    omega
  · omega
  · have hle := (bounds_of_mem_startsFrom hp).1
    rw [List.length_append] at hle
    omega

/-- An instruction that cuts nothing and is put inside a run becomes a part of it. -/
theorem IsInert.runs_insert (h : IsInert c (xs ++ ys) i) {before after : List (List Instruction)}
    {first rest : List Instruction}
    (hruns : runs c (xs ++ ys) = before ++ (first ++ rest) :: after)
    (hxs : before.flatten ++ first = xs) (hfirst : first ≠ []) (hrest : rest ≠ []) :
    leaders c (xs ++ i :: ys) = (leaders c (xs ++ ys)).map (moved xs.length) ∧
      runs c (xs ++ i :: ys) = before ++ (first ++ i :: rest) :: after := by
  have hys : ys = rest ++ after.flatten := by
    have hflatten := flatten_runs c (xs ++ ys)
    rw [hruns, List.flatten_append, List.flatten_cons, ← hxs] at hflatten
    simpa using hflatten.symm
  have hleaders : leaders c (xs ++ i :: ys) = (leaders c (xs ++ ys)).map (moved xs.length) := by
    apply h.leaders_insert
    · rw [← hxs]
      exact List.append_ne_nil_of_right_ne_nil _ hfirst
    · rw [hys]
      exact List.append_ne_nil_of_left_ne_nil hrest _
    · have hnot := not_mem_leaders hruns hfirst hrest
      rwa [hxs] at hnot
  refine ⟨hleaders, @eq_of_startsFrom_eq _ _ _ 0 ?_ ?_⟩
  · rw [flatten_runs, hys, ← hxs]
    simp
  · rw [startsFrom_runs, hleaders, ← startsFrom_runs, hruns, startsFrom_insert hfirst,
      Nat.zero_add, ← List.length_append, hxs]

private theorem getLast?_insert (first : List Instruction) (i : Instruction)
    {rest : List Instruction} (hrest : rest ≠ []) :
    (first ++ i :: rest).getLast? = (first ++ rest).getLast? := by
  obtain ⟨j, others, rfl⟩ := List.exists_cons_of_ne_nil hrest
  simp only [List.getLast?_append, List.getLast?_cons_cons]

/-- The edges that leave a run depend on its last instruction only, and so a run may be filled. -/
private theorem IsInert.edges_insert (h : IsInert c (xs ++ ys) i) (hxs : xs ≠ [])
    {before after : List (List Instruction)} {first rest : List Instruction}
    (hmem : ∀ run ∈ before ++ (first ++ rest) :: after, run ⊆ xs ++ ys) (hrest : rest ≠ []) :
    edgesOf c ((leaders c (xs ++ ys)).map (moved xs.length)) (addressIndex (xs ++ i :: ys))
        (before ++ (first ++ i :: rest) :: after) =
      edgesOf c (leaders c (xs ++ ys)) (addressIndex (xs ++ ys))
        (before ++ (first ++ rest) :: after) := by
  have hfilled : List.Forall₂ (fun run run' : List Instruction ↦
      run ⊆ xs ++ ys ∧ run'.getLast? = run.getLast?)
        (before ++ (first ++ rest) :: after) (before ++ (first ++ i :: rest) :: after) := by
    simp only [List.mem_append, List.mem_cons] at hmem
    refine List.rel_append (List.forall₂_same.mpr fun run hrun ↦ ⟨hmem run (.inl hrun), rfl⟩) ?_
    refine .cons ⟨hmem _ (.inr (.inl rfl)), ?_⟩
      (List.forall₂_same.mpr fun run hrun ↦ ⟨hmem run (.inr (.inr hrun)), rfl⟩)
    exact getLast?_insert first i hrest
  unfold edgesOf
  rw [← hfilled.length_eq, List.flatMap_def, List.flatMap_def]
  refine congrArg List.flatten (map_eq_of_forall₂ ?_ (forall₂_zipIdx hfilled 0))
  rintro ⟨run, k⟩ ⟨run', k'⟩ ⟨⟨hrun, hlast⟩, rfl⟩
  dsimp only at hrun hlast ⊢
  rw [hlast]
  cases hget : run.getLast? with
  | none => rfl
  | some last =>
    have htarget := h.targetIn_insert (hrun (List.mem_of_getLast? hget))
    have hpos := List.length_pos_iff.mpr hxs
    simp only [htarget, Option.map_map, Function.comp_def, blockHolding_moved hpos]

/-- The block of a run that is filled is filled. -/
private theorem blockOf_insert (edges : List Edge) (k : Nat) {first rest : List Instruction}
    (hfirst : first ≠ []) (hrest : rest ≠ []) (i : Instruction) :
    blockOf edges k (first ++ i :: rest) =
      { blockOf edges k (first ++ rest) with instructions := first ++ i :: rest } := by
  have hhead : (first ++ i :: rest).head? = (first ++ rest).head? := by
    rw [List.head?_append_of_ne_nil _ hfirst, List.head?_append_of_ne_nil _ hfirst]
  simp only [blockOf, Block.withAddresses, hhead, getLast?_insert first i hrest]

/-- The blocks by the runs before and after one of them. -/
private theorem blocks_of_runs {before after : List (List Instruction)} {run : List Instruction}
    (h : runs c listing = before ++ run :: after) :
    (split c listing).blocks =
      (before.zipIdx.map fun r ↦ blockOf (split c listing).edges r.2 r.1) ++
        blockOf (split c listing).edges before.length run ::
          (after.zipIdx (before.length + 1)).map fun r ↦
            blockOf (split c listing).edges r.2 r.1 := by
  have hblocks : (split c listing).blocks = (runs c listing).zipIdx.map fun r ↦
      blockOf (split c listing).edges r.2 r.1 := rfl
  rw [hblocks, h, List.zipIdx_append, List.zipIdx_cons, List.map_append, List.map_cons,
    Nat.zero_add]

/-- An instruction that cuts nothing, put between two instructions of one block, changes nothing but
the instructions of that block. -/
theorem split_insert {before after : List Block} {b : Block} {first rest : List Instruction}
    (hblocks : (split c (xs ++ ys)).blocks = before ++ b :: after)
    (hb : b.instructions = first ++ rest) (hfirst : first ≠ []) (hrest : rest ≠ [])
    (hxs : before.flatMap (·.instructions) ++ first = xs) (hi : IsInert c (xs ++ ys) i) :
    split c (xs ++ i :: ys) =
      ⟨before ++ { b with instructions := first ++ i :: rest } :: after,
        (split c (xs ++ ys)).edges⟩ := by
  have hruns : runs c (xs ++ ys) = before.map (·.instructions) ++ (first ++ rest) ::
      after.map (·.instructions) := by
    rw [← map_instructions_split, hblocks, List.map_append, List.map_cons, hb]
  obtain ⟨hleaders, hruns'⟩ := hi.runs_insert hruns hxs hfirst hrest
  have hne : xs ≠ [] := by
    rw [← hxs]
    exact List.append_ne_nil_of_right_ne_nil _ hfirst
  have hmem : ∀ run ∈ before.map (·.instructions) ++ (first ++ rest) :: after.map (·.instructions),
      run ⊆ xs ++ ys := by
    intro run hrun
    rw [← hruns] at hrun
    rw [← flatten_runs c (xs ++ ys)]
    exact (List.sublist_flatten_of_mem hrun).subset
  have hedges : (split c (xs ++ i :: ys)).edges = (split c (xs ++ ys)).edges := by
    have hinsert := hi.edges_insert hne hmem hrest
    rw [← hruns, ← hruns', ← hleaders] at hinsert
    exact hinsert
  rw [blocks_of_runs hruns] at hblocks
  obtain ⟨hbefore, hothers⟩ := List.append_inj hblocks (by simp)
  obtain ⟨rfl, hafter⟩ := List.cons.inj hothers
  have hblocks' := blocks_of_runs hruns'
  rw [hedges, hbefore, hafter, blockOf_insert _ _ hfirst hrest] at hblocks'
  exact congrArg₂ Graph.mk hblocks' hedges

end

/-- A call to where a jump of the listing goes. -/
theorem split_insert_call :
    let mov : Instruction := ⟨"0x0", "", "mov", "", .null⟩
    let cmp : Instruction := ⟨"0x4", "", "cmp", "", .null⟩
    let jne : Instruction := ⟨"0x8", "", "jne", "0x4", .null⟩
    let ret : Instruction := ⟨"0xc", "", "ret", "", .null⟩
    let call : Instruction := ⟨"0x6", "", "call", "0x4", .null⟩
    ∃ before b after, (split .x86 [mov, cmp, jne, ret]).blocks = before ++ b :: after ∧
      b.instructions = [cmp, jne] ∧
      split .x86 [mov, cmp, call, jne, ret] =
        ⟨before ++ { b with instructions := [cmp, call, jne] } :: after,
          (split .x86 [mov, cmp, jne, ret]).edges⟩ := by
  intro mov cmp jne ret call
  have hcuts : runs .x86 [mov, cmp, jne, ret] = [[mov]] ++ [cmp, jne] :: [[ret]] := by
    have hleaders : leaders .x86 [mov, cmp, jne, ret] = [0, 1, 3] := by decide +kernel
    rw [runs, hleaders]
    rfl
  have hblocks := blocks_of_runs hcuts
  refine ⟨_, _, _, hblocks, rfl, ?_⟩
  refine @split_insert .x86 [mov, cmp] [jne, ret] call _ _ _ [cmp] [jne] hblocks rfl (by simp)
    (by simp) rfl ⟨?_, ?_⟩
  · decide +kernel
  · intro address haddress
    have hsix : call.address? = some 6 := by decide +kernel
    cases hsix.symm.trans haddress
    decide +kernel

end FlowChart.Listing
