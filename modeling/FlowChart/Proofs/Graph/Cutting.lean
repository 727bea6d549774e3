import FlowChart.Graph.Listing
import Mathlib.Data.List.Count
import Mathlib.Data.List.Induction
import Mathlib.Data.List.Nodup

/-!
# Cutting a listing

Two facts carry the edges of a listing. An address means the last position that has it, and every
position where a block may start is the start of the block that is found to hold it. The parts that
a listing is cut into are known from where they start.
-/

namespace FlowChart.Listing

/-! ### Addresses -/

/-- A position is the last one of a listing that has an address. -/
structure LastAt (listing : List Instruction) (address position : Nat) : Prop where
  /-- The position has the address. -/
  here : listing[position]?.bind (·.address?) = some address
  /-- No later position has it. -/
  last : ∀ later, position < later → listing[later]?.bind (·.address?) ≠ some address

/-- A position that has an address is in the listing. -/
theorem LastAt.lt {listing : List Instruction} {address position : Nat}
    (h : LastAt listing address position) : position < listing.length := by
  by_contra hout
  have hhere := h.here
  rw [List.getElem?_eq_none (Nat.not_lt.mp hout)] at hhere
  simp at hhere

/-- Listings that have an address at the same positions have it at the same last position. -/
private theorem LastAt.of_iff {listing listing' : List Instruction} {address position : Nat}
    (hsame : ∀ q : Nat, listing'[q]?.bind (·.address?) = some address ↔
      listing[q]?.bind (·.address?) = some address) (h : LastAt listing address position) :
    LastAt listing' address position where
  here := (hsame position).mpr h.here
  last later hlater hit := h.last later hlater ((hsame later).mp hit)

private theorem bind_address?_concat (listing : List Instruction) (i : Instruction) (q : Nat) :
    (listing ++ [i])[q]?.bind (·.address?) =
      if q = listing.length then i.address? else listing[q]?.bind (·.address?) := by
  rcases Nat.lt_trichotomy q listing.length with hlt | rfl | hgt
  · rw [List.getElem?_append_left hlt, if_neg (Nat.ne_of_lt hlt)]
  · simp
  · rw [if_neg (Nat.ne_of_gt hgt), List.getElem?_eq_none (by simp; omega),
      List.getElem?_eq_none (by omega)]

private theorem lastAt_concat {listing : List Instruction} {i : Instruction}
    {address position : Nat} :
    LastAt (listing ++ [i]) address position ↔
      if i.address? = some address then position = listing.length
      else LastAt listing address position := by
  split
  · next hi =>
    constructor
    · intro h
      by_contra hne
      have hlt := h.lt
      rw [List.length_append, List.length_singleton] at hlt
      exact h.last listing.length (by omega) (by rw [bind_address?_concat, if_pos rfl, hi])
    · rintro rfl
      constructor
      · rw [bind_address?_concat, if_pos rfl, hi]
      · intro later hlater
        rw [bind_address?_concat, if_neg (Nat.ne_of_gt hlater), List.getElem?_eq_none (by omega)]
        simp
  · next hi =>
    have hsame : ∀ q : Nat, (listing ++ [i])[q]?.bind (·.address?) = some address ↔
        listing[q]?.bind (·.address?) = some address := by
      intro q
      rw [bind_address?_concat]
      split
      · next hq => simp [hq, hi]
      · rfl
    exact ⟨.of_iff fun q ↦ (hsame q).symm, .of_iff hsame⟩

private theorem addressed_concat (listing : List Instruction) (i : Instruction) :
    addressed (listing ++ [i]) =
      addressed listing ++ (i.address?.map (·, listing.length)).toList := by
  unfold addressed
  rw [List.zipIdx_append, List.filterMap_append]
  cases h : i.address? <;> simp [h]

/-- An address means the last position that has it. -/
theorem get?_addressIndex {listing : List Instruction} {address position : Nat} :
    (addressIndex listing).get? address = some position ↔ LastAt listing address position := by
  unfold addressIndex Table.ofList Table.insertAll
  induction listing using List.reverseRecOn with
  | nil =>
    constructor
    · exact fun h ↦ absurd h (by simp [addressed])
    · intro h
      exact absurd h.lt (by simp)
  | append_singleton listing i ih =>
    rw [addressed_concat, List.foldl_append, lastAt_concat]
    cases hi : i.address? with
    | none => simpa using ih
    | some address' =>
      rw [Option.map_some, Option.toList_some, List.foldl_cons, List.foldl_nil, Table.get?_insert]
      by_cases he : address' = address
      · simp [he, eq_comm]
      · simpa [he] using ih

/-! ### Runs -/

/-- Where the positions of a listing are counted from `position` on, the starts after `position`
are `position + 1`, if it is one, and those after it. -/
private theorem countP_starts (starts : List Nat) {position p : Nat} (h : position < p) :
    (starts.countP fun s ↦ position < s && s ≤ p) =
      starts.count (position + 1) + starts.countP fun s ↦ position + 1 < s && s ≤ p := by
  induction starts with
  | nil => rfl
  | cons s rest ih =>
    rw [List.countP_cons, List.countP_cons, List.count_cons, ih]
    have hsplit : (if (decide (position < s) && decide (s ≤ p)) = true then 1 else 0) =
        (if (s == position + 1) = true then 1 else 0) +
          if (decide (position + 1 < s) && decide (s ≤ p)) = true then 1 else 0 := by
      simp only [Bool.and_eq_true, decide_eq_true_eq, beq_iff_eq]
      split <;> split <;> split <;> omega
    omega

private theorem exists_cut_cons {α : Type} (starts : List Nat) (position : Nat) (x : α)
    (xs : List α) : ∃ run after, cut starts position (x :: xs) = run :: after := by
  rw [cut]
  split
  · exact ⟨_, _, rfl⟩
  · split <;> exact ⟨_, _, rfl⟩

/-- Every start is the position of the first member of a run, and as many runs come before it as
there are other starts up to it. -/
theorem exists_run_of_mem {α : Type} {starts : List Nat} (nodup : starts.Nodup) (xs : List α)
    {position p : Nat} (hp : p = position ∨ p ∈ starts) (hle : position ≤ p)
    (hlt : p < position + xs.length) :
    ∃ before run after, cut starts position xs = before ++ run :: after ∧
      position + before.flatten.length = p ∧
      before.length = starts.countP fun s ↦ position < s && s ≤ p := by
  induction xs generalizing position with
  | nil => exact absurd hlt (by simp; omega)
  | cons x xs ih =>
    have hnone : (starts.countP fun s ↦ position < s && s ≤ position) = 0 := by
      rw [List.countP_eq_zero]
      intro s _
      simp
    by_cases hfirst : p = position
    · subst hfirst
      obtain ⟨run, after, hcut⟩ := exists_cut_cons starts p x xs
      exact ⟨[], run, after, hcut, rfl, hnone.symm⟩
    · have hmem := hp.resolve_left hfirst
      rw [List.length_cons] at hlt
      obtain ⟨before, run, after, hcut, hlength, hcount⟩ :=
        @ih (position + 1) (.inr hmem) (by omega) (by omega)
      have hstep := countP_starts starts (show position < p by omega)
      rw [cut, hcut]
      by_cases hstart : position + 1 ∈ starts
      · have hone : starts.count (position + 1) = 1 := List.count_eq_one_of_mem nodup hstart
        refine ⟨[x] :: before, run, after, ?_, ?_, ?_⟩
        · cases before <;> simp [hstart]
        · rw [List.flatten_cons, List.length_append, List.length_singleton]
          omega
        · rw [List.length_cons, hcount, hstep, hone]
          omega
      · have hzero : starts.count (position + 1) = 0 := List.count_eq_zero.mpr hstart
        cases before with
        | nil =>
          -- the run starts right after the first member, where no start is
          rw [List.flatten_nil, List.length_nil, Nat.add_zero] at hlength
          exact absurd (hlength ▸ hmem) hstart
        | cons first before =>
          refine ⟨(x :: first) :: before, run, after, ?_, ?_, ?_⟩
          · simp [hstart]
          · rw [List.flatten_cons, List.length_append] at hlength
            rw [List.flatten_cons, List.length_append, List.length_cons]
            omega
          · rw [List.length_cons] at hcount
            rw [List.length_cons, hcount, hstep, hzero]
            omega

/-- All runs but the first one begin at starts. -/
theorem mem_starts_of_cut_eq {α : Type} {starts : List Nat} (xs : List α) {position : Nat}
    {before after : List (List α)} {run : List α}
    (h : cut starts position xs = before ++ run :: after) (hbefore : before ≠ []) :
    position + before.flatten.length ∈ starts := by
  induction xs generalizing position before with
  | nil => simp [cut] at h
  | cons x xs ih =>
    obtain ⟨first, others, rfl⟩ := List.exists_cons_of_ne_nil hbefore
    rw [cut, List.cons_append] at h
    rw [List.flatten_cons, List.length_append, ← Nat.add_assoc]
    split at h
    · simp at h
    · next next runs hcut =>
      split at h
      · next hstart =>
        obtain ⟨rfl, hothers⟩ := List.cons.inj h
        by_cases hnil : others = []
        · rw [hnil]
          exact List.contains_iff_mem.mp hstart
        · exact ih (hcut.trans hothers) hnil
      · obtain ⟨rfl, hothers⟩ := List.cons.inj h
        have hstart := ih (hcut.trans (congrArg (next :: ·) hothers)) (List.cons_ne_nil _ _)
        rw [List.flatten_cons, List.length_append] at hstart
        rw [List.length_cons]
        convert hstart using 1
        omega

/-- Every position lies in one of the parts that a list is put together from. -/
theorem exists_part_of_lt {α : Type} {parts : List (List α)} {p : Nat}
    (h : p < parts.flatten.length) :
    ∃ before part after, parts = before ++ part :: after ∧ before.flatten.length ≤ p ∧
      p < before.flatten.length + part.length := by
  induction parts generalizing p with
  | nil => simp at h
  | cons part parts ih =>
    rw [List.flatten_cons, List.length_append] at h
    by_cases hfirst : p < part.length
    · exact ⟨[], part, parts, rfl, Nat.zero_le p, by simpa using hfirst⟩
    · obtain ⟨before, part', after, rfl, hle, hlt⟩ := ih (p := p - part.length) (by omega)
      refine ⟨part :: before, part', after, rfl, ?_, ?_⟩
      · rw [List.flatten_cons, List.length_append]
        omega
      · rw [List.flatten_cons, List.length_append]
        omega

/-! ### Parts by their starts -/

section

variable {α : Type}

/-- Where the parts of a list start, counted from a position on. -/
def startsFrom : Nat → List (List α) → List Nat
  | _, [] => []
  | position, part :: parts => position :: startsFrom (position + part.length) parts

/-- The starts of parts in two lists of them. -/
theorem startsFrom_append (position : Nat) (before after : List (List α)) :
    startsFrom position (before ++ after) =
      startsFrom position before ++ startsFrom (position + before.flatten.length) after := by
  induction before generalizing position with
  | nil => rfl
  | cons part before ih =>
    rw [List.cons_append, startsFrom, startsFrom, ih, List.flatten_cons, List.length_append,
      Nat.add_assoc, List.cons_append]

/-- A part starts where those before it end. -/
theorem mem_startsFrom_iff {parts : List (List α)} {position p : Nat} :
    p ∈ startsFrom position parts ↔ ∃ before part after, parts = before ++ part :: after ∧
      position + before.flatten.length = p := by
  constructor
  · intro h
    induction parts generalizing position with
    | nil => simp [startsFrom] at h
    | cons part parts ih =>
      rcases List.mem_cons.mp h with rfl | h
      · exact ⟨[], part, parts, rfl, rfl⟩
      · obtain ⟨before, part', after, rfl, rfl⟩ := ih h
        refine ⟨part :: before, part', after, rfl, ?_⟩
        rw [List.flatten_cons, List.length_append, Nat.add_assoc]
  · rintro ⟨before, part, after, rfl, rfl⟩
    rw [startsFrom_append]
    exact List.mem_append_right _ List.mem_cons_self

/-- Parts start between the position that is counted from and the end of the list. -/
theorem bounds_of_mem_startsFrom {parts : List (List α)} {position p : Nat}
    (h : p ∈ startsFrom position parts) :
    position ≤ p ∧ p ≤ position + parts.flatten.length := by
  obtain ⟨before, part, after, rfl, rfl⟩ := mem_startsFrom_iff.mp h
  rw [List.flatten_append, List.length_append]
  omega

/-- Counted from the next position, all parts start one position further on. -/
theorem startsFrom_succ (position : Nat) (parts : List (List α)) :
    startsFrom (position + 1) parts = (startsFrom position parts).map (· + 1) := by
  induction parts generalizing position with
  | nil => rfl
  | cons part parts ih =>
    rw [startsFrom, startsFrom, List.map_cons, ← ih, Nat.add_right_comm]

/-- Parts that are not empty start one after the other. -/
theorem pairwise_startsFrom {parts : List (List α)} (h : ∀ part ∈ parts, part ≠ [])
    (position : Nat) : (startsFrom position parts).Pairwise (· < ·) := by
  induction parts generalizing position with
  | nil => exact .nil
  | cons part parts ih =>
    have hpos := List.length_pos_iff.mpr (h part List.mem_cons_self)
    refine .cons (fun p hp ↦ ?_) (ih (fun part' h' ↦ h part' (List.mem_cons_of_mem _ h')) _)
    have hle := (bounds_of_mem_startsFrom hp).1
    omega

/-- A list has only one way to be put together from parts that start at given positions. -/
theorem eq_of_startsFrom_eq {parts parts' : List (List α)} {position : Nat}
    (hflatten : parts.flatten = parts'.flatten)
    (hstarts : startsFrom position parts = startsFrom position parts') : parts = parts' := by
  induction parts generalizing position parts' with
  | nil =>
    cases parts' with
    | nil => rfl
    | cons => cases hstarts
  | cons part parts ih =>
    cases parts' with
    | nil => cases hstarts
    | cons part' parts' =>
      have hrest := (List.cons.inj hstarts).2
      rw [List.flatten_cons, List.flatten_cons] at hflatten
      have hlength : part.length = part'.length := by
        -- the next part starts where this one ends, and without one this one is all that is left
        cases parts with
        | nil =>
          cases parts' with
          | nil => simpa using congrArg List.length hflatten
          | cons => cases hrest
        | cons =>
          cases parts' with
          | nil => cases hrest
          | cons =>
            have := (List.cons.inj hrest).1
            omega
      obtain ⟨rfl, hothers⟩ := List.append_inj hflatten hlength
      rw [ih hothers hrest]

end

end FlowChart.Listing
