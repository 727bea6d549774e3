import FlowChart.Sorting.WeakOrder

/-!
# Searching by leaps and by halving

In an ascending list, the members that some other member has to follow stand at the front. How far
they reach is found without looking at all of them: by leaps that double until one goes too far,
and then by halving what the last leap passed over. A search may start from either side of a list;
from the back it sees the list in reverse, and so looks at the other one of two middle places.
-/

namespace FlowChart

variable {α : Type}

/-- The side of a list that a search or a merge starts from. -/
inductive Side where
  /-- From the first member on. -/
  | front
  /-- From the last member back. -/
  | back
  deriving DecidableEq, Repr

/-- The place to look at between two places. -/
def Side.middle (side : Side) (low high : Nat) : Nat :=
  match side with
  | .front => low + (high - low) / 2
  | .back => low + (high - low - 1) / 2

/-- How many members at the front of a list satisfy `p`, known to lie between `low` and `high`. A
`bound` on the distance of the two bounds the search. -/
def halve (side : Side) (p : α → Bool) (xs : List α) : Nat → Nat → Nat → Nat
  | 0, low, _ => low
  | bound + 1, low, high =>
    if low < high then
      let middle := side.middle low high
      if xs[middle]?.any p then halve side p xs bound (middle + 1) high
      else halve side p xs bound low middle
    else low

/-- Leap on while the members that the leaps end at satisfy `p`: the last place that does, and the
one where the next leap ends. -/
def leap (p : α → Bool) (xs : List α) : Nat → Nat → Nat → Nat × Nat
  | 0, last, next => (last, next)
  | bound + 1, last, next =>
    if xs[next]?.any p then leap p xs bound next (2 * next + 1) else (last, next)

/-- How many members at the front of a list satisfy `p`, found by leaps and by halving. -/
def reach (side : Side) (p : α → Bool) (xs : List α) : Nat :=
  match xs with
  | [] => 0
  | x :: rest =>
    if p x then
      let (last, next) := leap p (x :: rest) rest.length 0 1
      halve side p (x :: rest) rest.length (last + 1) (min next (rest.length + 1))
    else 0

/-- The members of a list that satisfy `p` are at its front. -/
def IsFrontal (p : α → Bool) (xs : List α) : Prop :=
  xs.Pairwise fun a b ↦ p b = true → p a = true

namespace IsFrontal

variable {p : α → Bool} {xs : List α}

/-- No member behind the front satisfies `p`. -/
theorem eq_false_of_mem_dropWhile (h : IsFrontal p xs) : ∀ x ∈ xs.dropWhile p, p x = false := by
  induction xs with
  | nil => simp
  | cons y ys ih =>
    have parts := List.pairwise_cons.mp h
    intro x hx
    cases hy : p y with
    | true => exact ih parts.2 x (by simpa [List.dropWhile_cons, hy] using hx)
    | false =>
      rw [List.dropWhile_cons, hy] at hx
      rcases List.mem_cons.mp (by simpa using hx) with rfl | hx
      · exact hy
      · cases hpx : p x with
        | false => rfl
        | true => simp [parts.1 x hx hpx] at hy

private theorem any_getElem?_iff (h : IsFrontal p xs) (i : Nat) :
    xs[i]?.any p = true ↔ i < (xs.takeWhile p).length := by
  induction xs generalizing i with
  | nil => simp
  | cons y ys ih =>
    have parts := List.pairwise_cons.mp h
    rw [List.takeWhile_cons]
    cases i with
    | zero => cases hy : p y <;> simp [hy]
    | succ i =>
      rw [List.getElem?_cons_succ, ih parts.2]
      cases hy : p y with
      | true => simp
      | false =>
        simp only [Bool.false_eq_true, if_false, List.length_nil, Nat.not_lt_zero, iff_false]
        cases ys with
        | nil => simp
        | cons z zs =>
          cases hz : p z with
          | false => simp [hz]
          | true => simp [parts.1 z (by simp) hz] at hy

/-- Halving finds the end of the front, if that lies between the bounds. -/
theorem halve_eq (h : IsFrontal p xs) (side : Side) (bound low high : Nat)
    (hbound : high - low ≤ bound) (hlow : low ≤ (xs.takeWhile p).length)
    (hhigh : (xs.takeWhile p).length ≤ high) :
    halve side p xs bound low high = (xs.takeWhile p).length := by
  induction bound generalizing low high with
  | zero => rw [halve]; omega
  | succ bound ih =>
    rw [halve]
    split
    · have hm : low ≤ side.middle low high ∧ side.middle low high < high := by
        cases side <;> simp only [Side.middle] <;> omega
      dsimp only
      split
      · next hp =>
        have := (h.any_getElem?_iff _).mp hp
        exact ih _ _ (by omega) (by omega) hhigh
      · next hp =>
        have := mt (h.any_getElem?_iff _).mpr hp
        exact ih _ _ (by omega) hlow (by omega)
    · omega

private theorem leap_bounds (h : IsFrontal p xs) (bound last next : Nat)
    (hlast : last < (xs.takeWhile p).length) (hnext : xs.length ≤ next + bound) :
    (leap p xs bound last next).1 < (xs.takeWhile p).length ∧
      (xs.takeWhile p).length ≤ (leap p xs bound last next).2 := by
  induction bound generalizing last next with
  | zero =>
    have := (List.takeWhile_sublist (l := xs) p).length_le
    exact ⟨hlast, by rw [leap]; omega⟩
  | succ bound ih =>
    rw [leap]
    split
    · next hp => exact ih _ _ ((h.any_getElem?_iff _).mp hp) (by omega)
    · next hp => exact ⟨hlast, Nat.le_of_not_lt (mt (h.any_getElem?_iff _).mpr hp)⟩

/-- The search finds the end of the front. -/
theorem reach_eq (h : IsFrontal p xs) (side : Side) :
    reach side p xs = (xs.takeWhile p).length := by
  cases xs with
  | nil => rfl
  | cons x rest =>
    rw [reach]
    split
    · next hp =>
      have hlen := (List.takeWhile_sublist (l := x :: rest) p).length_le
      have hb := h.leap_bounds rest.length 0 1 (by simp [hp])
        (by simp [Nat.add_comm])
      simp only [List.length_cons] at hlen
      exact h.halve_eq side _ _ _ (by omega) hb.1 (by omega)
    · next hp => simp [hp]

/-- The members that the search passes. -/
theorem take_reach (h : IsFrontal p xs) (side : Side) :
    xs.take (reach side p xs) = xs.takeWhile p := by
  have happ : xs.takeWhile p ++ xs.dropWhile p = xs := List.takeWhile_append_dropWhile
  rw [h.reach_eq]
  exact (congrArg (List.take _) happ.symm).trans (List.take_left)

/-- The members that the search does not pass. -/
theorem drop_reach (h : IsFrontal p xs) (side : Side) :
    xs.drop (reach side p xs) = xs.dropWhile p := by
  have happ : xs.takeWhile p ++ xs.dropWhile p = xs := List.takeWhile_append_dropWhile
  rw [h.reach_eq]
  exact (congrArg (List.drop _) happ.symm).trans (List.drop_left)

/-- What the search passes satisfies `p`. -/
theorem eq_true_of_mem_take_reach (h : IsFrontal p xs) (side : Side) :
    ∀ x ∈ xs.take (reach side p xs), p x = true := by
  rw [h.take_reach]
  exact List.all_eq_true.mp List.all_takeWhile

/-- What the search does not pass does not. -/
theorem eq_false_of_mem_drop_reach (h : IsFrontal p xs) (side : Side) :
    ∀ x ∈ xs.drop (reach side p xs), p x = false := by
  rw [h.drop_reach]
  exact h.eq_false_of_mem_dropWhile

end IsFrontal

namespace IsAscending

variable {lt : α → α → Bool} {xs : List α}

/-- The members that another one does not come before are at the front. -/
theorem isFrontal_not_lt (hx : IsAscending lt xs) (h : IsWeakOrder lt) (x : α) :
    IsFrontal (fun y ↦ !lt x y) xs :=
  hx.imp fun {a b} hba hxb ↦ by
    simp only [Bool.not_eq_true'] at hxb ⊢
    exact h.trans a b x hba hxb

/-- Another member does not come before those that the search for its place passes. -/
theorem not_lt_of_mem_take_reach (hx : IsAscending lt xs) (h : IsWeakOrder lt) (side : Side) (x : α) :
    ∀ y ∈ xs.take (reach side (fun y ↦ !lt x y) xs), lt x y = false := by
  intro y hy
  simpa using (hx.isFrontal_not_lt h x).eq_true_of_mem_take_reach side y hy

/-- It comes before all others. -/
theorem lt_of_mem_drop_reach (hx : IsAscending lt xs) (h : IsWeakOrder lt) (side : Side) (x : α) :
    ∀ y ∈ xs.drop (reach side (fun y ↦ !lt x y) xs), lt x y = true := by
  intro y hy
  simpa using (hx.isFrontal_not_lt h x).eq_false_of_mem_drop_reach side y hy

/-- The members that come before another one are at the front. -/
theorem isFrontal_lt (hx : IsAscending lt xs) (h : IsWeakOrder lt) (x : α) :
    IsFrontal (fun y ↦ lt y x) xs :=
  hx.imp fun hba hbx ↦ h.lt_of_not_lt_of_lt hba hbx

end IsAscending

end FlowChart
