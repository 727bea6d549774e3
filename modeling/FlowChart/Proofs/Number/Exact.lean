import FlowChart.Number.Checked
import Mathlib.Algebra.Order.Ring.Rat
import Mathlib.Algebra.Order.Group.Abs
import Mathlib.Tactic.Linarith

/-!
# Exact arithmetic

Over the rationals the operations on scalars are those of the ordered field, and extrema are members
that bound every member.
-/

namespace FlowChart.Scalar

/-- The larger of two rationals is their maximum. -/
theorem larger_eq_max (x y : Rat) : larger x y = max x y := by
  unfold larger
  split
  · next h => exact (max_eq_right h.le).symm
  · next h => exact (max_eq_left (not_lt.mp h)).symm

/-- The smaller of two rationals is their minimum. -/
theorem smaller_eq_min (x y : Rat) : smaller x y = min x y := by
  unfold smaller
  split
  · next h => exact (min_eq_right h.le).symm
  · next h => exact (min_eq_left (not_lt.mp h)).symm

/-- Half of a rational. -/
theorem half_eq_div (x : Rat) : half x = x / 2 := rfl

/-- Dividing by a rational that is not zero is dividing in the field. -/
theorem divide_eq_ok (x : Rat) {y : Rat} (h : y ≠ 0) : divide x y = .ok (x / y) := by
  refine divide_eq_ok_iff.mpr ⟨?_, rfl⟩
  rw [isZero, Nat.cast_zero, Bool.and_eq_false_iff, decide_eq_false_iff_not,
    decide_eq_false_iff_not, ← not_and_or]
  exact fun hzero ↦ h (le_antisymm hzero.1 hzero.2)

/-- The sum of rationals is that of the field. -/
theorem sum_eq_sum (xs : List Rat) : sum xs = xs.sum := by
  show xs.foldl (· + ·) ((0 : Nat) : Rat) = xs.sum
  rw [List.sum_eq_foldl, Nat.cast_zero]

private theorem le_largest {x : Rat} {xs : List Rat} {y : Rat} (hy : y ∈ x :: xs) :
    y ≤ largest x xs := by
  unfold largest
  induction xs generalizing x y with
  | nil => exact le_of_eq (List.mem_singleton.mp hy)
  | cons z zs ih =>
    rw [List.foldl_cons, larger_eq_max]
    rcases List.mem_cons.mp hy with rfl | hy
    · exact (le_max_left y z).trans (ih List.mem_cons_self)
    · rcases List.mem_cons.mp hy with rfl | hy
      · exact (le_max_right x y).trans (ih List.mem_cons_self)
      · exact ih (List.mem_cons_of_mem _ hy)

private theorem smallest_le {x : Rat} {xs : List Rat} {y : Rat} (hy : y ∈ x :: xs) :
    smallest x xs ≤ y := by
  unfold smallest
  induction xs generalizing x y with
  | nil => exact le_of_eq (List.mem_singleton.mp hy).symm
  | cons z zs ih =>
    rw [List.foldl_cons, smaller_eq_min]
    rcases List.mem_cons.mp hy with rfl | hy
    · exact le_trans (ih List.mem_cons_self) (min_le_left y z)
    · rcases List.mem_cons.mp hy with rfl | hy
      · exact le_trans (ih List.mem_cons_self) (min_le_right x y)
      · exact ih (List.mem_cons_of_mem _ hy)

/-- The largest member bounds all members from above. -/
theorem le_of_largestOf {xs : List Rat} {m : Rat} (h : largestOf xs = .ok m) :
    ∀ y ∈ xs, y ≤ m := by
  cases xs with
  | nil => simp [largestOf] at h
  | cons x xs =>
    cases h
    exact fun y hy ↦ le_largest hy

/-- The smallest member bounds all members from below. -/
theorem le_of_smallestOf {xs : List Rat} {m : Rat} (h : smallestOf xs = .ok m) :
    ∀ y ∈ xs, m ≤ y := by
  cases xs with
  | nil => simp [smallestOf] at h
  | cons x xs =>
    cases h
    exact fun y hy ↦ smallest_le hy

private theorem largest_mem (x : Rat) (xs : List Rat) : largest x xs ∈ x :: xs := by
  unfold largest
  induction xs generalizing x with
  | nil => exact List.mem_singleton_self x
  | cons y ys ih =>
    have hmem := ih (larger x y)
    rw [List.foldl_cons, List.mem_cons, List.mem_cons]
    rcases List.mem_cons.mp hmem with hsame | hys
    · rw [hsame, larger_eq_max]
      exact (max_choice x y).imp_right Or.inl
    · exact .inr (.inr hys)

private theorem smallest_mem (x : Rat) (xs : List Rat) : smallest x xs ∈ x :: xs := by
  unfold smallest
  induction xs generalizing x with
  | nil => exact List.mem_singleton_self x
  | cons y ys ih =>
    have hmem := ih (smaller x y)
    rw [List.foldl_cons, List.mem_cons, List.mem_cons]
    rcases List.mem_cons.mp hmem with hsame | hys
    · rw [hsame, smaller_eq_min]
      exact (min_choice x y).imp_right Or.inl
    · exact .inr (.inr hys)

/-- The largest member of a list is its greatest one. -/
theorem isGreatest_of_largestOf {xs : List Rat} {m : Rat} (h : largestOf xs = .ok m) :
    IsGreatest {y | y ∈ xs} m := by
  refine ⟨?_, le_of_largestOf h⟩
  cases xs with
  | nil => simp [largestOf] at h
  | cons x xs =>
    cases h
    exact largest_mem x xs

/-- The smallest member of a list is its least one. -/
theorem isLeast_of_smallestOf {xs : List Rat} {m : Rat} (h : smallestOf xs = .ok m) :
    IsLeast {y | y ∈ xs} m := by
  refine ⟨?_, le_of_smallestOf h⟩
  cases xs with
  | nil => simp [smallestOf] at h
  | cons x xs =>
    cases h
    exact smallest_mem x xs

end FlowChart.Scalar
