import FlowChart.Fault
import FlowChart.Number.Scalar

/-!
# Operations that may fault

Division and the extrema of a list are defined only for some arguments; these forms say so.
-/

namespace FlowChart.Scalar

variable {α : Type} [Scalar α]

/-- Division by a number that must not be zero. -/
def divide (x y : α) : Except Fault α :=
  if isZero y then .error .divisionByZero else .ok (x / y)

/-- Division by a number of things, of which there must be some. -/
def share (x : α) (count : Nat) : Except Fault α :=
  if count = 0 then .error .divisionByZero else .ok (x / (count : α))

/-- The largest member of a list that must not be empty. -/
def largestOf : List α → Except Fault α
  | [] => .error .emptyExtremum
  | x :: xs => .ok (largest x xs)

/-- The smallest member of a list that must not be empty. -/
def smallestOf : List α → Except Fault α
  | [] => .error .emptyExtremum
  | x :: xs => .ok (smallest x xs)

/-- Division succeeds exactly when the divisor is not zero. -/
theorem divide_eq_ok_iff {x y z : α} : divide x y = .ok z ↔ isZero y = false ∧ x / y = z := by
  unfold divide
  split <;> simp_all

/-- Sharing among some things succeeds. -/
theorem share_of_ne_zero (x : α) {count : Nat} (h : count ≠ 0) :
    share x count = .ok (x / (count : α)) := by
  simp [share, h]

/-- The largest member is found exactly when there is a member. -/
theorem largestOf_cons (x : α) (xs : List α) : largestOf (x :: xs) = .ok (largest x xs) := rfl

/-- The smallest member is found exactly when there is a member. -/
theorem smallestOf_cons (x : α) (xs : List α) : smallestOf (x :: xs) = .ok (smallest x xs) := rfl

end FlowChart.Scalar
