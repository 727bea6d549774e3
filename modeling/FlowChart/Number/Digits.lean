import FlowChart.Fault

/-!
# Digits of whole numbers

A whole number is read and written in decimal only if it has not too many digits. In hexadecimal
there is no such limit, so a number that was read may be one that cannot be written.
-/

namespace FlowChart

/-- The greatest number of decimal digits that a whole number may have. -/
def digitLimit : Nat := 4300

/-- The decimal text of a whole number. -/
def decimalText (n : Nat) : Except Fault String :=
  let digits := toString n
  if digitLimit < digits.length then .error (.tooManyDigits digits.length) else .ok digits

/-- A whole number can be written exactly when its digits are within the limit. -/
theorem decimalText_eq_ok_iff {n : Nat} {text : String} :
    decimalText n = .ok text ↔ toString n = text ∧ text.length ≤ digitLimit := by
  simp only [decimalText]
  split
  · next h =>
    refine ⟨fun heq ↦ by simp at heq, fun ⟨heq, hle⟩ ↦ ?_⟩
    rw [heq] at h
    exact absurd hle (Nat.not_le.mpr h)
  · next h =>
    refine ⟨fun heq ↦ ?_, fun ⟨heq, _⟩ ↦ by rw [heq]⟩
    have heq : toString n = text := by simpa using heq
    exact ⟨heq, heq ▸ Nat.le_of_not_lt h⟩

end FlowChart
