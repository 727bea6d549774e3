import FlowChart.Table

/-!
# Faults

A fault ends an operation whose input does not have the form that the operation relies on: a key
that is not in a table, a value of the wrong kind, a division by zero. Faults are told apart from
rejections, which are answers about well-formed requests.
-/

namespace FlowChart

/-- Why an operation could not go on. -/
inductive Fault where
  /-- A table has no value under the key. -/
  | missingKey (key : String)
  /-- A value cannot be used as a sequence, as an object or as a number. -/
  | wrongKind (kind : String)
  /-- A text or an array is used where fields are looked up. -/
  | withoutFields (kind : String)
  /-- A setting that does not exist. -/
  | unknownSetting (name : String)
  /-- A text does not denote a number. -/
  | notANumber (text : String)
  /-- A whole number lies beyond the range of binary floating point. -/
  | beyondRange
  /-- A whole number is written with more digits than are accepted. -/
  | tooManyDigits (count : Nat)
  /-- A value is nested deeper than is accepted. -/
  | tooDeep
  /-- The extremum of no numbers. -/
  | emptyExtremum
  /-- A division by zero. -/
  | divisionByZero
  /-- A search starts at a node that the graph does not have. -/
  | unknownStart (id : String)
  deriving Repr, DecidableEq

namespace Table

variable {κ α : Type} [DecidableEq κ] [ToString κ]

/-- The value under a key that must be there. -/
def fetch (t : Table κ α) (k : κ) : Except Fault α :=
  match t.get? k with
  | some v => .ok v
  | none => .error (.missingKey (toString k))

/-- Fetching succeeds with a value exactly when the key has that value. -/
theorem fetch_eq_ok_iff {t : Table κ α} {k : κ} {v : α} :
    t.fetch k = .ok v ↔ t.get? k = some v := by
  unfold fetch
  split <;> simp_all

end Table

end FlowChart
