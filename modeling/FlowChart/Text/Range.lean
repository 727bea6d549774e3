/-!
# Sets of characters given by ranges of code points

Character properties are tables of closed ranges. A character has the property exactly when its
code point lies in one of them.
-/

namespace FlowChart.Text

/-- Membership of a character in a table of closed ranges of code points. -/
def inRanges (table : List (Nat × Nat)) (c : Char) : Bool :=
  table.any fun range ↦ range.1 ≤ c.toNat && c.toNat ≤ range.2

/-- A character is in the table exactly when some range holds its code point. -/
theorem inRanges_iff {table : List (Nat × Nat)} {c : Char} :
    inRanges table c = true ↔ ∃ r ∈ table, r.1 ≤ c.toNat ∧ c.toNat ≤ r.2 := by
  simp [inRanges]

end FlowChart.Text
