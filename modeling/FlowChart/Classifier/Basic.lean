import FlowChart.Text.LowerCase

/-!
# Classifying operations

Splitting a listing into blocks needs to know of an operation whether it ends a block and how. A
classifier is four sets of mnemonics for one instruction set. A call returns to the next
instruction, so it never ends a block, even if its mnemonic is also listed as a jump.
-/

namespace FlowChart

/-- The mnemonics of an instruction set that transfer control. -/
structure Classifier where
  /-- The name of the instruction set. -/
  name : String
  /-- Jumps that are always taken. -/
  unconditional : List String := []
  /-- Jumps that may fall through. -/
  conditional : List String := []
  /-- Returns to the caller. -/
  returns : List String := []
  /-- Calls, which come back. -/
  calls : List String := []
  deriving Repr, DecidableEq

namespace Classifier

/-- Whether an operation is a call. -/
def isCall (c : Classifier) (mnemonic : String) : Bool := c.calls.contains (Text.lower mnemonic)

/-- Whether an operation is a return. -/
def isReturn (c : Classifier) (mnemonic : String) : Bool :=
  c.returns.contains (Text.lower mnemonic)

/-- Whether an operation is a jump that may fall through. -/
def isConditional (c : Classifier) (mnemonic : String) : Bool :=
  c.conditional.contains (Text.lower mnemonic)

/-- Whether an operation ends a block: a jump or a return that is not a call. -/
def isBranch (c : Classifier) (mnemonic : String) : Bool :=
  !c.isCall mnemonic &&
    let m := Text.lower mnemonic
    c.unconditional.contains m || c.conditional.contains m || c.returns.contains m

/-- All members of two sets, once each where they overlap. -/
def union (xs ys : List String) : List String := xs ++ ys.filter fun y ↦ !xs.contains y

/-- The classifier that knows what either of two classifiers knows. -/
def merge (a b : Classifier) (name : String) : Classifier where
  name := name
  unconditional := union a.unconditional b.unconditional
  conditional := union a.conditional b.conditional
  returns := union a.returns b.returns
  calls := union a.calls b.calls

/-- A union has the members of both sets. -/
theorem contains_union (xs ys : List String) (s : String) :
    (union xs ys).contains s = (xs.contains s || ys.contains s) := by
  rw [Bool.eq_iff_iff]
  simp only [union, List.contains_eq_mem, decide_eq_true_eq, Bool.or_eq_true, List.mem_append,
    List.mem_filter, Bool.not_eq_true', decide_eq_false_iff_not]
  constructor
  · rintro (h | h)
    · exact .inl h
    · exact .inr h.1
  · rintro (h | h)
    · exact .inl h
    · by_cases hx : s ∈ xs
      · exact .inl hx
      · exact .inr ⟨h, hx⟩

/-- A call is no branch. -/
theorem isBranch_of_isCall {c : Classifier} {m : String} (h : c.isCall m = true) :
    c.isBranch m = false := by
  simp [isBranch, h]

end Classifier

end FlowChart
