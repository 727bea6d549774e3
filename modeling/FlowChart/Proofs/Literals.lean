import FlowChart.Instruction.Address
import FlowChart.Proofs.Text.HexNumerals
import Mathlib.Data.List.TakeWhile

/-!
# Literals among operands

A literal starts wherever a digit follows a small mark. An operand text is searched from the left,
so it names an address exactly if a literal starts somewhere in it, and the address is that of the
first one, with all digits that follow its mark. What stands before the first literal and what
stands behind its digits make no difference.
-/

namespace FlowChart.Address

open Text

variable {cs : List Char} {address : Nat}

/-- A literal starts at a place of a text: there is a mark with a digit right behind it. -/
def HasLiteralAt (cs : List Char) (i : Nat) : Prop :=
  ∃ digit rest, cs.drop i = '0' :: 'x' :: digit :: rest ∧ isHexDigit digit = true

/-- The first literal of a text stands for an address. All digits behind its mark belong to it. -/
inductive IsFirstLiteral : List Char → Nat → Prop where
  /-- The parts of such a text. -/
  | intro {before digits after : List Char} {address : Nat}
      (none_before : ∀ i < before.length,
        ¬ HasLiteralAt (before ++ '0' :: 'x' :: (digits ++ after)) i)
      (isNumeral : IsHexNumeral digits address)
      (ends : ∀ c ∈ after.head?, isHexDigit c = false) :
      IsFirstLiteral (before ++ '0' :: 'x' :: (digits ++ after)) address

/-! ### One literal -/

/-- A text starts with a literal if one can be read at its start. -/
private theorem isSome_literal?_iff : (literal? cs).isSome = true ↔ HasLiteralAt cs 0 := by
  unfold literal?
  split
  · next rest =>
    cases rest with
    | nil => simp [HasLiteralAt]
    | cons digit rest =>
      cases hdigit : isHexDigit digit <;> simp [HasLiteralAt, hdigit]
  · next hmark =>
    refine ⟨fun h ↦ absurd h (by simp), ?_⟩
    rintro ⟨digit, rest, h, -⟩
    exact absurd h (hmark _)

instance (cs : List Char) (i : Nat) : Decidable (HasLiteralAt cs i) :=
  decidable_of_iff ((literal? (cs.drop i)).isSome = true) isSome_literal?_iff

/-- The digits of a literal are read up to a character that is none. -/
private theorem literal?_append {digits after : List Char} (hdigits : IsHexNumeral digits address)
    (hends : ∀ c ∈ after.head?, isHexDigit c = false) :
    literal? ('0' :: 'x' :: (digits ++ after)) = some address := by
  obtain ⟨hne, hall, hvalue⟩ := isHexNumeral_iff.mp hdigits
  have hrun : (digits ++ after).takeWhile isHexDigit = digits := by
    rw [List.takeWhile_append_of_pos hall, takeWhile_isHexDigit_eq_nil hends, List.append_nil]
  simp only [literal?, hrun, List.isEmpty_eq_false_iff.mpr hne, hvalue]
  rfl

/-- What is read at the start of a text is a literal with all its digits. -/
private theorem exists_of_literal? (h : literal? cs = some address) :
    ∃ digits after, cs = '0' :: 'x' :: (digits ++ after) ∧ IsHexNumeral digits address ∧
      ∀ c ∈ after.head?, isHexDigit c = false := by
  unfold literal? at h
  split at h
  · next rest =>
    dsimp only at h
    split at h
    · cases h
    · next hne =>
      refine ⟨rest.takeWhile isHexDigit, rest.dropWhile isHexDigit, ?_, ?_, ?_⟩
      · rw [List.takeWhile_append_dropWhile]
      · exact isHexNumeral_iff.mpr ⟨mt List.isEmpty_iff.mpr hne, fun c ↦ List.mem_takeWhile_imp,
          Option.some.inj h⟩
      · intro c hc
        have hstop := List.head?_dropWhile_not isHexDigit rest
        rwa [Option.mem_def.mp hc] at hstop
  · cases h

/-! ### The first literal -/

/-- The search goes on behind the first character if no literal starts with it. -/
private theorem firstLiteral?_cons (c : Char) (rest : List Char) :
    firstLiteral? (c :: rest) = (literal? (c :: rest)).or (firstLiteral? rest) := by
  rw [firstLiteral?]
  cases literal? (c :: rest) <;> rfl

/-- Nothing is found if no literal starts anywhere. -/
theorem firstLiteral?_eq_none_iff : firstLiteral? cs = none ↔ ∀ i, ¬ HasLiteralAt cs i := by
  induction cs with
  | nil => simp [firstLiteral?, HasLiteralAt]
  | cons c rest ih =>
    rw [firstLiteral?_cons, Option.or_eq_none_iff, ih, ← Option.not_isSome_iff_eq_none,
      isSome_literal?_iff]
    constructor
    · rintro ⟨hfirst, hrest⟩ (_ | i)
      · exact hfirst
      · exact hrest i
    · exact fun h ↦ ⟨h 0, fun i ↦ h (i + 1)⟩

/-- The search passes over characters with which no literal starts. -/
theorem firstLiteral?_append {before : List Char}
    (h : ∀ i < before.length, ¬ HasLiteralAt (before ++ cs) i) :
    firstLiteral? (before ++ cs) = firstLiteral? cs := by
  induction before with
  | nil => rfl
  | cons c before ih =>
    have hfirst : literal? (c :: (before ++ cs)) = none := by
      rw [← Option.not_isSome_iff_eq_none, isSome_literal?_iff]
      exact h 0 (Nat.succ_pos _)
    rw [List.cons_append, firstLiteral?_cons, hfirst, Option.none_or]
    exact ih fun i hi ↦ h (i + 1) (Nat.succ_lt_succ hi)

/-- What is found is the first literal. -/
theorem firstLiteral?_eq_some_iff :
    firstLiteral? cs = some address ↔ IsFirstLiteral cs address := by
  constructor
  · intro h
    induction cs with
    | nil => cases h
    | cons c rest ih =>
      rw [firstLiteral?_cons, Option.or_eq_some_iff] at h
      rcases h with hfirst | ⟨hnone, hrest⟩
      · obtain ⟨digits, after, hcs, hdigits, hends⟩ := exists_of_literal? hfirst
        rw [hcs]
        exact @IsFirstLiteral.intro [] digits after address (by simp) hdigits hends
      · cases ih hrest with
        | @intro before digits after _ hbefore hdigits hends =>
          refine @IsFirstLiteral.intro (c :: before) digits after address (fun i hi ↦ ?_) hdigits
            hends
          rw [← Option.not_isSome_iff_eq_none, isSome_literal?_iff] at hnone
          cases i with
          | zero => exact hnone
          | succ i => exact hbefore i (Nat.lt_of_succ_lt_succ hi)
  · rintro ⟨hbefore, hdigits, hends⟩
    rw [firstLiteral?_append hbefore]
    exact firstLiteral?_of_literal? (literal?_append hdigits hends)

/-- An operand text names an address exactly if a literal starts somewhere in it, and then that of
the first literal. So the text that is written for an address is found again, if no literal starts
before it and no digit follows it. -/
theorem jumpTarget_isFirstLiteral (operands : String) :
    (jumpTarget? operands = none ↔ ∀ i, ¬ HasLiteralAt operands.toList i) ∧
      (∀ address, jumpTarget? operands = some address ↔ IsFirstLiteral operands.toList address) ∧
      ∀ before address after, operands = before ++ toText address ++ after →
        (∀ c ∈ after.toList.head?, isHexDigit c = false) →
        (∀ i < before.toList.length, ¬ HasLiteralAt operands.toList i) →
        jumpTarget? operands = some address := by
  refine ⟨firstLiteral?_eq_none_iff, fun _ ↦ firstLiteral?_eq_some_iff, ?_⟩
  rintro before address after rfl hends hbefore
  have hchars : (before ++ toText address ++ after).toList =
      before.toList ++ '0' :: 'x' :: (hexDigits address ++ after.toList) := by
    simp [toText, hexLiteral]
  rw [hchars] at hbefore
  rw [jumpTarget?, hchars, firstLiteral?_eq_some_iff]
  exact .intro hbefore (isHexNumeral_hexDigits address) hends

/-- Neither a mark without digits nor a zero in front of the mark hides a literal. -/
theorem jumpTarget_isFirstLiteral_overlap :
    "0xg, 00x1f], 0x20" = "0xg, 0" ++ toText 31 ++ "], 0x20" ∧
      jumpTarget? "0xg, 00x1f], 0x20" = some 31 := by
  have hparts : "0xg, 00x1f], 0x20" = "0xg, 0" ++ toText 31 ++ "], 0x20" := by decide
  have hends : ∀ c ∈ "], 0x20".toList.head?, isHexDigit c = false := by
    rintro c ⟨⟩
    decide
  exact ⟨hparts, (jumpTarget_isFirstLiteral _).2.2 "0xg, 0" 31 "], 0x20" hparts hends (by decide)⟩

end FlowChart.Address
