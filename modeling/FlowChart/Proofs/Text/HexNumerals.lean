import FlowChart.Proofs.Matching
import FlowChart.Proofs.Text.LetterCase
import Mathlib.Data.Nat.Digits.Defs

/-!
# Hexadecimal numerals

A numeral is one or more digits in any letter case, zeros in front included. It stands for the sum
of the values of its digits, each times the power of sixteen that belongs to its place. Reading
digits gives that sum, and a number is read back from its own digits.
-/

namespace FlowChart.Text

variable {c : Char} {digits : List Char} {n : Nat}

/-- A character is the digit for a value, in either letter case. -/
structure IsHexDigitOf (c : Char) (value : Nat) : Prop where
  /-- There are sixteen digits. -/
  lt : value < 16
  /-- In lower case it is the digit. -/
  toLower_eq : c.toLower = Nat.digitChar value

/-- Digits stand for a number. -/
structure IsHexNumeral (digits : List Char) (n : Nat) : Prop where
  /-- There is a digit. -/
  ne_nil : digits ≠ []
  /-- The values of the digits, the last one first, make up the number. -/
  exists_values : ∃ values, List.Forall₂ IsHexDigitOf digits values ∧
    Nat.ofDigits 16 values.reverse = n

/-! ### Digits -/

/-- A value is read from its digit. -/
theorem hexValue?_digitChar {value : Nat} (h : value < 16) :
    hexValue? (Nat.digitChar value) = some value := by
  have hdigits : ∀ v < 16, hexValue? (Nat.digitChar v) = some v := by decide
  exact hdigits value h

/-- A character is worth what it is the digit for. -/
theorem hexValue?_eq_some_iff {value : Nat} : hexValue? c = some value ↔ IsHexDigitOf c value := by
  constructor
  · intro h
    refine ⟨lt_of_hexValue? h, ?_⟩
    have hbound := (toNat_bounds_of_isHexDigit (c := c) (by rw [isHexDigit, h]; rfl)).2
    have hascii : ∀ k < 103, ∀ v ∈ hexValue? (Char.ofNat k),
        (Char.ofNat k).toLower = Nat.digitChar v := by decide
    rw [← Char.ofNat_toNat c] at h ⊢
    exact hascii c.toNat (by omega) value h
  · rintro ⟨hlt, hlower⟩
    rw [← hexValue?_toLower, hlower, hexValue?_digitChar hlt]

/-- A character is a digit if it is the digit for some value. -/
theorem isHexDigit_iff : isHexDigit c = true ↔ ∃ value, IsHexDigitOf c value := by
  simp only [isHexDigit, Option.isSome_iff_exists, hexValue?_eq_some_iff]

/-! ### Numerals -/

/-- Digits are read by their places. -/
theorem ofHexDigits_eq_ofDigits {values : List Nat}
    (h : List.Forall₂ IsHexDigitOf digits values) :
    ofHexDigits digits = Nat.ofDigits 16 values.reverse := by
  suffices hfrom : ∀ n, digits.foldl (fun n c ↦ 16 * n + (hexValue? c).getD 0) n =
      Nat.ofDigits 16 (values.reverse ++ [n]) by
    have hstart := hfrom 0
    rwa [Nat.ofDigits_append, Nat.ofDigits_singleton, Nat.mul_zero, Nat.add_zero] at hstart
  induction h with
  | nil => exact fun n ↦ Nat.ofDigits_singleton.symm
  | @cons c value digits values hc _ ih =>
    intro n
    have hlast : 16 * n + value = Nat.ofDigits 16 [value, n] := by
      rw [Nat.ofDigits_cons, Nat.ofDigits_singleton, Nat.add_comm]
    rw [List.foldl_cons, ih, hexValue?_eq_some_iff.mpr hc, Option.getD_some, hlast,
      List.reverse_cons, List.append_assoc, Nat.ofDigits_append, Nat.ofDigits_append,
      Nat.ofDigits_singleton, List.singleton_append]

/-- Numerals are the texts of one or more digits, and stand for what is read from them. -/
theorem isHexNumeral_iff :
    IsHexNumeral digits n ↔
      digits ≠ [] ∧ (∀ c ∈ digits, isHexDigit c = true) ∧ ofHexDigits digits = n := by
  constructor
  · rintro ⟨hne, values, hvalues, rfl⟩
    refine ⟨hne, fun c hc ↦ ?_, ofHexDigits_eq_ofDigits hvalues⟩
    obtain ⟨value, -, hvalue⟩ := exists_of_forall₂ hvalues.flip hc
    exact isHexDigit_iff.mpr ⟨value, hvalue⟩
  · rintro ⟨hne, hdigits, rfl⟩
    have hvalues : List.Forall₂ IsHexDigitOf digits
        (digits.map fun c ↦ (hexValue? c).getD 0) := by
      refine List.forall₂_map_right_iff.mpr (List.forall₂_same.mpr fun c hc ↦ ?_)
      obtain ⟨value, hvalue⟩ := isHexDigit_iff.mp (hdigits c hc)
      rwa [hexValue?_eq_some_iff.mpr hvalue]
    exact ⟨hne, _, hvalues, (ofHexDigits_eq_ofDigits hvalues).symm⟩

/-- A number is read back from its digits. -/
theorem isHexNumeral_hexDigits (n : Nat) : IsHexNumeral (hexDigits n) n := by
  have hdigit : ∀ d < 16, isHexDigit (Nat.digitChar d) = true ∧
      hexValue? (Nat.digitChar d) = some d := fun d hd ↦
    ⟨by rw [isHexDigit, hexValue?_digitChar hd]; rfl, hexValue?_digitChar hd⟩
  refine isHexNumeral_iff.mpr ⟨Nat.toDigits_ne_nil, ?_⟩
  induction n using Nat.strongRecOn with
  | ind n ih =>
    have hlast := hdigit (n % 16) (Nat.mod_lt n (by decide))
    rw [hexDigits, Nat.toDigits_eq_if (by decide)]
    split
    · next hlt =>
      rw [Nat.mod_eq_of_lt hlt] at hlast
      exact ⟨List.forall_mem_singleton.mpr hlast.1, by simp [ofHexDigits, hlast.2]⟩
    · next hge =>
      obtain ⟨hfront, hvalue⟩ := ih (n / 16) (Nat.div_lt_self (by omega) (by decide))
      rw [hexDigits] at hfront hvalue
      rw [List.forall_mem_append, ofHexDigits_concat, hvalue, hlast.2, Option.getD_some]
      exact ⟨⟨hfront, List.forall_mem_singleton.mpr hlast.1⟩, Nat.div_add_mod n 16⟩

end FlowChart.Text
