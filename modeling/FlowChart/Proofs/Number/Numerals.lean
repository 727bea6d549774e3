import FlowChart.Number.Reading
import FlowChart.Number.Text
import FlowChart.Proofs.Number.Rounding

/-!
# Reading numbers back

A decimal text is read as the exact number that it stands for. The text of a decimal in either
layout, positional or with an exponent, is read as that decimal.
-/

namespace FlowChart

open Decimal

namespace Text

/-- The exact number of a text that was taken apart. -/
def DecimalParts.value (parts : DecimalParts) : Rat :=
  ofDecimalDigits (parts.whole ++ parts.fraction) * 10 ^ (parts.exponent - parts.fraction.length)

/-- The exact number that a text without sign stands for. -/
def unsignedNumber? (cs : List Char) : Option Rat := (unsignedParts? cs).map DecimalParts.value

/-- The exact number that a text stands for. -/
def number? (cs : List Char) : Option Rat :=
  (unsignedNumber? (splitSign cs).2).map (withSign (splitSign cs).1)

/-! ### Digits -/

theorem ofDecimalDigits_toDigits (n : Nat) : ofDecimalDigits (Nat.toDigits 10 n) = n :=
  Nat.ofDigitChars_toDigits (by decide) (by decide)

theorem isDecimalDigit_of_mem_toDigits {n : Nat} {c : Char} (h : c ∈ Nat.toDigits 10 n) :
    isDecimalDigit c = true :=
  Nat.isDigit_of_mem_toDigits (by decide) (by decide) h

/-- Zeros in front of digits do not count. -/
theorem ofDecimalDigits_zeros_append (zeros : Nat) (cs : List Char) :
    ofDecimalDigits (List.replicate zeros '0' ++ cs) = ofDecimalDigits cs := by
  induction zeros with
  | zero => rfl
  | succ zeros ih => exact ih

/-- Zeros behind digits multiply by powers of ten. -/
theorem ofDecimalDigits_append_zeros (cs : List Char) (zeros : Nat) :
    ofDecimalDigits (cs ++ List.replicate zeros '0') = ofDecimalDigits cs * 10 ^ zeros := by
  induction zeros with
  | zero => simp
  | succ zeros ih =>
    rw [List.replicate_succ', ← List.append_assoc, ofDecimalDigits, List.foldl_append]
    show 10 * ofDecimalDigits (cs ++ List.replicate zeros '0') + 0 = _
    rw [ih, Nat.pow_succ]
    ring

/-- A text of digits only. -/
def AllDigits (cs : List Char) : Prop := ∀ c ∈ cs, isDecimalDigit c = true

theorem allDigits_toDigits (n : Nat) : AllDigits (Nat.toDigits 10 n) :=
  fun _ ↦ isDecimalDigit_of_mem_toDigits

theorem allDigits_zeros (zeros : Nat) : AllDigits (List.replicate zeros '0') :=
  fun c hc ↦ by rw [List.eq_of_mem_replicate hc]; rfl

theorem AllDigits.append {cs ds : List Char} (hcs : AllDigits cs) (hds : AllDigits ds) :
    AllDigits (cs ++ ds) :=
  fun c hc ↦ (List.mem_append.mp hc).elim (hcs c) (hds c)

theorem AllDigits.take {cs : List Char} (h : AllDigits cs) (n : Nat) : AllDigits (cs.take n) :=
  fun c hc ↦ h c (List.mem_of_mem_take hc)

theorem AllDigits.drop {cs : List Char} (h : AllDigits cs) (n : Nat) : AllDigits (cs.drop n) :=
  fun c hc ↦ h c (List.mem_of_mem_drop hc)

/-- Digits up to a text that does not go on with one. -/
theorem AllDigits.span_append {cs : List Char} (h : AllDigits cs) (rest : List Char)
    (hrest : rest.takeWhile isDecimalDigit = []) (hsame : rest.dropWhile isDecimalDigit = rest) :
    (cs ++ rest).takeWhile isDecimalDigit = cs ∧ (cs ++ rest).dropWhile isDecimalDigit = rest := by
  rw [List.takeWhile_append_of_pos h, List.dropWhile_append_of_pos h, hrest, hsame,
    List.append_nil]
  exact ⟨rfl, rfl⟩

/-! ### Exponents -/

/-- What stands behind the digits of a number, and the power of ten that it means. -/
inductive IsExponent : List Char → Int → Prop where
  /-- Nothing, for no exponent. -/
  | none : IsExponent [] 0
  /-- The mark with the text of an exponent. -/
  | mark (e : Int) : IsExponent ('e' :: exponentText e) e

/-- The text of an exponent is read as that exponent. -/
theorem splitExponent?_exponentText (e : Int) :
    splitExponent? ('e' :: exponentText e) = some (e, []) := by
  obtain ⟨digits, hdigits⟩ : ∃ digits, digits =
    List.replicate (2 - (Nat.toDigits 10 e.natAbs).length) '0' ++ Nat.toDigits 10 e.natAbs :=
    ⟨_, rfl⟩
  have hall : AllDigits digits := hdigits ▸ (allDigits_zeros _).append (allDigits_toDigits _)
  have hvalue : ofDecimalDigits digits = e.natAbs := by
    rw [hdigits, ofDecimalDigits_zeros_append, ofDecimalDigits_toDigits]
  have hne : digits ≠ [] := by
    have hlength := Nat.length_toDigits_pos (b := 10) (n := e.natAbs)
    rw [hdigits]
    exact fun h ↦ List.length_pos_iff.mp hlength (List.append_eq_nil_iff.mp h).2
  obtain ⟨htake, hdrop⟩ := hall.span_append [] rfl rfl
  rw [List.append_nil] at htake hdrop
  rw [exponentText, ← hdigits]
  split
  · next hneg =>
    have hsize : -(ofDecimalDigits digits : Int) = e := by
      rw [hvalue]
      omega
    simpa [splitExponent?, splitSign, htake, hdrop, hne] using hsize
  · next hnonneg =>
    have hsize : (ofDecimalDigits digits : Int) = e := by
      rw [hvalue]
      omega
    simpa [splitExponent?, splitSign, htake, hdrop, hne] using hsize

variable {whole fraction mark : List Char} {e : Int}

/-- Digits alone, or with an exponent, are read as these. -/
theorem unsignedParts?_whole (hwhole : AllDigits whole) (hne : whole ≠ []) (h : IsExponent mark e) :
    unsignedParts? (whole ++ mark) = some ⟨whole, [], e⟩ := by
  have hempty : whole.isEmpty = false := List.isEmpty_eq_false_iff.mpr hne
  cases h with
  | none =>
    obtain ⟨htake, hdrop⟩ := hwhole.span_append [] rfl rfl
    simp only [unsignedParts?, htake, hdrop, hempty, Bool.false_and, Bool.false_eq_true, if_false]
  | mark =>
    obtain ⟨htake, hdrop⟩ := hwhole.span_append ('e' :: exponentText e) rfl rfl
    simp [unsignedParts?, htake, hdrop, hempty, splitExponent?_exponentText]

/-- Digits with a point among them, or also an exponent, are read as these. -/
theorem unsignedParts?_point (hwhole : AllDigits whole) (hne : whole ≠ [])
    (hfraction : AllDigits fraction) (h : IsExponent mark e) :
    unsignedParts? (whole ++ '.' :: (fraction ++ mark)) = some ⟨whole, fraction, e⟩ := by
  have hempty : whole.isEmpty = false := List.isEmpty_eq_false_iff.mpr hne
  obtain ⟨htake, hdrop⟩ := hwhole.span_append ('.' :: (fraction ++ mark)) rfl rfl
  cases h with
  | none =>
    obtain ⟨htake', hdrop'⟩ := hfraction.span_append [] rfl rfl
    simp only [unsignedParts?, htake, hdrop, htake', hdrop', hempty, Bool.false_and,
      Bool.false_eq_true, if_false]
  | mark =>
    obtain ⟨htake', hdrop'⟩ := hfraction.span_append ('e' :: exponentText e) rfl rfl
    simp only [unsignedParts?, htake, hdrop, htake', hdrop', hempty, Bool.false_and,
      Bool.false_eq_true, if_false, splitExponent?_exponentText]

end Text

namespace Decimal

open Text

variable {d : Decimal}

/-- A text is read as a decimal when its digits are those of the decimal, with some zeros behind
them, and end at the same place. -/
theorem unsignedNumber?_eq {cs whole fraction : List Char} {e : Int}
    (hparts : unsignedParts? cs = some ⟨whole, fraction, e⟩) (zeros : Nat)
    (hdigits : ofDecimalDigits (whole ++ fraction) = d.digits * 10 ^ zeros)
    (hplace : e - fraction.length + zeros = d.exponent - d.count + 1) :
    unsignedNumber? cs = some d.value := by
  rw [unsignedNumber?, hparts, Option.map_some, DecimalParts.value, value, hdigits, ← hplace,
    zpow_add₀ (by norm_num), zpow_natCast]
  push_cast
  ring_nf

theorem toDigits_ne_nil (n : Nat) : Nat.toDigits 10 n ≠ [] :=
  List.length_pos_iff.mp Nat.length_toDigits_pos

/-- The digits of a decimal with a point among them are read as that decimal when the point stands
behind the place of the exponent, moved by what the exponent behind the digits says. -/
theorem unsignedNumber?_pointed {mark : List Char} {e : Int} (h : d.IsCounted) {before : Nat}
    (hpos : 0 < before) (hle : before ≤ d.count) (hmark : IsExponent mark e)
    (hplace : e + before = d.exponent + 1) :
    unsignedNumber? ((Nat.toDigits 10 d.digits).take before ++
      '.' :: ((Nat.toDigits 10 d.digits).drop before ++ mark)) = some d.value := by
  have hdigits := allDigits_toDigits d.digits
  have hlength : (Nat.toDigits 10 d.digits).length = d.count := h.count_eq.symm
  have hne : (Nat.toDigits 10 d.digits).take before ≠ [] := by
    rw [← List.length_pos_iff, List.length_take, hlength]
    omega
  refine unsignedNumber?_eq
    (unsignedParts?_point (hdigits.take before) hne (hdigits.drop before) hmark) 0 ?_ ?_
  · rw [List.take_append_drop, ofDecimalDigits_toDigits, Nat.pow_zero, Nat.mul_one]
  · rw [List.length_drop, hlength]
    omega

/-- A decimal written with a point and no exponent is read as that decimal. -/
theorem unsignedNumber?_positional (h : d.IsCounted) :
    unsignedNumber? (d.positional []) = some d.value := by
  have hdigits := allDigits_toDigits d.digits
  have hlength : (Nat.toDigits 10 d.digits).length = d.count := h.count_eq.symm
  have hvalue := ofDecimalDigits_toDigits d.digits
  unfold positional
  dsimp only
  split
  · next hneg =>
    have hparts := unsignedParts?_point (allDigits_zeros 1) (by decide)
      ((allDigits_zeros (d.exponent.natAbs - 1)).append hdigits) .none
    rw [List.append_nil] at hparts
    refine unsignedNumber?_eq hparts 0 ?_ ?_
    · rw [ofDecimalDigits_zeros_append, ofDecimalDigits_zeros_append, hvalue, Nat.pow_zero,
        Nat.mul_one]
    · rw [List.length_append, List.length_replicate, hlength]
      omega
  · split
    · next hwhole =>
      have hparts := unsignedParts?_whole
        (hdigits.append (allDigits_zeros (d.exponent.toNat + 1 - d.count)))
        (List.append_ne_nil_of_left_ne_nil (toDigits_ne_nil _) _) .none
      refine unsignedNumber?_eq hparts (d.exponent.toNat + 1 - d.count) ?_ ?_
      · rw [List.append_nil, ofDecimalDigits_append_zeros, hvalue]
      · rw [List.length_nil]
        omega
    · next hfraction =>
      have hread := unsignedNumber?_pointed h (Nat.succ_pos d.exponent.toNat) (by omega) .none
        (by omega)
      rwa [List.append_nil] at hread

/-- A decimal written with an exponent is read as that decimal. -/
theorem unsignedNumber?_scientific (h : d.IsCounted) :
    unsignedNumber? d.scientific = some d.value := by
  have hcount := h.count_pos
  unfold scientific
  dsimp only
  split
  · next hone =>
    have hparts := unsignedParts?_whole (allDigits_toDigits d.digits) (toDigits_ne_nil _)
      (.mark d.exponent)
    refine unsignedNumber?_eq hparts 0 ?_ ?_
    · rw [List.append_nil, ofDecimalDigits_toDigits, Nat.pow_zero, Nat.mul_one]
    · rw [List.length_nil]
      omega
  · next hmany =>
    have hread := unsignedNumber?_pointed h Nat.one_pos hcount (.mark d.exponent) rfl
    rwa [← List.cons_append, ← List.append_assoc] at hread

end Decimal

/-- A decimal written in a format that adds nothing to whole numbers is read as that decimal. -/
theorem DecimalFormat.unsignedNumber?_write {format : DecimalFormat} (hwhole : format.whole = [])
    {d : Decimal} (h : d.IsCounted) : Text.unsignedNumber? (format.write d) = some d.value := by
  unfold write
  split
  · rw [hwhole]
    exact unsignedNumber?_positional h
  · exact unsignedNumber?_scientific h

namespace Text

/-! ### Signs -/

/-- A text that is read as a number without a sign has none. -/
theorem splitSign_of_unsignedNumber? {cs : List Char} {v : Rat} (h : unsignedNumber? cs = some v) :
    splitSign cs = (false, cs) := by
  unfold splitSign
  split
  · next rest =>
    have hnone : unsignedNumber? ('-' :: rest) = none := rfl
    rw [hnone] at h
    cases h
  · next rest =>
    have hnone : unsignedNumber? ('+' :: rest) = none := rfl
    rw [hnone] at h
    cases h
  · rfl

/-- A number with a minus sign in front is read as its negative. -/
theorem number?_signed {cs : List Char} {v : Rat} (h : unsignedNumber? cs = some v)
    (negative : Bool) : number? (Binary.signed negative cs) = some (withSign negative v) := by
  cases negative with
  | true => exact congrArg _ h
  | false =>
    have hsign := splitSign_of_unsignedNumber? h
    show number? cs = _
    rw [number?, hsign, h]
    rfl

/-- The text of a whole number is read as that number. -/
theorem number?_toString (n : Int) : number? (toString n).toList = some (n : Rat) := by
  have hread (m : Nat) : unsignedNumber? (toString m).toList = some (m : Rat) := by
    have hparts := unsignedParts?_whole (allDigits_toDigits m) (toDigits_ne_nil m) .none
    rw [List.append_nil] at hparts
    rw [Nat.toString_eq_repr, Nat.toList_repr, unsignedNumber?, hparts, Option.map_some,
      DecimalParts.value, List.append_nil, ofDecimalDigits_toDigits]
    simp
  cases n with
  | ofNat m => exact number?_signed (hread m) false
  | negSucc m =>
    have htext : (toString (Int.negSucc m)).toList = Binary.signed true (toString (m + 1)).toList :=
      String.toList_append
    rw [htext, number?_signed (hread (m + 1)) true, withSign, if_pos rfl, Int.negSucc_eq]
    push_cast
    rfl

/-! ### No blank in a number -/

/-- The characters that numbers are written with. -/
def IsNumeral (c : Char) : Prop := isDecimalDigit c = true ∨ c ∈ ['.', 'e', 'E', '+', '-']

private theorem isNumeral_of_eq_nil {cs : List Char} (h : cs = []) : ∀ c ∈ cs, IsNumeral c :=
  h ▸ List.forall_mem_nil _

private theorem isNumeral_of_splitSign {cs : List Char}
    (h : ∀ c ∈ (splitSign cs).2, IsNumeral c) : ∀ c ∈ cs, IsNumeral c := by
  unfold splitSign at h
  split at h
  · exact List.forall_mem_cons.mpr ⟨.inr (by decide), h⟩
  · exact List.forall_mem_cons.mpr ⟨.inr (by decide), h⟩
  · exact h

private theorem isNumeral_of_span {cs : List Char}
    (h : ∀ c ∈ cs.dropWhile isDecimalDigit, IsNumeral c) : ∀ c ∈ cs, IsNumeral c := by
  intro c hc
  rw [← List.takeWhile_append_dropWhile (p := isDecimalDigit) (l := cs), List.mem_append] at hc
  exact hc.elim (fun htake ↦ .inl (List.all_eq_true.mp List.all_takeWhile c htake)) (h c)

private theorem isNumeral_of_splitExponent? {cs : List Char} {e : Int}
    (h : splitExponent? cs = some (e, [])) : ∀ c ∈ cs, IsNumeral c := by
  unfold splitExponent? at h
  split at h
  · exact isNumeral_of_eq_nil rfl
  · next mark rest =>
    dsimp only at h
    split at h
    · next hmark =>
      split at h
      · cases h
      · have hend : (splitSign rest).2.dropWhile isDecimalDigit = [] := by
          simpa using congrArg (Option.map Prod.snd) h
        refine List.forall_mem_cons.mpr ⟨.inr ?_, isNumeral_of_splitSign (isNumeral_of_span ?_)⟩
        · simp only [Bool.or_eq_true, beq_iff_eq] at hmark
          rcases hmark with rfl | rfl <;> decide
        · exact isNumeral_of_eq_nil hend
    · cases h

/-- All characters of a number belong to numbers. -/
theorem isNumeral_of_number? {cs : List Char} {q : Rat} (h : number? cs = some q) :
    ∀ c ∈ cs, IsNumeral c := by
  obtain ⟨v, hv, -⟩ := Option.map_eq_some_iff.mp h
  obtain ⟨parts, hparts, -⟩ := Option.map_eq_some_iff.mp hv
  refine isNumeral_of_splitSign (isNumeral_of_span ?_)
  unfold unsignedParts? at hparts
  dsimp only at hparts
  split at hparts
  · next after hpoint =>
    obtain ⟨-, hparts⟩ := Option.ite_none_left_eq_some.mp hparts
    rw [hpoint]
    refine List.forall_mem_cons.mpr ⟨.inr (by decide), isNumeral_of_span ?_⟩
    split at hparts
    · next hend => exact isNumeral_of_eq_nil hend
    · split at hparts
      · next hmark => exact isNumeral_of_splitExponent? hmark
      · cases hparts
  · obtain ⟨-, hparts⟩ := Option.ite_none_left_eq_some.mp hparts
    split at hparts
    · next hend => exact isNumeral_of_eq_nil hend
    · split at hparts
      · next hmark => exact isNumeral_of_splitExponent? hmark
      · cases hparts

/-- No number has a blank in it. -/
theorem blank_notMem_of_number? {cs : List Char} {q : Rat} (h : number? cs = some q) :
    ' ' ∉ cs :=
  fun hblank ↦ absurd (isNumeral_of_number? h _ hblank) (by unfold IsNumeral; decide)

end Text

end FlowChart
