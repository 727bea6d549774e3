import FlowChart.Number.Binary
import Mathlib

/-!
# Exact values of binary numbers

A finite binary floating point number is a rational. Taking its bits apart gives a sign, a
significand and a power of two with that value, and the value is a whole number exactly when the
form has one.
-/

namespace FlowChart

open Float.Model

/-- A number with a sign. -/
def withSign (negative : Bool) (v : Rat) : Rat := if negative then -v else v

/-- The exact value of a binary floating point number, if it is finite. -/
def exactValue? (x : Float) : Option Rat :=
  match x.toModel.unpack with
  | .finite sign significand exponent _ =>
    some (withSign (sign == .negative) (significand * 2 ^ exponent))
  | .zero _ => some 0
  | _ => none

/-- The finite numbers are those that have a value. -/
theorem isSome_exactValue? (x : Float) : (exactValue? x).isSome = x.isFinite := by
  show _ = x.toModel.unpack.isFinite
  unfold exactValue?
  cases x.toModel.unpack <;> rfl

theorem abs_withSign (negative : Bool) (v : Rat) : |withSign negative v| = |v| := by
  unfold withSign
  split
  · exact abs_neg v
  · rfl

/-- The distance of two numbers with the same sign. -/
theorem withSign_sub_withSign (negative : Bool) (v w : Rat) :
    withSign negative v - withSign negative w = withSign negative (v - w) := by
  unfold withSign
  split
  · exact (neg_sub_neg v w).trans (neg_sub v w).symm
  · rfl

namespace Binary

/-! ### Taking bits apart -/

private theorem toNat_unpackMantissa (b : BitVec Format.binary64.numBits) :
    (UnpackedFloat.unpackMantissa b).toNat = b.toNat % leadingBit := by
  simp [UnpackedFloat.unpackMantissa, leadingBit]

private theorem toNat_unpackExponent (b : BitVec Format.binary64.numBits) :
    (UnpackedFloat.unpackExponent b).toNat = b.toNat / leadingBit % 2048 := by
  simp [UnpackedFloat.unpackExponent, leadingBit, Nat.shiftRight_eq_div_pow]

private theorem ofBitVec_unpackSign (b : BitVec Format.binary64.numBits) :
    (UnpackedFloat.Sign.ofBitVec (UnpackedFloat.unpackSign b) == .negative) =
      b.toNat.testBit 63 := by
  have hbit : (UnpackedFloat.unpackSign b).toNat = b.toNat / 2 ^ 63 % 2 := by
    simp [UnpackedFloat.unpackSign, Nat.shiftRight_eq_div_pow]
  rw [Nat.testBit_eq_decide_div_mod_eq, ← hbit]
  unfold UnpackedFloat.Sign.ofBitVec
  have hcases : ∀ c : BitVec 1,
      ((if c = 0#1 then UnpackedFloat.Sign.positive else .negative) == .negative) =
        decide (c.toNat = 1) := by decide
  exact hcases _

private theorem toNat_one_append (fraction : BitVec 52) :
    (1#1 ++ fraction).toNat = leadingBit + fraction.toNat := by
  rw [BitVec.toNat_append, ← Nat.shiftLeft_add_eq_or_of_lt fraction.isLt]
  rfl

/-- The form of an unpacked number. Zero has the exponent of the finest grid. -/
private def ofUnpacked : UnpackedFloat → Binary
  | .notANumber => .undefined
  | .infinity sign => .infinite (sign == .negative)
  | .zero sign => .finite (sign == .negative) 0 (-1074)
  | .finite sign significand exponent _ => .finite (sign == .negative) significand exponent

private theorem ofBits_toNat (b : BitVec Format.binary64.numBits) :
    ofBits b.toNat = ofUnpacked (UnpackedFloat.unpack Format.binary64 b) := by
  have hmost : (UnpackedFloat.unpackExponent b).toNat = 2047 ↔
      UnpackedFloat.unpackExponent b = -1#11 := BitVec.toNat_inj (y := -1#11)
  have hleast : (UnpackedFloat.unpackExponent b).toNat = 0 ↔
      UnpackedFloat.unpackExponent b = 0#11 := BitVec.toNat_inj (y := 0#11)
  have hnone : (UnpackedFloat.unpackMantissa b).toNat = 0 ↔
      UnpackedFloat.unpackMantissa b = 0#52 := BitVec.toNat_inj (y := 0#52)
  have hbias : (Format.binary64.exponentBias : Int) = 1023 := rfl
  simp only [ofBits, ← toNat_unpackMantissa, ← toNat_unpackExponent, ← ofBitVec_unpackSign, hmost,
    hleast, hnone, UnpackedFloat.unpack]
  split
  · split <;> rfl
  · split
    · next hexponent =>
      split
      · next hfraction => rw [hfraction]; rfl
      · rw [hexponent]; rfl
    · rw [ofUnpacked, hbias, toNat_one_append]
      congr 1

/-- No finite number is on a grid finer than `2 ^ -1074`. -/
theorem le_exponent_of_ofBits {bits : Nat} {negative : Bool} {significand : Nat} {exponent : Int}
    (h : ofBits bits = .finite negative significand exponent) : -1074 ≤ exponent := by
  unfold ofBits at h
  dsimp only at h
  split at h
  · split at h <;> cases h
  · split at h
    · cases h
      exact le_refl _
    · next hbiased =>
      cases h
      omega

/-- The number that a form stands for, if it stands for one. -/
def value? : Binary → Option Rat
  | .finite negative significand exponent =>
    some (withSign negative (significand * 2 ^ exponent))
  | _ => none

/-- A number is taken apart to a form of its value. -/
theorem value?_ofFloat (x : Float) : (ofFloat x).value? = exactValue? x := by
  show (ofBits x.toBits.toBitVec.toNat).value? = _
  rw [ofBits_toNat]
  show _ = match UnpackedFloat.unpack Format.binary64 x.toBits.toBitVec with
    | .finite sign significand exponent _ =>
      some (withSign (sign == UnpackedFloat.Sign.negative) (significand * 2 ^ exponent))
    | .zero _ => some 0
    | _ => none
  cases UnpackedFloat.unpack Format.binary64 x.toBits.toBitVec with
  | zero sign => simp [ofUnpacked, value?, withSign]
  | _ => rfl

/-- A finite number is taken apart to a form of its value, on a grid that is no finer than
`2 ^ -1074`. -/
theorem exists_ofFloat_eq_finite {x : Float} {v : Rat} (h : exactValue? x = some v) :
    ∃ negative significand exponent, ofFloat x = .finite negative significand exponent ∧
      -1074 ≤ exponent ∧ v = withSign negative (significand * 2 ^ exponent) := by
  rw [← value?_ofFloat] at h
  cases hform : ofFloat x with
  | finite negative significand exponent =>
    rw [hform] at h
    exact ⟨negative, significand, exponent, rfl, le_exponent_of_ofBits hform,
      (Option.some.inj h).symm⟩
  | _ =>
    rw [hform] at h
    cases h

/-! ### Fractions -/

theorem ratio_den_pos (significand : Nat) (exponent : Int) :
    0 < (ratio significand exponent).2 := by
  unfold ratio
  split
  · rw [Nat.one_shiftLeft]
    exact Nat.two_pow_pos _
  · exact Nat.one_pos

/-- The fraction of a form is its value, sign apart. -/
theorem ratio_eq (significand : Nat) (exponent : Int) :
    ((ratio significand exponent).1 : Rat) / (ratio significand exponent).2 =
      significand * 2 ^ exponent := by
  unfold ratio
  split
  · next hneg =>
    have hexp : exponent = -(exponent.natAbs : Int) := by omega
    rw [Nat.one_shiftLeft]
    conv_rhs => rw [hexp]
    rw [zpow_neg, zpow_natCast]
    push_cast
    rfl
  · next hnonneg =>
    have hexp : exponent = (exponent.natAbs : Int) := by omega
    rw [Nat.shiftLeft_eq]
    conv_rhs => rw [hexp]
    rw [zpow_natCast]
    push_cast
    exact div_one _

private theorem div_eq_intCast_iff (num : Nat) {den : Nat} (hden : 0 < den) (n : Int) :
    (num : Rat) / den = n ↔ num % den = 0 ∧ ((num / den : Nat) : Int) = n := by
  have hne : (den : Rat) ≠ 0 := Nat.cast_ne_zero.mpr hden.ne'
  rw [div_eq_iff hne]
  constructor
  · intro h
    have hnum : (num : Int) = n * den := by exact_mod_cast h
    have hdvd : den ∣ num := Int.natCast_dvd_natCast.mp (Dvd.intro_left n hnum.symm)
    refine ⟨Nat.mod_eq_zero_of_dvd hdvd, ?_⟩
    rw [Int.natCast_ediv, hnum]
    exact Int.mul_ediv_cancel n (Int.natCast_ne_zero.mpr hden.ne')
  · rintro ⟨hmod, rfl⟩
    have hnum : num / den * den = num := Nat.div_mul_cancel (Nat.dvd_of_mod_eq_zero hmod)
    exact_mod_cast hnum.symm

/-- A form has a whole number exactly when that is its value. -/
theorem toInt?_eq_some_iff {negative : Bool} {significand : Nat} {exponent : Int} {n : Int} :
    (finite negative significand exponent).toInt? = some n ↔
      withSign negative (significand * 2 ^ exponent) = n := by
  have hiff := div_eq_intCast_iff (ratio significand exponent).1
    (ratio_den_pos significand exponent)
  rw [← ratio_eq]
  unfold toInt? withSign
  dsimp only
  cases negative with
  | false => simp [hiff]
  | true =>
    have hneg := hiff (-n)
    rw [Int.cast_neg] at hneg
    simp [neg_eq_iff_eq_neg, hneg]

end Binary

end FlowChart
