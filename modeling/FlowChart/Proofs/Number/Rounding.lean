import FlowChart.Number.Decimal
import FlowChart.Proofs.Number.Value

/-!
# Rounding to decimal digits

A positive number that is rounded to a count of digits is off by no more than half a unit of the
last of them. Dropping the zeros that end the digits changes neither the number nor that the
digits are counted rightly.
-/

namespace FlowChart.Decimal

/-- The number that a decimal is. -/
def value (d : Decimal) : Rat := d.digits * 10 ^ (d.exponent - d.count + 1)

/-- What holds of the decimals that are written: they are positive and have as many digits as they
say. -/
structure IsCounted (d : Decimal) : Prop where
  /-- The digits are not all zero. -/
  pos : 0 < d.digits
  /-- The count is that of the digits. -/
  count_eq : d.count = digitCount d.digits

/-! ### Counting digits -/

theorem digitCount_pos (n : Nat) : 0 < digitCount n := Nat.length_toDigits_pos

theorem IsCounted.count_pos {d : Decimal} (h : d.IsCounted) : 0 < d.count :=
  h.count_eq ▸ digitCount_pos d.digits

theorem lt_pow_digitCount (n : Nat) : n < 10 ^ digitCount n :=
  (Nat.length_toDigits_le_iff (by decide) (digitCount_pos n)).mp (le_refl _)

theorem pow_digitCount_pred_le {n : Nat} (h : 0 < n) : 10 ^ (digitCount n - 1) ≤ n := by
  rcases Nat.eq_zero_or_pos (digitCount n - 1) with hzero | hpos
  · rw [hzero]
    exact h
  · by_contra hlt
    have hle : digitCount n ≤ digitCount n - 1 :=
      (Nat.length_toDigits_le_iff (by decide) hpos).mpr (Nat.lt_of_not_le hlt)
    have := digitCount_pos n
    omega

/-- Dropping the last of several digits. -/
theorem digitCount_div_ten {n : Nat} (h : 1 < digitCount n) :
    digitCount (n / 10) = digitCount n - 1 := by
  have hle : 10 ≤ n := by
    by_contra hlt
    rw [digitCount, Nat.toDigits_of_lt_base (Nat.lt_of_not_le hlt)] at h
    exact absurd h (Nat.lt_irrefl 1)
  have hdigits : digitCount n = digitCount (n / 10) + 1 := by
    rw [digitCount, Nat.toDigits_of_base_le (by decide) hle, List.length_append]
    rfl
  omega

/-! ### Dropping zeros -/

/-- Dropping zeros at the end keeps the number. -/
theorem value_trimmed (digits count : Nat) (exponent : Int) (fuel : Nat) :
    (trimmed digits count exponent fuel).value = (⟨digits, count, exponent⟩ : Decimal).value := by
  induction fuel generalizing digits count with
  | zero => rfl
  | succ fuel ih =>
    rw [trimmed]
    split
    · next h =>
      obtain ⟨hcount, hlast⟩ : 1 < count ∧ digits % 10 = 0 := by simpa using h
      obtain ⟨rest, rfl⟩ := Nat.dvd_of_mod_eq_zero hlast
      have hplace : exponent - (count - 1 : Nat) + 1 = exponent - count + 1 + 1 := by omega
      rw [ih, value, value, Nat.mul_div_cancel_left rest (by decide), hplace,
        zpow_add_one₀ (by norm_num) (exponent - count + 1)]
      push_cast
      ring
    · rfl

/-- Dropping zeros at the end keeps the digits counted. -/
theorem isCounted_trimmed {digits count : Nat} {exponent : Int}
    (h : (⟨digits, count, exponent⟩ : Decimal).IsCounted) (fuel : Nat) :
    (trimmed digits count exponent fuel).IsCounted := by
  induction fuel generalizing digits count with
  | zero => exact h
  | succ fuel ih =>
    rw [trimmed]
    split
    · next hzero =>
      obtain ⟨hcount, hlast⟩ : 1 < count ∧ digits % 10 = 0 := by simpa using hzero
      have hpos : 0 < digits := h.pos
      have heq : count = digitCount digits := h.count_eq
      refine ih ⟨?_, ?_⟩
      · show 0 < digits / 10
        omega
      · show count - 1 = digitCount (digits / 10)
        rw [digitCount_div_ten (heq ▸ hcount), heq]
    · exact h

/-- Zeros are dropped from the decimal of `n * 10 ^ k`, which stays that number. -/
theorem value_ofScaled (n : Nat) (k : Int) : (ofScaled n k).value = n * 10 ^ k := by
  unfold ofScaled
  rw [value_trimmed, value]
  congr 2
  show k + (digitCount n : Int) - 1 - digitCount n + 1 = k
  omega

theorem isCounted_ofScaled {n : Nat} (h : 0 < n) (k : Int) : (ofScaled n k).IsCounted :=
  isCounted_trimmed ⟨h, rfl⟩ _

/-! ### Rounding -/

/-- Rounding is off by no more than a half. -/
theorem abs_roundHalfEven_sub_le (num : Nat) {den : Nat} (h : 0 < den) :
    |(roundHalfEven num den : Rat) - num / den| ≤ 1 / 2 := by
  have hden : (0 : Rat) < den := Nat.cast_pos.mpr h
  have hmod : ((num % den : Nat) : Rat) < den := Nat.cast_lt.mpr (Nat.mod_lt num h)
  have hnum : (num : Rat) / den = (num / den : Nat) + ((num % den : Nat) : Rat) / den := by
    rw [div_eq_iff hden.ne', add_mul, div_mul_cancel₀ _ hden.ne', mul_comm]
    exact_mod_cast (Nat.div_add_mod num den).symm
  unfold roundHalfEven
  dsimp only
  rw [hnum]
  split
  · next hup =>
    have htwice : den ≤ 2 * (num % den) := by
      simp only [Bool.or_eq_true, decide_eq_true_eq, Bool.and_eq_true, beq_iff_eq] at hup
      omega
    have hhalf : 1 / 2 ≤ ((num % den : Nat) : Rat) / den := by
      rw [le_div_iff₀ hden]
      have : (den : Rat) ≤ 2 * ((num % den : Nat) : Rat) := by exact_mod_cast htwice
      linarith
    have hone : ((num % den : Nat) : Rat) / den < 1 := (div_lt_one hden).mpr hmod
    rw [abs_le]
    push_cast
    constructor <;> linarith
  · next hdown =>
    have htwice : 2 * (num % den) ≤ den := by
      simp only [Bool.or_eq_true, decide_eq_true_eq, Bool.and_eq_true, beq_iff_eq] at hdown
      omega
    have hhalf : ((num % den : Nat) : Rat) / den ≤ 1 / 2 := by
      rw [div_le_iff₀ hden]
      have : 2 * ((num % den : Nat) : Rat) ≤ den := by exact_mod_cast htwice
      linarith
    have hzero : 0 ≤ ((num % den : Nat) : Rat) / den := by positivity
    rw [abs_le]
    constructor <;> linarith

private theorem ten_zpow_mul_pow (k : Int) (n : Nat) :
    (10 : Rat) ^ k * 10 ^ n = 10 ^ (k + n) := by
  rw [zpow_add₀ (by norm_num), zpow_natCast]

/-- The first digit of a fraction, found among so many places below the point. -/
private theorem firstDigit_bounds {num den : Nat} (places : Nat) (hden : 0 < den)
    (hleast : den ≤ num * powerOfTen places) {k : Int}
    (hk : k = (digitCount (num * powerOfTen places / den) : Int) - (places + 1)) :
    (10 : Rat) ^ k ≤ num / den ∧ (num : Rat) / den < 10 ^ (k + 1) := by
  have hdenR : (0 : Rat) < den := Nat.cast_pos.mpr hden
  have hscale : (0 : Rat) < 10 ^ places := by positivity
  have hpos : 0 < num * powerOfTen places / den := Nat.div_pos hleast hden
  have hhigh : num * 10 ^ places < 10 ^ digitCount (num * powerOfTen places / den) * den :=
    (Nat.div_lt_iff_lt_mul hden).mp (lt_pow_digitCount _)
  have hlow : 10 ^ (digitCount (num * powerOfTen places / den) - 1) * den ≤ num * 10 ^ places :=
    (Nat.mul_le_mul_right den (pow_digitCount_pred_le hpos)).trans (Nat.div_mul_le_self _ _)
  have hcount := digitCount_pos (num * powerOfTen places / den)
  constructor
  · refine le_of_mul_le_mul_right ?_ hscale
    rw [ten_zpow_mul_pow, div_mul_eq_mul_div, le_div_iff₀ hdenR,
      show k + places = (digitCount (num * powerOfTen places / den) - 1 : Nat) by omega,
      zpow_natCast]
    exact_mod_cast hlow
  · refine lt_of_mul_lt_mul_right ?_ hscale.le
    rw [ten_zpow_mul_pow, div_mul_eq_mul_div, div_lt_iff₀ hdenR,
      show k + 1 + places = (digitCount (num * powerOfTen places / den) : Nat) by omega,
      zpow_natCast]
    exact_mod_cast hhigh

/-- The first digit of a fraction stands at its leading exponent, unless it is too far below the
point. -/
theorem leadingExponent_bounds {num den : Nat} (hden : 0 < den)
    (hleast : den ≤ num * powerOfTen 400) :
    (10 : Rat) ^ leadingExponent num den ≤ num / den ∧
      (num : Rat) / den < 10 ^ (leadingExponent num den + 1) :=
  firstDigit_bounds 400 hden hleast rfl

theorem shift_den_pos (num : Nat) {den : Nat} (h : 0 < den) (k : Int) :
    0 < (shift num den k).2 := by
  unfold shift
  split
  · exact h
  · exact Nat.mul_pos h (Nat.pow_pos (by decide))

/-- Shifting divides by a power of ten. -/
theorem shift_eq (num den : Nat) (k : Int) :
    ((shift num den k).1 : Rat) / (shift num den k).2 = num / den / 10 ^ k := by
  unfold shift
  split
  · have hk : k = -(k.natAbs : Int) := by omega
    show ((num * 10 ^ k.natAbs : Nat) : Rat) / den = _
    conv_rhs => rw [hk]
    rw [zpow_neg, zpow_natCast, div_inv_eq_mul, div_mul_eq_mul_div]
    push_cast
    rfl
  · have hk : k = (k.natAbs : Int) := by omega
    show (num : Rat) / ((den * 10 ^ k.natAbs : Nat) : Rat) = _
    conv_rhs => rw [hk]
    rw [zpow_natCast, div_div]
    push_cast
    rfl

/-- A fraction that is rounded to a multiple of a power of ten is off by at most half of that. -/
theorem abs_roundHalfEven_shift_sub_le (num : Nat) {den : Nat} (hden : 0 < den) (k : Int) :
    |(roundHalfEven (shift num den k).1 (shift num den k).2 : Rat) * 10 ^ k - num / den| ≤
      10 ^ k / 2 := by
  have hunit : (0 : Rat) < 10 ^ k := by positivity
  have hnear := abs_roundHalfEven_sub_le (shift num den k).1 (shift_den_pos num hden k)
  rw [shift_eq] at hnear
  generalize (roundHalfEven (shift num den k).1 (shift num den k).2 : Rat) = n at hnear ⊢
  calc |n * 10 ^ k - num / den| = |n - num / den / 10 ^ k| * 10 ^ k := by
        rw [← abs_of_pos hunit, ← abs_mul, abs_of_pos hunit, sub_mul, div_mul_cancel₀ _ hunit.ne']
    _ ≤ 1 / 2 * 10 ^ k := mul_le_mul_of_nonneg_right hnear hunit.le
    _ = 10 ^ k / 2 := one_div_mul_eq_div 2 _

theorem powerOfTen_pos (n : Nat) : 0 < powerOfTen n := Nat.pow_pos (by decide)

private theorem two_pow_le_powerOfTen {n m : Nat} (h : n ≤ 3 * m) : 2 ^ n ≤ powerOfTen m :=
  calc 2 ^ n ≤ 2 ^ (3 * m) := Nat.pow_le_pow_right (by decide) h
    _ = 8 ^ m := Nat.pow_mul 2 3 m
    _ ≤ 10 ^ m := Nat.pow_le_pow_left (by decide) m

/-- The finest grid of binary numbers is not too far below the point. -/
private theorem ratio_den_le {significand : Nat} {exponent : Int} (hpos : 0 < significand)
    (hgrid : -1074 ≤ exponent) :
    (Binary.ratio significand exponent).2 ≤
      (Binary.ratio significand exponent).1 * powerOfTen 400 := by
  unfold Binary.ratio
  split
  · dsimp only
    rw [Nat.one_shiftLeft]
    exact (two_pow_le_powerOfTen (by omega)).trans (Nat.le_mul_of_pos_left _ hpos)
  · dsimp only
    rw [Nat.shiftLeft_eq]
    have hnum := Nat.mul_pos hpos (Nat.two_pow_pos exponent.natAbs)
    exact Nat.succ_le_of_lt (Nat.mul_pos hnum (powerOfTen_pos 400))

/-- A number that is rounded to a count of digits is off by at most half a unit of the last one. -/
theorem exists_rounded_near {count significand : Nat} {exponent : Int} (hcount : 0 < count)
    (hpos : 0 < significand) (hgrid : -1074 ≤ exponent) :
    (rounded count significand exponent).IsCounted ∧ ∃ k : Int,
      (10 : Rat) ^ k ≤ significand * 2 ^ exponent ∧
      |(rounded count significand exponent).value - significand * 2 ^ exponent| ≤
        10 ^ (k - (count - 1)) / 2 := by
  have hden := Binary.ratio_den_pos significand exponent
  have hleast := ratio_den_le hpos hgrid
  rw [← Binary.ratio_eq]
  unfold rounded
  dsimp only
  generalize Binary.ratio significand exponent = fraction at hden hleast ⊢
  have hleading := (leadingExponent_bounds hden hleast).1
  generalize leadingExponent fraction.1 fraction.2 = k at hleading ⊢
  have hnear := abs_roundHalfEven_shift_sub_le fraction.1 hden (k - (count - 1))
  generalize roundHalfEven _ _ = n at hnear ⊢
  rw [value_ofScaled]
  refine ⟨isCounted_ofScaled ?_ _, k, hleading, hnear⟩
  -- half a unit is less than the number, so that it is not rounded to zero
  have hunit : (0 : Rat) < 10 ^ (k - (count - 1)) := by positivity
  have hle : (10 : Rat) ^ (k - (count - 1)) ≤ 10 ^ k :=
    zpow_le_zpow_right₀ (by norm_num) (by omega)
  have hlow := (abs_le.mp hnear).1
  refine Nat.pos_of_ne_zero fun hzero ↦ ?_
  rw [hzero, Nat.cast_zero, zero_mul] at hlow
  linarith

end FlowChart.Decimal
