import FlowChart.Number.Checked
import Mathlib

/-!
# Order of scalars

Of the order of numbers, clamping needs little: that it passes on, that defined numbers can be
compared, and that a product of positive numbers is defined. Both arithmetics have these laws. In
binary floating point an undefined number cannot be compared, not even with itself, so that being
comparable is part of each law. Numbers that are defined are ordered as the triples of their class,
exponent and significand.
-/

namespace FlowChart.Scalar

/-- Scalars whose order is total and passes on among the numbers that can be compared. -/
class IsOrdered (α : Type) [Scalar α] : Prop where
  /-- What is compared with another number can be compared with itself. -/
  defined : ∀ {x y : α}, x ≤ y → x ≤ x ∧ y ≤ y
  /-- The order passes on. -/
  trans : ∀ {x y z : α}, x ≤ y → y ≤ z → x ≤ z
  /-- Of two numbers one is not greater than the other. -/
  total : ∀ {x y : α}, x ≤ x → y ≤ y → x ≤ y ∨ y ≤ x
  /-- Less means not greater, and not the other way round. -/
  lt_iff : ∀ {x y : α}, x < y ↔ x ≤ y ∧ ¬ y ≤ x
  /-- A product of positive numbers can be compared. -/
  mul_defined : ∀ {x y : α}, ((0 : Nat) : α) < x → ((0 : Nat) : α) < y → x * y ≤ x * y

section

variable {α : Type} [Scalar α] [IsOrdered α] {x y z : α}

open IsOrdered

/-- A number that is not less than another one is at least that. -/
theorem le_of_not_lt (hx : x ≤ x) (hy : y ≤ y) (h : ¬ x < y) : y ≤ x := by
  rcases total hx hy with hle | hle
  · by_cases hge : y ≤ x
    · exact hge
    · exact absurd (lt_iff.mpr ⟨hle, hge⟩) h
  · exact hle

/-- What is not less than a greater number is greater. -/
theorem lt_of_lt_of_le (hxy : x < y) (hyz : y ≤ z) : x < z := by
  obtain ⟨hle, hnot⟩ := lt_iff.mp hxy
  exact lt_iff.mpr ⟨trans hle hyz, fun hzx ↦ hnot (trans hyz hzx)⟩

/-- A positive number is not zero. -/
theorem isZero_of_pos (h : ((0 : Nat) : α) < x) : isZero x = false := by
  have hnot := (lt_iff.mp h).2
  simp [isZero, hnot]

/-- A number that is moved up to the least and down to the greatest value lies between them. -/
theorem le_smaller_larger_le {low high : α} (hx : x ≤ x) (h : low ≤ high) :
    low ≤ smaller (larger x low) high ∧ smaller (larger x low) high ≤ high := by
  obtain ⟨hlow, hhigh⟩ := defined h
  have hlarger : low ≤ larger x low := by
    unfold larger
    split
    · exact hlow
    · next hnot => exact le_of_not_lt hx hlow hnot
  unfold smaller
  split
  · exact ⟨h, hhigh⟩
  · next hnot => exact ⟨hlarger, le_of_not_lt hhigh (defined hlarger).2 hnot⟩

end

/-! ### Exact arithmetic -/

instance : IsOrdered Rat where
  defined _ := ⟨le_refl _, le_refl _⟩
  trans := le_trans
  total _ _ := le_total _ _
  lt_iff := lt_iff_le_not_ge
  mul_defined _ _ := le_refl _

/-! ### Binary floating point -/

section

open Float.Model UnpackedFloat

/-- Where a number stands among all numbers: by its class, the exponent and the significand. -/
private def place? : UnpackedFloat → Option (Int ×ₗ Int ×ₗ Int)
  | .notANumber => none
  | .infinity .negative => some (toLex (-2, toLex (0, 0)))
  | .finite .negative significand exponent _ =>
    some (toLex (-1, toLex (-exponent, -(significand : Int))))
  | .zero _ => some (toLex (0, toLex (0, 0)))
  | .finite .positive significand exponent _ =>
    some (toLex (1, toLex (exponent, (significand : Int))))
  | .infinity .positive => some (toLex (2, toLex (0, 0)))

private theorem compare_eq_lt_iff (a b : UnpackedFloat) :
    a.compare b = some .lt ↔ ∃ k k', place? a = some k ∧ place? b = some k' ∧ k < k' := by
  rcases a with (_ | _) | _ | (_ | _) | ⟨_ | _, m, e, hm⟩ <;>
    rcases b with (_ | _) | _ | (_ | _) | ⟨_ | _, m', e', hm'⟩ <;>
    dsimp only [UnpackedFloat.compare, place?] <;>
    simp [Prod.Lex.lt_iff, Ordering.then_eq_lt, Ordering.then_eq_gt, Int.compare_eq_lt,
      Int.compare_eq_gt, Nat.compare_eq_lt, Nat.compare_eq_gt]
  rfl

private theorem compare_eq_eq_iff (a b : UnpackedFloat) :
    a.compare b = some .eq ↔ ∃ k k', place? a = some k ∧ place? b = some k' ∧ k = k' := by
  rcases a with (_ | _) | _ | (_ | _) | ⟨_ | _, m, e, hm⟩ <;>
    rcases b with (_ | _) | _ | (_ | _) | ⟨_ | _, m', e', hm'⟩ <;>
    dsimp only [UnpackedFloat.compare, place?] <;>
    simp [Ordering.then_eq_eq]
  · rfl
  · rfl
  · exact and_congr eq_comm eq_comm
  · exact and_congr eq_comm eq_comm

private theorem any_isLE_iff {o : Option Ordering} :
    o.any (·.isLE) = true ↔ o = some .lt ∨ o = some .eq := by
  rcases o with _ | _ | _ | _ <;> simp

private theorem lt_iff_place? (x y : Float) :
    x < y ↔ ∃ k k', place? x.toModel.unpack = some k ∧ place? y.toModel.unpack = some k' ∧
      k < k' := by
  show decide (x.toModel < y.toModel) = true ↔ _
  rw [decide_eq_true_iff, ← compare_eq_lt_iff]
  exact beq_iff_eq

private theorem le_iff_place? (x y : Float) :
    x ≤ y ↔ ∃ k k', place? x.toModel.unpack = some k ∧ place? y.toModel.unpack = some k' ∧
      k ≤ k' := by
  show decide (x.toModel ≤ y.toModel) = true ↔ _
  rw [decide_eq_true_iff]
  show (x.toModel.unpack.compare y.toModel.unpack).any (·.isLE) = true ↔ _
  simp only [any_isLE_iff, compare_eq_lt_iff, compare_eq_eq_iff, le_iff_lt_or_eq]
  grind

private theorem exists_place?_iff {u : UnpackedFloat} :
    (∃ k, place? u = some k) ↔ u ≠ .notANumber := by
  constructor
  · rintro ⟨k, hk⟩ rfl
    cases hk
  · intro h
    unfold place?
    split
    · exact absurd rfl h
    all_goals exact ⟨_, rfl⟩

private theorem unpack_packComponents_ne_notANumber {sign : Sign} {exponent : BitVec 11}
    {fraction : BitVec 52} (h : exponent ≠ -1#11 ∨ fraction = 0#52) :
    UnpackedFloat.unpack Format.binary64 (packComponents Format.binary64 sign exponent fraction) ≠
      .notANumber := by
  unfold UnpackedFloat.unpack
  simp only [unpackExponent_packComponents, unpackMantissa_packComponents]
  split
  · next hexponent =>
    rw [if_pos (h.resolve_left (not_not_intro hexponent))]
    exact UnpackedFloat.noConfusion
  · split
    · split <;> exact UnpackedFloat.noConfusion
    · exact UnpackedFloat.noConfusion

/-- Packing does not make a number undefined. -/
private theorem unpack_pack_ne_notANumber {u : UnpackedFloat} (h : u ≠ .notANumber) :
    (pack u).unpack ≠ .notANumber := by
  show UnpackedFloat.unpack Format.binary64 (UnpackedFloat.pack Format.binary64 u) ≠ _
  unfold UnpackedFloat.pack
  split
  · exact absurd rfl h
  · exact unpack_packComponents_ne_notANumber (.inr rfl)
  · exact unpack_packComponents_ne_notANumber (.inr rfl)
  · dsimp only
    split
    · exact unpack_packComponents_ne_notANumber (.inr rfl)
    · next hfits =>
      split
      · -- the exponent of all ones is above those of numbers that fit
        apply unpack_packComponents_ne_notANumber
        left
        intro hones
        have hvalue := congrArg BitVec.toNat hones
        have hmost : (-1#11).toNat = 2047 := rfl
        rw [BitVec.toNat_ofNat, hmost] at hvalue
        omega
      · exact unpack_packComponents_ne_notANumber (.inl (by decide))

/-- Positive numbers, infinity included. -/
private def IsPositive (u : UnpackedFloat) : Prop :=
  u = .infinity .positive ∨ ∃ m e hm, u = .finite .positive m e hm

private theorem isPositive_of_place? {u : UnpackedFloat} {k : Int ×ₗ Int ×ₗ Int}
    (hu : place? u = some k) (hk : toLex (0, toLex (0, 0)) < k) : IsPositive u := by
  unfold place? at hu
  split at hu <;> cases hu
  case h_5 m e hm => exact .inr ⟨m, e, hm, rfl⟩
  case h_6 => exact .inl rfl
  all_goals simp [Prod.Lex.lt_iff] at hk

/-- The product of two positive numbers is not undefined, whether it is rounded to zero, to a
number or to infinity. -/
private theorem mul_ne_notANumber {a b : UnpackedFloat} (ha : IsPositive a) (hb : IsPositive b) :
    UnpackedFloat.mul Format.binary64 a b ≠ .notANumber := by
  obtain rfl | ⟨m, e, hm, rfl⟩ := ha
  · obtain rfl | ⟨m', e', hm', rfl⟩ := hb <;> exact UnpackedFloat.noConfusion
  · obtain rfl | ⟨m', e', hm', rfl⟩ := hb
    · exact UnpackedFloat.noConfusion
    · rw [UnpackedFloat.mul, UnpackedFloat.roundWithAccuracy]
      dsimp only
      split <;> exact UnpackedFloat.noConfusion

instance : IsOrdered Float where
  defined {x y} h := by
    obtain ⟨k, k', hx, hy, hle⟩ := (le_iff_place? x y).mp h
    exact ⟨(le_iff_place? x x).mpr ⟨k, k, hx, hx, le_refl k⟩,
      (le_iff_place? y y).mpr ⟨k', k', hy, hy, le_refl k'⟩⟩
  trans {x y z} hxy hyz := by
    obtain ⟨k, k', hx, hy, hle⟩ := (le_iff_place? x y).mp hxy
    obtain ⟨l, l', hy', hz, hle'⟩ := (le_iff_place? y z).mp hyz
    rw [hy] at hy'
    cases hy'
    exact (le_iff_place? x z).mpr ⟨k, l', hx, hz, hle.trans hle'⟩
  total {x y} hx hy := by
    obtain ⟨k, _, hx, -, -⟩ := (le_iff_place? x x).mp hx
    obtain ⟨k', _, hy, -, -⟩ := (le_iff_place? y y).mp hy
    exact (le_total k k').imp (fun hle ↦ (le_iff_place? x y).mpr ⟨k, k', hx, hy, hle⟩)
      fun hle ↦ (le_iff_place? y x).mpr ⟨k', k, hy, hx, hle⟩
  lt_iff {x y} := by
    constructor
    · intro h
      obtain ⟨k, k', hx, hy, hlt⟩ := (lt_iff_place? x y).mp h
      refine ⟨(le_iff_place? x y).mpr ⟨k, k', hx, hy, hlt.le⟩, fun hle ↦ ?_⟩
      obtain ⟨l, l', hy', hx', hle⟩ := (le_iff_place? y x).mp hle
      rw [hx] at hx'
      rw [hy] at hy'
      cases hx'
      cases hy'
      exact absurd hlt (not_lt.mpr hle)
    · rintro ⟨hle, hnot⟩
      obtain ⟨k, k', hx, hy, hle⟩ := (le_iff_place? x y).mp hle
      refine (lt_iff_place? x y).mpr ⟨k, k', hx, hy, lt_of_not_ge fun hge ↦ hnot ?_⟩
      exact (le_iff_place? y x).mpr ⟨k', k, hy, hx, hge⟩
  mul_defined {x y} hx hy := by
    have hzero : place? (Float.ofNat 0).toModel.unpack = some (toLex (0, toLex (0, 0))) := rfl
    obtain ⟨_, k, h0, hx, hk⟩ := (lt_iff_place? _ x).mp hx
    obtain ⟨_, k', h0', hy, hk'⟩ := (lt_iff_place? _ y).mp hy
    cases hzero.symm.trans h0
    cases hzero.symm.trans h0'
    obtain ⟨l, hl⟩ := exists_place?_iff.mpr
      (unpack_pack_ne_notANumber
        (mul_ne_notANumber (isPositive_of_place? hx hk) (isPositive_of_place? hy hk')))
    exact (le_iff_place? _ _).mpr ⟨l, l, hl, hl, le_refl l⟩

end

end FlowChart.Scalar
