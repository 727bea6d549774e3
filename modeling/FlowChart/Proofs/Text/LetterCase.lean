import FlowChart.Text.Blank
import FlowChart.Text.Hex
import FlowChart.Text.LowerCase

/-!
# Letter case does not matter to readers

What a reader asks of a character has one answer for an ASCII letter in either case: whether it is
blank, which digit it is, how it is lowered, and whether it has case. Trimming and lowering
therefore do not tell apart texts that differ in the case of ASCII letters only.
-/

namespace FlowChart.Text

/-! ### Characters -/

/-- A character is its own lower-case form, or it is one of the capitals. -/
private theorem toLower_cases (c : Char) :
    c.toLower = c ∨ ∃ n < 26, c = Char.ofNat (n + 65) ∧ c.toLower = Char.ofNat (n + 97) := by
  by_cases h : c.val ≥ 'A'.val ∧ c.val ≤ 'Z'.val
  · have hlow : 65 ≤ c.toNat := UInt32.le_iff_toNat_le.mp h.1
    have hhigh : c.toNat ≤ 90 := UInt32.le_iff_toNat_le.mp h.2
    have hc : c = Char.ofNat (c.toNat - 65 + 65) := by
      rw [Nat.sub_add_cancel hlow, Char.ofNat_toNat]
    have hlower : ∀ n < 26, (Char.ofNat (n + 65)).toLower = Char.ofNat (n + 97) := by decide
    refine .inr ⟨c.toNat - 65, by omega, hc, ?_⟩
    rw [← hlower (c.toNat - 65) (by omega), ← hc]
  · exact .inl (dif_neg h)

/-- A function that does not tell the capitals from their lower-case letters is not changed by
lowering. -/
theorem apply_toLower {β : Type} {f : Char → β}
    (h : ∀ n < 26, f (Char.ofNat (n + 97)) = f (Char.ofNat (n + 65))) (c : Char) :
    f c.toLower = f c := by
  rcases toLower_cases c with hc | ⟨n, hn, hc, hlower⟩
  · rw [hc]
  · rw [hlower, h n hn, ← hc]

/-- A digit has one value in either case. -/
@[simp] theorem hexValue?_toLower (c : Char) : hexValue? c.toLower = hexValue? c :=
  apply_toLower (by decide) c

/-- Whether a character is a digit does not depend on its case. -/
@[simp] theorem isHexDigit_toLower (c : Char) : isHexDigit c.toLower = isHexDigit c := by
  rw [isHexDigit, hexValue?_toLower, isHexDigit]

/-- Lowering makes nothing blank and nothing blank visible. -/
@[simp] theorem isBlank_toLower (c : Char) : isBlank c.toLower = isBlank c :=
  apply_toLower (by decide) c

/-- A lowered character has case exactly if it had case before. -/
@[simp] theorem isCased_toLower (c : Char) : isCased c.toLower = isCased c :=
  apply_toLower (by decide +kernel) c

/-- Casing passes over a lowered character exactly if it did so before. -/
@[simp] theorem isCaseIgnored_toLower (c : Char) : isCaseIgnored c.toLower = isCaseIgnored c := by
  -- the ranges are tested against the letters, not the letters one by one against the long table
  have houtside : ∀ r ∈ caseIgnoredRanges, r.2 < 65 ∨ (90 < r.1 ∧ r.2 < 97) ∨ 122 < r.1 := by
    decide +kernel
  have hletter : ∀ n, (65 ≤ n ∧ n ≤ 90) ∨ (97 ≤ n ∧ n ≤ 122) →
      isCaseIgnored (Char.ofNat n) = false := by
    intro n hn
    have hpoint : ∀ n < 123, (Char.ofNat n).toNat = n := by decide
    rw [isCaseIgnored, inRanges, List.any_eq_false]
    intro r hr
    have := houtside r hr
    rw [hpoint n (by omega), Bool.and_eq_true, decide_eq_true_eq, decide_eq_true_eq]
    omega
  apply apply_toLower
  intro n hn
  rw [hletter _ (.inr (by omega)), hletter _ (.inl (by omega))]

/-- A letter has one lower-case letter, whichever case it is in. -/
@[simp] theorem lowerChar_toLower (c : Char) : lowerChar c.toLower = lowerChar c :=
  apply_toLower (by decide) c

/-- Lowering twice is lowering once. -/
@[simp] theorem toLower_toLower (c : Char) : c.toLower.toLower = c.toLower :=
  apply_toLower (f := Char.toLower) (by decide) c

/-- Only a zero is lowered to a zero. -/
theorem toLower_eq_zero_iff {c : Char} : c.toLower = '0' ↔ c = '0' := by
  have h := apply_toLower (f := fun c ↦ decide (c = '0')) (by decide) c
  simpa using h

/-- A mark is lowered to the small one from either case. -/
theorem toLower_eq_x_iff {c : Char} : c.toLower = 'x' ↔ c = 'x' ∨ c = 'X' := by
  constructor
  · intro h
    rcases toLower_cases c with hc | ⟨n, hn, hc, hlower⟩
    · exact .inl (hc.symm.trans h)
    · have hcapital : ∀ n < 26, Char.ofNat (n + 97) = 'x' → Char.ofNat (n + 65) = 'X' := by decide
      exact .inr (hc.trans (hcapital n hn (hlower.symm.trans h)))
  · rintro (rfl | rfl) <;> rfl

/-- The digits are among the ASCII characters. -/
theorem toNat_bounds_of_isHexDigit {c : Char} (h : isHexDigit c = true) :
    48 ≤ c.toNat ∧ c.toNat ≤ 102 := by
  have le_toNat : ∀ {a b : Char}, a ≤ b → a.toNat ≤ b.toNat := fun h ↦ h
  unfold isHexDigit hexValue? at h
  split at h
  · next hc => exact ⟨le_toNat hc.1, Nat.le_trans (le_toNat hc.2) (by decide)⟩
  · split at h
    · next hc => exact ⟨Nat.le_trans (by decide) (le_toNat hc.1), le_toNat hc.2⟩
    · split at h
      · next hc =>
        exact ⟨Nat.le_trans (by decide) (le_toNat hc.1), Nat.le_trans (le_toNat hc.2) (by decide)⟩
      · cases h

/-- A digit is not blank. -/
theorem isBlank_eq_false_of_isHexDigit {c : Char} (h : isHexDigit c = true) :
    isBlank c = false := by
  have hbounds := toNat_bounds_of_isHexDigit h
  simp only [isBlank, inRanges, blankRanges, List.any_cons, List.any_nil, Bool.or_eq_false_iff,
    Bool.and_eq_false_iff, decide_eq_false_iff_not, and_true]
  omega

/-! ### Texts -/

/-- Trimming goes by blanks, so it leaves the same characters in either letter case. -/
theorem trim_map_toLower (cs : List Char) :
    trim (cs.map Char.toLower) = (trim cs).map Char.toLower := by
  have hblank : isBlank ∘ Char.toLower = isBlank := funext isBlank_toLower
  simp only [trim, trimBy, List.dropWhile_map, ← List.map_reverse, hblank]

private theorem startsCased_map_toLower (cs : List Char) :
    startsCased (cs.map Char.toLower) = startsCased cs := by
  have hignored : isCaseIgnored ∘ Char.toLower = isCaseIgnored := funext isCaseIgnored_toLower
  have hcased : isCased ∘ Char.toLower = isCased := funext isCased_toLower
  rw [startsCased, List.dropWhile_map, hignored, List.head?_map, Option.map_map, hcased,
    startsCased]

private theorem lowerAt_toLower (before : List Char) (c : Char) (rest : List Char) :
    lowerAt (before.map Char.toLower) c.toLower (rest.map Char.toLower) = lowerAt before c rest := by
  have hdotted : decide (c.toLower.toNat = 0x130) = decide (c.toNat = 0x130) :=
    apply_toLower (f := fun c ↦ decide (c.toNat = 0x130)) (by decide) c
  have hsigma : decide (c.toLower.toNat = 0x3a3) = decide (c.toNat = 0x3a3) :=
    apply_toLower (f := fun c ↦ decide (c.toNat = 0x3a3)) (by decide) c
  simp only [decide_eq_decide] at hdotted hsigma
  simp only [lowerAt, hdotted, hsigma, startsCased_map_toLower, lowerChar_toLower]

/-- Lowering does not see the case of ASCII letters, also where it depends on what stands around. -/
theorem lowerChars_map_toLower (cs : List Char) :
    lowerChars (cs.map Char.toLower) = lowerChars cs := by
  suffices hafter : ∀ before, lowerAfter (before.map Char.toLower) (cs.map Char.toLower) =
      lowerAfter before cs from hafter []
  induction cs with
  | nil => exact fun _ ↦ rfl
  | cons c rest ih =>
    intro before
    rw [List.map_cons, lowerAfter, lowerAfter, lowerAt_toLower, ← List.map_cons, ih]

end FlowChart.Text
