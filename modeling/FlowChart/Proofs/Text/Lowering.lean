import FlowChart.Proofs.Text.LetterCase

/-!
# Lowering twice

Neither a lower-case letter of the table is a capital of it, nor is it one of the two characters that
are lowered by rules of their own. So every character of a lowered text stands for itself, whatever
stands around it, and lowering the text again leaves it as it is.
-/

namespace FlowChart.Text

/-- A character that lowering leaves as it is. -/
private structure IsLower (c : Char) : Prop where
  /-- It is not the dotted capital I. -/
  notDotted : c.toNat ≠ 0x130
  /-- It is not the capital sigma. -/
  notSigma : c.toNat ≠ 0x3a3
  /-- It is its own lower-case letter. -/
  lowerChar_eq : lowerChar c = c

/-! ### The table of capitals -/

/-- A run with the capitals of a run has a character. -/
private def CaseRun.Holds (run : CaseRun) (n : Nat) : Prop :=
  run.first ≤ n ∧ n ≤ run.last ∧ (n - run.first) % run.step = 0

/-- The run of the dotted capital I, which the table leaves out. -/
private def dottedRun : CaseRun := ⟨0x130, 0x130, 1, 0⟩

/-- The lower-case letter of the first capital of a run. -/
private def CaseRun.firstLower (run : CaseRun) : Nat := ((run.first : Int) + run.shift).toNat

/-- The lower-case letters of a run come before all capitals of another one, or after them, or they
stand between them because both have every other place. -/
private def CaseRun.misses (run other : CaseRun) : Bool :=
  Nat.blt (run.firstLower + (run.last - run.first)) other.first ||
    Nat.blt other.last run.firstLower ||
      (other.step == 2 && (run.step == 2 || run.first == run.last) &&
        (run.firstLower + other.first) % 2 == 1)

private theorem misses_of_mem {run other : CaseRun} (hrun : run ∈ caseRuns)
    (hother : other ∈ dottedRun :: caseRuns) : run.misses other = true := by
  have hall : (caseRuns.all fun run ↦ (dottedRun :: caseRuns).all run.misses) = true := by
    decide +kernel
  exact List.all_eq_true.mp (List.all_eq_true.mp hall run hrun) other hother

private theorem shift_bounds {run : CaseRun} (hrun : run ∈ caseRuns) :
    0 ≤ (run.first : Int) + run.shift := by
  have hall : (caseRuns.all fun run ↦ decide (0 ≤ (run.first : Int) + run.shift)) = true := by
    decide +kernel
  exact of_decide_eq_true (List.all_eq_true.mp hall run hrun)

/-- No lower-case letter of a run is a capital of a run. -/
private theorem not_holds_lower {run other : CaseRun} (hrun : run ∈ caseRuns)
    (hother : other ∈ dottedRun :: caseRuns) {n : Nat} (hn : run.Holds n) :
    ¬ other.Holds ((n : Int) + run.shift).toNat := by
  obtain ⟨hfirst, hlast, hstep⟩ := hn
  rintro ⟨hfirst', hlast', hstep'⟩
  have hbounds := shift_bounds hrun
  have hmisses := misses_of_mem hrun hother
  simp only [CaseRun.misses, CaseRun.firstLower, Bool.or_eq_true, Bool.and_eq_true, beq_iff_eq,
    Nat.blt_eq] at hmisses
  rcases hmisses with (hbelow | habove) | ⟨⟨hother, hrun⟩, hodd⟩
  · omega
  · omega
  · rw [hother] at hstep'
    rcases hrun with hrun | hrun
    · rw [hrun] at hstep
      omega
    · omega

private theorem caseRun?_eq_some {c : Char} {run : CaseRun} (h : caseRun? c = some run) :
    run ∈ caseRuns ∧ run.Holds c.toNat := by
  have hfound := List.find?_some h
  simp only [Bool.and_eq_true, decide_eq_true_eq, beq_iff_eq] at hfound
  exact ⟨List.mem_of_find?_eq_some h, hfound.1.1, hfound.1.2, hfound.2⟩

/-- What is no capital is left as it is. -/
private theorem isLower_of_not_holds {c : Char}
    (h : ∀ run ∈ dottedRun :: caseRuns, ¬ run.Holds c.toNat) : IsLower c where
  notDotted hc := h dottedRun List.mem_cons_self (hc ▸ ⟨Nat.le_refl _, Nat.le_refl _, rfl⟩)
  notSigma hc := by
    have hrun : caseRun? (Char.ofNat 0x3a3) = some ⟨0x3a3, 0x3ab, 1, 32⟩ := rfl
    have hpoint : (Char.ofNat 0x3a3).toNat = 0x3a3 := rfl
    obtain ⟨hmem, hholds⟩ := caseRun?_eq_some hrun
    refine h _ (List.mem_cons_of_mem _ hmem) ?_
    rwa [hc, ← hpoint]
  lowerChar_eq := by
    rw [lowerChar]
    split
    · refine dif_neg fun hcapital ↦ ?_
      have hrun : caseRun? 'A' = some ⟨0x41, 0x5a, 1, 32⟩ := rfl
      have hmem := (caseRun?_eq_some hrun).1
      exact h _ (List.mem_cons_of_mem _ hmem) ⟨UInt32.le_iff_toNat_le.mp hcapital.1,
        UInt32.le_iff_toNat_le.mp hcapital.2, Nat.mod_one _⟩
    · cases hrun : caseRun? c with
      | none => rw [lowerByTable, hrun, Option.map_none, Option.getD_none]
      | some run =>
        obtain ⟨hmem, hholds⟩ := caseRun?_eq_some hrun
        exact absurd hholds (h run (List.mem_cons_of_mem _ hmem))

/-! ### Characters -/

/-- A code point that is none gives the character zero. -/
private theorem toNat_ofNat_cases (n : Nat) :
    (Char.ofNat n).toNat = n ∨ (Char.ofNat n).toNat = 0 := by
  by_cases hvalid : n.isValidChar
  · left
    rw [Char.ofNat, dif_pos hvalid]
    rfl
  · right
    rw [Char.ofNat, dif_neg hvalid]
    rfl

/-- The lower-case letter of a character is left as it is. -/
private theorem isLower_lowerChar {c : Char} (hdotted : c.toNat ≠ 0x130)
    (hsigma : c.toNat ≠ 0x3a3) : IsLower (lowerChar c) := by
  by_cases hascii : c.toNat < 128
  · have hlower : lowerChar c = c.toLower := if_pos hascii
    have hsmall : c.toLower.toNat < 128 := by
      have h := apply_toLower (f := fun c ↦ decide (c.toNat < 128)) (by decide) c
      simpa [hascii] using h
    rw [hlower]
    refine ⟨by omega, by omega, ?_⟩
    rw [lowerChar_toLower, hlower]
  · cases hrun : caseRun? c with
    | none =>
      have hlower : lowerChar c = c := by
        rw [lowerChar, if_neg hascii, lowerByTable, hrun, Option.map_none, Option.getD_none]
      rw [hlower]
      exact ⟨hdotted, hsigma, hlower⟩
    | some run =>
      obtain ⟨hmem, hholds⟩ := caseRun?_eq_some hrun
      rw [lowerChar, if_neg hascii, lowerByTable, hrun, Option.map_some, Option.getD_some]
      refine isLower_of_not_holds fun other hother ↦ ?_
      rcases toNat_ofNat_cases ((c.toNat : Int) + run.shift).toNat with hpoint | hpoint
      · rw [hpoint]
        exact not_holds_lower hmem hother hholds
      · rw [hpoint]
        have hpositive : ((dottedRun :: caseRuns).all fun run ↦ Nat.blt 0 run.first) = true := by
          decide +kernel
        have hfirst := List.all_eq_true.mp hpositive other hother
        rw [Nat.blt_eq] at hfirst
        exact fun hzero ↦ absurd hzero.1 (Nat.not_le.mpr hfirst)

/-! ### Texts -/

private theorem isLower_of_mem_lowerAt {before rest : List Char} {c d : Char}
    (h : d ∈ lowerAt before c rest) : IsLower d := by
  have hletters : (['i', Char.ofNat 0x307, Char.ofNat 0x3c2, Char.ofNat 0x3c3].all fun d ↦
      decide (d.toNat ≠ 0x130 ∧ d.toNat ≠ 0x3a3 ∧ lowerChar d = d)) = true := by
    decide +kernel
  have hisLower : ∀ d ∈ ['i', Char.ofNat 0x307, Char.ofNat 0x3c2, Char.ofNat 0x3c3],
      IsLower d := by
    intro d hd
    obtain ⟨hdotted, hsigma, heq⟩ := of_decide_eq_true (List.all_eq_true.mp hletters d hd)
    exact ⟨hdotted, hsigma, heq⟩
  unfold lowerAt at h
  split at h
  · exact hisLower d (List.mem_append_left [Char.ofNat 0x3c2, Char.ofNat 0x3c3] h)
  · next hdotted =>
    split at h
    · split at h <;> exact hisLower d (by simp_all)
    · next hsigma =>
      rw [List.mem_singleton.mp h]
      exact isLower_lowerChar hdotted hsigma

private theorem isLower_of_mem_lowerAfter {before cs : List Char} {d : Char}
    (h : d ∈ lowerAfter before cs) : IsLower d := by
  induction cs generalizing before with
  | nil => cases h
  | cons c rest ih =>
    rw [lowerAfter, List.mem_append] at h
    exact h.elim isLower_of_mem_lowerAt ih

private theorem lowerAfter_eq_self {cs : List Char} (h : ∀ c ∈ cs, IsLower c)
    (before : List Char) : lowerAfter before cs = cs := by
  induction cs generalizing before with
  | nil => rfl
  | cons c rest ih =>
    obtain ⟨hc, hrest⟩ := List.forall_mem_cons.mp h
    rw [lowerAfter, lowerAt, if_neg hc.notDotted, if_neg hc.notSigma, hc.lowerChar_eq, ih hrest,
      List.singleton_append]

/-- Lowering a text twice is lowering it once. -/
@[simp] theorem lower_lower (text : String) : lower (lower text) = lower text := by
  have hchars : lowerChars (lowerChars text.toList) = lowerChars text.toList :=
    lowerAfter_eq_self (fun _ hc ↦ isLower_of_mem_lowerAfter hc) []
  rw [lower, lower, String.toList_ofList, hchars]

end FlowChart.Text
