import FlowChart.Instruction.Address
import FlowChart.Proofs.Text.HexNumerals
import Mathlib.Data.List.TakeWhile

/-!
# Texts of addresses

The texts that denote addresses are exactly the hexadecimal numerals, with or without a mark in
front and with any blanks around them. A number has many such texts. The one that is written for it
is read back, and it is the form of all others, so that texts of one number are recognised by their
forms.
-/

namespace FlowChart

namespace Text

variable {before core after : List Char}

/-! ### Blanks around a text -/

/-- Trimming takes blanks off at both ends. -/
theorem exists_trim (cs : List Char) :
    ∃ before after, (∀ c ∈ before, isBlank c = true) ∧ (∀ c ∈ after, isBlank c = true) ∧
      cs = before ++ trim cs ++ after := by
  refine ⟨cs.takeWhile isBlank, ((cs.dropWhile isBlank).reverse.takeWhile isBlank).reverse,
    fun c ↦ List.mem_takeWhile_imp, fun c hc ↦ List.mem_takeWhile_imp (List.mem_reverse.mp hc), ?_⟩
  rw [trim, trimBy, List.append_assoc, ← List.reverse_append, List.takeWhile_append_dropWhile,
    List.reverse_reverse, List.takeWhile_append_dropWhile]

/-- A text without blanks is what trimming leaves of it and blanks around it. -/
theorem trim_append (hbefore : ∀ c ∈ before, isBlank c = true) (hne : core ≠ [])
    (hcore : ∀ c ∈ core, isBlank c = false) (hafter : ∀ c ∈ after, isBlank c = true) :
    trim (before ++ core ++ after) = core := by
  have hdrop : ∀ cs rest, cs ≠ [] → (∀ c ∈ cs, isBlank c = false) →
      (cs ++ rest).dropWhile isBlank = cs ++ rest := by
    intro cs rest hcs hvisible
    obtain ⟨c, cs, rfl⟩ := List.exists_cons_of_ne_nil hcs
    exact List.dropWhile_cons_of_neg (by simp [hvisible c List.mem_cons_self])
  have hback := hdrop core.reverse [] (List.reverse_ne_nil_iff.mpr hne)
    fun c hc ↦ hcore c (List.mem_reverse.mp hc)
  rw [List.append_nil] at hback
  rw [trim, trimBy, List.append_assoc, List.dropWhile_append_of_pos hbefore,
    hdrop core after hne hcore, List.reverse_append,
    List.dropWhile_append_of_pos fun c hc ↦ hafter c (List.mem_reverse.mp hc), hback,
    List.reverse_reverse]

end Text

namespace Address

open Text

variable {cs : List Char} {text : String} {address : Nat}

/-- What may stand in front of the digits of an address. -/
inductive IsMark : List Char → Prop where
  /-- Nothing. -/
  | none : IsMark []
  /-- The small mark. -/
  | small : IsMark ['0', 'x']
  /-- The capital mark. -/
  | capital : IsMark ['0', 'X']

/-- A text denotes an address: apart from blanks around it, it is a numeral, with or without a
mark. -/
inductive Denotes : List Char → Nat → Prop where
  /-- The parts of such a text. -/
  | intro {before mark digits after : List Char} {address : Nat}
      (before_blank : ∀ c ∈ before, isBlank c = true) (isMark : IsMark mark)
      (isNumeral : IsHexNumeral digits address) (after_blank : ∀ c ∈ after, isBlank c = true) :
      Denotes (before ++ (mark ++ digits) ++ after) address

/-! ### Marks -/

/-- Dropping the mark of a text leaves what stands behind it. -/
private theorem exists_mark (cs : List Char) : ∃ mark, IsMark mark ∧ cs = mark ++ dropMark cs := by
  unfold dropMark
  split
  · exact ⟨_, .small, rfl⟩
  · exact ⟨_, .capital, rfl⟩
  · exact ⟨_, .none, rfl⟩

/-- A numeral is what stands behind its mark. -/
private theorem dropMark_append {mark digits : List Char} (hmark : IsMark mark)
    (hdigits : ∀ c ∈ digits, isHexDigit c = true) : dropMark (mark ++ digits) = digits := by
  cases hmark with
  | small => rfl
  | capital => rfl
  | none =>
    rw [List.nil_append]
    unfold dropMark
    split
    · next h => exact absurd (hdigits 'x' (by simp)) (by decide)
    · next h => exact absurd (hdigits 'X' (by simp)) (by decide)
    · rfl

private theorem IsMark.isBlank_eq_false {mark : List Char} (h : IsMark mark) :
    ∀ c ∈ mark, isBlank c = false := by
  have hmarks : isBlank '0' = false ∧ isBlank 'x' = false ∧ isBlank 'X' = false := by decide
  cases h <;> simp [hmarks]

/-! ### Reading -/

/-- Without blanks around it, a text denotes what its digits behind the mark stand for. -/
private theorem ofTrimmed?_eq_some_iff :
    ofTrimmed? cs = some address ↔ IsHexNumeral (dropMark cs) address := by
  rw [isHexNumeral_iff, ofTrimmed?]
  split
  · next h =>
    simp only [Bool.or_eq_true, List.isEmpty_iff, Bool.not_eq_true', List.all_eq_false] at h
    simp only [reduceCtorEq, false_iff, not_and]
    intro hne hdigits
    obtain ⟨c, hc, hnot⟩ := h.resolve_left hne
    exact absurd (hdigits c hc) hnot
  · next h =>
    simp only [Bool.or_eq_true, List.isEmpty_iff, Bool.not_eq_true', not_or, Bool.not_eq_false,
      List.all_eq_true] at h
    rw [Option.some.injEq]
    exact ⟨fun hvalue ↦ ⟨h.1, h.2, hvalue⟩, fun hnumeral ↦ hnumeral.2.2⟩

/-- A text is read as an address exactly if it denotes it. -/
theorem ofText?_eq_some_iff : ofText? text = some address ↔ Denotes text.toList address := by
  rw [ofText?, ofChars?, ofTrimmed?_eq_some_iff]
  generalize text.toList = cs
  constructor
  · intro h
    obtain ⟨before, after, hbefore, hafter, htrim⟩ := exists_trim cs
    obtain ⟨mark, hmark, hdrop⟩ := exists_mark (trim cs)
    rw [htrim, hdrop]
    exact .intro hbefore hmark h hafter
  · intro h
    cases h with
    | @intro before mark digits after _ hbefore hmark hnumeral hafter =>
      obtain ⟨hne, hdigits, -⟩ := isHexNumeral_iff.mp hnumeral
      have hvisible : ∀ c ∈ mark ++ digits, isBlank c = false := by
        refine List.forall_mem_append.mpr ⟨hmark.isBlank_eq_false, fun c hc ↦ ?_⟩
        exact isBlank_eq_false_of_isHexDigit (hdigits c hc)
      rw [trim_append hbefore (by simp [hne]) hvisible hafter, dropMark_append hmark hdigits]
      exact hnumeral

/-! ### Forms -/

/-- The text that is written for a number is read as the number. -/
theorem ofText?_toText (address : Nat) : ofText? (toText address) = some address := by
  have h : Denotes ([] ++ (['0', 'x'] ++ hexDigits address) ++ []) address :=
    .intro (by simp) .small (isHexNumeral_hexDigits address) (by simp)
  rw [ofText?_eq_some_iff, toText, String.toList_ofList]
  simpa [hexLiteral] using h

/-- Different numbers are written differently. -/
theorem toText_inj {a b : Nat} : toText a = toText b ↔ a = b := by
  refine ⟨fun h ↦ ?_, congrArg toText⟩
  have hread := ofText?_toText a
  rw [h, ofText?_toText] at hread
  exact (Option.some.inj hread).symm

/-- Exactly the texts of numerals are read, each as the number that it denotes. The form of such a
text is a text of the same number and its own form, and texts have one form if they denote one
number. -/
theorem reads_canonically (text : String) :
    (∀ address, ofText? text = some address ↔ Denotes text.toList address) ∧
      (ofText? text = none ↔ ∀ address, ¬ Denotes text.toList address) ∧
      (∀ address, ofText? text = some address →
        ∃ form, normalize? text = some form ∧ ofText? form = some address ∧
          normalize? form = some form) ∧
      ∀ other address address', ofText? text = some address → ofText? other = some address' →
        (normalize? text = normalize? other ↔ address = address') := by
  have hform : ∀ {text address}, ofText? text = some address →
      normalize? text = some (toText address) := fun h ↦ by rw [normalize?, h, Option.map_some]
  refine ⟨fun address ↦ ofText?_eq_some_iff, ?_, fun address h ↦ ?_, ?_⟩
  · simp only [Option.eq_none_iff_forall_ne_some, ne_eq, ofText?_eq_some_iff]
  · have hread := ofText?_toText address
    exact ⟨toText address, hform h, hread, hform hread⟩
  · intro other address address' h h'
    rw [hform h, hform h', Option.some.injEq, toText_inj]

/-- A capital mark, zeros in front and blanks around make no difference. -/
theorem reads_canonically_capital :
    ofText? " 0X00aB\n" = some 171 ∧ ofText? "ab" = some 171 ∧
      normalize? " 0X00aB\n" = normalize? "ab" := by
  have h : ofText? " 0X00aB\n" = some 171 := by decide
  have h' : ofText? "ab" = some 171 := by decide
  exact ⟨h, h', ((reads_canonically " 0X00aB\n").2.2.2 "ab" 171 171 h h').mpr rfl⟩

end Address

end FlowChart
