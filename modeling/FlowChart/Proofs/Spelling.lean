import FlowChart.Proofs.Graph.Outline
import FlowChart.Proofs.Text.LetterCase
import Mathlib.Logic.Relation

/-!
# Spellings of a listing

Two texts are spelled alike if one becomes the other by changing the case of ASCII letters and the
number of zeros in front of the digits of a literal. Listings whose operations, addresses and operands
are spelled alike have graphs with one outline, with one exception. The mark of a literal among
operands must keep its case: an address may be written with `0X`, but in an operand text that is not
read as the beginning of a literal.
-/

namespace FlowChart

namespace Text

/-- One change of spelling. Characters at places that are `fixed` keep their case. -/
inductive Respelling (fixed : List Char → Char → List Char → Prop) :
    List Char → List Char → Prop where
  /-- A letter is written in the other case. -/
  | letter {before : List Char} {c c' : Char} {after : List Char} (same : c.toLower = c'.toLower)
      (free : ¬ fixed before c after) :
      Respelling fixed (before ++ c :: after) (before ++ c' :: after)
  /-- The digits of a literal get one more zero in front. -/
  | zero {before : List Char} {mark digit : Char} {after : List Char} (isMark : mark.toLower = 'x')
      (isDigit : isHexDigit digit = true) :
      Respelling fixed (before ++ '0' :: mark :: digit :: after)
        (before ++ '0' :: mark :: '0' :: digit :: after)

/-- Two texts are spelled alike: one becomes the other by changes of spelling. -/
def SpelledAlike (fixed : List Char → Char → List Char → Prop) : List Char → List Char → Prop :=
  Relation.EqvGen (Respelling fixed)

/-- No place is fixed. -/
def Nowhere (_ : List Char) (_ : Char) (_ : List Char) : Prop := False

/-- The place of the mark of a literal: between a zero and a digit. -/
def AtMark (before : List Char) (c : Char) (after : List Char) : Prop :=
  before.getLast? = some '0' ∧ c.toLower = 'x' ∧ ∃ digit ∈ after.head?, isHexDigit digit = true

/-- What no change of spelling changes is one for all texts that are spelled alike. -/
theorem SpelledAlike.apply_eq {fixed : List Char → Char → List Char → Prop} {β : Type}
    {f : List Char → β} (hf : ∀ {cs cs'}, Respelling fixed cs cs' → f cs = f cs') {cs cs' : List Char}
    (h : SpelledAlike fixed cs cs') : f cs = f cs' := by
  induction h with
  | rel _ _ h => exact hf h
  | refl _ => rfl
  | symm _ _ _ ih => exact ih.symm
  | trans _ _ _ _ _ ih ih' => exact ih.trans ih'

private theorem map_hexValue?_toLower (cs : List Char) :
    (cs.map Char.toLower).map hexValue? = cs.map hexValue? := by
  rw [List.map_map]
  exact List.map_congr_left fun c _ ↦ hexValue?_toLower c

/-- A number depends on its digits only through their values. -/
theorem ofHexDigits_congr {cs cs' : List Char} (h : cs.map hexValue? = cs'.map hexValue?) :
    ofHexDigits cs = ofHexDigits cs' := by
  have hvalues : ∀ ds : List Char, ofHexDigits ds =
      (ds.map hexValue?).foldl (fun n v ↦ 16 * n + v.getD 0) 0 := fun ds ↦ by
    rw [ofHexDigits, List.foldl_map]
  rw [hvalues, hvalues, h]

/-- A zero in front does not change a number. -/
theorem ofHexDigits_zero_cons (cs : List Char) : ofHexDigits ('0' :: cs) = ofHexDigits cs := rfl

end Text

namespace Address

open Text

/-! ### Addresses -/

private theorem dropMark_cons_cons (c mark : Char) (rest : List Char) :
    dropMark (c :: mark :: rest) =
      if c = '0' ∧ mark.toLower = 'x' then rest else c :: mark :: rest := by
  simp only [toLower_eq_x_iff]
  unfold dropMark
  split <;> simp_all

private theorem dropMark_map_toLower (cs : List Char) :
    dropMark (cs.map Char.toLower) = (dropMark cs).map Char.toLower := by
  match cs with
  | [] => rfl
  | [c] => simp [dropMark]
  | c :: mark :: rest =>
    simp only [List.map_cons, dropMark_cons_cons, toLower_toLower, toLower_eq_zero_iff]
    split <;> rfl

private theorem ofChars?_map_toLower (cs : List Char) :
    ofChars? (cs.map Char.toLower) = ofChars? cs := by
  have hdigit : isHexDigit ∘ Char.toLower = isHexDigit := funext isHexDigit_toLower
  simp only [ofChars?, ofTrimmed?, trim_map_toLower, dropMark_map_toLower, List.isEmpty_map,
    List.all_map, hdigit, ofHexDigits_congr (map_hexValue?_toLower _)]

private theorem isHexDigit_eq_false_of_mark {mark : Char} (h : mark.toLower = 'x') :
    isHexDigit mark = false := by
  rw [← isHexDigit_toLower, h]
  rfl

private theorem dropWhile_append_cons {p : Char → Bool} {c : Char} (hc : p c = false)
    (before after : List Char) :
    (before ++ c :: after).dropWhile p = before.dropWhile p ++ c :: after := by
  rw [List.dropWhile_append, List.dropWhile_cons_of_neg (by simp [hc])]
  split
  · next hempty => rw [List.isEmpty_iff.mp hempty, List.nil_append]
  · rfl

/-- Around a character that is not blank, a text is trimmed on either side by itself. -/
private theorem trim_append_cons {c : Char} (hc : isBlank c = false) (before after : List Char) :
    trim (before ++ c :: after) =
      before.dropWhile isBlank ++ c :: (after.reverse.dropWhile isBlank).reverse := by
  rw [trim, trimBy, dropWhile_append_cons hc, List.reverse_append, List.reverse_cons,
    List.append_assoc, List.singleton_append, dropWhile_append_cons hc]
  simp

/-- A literal with something in front of it is no address. -/
private theorem ofTrimmed?_of_ne_nil {before : List Char} (hbefore : before ≠ []) {mark : Char}
    (hmark : mark.toLower = 'x') (rest : List Char) :
    ofTrimmed? (before ++ '0' :: mark :: rest) = none := by
  have hmem : mark ∈ dropMark (before ++ '0' :: mark :: rest) := by
    match before with
    | [c] =>
      rw [List.singleton_append, dropMark_cons_cons, if_neg (fun h ↦ absurd h.2 (by decide))]
      simp
    | c :: c' :: before =>
      rw [List.cons_append, List.cons_append, dropMark_cons_cons]
      split <;> simp
  have hdigits : (dropMark (before ++ '0' :: mark :: rest)).all isHexDigit = false :=
    List.all_eq_false.mpr ⟨mark, hmem, by simp [isHexDigit_eq_false_of_mark hmark]⟩
  simp [ofTrimmed?, hdigits]

private theorem ofTrimmed?_zero_cons (before : List Char) {mark digit : Char}
    (hmark : mark.toLower = 'x') (after : List Char) :
    ofTrimmed? (before ++ '0' :: mark :: digit :: after) =
      ofTrimmed? (before ++ '0' :: mark :: '0' :: digit :: after) := by
  by_cases hbefore : before = []
  · subst hbefore
    have hdigits : ('0' :: digit :: after).all isHexDigit = (digit :: after).all isHexDigit := rfl
    simp only [ofTrimmed?, List.nil_append, dropMark_cons_cons, hmark, and_self, if_true, hdigits,
      ofHexDigits_zero_cons, List.isEmpty_cons]
  · rw [ofTrimmed?_of_ne_nil hbefore hmark, ofTrimmed?_of_ne_nil hbefore hmark]

/-- An address has one value in all its spellings. -/
theorem ofChars?_of_respelling {cs cs' : List Char} (h : Respelling Nowhere cs cs') :
    ofChars? cs = ofChars? cs' := by
  cases h with
  | @letter before c c' after same _ =>
    have hlower : (before ++ c :: after).map Char.toLower =
        (before ++ c' :: after).map Char.toLower := by
      rw [List.map_append, List.map_append, List.map_cons, List.map_cons, same]
    rw [← ofChars?_map_toLower, hlower, ofChars?_map_toLower]
  | @zero before mark digit after isMark isDigit =>
    have htrim : ∀ zeros : List Char, trim (before ++ '0' :: mark :: (zeros ++ digit :: after)) =
        before.dropWhile isBlank ++
          '0' :: mark :: (zeros ++ digit :: (after.reverse.dropWhile isBlank).reverse) := by
      intro zeros
      have h := trim_append_cons (isBlank_eq_false_of_isHexDigit isDigit)
        (before ++ '0' :: mark :: zeros) after
      rw [dropWhile_append_cons (by decide)] at h
      simpa using h
    rw [ofChars?, ofChars?]
    -- whatever is trimmed on either side, the characters from the zero to the digit are kept
    exact (congrArg ofTrimmed? (htrim [])).trans
      ((ofTrimmed?_zero_cons _ isMark _).trans (congrArg ofTrimmed? (htrim ['0'])).symm)

/-! ### Literals among operands -/

/-- Two texts have the same literals, also if the same characters stand in front of both. -/
structure SameLiterals (cs cs' : List Char) : Prop where
  /-- The first literals are the same. -/
  first : firstLiteral? cs = firstLiteral? cs'
  /-- The digits that the texts start with are the same. -/
  digits : (cs.takeWhile isHexDigit).map hexValue? = (cs'.takeWhile isHexDigit).map hexValue?
  /-- With a zero in front, the texts start with the same literal. -/
  literal : literal? ('0' :: cs) = literal? ('0' :: cs')

private theorem literal?_eq_none_of_ne {c : Char} (h : c ≠ '0') (rest : List Char) :
    literal? (c :: rest) = none := by
  unfold literal?
  split
  · next heq => exact absurd (List.cons.inj heq).1 h
  · rfl

private theorem literal?_zero_eq_none_of_ne {c : Char} (h : c ≠ 'x') (rest : List Char) :
    literal? ('0' :: c :: rest) = none := by
  unfold literal?
  split
  · next heq => exact absurd (List.cons.inj (List.cons.inj heq).2).1 h
  · rfl

private theorem literal?_congr {cs cs' : List Char}
    (h : (cs.takeWhile isHexDigit).map hexValue? = (cs'.takeWhile isHexDigit).map hexValue?) :
    literal? ('0' :: 'x' :: cs) = literal? ('0' :: 'x' :: cs') := by
  have hempty : (cs.takeWhile isHexDigit).isEmpty = (cs'.takeWhile isHexDigit).isEmpty := by
    have hmap := congrArg List.isEmpty h
    rwa [List.isEmpty_map, List.isEmpty_map] at hmap
  simp only [literal?, hempty, ofHexDigits_congr h]

private theorem SameLiterals.cons {cs cs' : List Char} (h : SameLiterals cs cs') (c : Char) :
    SameLiterals (c :: cs) (c :: cs') where
  first := by
    rw [firstLiteral?, firstLiteral?, h.first]
    by_cases hc : c = '0'
    · rw [hc, h.literal]
    · rw [literal?_eq_none_of_ne hc, literal?_eq_none_of_ne hc]
  digits := by
    rw [List.takeWhile_cons, List.takeWhile_cons]
    split
    · rw [List.map_cons, List.map_cons, h.digits]
    · rfl
  literal := by
    by_cases hc : c = 'x'
    · rw [hc]
      exact literal?_congr h.digits
    · rw [literal?_zero_eq_none_of_ne hc, literal?_zero_eq_none_of_ne hc]

private theorem SameLiterals.append {cs cs' : List Char} (h : SameLiterals cs cs')
    (before : List Char) : SameLiterals (before ++ cs) (before ++ cs') := by
  induction before with
  | nil => exact h
  | cons c _ ih => exact ih.cons c

private theorem takeWhile_cons_of_mark {mark : Char} (h : mark.toLower = 'x') (rest : List Char) :
    (mark :: rest).takeWhile isHexDigit = [] :=
  List.takeWhile_cons_of_neg (by simp [isHexDigit_eq_false_of_mark h])

private theorem firstLiteral?_cons_of_ne {c : Char} (h : c ≠ '0') (rest : List Char) :
    firstLiteral? (c :: rest) = firstLiteral? rest := by
  rw [firstLiteral?, literal?_eq_none_of_ne h]

private theorem ne_zero_of_mark {mark : Char} (h : mark.toLower = 'x') : mark ≠ '0' := by
  rintro rfl
  exact absurd h (by decide)

/-- Another zero in front of its digits leaves a literal what it is. -/
private theorem sameLiterals_zero {mark digit : Char} (hmark : mark.toLower = 'x')
    (hdigit : isHexDigit digit = true) (after : List Char) :
    SameLiterals ('0' :: mark :: digit :: after) ('0' :: mark :: '0' :: digit :: after) where
  first := by
    have hx : digit ≠ 'x' := by
      rintro rfl
      exact absurd hdigit (by decide)
    have hrest : firstLiteral? ('0' :: digit :: after) = firstLiteral? (digit :: after) := by
      rw [firstLiteral?, literal?_zero_eq_none_of_ne hx]
    rw [firstLiteral?, firstLiteral?.eq_2 '0' (mark :: '0' :: _),
      firstLiteral?_cons_of_ne (ne_zero_of_mark hmark),
      firstLiteral?_cons_of_ne (ne_zero_of_mark hmark), hrest]
    by_cases hlow : mark = 'x'
    · subst hlow
      have hzero : ('0' :: digit :: after).takeWhile isHexDigit =
          '0' :: (digit :: after).takeWhile isHexDigit := rfl
      have hne : (digit :: after).takeWhile isHexDigit ≠ [] := by
        rw [List.takeWhile_cons_of_pos hdigit]
        exact List.cons_ne_nil _ _
      simp [literal?, hzero, hne, ofHexDigits_zero_cons]
    · rw [literal?_zero_eq_none_of_ne hlow, literal?_zero_eq_none_of_ne hlow]
  digits := by
    have hrun : ∀ rest, ('0' :: mark :: rest).takeWhile isHexDigit = ['0'] := by
      intro rest
      rw [List.takeWhile_cons_of_pos rfl, takeWhile_cons_of_mark hmark]
    rw [hrun, hrun]
  literal := by
    rw [literal?_zero_eq_none_of_ne (by decide), literal?_zero_eq_none_of_ne (by decide)]

/-- A letter in the other case leaves the literals what they are, unless it is the mark of one. -/
private theorem sameLiterals_letter {c c' : Char} (same : c.toLower = c'.toLower) {after : List Char}
    (hfree : c.toLower = 'x' → ∀ digit ∈ after.head?, isHexDigit digit = false) :
    SameLiterals (c :: after) (c' :: after) where
  first := by
    by_cases hc : c = '0'
    · subst hc
      rw [toLower_eq_zero_iff.mp same.symm]
    · have hc' : c' ≠ '0' := fun h ↦ hc (toLower_eq_zero_iff.mp (same.trans (by rw [h]; rfl)))
      rw [firstLiteral?_cons_of_ne hc, firstLiteral?_cons_of_ne hc']
  digits := by
    have hdigit : isHexDigit c = isHexDigit c' := by
      rw [← isHexDigit_toLower, same, isHexDigit_toLower]
    have hvalue : hexValue? c = hexValue? c' := by
      rw [← hexValue?_toLower, same, hexValue?_toLower]
    rw [List.takeWhile_cons, List.takeWhile_cons, hdigit]
    split
    · rw [List.map_cons, List.map_cons, hvalue]
    · rfl
  literal := by
    by_cases hmark : c.toLower = 'x'
    · have hrun : after.takeWhile isHexDigit = [] := takeWhile_isHexDigit_eq_nil (hfree hmark)
      have hnone : ∀ d : Char, literal? ('0' :: d :: after) = none := by
        intro d
        by_cases hd : d = 'x'
        · simp [hd, literal?, hrun]
        · exact literal?_zero_eq_none_of_ne hd after
      rw [hnone, hnone]
    · have hne : ∀ d : Char, d.toLower = c.toLower → d ≠ 'x' := by
        rintro d hd rfl
        exact hmark hd.symm
      rw [literal?_zero_eq_none_of_ne (hne c rfl), literal?_zero_eq_none_of_ne (hne c' same.symm)]

/-- A mark in the other case leaves the literals what they are, unless it follows a zero. -/
private theorem sameLiterals_mark {b c c' : Char} (hb : b ≠ '0') (hc : c.toLower = 'x')
    (hc' : c'.toLower = 'x') (after : List Char) :
    SameLiterals (b :: c :: after) (b :: c' :: after) where
  first := by
    rw [firstLiteral?_cons_of_ne hb, firstLiteral?_cons_of_ne hb,
      firstLiteral?_cons_of_ne (ne_zero_of_mark hc), firstLiteral?_cons_of_ne (ne_zero_of_mark hc')]
  digits := by
    rw [List.takeWhile_cons, takeWhile_cons_of_mark hc, List.takeWhile_cons,
      takeWhile_cons_of_mark hc']
  literal := by
    by_cases hx : b = 'x'
    · rw [hx]
      apply literal?_congr
      rw [takeWhile_cons_of_mark hc, takeWhile_cons_of_mark hc']
    · rw [literal?_zero_eq_none_of_ne hx, literal?_zero_eq_none_of_ne hx]

/-- The first literal among operands has one value in all spellings that keep the marks. -/
theorem firstLiteral?_of_respelling {cs cs' : List Char} (h : Respelling AtMark cs cs') :
    firstLiteral? cs = firstLiteral? cs' := by
  cases h with
  | @letter before c c' after same free =>
    -- what looks like the mark of a literal is none if no zero stands before it
    by_cases hmark : c.toLower = 'x' ∧ ∃ digit ∈ after.head?, isHexDigit digit = true
    · have hzero : before.getLast? ≠ some '0' := fun h ↦ free ⟨h, hmark⟩
      have hmark' : c'.toLower = 'x' := same.symm.trans hmark.1
      rcases List.eq_nil_or_concat before with rfl | ⟨front, b, rfl⟩
      · rw [List.nil_append, List.nil_append, firstLiteral?_cons_of_ne (ne_zero_of_mark hmark.1),
          firstLiteral?_cons_of_ne (ne_zero_of_mark hmark')]
      · have hb : b ≠ '0' := by simpa using hzero
        have hsame := (sameLiterals_mark hb hmark.1 hmark' after).append front
        simpa using hsame.first
    · have hfree : c.toLower = 'x' → ∀ digit ∈ after.head?, isHexDigit digit = false := by
        intro hx digit hdigit
        exact Bool.eq_false_iff.mpr fun h ↦ hmark ⟨hx, digit, hdigit, h⟩
      exact ((sameLiterals_letter same hfree).append before).first
  | @zero before mark digit after isMark isDigit =>
    exact ((sameLiterals_zero isMark isDigit after).append before).first

end Address

/-! ### Listings -/

/-- Two instructions are spelled alike: their operations in some letter case, and their addresses and
operands with some letter case and some zeros in front of digits. The case is kept at the places among
operands that are `fixed`. -/
structure Instruction.SpelledAlike (fixed : List Char → Char → List Char → Prop)
    (i j : Instruction) : Prop where
  /-- The operations differ in letter case only. -/
  opcode : i.opcode.toList.map Char.toLower = j.opcode.toList.map Char.toLower
  /-- The addresses are spelled alike. -/
  address : Text.SpelledAlike Text.Nowhere i.address.toList j.address.toList
  /-- The operands are spelled alike. -/
  operands : Text.SpelledAlike fixed i.operands.toList j.operands.toList

namespace Instruction

/-- An operation has one mnemonic in all letter cases. -/
theorem mnemonic_congr {i j : Instruction}
    (h : i.opcode.toList.map Char.toLower = j.opcode.toList.map Char.toLower) :
    i.mnemonic = j.mnemonic := by
  have hlower : ∀ cs : List Char, Text.lowerChars (Text.trim cs) =
      Text.lowerChars (Text.trim (cs.map Char.toLower)) := fun cs ↦ by
    rw [Text.trim_map_toLower, Text.lowerChars_map_toLower]
  simp only [mnemonic, Text.lower, String.toList_ofList, hlower i.opcode.toList, h, ← hlower]

/-- Instructions whose marks among operands are spelled alike play the same roles and have and name
the same addresses. -/
theorem SpelledAlike.corresponds {i j : Instruction} (h : SpelledAlike Text.AtMark i j)
    (c : Classifier) : Listing.Corresponds c 0 i j := by
  have haddress : i.address? = j.address? :=
    h.address.apply_eq fun h ↦ Address.ofChars?_of_respelling h
  have htarget : i.target? = j.target? :=
    h.operands.apply_eq fun h ↦ Address.firstLiteral?_of_respelling h
  have hmnemonic := mnemonic_congr h.opcode
  constructor
  · rw [hmnemonic]
  · rw [hmnemonic]
  · rw [hmnemonic]
  · simp [haddress]
  · simp [htarget]

end Instruction

namespace Listing

/-- Listings that are spelled alike, with the marks among operands in the same case, have graphs with
one outline. -/
theorem outline_split_of_spelledAlike (c : Classifier) {listing listing' : List Instruction}
    (h : List.Forall₂ (Instruction.SpelledAlike Text.AtMark) listing listing') :
    (split c listing').outline = (split c listing).outline :=
  outline_split (h.imp fun _ _ hij ↦ hij.corresponds c)

/-- A jump in two spellings. -/
theorem outline_split_of_spelledAlike_jump :
    let listing : List Instruction := [⟨"0x1000", "", "jmp", "0x1004", .null⟩,
      ⟨"0x1004", "", "ret", "", .null⟩]
    let listing' : List Instruction := [⟨"0X1000", "", "JMP", "0x01004", .null⟩,
      ⟨"0x1004", "", "Ret", "", .null⟩]
    List.Forall₂ (Instruction.SpelledAlike Text.AtMark) listing listing' ∧
      (split .x86 listing').outline = (split .x86 listing).outline := by
  intro listing listing'
  have hspelled : List.Forall₂ (Instruction.SpelledAlike Text.AtMark) listing listing' := by
    refine .cons ⟨by decide, ?_, ?_⟩ (.cons ⟨by decide, .refl _, .refl _⟩ .nil)
    · exact .rel _ _ (@Text.Respelling.letter _ ['0'] 'x' 'X' ['1', '0', '0', '0'] rfl id)
    · exact .rel _ _ (@Text.Respelling.zero _ [] 'x' '1' ['0', '0', '4'] rfl rfl)
  exact ⟨hspelled, outline_split_of_spelledAlike .x86 hspelled⟩

/-- A mark in the other case among operands changes the outline: the target of the jump is not found
any more. -/
theorem outline_split_ne_of_capitalMark :
    let listing : List Instruction := [⟨"0x1000", "", "jmp", "0x1008", .null⟩,
      ⟨"0x1004", "", "nop", "", .null⟩, ⟨"0x1008", "", "ret", "", .null⟩]
    let listing' : List Instruction := [⟨"0x1000", "", "jmp", "0X1008", .null⟩,
      ⟨"0x1004", "", "nop", "", .null⟩, ⟨"0x1008", "", "ret", "", .null⟩]
    List.Forall₂ (Instruction.SpelledAlike Text.Nowhere) listing listing' ∧
      (split .x86 listing').outline ≠ (split .x86 listing).outline := by
  intro listing listing'
  constructor
  · refine .cons ⟨rfl, .refl _, ?_⟩ (.cons ⟨rfl, .refl _, .refl _⟩ (.cons ⟨rfl, .refl _, .refl _⟩ .nil))
    exact .rel _ _ (@Text.Respelling.letter _ ['0'] 'x' 'X' ['1', '0', '0', '8'] rfl id)
  · decide +kernel

end Listing

end FlowChart
