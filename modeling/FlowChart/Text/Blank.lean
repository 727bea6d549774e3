import FlowChart.Text.Range

/-!
# White space

The characters that surround a text without belonging to it, and the removal of them at both ends.
The text of a number is surrounded by a slightly smaller set: the four information separators are
blank around words, but not around digits.
-/

namespace FlowChart.Text

/-- Code points of the Unicode white space characters, the information separators included. -/
def blankRanges : List (Nat × Nat) :=
  [(0x9, 0xd), (0x1c, 0x20), (0x85, 0x85), (0xa0, 0xa0), (0x1680, 0x1680), (0x2000, 0x200a),
    (0x2028, 0x2029), (0x202f, 0x202f), (0x205f, 0x205f), (0x3000, 0x3000)]

/-- White space around a word. -/
def isBlank (c : Char) : Bool := inRanges blankRanges c

/-- White space around a number: blanks other than the information separators. -/
def isBlankBesideDigits (c : Char) : Bool :=
  isBlank c && !inRanges [(0x1c, 0x1f)] c

/-- The text without the characters satisfying `p` at its two ends. -/
def trimBy (p : Char → Bool) (cs : List Char) : List Char :=
  ((cs.dropWhile p).reverse.dropWhile p).reverse

/-- The text without surrounding white space. -/
def trim (cs : List Char) : List Char := trimBy isBlank cs

/-- Trimming an empty text leaves it empty. -/
theorem trimBy_nil (p : Char → Bool) : trimBy p [] = [] := rfl

/-- A text whose end characters are both kept is not changed by trimming. -/
theorem trimBy_of_ends {p : Char → Bool} {cs : List Char}
    (hhead : ∀ c ∈ cs.head?, p c = false) (hlast : ∀ c ∈ cs.getLast?, p c = false) :
    trimBy p cs = cs := by
  have front : cs.dropWhile p = cs := by
    cases cs with
    | nil => rfl
    | cons c rest => simp [hhead c (by simp)]
  rw [trimBy, front]
  cases hr : cs.reverse with
  | nil => simpa using (congrArg List.reverse hr).symm
  | cons c rest =>
    have hc : cs.getLast? = some c := by rw [← List.head?_reverse, hr]; rfl
    rw [List.dropWhile_cons, hlast c (by simp [hc])]
    simpa using (congrArg List.reverse hr).symm

/-- White space in the narrow sense is blank. -/
theorem isBlank_of_isWhitespace {c : Char} (h : c.isWhitespace = true) : isBlank c = true := by
  simp only [Char.isWhitespace, Bool.or_eq_true, decide_eq_true_eq] at h
  rcases h with ((rfl | rfl) | rfl) | rfl <;> decide

end FlowChart.Text
