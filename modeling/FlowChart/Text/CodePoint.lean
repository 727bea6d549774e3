/-!
# Code points

A text from outside is a sequence of code points and may hold half of a surrogate pair that stands
alone. No character has the code point of a half, so a half is spelled by a stand-in: a character
of a private plane. Where a stand-in occurs as itself, an escape character goes in front of it.
Every sequence of code points then has a spelling of its own, and a text without halves and
stand-ins is its own spelling.
-/

namespace FlowChart.Text

/-- Whether a code point is the first half of a surrogate pair. -/
def isHighHalf (n : Nat) : Bool := 0xd800 ≤ n && n < 0xdc00

/-- Whether a code point is the second half of a surrogate pair. -/
def isLowHalf (n : Nat) : Bool := 0xdc00 ≤ n && n < 0xe000

/-- Whether a code point is half of a surrogate pair. -/
def isHalf (n : Nat) : Bool := 0xd800 ≤ n && n < 0xe000

/-- The code point of the character that a surrogate pair stands for. -/
def joinHalves (high low : Nat) : Nat := 0x10000 + (high - 0xd800) * 0x400 + (low - 0xdc00)

/-- How far the stand-in of a half is from it. -/
def standInShift : Nat := 0xf0000

/-- The code point that goes in front of a stand-in that occurs as itself. -/
def escapePoint : Nat := 0xfd7ff

/-- Whether a code point is that of a stand-in or the escape. -/
def isReserved (n : Nat) : Bool := 0xfd7ff ≤ n && n < 0xfe000

/-- The spelling of a code point. -/
def spell (n : Nat) : List Char :=
  if isHalf n then [Char.ofNat (n + standInShift)]
  else if isReserved n then [Char.ofNat escapePoint, Char.ofNat n]
  else [Char.ofNat n]

/-- The spelling of a sequence of code points. -/
def ofCodePoints (points : List Nat) : List Char := points.flatMap spell

/-- The code point that a character spells on its own. -/
def pointOf (c : Char) : Nat :=
  if isReserved c.toNat then c.toNat - standInShift else c.toNat

/-- The code points that a text spells. -/
def codePoints : List Char → List Nat
  | [] => []
  | [c] => [pointOf c]
  | c :: d :: rest =>
    if c.toNat = escapePoint then d.toNat :: codePoints rest
    else pointOf c :: codePoints (d :: rest)

/-- Whether a text does not come after another one in the order of code points. -/
def codePointLe (a b : String) : Bool :=
  !List.lex (codePoints b.toList) (codePoints a.toList) fun m n ↦ m < n

private theorem toNat_ofNat {n : Nat} (h : n.isValidChar) : (Char.ofNat n).toNat = n := by
  rw [Char.ofNat, dif_pos h]
  rfl

private theorem codePoints_cons {c : Char} (h : c.toNat ≠ escapePoint) (rest : List Char) :
    codePoints (c :: rest) = pointOf c :: codePoints rest := by
  cases rest with
  | nil => rfl
  | cons d rest => simp [codePoints, h]

private theorem codePoints_spell {n : Nat} (h : n < 0x110000) (rest : List Char) :
    codePoints (spell n ++ rest) = n :: codePoints rest := by
  by_cases hhalf : isHalf n
  · have hb : 0xd800 ≤ n ∧ n < 0xe000 := by simpa [isHalf] using hhalf
    have hv : (n + standInShift).isValidChar := by
      simp only [standInShift, Nat.isValidChar]
      omega
    have hc : (Char.ofNat (n + standInShift)).toNat = n + standInShift := toNat_ofNat hv
    have hne : (Char.ofNat (n + standInShift)).toNat ≠ escapePoint := by
      rw [hc]
      simp only [standInShift, escapePoint]
      omega
    have hr : isReserved (n + standInShift) = true := by
      have h1 : 0xfd7ff ≤ n + standInShift := by simp only [standInShift]; omega
      have h2 : n + standInShift < 0xfe000 := by simp only [standInShift]; omega
      simp [isReserved, h1, h2]
    simp only [spell, hhalf, if_true, List.cons_append, List.nil_append, codePoints_cons hne,
      pointOf, hc, hr, Nat.add_sub_cancel]
  · have hb : ¬ (0xd800 ≤ n ∧ n < 0xe000) := by simpa [isHalf] using hhalf
    have hv : n.isValidChar := by
      simp only [Nat.isValidChar]
      omega
    have hc : (Char.ofNat n).toNat = n := toNat_ofNat hv
    by_cases hres : isReserved n
    · have he : (Char.ofNat escapePoint).toNat = escapePoint :=
        toNat_ofNat (by simp [Nat.isValidChar, escapePoint])
      simp [spell, hhalf, hres, codePoints, he, hc]
    · have hne : (Char.ofNat n).toNat ≠ escapePoint := by
        rw [hc]
        rintro rfl
        exact hres (by decide)
      simp [spell, hhalf, hres, codePoints_cons hne, pointOf, hc]

/-- A spelling spells the code points that it was made of. -/
theorem codePoints_ofCodePoints {points : List Nat} (h : ∀ n ∈ points, n < 0x110000) :
    codePoints (ofCodePoints points) = points := by
  induction points with
  | nil => rfl
  | cons n rest ih =>
    rw [ofCodePoints, List.flatMap_cons, codePoints_spell (h n (by simp))]
    exact congrArg (n :: ·) (ih fun m hm ↦ h m (List.mem_cons_of_mem _ hm))

end FlowChart.Text
