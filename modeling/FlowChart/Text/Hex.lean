/-!
# Hexadecimal digits

Digits are the ASCII ones, in either letter case. Numbers are written in lower case without
leading zeros, and read from any run of digits.
-/

namespace FlowChart.Text

/-- The value of an ASCII hexadecimal digit. -/
def hexValue? (c : Char) : Option Nat :=
  if '0' ≤ c ∧ c ≤ '9' then some (c.toNat - 48)
  else if 'a' ≤ c ∧ c ≤ 'f' then some (c.toNat - 87)
  else if 'A' ≤ c ∧ c ≤ 'F' then some (c.toNat - 55)
  else none

/-- Whether a character is an ASCII hexadecimal digit. -/
def isHexDigit (c : Char) : Bool := (hexValue? c).isSome

/-- The number that a run of digits denotes, most significant digit first. -/
def ofHexDigits (cs : List Char) : Nat :=
  cs.foldl (fun n c ↦ 16 * n + (hexValue? c).getD 0) 0

/-- The digits of a number in lower case, without leading zeros; zero is one digit. -/
def hexDigits (n : Nat) : List Char := Nat.toDigits 16 n

/-- A number as `0x` followed by its digits. -/
def hexLiteral (n : Nat) : List Char := '0' :: 'x' :: hexDigits n

/-- A byte as two digits. -/
def hexByte (n : Nat) : List Char := [Nat.digitChar (n / 16 % 16), Nat.digitChar (n % 16)]

/-- Reading one digit more multiplies by sixteen and adds its value. -/
theorem ofHexDigits_concat (cs : List Char) (c : Char) :
    ofHexDigits (cs ++ [c]) = 16 * ofHexDigits cs + (hexValue? c).getD 0 := by
  simp [ofHexDigits]

/-- No run of digits starts where no digit stands. -/
theorem takeWhile_isHexDigit_eq_nil {cs : List Char} (h : ∀ c ∈ cs.head?, isHexDigit c = false) :
    cs.takeWhile isHexDigit = [] := by
  cases cs with
  | nil => rfl
  | cons c rest => exact List.takeWhile_cons_of_neg (by simp [h c rfl])

/-- A digit is worth less than sixteen. -/
theorem lt_of_hexValue? {c : Char} {v : Nat} (h : hexValue? c = some v) : v < 16 := by
  have le_toNat : ∀ {a b : Char}, a ≤ b → a.toNat ≤ b.toNat := fun h ↦ h
  unfold hexValue? at h
  split at h
  · next hc =>
    have : c.toNat ≤ 57 := le_toNat hc.2
    cases h
    omega
  · split at h
    · next hc =>
      have : c.toNat ≤ 102 := le_toNat hc.2
      cases h
      omega
    · split at h
      · next hc =>
        have : c.toNat ≤ 70 := le_toNat hc.2
        cases h
        omega
      · cases h

/-- The capital digits follow each other from ten on. -/
theorem hexValue?_of_capital {c : Char} (h : 'A' ≤ c ∧ c ≤ 'F') :
    hexValue? c = some (c.toNat - 55) := by
  have h1 : ¬ c ≤ '9' := fun h' ↦ absurd (Char.le_trans h.1 h') (by decide)
  have h2 : ¬ 'a' ≤ c := fun h' ↦ absurd (Char.le_trans h' h.2) (by decide)
  simp [hexValue?, h1, h2, h]

end FlowChart.Text
