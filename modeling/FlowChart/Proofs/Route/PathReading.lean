import FlowChart.Proofs.Number.Numerals
import FlowChart.Route.PathData

/-!
# Reading path data back

Path data is read command by command into the exact points that its numbers stand for. Read back,
the path data of a route has a point for each way point, and each coordinate is near the original:
it is the same for a whole number, at most half a pixel away below a million, and in any case off
by at most half a unit of the sixth digit. Above a million that is more than half a pixel.
-/

namespace FlowChart.Route

open Text

/-! ### Reading -/

/-- The points that commands lead to, the first one with the given letter, the others lines. -/
def readCommands (letter : String) : List (List Char) → Option (List (Point Rat))
  | [] => some []
  | mark :: x :: y :: rest =>
    if mark = letter.toList then
      match number? x, number? y, readCommands "L" rest with
      | some x, some y, some others => some (⟨x, y⟩ :: others)
      | _, _, _ => none
    else none
  | _ => none

/-- The points of path data. -/
def readPath (text : String) : Option (List (Point Rat)) :=
  if text.toList = [] then some [] else readCommands "M" (text.toList.splitOn ' ')

/-- What reading keeps of a number. -/
structure IsNear (v q : Rat) : Prop where
  /-- A whole number is kept. -/
  whole : ∀ n : Int, v = n → q = v
  /-- A number below a million is kept to within a half. -/
  half : |v| < 10 ^ 6 → |q - v| ≤ 1 / 2
  /-- Any number is kept to within half a unit of the sixth digit. -/
  relative : |q - v| ≤ |v| / 200000

/-- What reading keeps of a point. -/
structure ReadsAs (p : Point Float) (q : Point Rat) : Prop where
  /-- The horizontal coordinate is finite, and kept. -/
  x : ∃ v, exactValue? p.x = some v ∧ IsNear v q.x
  /-- The vertical coordinate is finite, and kept. -/
  y : ∃ v, exactValue? p.y = some v ∧ IsNear v q.y

/-! ### Coordinates -/

theorem isNear_self (v : Rat) : IsNear v v := by
  refine ⟨fun _ _ ↦ rfl, fun _ ↦ ?_, ?_⟩ <;> rw [sub_self, abs_zero]
  · norm_num
  · positivity

/-- A number that is off by half a unit of the sixth digit is near. -/
theorem isNear_of_abs_sub_le {v q : Rat} {k : Int} (hfraction : ∀ n : Int, v ≠ n)
    (hleading : (10 : Rat) ^ k ≤ |v|) (hnear : |q - v| ≤ 10 ^ (k - 5) / 2) : IsNear v q := by
  refine ⟨fun n hn ↦ absurd hn (hfraction n), fun hsmall ↦ ?_, ?_⟩
  · have hlt : k < 6 := (zpow_lt_zpow_iff_right₀ (by norm_num : (1 : Rat) < 10)).mp
      (hleading.trans_lt (by exact_mod_cast hsmall))
    have hunit : (10 : Rat) ^ (k - 5) ≤ 10 ^ (0 : Int) :=
      zpow_le_zpow_right₀ (by norm_num) (by omega)
    rw [zpow_zero] at hunit
    linarith
  · have hunit : (10 : Rat) ^ (k - 5) = 10 ^ k / 100000 := by
      rw [zpow_sub₀ (by norm_num)]
      norm_num
    rw [hunit] at hnear
    linarith

/-- The brief text of a form is read as a number near its value. -/
theorem exists_number?_briefChars {negative : Bool} {significand : Nat} {exponent : Int}
    (hgrid : -1074 ≤ exponent) :
    ∃ q, number? (Binary.finite negative significand exponent).briefChars = some q ∧
      IsNear (withSign negative (significand * 2 ^ exponent)) q := by
  unfold Binary.briefChars
  split
  · next n hn =>
    rw [Binary.toInt?_eq_some_iff.mp hn]
    exact ⟨n, number?_toString n, isNear_self n⟩
  · next hnone =>
    have hfraction (n : Int) : withSign negative (significand * 2 ^ exponent) ≠ n := fun hvalue ↦ by
      rw [Binary.toInt?_eq_some_iff.mpr hvalue] at hnone
      cases hnone
    have hpos : 0 < significand := by
      refine Nat.pos_of_ne_zero fun hzero ↦ hfraction 0 ?_
      rw [hzero]
      simp [withSign]
    obtain ⟨hcounted, k, hleading, hnear⟩ :=
      Decimal.exists_rounded_near (show 0 < briefDigits by decide) hpos hgrid
    refine ⟨_, number?_signed (DecimalFormat.unsignedNumber?_write rfl hcounted) negative,
      isNear_of_abs_sub_le (k := k) hfraction ?_ ?_⟩
    · rw [abs_withSign]
      exact hleading.trans (le_abs_self _)
    · rw [withSign_sub_withSign, abs_withSign]
      exact hnear

/-- The text of a finite number is read as a number near it. -/
theorem exists_number?_briefText {x : Float} (h : x.isFinite) :
    ∃ v q, exactValue? x = some v ∧ number? (briefText x).toList = some q ∧ IsNear v q := by
  rw [← isSome_exactValue?, Option.isSome_iff_exists] at h
  obtain ⟨v, hv⟩ := h
  obtain ⟨negative, significand, exponent, hform, hgrid, rfl⟩ :=
    Binary.exists_ofFloat_eq_finite hv
  obtain ⟨q, hq, hnear⟩ := exists_number?_briefChars hgrid
  refine ⟨_, q, hv, ?_, hnear⟩
  rwa [briefText, String.toList_ofList, hform]

/-! ### Commands -/

/-- The words of commands, the first one with the given letter, the others lines. -/
def pathWords (letter : String) : List (Point Float) → List String
  | [] => []
  | p :: rest => letter :: briefText p.x :: briefText p.y :: pathWords "L" rest

/-- Commands one after the other are their words one after the other. -/
theorem intercalate_command (letter : String) (p : Point Float) (rest : List (Point Float)) :
    " ".intercalate (command letter p :: rest.map (command "L")) =
      " ".intercalate (pathWords letter (p :: rest)) := by
  induction rest generalizing letter p with
  | nil => simp [pathWords, command, String.intercalate_cons_cons, String.append_assoc]
  | cons q rest ih =>
    rw [List.map_cons, String.intercalate_cons_cons, ih]
    simp [pathWords, command, String.intercalate_cons_cons, String.append_assoc]

/-- A route with finite coordinates is read as points near its own, command by command. -/
theorem exists_readCommands (letter : String) {points : List (Point Float)}
    (h : ∀ p ∈ points, p.x.isFinite ∧ p.y.isFinite) :
    ∃ read, readCommands letter ((pathWords letter points).map String.toList) = some read ∧
      List.Forall₂ ReadsAs points read := by
  induction points generalizing letter with
  | nil => exact ⟨[], rfl, .nil⟩
  | cons p rest ih =>
    obtain ⟨hx, hy⟩ := h p List.mem_cons_self
    obtain ⟨vx, x, hvx, hreadx, hnearx⟩ := exists_number?_briefText hx
    obtain ⟨vy, y, hvy, hready, hneary⟩ := exists_number?_briefText hy
    obtain ⟨others, hothers, hrest⟩ := ih "L" fun q hq ↦ h q (List.mem_cons_of_mem _ hq)
    refine ⟨⟨x, y⟩ :: others, ?_, .cons ⟨⟨vx, hvx, hnearx⟩, vy, hvy, hneary⟩ hrest⟩
    simp [pathWords, readCommands, hreadx, hready, hothers]

private theorem blank_notMem_pathWords {letter : String} (hletter : ' ' ∉ letter.toList)
    {points : List (Point Float)} (h : ∀ p ∈ points, p.x.isFinite ∧ p.y.isFinite) :
    ∀ word ∈ (pathWords letter points).map String.toList, ' ' ∉ word := by
  induction points generalizing letter with
  | nil => exact fun word hword ↦ absurd hword List.not_mem_nil
  | cons p rest ih =>
    have hnumber {x : Float} (hx : x.isFinite) : ' ' ∉ (briefText x).toList := by
      obtain ⟨-, q, -, hq, -⟩ := exists_number?_briefText hx
      exact blank_notMem_of_number? hq
    obtain ⟨hx, hy⟩ := h p List.mem_cons_self
    simp only [pathWords, List.map_cons, List.forall_mem_cons]
    exact ⟨hletter, hnumber hx, hnumber hy,
      ih (by decide) fun q hq ↦ h q (List.mem_cons_of_mem _ hq)⟩

/-- The path data of way points with finite coordinates is read as a point for each of them, near
it. -/
theorem exists_readPath_pathData (points : List (Point Float))
    (h : ∀ p ∈ points, p.x.isFinite ∧ p.y.isFinite) :
    ∃ read, readPath (pathData points) = some read ∧ List.Forall₂ ReadsAs points read := by
  cases points with
  | nil => exact ⟨[], rfl, .nil⟩
  | cons p rest =>
    obtain ⟨read, hread, hnear⟩ := exists_readCommands "M" h
    refine ⟨read, ?_, hnear⟩
    have htext : (pathData (p :: rest)).toList =
        [' '].intercalate ((pathWords "M" (p :: rest)).map String.toList) := by
      rw [pathData, intercalate_command, String.toList_intercalate]
      rfl
    have hblank : ' ' ∉ "M".toList := by decide
    have hwords := List.splitOn_intercalate ' ' (blank_notMem_pathWords hblank h)
      (by simp [pathWords])
    rw [← htext] at hwords
    have hne : (pathData (p :: rest)).toList ≠ [] := fun hempty ↦ by
      rw [hempty] at hwords
      simp [pathWords] at hwords
    rw [readPath, if_neg hne, hwords, hread]

/-- Two points with a fraction, a small negative number and a large whole one among their
coordinates. -/
theorem exists_readPath_pathData_turning :
    (∀ p ∈ [(⟨472.5, 108⟩ : Point Float), ⟨-0.00001, 1e21⟩], p.x.isFinite ∧ p.y.isFinite) ∧
      ∃ read, readPath (pathData [⟨472.5, 108⟩, ⟨-0.00001, 1e21⟩]) = some read ∧
        List.Forall₂ ReadsAs [⟨472.5, 108⟩, ⟨-0.00001, 1e21⟩] read :=
  ⟨by decide +kernel, exists_readPath_pathData _ (by decide +kernel)⟩

/-- A coordinate with a fraction above a million is read as one that is more than half a pixel
away: `1234567.5` is written with six digits, as `1.23457e+06`. -/
theorem exists_readPath_pathData_far :
    ∃ (p : Point Float) (v : Rat) (q : Point Rat), p.x.isFinite ∧ p.y.isFinite ∧
      exactValue? p.x = some v ∧ readPath (pathData [p]) = some [q] ∧ 1 / 2 < |q.x - v| := by
  refine ⟨⟨1234567.5, 0⟩, 2469135 / 2, ⟨1234570, 0⟩, ?_⟩
  refine ⟨by decide +kernel, by decide +kernel, by decide +kernel, by decide +kernel, ?_⟩
  norm_num

end FlowChart.Route
