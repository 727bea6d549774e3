import FlowChart.Proofs.Route.Collisions
import FlowChart.Proofs.Route.Room
import Mathlib.Analysis.Convex.Segment

/-!
# Pieces of routes

Routes consist of horizontal and vertical pieces. The collision tests compare the ends of a piece
with the sides of a box; in exact arithmetic they say whether a point of the piece lies strictly
inside. Across the piece that is plain, and along the piece its points fill an interval, which
reaches between two sides exactly if it neither stops before the first nor starts behind the second.
A piece that stays within the rectangle around two boxes hits none that the search for the boxes in
the path between them leaves out.
-/

namespace FlowChart

/-- A point lies on the segment between two points. -/
def Point.Between (a b p : Point Rat) : Prop :=
  ∃ t, 0 ≤ t ∧ t ≤ 1 ∧ p.x = a.x + t * (b.x - a.x) ∧ p.y = a.y + t * (b.y - a.y)

private theorem exists_part_iff {a b c : Rat} :
    (∃ t, 0 ≤ t ∧ t ≤ 1 ∧ c = a + t * (b - a)) ↔ c ∈ Set.uIcc a b := by
  rw [← segment_eq_uIcc, segment_eq_image']
  simp [and_assoc, eq_comm]

namespace Point

variable {a b p : Point Rat} {x x₁ x₂ y y₁ y₂ : Rat}

/-- A segment contains the point where it starts. -/
theorem between_left (a b : Point Rat) : Between a b a :=
  ⟨0, le_rfl, zero_le_one, by simp, by simp⟩

/-- It contains the point where it ends, too. -/
theorem between_right (a b : Point Rat) : Between a b b :=
  ⟨1, zero_le_one, le_rfl, by simp, by simp⟩

/-- What lies on a segment lies within the coordinates of its ends. -/
theorem Between.mem_uIcc (h : Between a b p) :
    p.x ∈ Set.uIcc a.x b.x ∧ p.y ∈ Set.uIcc a.y b.y := by
  obtain ⟨t, hpos, hle, hx, hy⟩ := h
  exact ⟨exists_part_iff.mp ⟨t, hpos, hle, hx⟩, exists_part_iff.mp ⟨t, hpos, hle, hy⟩⟩

/-- What lies on a vertical segment has its abscissa. -/
theorem Between.vertical (h : Between a b p) (hab : a.x = b.x) :
    p.x = a.x ∧ p.y ∈ Set.uIcc a.y b.y := by
  obtain ⟨hx, hy⟩ := h.mem_uIcc
  rw [← hab, Set.uIcc_self] at hx
  exact ⟨hx, hy⟩

/-- What lies on a horizontal segment has its ordinate. -/
theorem Between.horizontal (h : Between a b p) (hab : a.y = b.y) :
    p.x ∈ Set.uIcc a.x b.x ∧ p.y = a.y := by
  obtain ⟨hx, hy⟩ := h.mem_uIcc
  rw [← hab, Set.uIcc_self] at hy
  exact ⟨hx, hy⟩

/-- A vertical segment has all points of its abscissa between its ends. -/
theorem between_vertical_iff :
    Between ⟨x, y₁⟩ ⟨x, y₂⟩ p ↔ p.x = x ∧ p.y ∈ Set.uIcc y₁ y₂ := by
  constructor
  · exact fun h ↦ h.vertical rfl
  · rintro ⟨hx, hy⟩
    obtain ⟨t, hpos, hle, hpart⟩ := exists_part_iff.mpr hy
    exact ⟨t, hpos, hle, by simpa using hx, hpart⟩

/-- A horizontal segment has all points of its ordinate between its ends. -/
theorem between_horizontal_iff :
    Between ⟨x₁, y⟩ ⟨x₂, y⟩ p ↔ p.x ∈ Set.uIcc x₁ x₂ ∧ p.y = y := by
  constructor
  · exact fun h ↦ h.horizontal rfl
  · rintro ⟨hx, hy⟩
    obtain ⟨t, hpos, hle, hpart⟩ := exists_part_iff.mpr hx
    exact ⟨t, hpos, hle, hpart, by simpa using hy⟩

end Point

/-- A box, grown by a margin, has a width and a height. -/
structure Box.HasInside (b : Box Rat) (margin : Rat) : Prop where
  /-- The left side is left of the right one. -/
  width : b.x - margin < b.right + margin
  /-- The top side is above the bottom one. -/
  height : b.y - margin < b.bottom + margin

/-- Only boxes with an inside enclose a point. -/
theorem Box.Encloses.hasInside {b : Box Rat} {margin : Rat} {p : Point Rat}
    (h : b.Encloses margin p) : b.HasInside margin := by
  obtain ⟨hleft, hright, htop, hbottom⟩ := h
  exact ⟨hleft.trans hright, htop.trans hbottom⟩

namespace Route

/-- A piece of a way runs along one axis, in either direction. -/
inductive Piece where
  /-- The piece at height `y` from `x₁` to `x₂`. -/
  | horizontal (y x₁ x₂ : Rat)
  /-- The piece at abscissa `x` from `y₁` to `y₂`. -/
  | vertical (x y₁ y₂ : Rat)

namespace Piece

/-- Where a piece starts. -/
def start : Piece → Point Rat
  | horizontal y x₁ _ => ⟨x₁, y⟩
  | vertical x y₁ _ => ⟨x, y₁⟩

/-- Where a piece ends. -/
def finish : Piece → Point Rat
  | horizontal y _ x₂ => ⟨x₂, y⟩
  | vertical x _ y₂ => ⟨x, y₂⟩

/-- A piece passes through a point, its ends included. -/
def Passes (piece : Piece) (p : Point Rat) : Prop := Point.Between piece.start piece.finish p

/-- Whether a piece hits a box grown by `margin`, by the test for its axis. -/
def hits (margin : Rat) (b : Box Rat) : Piece → Bool
  | horizontal y x₁ x₂ => b.hitHorizontally margin y x₁ x₂
  | vertical x y₁ y₂ => b.hitVertically margin x y₁ y₂

/-- A piece lies within the rectangle around two boxes. -/
def LiesAround (piece : Piece) (source target : Box Rat) : Prop :=
  ∀ p, piece.Passes p → p.x ∈ Box.spanX source target ∧ p.y ∈ Box.spanY source target

variable {b source target : Box Rat} {boxes : List (Box Rat)} {margin : Rat} {p : Point Rat}
  {piece : Piece}

/-- An interval reaches between two sides exactly if it neither stops before the first nor starts
behind the second. -/
private theorem exists_mem_uIcc_iff {first last x₁ x₂ : Rat} (h : first < last) :
    (∃ x ∈ Set.uIcc x₁ x₂, first < x ∧ x < last) ↔ first < max x₁ x₂ ∧ min x₁ x₂ < last := by
  constructor
  · rintro ⟨x, ⟨hle, hge⟩, hfirst, hlast⟩
    exact ⟨hfirst.trans_le hge, hle.trans_lt hlast⟩
  · rintro ⟨hfirst, hlast⟩
    -- an end of the interval is between the sides, or everything between them is in the interval
    rcases lt_or_ge first (min x₁ x₂) with hstart | hstart
    · exact ⟨min x₁ x₂, ⟨le_rfl, min_le_max⟩, hstart, hlast⟩
    rcases lt_or_ge (max x₁ x₂) last with hstop | hstop
    · exact ⟨max x₁ x₂, ⟨min_le_max, le_rfl⟩, hfirst, hstop⟩
    obtain ⟨x, hx, hx'⟩ := exists_between h
    exact ⟨x, ⟨hstart.trans hx.le, hx'.le.trans hstop⟩, hx, hx'⟩

/-- A piece hits a box that has an inside exactly if it passes through a point inside. -/
theorem hits_iff (h : b.HasInside margin) :
    piece.hits margin b = true ↔ ∃ p, piece.Passes p ∧ b.Encloses margin p := by
  cases piece with
  | horizontal y x₁ x₂ =>
    rw [hits, Box.hitHorizontally_iff, ← exists_mem_uIcc_iff h.width]
    constructor
    · rintro ⟨htop, hbottom, x, hx, hleft, hright⟩
      exact ⟨⟨x, y⟩, Point.between_horizontal_iff.mpr ⟨hx, rfl⟩, hleft, hright, htop, hbottom⟩
    · rintro ⟨p, hp, hleft, hright, htop, hbottom⟩
      obtain ⟨hx, rfl⟩ := Point.between_horizontal_iff.mp hp
      exact ⟨htop, hbottom, p.x, hx, hleft, hright⟩
  | vertical x y₁ y₂ =>
    rw [hits, Box.hitVertically_iff, ← exists_mem_uIcc_iff h.height]
    constructor
    · rintro ⟨hleft, hright, y, hy, htop, hbottom⟩
      exact ⟨⟨x, y⟩, Point.between_vertical_iff.mpr ⟨rfl, hy⟩, hleft, hright, htop, hbottom⟩
    · rintro ⟨p, hp, hleft, hright, htop, hbottom⟩
      obtain ⟨rfl, hy⟩ := Point.between_vertical_iff.mp hp
      exact ⟨hleft, hright, p.y, hy, htop, hbottom⟩

/-- A piece hits every box that encloses one of its points. -/
theorem hits_of_encloses (piece : Piece) (hp : piece.Passes p) (h : b.Encloses margin p) :
    piece.hits margin b = true :=
  (hits_iff h.hasInside).mpr ⟨p, hp, h⟩

/-- A piece lies within the rectangle around two boxes exactly if its ends do. -/
theorem liesAround_iff : piece.LiesAround source target ↔
    (piece.start.x ∈ Box.spanX source target ∧ piece.start.y ∈ Box.spanY source target) ∧
      piece.finish.x ∈ Box.spanX source target ∧ piece.finish.y ∈ Box.spanY source target := by
  constructor
  · intro h
    exact ⟨h _ (Point.between_left _ _), h _ (Point.between_right _ _)⟩
  · rintro ⟨⟨hstartX, hstartY⟩, hfinishX, hfinishY⟩ p hp
    obtain ⟨hx, hy⟩ := hp.mem_uIcc
    exact ⟨Set.uIcc_subset_Icc hstartX hfinishX hx, Set.uIcc_subset_Icc hstartY hfinishY hy⟩

/-- What a piece within the rectangle around two boxes hits is in the path between them. -/
theorem mem_between_of_hits (hb : b ∈ boxes) (hsource : b.id ≠ source.id)
    (htarget : b.id ≠ target.id) (hwithin : piece.LiesAround source target)
    (hit : piece.hits margin b = true) : b ∈ Box.between source target boxes margin := by
  obtain ⟨⟨hstartX, hstartY⟩, hfinishX, hfinishY⟩ := liesAround_iff.mp hwithin
  cases piece with
  | horizontal y x₁ x₂ =>
    exact Box.mem_between_of_hitHorizontally hb hsource htarget hstartY hstartX hfinishX hit
  | vertical x y₁ y₂ =>
    exact Box.mem_between_of_hitVertically hb hsource htarget hstartX hstartY hfinishY hit

/-- The collision tests agree with geometry. A piece, in either direction and also if it is a single
point, hits a box that has an inside with the margin exactly if one of its points lies strictly
inside. And with any margin, a box that a piece within the rectangle around two boxes hits is found
in the path between these two, unless it has the id of one of them. -/
theorem hits_iff_and_mem_between (piece : Piece) (b : Box Rat) (margin : Rat) :
    (b.HasInside margin →
      (piece.hits margin b = true ↔ ∃ p, piece.Passes p ∧ b.Encloses margin p)) ∧
    ∀ source target boxes, b ∈ boxes → b.id ≠ source.id → b.id ≠ target.id →
      piece.LiesAround source target → piece.hits margin b = true →
        b ∈ Box.between source target boxes margin :=
  ⟨hits_iff, fun _ _ _ ↦ mem_between_of_hits⟩

/-- A piece that runs up along the right sides of two boxes, beside a third one that it hits with the
margin only. -/
theorem hits_iff_and_mem_between_beside :
    let source : Box Rat := ⟨"s", 0, 0, 100, 50, 0⟩
    let target : Box Rat := ⟨"t", 0, 300, 100, 50, 2⟩
    let b : Box Rat := ⟨"b", 110, 150, 100, 50, 1⟩
    let piece : Piece := .vertical 100 300 50
    b.HasInside 15 ∧ piece.LiesAround source target ∧
      (∃ p, piece.Passes p ∧ b.Encloses 15 p) ∧
      b ∈ Box.between source target [source, b, target] 15 := by
  intro source target b piece
  have hinside : b.HasInside 15 := by
    constructor <;> norm_num [b, Box.right, Box.bottom]
  have haround : piece.LiesAround source target := by
    rw [liesAround_iff]
    norm_num [piece, start, finish, source, target, Box.spanX, Box.spanY, Box.right, Box.bottom]
  have hit : piece.hits 15 b = true := by decide +kernel
  obtain ⟨hiff, hmem⟩ := hits_iff_and_mem_between piece b 15
  refine ⟨hinside, haround, (hiff hinside).mp hit, ?_⟩
  exact hmem source target _ (by simp) (by decide) (by decide) haround hit

end Piece

end Route

end FlowChart
