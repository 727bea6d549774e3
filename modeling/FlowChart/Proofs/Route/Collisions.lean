import FlowChart.Proofs.Number.Exact
import FlowChart.Route.Collision
import Mathlib.Order.Interval.Set.Defs

/-!
# Collision tests

In exact arithmetic the collision tests compare the sides of boxes. A piece within the rectangle
around two boxes can only hit boxes that meet this rectangle, so that the search for the boxes in the
path of an edge leaves out nothing that such a piece hits.
-/

namespace FlowChart.Box

variable {b source target : Box Rat} {boxes : List (Box Rat)} {margin x x₁ x₂ y y₁ y₂ : Rat}

/-- A vertical piece hits a box that it passes through, grown by the margin. -/
theorem hitVertically_iff :
    b.hitVertically margin x y₁ y₂ = true ↔
      b.x - margin < x ∧ x < b.right + margin ∧ b.y - margin < max y₁ y₂ ∧
        min y₁ y₂ < b.bottom + margin := by
  simp [hitVertically, Scalar.larger_eq_max, Scalar.smaller_eq_min, and_assoc]

/-- A horizontal piece hits a box that it passes through, grown by the margin. -/
theorem hitHorizontally_iff :
    b.hitHorizontally margin y x₁ x₂ = true ↔
      b.y - margin < y ∧ y < b.bottom + margin ∧ b.x - margin < max x₁ x₂ ∧
        min x₁ x₂ < b.right + margin := by
  simp [hitHorizontally, Scalar.larger_eq_max, Scalar.smaller_eq_min, and_assoc]

/-- The boxes in the path of an edge are those, other than its ends, that no side of the rectangle
around the ends, grown by the margin, keeps off. -/
theorem mem_between_iff :
    b ∈ Box.between source target boxes margin ↔
      b ∈ boxes ∧ b.id ≠ source.id ∧ b.id ≠ target.id ∧
        min source.x target.x - margin ≤ b.right ∧ b.x ≤ max source.right target.right + margin ∧
        min source.y target.y - margin ≤ b.bottom ∧
        b.y ≤ max source.bottom target.bottom + margin := by
  simp [Box.between, Scalar.larger_eq_max, Scalar.smaller_eq_min, and_assoc]

/-- The abscissas of the rectangle around two boxes. -/
def spanX (source target : Box Rat) : Set Rat :=
  Set.Icc (min source.x target.x) (max source.right target.right)

/-- The ordinates of the rectangle around two boxes. -/
def spanY (source target : Box Rat) : Set Rat :=
  Set.Icc (min source.y target.y) (max source.bottom target.bottom)

section Lossless

variable (hb : b ∈ boxes) (hsource : b.id ≠ source.id) (htarget : b.id ≠ target.id)
include hb hsource htarget

/-- A box is in the path if, grown by the margin, it reaches within the rectangle around the ends
from each side. -/
theorem mem_between_of_reaches (hx₁ : x₁ ∈ spanX source target) (hx₂ : x₂ ∈ spanX source target)
    (hy₁ : y₁ ∈ spanY source target) (hy₂ : y₂ ∈ spanY source target)
    (hleft : b.x - margin < x₁) (hright : x₂ < b.right + margin) (htop : b.y - margin < y₁)
    (hbottom : y₂ < b.bottom + margin) : b ∈ Box.between source target boxes margin := by
  have hfromLeft := hx₂.1
  have hfromRight := hx₁.2
  have hfromTop := hy₂.1
  have hfromBottom := hy₁.2
  rw [mem_between_iff]
  refine ⟨hb, hsource, htarget, ?_, ?_, ?_, ?_⟩ <;> linarith

/-- What a vertical piece within the rectangle around the ends hits is in the path. -/
theorem mem_between_of_hitVertically (hx : x ∈ spanX source target) (h₁ : y₁ ∈ spanY source target)
    (h₂ : y₂ ∈ spanY source target) (h : b.hitVertically margin x y₁ y₂ = true) :
    b ∈ Box.between source target boxes margin := by
  obtain ⟨hleft, hright, htop, hbottom⟩ := hitVertically_iff.mp h
  have hhigh : max y₁ y₂ ∈ spanY source target := max_rec' _ h₁ h₂
  have hlow : min y₁ y₂ ∈ spanY source target := min_rec' _ h₁ h₂
  exact mem_between_of_reaches hb hsource htarget hx hx hhigh hlow hleft hright htop hbottom

/-- What a horizontal piece within the rectangle around the ends hits is in the path. -/
theorem mem_between_of_hitHorizontally (hy : y ∈ spanY source target)
    (h₁ : x₁ ∈ spanX source target) (h₂ : x₂ ∈ spanX source target)
    (h : b.hitHorizontally margin y x₁ x₂ = true) :
    b ∈ Box.between source target boxes margin := by
  obtain ⟨htop, hbottom, hleft, hright⟩ := hitHorizontally_iff.mp h
  have hhigh : max x₁ x₂ ∈ spanX source target := max_rec' _ h₁ h₂
  have hlow : min x₁ x₂ ∈ spanX source target := min_rec' _ h₁ h₂
  exact mem_between_of_reaches hb hsource htarget hhigh hlow hy hy hleft hright htop hbottom

end Lossless

end FlowChart.Box
