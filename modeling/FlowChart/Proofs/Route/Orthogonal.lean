import FlowChart.Proofs.Route.Ways
import Mathlib.Data.List.Chain

/-!
# Orthogonal routes

A way along a side lane, and a way that goes across, runs in horizontal and vertical pieces. A way
straight down is a single piece between two anchors. It is taken if these are closer to one below
the other than a tolerance, and it stays as slanted as they are. All other routes are orthogonal.
-/

namespace FlowChart.Route

variable {α : Type}

/-- Each piece between two points runs horizontally or vertically. -/
def IsOrthogonal (r : Route α) : Prop :=
  r.points.IsChain fun p q ↦ p.x = q.x ∨ p.y = q.y

variable [Scalar α]

open Scalar

/-- An edge between two boxes is drawn as one slanted piece. -/
structure IsSlanted (config : Config α) (source target : Box α) (boxes : List (Box α))
    (e : Ends α) : Prop where
  /-- The edge leads to a deeper level. -/
  deeper : source.level < target.level
  /-- There are no boxes in its path. -/
  free : Box.between source target boxes config.edgeMargin = []
  /-- Its anchors are within the tolerance of being one below the other. -/
  near : magnitude (e.start.x - e.finish.x) < config.straightTolerance
  /-- They are not quite one below the other. -/
  aside : e.start.x ≠ e.finish.x
  /-- They are not side by side. -/
  below : e.start.y ≠ e.finish.y

variable {config : Config α} {index : Int} {edge : Edge} {source target : Box α}
  {boxes : List (Box α)} {rowBottom : α} {e : Ends α} {r : Route α}

omit [Scalar α] in
private theorem isOrthogonal_of_along {x exitY entryY : α} (h : r.points = e.along x exitY entryY) :
    r.IsOrthogonal := by
  rw [IsOrthogonal, h]
  simp [Ends.along]

omit [Scalar α] in
private theorem isOrthogonal_of_across {y : α} (h : r.points = e.across y) : r.IsOrthogonal := by
  rw [IsOrthogonal, h]
  simp [Ends.across]

omit [Scalar α] in
private theorem isOrthogonal_straight_iff (h : r.points = [e.start, e.finish]) :
    r.IsOrthogonal ↔ e.start.x = e.finish.x ∨ e.start.y = e.finish.y := by
  rw [IsOrthogonal, h, List.isChain_pair]

/-- A route is orthogonal unless its edge is drawn as one slanted piece. -/
theorem Course.isOrthogonal_iff (h : Course config index edge source target boxes rowBottom e r) :
    r.IsOrthogonal ↔ ¬ IsSlanted config source target boxes e := by
  cases h with
  | back level =>
    exact iff_of_true (isOrthogonal_of_along rfl) fun hslanted ↦ not_lt.mpr level hslanted.deeper
  | around _ hit =>
    refine iff_of_true (isOrthogonal_of_along rfl) fun hslanted ↦ ?_
    obtain ⟨b, hb, -⟩ := hit
    rw [hslanted.free] at hb
    exact absurd hb (by simp)
  | straight deeper free near =>
    rw [isOrthogonal_straight_iff rfl, ← not_iff_not, not_not, not_or]
    constructor
    · rintro ⟨aside, below⟩
      exact ⟨deeper, free, near, aside, below⟩
    · intro hslanted
      exact ⟨hslanted.aside, hslanted.below⟩
  | across _ crooked =>
    exact iff_of_true (isOrthogonal_of_across rfl) fun hslanted ↦
      crooked ⟨hslanted.free, hslanted.near⟩

/-- So are the routes between two boxes. -/
theorem isOrthogonal_between_iff {rowBottoms : Table Int α} {sourceOffset targetOffset : α}
    (h : between config index edge source target boxes rowBottoms sourceOffset targetOffset =
      .ok r) :
    r.IsOrthogonal ↔
      ¬ IsSlanted config source target boxes (.between source target sourceOffset targetOffset) :=
  ((succeeds_course config _ _ _ _ _ _ _ _).of_eq_ok h).isOrthogonal_iff

/-- All edges between boxes get routes, and these are orthogonal except for those of the edges that
are drawn as one slanted piece. -/
theorem exists_ofEdges_isOrthogonal (config : Config α) (edges : List Edge)
    (boxes : Table String (Box α)) :
    ∃ offsets routes, Anchor.ofEdges edges config.parallelOffset (some (widthsOf boxes))
        config.edgeMargin = .ok offsets ∧
      ofEdges config edges boxes = .ok routes ∧
      List.Forall₂ (fun placed r ↦ r.edge = placed.2.1 ∧ (r.IsOrthogonal ↔
          ¬ IsSlanted config placed.2.2.1 placed.2.2.2 boxes.values
            (endsAt offsets placed.1 placed.2.2.1 placed.2.2.2)))
        (placedEdges edges boxes) routes := by
  obtain ⟨routes, hroutes, -⟩ := succeeds_ofEdges config edges boxes
  obtain ⟨offsets, hoffsets, h⟩ := exists_of_bind_eq_ok hroutes
  refine ⟨offsets, routes, hoffsets, hroutes, (forall₂_of_mapM_eq_ok h).imp ?_⟩
  intro placed r hr
  exact ⟨((succeeds_between config _ _ _ _ _ _ _ _).of_eq_ok hr).1, isOrthogonal_between_iff hr⟩

/-- Two boxes that are out of line by less than the tolerance are joined by a slanted route. -/
theorem exists_ofEdges_not_isOrthogonal :
    let boxes : Table String (Box Rat) :=
      .ofList [("a", ⟨"a", 0, 0, 100, 50, 0⟩), ("b", ⟨"b", 3, 200, 100, 50, 1⟩)]
    ∃ r, ofEdges .standard [⟨"a", "b", .normal⟩] boxes = .ok [r] ∧
      r.points = [⟨50, 50⟩, ⟨53, 200⟩] ∧ ¬ r.IsOrthogonal := by
  intro boxes
  have hpoints : (ofEdges .standard [⟨"a", "b", .normal⟩] boxes).toOption.map
      (·.map (·.points)) = some [[⟨50, 50⟩, ⟨53, 200⟩]] := by decide +kernel
  obtain ⟨routes, hroutes, -⟩ := succeeds_ofEdges .standard [⟨"a", "b", .normal⟩] boxes
  rw [hroutes] at hpoints
  obtain ⟨r, rfl, hr⟩ := List.map_eq_singleton_iff.mp (Option.some.inj hpoints)
  refine ⟨r, hroutes, hr, fun horthogonal ↦ ?_⟩
  rw [isOrthogonal_straight_iff (e := ⟨⟨50, 50⟩, ⟨53, 200⟩⟩) hr] at horthogonal
  exact absurd horthogonal (by decide +kernel)

end FlowChart.Route
