import FlowChart.Proofs.View.Anchoring
import FlowChart.Proofs.View.Fitting

/-!
# Marking what is shown

A minimap marks the part of the chart that a view shows on a canvas. The canvas, the chart and the
panel of the minimap are mapped to each other by scaling and shifting, so that corners are mapped to
corners and the middle to the middle. The mark has its corners where the minimap shows the corners of
the canvas, its size depends on the zoom only, and its middle is the point that is clicked, once the
view is panned there.
-/

namespace FlowChart

open Scalar

/-- The point halfway between two points. -/
def Point.middle (p q : Point Rat) : Point Rat := ⟨(p.x + q.x) / 2, (p.y + q.y) / 2⟩

namespace Rect

/-- The point in the middle of a rectangle. -/
def center (r : Rect Rat) : Point Rat := ⟨r.x + r.width / 2, r.y + r.height / 2⟩

/-- A rectangle has two points as corners. -/
structure HasCorners (r : Rect Rat) (topLeft bottomRight : Point Rat) : Prop where
  /-- The left side. -/
  left : r.x = topLeft.x
  /-- The top side. -/
  top : r.y = topLeft.y
  /-- The right side. -/
  right : r.x + r.width = bottomRight.x
  /-- The bottom side. -/
  bottom : r.y + r.height = bottomRight.y

/-- The middle of a rectangle is halfway between its corners. -/
theorem HasCorners.center_eq {r : Rect Rat} {p q : Point Rat} (h : r.HasCorners p q) :
    r.center = p.middle q := by
  rw [center, Point.middle, ← h.left, ← h.top, ← h.right, ← h.bottom, Point.mk.injEq]
  exact ⟨by ring, by ring⟩

end Rect

variable {m : Minimap Rat} {v : View Rat} {p q : Point Rat} {width height : Rat}

/-- What is halfway between two points of the chart is shown halfway between them. -/
theorem View.toScreen_middle (v : View Rat) (p q : Point Rat) :
    v.toScreen (p.middle q) = (v.toScreen p).middle (v.toScreen q) := by
  simp only [toScreen, Point.middle, Point.mk.injEq]
  exact ⟨by ring, by ring⟩

namespace Minimap

/-- What is halfway between two points of the chart is shown halfway between them. -/
theorem toPanel_middle (m : Minimap Rat) (p q : Point Rat) :
    m.toPanel (p.middle q) = (m.toPanel p).middle (m.toPanel q) := by
  simp only [toPanel, Point.middle, Point.mk.injEq]
  exact ⟨by ring, by ring⟩

/-- A point of the chart is found at a point of the panel exactly if it is shown there. -/
theorem toGraph_eq_ok_iff (hscale : m.scale ≠ 0) : m.toGraph q = .ok p ↔ m.toPanel p = q := by
  obtain ⟨x, y⟩ := q
  obtain ⟨x', y'⟩ := p
  have hfound : m.toGraph ⟨x, y⟩ = .ok ⟨m.bounds.minX + (x - m.offset.x) / m.scale,
      m.bounds.minY + (y - m.offset.y) / m.scale⟩ := by
    rw [toGraph, divide_eq_ok _ hscale, divide_eq_ok _ hscale]
    rfl
  rw [hfound, toPanel, Except.ok.injEq, Point.mk.injEq, Point.mk.injEq, ← eq_sub_iff_add_eq',
    ← eq_sub_iff_add_eq', div_eq_iff hscale, div_eq_iff hscale, sub_eq_iff_eq_add,
    sub_eq_iff_eq_add, eq_comm, eq_comm (a := y)]

/-- Every point of the panel shows a point of the chart. -/
theorem succeeds_toGraph (hscale : m.scale ≠ 0) (q : Point Rat) :
    Succeeds (m.toGraph q) (m.toPanel · = q) := by
  have hshown : m.toPanel ⟨m.bounds.minX + (q.x - m.offset.x) / m.scale,
      m.bounds.minY + (q.y - m.offset.y) / m.scale⟩ = q := by
    rw [toPanel, add_sub_cancel_left, add_sub_cancel_left, div_mul_cancel₀ _ hscale,
      div_mul_cancel₀ _ hscale, sub_add_cancel, sub_add_cancel]
  exact ⟨_, (toGraph_eq_ok_iff hscale).mpr hshown, hshown⟩

/-- A rectangle of the panel has its corners where the minimap shows what a view shows in the corners
of a canvas. -/
def Marks (m : Minimap Rat) (v : View Rat) (width height : Rat) (r : Rect Rat) : Prop :=
  ∃ topLeft bottomRight, v.toGraph ⟨0, 0⟩ = .ok topLeft ∧
    v.toGraph ⟨width, height⟩ = .ok bottomRight ∧
    r.HasCorners (m.toPanel topLeft) (m.toPanel bottomRight)

/-- What a view shows on a canvas is marked. -/
theorem succeeds_viewRect (hzoom : 0 < v.zoom) (hwidth : 0 < width) (hheight : 0 < height)
    (m : Minimap Rat) :
    Succeeds (m.viewRect v (some width) (some height)) (m.Marks v width height) := by
  have hcanvas : ∀ {size : Rat}, 0 < size → ∀ other, Canvas.orElse size other = size := by
    intro size hsize other
    rw [Canvas.orElse, isZero_of_pos (by rwa [Nat.cast_zero])]
    rfl
  have hfound : ∀ x y, v.toGraph ⟨x, y⟩ = .ok ⟨(x - v.panX) / v.zoom, (y - v.panY) / v.zoom⟩ := by
    intro x y
    rw [View.toGraph_eq_ok_iff hzoom.ne', View.toScreen, div_mul_cancel₀ _ hzoom.ne',
      div_mul_cancel₀ _ hzoom.ne', sub_add_cancel, sub_add_cancel]
  simp only [viewRect, hcanvas hwidth, hcanvas hheight, divide_eq_ok _ hzoom.ne']
  refine .ok ⟨_, _, hfound 0 0, hfound width height, ?_⟩
  constructor <;> simp only [toPanel] <;> ring

namespace Marks

variable {r : Rect Rat}

/-- The size of a mark is that of the canvas at the scale of the minimap, for the zoom of the view. -/
theorem size (h : m.Marks v width height r) (hzoom : v.zoom ≠ 0) :
    r.width * v.zoom = width * m.scale ∧ r.height * v.zoom = height * m.scale := by
  obtain ⟨topLeft, bottomRight, htopLeft, hbottomRight, hcorners⟩ := h
  have hfirst := (View.toGraph_eq_ok_iff hzoom).mp htopLeft
  have hlast := (View.toGraph_eq_ok_iff hzoom).mp hbottomRight
  rw [View.toScreen, Point.mk.injEq] at hfirst hlast
  have hacross : r.width = (bottomRight.x - topLeft.x) * m.scale := by
    rw [← add_sub_cancel_left r.x r.width, hcorners.right, hcorners.left, toPanel, toPanel]
    ring
  have hdown : r.height = (bottomRight.y - topLeft.y) * m.scale := by
    rw [← add_sub_cancel_left r.y r.height, hcorners.bottom, hcorners.top, toPanel, toPanel]
    ring
  have hwidth : width = (bottomRight.x - topLeft.x) * v.zoom := by linarith
  have hheight : height = (bottomRight.y - topLeft.y) * v.zoom := by linarith
  rw [hacross, hdown, hwidth, hheight]
  exact ⟨by ring, by ring⟩

/-- The middle of a mark shows what the view shows in the middle of the canvas. -/
theorem center_eq (h : m.Marks v width height r) (hzoom : v.zoom ≠ 0)
    (hp : v.toScreen p = View.canvasCenter width height) : r.center = m.toPanel p := by
  obtain ⟨topLeft, bottomRight, htopLeft, hbottomRight, hcorners⟩ := h
  have hmiddle : v.toScreen (topLeft.middle bottomRight) = View.canvasCenter width height := by
    rw [View.toScreen_middle, (View.toGraph_eq_ok_iff hzoom).mp htopLeft,
      (View.toGraph_eq_ok_iff hzoom).mp hbottomRight, Point.middle, View.canvasCenter, zero_add,
      zero_add, half_eq_div, half_eq_div]
  -- both points are found at the middle of the canvas
  have hsame := (View.toGraph_eq_ok_iff hzoom).mpr hmiddle
  rw [(View.toGraph_eq_ok_iff hzoom).mpr hp] at hsame
  rw [hcorners.center_eq, ← toPanel_middle, Except.ok.inj hsame]

end Marks

/-- A click pans the view so that it shows the clicked point in the middle of the canvas. -/
theorem succeeds_panTo (hscale : m.scale ≠ 0) (click : Point Rat) (v : View Rat)
    (width height : Rat) :
    Succeeds (m.panTo click v width height) fun w ↦ w.zoom = v.zoom ∧
      ∃ p, m.toPanel p = click ∧ w.toScreen p = View.canvasCenter width height := by
  rw [panTo]
  apply (succeeds_toGraph hscale click).bind
  intro p hp
  refine .ok ⟨rfl, p, hp, ?_⟩
  simp only [View.toScreen, View.canvasCenter, add_sub_cancel]

variable {boxes : List (Box Rat)} {config : Config Rat}

/-- A minimap that is fitted to boxes of no negative sizes, with settings that give it a size and some
space, is known by either of its directions: what is shown at a point of the panel is found there, and
the other way round. It marks exactly the rectangle of the canvas, and after a click the mark has the
size that it had and its middle where the click was. -/
theorem exists_fit_marks (hconfig : config.HasPanel) (hboxes : ∀ b ∈ boxes, b.IsSized) :
    ∃ m, fit boxes config = .ok m ∧
      (∀ p, m.toGraph (m.toPanel p) = .ok p) ∧
      (∀ q, Succeeds (m.toGraph q) fun p ↦ m.toPanel p = q) ∧
      ∀ (v : View Rat) (width height : Rat), 0 < v.zoom → 0 < width → 0 < height →
        ∃ r, m.viewRect v (some width) (some height) = .ok r ∧ m.Marks v width height r ∧
          ∀ click, ∃ w r', m.panTo click v width height = .ok w ∧ w.zoom = v.zoom ∧
            m.viewRect w (some width) (some height) = .ok r' ∧ r'.width = r.width ∧
            r'.height = r.height ∧ r'.center = click := by
  obtain ⟨m, hm, hfit⟩ := succeeds_fit hconfig hboxes
  have hscale := hfit.scale_pos.ne'
  refine ⟨m, hm, fun p ↦ (toGraph_eq_ok_iff hscale).mpr rfl, succeeds_toGraph hscale, ?_⟩
  intro v width height hzoom hwidth hheight
  obtain ⟨r, hr, hmarks⟩ := succeeds_viewRect hzoom hwidth hheight m
  refine ⟨r, hr, hmarks, fun click ↦ ?_⟩
  obtain ⟨w, hw, hsame, p, hclick, hshown⟩ := succeeds_panTo hscale click v width height
  have hpos : 0 < w.zoom := hsame ▸ hzoom
  obtain ⟨r', hr', hmarks'⟩ := succeeds_viewRect hpos hwidth hheight m
  obtain ⟨hacross, hdown⟩ := hmarks.size hzoom.ne'
  obtain ⟨hacross', hdown'⟩ := hmarks'.size hpos.ne'
  rw [hsame] at hacross' hdown'
  exact ⟨w, r', hw, hsame, hr', mul_right_cancel₀ hzoom.ne' (hacross'.trans hacross.symm),
    mul_right_cancel₀ hzoom.ne' (hdown'.trans hdown.symm),
    (hmarks'.center_eq hpos.ne' hshown).trans hclick⟩

/-- A minimap of two boxes below each other, a view of them that is panned, and a click. -/
theorem exists_fit_marks_clicked :
    let boxes : List (Box Rat) := [⟨"a", 50, 50, 380, 26, 0⟩, ⟨"b", 50, 176, 380, 42, 1⟩]
    let v : View Rat := ⟨10, -20, 3 / 10, 1 / 20, 3⟩
    (∀ b ∈ boxes, b.IsSized) ∧ 0 < v.zoom ∧
      ∃ m, fit boxes .standard = .ok m ∧ m.toGraph (m.toPanel ⟨50, 176⟩) = .ok ⟨50, 176⟩ ∧
        Succeeds (m.toGraph ⟨0, 150⟩) (m.toPanel · = ⟨0, 150⟩) ∧
        ∃ r, m.viewRect v (some 800) (some 600) = .ok r ∧ m.Marks v 800 600 r ∧
          ∃ w r', m.panTo ⟨70, 40⟩ v 800 600 = .ok w ∧ w.zoom = v.zoom ∧
            m.viewRect w (some 800) (some 600) = .ok r' ∧ r'.width = r.width ∧
            r'.height = r.height ∧ r'.center = ⟨70, 40⟩ := by
  intro boxes v
  have hboxes : ∀ b ∈ boxes, b.IsSized := by
    intro b hb
    rcases List.mem_pair.mp hb with rfl | rfl <;> constructor <;> norm_num
  have hzoom : 0 < v.zoom := by norm_num [v]
  obtain ⟨m, hm, hfound, hshown, hview⟩ := exists_fit_marks Config.hasPanel_standard hboxes
  obtain ⟨r, hr, hmarks, hclick⟩ := hview v 800 600 hzoom (by norm_num) (by norm_num)
  exact ⟨hboxes, hzoom, m, hm, hfound _, hshown _, r, hr, hmarks, hclick _⟩

end Minimap

end FlowChart
