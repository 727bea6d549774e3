import FlowChart.Proofs.Number.Exact
import FlowChart.Proofs.View.Zoom

/-!
# Zooming around a point

Whatever point of the chart is shown under the cursor stays there while a user zooms, however often
and by whatever factors, and whether or not a bound of the zoom is reached. In exact arithmetic a
view is known from its zoom and from where it shows one point, so that a run of zooming steps only
sets the zoom: a step that leaves the zoom as it is changes nothing, and steps that reach no bound
multiply.
-/

namespace FlowChart.View

open Scalar

/-! ### Any arithmetic -/

section

variable {α : Type} [Scalar α]

/-- The view with the same bounds and another zoom that shows a point of the chart at a point of the
canvas. -/
def zoomedTo (v : View α) (anchor p : Point α) (zoom : α) : View α :=
  { v with zoom, panX := p.x - anchor.x * zoom, panY := p.y - anchor.y * zoom }

/-- A view that is zoomed by several factors, one after the other, at one point of the canvas. -/
def zoomAll (v : View α) (p : Point α) (factors : List α) : Except Fault (View α) :=
  factors.foldlM (fun v factor ↦ v.zoomAt p factor) v

/-- An action that zooms at a point of the canvas. -/
def Action.ZoomsAt (p : Point α) : Action α → Prop
  | .wheel q _ => q = p
  | .zoomIn width height => canvasCenter width height = p
  | .zoomOut width height => canvasCenter width height = p
  | _ => False

/-- A factor by which a view is zoomed without reaching a bound. -/
def IsFree (v : View α) (factor : α) : Prop := v.clamp (v.zoom * factor) = v.zoom * factor

variable {v : View α} {anchor p : Point α}

/-- A step sets the zoom and keeps the point that is shown. -/
theorem zoomAt_eq_zoomedTo (h : v.toGraph p = .ok anchor) (factor : α) :
    v.zoomAt p factor = .ok (v.zoomedTo anchor p (v.clamp (v.zoom * factor))) := by
  rw [zoomAt, h]
  rfl

private theorem exists_factor {a : Action α} (h : a.ZoomsAt p) :
    ∃ factor, ∀ v : View α, v.act a = v.zoomAt p factor := by
  cases a with
  | wheel q delta =>
    cases h
    exact ⟨_, fun _ ↦ rfl⟩
  | zoomIn width height =>
    cases h
    exact ⟨_, fun _ ↦ rfl⟩
  | zoomOut width height =>
    cases h
    exact ⟨_, fun _ ↦ rfl⟩
  | reset => cases h
  | click => cases h

/-- Actions that zoom at one point are steps by some factors. -/
theorem exists_run_eq_zoomAll {actions : List (Action α)} (h : ∀ a ∈ actions, a.ZoomsAt p) :
    ∃ factors, ∀ v : View α, v.run actions = v.zoomAll p factors := by
  induction actions with
  | nil => exact ⟨[], fun _ ↦ rfl⟩
  | cons a rest ih =>
    obtain ⟨ha, hrest⟩ := List.forall_mem_cons.mp h
    obtain ⟨factor, hfactor⟩ := exists_factor ha
    obtain ⟨factors, hfactors⟩ := ih hrest
    refine ⟨factor :: factors, fun v ↦ ?_⟩
    rw [run, zoomAll, List.foldlM_cons, List.foldlM_cons, hfactor]
    exact congrArg _ (funext hfactors)

end

/-! ### Exact arithmetic -/

variable {v : View Rat} {anchor p : Point Rat}

/-- A point of the chart is found at a point of the canvas exactly if it is shown there. -/
theorem toGraph_eq_ok_iff (hzoom : v.zoom ≠ 0) :
    v.toGraph p = .ok anchor ↔ v.toScreen anchor = p := by
  obtain ⟨x, y⟩ := p
  obtain ⟨x', y'⟩ := anchor
  have hfound : v.toGraph ⟨x, y⟩ = .ok ⟨(x - v.panX) / v.zoom, (y - v.panY) / v.zoom⟩ := by
    rw [toGraph, divide_eq_ok _ hzoom, divide_eq_ok _ hzoom]
    rfl
  rw [hfound, toScreen, Except.ok.injEq, Point.mk.injEq, Point.mk.injEq, div_eq_iff hzoom,
    div_eq_iff hzoom, sub_eq_iff_eq_add, sub_eq_iff_eq_add, eq_comm, eq_comm (a := y)]

/-- A view with another zoom shows the point where it is wanted. -/
theorem toScreen_zoomedTo (v : View Rat) (anchor p : Point Rat) (zoom : Rat) :
    (v.zoomedTo anchor p zoom).toScreen anchor = p := by
  simp only [toScreen, zoomedTo, add_sub_cancel]

/-- A view that shows the point where it is wanted stays as it is with its own zoom. -/
theorem zoomedTo_self (h : v.toScreen anchor = p) : v.zoomedTo anchor p v.zoom = v := by
  subst h
  simp only [zoomedTo, toScreen, add_sub_cancel_left]

/-- A zoom within positive bounds is positive. -/
private theorem clamp_pos (hmin : 0 < v.minZoom) (hle : v.minZoom ≤ v.maxZoom) (zoom : Rat) :
    0 < v.clamp zoom :=
  hmin.trans_le (le_smaller_larger_le (le_refl zoom) hle).1

/-- Steps at one point of the canvas set the zoom, by one factor after the other, and keep the point
that is shown. -/
theorem zoomAll_eq_zoomedTo (hmin : 0 < v.minZoom) (hle : v.minZoom ≤ v.maxZoom) {zoom : Rat}
    (hzoom : 0 < zoom) (anchor p : Point Rat) (factors : List Rat) :
    (v.zoomedTo anchor p zoom).zoomAll p factors =
      .ok (v.zoomedTo anchor p (factors.foldl (fun z factor ↦ v.clamp (z * factor)) zoom)) := by
  induction factors generalizing zoom with
  | nil => rfl
  | cons factor rest ih =>
    have hshown : (v.zoomedTo anchor p zoom).toGraph p = .ok anchor :=
      (toGraph_eq_ok_iff hzoom.ne').mpr (toScreen_zoomedTo v anchor p zoom)
    rw [zoomAll, List.foldlM_cons, zoomAt_eq_zoomedTo hshown]
    exact ih (clamp_pos hmin hle _)

/-- The zoom after a run of steps is positive. -/
private theorem foldl_clamp_pos (hmin : 0 < v.minZoom) (hle : v.minZoom ≤ v.maxZoom) {zoom : Rat}
    (hzoom : 0 < zoom) (factors : List Rat) :
    0 < factors.foldl (fun z factor ↦ v.clamp (z * factor)) zoom := by
  induction factors generalizing zoom with
  | nil => exact hzoom
  | cons factor rest ih => exact ih (clamp_pos hmin hle _)

/-- Steps at one point of the canvas go through and keep the point that is shown. -/
theorem succeeds_zoomAll (hzoom : 0 < v.zoom) (hmin : 0 < v.minZoom)
    (hle : v.minZoom ≤ v.maxZoom) (h : v.toGraph p = .ok anchor) (factors : List Rat) :
    Succeeds (v.zoomAll p factors) fun w ↦ 0 < w.zoom ∧ w.toGraph p = .ok anchor := by
  have hshown := (toGraph_eq_ok_iff hzoom.ne').mp h
  have hrun := zoomAll_eq_zoomedTo hmin hle hzoom anchor p factors
  rw [zoomedTo_self hshown] at hrun
  have hpos := foldl_clamp_pos hmin hle hzoom factors
  exact ⟨_, hrun, hpos, (toGraph_eq_ok_iff hpos.ne').mpr (toScreen_zoomedTo v anchor p _)⟩

/-- Zooming at one point of the canvas, by any factors or actions, keeps the point of the chart that
is shown there. A step that ends at the zoom at which it started changes nothing, and two steps that
reach no bound are one step by the product of their factors. -/
theorem exists_anchor_zoomAll (hzoom : 0 < v.zoom) (hmin : 0 < v.minZoom)
    (hle : v.minZoom ≤ v.maxZoom) (p : Point Rat) :
    ∃ anchor, v.toGraph p = .ok anchor ∧
      (∀ factors, Succeeds (v.zoomAll p factors) fun w ↦
        0 < w.zoom ∧ w.toGraph p = .ok anchor) ∧
      (∀ actions : List (Action Rat), (∀ a ∈ actions, a.ZoomsAt p) →
        Succeeds (v.run actions) fun w ↦ 0 < w.zoom ∧ w.toGraph p = .ok anchor) ∧
      (∀ factor, v.clamp (v.zoom * factor) = v.zoom → v.zoomAt p factor = .ok v) ∧
      ∀ factor factor' w, v.IsFree factor → v.zoomAt p factor = .ok w → w.IsFree factor' →
        w.zoomAt p factor' = v.zoomAt p (factor * factor') := by
  obtain ⟨anchor, hanchor⟩ := exists_toGraph (by rwa [Nat.cast_zero]) p
  have hshown := (toGraph_eq_ok_iff hzoom.ne').mp hanchor
  refine ⟨anchor, hanchor, succeeds_zoomAll hzoom hmin hle hanchor, ?_, ?_, ?_⟩
  · intro actions hactions
    obtain ⟨factors, hfactors⟩ := exists_run_eq_zoomAll hactions
    rw [hfactors]
    exact succeeds_zoomAll hzoom hmin hle hanchor factors
  · intro factor hsame
    rw [zoomAt_eq_zoomedTo hanchor, hsame, zoomedTo_self hshown]
  · intro factor factor' w hfree hw hfree'
    rw [zoomAt_eq_zoomedTo hanchor, hfree] at hw
    cases hw
    have hpos : 0 < v.zoom * factor := hfree ▸ clamp_pos hmin hle _
    have hfound : (v.zoomedTo anchor p (v.zoom * factor)).toGraph p = .ok anchor :=
      (toGraph_eq_ok_iff hpos.ne').mpr (toScreen_zoomedTo v anchor p _)
    have hclamp : v.clamp (v.zoom * (factor * factor')) = v.zoom * factor * factor' := by
      rw [← mul_assoc]
      exact hfree'
    rw [zoomAt_eq_zoomedTo hfound, hfree', zoomAt_eq_zoomedTo hanchor, hclamp]
    rfl

/-- A view at its greatest zoom: steps that reach no bound and both bounds, a step that leaves it as it
is, and two steps that are one. -/
theorem exists_anchor_zoomAll_bounds :
    let v : View Rat := ⟨10, 20, 3, 1 / 20, 3⟩
    let p : Point Rat := ⟨40, 60⟩
    0 < v.zoom ∧ 0 < v.minZoom ∧ v.minZoom ≤ v.maxZoom ∧
      ∃ anchor, v.toGraph p = .ok anchor ∧
        (Succeeds (v.zoomAll p [11 / 10, 1 / 2, 0, 6 / 5]) fun w ↦
          0 < w.zoom ∧ w.toGraph p = .ok anchor) ∧
        v.zoomAt p 100 = .ok v ∧
        ∃ w, v.zoomAt p (1 / 2) = .ok w ∧ w.zoomAt p (1 / 3) = v.zoomAt p (1 / 2 * (1 / 3)) := by
  intro v p
  have hzoom : 0 < v.zoom := by norm_num [v]
  have hmin : 0 < v.minZoom := by norm_num [v]
  have hle : v.minZoom ≤ v.maxZoom := by norm_num [v]
  obtain ⟨anchor, hanchor, hsteps, -, hsame, htwo⟩ := exists_anchor_zoomAll hzoom hmin hle p
  have hfree : v.IsFree (1 / 2) := by
    norm_num [v, IsFree, clamp, larger_eq_max, smaller_eq_min]
  have hfree' : (v.zoomedTo anchor p (v.zoom * (1 / 2))).IsFree (1 / 3) := by
    norm_num [v, IsFree, zoomedTo, clamp, larger_eq_max, smaller_eq_min]
  have hw : v.zoomAt p (1 / 2) = .ok (v.zoomedTo anchor p (v.zoom * (1 / 2))) := by
    rw [zoomAt_eq_zoomedTo hanchor, hfree]
  have hbound : v.clamp (v.zoom * 100) = v.zoom := by
    norm_num [v, clamp, larger_eq_max, smaller_eq_min]
  exact ⟨hzoom, hmin, hle, anchor, hanchor, hsteps _, hsame 100 hbound, _, hw,
    htwo _ _ _ hfree hw hfree'⟩

end FlowChart.View
