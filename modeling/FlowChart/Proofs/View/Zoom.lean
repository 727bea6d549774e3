import FlowChart.Proofs.Number.Order
import FlowChart.Proofs.Success
import FlowChart.View.Minimap
import Mathlib.Tactic.NormNum

/-!
# Zooming within bounds

Every action that zooms ends with a clamp, so the zoom stays between the least and the greatest one
for as long as a user goes on. Clicks on a minimap leave it as it is. A reset is the exception: it
sets plain size whatever the bounds are, and that stays until the next action that zooms. In either
case the zoom is positive, so that no conversion of coordinates divides by zero.
-/

namespace FlowChart.View

open Scalar

/-- What a user may do to a view. -/
inductive Action (α : Type) where
  /-- Turn the wheel at a point of the canvas. -/
  | wheel (p : Point α) (delta : α)
  /-- Enlarge around the middle of a canvas. -/
  | zoomIn (width height : α)
  /-- Reduce around the middle of a canvas. -/
  | zoomOut (width height : α)
  /-- Go back to plain size. -/
  | reset
  /-- Click on a minimap, for a canvas of some size. -/
  | click (minimap : Minimap α) (p : Point α) (width height : α)

/-- Whether an action is a click on a minimap. -/
def Action.isClick {α : Type} : Action α → Bool
  | .click .. => true
  | _ => false

/-- The last action that sets the zoom is a reset: only clicks come after it. -/
def EndsReset {α : Type} (actions : List (Action α)) : Prop :=
  ∃ before after, actions = before ++ .reset :: after ∧ ∀ a ∈ after, a.isClick = true

private theorem endsReset_concat {α : Type} {actions : List (Action α)} {a : Action α} :
    EndsReset (actions ++ [a]) ↔ a = .reset ∨ a.isClick = true ∧ EndsReset actions := by
  constructor
  · rintro ⟨before, after, heq, hclicks⟩
    rcases List.eq_nil_or_concat after with rfl | ⟨after, b, rfl⟩
    · exact .inl (List.append_inj_right' heq rfl |> List.singleton_inj.mp)
    · rw [List.concat_eq_append] at heq hclicks
      rw [← List.cons_append, ← List.append_assoc] at heq
      obtain rfl := List.singleton_inj.mp (List.append_inj_right' heq rfl)
      refine .inr ⟨hclicks a (by simp), before, after, List.append_inj_left' heq rfl, ?_⟩
      exact fun b hb ↦ hclicks b (List.mem_append_left _ hb)
  · rintro (rfl | ⟨hclick, before, after, rfl, hclicks⟩)
    · exact ⟨actions, [], rfl, by simp⟩
    · refine ⟨before, after ++ [a], by simp, fun b hb ↦ ?_⟩
      rcases List.mem_append.mp hb with hb | hb
      · exact hclicks b hb
      · exact List.mem_singleton.mp hb ▸ hclick

/-- Scalars that views can be zoomed in: they are ordered, and the factors of the zooming actions are
positive. -/
class IsZoomable (α : Type) [Scalar α] : Prop extends IsOrdered α where
  /-- The factor of a turn towards the user. -/
  wheelForward_pos : ((0 : Nat) : α) < wheelForward
  /-- The factor of any other turn. -/
  wheelBackward_pos : ((0 : Nat) : α) < wheelBackward
  /-- The factor of the button that enlarges. -/
  buttonLarger_pos : ((0 : Nat) : α) < buttonLarger
  /-- The factor of the button that reduces. -/
  buttonSmaller_pos : ((0 : Nat) : α) < buttonSmaller
  /-- The zoom after a reset. -/
  plainZoom_pos : ((0 : Nat) : α) < plainZoom

instance : IsZoomable Rat := by
  constructor <;>
    norm_num [wheelForward, wheelBackward, buttonLarger, buttonSmaller, plainZoom]

instance : IsZoomable Float := by
  constructor <;> decide

variable {α : Type} [Scalar α]

/-- The view after an action. -/
def act (v : View α) : Action α → Except Fault (View α)
  | .wheel p delta => v.wheel p delta
  | .zoomIn width height => v.zoomIn width height
  | .zoomOut width height => v.zoomOut width height
  | .reset => .ok v.reset
  | .click minimap p width height => minimap.panTo p v width height

/-- The view after a sequence of actions. -/
def run (v : View α) (actions : List (Action α)) : Except Fault (View α) := actions.foldlM act v

/-- An action that is no click on a minimap of scale zero. -/
def Action.HasScale : Action α → Prop
  | .click minimap .. => isZero minimap.scale = false
  | _ => True

/-! ### Actions -/

/-- Division by a positive number succeeds. -/
private theorem exists_divide [IsOrdered α] (x : α) {y : α} (h : ((0 : Nat) : α) < y) :
    ∃ z, divide x y = .ok z :=
  ⟨_, divide_eq_ok_iff.mpr ⟨isZero_of_pos h, rfl⟩⟩

/-- In a view with positive zoom, points of the canvas are converted. -/
theorem exists_toGraph [IsOrdered α] {v : View α} (h : ((0 : Nat) : α) < v.zoom) (p : Point α) :
    ∃ q, v.toGraph p = .ok q := by
  obtain ⟨x, hx⟩ := exists_divide (p.x - v.panX) h
  obtain ⟨y, hy⟩ := exists_divide (p.y - v.panY) h
  exact ⟨⟨x, y⟩, by simp [toGraph, hx, hy, bind, Except.bind, pure, Except.pure]⟩

/-- What a view with positive zoom shows can be marked on every minimap. -/
theorem exists_viewRect [IsOrdered α] {v : View α} (h : ((0 : Nat) : α) < v.zoom) (m : Minimap α)
    (canvasWidth canvasHeight : Option α) : ∃ r, m.viewRect v canvasWidth canvasHeight = .ok r := by
  have hdivides : ∀ x, ∃ z, divide x v.zoom = .ok z := fun x ↦ exists_divide x h
  unfold Minimap.viewRect
  split
  · next width height =>
    obtain ⟨x, hx⟩ := hdivides (-v.panX)
    obtain ⟨y, hy⟩ := hdivides (-v.panY)
    obtain ⟨w, hw⟩ := hdivides (Canvas.orElse width Canvas.standard.width)
    obtain ⟨h, hh⟩ := hdivides (Canvas.orElse height Canvas.standard.height)
    exact ⟨_, by simp [hx, hy, hw, hh, bind, Except.bind, pure, Except.pure]; rfl⟩
  · exact ⟨_, rfl⟩

private theorem succeeds_zoomAt [IsOrdered α] {v : View α} (hzoom : ((0 : Nat) : α) < v.zoom)
    (hbounds : v.minZoom ≤ v.maxZoom) (p : Point α) {factor : α}
    (hfactor : ((0 : Nat) : α) < factor) :
    Succeeds (v.zoomAt p factor) fun w ↦ w.minZoom = v.minZoom ∧ w.maxZoom = v.maxZoom ∧
      v.minZoom ≤ w.zoom ∧ w.zoom ≤ v.maxZoom := by
  obtain ⟨q, hq⟩ := exists_toGraph hzoom p
  obtain ⟨w, hw⟩ : ∃ w, v.zoomAt p factor = .ok w := by
    simp [zoomAt, hq, bind, Except.bind, pure, Except.pure]
  obtain ⟨hmin, hmax, hclamp⟩ := zoomAt_bounds hw
  have hbetween := le_smaller_larger_le (IsOrdered.mul_defined hzoom hfactor) hbounds
  exact ⟨w, hw, hmin, hmax, hclamp ▸ hbetween⟩

private theorem succeeds_panTo {m : Minimap α} (hscale : isZero m.scale = false) (p : Point α)
    (v : View α) (width height : α) :
    Succeeds (m.panTo p v width height) fun w ↦
      w.minZoom = v.minZoom ∧ w.maxZoom = v.maxZoom ∧ w.zoom = v.zoom := by
  have hdivides : ∀ x, divide x m.scale = .ok (Div.div x m.scale) := fun x ↦
    divide_eq_ok_iff.mpr ⟨hscale, rfl⟩
  simp only [Minimap.panTo, Minimap.toGraph, hdivides]
  exact .ok ⟨rfl, rfl, rfl⟩

private theorem hasScale_of_act {v w : View α} {a : Action α} (h : act v a = .ok w) :
    a.HasScale := by
  cases a with
  | click m p width height =>
    obtain ⟨target, htarget, -⟩ := exists_of_bind_eq_ok h
    obtain ⟨x, hx, -⟩ := exists_of_bind_eq_ok htarget
    exact (divide_eq_ok_iff.mp hx).1
  | _ => trivial

/-! ### Runs -/

/-- What holds of the zoom after some actions that started within the bounds of a configuration. -/
structure KeepsZoom (config : Config α) (actions : List (Action α)) (v : View α) : Prop where
  /-- The least zoom is that of the configuration. -/
  minZoom_eq : v.minZoom = config.minZoom
  /-- The greatest zoom is that of the configuration. -/
  maxZoom_eq : v.maxZoom = config.maxZoom
  /-- The zoom lies between them, unless it was reset last. -/
  bounded : ¬ EndsReset actions → config.minZoom ≤ v.zoom ∧ v.zoom ≤ config.maxZoom
  /-- If it was reset last, then it is plain. -/
  plain : EndsReset actions → v.zoom = plainZoom

variable [IsZoomable α] {config : Config α} {actions : List (Action α)} {v : View α}

/-- In either case the zoom is positive. -/
theorem KeepsZoom.zoom_pos (h : v.KeepsZoom config actions)
    (hpos : ((0 : Nat) : α) < config.minZoom) : ((0 : Nat) : α) < v.zoom := by
  by_cases hreset : EndsReset actions
  · exact h.plain hreset ▸ IsZoomable.plainZoom_pos
  · exact lt_of_lt_of_le hpos (h.bounded hreset).1

/-- One more action keeps the zoom, and fails only if it is a click without scale. -/
private theorem KeepsZoom.succeeds_act (h : v.KeepsZoom config actions)
    (hpos : ((0 : Nat) : α) < config.minZoom) (hbounds : config.minZoom ≤ config.maxZoom)
    {a : Action α} (hscale : a.HasScale) :
    Succeeds (act v a) (KeepsZoom config (actions ++ [a])) := by
  have hzooms : ∀ p {factor}, ((0 : Nat) : α) < factor → a ≠ .reset → a.isClick = false →
      Succeeds (v.zoomAt p factor) (KeepsZoom config (actions ++ [a])) := by
    intro p factor hfactor hreset hclick
    have hle : v.minZoom ≤ v.maxZoom := h.minZoom_eq ▸ h.maxZoom_eq ▸ hbounds
    apply (succeeds_zoomAt (h.zoom_pos hpos) hle p hfactor).imp
    rintro w ⟨hmin, hmax, hbetween⟩
    rw [h.minZoom_eq] at hmin hbetween
    rw [h.maxZoom_eq] at hmax hbetween
    refine ⟨hmin, hmax, fun _ ↦ hbetween, fun hends ↦ ?_⟩
    simp [endsReset_concat, hreset, hclick] at hends
  cases a with
  | wheel p delta =>
    refine hzooms p ?_ nofun rfl
    split
    · exact IsZoomable.wheelForward_pos
    · exact IsZoomable.wheelBackward_pos
  | zoomIn width height => exact hzooms _ IsZoomable.buttonLarger_pos nofun rfl
  | zoomOut width height => exact hzooms _ IsZoomable.buttonSmaller_pos nofun rfl
  | reset =>
    have hends : EndsReset (actions ++ [.reset]) := endsReset_concat.mpr (.inl rfl)
    exact .ok ⟨h.minZoom_eq, h.maxZoom_eq, absurd hends, fun _ ↦ rfl⟩
  | click m p width height =>
    have hends : EndsReset (actions ++ [.click m p width height]) ↔ EndsReset actions := by
      simp [endsReset_concat, Action.isClick]
    apply (succeeds_panTo hscale p v width height).imp
    rintro w ⟨hmin, hmax, hzoom⟩
    exact ⟨hmin.trans h.minZoom_eq, hmax.trans h.maxZoom_eq,
      fun hno ↦ hzoom ▸ h.bounded (hends.not.mp hno), fun hyes ↦ hzoom ▸ h.plain (hends.mp hyes)⟩

omit [IsZoomable α] in
private theorem hasScale_of_run (h : ∃ w, run v actions = .ok w) :
    ∀ a ∈ actions, a.HasScale := by
  induction actions generalizing v with
  | nil => simp
  | cons a rest ih =>
    obtain ⟨w, hw⟩ := h
    rw [run, List.foldlM_cons] at hw
    obtain ⟨v', hact, hrest⟩ := exists_of_bind_eq_ok hw
    exact List.forall_mem_cons.mpr ⟨hasScale_of_act hact, ih ⟨w, hrest⟩⟩

/-- From a start within positive bounds, every sequence of actions without a click on a minimap of
scale zero goes through. The zoom stays within the bounds, but for a reset up to the next action that
zooms, and it is positive: points of the canvas are converted, and what is shown is marked on every
minimap. -/
theorem exists_run_keepsZoom (pan : Point α) (hpos : ((0 : Nat) : α) < config.minZoom)
    (hmin : config.minZoom ≤ config.initialZoom) (hmax : config.initialZoom ≤ config.maxZoom)
    (actions : List (Action α)) :
    ((∃ v, run (initial pan config.initialZoom config) actions = .ok v) ↔
      ∀ a ∈ actions, a.HasScale) ∧
    ∀ v, run (initial pan config.initialZoom config) actions = .ok v →
      v.KeepsZoom config actions ∧ ((0 : Nat) : α) < v.zoom ∧
      (∀ p, ∃ q, v.toGraph p = .ok q) ∧
      ∀ (m : Minimap α) canvasWidth canvasHeight,
        ∃ r, m.viewRect v canvasWidth canvasHeight = .ok r := by
  have hstart : (initial pan config.initialZoom config).KeepsZoom config [] :=
    ⟨rfl, rfl, fun _ ↦ ⟨hmin, hmax⟩, fun hends ↦ by obtain ⟨_, _, h, -⟩ := hends; simp at h⟩
  have hruns : (∀ a ∈ actions, a.HasScale) →
      Succeeds (run (initial pan config.initialZoom config) actions)
        (KeepsZoom config actions) := by
    intro hscale
    refine Succeeds.foldlM (KeepsZoom config) hstart fun done a rest hsplit v hv ↦ ?_
    exact hv.succeeds_act hpos (IsOrdered.trans hmin hmax) (hscale a (by simp [← hsplit]))
  refine ⟨⟨hasScale_of_run, fun hscale ↦ ?_⟩, fun v hv ↦ ?_⟩
  · obtain ⟨v, hv, -⟩ := hruns hscale
    exact ⟨v, hv⟩
  · have hkeeps := (hruns (hasScale_of_run ⟨v, hv⟩)).of_eq_ok hv
    have hzoom := hkeeps.zoom_pos hpos
    exact ⟨hkeeps, hzoom, exists_toGraph hzoom, exists_viewRect hzoom⟩

/-- A wheel turn, a reset and a click, with the standard bounds. -/
theorem exists_run_keepsZoom_clicked :
    let minimap : Minimap Float := ⟨⟨0, 0, 1000, 1000⟩, 0.15, ⟨25, 0⟩, 200, 150⟩
    let actions : List (Action Float) :=
      [.wheel ⟨40, 60⟩ 1, .reset, .click minimap ⟨100, 75⟩ 800 600]
    Succeeds (run (initial ⟨10, 20⟩ Config.standard.initialZoom Config.standard) actions)
      (KeepsZoom Config.standard actions) := by
  intro minimap actions
  have hscale : ∀ a ∈ actions, a.HasScale := by
    simp only [actions, List.forall_mem_cons, Action.HasScale, true_and]
    exact ⟨by decide, by simp⟩
  obtain ⟨hgoesThrough, hkeeps⟩ :=
    @exists_run_keepsZoom Float _ _ Config.standard ⟨10, 20⟩ (by decide) (by decide) (by decide)
      actions
  obtain ⟨v, hv⟩ := hgoesThrough.mpr hscale
  exact ⟨v, hv, (hkeeps v hv).1⟩

/-- A reset exceeds a greatest zoom below plain size. -/
theorem exists_reset_above_maxZoom :
    let config : Config Float := { Config.standard with maxZoom := 0.5 }
    0 < config.minZoom ∧ config.minZoom ≤ config.initialZoom ∧
      config.initialZoom ≤ config.maxZoom ∧
      ∃ v, run (initial ⟨0, 0⟩ config.initialZoom config) [.reset] = .ok v ∧
        ¬ v.zoom ≤ config.maxZoom :=
  ⟨by decide, by decide, by decide, _, rfl, by decide⟩

end FlowChart.View
