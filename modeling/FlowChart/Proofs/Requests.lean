import FlowChart.Warning
import Mathlib.Data.List.Forall2

/-!
# How requests end

A request ends with a value, or it is rejected, or it meets a fault. What each of the three says
about the request is stated at once, and such statements are put together along sequences and loops.
Warnings on the way do not matter here.
-/

namespace FlowChart

/-- The outcome of two requests in sequence. -/
theorem Logged.outcome_bind {α β : Type} (x : Logged α) (f : α → Logged β) :
    (x >>= f).outcome = x.outcome >>= fun a ↦ (f a).outcome := by
  obtain ⟨warnings, outcome⟩ := x
  cases outcome <;> rfl

/-- A request ends with a value that has a property, or it is rejected, or it meets a fault, each
for a reason. -/
def Logged.Ends {α : Type} (x : Logged α) (p : α → Prop) (rejects faults : Prop) : Prop :=
  match x.outcome with
  | .ok a => p a
  | .error (.rejected _) => rejects
  | .error (.broken _) => faults

namespace Logged.Ends

variable {α β : Type} {x : Logged α} {p q : α → Prop} {rejects faults : Prop}

/-- A pure value ends with every property that it has. -/
theorem pure {a : α} (h : p a) : (Pure.pure a : Logged α).Ends p rejects faults := h

/-- A rejection has its reason. -/
theorem reject {reason : Rejection} (h : rejects) :
    (Logged.reject reason : Logged α).Ends p rejects faults := h

/-- A fault has its reason. -/
theorem broken {fault : Fault} (h : faults) :
    (Logged.broken fault : Logged α).Ends p rejects faults := h

/-- Every request ends in some way. -/
theorem trivial (x : Logged α) : x.Ends (fun _ ↦ True) True True := by
  unfold Ends
  split <;> exact True.intro

/-- A request ends with every property that follows for its outcome. -/
theorem imp_outcome (h : x.Ends p rejects faults) (hp : ∀ a, x.outcome = .ok a → p a → q a) :
    x.Ends q rejects faults := by
  unfold Ends at h ⊢
  cases hx : x.outcome with
  | ok a =>
    rw [hx] at h
    exact hp a hx h
  | error failure =>
    rw [hx] at h
    cases failure with
    | rejected reason => exact h
    | broken fault => exact h

/-- A request ends with every property that follows. -/
theorem imp (h : x.Ends p rejects faults) (hp : ∀ a, p a → q a) : x.Ends q rejects faults :=
  h.imp_outcome fun a _ ↦ hp a

/-- A request fails for every reason that follows. -/
theorem weaken {rejects' faults' : Prop} (h : x.Ends p rejects faults)
    (hrejects : rejects → rejects') (hfaults : faults → faults') : x.Ends p rejects' faults' := by
  unfold Ends at h ⊢
  split
  · next a hx =>
    rw [hx] at h
    exact h
  · next reason hx =>
    rw [hx] at h
    exact hrejects h
  · next fault hx =>
    rw [hx] at h
    exact hfaults h

/-- A request that ends with a value ends with its outcome. -/
theorem outcome (h : x.Ends p rejects faults) :
    x.Ends (fun a ↦ x.outcome = .ok a ∧ p a) rejects faults :=
  h.imp_outcome fun _ ha hpa ↦ ⟨ha, hpa⟩

/-- A request ends with the property that its value has. -/
theorem of_outcome (h : x.Ends p rejects faults) {a : α} (ha : x.outcome = .ok a) : p a := by
  rwa [Ends, ha] at h

/-- Two requests in sequence end as the second does after everything that the first may end with,
or as the first does. -/
theorem bind {f : α → Logged β} {r : β → Prop} (h : x.Ends p rejects faults)
    (hf : ∀ a, p a → (f a).Ends r rejects faults) : (x >>= f).Ends r rejects faults := by
  unfold Ends at h ⊢
  rw [Logged.outcome_bind]
  cases hx : x.outcome with
  | ok a =>
    rw [hx] at h
    exact hf a h
  | error failure =>
    rw [hx] at h
    cases failure with
    | rejected reason => exact h
    | broken fault => exact h

/-- A request for every member of a list ends as the requests for the members do. -/
theorem mapM {f : α → Logged β} {r : α → β → Prop} {xs : List α}
    (h : ∀ a ∈ xs, (f a).Ends (r a) rejects faults) :
    (xs.mapM f).Ends (List.Forall₂ r xs) rejects faults := by
  induction xs with
  | nil => exact Ends.pure .nil
  | cons a xs ih =>
    rw [List.mapM_cons]
    apply (h a List.mem_cons_self).bind
    intro b hb
    apply (ih fun a' ha' ↦ h a' (List.mem_cons_of_mem a ha')).bind
    intro bs hbs
    exact Ends.pure (.cons hb hbs)

end Logged.Ends

end FlowChart
