import FlowChart.Fault
import FlowChart.Proofs.Matching

/-!
# Success

What a computation that may fault achieves: it succeeds with a value that has a property. Each
operation that may fault gets one statement of this form; the statements are put together by the
laws here, along sequences and loops, so that callers never open the operation.
-/

namespace FlowChart

variable {ε α β σ : Type}

/-- A computation does not fail, and what it returns has a property. -/
def Succeeds (x : Except ε α) (p : α → Prop) : Prop := ∃ a, x = .ok a ∧ p a

namespace Succeeds

variable {x : Except ε α} {p q : α → Prop}

/-- A value succeeds with every property that it has. -/
theorem ok {a : α} (h : p a) : Succeeds (.ok a : Except ε α) p := ⟨a, rfl, h⟩

/-- A success has every property that follows. -/
theorem imp (h : Succeeds x p) (hpq : ∀ a, p a → q a) : Succeeds x q := by
  obtain ⟨a, hx, ha⟩ := h
  exact ⟨a, hx, hpq a ha⟩

/-- What a computation returns has the property with which it succeeds. -/
theorem of_eq_ok (h : Succeeds x p) {a : α} (ha : x = .ok a) : p a := by
  obtain ⟨b, hb, hp⟩ := h
  rw [ha] at hb
  exact Except.ok.inj hb ▸ hp

/-- Two computations in sequence succeed, if the second does so after everything that the first
may return. -/
theorem bind {f : α → Except ε β} {r : β → Prop} (h : Succeeds x p)
    (hf : ∀ a, p a → Succeeds (f a) r) : Succeeds (x >>= f) r := by
  obtain ⟨a, rfl, ha⟩ := h
  exact hf a ha

/-- A loop keeps what every step establishes. What holds may depend on the members that the loop
has passed. -/
theorem foldlM {f : σ → α → Except ε σ} (inv : List α → σ → Prop) {xs : List α} {s : σ}
    (start : inv [] s)
    (step : ∀ done x rest, done ++ x :: rest = xs → ∀ s, inv done s →
      Succeeds (f s x) (inv (done ++ [x]))) :
    Succeeds (xs.foldlM f s) (inv xs) := by
  suffices go : ∀ rest done s, done ++ rest = xs → inv done s →
      Succeeds (rest.foldlM f s) (inv xs) from go xs [] s rfl start
  intro rest
  induction rest with
  | nil =>
    intro done s hxs hs
    rw [List.append_nil] at hxs
    exact .ok (hxs ▸ hs)
  | cons x rest ih =>
    intro done s hxs hs
    rw [List.foldlM_cons]
    exact (step done x rest hxs s hs).bind fun s' hs' ↦ ih (done ++ [x]) s' (by simp [hxs]) hs'

/-- A computation for every member of a list succeeds, if it does so for each. -/
theorem mapM {f : α → Except ε β} {r : α → β → Prop} {xs : List α}
    (h : ∀ x ∈ xs, Succeeds (f x) (r x)) : Succeeds (xs.mapM f) (List.Forall₂ r xs) := by
  induction xs with
  | nil => exact .ok .nil
  | cons x xs ih =>
    rw [List.mapM_cons]
    apply (h x (by simp)).bind
    intro y hy
    apply (ih fun z hz ↦ h z (List.mem_cons_of_mem x hz)).bind
    intro ys hys
    exact .ok (.cons hy hys)

/-- Fetching a value that is there succeeds with it. -/
theorem fetch {κ : Type} [DecidableEq κ] [ToString κ] {t : Table κ α} {k : κ} {a : α}
    (h : t.get? k = some a) : Succeeds (t.fetch k) (· = a) :=
  ⟨a, Table.fetch_eq_ok_iff.mpr h, rfl⟩

end Succeeds

/-- Two computations in sequence return only if the first one does, and then what the second one
returns. -/
theorem exists_of_bind_eq_ok {x : Except ε α} {f : α → Except ε β} {b : β}
    (h : x >>= f = .ok b) : ∃ a, x = .ok a ∧ f a = .ok b := by
  cases x with
  | error failure => cases h
  | ok a => exact ⟨a, rfl, h⟩

/-- Two computations in sequence fail only if the first one does, or the second one after it. -/
theorem eq_error_of_bind_eq_error {x : Except ε α} {f : α → Except ε β} {failure : ε}
    (h : x >>= f = .error failure) :
    x = .error failure ∨ ∃ a, x = .ok a ∧ f a = .error failure := by
  cases x with
  | error failure' =>
    cases h
    exact .inl rfl
  | ok a => exact .inr ⟨a, rfl, h⟩

/-- A computation for every member of a list fails only if it does so for some member. -/
theorem exists_of_mapM_eq_error {f : α → Except ε β} {xs : List α} {failure : ε}
    (h : xs.mapM f = .error failure) : ∃ x ∈ xs, f x = .error failure := by
  induction xs with
  | nil => cases h
  | cons x xs ih =>
    rw [List.mapM_cons] at h
    rcases eq_error_of_bind_eq_error h with hx | ⟨y, -, h⟩
    · exact ⟨x, List.mem_cons_self, hx⟩
    · rcases eq_error_of_bind_eq_error h with hxs | ⟨ys, -, h⟩
      · obtain ⟨z, hz, hfail⟩ := ih hxs
        exact ⟨z, List.mem_cons_of_mem x hz, hfail⟩
      · cases h

/-- Fetching fails only where nothing is found, and names the key. -/
theorem get?_eq_none_of_fetch {κ : Type} [DecidableEq κ] [ToString κ] {t : Table κ α} {k : κ}
    {fault : Fault} (h : t.fetch k = .error fault) :
    t.get? k = none ∧ fault = .missingKey (toString k) := by
  unfold Table.fetch at h
  split at h
  · cases h
  · next hnone =>
    cases h
    exact ⟨hnone, rfl⟩

/-- What every step of a loop keeps holds of what the loop returns. -/
theorem foldlM_induction {f : σ → α → Except ε σ} {inv : σ → Prop} {xs : List α} {s last : σ}
    (step : ∀ x ∈ xs, ∀ {s s'}, inv s → f s x = .ok s' → inv s') (start : inv s)
    (h : xs.foldlM f s = .ok last) : inv last := by
  induction xs generalizing s with
  | nil =>
    cases h
    exact start
  | cons x xs ih =>
    rw [List.foldlM_cons] at h
    obtain ⟨s', hx, hrest⟩ := exists_of_bind_eq_ok h
    exact ih (fun y hy ↦ step y (List.mem_cons_of_mem x hy)) (step x List.mem_cons_self start hx)
      hrest

/-- A loop of which no step changes the state returns the state. -/
theorem foldlM_eq_ok_self {f : σ → α → Except ε σ} {xs : List α} {s : σ}
    (h : ∀ x ∈ xs, f s x = .ok s) : xs.foldlM f s = .ok s := by
  induction xs with
  | nil => rfl
  | cons x xs ih =>
    rw [List.foldlM_cons, h x List.mem_cons_self]
    exact ih fun y hy ↦ h y (List.mem_cons_of_mem x hy)

/-- If a computation for every member of a list returns, it does so for each member. -/
theorem forall₂_of_mapM_eq_ok {f : α → Except ε β} {xs : List α} {ys : List β}
    (h : xs.mapM f = .ok ys) : List.Forall₂ (fun x y ↦ f x = .ok y) xs ys := by
  induction xs generalizing ys with
  | nil =>
    cases h
    exact .nil
  | cons x xs ih =>
    rw [List.mapM_cons] at h
    cases hx : f x with
    | error failure => simp [hx, Bind.bind, Except.bind] at h
    | ok y =>
      cases hxs : xs.mapM f with
      | error failure => simp [hx, hxs, Bind.bind, Except.bind] at h
      | ok ys' =>
        simp only [hx, hxs, Bind.bind, Except.bind, pure, Except.pure, Except.ok.injEq] at h
        subst h
        exact .cons hx (ih hxs)

end FlowChart
