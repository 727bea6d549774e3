import FlowChart.Sorting
import Mathlib.Data.List.Forall2

/-!
# Lists matched member by member

What is done alike to two matched lists gives matched lists, and the same result where a match is all
that it looks at.
-/

namespace FlowChart

variable {α β σ ε : Type} {r : α → β → Prop} {xs : List α} {ys : List β}

/-- What a list is related to member by member has only members that belong to some member. -/
theorem exists_of_forall₂ (h : List.Forall₂ r xs ys) {y : β} (hy : y ∈ ys) : ∃ x ∈ xs, r x y := by
  induction h with
  | nil => simp at hy
  | @cons x y' xs ys hxy _ ih =>
    rcases List.mem_cons.mp hy with rfl | hy
    · exact ⟨x, List.mem_cons_self, hxy⟩
    · obtain ⟨z, hz, hzy⟩ := ih hy
      exact ⟨z, List.mem_cons_of_mem x hz, hzy⟩

/-- What is related to an ordered list member by member is ordered accordingly. -/
theorem pairwise_of_forall₂ {p : α → α → Prop} {q : β → β → Prop}
    (hr : ∀ {x x' y y'}, p x x' → r x y → r x' y' → q y y') (h : List.Forall₂ r xs ys)
    (hp : xs.Pairwise p) : ys.Pairwise q := by
  induction h with
  | nil => exact .nil
  | cons hxy hrest ih =>
    obtain ⟨hfirst, hp⟩ := List.pairwise_cons.mp hp
    refine List.pairwise_cons.mpr ⟨fun y' hy' ↦ ?_, ih hp⟩
    obtain ⟨x', hx', hxy'⟩ := exists_of_forall₂ hrest hy'
    exact hr (hfirst x' hx') hxy hxy'

/-- Lists that are related member by member look the same to functions that the relation makes
agree. -/
theorem map_eq_of_forall₂ {f : α → σ} {g : β → σ} (hr : ∀ x y, r x y → g y = f x)
    (h : List.Forall₂ r xs ys) : ys.map g = xs.map f := by
  induction h with
  | nil => rfl
  | cons hxy _ ih => rw [List.map_cons, List.map_cons, ih, hr _ _ hxy]

/-- Runs through matched lists end in one state if each step does. -/
theorem foldl_eq_of_forall₂ {f : σ → α → σ} {g : σ → β → σ}
    (hr : ∀ s x y, r x y → g s y = f s x) (h : List.Forall₂ r xs ys) (s : σ) :
    ys.foldl g s = xs.foldl f s := by
  induction h generalizing s with
  | nil => rfl
  | cons hxy _ ih => rw [List.foldl_cons, List.foldl_cons, hr _ _ _ hxy, ih]

/-- A computation for every member of matched lists has one result if it has one for each match. -/
theorem mapM_eq_of_forall₂ {f : α → Except ε σ} {g : β → Except ε σ}
    (hr : ∀ x y, r x y → g y = f x) (h : List.Forall₂ r xs ys) : ys.mapM g = xs.mapM f := by
  induction h with
  | nil => rfl
  | cons hxy _ ih => rw [List.mapM_cons, List.mapM_cons, ih, hr _ _ hxy]

/-- Matched members have one position. -/
theorem forall₂_zipIdx (h : List.Forall₂ r xs ys) (start : Nat) :
    List.Forall₂ (fun x y ↦ r x.1 y.1 ∧ x.2 = y.2) (xs.zipIdx start) (ys.zipIdx start) := by
  induction h generalizing start with
  | nil => exact .nil
  | cons hxy _ ih => exact .cons ⟨hxy, rfl⟩ (ih (start + 1))

/-- Matched lists stay so when the members that a test keeps are the same. -/
theorem forall₂_filter {p : α → Bool} {q : β → Bool} (hr : ∀ x y, r x y → q y = p x)
    (h : List.Forall₂ r xs ys) : List.Forall₂ r (xs.filter p) (ys.filter q) :=
  List.rel_filter (fun _ _ hxy ↦ by simp only [hr _ _ hxy]) h

/-- What the members that pass a test give is matched with them, if the others give nothing. -/
theorem forall₂_filterMap {p : α → Bool} {os : List (Option β)}
    (h : List.Forall₂ (fun x o ↦ if p x then ∃ y, o = some y ∧ r x y else o = none) xs os) :
    List.Forall₂ r (xs.filter p) (os.filterMap id) := by
  induction h with
  | nil => exact .nil
  | @cons x o xs os hxo _ ih =>
    split at hxo
    · next hx =>
      obtain ⟨y, rfl, hxy⟩ := hxo
      rw [List.filter_cons_of_pos hx]
      exact .cons hxy ih
    · next hx =>
      subst hxo
      rw [List.filter_cons_of_neg hx]
      exact ih

/-- What matches the pairs of two matched lists matches the members of the first one. -/
theorem forall₂_of_zip {s : α × β → σ → Prop} {zs : List σ} (h : List.Forall₂ r xs ys)
    (hz : List.Forall₂ s (xs.zip ys) zs) :
    List.Forall₂ (fun x z ↦ ∃ y, r x y ∧ s (x, y) z) xs zs := by
  induction h generalizing zs with
  | nil =>
    cases hz
    exact .nil
  | cons hxy _ ih =>
    cases hz with
    | cons hxyz hz => exact .cons ⟨_, hxy, hxyz⟩ (ih hz)

private theorem forall₂_insertBy {le : α → α → Bool} {le' : β → β → Bool}
    (hr : ∀ x y x' y', r x y → r x' y' → le' y y' = le x x') {x : α} {y : β} (hxy : r x y)
    (h : List.Forall₂ r xs ys) : List.Forall₂ r (insertBy le x xs) (insertBy le' y ys) := by
  induction h with
  | nil => exact .cons hxy .nil
  | cons hxy' h ih =>
    rw [insertBy, insertBy, hr _ _ _ _ hxy hxy']
    split
    · exact .cons hxy (.cons hxy' h)
    · exact .cons hxy' ih

/-- Matched lists stay so when they are sorted alike. -/
theorem forall₂_sortBy {le : α → α → Bool} {le' : β → β → Bool}
    (hr : ∀ x y x' y', r x y → r x' y' → le' y y' = le x x') (h : List.Forall₂ r xs ys) :
    List.Forall₂ r (sortBy le xs) (sortBy le' ys) := by
  induction h with
  | nil => exact .nil
  | cons hxy _ ih => exact forall₂_insertBy hr hxy ih

/-- The first members of matched lists are matched. -/
theorem rel_head? (h : List.Forall₂ r xs ys) : Option.Rel r xs.head? ys.head? := by
  cases h with
  | nil => exact .none
  | cons hxy _ => exact .some hxy

/-- The last members of matched lists are matched. -/
theorem rel_getLast? (h : List.Forall₂ r xs ys) : Option.Rel r xs.getLast? ys.getLast? := by
  rw [← List.head?_reverse, ← List.head?_reverse]
  exact rel_head? (List.rel_reverse h)

/-- The first members that pass a test are matched. -/
theorem rel_find? {p : α → Bool} {q : β → Bool} (hr : ∀ x y, r x y → q y = p x)
    (h : List.Forall₂ r xs ys) : Option.Rel r (xs.find? p) (ys.find? q) := by
  rw [← List.head?_filter, ← List.head?_filter]
  exact rel_head? (forall₂_filter hr h)

end FlowChart
