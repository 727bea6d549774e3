import FlowChart.Text.CodePoint

/-!
# Stable sorting

Insertion sort by an order given as a Boolean relation. Members that the order does not tell apart
keep their order.
-/

namespace FlowChart

variable {α : Type}

/-- Put a member in front of the first one that it does not have to follow. -/
def insertBy (le : α → α → Bool) (x : α) : List α → List α
  | [] => [x]
  | y :: ys => if le x y then x :: y :: ys else y :: insertBy le x ys

/-- Sort a list, keeping the order of members that are not told apart. -/
def sortBy (le : α → α → Bool) (xs : List α) : List α := xs.foldr (insertBy le) []

/-- Sort the members of a list of texts by code point, once each. -/
def sortedTexts (xs : List String) : List String :=
  sortBy Text.codePointLe xs.eraseDups

/-- Sorting puts the first member into the rest, sorted. -/
theorem sortBy_cons (le : α → α → Bool) (x : α) (xs : List α) :
    sortBy le (x :: xs) = insertBy le x (sortBy le xs) := rfl

private theorem perm_insertBy (le : α → α → Bool) (x : α) (xs : List α) :
    (insertBy le x xs).Perm (x :: xs) := by
  induction xs with
  | nil => exact List.Perm.refl _
  | cons y ys ih =>
    rw [insertBy]
    split
    · exact List.Perm.refl _
    · exact (List.Perm.cons y ih).trans (List.Perm.swap x y ys)

/-- Sorting only moves members. -/
theorem perm_sortBy (le : α → α → Bool) (xs : List α) : (sortBy le xs).Perm xs := by
  induction xs with
  | nil => exact List.Perm.refl _
  | cons x xs ih => exact (perm_insertBy le x _).trans (List.Perm.cons x ih)

/-- Sorting keeps membership. -/
theorem mem_sortBy {le : α → α → Bool} {xs : List α} {x : α} : x ∈ sortBy le xs ↔ x ∈ xs :=
  (perm_sortBy le xs).mem_iff

private theorem pairwise_insertBy {le : α → α → Bool}
    (trans : ∀ a b c, le a b = true → le b c = true → le a c = true)
    (total : ∀ a b, le a b = true ∨ le b a = true) {r : α → α → Prop} {x : α} {xs : List α}
    (hx : ∀ y ∈ xs, r x y) (h : xs.Pairwise fun a b ↦ le a b = true ∧ (le b a = true → r a b)) :
    (insertBy le x xs).Pairwise fun a b ↦ le a b = true ∧ (le b a = true → r a b) := by
  induction xs with
  | nil => simp [insertBy]
  | cons y ys ih =>
    have hy := List.pairwise_cons.mp h
    rw [insertBy]
    split
    · next hxy =>
      refine List.pairwise_cons.mpr ⟨?_, h⟩
      intro z hz
      refine ⟨?_, fun _ ↦ hx z hz⟩
      rcases List.mem_cons.mp hz with rfl | hz
      · exact hxy
      · exact trans _ _ _ hxy (hy.1 z hz).1
    · next hxy =>
      refine List.pairwise_cons.mpr ⟨?_, ih (fun z hz ↦ hx z (List.mem_cons_of_mem y hz)) hy.2⟩
      intro z hz
      rcases List.mem_cons.mp ((perm_insertBy le x ys).mem_iff.mp hz) with rfl | hz
      · exact ⟨(total _ _).resolve_left hxy, fun hle ↦ absurd hle hxy⟩
      · exact hy.1 z hz

/-- A sorted list is in order, and members that are not told apart stand as they did before. -/
theorem pairwise_sortBy_of_pairwise {le : α → α → Bool}
    (trans : ∀ a b c, le a b = true → le b c = true → le a c = true)
    (total : ∀ a b, le a b = true ∨ le b a = true) {r : α → α → Prop} {xs : List α}
    (h : xs.Pairwise r) :
    (sortBy le xs).Pairwise fun a b ↦ le a b = true ∧ (le b a = true → r a b) := by
  induction xs with
  | nil => exact List.Pairwise.nil
  | cons x xs ih =>
    have hx := List.pairwise_cons.mp h
    exact pairwise_insertBy trans total (fun y hy ↦ hx.1 y (mem_sortBy.mp hy)) (ih hx.2)

/-- A sorted list is in order. -/
theorem pairwise_sortBy {le : α → α → Bool}
    (trans : ∀ a b c, le a b = true → le b c = true → le a c = true)
    (total : ∀ a b, le a b = true ∨ le b a = true) (xs : List α) :
    (sortBy le xs).Pairwise fun a b ↦ le a b = true := by
  have hany : xs.Pairwise fun _ _ ↦ True := List.pairwise_of_forall fun _ _ ↦ trivial
  exact (pairwise_sortBy_of_pairwise trans total hany).imp And.left

/-- A list sorted by a relation that can be decided is in its order. -/
theorem pairwise_sortBy_decide {r : α → α → Prop} [DecidableRel r]
    (trans : ∀ a b c, r a b → r b c → r a c) (total : ∀ a b, r a b ∨ r b a) (xs : List α) :
    (sortBy (fun a b ↦ decide (r a b)) xs).Pairwise r := by
  refine (pairwise_sortBy ?_ ?_ xs).imp of_decide_eq_true
  · intro a b c hab hbc
    exact decide_eq_true (trans a b c (of_decide_eq_true hab) (of_decide_eq_true hbc))
  · intro a b
    simp only [decide_eq_true_eq]
    exact total a b

end FlowChart
