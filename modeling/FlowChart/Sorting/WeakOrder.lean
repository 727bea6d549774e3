import FlowChart.Sorting

/-!
# Sorting in a weak order

In a weak order, not being told apart is an equivalence, and a stable sort has one result. The laws
here say which rearrangements of a list leave that result as it is; every faster way to sort is
measured by them.
-/

namespace FlowChart

variable {α : Type}

/-- The order in which a member may stand in front of another one, if that does not come before
it. -/
def notAfter (lt : α → α → Bool) (a b : α) : Bool := !lt b a

/-- Sort a list stably, by which member comes before which. -/
def sortStably (lt : α → α → Bool) (xs : List α) : List α := sortBy (notAfter lt) xs

/-- No member of a list comes before an earlier one. -/
def IsAscending (lt : α → α → Bool) (xs : List α) : Prop := xs.Pairwise fun a b ↦ lt b a = false

/-- A strict order in which not being told apart is an equivalence. -/
structure IsWeakOrder (lt : α → α → Bool) : Prop where
  /-- No two members come before each other. -/
  asymm : ∀ a b, lt a b = true → lt b a = false
  /-- Not coming before passes on. -/
  trans : ∀ a b c, lt b a = false → lt c b = false → lt c a = false

variable {lt : α → α → Bool}

namespace IsWeakOrder

/-- The opposite of a weak order is one. -/
theorem opposite (h : IsWeakOrder lt) : IsWeakOrder fun a b ↦ lt b a :=
  ⟨fun a b hab ↦ h.asymm b a hab, fun a b c hba hcb ↦ h.trans c b a hcb hba⟩

/-- What comes before a member comes before all that do not come before that. -/
theorem lt_of_lt_of_not_lt (h : IsWeakOrder lt) {a b c : α} (hab : lt a b = true)
    (hbc : lt c b = false) : lt a c = true := by
  cases hac : lt a c with
  | true => rfl
  | false => simp [h.trans b c a hbc hac] at hab

/-- What does not come after a member comes before all that that comes before. -/
theorem lt_of_not_lt_of_lt (h : IsWeakOrder lt) {a b c : α} (hab : lt b a = false)
    (hbc : lt b c = true) : lt a c = true := by
  cases hac : lt a c with
  | true => rfl
  | false => simp [h.trans c a b hac hab] at hbc

/-- Coming before passes on. -/
theorem lt_trans (h : IsWeakOrder lt) {a b c : α} (hab : lt a b = true) (hbc : lt b c = true) :
    lt a c = true :=
  h.lt_of_lt_of_not_lt hab (h.asymm b c hbc)

end IsWeakOrder

/-- Sorting keeps membership. -/
theorem mem_sortStably {xs : List α} {x : α} : x ∈ sortStably lt xs ↔ x ∈ xs := mem_sortBy

private theorem sortStably_cons (x : α) (xs : List α) :
    sortStably lt (x :: xs) = insertBy (notAfter lt) x (sortStably lt xs) := rfl

private theorem foldr_insertBy_sortStably (xs ys : List α) :
    xs.foldr (insertBy (notAfter lt)) (sortStably lt ys) = sortStably lt (xs ++ ys) :=
  (List.foldr_append).symm

private theorem insertBy_append {x : α} (xs : List α) {ys : List α}
    (hx : ∀ y ∈ ys, lt y x = false) :
    insertBy (notAfter lt) x (xs ++ ys) = insertBy (notAfter lt) x xs ++ ys := by
  induction xs with
  | nil =>
    cases ys with
    | nil => rfl
    | cons y ys => simp [insertBy, notAfter, hx y (by simp)]
  | cons z xs ih =>
    rw [List.cons_append, insertBy, insertBy, ih]
    split <;> simp

/-- Two parts of a list are sorted apart, if no member of the second comes before one of the
first. -/
theorem sortStably_append {xs ys : List α} (hxy : ∀ x ∈ xs, ∀ y ∈ ys, lt y x = false) :
    sortStably lt (xs ++ ys) = sortStably lt xs ++ sortStably lt ys := by
  induction xs with
  | nil => rfl
  | cons x xs ih =>
    have ih := ih fun z hz ↦ hxy z (List.mem_cons_of_mem x hz)
    rw [List.cons_append, sortStably_cons, ih,
      insertBy_append _ fun y hy ↦ hxy x (by simp) y (mem_sortStably.mp hy), sortStably_cons]

/-- Sorting leaves an ascending list as it is. -/
theorem sortStably_eq_self {xs : List α} (hx : IsAscending lt xs) : sortStably lt xs = xs := by
  induction xs with
  | nil => rfl
  | cons x xs ih =>
    have hx := List.pairwise_cons.mp hx
    have happ : sortStably lt ([x] ++ xs) = sortStably lt [x] ++ sortStably lt xs :=
      sortStably_append (by simpa using hx.1)
    rw [ih hx.2] at happ
    exact happ

private theorem insertBy_comm (h : IsWeakOrder lt) {a x : α} (hxa : lt x a = true)
    (zs : List α) :
    insertBy (notAfter lt) a (insertBy (notAfter lt) x zs) =
      insertBy (notAfter lt) x (insertBy (notAfter lt) a zs) := by
  have hax := h.asymm x a hxa
  induction zs with
  | nil => simp [insertBy, notAfter, hxa, hax]
  | cons z zs ih =>
    cases hzx : lt z x with
    | true =>
      have hza := h.lt_trans hzx hxa
      simpa [insertBy, notAfter, hzx, hza] using ih
    | false =>
      cases hza : lt z a <;> simp [insertBy, notAfter, hzx, hza, hxa, hax]

private theorem foldr_insertBy_comm (h : IsWeakOrder lt) {a : α} {xs : List α}
    (hxa : ∀ x ∈ xs, lt x a = true) (zs : List α) :
    insertBy (notAfter lt) a (xs.foldr (insertBy (notAfter lt)) zs) =
      xs.foldr (insertBy (notAfter lt)) (insertBy (notAfter lt) a zs) := by
  induction xs with
  | nil => rfl
  | cons x xs ih =>
    rw [List.foldr_cons, List.foldr_cons, insertBy_comm h (hxa x (by simp)),
      ih fun z hz ↦ hxa z (List.mem_cons_of_mem x hz)]

/-- Neighbouring parts of a list may be exchanged, if all of the second comes before all of the
first. -/
theorem sortStably_swap (h : IsWeakOrder lt) (xs ys zs : List α)
    (hyx : ∀ y ∈ ys, ∀ x ∈ xs, lt y x = true) :
    sortStably lt (xs ++ (ys ++ zs)) = sortStably lt (ys ++ (xs ++ zs)) := by
  induction xs with
  | nil => rfl
  | cons x xs ih =>
    have ih := ih fun y hy z hz ↦ hyx y hy z (List.mem_cons_of_mem x hz)
    rw [List.cons_append, sortStably_cons, ih, ← foldr_insertBy_sortStably,
      foldr_insertBy_comm h fun y hy ↦ hyx y hy x (by simp), ← sortStably_cons,
      foldr_insertBy_sortStably, List.cons_append]

private theorem foldr_insertBy (h : IsWeakOrder lt) (m : α) (xs zs : List α) :
    (insertBy (notAfter lt) m xs).foldr (insertBy (notAfter lt)) zs =
      insertBy (notAfter lt) m (xs.foldr (insertBy (notAfter lt)) zs) := by
  induction xs with
  | nil => rfl
  | cons x xs ih =>
    cases hxm : lt x m with
    | false => simp [insertBy, notAfter, hxm]
    | true => simp [insertBy, notAfter, hxm, ih, insertBy_comm h hxm]

/-- Sorting a part first does not change the result. -/
theorem sortStably_sortStably_append (h : IsWeakOrder lt) (xs ys : List α) :
    sortStably lt (sortStably lt xs ++ ys) = sortStably lt (xs ++ ys) := by
  rw [← foldr_insertBy_sortStably, ← foldr_insertBy_sortStably]
  induction xs with
  | nil => rfl
  | cons x xs ih => rw [sortStably_cons, foldr_insertBy h, ih, List.foldr_cons]

/-- Lists that are sorted to the same are so behind a common part. -/
theorem sortStably_append_congr {ys zs : List α} (xs : List α)
    (hyz : sortStably lt ys = sortStably lt zs) :
    sortStably lt (xs ++ ys) = sortStably lt (xs ++ zs) := by
  rw [← foldr_insertBy_sortStably, hyz, foldr_insertBy_sortStably]

/-- A sorted list is ascending, and members that are not told apart stand as they did before. -/
theorem pairwise_sortStably_of_pairwise (h : IsWeakOrder lt) {r : α → α → Prop} {xs : List α}
    (hxs : xs.Pairwise r) :
    (sortStably lt xs).Pairwise fun a b ↦ lt b a = false ∧ (lt a b = false → r a b) := by
  have total : ∀ a b, notAfter lt a b = true ∨ notAfter lt b a = true := by
    intro a b
    cases hba : lt b a
    · exact .inl (by simp [notAfter, hba])
    · exact .inr (by simp [notAfter, h.asymm b a hba])
  have trans : ∀ a b c, notAfter lt a b = true → notAfter lt b c = true →
      notAfter lt a c = true := by
    intro a b c hab hbc
    simp only [notAfter, Bool.not_eq_true'] at hab hbc ⊢
    exact h.trans a b c hab hbc
  exact (pairwise_sortBy_of_pairwise trans total hxs).imp fun hab ↦ by simpa [notAfter] using hab

/-- A sorted list is ascending. -/
theorem isAscending_sortStably (h : IsWeakOrder lt) (xs : List α) :
    IsAscending lt (sortStably lt xs) := by
  have hany : xs.Pairwise fun _ _ ↦ True := List.pairwise_of_forall fun _ _ ↦ trivial
  exact (pairwise_sortStably_of_pairwise h hany).imp And.left

/-- A member goes behind all that it does not come before. -/
theorem sortStably_concat (h : IsWeakOrder lt) {x : α} {before behind : List α}
    (sorted : IsAscending lt (before ++ behind)) (hbefore : ∀ y ∈ before, lt x y = false)
    (hbehind : ∀ y ∈ behind, lt x y = true) :
    sortStably lt (before ++ (behind ++ [x])) = before ++ x :: behind := by
  have parts := List.pairwise_append.mp sorted
  have hswap := sortStably_swap h behind [x] [] (by simpa using hbehind)
  simp only [List.append_nil] at hswap
  rw [sortStably_append_congr before hswap, sortStably_append, sortStably_eq_self parts.1,
    sortStably_eq_self]
  · rfl
  · refine List.pairwise_cons.mpr ⟨fun y hy ↦ h.asymm x y (hbehind y hy), parts.2.1⟩
  · intro a ha b hb
    rcases List.mem_append.mp hb with hb | hb
    · rw [List.mem_singleton.mp hb]
      exact hbefore a ha
    · exact parts.2.2 a ha b hb

end FlowChart
