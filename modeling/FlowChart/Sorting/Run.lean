import FlowChart.Sorting.Reach

/-!
# Runs

A list falls into runs: stretches that ascend, or that fall strictly and are taken in reverse. A run
that is too short is extended by the members after it, each put in its place by halving. In a weak
order every run is what a stable sort makes of its stretch.
-/

namespace FlowChart

variable {α : Type}

/-- Put a member in its place, behind all that it does not come before. -/
def insertHalving (lt : α → α → Bool) (xs : List α) (x : α) : List α :=
  let place := halve .front (fun y ↦ !lt x y) xs xs.length 0 xs.length
  xs.take place ++ x :: xs.drop place

/-- The members that go on from `x` in such a way that every two neighbours satisfy `follows`, and
the members after them. -/
def splitRun (follows : α → α → Bool) : α → List α → List α × List α
  | _, [] => ([], [])
  | x, y :: ys =>
    if follows x y then (y :: (splitRun follows y ys).1, (splitRun follows y ys).2)
    else ([], y :: ys)

/-- The run that a list starts with, in ascending order, and the members after it. -/
def firstRun (lt : α → α → Bool) : List α → List α × List α
  | [] => ([], [])
  | x :: xs =>
    let falling := splitRun (fun a b ↦ lt b a) x xs
    let rising := splitRun (fun a b ↦ !lt b a) x xs
    if falling.1.isEmpty then (x :: rising.1, rising.2)
    else ((x :: falling.1).reverse, falling.2)

/-- The run that a list starts with, extended to at least `least` members, and the members after
it. -/
def cutRun (lt : α → α → Bool) (least : Nat) (xs : List α) : List α × List α :=
  let first := firstRun lt xs
  let missing := least - first.1.length
  ((first.2.take missing).foldl (insertHalving lt) first.1, first.2.drop missing)

/-- The runs of a list, each but the last of at least `least` members. -/
def cutRuns (lt : α → α → Bool) (least : Nat) : Nat → List α → List (List α)
  | _, [] => []
  | 0, _ :: _ => []
  | bound + 1, x :: xs =>
    let cut := cutRun lt least (x :: xs)
    cut.1 :: cutRuns lt least bound cut.2

/-- The least length of a run in a list of `size` members: all of a short list, and else the
leading six binary digits of the size, rounded up. The runs are then about a power of two in
number. -/
def leastRun (size : Nat) : Nat :=
  let unit := 1 <<< (size.log2 - 5)
  (size + (unit - 1)) / unit

/-- The runs of a list. -/
def runs (lt : α → α → Bool) (xs : List α) : List (List α) :=
  cutRuns lt (leastRun xs.length) xs.length xs

variable {lt : α → α → Bool}

private theorem insertHalving_sortStably (h : IsWeakOrder lt) (xs : List α) (x : α) :
    insertHalving lt (sortStably lt xs) x = sortStably lt (xs ++ [x]) := by
  have sorted := isAscending_sortStably h xs
  have front := sorted.isFrontal_not_lt h x
  have hlen := (List.takeWhile_sublist (l := sortStably lt xs) fun y ↦ !lt x y).length_le
  have happ := List.takeWhile_append_dropWhile (p := fun y ↦ !lt x y) (l := sortStably lt xs)
  have hplace := front.halve_eq .front (sortStably lt xs).length 0 (sortStably lt xs).length
    (by omega) (Nat.zero_le _) hlen
  have hbefore : ∀ y ∈ (sortStably lt xs).takeWhile fun y ↦ !lt x y, lt x y = false := by
    intro y hy
    simpa using List.all_eq_true.mp List.all_takeWhile y hy
  have hbehind : ∀ y ∈ (sortStably lt xs).dropWhile fun y ↦ !lt x y, lt x y = true := by
    intro y hy
    simpa using front.eq_false_of_mem_dropWhile y hy
  have hconcat := sortStably_concat h (by rw [happ]; exact sorted) hbefore hbehind
  rw [← List.append_assoc, happ, sortStably_sortStably_append h] at hconcat
  rw [insertHalving, hplace, hconcat]
  congr 1
  · exact (congrArg (List.take _) happ.symm).trans List.take_left
  · exact congrArg (x :: ·) ((congrArg (List.drop _) happ.symm).trans List.drop_left)

private theorem foldl_insertHalving (h : IsWeakOrder lt) (xs ys : List α) :
    ys.foldl (insertHalving lt) (sortStably lt xs) = sortStably lt (xs ++ ys) := by
  induction ys generalizing xs with
  | nil => simp
  | cons y ys ih => rw [List.foldl_cons, insertHalving_sortStably h, ih]; simp

/-- Splitting off a run loses nothing. -/
theorem splitRun_append (follows : α → α → Bool) (x : α) (ys : List α) :
    (splitRun follows x ys).1 ++ (splitRun follows x ys).2 = ys := by
  induction ys generalizing x with
  | nil => rfl
  | cons y ys ih =>
    rw [splitRun]
    split
    · simp [ih]
    · rfl

/-- In a run that a transitive relation goes on with, every member is followed by all later ones. -/
private theorem pairwise_splitRun (follows : α → α → Bool)
    (htrans : ∀ a b c, follows a b = true → follows b c = true → follows a c = true) (x : α)
    (ys : List α) : (x :: (splitRun follows x ys).1).Pairwise fun a b ↦ follows a b = true := by
  induction ys generalizing x with
  | nil => exact List.pairwise_singleton _ _
  | cons y ys ih =>
    rw [splitRun]
    split
    · next hy =>
      have tail := ih y
      refine List.pairwise_cons.mpr ⟨fun z hz ↦ ?_, tail⟩
      rcases List.mem_cons.mp hz with rfl | hz
      · exact hy
      · exact htrans x y z hy ((List.pairwise_cons.mp tail).1 z hz)
    · exact List.pairwise_singleton _ _

private theorem isAscending_rising (h : IsWeakOrder lt) (x : α) (ys : List α) :
    IsAscending lt (x :: (splitRun (fun a b ↦ !lt b a) x ys).1) := by
  have hpairwise := pairwise_splitRun (fun a b ↦ !lt b a) (fun a b c hab hbc ↦ by
    simp only [Bool.not_eq_true'] at hab hbc ⊢
    exact h.trans a b c hab hbc) x ys
  exact hpairwise.imp fun hab ↦ by simpa using hab

private theorem lt_of_falling (h : IsWeakOrder lt) (x : α) (ys : List α) :
    (x :: (splitRun (fun a b ↦ lt b a) x ys).1).Pairwise fun a b ↦ lt b a = true :=
  pairwise_splitRun (fun a b ↦ lt b a) (fun _ _ _ hab hbc ↦ h.lt_trans hbc hab) x ys

private theorem sortStably_falling (h : IsWeakOrder lt) {xs : List α}
    (falling : xs.Pairwise fun a b ↦ lt b a = true) : sortStably lt xs = xs.reverse := by
  induction xs with
  | nil => rfl
  | cons x xs ih =>
    have parts := List.pairwise_cons.mp falling
    have hswap := sortStably_swap h [x] xs [] (by simpa using parts.1)
    simp only [List.append_nil, List.singleton_append] at hswap
    rw [hswap, sortStably_append fun y hy z hz ↦ ?_, ih parts.2, List.reverse_cons]
    · rfl
    · rw [List.mem_singleton.mp hz]
      exact h.asymm y x (parts.1 y hy)

private theorem exists_firstRun (h : IsWeakOrder lt) (x : α) (xs : List α) :
    ∃ front, front ++ (firstRun lt (x :: xs)).2 = x :: xs ∧ front ≠ [] ∧
      (firstRun lt (x :: xs)).1 = sortStably lt front := by
  simp only [firstRun]
  split
  · exact ⟨_, congrArg (x :: ·) (splitRun_append (fun a b ↦ !lt b a) x xs), by simp,
      (sortStably_eq_self (isAscending_rising h x xs)).symm⟩
  · exact ⟨_, congrArg (x :: ·) (splitRun_append (fun a b ↦ lt b a) x xs), by simp,
      (sortStably_falling h (lt_of_falling h x xs)).symm⟩

private theorem exists_cutRun (h : IsWeakOrder lt) (least : Nat) (x : α) (xs : List α) :
    ∃ front, front ++ (cutRun lt least (x :: xs)).2 = x :: xs ∧ front ≠ [] ∧
      (cutRun lt least (x :: xs)).1 = sortStably lt front := by
  obtain ⟨front, happ, hne, hrun⟩ := exists_firstRun h x xs
  refine ⟨front ++ (firstRun lt (x :: xs)).2.take (least - (firstRun lt (x :: xs)).1.length),
    ?_, by simp [hne], ?_⟩
  · rw [cutRun, List.append_assoc, List.take_append_drop, happ]
  · simp only [cutRun]
    rw [← foldl_insertHalving h, ← hrun]

/-- Every run ascends. -/
theorem isAscending_of_mem_runs (h : IsWeakOrder lt) {xs run : List α} (hrun : run ∈ runs lt xs) :
    IsAscending lt run := by
  suffices ∀ bound (zs : List α), run ∈ cutRuns lt (leastRun xs.length) bound zs →
      IsAscending lt run from this _ _ hrun
  intro bound
  induction bound with
  | zero => intro zs hz; cases zs <;> simp [cutRuns] at hz
  | succ bound ih =>
    intro zs hz
    cases zs with
    | nil => simp [cutRuns] at hz
    | cons z zs =>
      rw [cutRuns] at hz
      rcases List.mem_cons.mp hz with rfl | hz
      · obtain ⟨front, _, _, hfront⟩ := exists_cutRun h (leastRun xs.length) z zs
        rw [hfront]
        exact isAscending_sortStably h front
      · exact ih _ hz

private theorem sortStably_cutRuns (h : IsWeakOrder lt) (least bound : Nat) (xs : List α)
    (hbound : xs.length ≤ bound) :
    sortStably lt (cutRuns lt least bound xs).flatten = sortStably lt xs := by
  induction bound generalizing xs with
  | zero =>
    rw [List.eq_nil_of_length_eq_zero (by omega : xs.length = 0)]
    rfl
  | succ bound ih =>
    cases xs with
    | nil => rfl
    | cons x xs =>
      obtain ⟨front, happ, hne, hrun⟩ := exists_cutRun h least x xs
      have hlen := congrArg List.length happ
      have hpos := List.length_pos_iff.mpr hne
      simp only [List.length_append, List.length_cons] at hlen hbound
      have rest := ih (cutRun lt least (x :: xs)).2 (by omega)
      rw [cutRuns, List.flatten_cons, hrun, sortStably_sortStably_append h,
        sortStably_append_congr front rest, happ]

/-- A list and its runs are sorted to the same. -/
theorem sortStably_flatten_runs (h : IsWeakOrder lt) (xs : List α) :
    sortStably lt (runs lt xs).flatten = sortStably lt xs :=
  sortStably_cutRuns h _ _ xs (Nat.le_refl _)

end FlowChart
