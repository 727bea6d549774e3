import FlowChart.Sorting.Merge
import FlowChart.Sorting.Run

/-!
# Sorting by runs

A list is sorted by merging its runs. Which neighbours are merged first follows from their places:
a boundary between two runs has a power, and boundaries of greater power give way first, so that
runs of about the same length meet. An undefined number comes neither before nor after any other;
what a sort makes of a list with such a member depends on every comparison, and so on all of this.
In a weak order, such as that of the rationals, the result is that of every stable sort.
-/

namespace FlowChart

variable {α : Type}

/-- The power of the boundary between two runs in a list of `size` members, given twice the places
of their middles: how often the list has to be halved for a cut to fall between the middles. -/
def boundaryPower (size middle next : Nat) : Nat :=
  ((List.range size).takeWhile fun k ↦ (middle <<< k) / size == (next <<< k) / size).length

/-- Runs that wait to be merged. -/
structure Pending (α : Type) where
  /-- The last run. -/
  top : List α
  /-- The runs before it, last first, each with the power of the boundary behind it. -/
  below : List (List α × Nat)
  /-- The patience of the next merge. -/
  patience : Nat

namespace Pending

/-- How many members the runs below the last one have. -/
def offset (below : List (List α × Nat)) : Nat := (below.flatMap (·.1)).length

/-- Merge the last run with those before it, as long as the boundary to them has more than a
power. -/
def settle (lt : α → α → Bool) (power : Nat) :
    List α → List (List α × Nat) → Nat → Pending α
  | top, [], patience => ⟨top, [], patience⟩
  | top, (run, boundary) :: below, patience =>
    if power < boundary then
      let (merged, patience) := mergeRuns lt patience run top
      settle lt power merged below patience
    else ⟨top, (run, boundary) :: below, patience⟩

/-- The power of the boundary between the last run and one that follows it. -/
def powerBefore (size : Nat) (s : Pending α) (run : List α) : Nat :=
  let middle := 2 * offset s.below + s.top.length
  boundaryPower size middle (middle + s.top.length + run.length)

/-- Add a run behind the others. -/
def push (lt : α → α → Bool) (size : Nat) (s : Pending α) (run : List α) : Pending α :=
  let power := s.powerBefore size run
  let settled := settle lt power s.top s.below s.patience
  { settled with top := run, below := (settled.top, power) :: settled.below }

/-- Merge the last two of some runs, and so on until one remains. The two runs before the last one
are merged first, if the last one is longer than the first of them. -/
def collapse (lt : α → α → Bool) : Nat → List α → List α → List (List α) → List α
  | patience, top, second, [] => (mergeRuns lt patience second top).1
  | patience, top, second, third :: rest =>
    if third.length < top.length then
      let (merged, patience) := mergeRuns lt patience third second
      collapse lt patience top merged rest
    else
      let (merged, patience) := mergeRuns lt patience second top
      collapse lt patience merged third rest

/-- Merge all runs. -/
def toList (lt : α → α → Bool) (s : Pending α) : List α :=
  match s.below.map (·.1) with
  | [] => s.top
  | second :: rest => collapse lt s.patience s.top second rest

end Pending

/-- Sort a list by merging its runs. -/
def sortByRuns (lt : α → α → Bool) (xs : List α) : List α :=
  match runs lt xs with
  | [] => []
  | first :: others =>
    (others.foldl (Pending.push lt xs.length) ⟨first, [], Merging.worthwhile⟩).toList lt

variable {lt : α → α → Bool}

namespace Pending

/-- The waiting runs, first one first. -/
def joined (s : Pending α) : List α := (s.below.map (·.1)).reverse.flatten ++ s.top

/-- Every run that waits ascends. -/
structure IsSound (lt : α → α → Bool) (s : Pending α) : Prop where
  /-- The last run ascends. -/
  top : IsAscending lt s.top
  /-- The others ascend. -/
  below : ∀ run ∈ s.below.map (·.1), IsAscending lt run

private theorem sortStably_settle (h : IsWeakOrder lt) (power : Nat) (top : List α)
    (below : List (List α × Nat)) (patience : Nat) (hs : IsSound lt ⟨top, below, patience⟩) :
    IsSound lt (settle lt power top below patience) ∧
      ∀ rest, sortStably lt ((settle lt power top below patience).joined ++ rest) =
        sortStably lt ((Pending.mk top below patience).joined ++ rest) := by
  induction below generalizing top patience with
  | nil => exact ⟨hs, fun _ ↦ rfl⟩
  | cons next below ih =>
    obtain ⟨run, boundary⟩ := next
    rw [settle]
    split
    · have hrun := hs.below run (by simp)
      have hmerged := mergeRuns_eq h patience hrun hs.top
      have hs' : IsSound lt
          ⟨(mergeRuns lt patience run top).1, below, (mergeRuns lt patience run top).2⟩ := by
        refine ⟨?_, fun r hr ↦ hs.below r (by simpa using .inr (by simpa using hr))⟩
        rw [hmerged]
        exact isAscending_sortStably h _
      have hsettle := ih _ _ hs'
      refine ⟨hsettle.1, fun rest ↦ (hsettle.2 rest).trans ?_⟩
      simp only [joined, hmerged, List.map_cons, List.reverse_cons, List.flatten_append,
        List.flatten_singleton, List.append_assoc]
      refine sortStably_append_congr _ ?_
      rw [sortStably_sortStably_append h, List.append_assoc]
    · exact ⟨hs, fun _ ↦ rfl⟩

private theorem sortStably_push (h : IsWeakOrder lt) (size : Nat) {s : Pending α}
    (hs : IsSound lt s) {run : List α} (hrun : IsAscending lt run) :
    IsSound lt (s.push lt size run) ∧
      ∀ rest, sortStably lt ((s.push lt size run).joined ++ rest) =
        sortStably lt (s.joined ++ (run ++ rest)) := by
  have hsettle := sortStably_settle h (s.powerBefore size run) s.top s.below s.patience hs
  refine ⟨⟨hrun, fun r hr ↦ ?_⟩, fun rest ↦ ?_⟩
  · simp only [push, List.map_cons, List.mem_cons] at hr
    rcases hr with rfl | hr
    · exact hsettle.1.top
    · exact hsettle.1.below r hr
  · refine Eq.trans ?_ (hsettle.2 (run ++ rest))
    simp [push, joined]

private theorem sortStably_foldl_push (h : IsWeakOrder lt) (size : Nat) (others : List (List α))
    (hothers : ∀ run ∈ others, IsAscending lt run) {s : Pending α} (hs : IsSound lt s) :
    IsSound lt (others.foldl (push lt size) s) ∧
      sortStably lt (others.foldl (push lt size) s).joined =
        sortStably lt (s.joined ++ others.flatten) := by
  induction others generalizing s with
  | nil => exact ⟨hs, by simp⟩
  | cons run others ih =>
    have hpush := sortStably_push h size hs (hothers run (by simp))
    have hrest := ih (fun r hr ↦ hothers r (List.mem_cons_of_mem run hr)) hpush.1
    exact ⟨hrest.1, hrest.2.trans (hpush.2 others.flatten)⟩

private theorem collapse_eq (h : IsWeakOrder lt) (patience : Nat) {top second : List α}
    {rest : List (List α)} (htop : IsAscending lt top) (hsecond : IsAscending lt second)
    (hrest : ∀ run ∈ rest, IsAscending lt run) :
    collapse lt patience top second rest =
      sortStably lt (rest.reverse.flatten ++ (second ++ top)) := by
  induction rest generalizing patience top second with
  | nil => exact mergeRuns_eq h patience hsecond htop
  | cons third rest ih =>
    have hthird := hrest third (by simp)
    have hrest' : ∀ run ∈ rest, IsAscending lt run :=
      fun r hr ↦ hrest r (List.mem_cons_of_mem third hr)
    have hflat : (third :: rest).reverse.flatten ++ (second ++ top) =
        rest.reverse.flatten ++ (third ++ (second ++ top)) := by simp
    rw [collapse, hflat]
    split
    · have hmerged := mergeRuns_eq h patience hthird hsecond
      have ascending := isAscending_sortStably h (third ++ second)
      dsimp only
      rw [ih _ htop (hmerged ▸ ascending) hrest', hmerged]
      refine sortStably_append_congr _ ?_
      rw [sortStably_sortStably_append h, List.append_assoc]
    · have hmerged := mergeRuns_eq h patience hsecond htop
      have ascending := isAscending_sortStably h (second ++ top)
      dsimp only
      rw [ih _ (hmerged ▸ ascending) hthird hrest', hmerged]
      exact sortStably_append_congr _ (sortStably_append_congr _ (sortStably_eq_self ascending))

private theorem toList_eq (h : IsWeakOrder lt) {s : Pending α} (hs : IsSound lt s) :
    s.toList lt = sortStably lt s.joined := by
  rw [toList, joined]
  split
  · next hnone => simpa [hnone] using (sortStably_eq_self hs.top).symm
  · next second rest hsome =>
    have below := hsome ▸ hs.below
    rw [hsome, collapse_eq h s.patience hs.top (below second (by simp)) fun r hr ↦
      below r (List.mem_cons_of_mem second hr)]
    simp

end Pending

/-- In a weak order, sorting by runs is stable sorting. -/
theorem sortByRuns_eq_sortStably (h : IsWeakOrder lt) (xs : List α) :
    sortByRuns lt xs = sortStably lt xs := by
  have hruns : ∀ run ∈ runs lt xs, IsAscending lt run := fun _ ↦ isAscending_of_mem_runs h
  rw [← sortStably_flatten_runs h, sortByRuns]
  split
  · next hnone => rw [hnone]; rfl
  · next first others hsome =>
    rw [hsome] at hruns ⊢
    have hs : Pending.IsSound lt ⟨first, [], Merging.worthwhile⟩ :=
      ⟨hruns first (by simp), by simp⟩
    have hfold := Pending.sortStably_foldl_push h xs.length others
      (fun r hr ↦ hruns r (List.mem_cons_of_mem first hr)) hs
    rw [Pending.toList_eq h hfold.1, hfold.2]
    simp [Pending.joined]

end FlowChart
