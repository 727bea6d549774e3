import FlowChart.Sorting.Runs
import Mathlib.Data.List.Perm.Basic

/-!
# Sorting only moves members

An undefined number may come neither before nor after any other, and then nothing can be said about
the order that sorting by runs ends with. Every step still keeps the members, whatever the
comparison says: searches only decide where a list is cut, and merges only take from their runs.
-/

namespace FlowChart

open scoped List

variable {α : Type} (lt : α → α → Bool)

namespace Merging

/-- All members of a merge, merged or not. -/
def members (s : Merging α) : List α := s.merged ++ (s.short ++ s.long)

private theorem perm_takeShort (s : Merging α) (n : Nat) :
    (s.takeShort n).members ~ s.members := by
  calc (s.takeShort n).members
      = (s.short.take n).reverse ++ (s.merged ++ (s.short.drop n ++ s.long)) := by
        simp [members, takeShort]
    _ ~ s.short.take n ++ (s.merged ++ (s.short.drop n ++ s.long)) :=
        (List.reverse_perm _).append_right _
    _ ~ s.merged ++ (s.short.take n ++ (s.short.drop n ++ s.long)) :=
        List.perm_append_comm_assoc _ _ _
    _ = s.members := by
        rw [← List.append_assoc (s.short.take n), List.take_append_drop, members]

private theorem perm_takeLong (s : Merging α) (n : Nat) :
    (s.takeLong n).members ~ s.members := by
  calc (s.takeLong n).members
      = (s.long.take n).reverse ++ (s.merged ++ (s.short ++ s.long.drop n)) := by
        simp [members, takeLong]
    _ ~ s.long.take n ++ (s.merged ++ (s.short ++ s.long.drop n)) :=
        (List.reverse_perm _).append_right _
    _ ~ s.merged ++ (s.short ++ (s.long.take n ++ s.long.drop n)) :=
        (List.perm_append_comm_assoc _ _ _).trans
          ((List.perm_append_comm_assoc _ _ _).append_left _)
    _ = s.members := by rw [List.take_append_drop, members]

private theorem perm_walk (s : Merging α) (m n : Nat) :
    (s.walk lt m n).1.members ~ s.members := by
  rw [walk]
  split
  · split
    · exact perm_takeLong s 1
    · exact perm_takeShort s 1
  · exact .refl _

private theorem perm_passShort (side : Side) (s : Merging α) :
    (s.passShort side lt).2.members ~ s.members := by
  rw [passShort]
  split
  · dsimp only
    split
    · exact perm_takeShort s _
    · exact (perm_takeLong _ 1).trans (perm_takeShort s _)
  · exact .refl _

private theorem perm_passLong (side : Side) (s : Merging α) :
    (s.passLong side lt).2.members ~ s.members := by
  rw [passLong]
  split
  · dsimp only
    split
    · exact perm_takeLong s _
    · exact (perm_takeShort _ 1).trans (perm_takeLong s _)
  · exact .refl _

private theorem perm_gallop (side : Side) (s : Merging α) :
    (s.gallop side lt).1.members ~ s.members := by
  have hfront : ((s.passShort side lt).2.passLong side lt).2.members ~ s.members :=
    (perm_passLong lt side _).trans (perm_passShort lt side s)
  have hback : ((s.passLong side lt).2.passShort side lt).2.members ~ s.members :=
    (perm_passShort lt side _).trans (perm_passLong lt side s)
  cases side <;> simp only [gallop] <;> split
  · exact hfront
  · split <;> exact hfront
  · exact hback
  · split <;> exact hback

private theorem perm_run (side : Side) (bound : Nat) (gait : Gait) (s : Merging α) :
    (run side lt bound gait s).members ~ s.members := by
  induction bound generalizing gait s with
  | zero => exact .refl _
  | succ bound ih =>
    rw [run]
    split
    · exact .refl _
    · apply (ih _ _).trans
      cases gait with
      | walking m n => exact perm_walk lt s m n
      | galloping => exact perm_gallop lt side s

/-- What a merge ends with are the members of both runs. -/
theorem perm_toList_start (side : Side) (patience : Nat) (short long : List α) :
    (start side lt patience short long).toList ~ short ++ long := by
  calc (start side lt patience short long).toList
      ~ (start side lt patience short long).members := by
        rw [toList, members]
        exact (List.reverse_perm _).append List.perm_append_comm
    _ ~ (takeLong 1 ⟨[], short, long, patience⟩).members := perm_run lt side _ _ _
    _ ~ members ⟨[], short, long, patience⟩ := perm_takeLong _ 1
    _ = short ++ long := rfl

end Merging

private theorem perm_mergeOverlap (patience : Nat) (left backwards : List α) :
    (mergeOverlap lt patience left backwards).1 ~ left ++ backwards.reverse := by
  rw [mergeOverlap]
  split
  · exact Merging.perm_toList_start lt .front patience left backwards.reverse
  · calc (Merging.start .back (fun a b ↦ lt b a) patience backwards left.reverse).toList.reverse
        ~ (Merging.start .back (fun a b ↦ lt b a) patience backwards left.reverse).toList :=
          List.reverse_perm _
      _ ~ backwards ++ left.reverse := Merging.perm_toList_start _ .back patience _ _
      _ ~ left ++ backwards.reverse :=
          List.perm_append_comm.trans
            ((List.reverse_perm left).append (List.reverse_perm backwards).symm)

/-- Merging two runs keeps their members. -/
theorem perm_mergeRuns (patience : Nat) (xs ys : List α) :
    (mergeRuns lt patience xs ys).1 ~ xs ++ ys := by
  cases ys with
  | nil => simp [mergeRuns]
  | cons y rest =>
    rw [mergeRuns]
    dsimp only
    split
    · exact .refl _
    · split
      · exact .refl _
      · generalize hfront : reach .front _ xs = front
        generalize hbehind : reach .back _ (y :: rest).reverse = behind
        calc xs.take front ++ ((mergeOverlap lt patience (xs.drop front)
                ((y :: rest).reverse.drop behind)).1 ++ ((y :: rest).reverse.take behind).reverse)
            ~ xs.take front ++ ((xs.drop front ++ ((y :: rest).reverse.drop behind).reverse) ++
                ((y :: rest).reverse.take behind).reverse) :=
              ((perm_mergeOverlap lt patience _ _).append_right _).append_left _
          _ = (xs.take front ++ xs.drop front) ++ ((y :: rest).reverse.take behind ++
                (y :: rest).reverse.drop behind).reverse := by
              rw [List.reverse_append, List.append_assoc, List.append_assoc]
          _ = xs ++ y :: rest := by
              rw [List.take_append_drop, List.take_append_drop, List.reverse_reverse]

private theorem perm_insertHalving (xs : List α) (x : α) :
    insertHalving lt xs x ~ x :: xs := by
  rw [insertHalving]
  apply List.perm_middle.trans
  rw [List.take_append_drop]

private theorem perm_foldl_insertHalving (xs ys : List α) :
    ys.foldl (insertHalving lt) xs ~ xs ++ ys := by
  induction ys generalizing xs with
  | nil => simp
  | cons y ys ih =>
    exact (ih _).trans (((perm_insertHalving lt xs y).append_right ys).trans
      List.perm_middle.symm)

private theorem perm_firstRun (xs : List α) :
    (firstRun lt xs).1 ++ (firstRun lt xs).2 ~ xs := by
  cases xs with
  | nil => exact .refl _
  | cons x xs =>
    rw [firstRun]
    split
    · rw [List.cons_append, splitRun_append]
    · apply ((List.reverse_perm _).append_right _).trans
      rw [List.cons_append, splitRun_append]

private theorem perm_cutRun (least : Nat) (xs : List α) :
    (cutRun lt least xs).1 ++ (cutRun lt least xs).2 ~ xs := by
  rw [cutRun]
  dsimp only
  apply ((perm_foldl_insertHalving lt _ _).append_right _).trans
  rw [List.append_assoc, List.take_append_drop]
  exact perm_firstRun lt xs

private theorem length_cutRun_lt (least : Nat) (x : α) (xs : List α) :
    (cutRun lt least (x :: xs)).2.length < (x :: xs).length := by
  have hfirst := (perm_firstRun lt (x :: xs)).length_eq
  have hpos : 0 < (firstRun lt (x :: xs)).1.length := by
    rw [firstRun]
    split <;> simp
  simp only [cutRun, List.length_drop, List.length_append] at hfirst ⊢
  omega

private theorem perm_cutRuns (least bound : Nat) (xs : List α) (hbound : xs.length ≤ bound) :
    (cutRuns lt least bound xs).flatten ~ xs := by
  induction bound generalizing xs with
  | zero =>
    rw [List.eq_nil_of_length_eq_zero (Nat.le_zero.mp hbound)]
    simp [cutRuns]
  | succ bound ih =>
    cases xs with
    | nil => simp [cutRuns]
    | cons x xs =>
      have hlen := length_cutRun_lt lt least x xs
      rw [cutRuns, List.flatten_cons]
      exact ((ih _ (by omega)).append_left _).trans (perm_cutRun lt least (x :: xs))

namespace Pending

private theorem perm_settle (power : Nat) (top : List α) (below : List (List α × Nat))
    (patience : Nat) :
    (settle lt power top below patience).joined ~ (Pending.mk top below patience).joined := by
  induction below generalizing top patience with
  | nil => exact .refl _
  | cons next below ih =>
    obtain ⟨run, boundary⟩ := next
    have hmerged := perm_mergeRuns lt patience run top
    rw [settle]
    generalize mergeRuns lt patience run top = merged at hmerged ⊢
    split
    · apply (ih _ _).trans
      simp only [joined, List.map_cons, List.reverse_cons, List.flatten_append,
        List.flatten_singleton, List.append_assoc]
      exact hmerged.append_left _
    · exact .refl _

private theorem perm_push (size : Nat) (s : Pending α) (run : List α) :
    (s.push lt size run).joined ~ s.joined ++ run := by
  have hsettle := perm_settle lt (s.powerBefore size run) s.top s.below s.patience
  calc (s.push lt size run).joined
      = (settle lt (s.powerBefore size run) s.top s.below s.patience).joined ++ run := by
        simp [push, joined]
    _ ~ s.joined ++ run := hsettle.append_right run

private theorem perm_foldl_push (size : Nat) (others : List (List α)) (s : Pending α) :
    (others.foldl (push lt size) s).joined ~ s.joined ++ others.flatten := by
  induction others generalizing s with
  | nil => simp
  | cons run others ih =>
    apply (ih _).trans
    rw [List.flatten_cons, ← List.append_assoc]
    exact (perm_push lt size s run).append_right _

private theorem perm_collapse (patience : Nat) (top second : List α) (rest : List (List α)) :
    collapse lt patience top second rest ~ rest.reverse.flatten ++ (second ++ top) := by
  induction rest generalizing patience top second with
  | nil => exact perm_mergeRuns lt patience second top
  | cons third rest ih =>
    have hflat : (third :: rest).reverse.flatten ++ (second ++ top) =
        rest.reverse.flatten ++ (third ++ second ++ top) := by simp
    rw [collapse, hflat]
    split
    · exact (ih _ _ _).trans
        (((perm_mergeRuns lt patience third second).append_right top).append_left _)
    · rw [List.append_assoc]
      exact (ih _ _ _).trans
        (((perm_mergeRuns lt patience second top).append_left third).append_left _)

private theorem perm_toList (s : Pending α) : s.toList lt ~ s.joined := by
  rw [toList, joined]
  split
  · next hnone => simp [hnone]
  · next second rest hsome =>
    rw [hsome, List.reverse_cons, List.flatten_append, List.flatten_singleton, List.append_assoc]
    exact perm_collapse lt s.patience s.top second rest

end Pending

/-- Sorting by runs only moves members. -/
theorem perm_sortByRuns (xs : List α) : sortByRuns lt xs ~ xs := by
  have hruns : (runs lt xs).flatten ~ xs := perm_cutRuns lt _ _ xs (Nat.le_refl _)
  rw [sortByRuns]
  split
  · next hnone => simpa [hnone] using hruns
  · next first others hsome =>
    rw [hsome, List.flatten_cons] at hruns
    exact ((Pending.perm_toList lt _).trans (Pending.perm_foldl_push lt _ others _)).trans
      (by simpa [Pending.joined] using hruns)

end FlowChart
