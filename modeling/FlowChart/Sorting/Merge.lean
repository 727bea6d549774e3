import FlowChart.Sorting.Reach

/-!
# Merging two runs

Two neighbouring ascending runs are merged by walking through both, one member at a time, and by
galloping, when one run gives many members in a row: then whole stretches are taken, whose ends are
searched for. How many in a row that takes is the patience of the merge, which galloping that pays
lowers. What the runs have at their far ends is not touched, and the merge starts from the side of
the shorter one. In a weak order the result is what a stable sort makes of both runs.
-/

namespace FlowChart

variable {α : Type}

/-- How a merge moves on. -/
inductive Gait where
  /-- Member by member, given how many the shorter and the longer run gave in a row. -/
  | walking (fromShort fromLong : Nat)
  /-- Stretch by stretch. -/
  | galloping

/-- A merge of a shorter and a longer run, as far as it has come. -/
structure Merging (α : Type) where
  /-- What is merged, last first. -/
  merged : List α
  /-- What remains of the shorter run. -/
  short : List α
  /-- What remains of the longer run. -/
  long : List α
  /-- How many members in a row one run gives before the merge gallops. -/
  patience : Nat

namespace Merging

/-- The length of a stretch that pays for the search for its end. -/
def worthwhile : Nat := 7

/-- The last member of the shorter run goes behind the longer one, and so ends the merge. -/
def isOver (s : Merging α) : Bool := s.short.length ≤ 1 || s.long.isEmpty

/-- Take members of the shorter run. -/
def takeShort (n : Nat) (s : Merging α) : Merging α :=
  { s with merged := (s.short.take n).reverse ++ s.merged, short := s.short.drop n }

/-- Take members of the longer run. -/
def takeLong (n : Nat) (s : Merging α) : Merging α :=
  { s with merged := (s.long.take n).reverse ++ s.merged, long := s.long.drop n }

/-- All members, once the merge is over. -/
def toList (s : Merging α) : List α := s.merged.reverse ++ (s.long ++ s.short)

/-- How to move on when one run has given so many members in a row. -/
def gaitAfter (s : Merging α) (count : Nat) (walking : Gait) : Gait :=
  if s.patience ≤ count then .galloping else walking

/-- Take one member. -/
def walk (lt : α → α → Bool) (s : Merging α) (fromShort fromLong : Nat) : Merging α × Gait :=
  match s.short, s.long with
  | a :: _, b :: _ =>
    if lt b a then (s.takeLong 1, s.gaitAfter (fromLong + 1) (.walking 0 (fromLong + 1)))
    else (s.takeShort 1, s.gaitAfter (fromShort + 1) (.walking (fromShort + 1) 0))
  | _, _ => (s, .walking fromShort fromLong)

/-- Take the stretch of the shorter run that stays in front of the next member of the longer run,
and then that member. The length of the stretch comes first. -/
def passShort (side : Side) (lt : α → α → Bool) (s : Merging α) : Nat × Merging α :=
  match s.isOver, s.long with
  | false, b :: _ =>
    let count := reach side (fun a ↦ !lt b a) s.short
    let passed := s.takeShort count
    (count, if passed.isOver then passed else passed.takeLong 1)
  | _, _ => (0, s)

/-- Take the stretch of the longer run that comes before the next member of the shorter run, and
then that member. The length of the stretch comes first. -/
def passLong (side : Side) (lt : α → α → Bool) (s : Merging α) : Nat × Merging α :=
  match s.isOver, s.short with
  | false, a :: _ =>
    let count := reach side (fun b ↦ lt b a) s.long
    let passed := s.takeLong count
    (count, if passed.isOver then passed else passed.takeShort 1)
  | _, _ => (0, s)

/-- Take a stretch of each run. That of the run which stands in front goes first. -/
def gallop (side : Side) (lt : α → α → Bool) (s : Merging α) : Merging α × Gait :=
  let first := match side with
    | .front => s.passShort side lt
    | .back => s.passLong side lt
  let second := match side with
    | .front => first.2.passLong side lt
    | .back => first.2.passShort side lt
  let passed := second.2
  if passed.isOver then (passed, .galloping)
  else if worthwhile ≤ max first.1 second.1 then
    ({ passed with patience := max 1 (passed.patience - 1) }, .galloping)
  else ({ passed with patience := passed.patience + 1 }, .walking 0 0)

/-- Move on in a gait. -/
def move (side : Side) (lt : α → α → Bool) (s : Merging α) : Gait → Merging α × Gait
  | .walking fromShort fromLong => s.walk lt fromShort fromLong
  | .galloping => s.gallop side lt

/-- Move on until the merge is over. A `bound` on the number of members bounds the moves. -/
def run (side : Side) (lt : α → α → Bool) : Nat → Gait → Merging α → Merging α
  | 0, _, s => s
  | bound + 1, gait, s =>
    if s.isOver then s
    else
      let next := s.move side lt gait
      run side lt bound next.2 next.1

/-- Merge a shorter and a longer run, given that the first member of the longer one goes first and
the last one of the shorter one goes last. -/
def start (side : Side) (lt : α → α → Bool) (patience : Nat) (short long : List α) : Merging α :=
  run side lt (short.length + long.length) (.walking 0 0)
    (takeLong 1 { merged := [], short, long, patience })

end Merging

/-- Merge two runs that overlap from end to end, the second one given in reverse. The patience of
the merge may change. -/
def mergeOverlap (lt : α → α → Bool) (patience : Nat) (left backwards : List α) : List α × Nat :=
  if left.length ≤ backwards.length then
    let merging := Merging.start .front lt patience left backwards.reverse
    (merging.toList, merging.patience)
  else
    let merging := Merging.start .back (fun a b ↦ lt b a) patience backwards left.reverse
    (merging.toList.reverse, merging.patience)

/-- Merge two neighbouring runs. What the first one has in front of the second and what the second
one has behind the first stays where it is. -/
def mergeRuns (lt : α → α → Bool) (patience : Nat) (xs ys : List α) : List α × Nat :=
  match ys with
  | [] => (xs, patience)
  | y :: rest =>
    let inFront := reach .front (fun x ↦ !lt y x) xs
    match (xs.drop inFront).getLast? with
    | none => (xs ++ y :: rest, patience)
    | some x =>
      let backwards := (y :: rest).reverse
      let behind := reach .back (fun b ↦ !lt b x) backwards
      if (backwards.drop behind).isEmpty then (xs ++ y :: rest, patience)
      else
        let middle := mergeOverlap lt patience (xs.drop inFront) (backwards.drop behind)
        (xs.take inFront ++ (middle.1 ++ (backwards.take behind).reverse), middle.2)

namespace Merging

/-- What a merge comes to: the merged members, and what a stable sort makes of the others. -/
def outcome (lt : α → α → Bool) (s : Merging α) : List α :=
  s.merged.reverse ++ sortStably lt (s.short ++ s.long)

/-- What every merge keeps: both runs ascend, and the last member of the shorter one goes last. -/
structure IsSound (lt : α → α → Bool) (s : Merging α) : Prop where
  /-- The shorter run ascends. -/
  short : IsAscending lt s.short
  /-- The longer run ascends. -/
  long : IsAscending lt s.long
  /-- The longer run comes before the last member of the shorter one. -/
  closing : ∀ a ∈ s.short.getLast?, ∀ b ∈ s.long, lt b a = true

variable {lt : α → α → Bool} {s : Merging α}

private theorem IsSound.takeShort (hs : IsSound lt s) (n : Nat) : IsSound lt (s.takeShort n) where
  short := hs.short.sublist (List.drop_sublist n _)
  long := hs.long
  closing a ha := hs.closing a <| by
    simp only [Merging.takeShort, List.getLast?_drop] at ha
    split at ha
    · simp at ha
    · exact ha

private theorem IsSound.takeLong (hs : IsSound lt s) (n : Nat) : IsSound lt (s.takeLong n) where
  short := hs.short
  long := hs.long.sublist (List.drop_sublist n _)
  closing a ha b hb := hs.closing a ha b (List.mem_of_mem_drop hb)

private theorem outcome_takeShort (hs : IsSound lt s) {n : Nat}
    (hn : ∀ a ∈ s.short.take n, ∀ b ∈ s.long, lt b a = false) :
    (s.takeShort n).outcome lt = s.outcome lt := by
  have happ := List.take_append_drop n s.short
  have parts := List.pairwise_append.mp (happ.symm ▸ hs.short :
    IsAscending lt (s.short.take n ++ s.short.drop n))
  have hsort : sortStably lt (s.short ++ s.long) =
      s.short.take n ++ sortStably lt (s.short.drop n ++ s.long) := by
    rw [← congrArg (· ++ s.long) happ, List.append_assoc, sortStably_append, sortStably_eq_self]
    · exact parts.1
    · intro a ha b hb
      rcases List.mem_append.mp hb with hb | hb
      · exact parts.2.2 a ha b hb
      · exact hn a ha b hb
  simp [outcome, takeShort, hsort]

private theorem outcome_takeLong (h : IsWeakOrder lt) (hs : IsSound lt s) {n : Nat}
    (hn : ∀ b ∈ s.long.take n, ∀ a ∈ s.short, lt b a = true) :
    (s.takeLong n).outcome lt = s.outcome lt := by
  have happ := List.take_append_drop n s.long
  have parts := List.pairwise_append.mp (happ.symm ▸ hs.long :
    IsAscending lt (s.long.take n ++ s.long.drop n))
  have hsort : sortStably lt (s.short ++ s.long) =
      s.long.take n ++ sortStably lt (s.short ++ s.long.drop n) := by
    rw [← congrArg (s.short ++ ·) happ, sortStably_swap h _ _ _ hn, sortStably_append,
      sortStably_eq_self]
    · exact parts.1
    · intro b hb a ha
      rcases List.mem_append.mp ha with ha | ha
      · exact h.asymm b a (hn b hb a ha)
      · exact parts.2.2 b hb a ha
  simp [outcome, takeLong, hsort]

private theorem toList_eq_outcome (h : IsWeakOrder lt) (hs : IsSound lt s) (hover : s.isOver) :
    s.toList = s.outcome lt := by
  suffices sortStably lt (s.short ++ s.long) = s.long ++ s.short by simp [toList, outcome, this]
  simp only [isOver, Bool.or_eq_true, decide_eq_true_eq, List.isEmpty_iff] at hover
  rcases hover with hshort | hlong
  · cases hs' : s.short with
    | nil => simpa using sortStably_eq_self hs.long
    | cons a rest =>
      have hrest : rest = [] := by
        simpa [hs', List.length_eq_zero_iff] using hshort
      subst hrest
      have hclosing : ∀ b ∈ s.long, lt b a = true := hs.closing a (by simp [hs'])
      have hswap := sortStably_swap h [a] s.long [] (by simpa using hclosing)
      simp only [List.append_nil] at hswap
      rw [hswap, sortStably_append, sortStably_eq_self hs.long]
      · rfl
      · exact fun b hb x hx ↦ List.mem_singleton.mp hx ▸ h.asymm b a (hclosing b hb)
  · simpa [hlong] using sortStably_eq_self hs.short

private theorem walk_outcome (h : IsWeakOrder lt) (hs : IsSound lt s) (m n : Nat) :
    IsSound lt (s.walk lt m n).1 ∧ (s.walk lt m n).1.outcome lt = s.outcome lt := by
  rw [walk]
  split
  · next a as b bs hshort hlong =>
    have hshort' := List.pairwise_cons.mp (hshort ▸ hs.short : IsAscending lt (a :: as))
    have hlong' := List.pairwise_cons.mp (hlong ▸ hs.long : IsAscending lt (b :: bs))
    split
    · next hba =>
      refine ⟨hs.takeLong 1, outcome_takeLong h hs fun y hy x hx ↦ ?_⟩
      rw [hlong, List.take_one, List.head?_cons] at hy
      rw [hshort] at hx
      rw [List.mem_singleton.mp hy]
      rcases List.mem_cons.mp hx with rfl | hx
      · exact hba
      · exact h.lt_of_lt_of_not_lt hba (hshort'.1 x hx)
    · next hba =>
      have hba : lt b a = false := by simpa using hba
      refine ⟨hs.takeShort 1, outcome_takeShort hs fun x hx y hy ↦ ?_⟩
      rw [hshort, List.take_one, List.head?_cons] at hx
      rw [hlong] at hy
      rw [List.mem_singleton.mp hx]
      rcases List.mem_cons.mp hy with rfl | hy
      · exact hba
      · exact h.trans a b y hba (hlong'.1 y hy)
  · exact ⟨hs, rfl⟩

private theorem passShort_outcome (h : IsWeakOrder lt) (side : Side) (hs : IsSound lt s) :
    IsSound lt (s.passShort side lt).2 ∧
      (s.passShort side lt).2.outcome lt = s.outcome lt := by
  rw [passShort]
  split
  · next b bs _ hlong =>
    have hlong' := List.pairwise_cons.mp (hlong ▸ hs.long : IsAscending lt (b :: bs))
    have htake : (s.takeShort (reach side (fun a ↦ !lt b a) s.short)).outcome lt =
        s.outcome lt := by
      refine outcome_takeShort hs fun a ha y hy ↦ ?_
      have hba := hs.short.not_lt_of_mem_take_reach h side b a ha
      rcases List.mem_cons.mp (hlong ▸ hy) with rfl | hy
      · exact hba
      · exact h.trans a b y hba (hlong'.1 y hy)
    have hs' := hs.takeShort (reach side (fun a ↦ !lt b a) s.short)
    dsimp only
    split
    · exact ⟨hs', htake⟩
    · refine ⟨hs'.takeLong 1, (outcome_takeLong h hs' fun y hy a ha ↦ ?_).trans htake⟩
      rw [show (s.takeShort (reach side (fun a ↦ !lt b a) s.short)).long = b :: bs from hlong,
        List.take_one, List.head?_cons] at hy
      rw [List.mem_singleton.mp hy]
      exact hs.short.lt_of_mem_drop_reach h side b a ha
  · exact ⟨hs, rfl⟩

private theorem passLong_outcome (h : IsWeakOrder lt) (side : Side) (hs : IsSound lt s) :
    IsSound lt (s.passLong side lt).2 ∧
      (s.passLong side lt).2.outcome lt = s.outcome lt := by
  rw [passLong]
  split
  · next a as _ hshort =>
    have hshort' := List.pairwise_cons.mp (hshort ▸ hs.short : IsAscending lt (a :: as))
    have front := hs.long.isFrontal_lt h a
    have htake : (s.takeLong (reach side (fun b ↦ lt b a) s.long)).outcome lt =
        s.outcome lt := by
      refine outcome_takeLong h hs fun b hb x hx ↦ ?_
      have hba := front.eq_true_of_mem_take_reach side b hb
      rcases List.mem_cons.mp (hshort ▸ hx) with rfl | hx
      · exact hba
      · exact h.lt_of_lt_of_not_lt hba (hshort'.1 x hx)
    have hs' := hs.takeLong (reach side (fun b ↦ lt b a) s.long)
    dsimp only
    split
    · exact ⟨hs', htake⟩
    · refine ⟨hs'.takeShort 1, (outcome_takeShort hs' fun x hx b hb ↦ ?_).trans htake⟩
      rw [show (s.takeLong (reach side (fun b ↦ lt b a) s.long)).short = a :: as from hshort,
        List.take_one, List.head?_cons] at hx
      rw [List.mem_singleton.mp hx]
      exact front.eq_false_of_mem_drop_reach side b hb
  · exact ⟨hs, rfl⟩

private theorem gallop_outcome (h : IsWeakOrder lt) (side : Side) (hs : IsSound lt s) :
    IsSound lt (s.gallop side lt).1 ∧ (s.gallop side lt).1.outcome lt = s.outcome lt := by
  have hboth : ∀ {passed : Merging α},
      IsSound lt passed ∧ passed.outcome lt = s.outcome lt → ∀ patience : Nat,
        IsSound lt { passed with patience } ∧
          outcome lt { passed with patience } = s.outcome lt :=
    fun hp _ ↦ ⟨⟨hp.1.short, hp.1.long, hp.1.closing⟩, hp.2⟩
  have hfront := passShort_outcome h side hs
  have hfront' := passLong_outcome h side hfront.1
  have hback := passLong_outcome h side hs
  have hback' := passShort_outcome h side hback.1
  cases side <;> simp only [gallop] <;> split
  · exact ⟨hfront'.1, hfront'.2.trans hfront.2⟩
  · split <;> exact hboth ⟨hfront'.1, hfront'.2.trans hfront.2⟩ _
  · exact ⟨hback'.1, hback'.2.trans hback.2⟩
  · split <;> exact hboth ⟨hback'.1, hback'.2.trans hback.2⟩ _

private theorem move_outcome (h : IsWeakOrder lt) (side : Side) (hs : IsSound lt s)
    (gait : Gait) :
    IsSound lt (s.move side lt gait).1 ∧ (s.move side lt gait).1.outcome lt = s.outcome lt := by
  cases gait with
  | walking m n => exact walk_outcome h hs m n
  | galloping => exact gallop_outcome h side hs

private theorem run_outcome (h : IsWeakOrder lt) (side : Side) (bound : Nat) (gait : Gait)
    (hs : IsSound lt s) :
    IsSound lt (run side lt bound gait s) ∧
      (run side lt bound gait s).outcome lt = s.outcome lt := by
  induction bound generalizing gait s with
  | zero => exact ⟨hs, rfl⟩
  | succ bound ih =>
    rw [run]
    split
    · exact ⟨hs, rfl⟩
    · have hmove := move_outcome h side hs gait
      have hrun := ih (s.move side lt gait).2 hmove.1
      exact ⟨hrun.1, hrun.2.trans hmove.2⟩

/-- How many members remain. -/
def remaining (s : Merging α) : Nat := s.short.length + s.long.length

private theorem walk_remaining (hover : s.isOver = false) (m n : Nat) :
    (s.walk lt m n).1.remaining < s.remaining := by
  simp only [isOver, Bool.or_eq_false_iff, decide_eq_false_iff_not, List.isEmpty_eq_false_iff,
    ← List.length_pos_iff] at hover
  rw [walk]
  split
  · split <;> simp only [remaining, takeLong, takeShort, List.length_drop] <;> omega
  · next hnone =>
    cases hshort : s.short with
    | nil => simp [hshort] at hover
    | cons a as =>
      cases hlong : s.long with
      | nil => simp [hlong] at hover
      | cons b bs => exact absurd hlong (hnone a as b bs hshort)

private theorem passShort_of_isOver (hover : s.isOver) (side : Side) :
    s.passShort side lt = (0, s) := by
  rw [passShort]
  split
  · next h _ => simp [hover] at h
  · rfl

private theorem passLong_of_isOver (hover : s.isOver) (side : Side) :
    s.passLong side lt = (0, s) := by
  rw [passLong]
  split
  · next h _ => simp [hover] at h
  · rfl

private theorem passShort_remaining (hover : s.isOver = false) (side : Side) :
    (s.passShort side lt).2.isOver ∨ (s.passShort side lt).2.remaining < s.remaining := by
  have hover' := hover
  simp only [isOver, Bool.or_eq_false_iff, decide_eq_false_iff_not, List.isEmpty_eq_false_iff,
    ← List.length_pos_iff] at hover'
  rw [passShort]
  split
  · dsimp only
    split
    · next hpassed => exact .inl hpassed
    · refine .inr ?_
      simp only [remaining, takeLong, takeShort, List.length_drop]
      omega
  · next hnone =>
    cases hlong : s.long with
    | nil => simp [hlong] at hover'
    | cons b bs => exact absurd hlong (hnone b bs hover)

private theorem passLong_remaining (hover : s.isOver = false) (side : Side) :
    (s.passLong side lt).2.isOver ∨ (s.passLong side lt).2.remaining < s.remaining := by
  have hover' := hover
  simp only [isOver, Bool.or_eq_false_iff, decide_eq_false_iff_not, List.isEmpty_eq_false_iff,
    ← List.length_pos_iff] at hover'
  rw [passLong]
  split
  · dsimp only
    split
    · next hpassed => exact .inl hpassed
    · refine .inr ?_
      simp only [remaining, takeLong, takeShort, List.length_drop]
      omega
  · next hnone =>
    cases hshort : s.short with
    | nil => simp [hshort] at hover'
    | cons a as => exact absurd hshort (hnone a as hover)

private theorem gallop_remaining (hover : s.isOver = false) (side : Side) :
    (s.gallop side lt).1.isOver ∨ (s.gallop side lt).1.remaining < s.remaining := by
  have passed : ∀ (first : Nat × Merging α) (second : Nat × Merging α),
      (first.2.isOver ∨ first.2.remaining < s.remaining) →
      (first.2.isOver → second = (0, first.2)) →
      (first.2.isOver = false → second.2.isOver ∨ second.2.remaining < first.2.remaining) →
      second.2.isOver ∨ second.2.remaining < s.remaining := by
    intro first second hfirst hskip hsecond
    cases hf : first.2.isOver with
    | true => exact .inl (by rw [hskip hf]; exact hf)
    | false =>
      have hlt := hfirst.resolve_left (by simp [hf])
      exact (hsecond hf).imp_right fun hs ↦ Nat.lt_trans hs hlt
  have hfront := passed (s.passShort side lt) ((s.passShort side lt).2.passLong side lt)
    (passShort_remaining hover side) (passLong_of_isOver · side) (passLong_remaining · side)
  have hback := passed (s.passLong side lt) ((s.passLong side lt).2.passShort side lt)
    (passLong_remaining hover side) (passShort_of_isOver · side) (passShort_remaining · side)
  cases side <;> simp only [gallop] <;> split
  · next hover => exact .inl hover
  · split <;> exact hfront
  · next hover => exact .inl hover
  · split <;> exact hback

private theorem move_remaining (hover : s.isOver = false) (side : Side) (gait : Gait) :
    (s.move side lt gait).1.isOver ∨ (s.move side lt gait).1.remaining < s.remaining := by
  cases gait with
  | walking m n => exact .inr (walk_remaining hover m n)
  | galloping => exact gallop_remaining hover side

private theorem run_of_isOver (hover : s.isOver) (side : Side) (bound : Nat) (gait : Gait) :
    run side lt bound gait s = s := by
  cases bound with
  | zero => rfl
  | succ bound => rw [run, if_pos hover]

private theorem isOver_run (side : Side) (bound : Nat) (gait : Gait)
    (hbound : s.remaining ≤ bound) : (run side lt bound gait s).isOver := by
  induction bound generalizing gait s with
  | zero =>
    have hlen : s.short.length = 0 := by simp only [remaining] at hbound; omega
    simp [run, isOver, hlen]
  | succ bound ih =>
    rw [run]
    cases hover : s.isOver with
    | true => simpa using hover
    | false =>
      simp only [Bool.false_eq_true, if_false]
      have hmove : (s.move side lt gait).1.isOver ∨
          (s.move side lt gait).1.remaining < s.remaining := move_remaining hover side gait
      rcases hmove with hmove | hmove
      · rw [run_of_isOver hmove]
        exact hmove
      · exact ih _ (by omega)

private theorem toList_start (h : IsWeakOrder lt) (side : Side) (patience : Nat)
    {short : List α} {b : α} {rest : List α} (hshort : IsAscending lt short)
    (hlong : IsAscending lt (b :: rest)) (opening : ∀ a ∈ short, lt b a = true)
    (closing : ∀ a ∈ short.getLast?, ∀ y ∈ b :: rest, lt y a = true) :
    (start side lt patience short (b :: rest)).toList = sortStably lt (short ++ b :: rest) := by
  have hs : IsSound lt ⟨[], short, b :: rest, patience⟩ := ⟨hshort, hlong, closing⟩
  have hfirst : outcome lt (takeLong 1 ⟨[], short, b :: rest, patience⟩) =
      sortStably lt (short ++ b :: rest) :=
    outcome_takeLong h hs fun y hy a ha ↦ by
      rw [List.take_one, List.head?_cons] at hy
      exact List.mem_singleton.mp hy ▸ opening a ha
  have hrun := run_outcome h side (short.length + (b :: rest).length) (.walking 0 0)
    (hs.takeLong 1)
  have hover : (start side lt patience short (b :: rest)).isOver := isOver_run side _ _ (by
    simp only [remaining, takeLong, List.length_drop]
    omega)
  exact (toList_eq_outcome h hrun.1 hover).trans (hrun.2.trans hfirst)

end Merging

variable {lt : α → α → Bool}

/-- To sort the reverse of a list by the opposite order is to reverse the sorted list. -/
theorem sortStably_reverse (h : IsWeakOrder lt) (xs : List α) :
    sortStably (fun a b ↦ lt b a) xs.reverse = (sortStably lt xs).reverse := by
  induction xs with
  | nil => rfl
  | cons x xs ih =>
    have sorted := isAscending_sortStably h xs
    have front := sorted.isFrontal_lt h x
    have happ := List.takeWhile_append_dropWhile (p := fun y ↦ lt y x) (l := sortStably lt xs)
    generalize hb : (sortStably lt xs).takeWhile (fun y ↦ lt y x) = before at happ
    generalize hd : (sortStably lt xs).dropWhile (fun y ↦ lt y x) = behind at happ
    have hbefore : ∀ y ∈ before, lt y x = true := by
      intro y hy
      exact List.all_eq_true.mp List.all_takeWhile y (hb ▸ hy)
    have hbehind : ∀ y ∈ behind, lt y x = false := by
      intro y hy
      exact front.eq_false_of_mem_dropWhile y (hd ▸ hy)
    have whole : IsAscending lt (before ++ behind) := happ ▸ sorted
    have parts := List.pairwise_append.mp whole
    have ascending : IsAscending lt (before ++ ([x] ++ behind)) := by
      refine List.pairwise_append.mpr
        ⟨parts.1, List.pairwise_cons.mpr ⟨hbehind, parts.2.1⟩, fun a ha b hb ↦ ?_⟩
      rcases List.mem_cons.mp hb with rfl | hb
      · exact h.asymm a b (hbefore a ha)
      · exact parts.2.2 a ha b hb
    have hsorted : sortStably lt (x :: xs) = before ++ ([x] ++ behind) := by
      have hx := sortStably_append_congr [x] (sortStably_eq_self sorted)
      rw [← happ, sortStably_swap h [x] before behind (by simpa using hbefore),
        sortStably_eq_self ascending] at hx
      exact hx.symm
    have reversed : IsAscending (fun a b ↦ lt b a) (behind.reverse ++ before.reverse) := by
      rw [← List.reverse_append]
      exact List.pairwise_reverse.mpr whole
    have hreversed := sortStably_concat h.opposite reversed
      (fun y hy ↦ hbehind y (List.mem_reverse.mp hy))
      (fun y hy ↦ hbefore y (List.mem_reverse.mp hy))
    rw [hsorted, List.reverse_cons, ← sortStably_sortStably_append h.opposite, ih, ← happ]
    simpa using hreversed

private theorem mergeOverlap_eq (h : IsWeakOrder lt) (patience : Nat) {left backwards : List α}
    (hleft : IsAscending lt left) (hright : IsAscending lt backwards.reverse)
    (hne : left ≠ []) (hne' : backwards ≠ [])
    (opening : ∀ b ∈ backwards.getLast?, ∀ a ∈ left, lt b a = true)
    (closing : ∀ a ∈ left.getLast?, ∀ b ∈ backwards, lt b a = true) :
    (mergeOverlap lt patience left backwards).1 = sortStably lt (left ++ backwards.reverse) := by
  rw [mergeOverlap]
  split
  · cases hb : backwards.reverse with
    | nil => exact absurd (List.reverse_eq_nil_iff.mp hb) hne'
    | cons b rest =>
      refine Merging.toList_start h .front patience hleft (hb ▸ hright) (opening b ?_) ?_
      · rw [List.getLast?_eq_head?_reverse, hb]
        rfl
      · exact fun a ha y hy ↦ closing a ha y (List.mem_reverse.mp (hb ▸ hy))
  · cases ha : left.reverse with
    | nil => exact absurd (List.reverse_eq_nil_iff.mp ha) hne
    | cons a rest =>
      have hback := Merging.toList_start h.opposite .back patience
        (List.pairwise_reverse.mp hright) (ha ▸ List.pairwise_reverse.mpr hleft)
        (closing a (by rw [List.getLast?_eq_head?_reverse, ha]; rfl))
        (fun b hb y hy ↦ opening b hb y (List.mem_reverse.mp (ha ▸ hy)))
      have hreverse := sortStably_reverse h (left ++ backwards.reverse)
      rw [List.reverse_append, List.reverse_reverse, ha, ← hback] at hreverse
      exact List.reverse_eq_iff.mpr hreverse

private theorem not_lt_of_getLast? (h : IsWeakOrder lt) {xs : List α} (hx : IsAscending lt xs)
    {x : α} (hlast : xs.getLast? = some x) : ∀ a ∈ xs, lt x a = false := by
  obtain ⟨front, rfl⟩ := List.getLast?_eq_some_iff.mp hlast
  intro a ha
  rcases List.mem_append.mp ha with ha | ha
  · exact (List.pairwise_append.mp hx).2.2 a ha x (by simp)
  · rw [List.mem_singleton.mp ha]
    cases hxx : lt x x with
    | false => rfl
    | true => simpa [hxx] using h.asymm x x hxx

/-- If the second run starts before all members of the first one, what it has behind the last of them
is left out of the merge. -/
private theorem mergeOverlap_drop_reach (h : IsWeakOrder lt) (patience : Nat) {left ys : List α}
    {x y : α} (hleft : IsAscending lt left) (hy : IsAscending lt ys)
    (closing : left.getLast? = some x) (opening : ys.head? = some y)
    (hbefore : ∀ a ∈ left, lt y a = true) :
    let behind := reach .back (fun b ↦ !lt b x) ys.reverse
    ys.reverse.drop behind ≠ [] ∧
      (mergeOverlap lt patience left (ys.reverse.drop behind)).1 ++ (ys.reverse.take behind).reverse =
        sortStably lt (left ++ ys) := by
  have hreverse : IsAscending (fun a b ↦ lt b a) ys.reverse := List.pairwise_reverse.mpr hy
  have hys := List.take_append_drop (reach .back (fun b ↦ !lt b x) ys.reverse) ys.reverse
  have hbehind := hreverse.not_lt_of_mem_take_reach h.opposite .back x
  have hright := hreverse.lt_of_mem_drop_reach h.opposite .back x
  intro n
  generalize ys.reverse.take _ = behind at hys hbehind ⊢
  generalize ys.reverse.drop _ = right at hys hright ⊢
  have hend : (behind ++ right).getLast? = some y := by
    rw [hys, List.getLast?_reverse, opening]
  have hne : right ≠ [] := by
    rintro rfl
    rw [List.append_nil] at hend
    have hnot := hbehind y (List.mem_of_getLast? hend)
    rw [hbefore x (List.mem_of_getLast? closing)] at hnot
    cases hnot
  rw [List.getLast?_append, Option.or_of_isSome (by simpa using hne)] at hend
  have hys' : ys = right.reverse ++ behind.reverse := by
    rw [← List.reverse_append, hys, List.reverse_reverse]
  have parts := List.pairwise_append.mp (hys' ▸ hy)
  have hmiddle := mergeOverlap_eq h patience hleft parts.1 (by rintro rfl; simp at closing) hne
    (fun b hb a ha ↦ by
      rw [hend] at hb
      exact Option.mem_some.mp hb ▸ hbefore a ha)
    (fun a ha b hb ↦ by
      rw [closing] at ha
      exact Option.mem_some.mp ha ▸ hright b hb)
  have last := not_lt_of_getLast? h hleft closing
  have past : ∀ a ∈ left ++ right.reverse, ∀ b ∈ behind.reverse, lt b a = false := by
    intro a ha b hb
    rcases List.mem_append.mp ha with ha | ha
    · exact h.trans a x b (last a ha) (hbehind b (List.mem_reverse.mp hb))
    · exact parts.2.2 a ha b hb
  refine ⟨hne, ?_⟩
  rw [hmiddle, hys', ← List.append_assoc, sortStably_append past, sortStably_eq_self parts.2.1]

/-- Merging two ascending runs is sorting them together. -/
theorem mergeRuns_eq (h : IsWeakOrder lt) (patience : Nat) {xs ys : List α}
    (hx : IsAscending lt xs) (hy : IsAscending lt ys) :
    (mergeRuns lt patience xs ys).1 = sortStably lt (xs ++ ys) := by
  cases ys with
  | nil => simpa [mergeRuns] using (sortStably_eq_self hx).symm
  | cons y rest =>
    have hy' := List.pairwise_cons.mp hy
    have hxs := List.take_append_drop (reach .front (fun x ↦ !lt y x) xs) xs
    have hbefore := hx.not_lt_of_mem_take_reach h .front y
    have hleft := hx.lt_of_mem_drop_reach h .front y
    rw [mergeRuns]
    dsimp only
    generalize xs.take _ = before at hxs hbefore ⊢
    generalize xs.drop _ = left at hxs hleft ⊢
    have parts := List.pairwise_append.mp (hxs.symm ▸ hx : IsAscending lt (before ++ left))
    have past : ∀ a ∈ before, ∀ b ∈ y :: rest, lt b a = false := by
      intro a ha b hb
      rcases List.mem_cons.mp hb with rfl | hb
      · exact hbefore a ha
      · exact h.trans a y b (hbefore a ha) (hy'.1 b hb)
    split
    · next hlast =>
      rw [List.getLast?_eq_none_iff.mp hlast, List.append_nil] at hxs
      exact (sortStably_eq_self (List.pairwise_append.mpr ⟨hx, hy, hxs ▸ past⟩)).symm
    · next x hlast =>
      obtain ⟨hne, hmiddle⟩ :=
        mergeOverlap_drop_reach h patience parts.2.1 hy hlast List.head?_cons hleft
      have whole : ∀ a ∈ before, ∀ b ∈ left ++ y :: rest, lt b a = false := by
        intro a ha b hb
        rcases List.mem_append.mp hb with hb | hb
        · exact parts.2.2 a ha b hb
        · exact past a ha b hb
      rw [if_neg (by simpa using hne)]
      dsimp only
      rw [hmiddle, ← hxs, List.append_assoc, sortStably_append whole, sortStably_eq_self parts.1]

end FlowChart
