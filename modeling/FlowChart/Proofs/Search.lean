import FlowChart.Search
import Mathlib.Data.List.Nodup
import Mathlib.Data.List.Perm.Subperm
import Mathlib.Logic.Relation
import Mathlib.Order.Bounds.Basic

/-!
# What a search reaches

A search reaches exactly the nodes to which steps lead from its start. It never misses one, because
every layer that is not empty takes at least one new node from a finite set, and the bound is the
size of that set: when the bound is used up, nothing is left to be seen. The layer in which a node
is found tells the least number of steps that lead to it.
-/

namespace FlowChart.Search

variable {ν : Type} [DecidableEq ν] {next : ν → List ν}

/-! ### What is fresh -/

/-- What is fresh depends only on which of the members have been seen. -/
theorem fresh_congr {seen seen' xs : List ν} (h : ∀ x ∈ xs, x ∈ seen ↔ x ∈ seen') :
    fresh seen xs = fresh seen' xs := by
  induction xs generalizing seen seen' with
  | nil => rfl
  | cons x xs ih =>
    have hx := h x List.mem_cons_self
    have hxs : ∀ y ∈ xs, y ∈ seen ↔ y ∈ seen' := fun y hy ↦ h y (List.mem_cons_of_mem x hy)
    by_cases hseen : x ∈ seen
    · rw [fresh, fresh, if_pos hseen, if_pos (hx.mp hseen), ih hxs]
    · rw [fresh, fresh, if_neg hseen, if_neg (mt hx.mpr hseen)]
      congr 1
      apply ih
      intro y hy
      rw [List.mem_cons, List.mem_cons, hxs y hy]

/-- Lists without common members do not make each other less fresh. -/
theorem fresh_append {seen xs ys : List ν} (h : xs.Disjoint ys) :
    fresh seen (xs ++ ys) = fresh seen xs ++ fresh seen ys := by
  induction xs generalizing seen with
  | nil => rfl
  | cons x xs ih =>
    obtain ⟨hx, hxs⟩ := List.disjoint_cons_left.mp h
    by_cases hseen : x ∈ seen
    · rw [List.cons_append, fresh, fresh, if_pos hseen, if_pos hseen, ih hxs]
    · have hys : fresh (x :: seen) ys = fresh seen ys := by
        apply fresh_congr
        intro y hy
        have hne : y ≠ x := fun heq ↦ hx (heq ▸ hy)
        simp [hne]
      rw [List.cons_append, fresh, fresh, if_neg hseen, if_neg hseen, ih hxs, hys, List.cons_append]

/-! ### What is reached -/

/-- The second node is a successor of the first. -/
def Step (next : ν → List ν) (a b : ν) : Prop := b ∈ next a

private theorem sound_layersFrom {start : ν} {bound : Nat} {seen layer : List ν}
    (h : ∀ x ∈ layer, Relation.ReflTransGen (Step next) start x) :
    ∀ x ∈ (layersFrom next bound seen layer).flatten,
      Relation.ReflTransGen (Step next) start x := by
  induction bound generalizing seen layer with
  | zero => simp [layersFrom]
  | succ bound ih =>
    cases layer with
    | nil => simp [layersFrom]
    | cons a rest =>
      intro x hx
      rw [layersFrom, List.flatten_cons, List.mem_append] at hx
      · rcases hx with hx | hx
        · exact h x hx
        · apply ih _ x hx
          intro y hy
          obtain ⟨z, hz, hyz⟩ := List.mem_flatMap.mp (mem_fresh.mp hy).1
          exact (h z hz).tail hyz
      · exact List.cons_ne_nil a rest

/-- A node is among the nodes seen and those of the layers to come. -/
private def Found (next : ν → List ν) (bound : Nat) (seen layer : List ν) (x : ν) : Prop :=
  x ∈ seen ∨ x ∈ (layersFrom next bound seen layer).flatten

/-- What a search has to know at each layer: nodes are seen once, all of them belong to a finite
set that steps do not leave, and the successors of what lies behind are seen. -/
private structure Front (next : ν → List ν) (nodes seen layer : List ν) : Prop where
  /-- Every node is seen once. -/
  nodup : (layer ++ seen).Nodup
  /-- Only nodes are seen. -/
  subset : layer ++ seen ⊆ nodes
  /-- Successors of earlier layers are seen. -/
  closed : ∀ a ∈ seen, ∀ b ∈ next a, b ∈ layer ++ seen

omit [DecidableEq ν] in
/-- When as many nodes are seen as there are, the layer is empty. -/
private theorem Front.layer_eq_nil {nodes seen layer : List ν} (h : Front next nodes seen layer)
    (hall : nodes.length ≤ seen.length) : layer = [] := by
  have hle := (List.subperm_of_subset h.nodup h.subset).length_le
  rw [List.length_append] at hle
  exact List.length_eq_zero_iff.mp (by omega)

private theorem Front.fresh {nodes seen layer : List ν} (h : Front next nodes seen layer)
    (hnext : ∀ a ∈ nodes, ∀ b ∈ next a, b ∈ nodes) :
    Front next nodes (layer ++ seen) (fresh (layer ++ seen) (layer.flatMap next)) where
  nodup := by
    rw [List.nodup_append']
    constructor
    · exact nodup_fresh _ _
    · constructor
      · exact h.nodup
      · intro a ha hb
        exact (mem_fresh.mp ha).2 hb
  subset := by
    rw [List.append_subset]
    constructor
    · intro b hb
      obtain ⟨a, ha, hab⟩ := List.mem_flatMap.mp (mem_fresh.mp hb).1
      exact hnext a (h.subset (List.mem_append_left _ ha)) b hab
    · exact h.subset
  closed a ha b hb := by
    by_cases hseen : b ∈ layer ++ seen
    · exact List.mem_append_right _ hseen
    · rcases List.mem_append.mp ha with ha | ha
      · apply List.mem_append_left
        exact mem_fresh.mpr ⟨List.mem_flatMap.mpr ⟨a, ha, hb⟩, hseen⟩
      · exact absurd (h.closed a ha b hb) hseen

private theorem Front.closed_layersFrom_nil {nodes seen : List ν} (h : Front next nodes seen [])
    (bound : Nat) :
    (∀ x ∈ [], Found next bound seen [] x) ∧
      ∀ a, Found next bound seen [] a → ∀ b ∈ next a, Found next bound seen [] b := by
  have hnone : layersFrom next bound seen [] = [] := by cases bound <;> rfl
  constructor
  · simp
  · intro a ha b hb
    rcases ha with ha | ha
    · exact .inl (h.closed a ha b hb)
    · simp [hnone] at ha

private theorem closed_layersFrom {nodes : List ν}
    (hnext : ∀ a ∈ nodes, ∀ b ∈ next a, b ∈ nodes) {bound : Nat} {seen layer : List ν}
    (h : Front next nodes seen layer) (hbound : nodes.length ≤ seen.length + bound) :
    (∀ x ∈ layer, Found next bound seen layer x) ∧
      ∀ a, Found next bound seen layer a → ∀ b ∈ next a, Found next bound seen layer b := by
  induction bound generalizing seen layer with
  | zero =>
    obtain rfl := h.layer_eq_nil hbound
    exact h.closed_layersFrom_nil 0
  | succ bound ih =>
    cases hlayer : layer with
    | nil =>
      subst hlayer
      exact h.closed_layersFrom_nil (bound + 1)
    | cons first rest =>
      rw [← hlayer]
      have hpos : 0 < layer.length := by simp [hlayer]
      have hsplit : layersFrom next (bound + 1) seen layer = layer ::
          layersFrom next bound (layer ++ seen)
            (Search.fresh (layer ++ seen) (layer.flatMap next)) := by
        rw [hlayer]
        rfl
      have hfound : ∀ x, Found next (bound + 1) seen layer x ↔ Found next bound (layer ++ seen)
          (Search.fresh (layer ++ seen) (layer.flatMap next)) x := by
        intro x
        unfold Found
        rw [hsplit, List.flatten_cons, List.mem_append, List.mem_append, ← or_assoc,
          or_comm (a := x ∈ seen)]
      have hrest := ih (h.fresh hnext) (by rw [List.length_append]; omega)
      constructor
      · exact fun x hx ↦ (hfound x).mpr (.inl (List.mem_append_left _ hx))
      · intro a ha b hb
        exact (hfound b).mpr (hrest.2 a ((hfound a).mp ha) b hb)

/-- Among the nodes of a finite set that steps do not leave, a search that is bounded by the size of
the set reaches exactly the nodes to which steps lead. -/
theorem mem_reached_iff {nodes : List ν} (hnext : ∀ a ∈ nodes, ∀ b ∈ next a, b ∈ nodes)
    {start : ν} (hstart : start ∈ nodes) {bound : Nat} (hbound : nodes.length ≤ bound) {x : ν} :
    x ∈ reached next bound start ↔ Relation.ReflTransGen (Step next) start x := by
  have hfront : Front next nodes [] [start] := ⟨by simp, by simpa using hstart, by simp⟩
  obtain ⟨hhere, hclosed⟩ := closed_layersFrom hnext hfront (by simpa using hbound)
  constructor
  · exact sound_layersFrom (fun y hy ↦ List.mem_singleton.mp hy ▸ .refl) x
  · intro h
    suffices hfound : Found next bound [] [start] x from hfound.resolve_left (by simp)
    induction h with
    | refl => exact hhere start (by simp)
    | tail _ hstep ih => exact hclosed _ ih _ hstep

/-! ### Distances -/

/-- So many steps lead from the start to a node. -/
inductive Steps (next : ν → List ν) (start : ν) : Nat → ν → Prop where
  /-- No step leads to the start itself. -/
  | none : Steps next start 0 start
  /-- One more step leads to a successor. -/
  | step {n : Nat} {a b : ν} : Steps next start n a → Step next a b → Steps next start (n + 1) b

/-- The least number of steps that lead from the start to a node. -/
def IsDistance (next : ν → List ν) (start : ν) (x : ν) (n : Nat) : Prop :=
  IsLeast {n | Steps next start n x} n

section

omit [DecidableEq ν]

variable {start x : ν} {m n : Nat}

/-- A node has one distance at most. -/
theorem IsDistance.unique (h : IsDistance next start x m) (h' : IsDistance next start x n) :
    m = n := IsLeast.unique h h'

/-- What steps lead to has a distance. -/
theorem Steps.exists_isDistance (h : Steps next start n x) :
    ∃ m, m ≤ n ∧ IsDistance next start x m := by
  induction n using Nat.strongRecOn with
  | ind n ih =>
    by_cases hless : ∃ m, m < n ∧ Steps next start m x
    · obtain ⟨m, hlt, hm⟩ := hless
      obtain ⟨k, hle, hk⟩ := ih m hlt hm
      exact ⟨k, hle.trans hlt.le, hk⟩
    · exact ⟨n, le_rfl, h, fun m hm ↦ not_lt.mp fun hlt ↦ hless ⟨m, hlt, hm⟩⟩

/-- What has a distance is what steps lead to. -/
theorem exists_isDistance_iff :
    (∃ n, IsDistance next start x n) ↔ Relation.ReflTransGen (Step next) start x := by
  constructor
  · rintro ⟨n, hsteps, -⟩
    induction hsteps with
    | none => exact .refl
    | step _ hstep ih => exact ih.tail hstep
  · intro h
    have hsteps : ∃ n, Steps next start n x := by
      induction h with
      | refl => exact ⟨0, .none⟩
      | tail _ hstep ih =>
        obtain ⟨n, hn⟩ := ih
        exact ⟨n + 1, hn.step hstep⟩
    obtain ⟨n, hn⟩ := hsteps
    obtain ⟨m, -, hm⟩ := hn.exists_isDistance
    exact ⟨m, hm⟩

/-- The last step of a shortest path comes from a node that is nearer by one. -/
theorem IsDistance.exists_step (h : IsDistance next start x (n + 1)) :
    ∃ a, IsDistance next start a n ∧ Step next a x := by
  obtain ⟨hsteps, hleast⟩ := h
  cases hsteps with
  | @step _ a _ ha hstep =>
    refine ⟨a, ⟨ha, fun m hm ↦ ?_⟩, hstep⟩
    exact Nat.le_of_succ_le_succ (hleast (Steps.step hm hstep))

/-- A node that is entered from one node only is further away by one. -/
theorem IsDistance.step {a : ν} (h : IsDistance next start a n) (hstep : Step next a x)
    (honly : ∀ y, Step next y x → y = a) (hne : x ≠ start) :
    IsDistance next start x (n + 1) := by
  refine ⟨Steps.step h.1 hstep, fun m hm ↦ ?_⟩
  cases hm with
  | none => exact absurd rfl hne
  | @step m y _ hy hlast =>
    obtain rfl := honly y hlast
    exact Nat.succ_le_succ (h.2 hy)

/-- On the way to a node there are nodes at every smaller distance. -/
theorem IsDistance.exists_of_le (h : IsDistance next start x n) (hle : m ≤ n) :
    ∃ y, IsDistance next start y m := by
  induction n generalizing x with
  | zero => exact ⟨x, Nat.le_zero.mp hle ▸ h⟩
  | succ n ih =>
    rcases Nat.le_succ_iff.mp hle with hle | rfl
    · obtain ⟨a, ha, -⟩ := h.exists_step
      exact ih ha hle
    · exact ⟨x, h⟩

/-- The layer holds the nodes at a distance, and the nodes seen before are those that are nearer. -/
private structure Shell (next : ν → List ν) (start : ν) (seen layer : List ν) (n : Nat) : Prop where
  /-- What the layer holds. -/
  layer_iff : ∀ x, x ∈ layer ↔ IsDistance next start x n
  /-- What has been seen. -/
  seen_iff : ∀ x, x ∈ seen ↔ ∃ m < n, IsDistance next start x m

private theorem Shell.mem_append_iff {seen layer : List ν} (h : Shell next start seen layer n) :
    x ∈ layer ++ seen ↔ ∃ m < n + 1, IsDistance next start x m := by
  rw [List.mem_append, h.layer_iff, h.seen_iff]
  constructor
  · rintro (hx | ⟨m, hm, hx⟩)
    · exact ⟨n, Nat.lt_add_one n, hx⟩
    · exact ⟨m, Nat.lt_add_right 1 hm, hx⟩
  · rintro ⟨m, hm, hx⟩
    rcases Nat.lt_succ_iff_lt_or_eq.mp hm with hm | rfl
    · exact .inr ⟨m, hm, hx⟩
    · exact .inl hx

private theorem Shell.layer_ne_nil {seen layer : List ν} {k : Nat}
    (h : Shell next start seen layer k) (hle : k ≤ n) (hx : IsDistance next start x n) :
    layer ≠ [] := by
  obtain ⟨y, hy⟩ := hx.exists_of_le hle
  exact List.ne_nil_of_mem ((h.layer_iff y).mpr hy)

end

private theorem Shell.fresh {start : ν} {seen layer : List ν} {n : Nat}
    (h : Shell next start seen layer n) :
    Shell next start (layer ++ seen) (fresh (layer ++ seen) (layer.flatMap next)) (n + 1) where
  layer_iff x := by
    rw [mem_fresh, h.mem_append_iff, List.mem_flatMap]
    constructor
    · rintro ⟨⟨a, ha, hstep⟩, hnew⟩
      have hsteps : Steps next start (n + 1) x := .step ((h.layer_iff a).mp ha).1 hstep
      obtain ⟨m, hle, hm⟩ := hsteps.exists_isDistance
      rcases Nat.lt_or_eq_of_le hle with hlt | rfl
      · exact absurd ⟨m, hlt, hm⟩ hnew
      · exact hm
    · intro hx
      obtain ⟨a, ha, hstep⟩ := hx.exists_step
      refine ⟨⟨a, (h.layer_iff a).mpr ha, hstep⟩, ?_⟩
      rintro ⟨m, hlt, hm⟩
      exact absurd (hm.unique hx) hlt.ne
  seen_iff _ := h.mem_append_iff

private theorem mem_zipIdx_layersFrom_iff {nodes : List ν}
    (hnext : ∀ a ∈ nodes, ∀ b ∈ next a, b ∈ nodes) {start : ν} {bound : Nat} {seen layer : List ν}
    {k : Nat} (hfront : Front next nodes seen layer) (hshell : Shell next start seen layer k)
    (hbound : nodes.length ≤ seen.length + bound) {x : ν} {n : Nat} :
    (∃ l, (l, n) ∈ (layersFrom next bound seen layer).zipIdx k ∧ x ∈ l) ↔
      k ≤ n ∧ IsDistance next start x n := by
  induction bound generalizing seen layer k with
  | zero =>
    have hnone : ¬ (k ≤ n ∧ IsDistance next start x n) := fun h ↦
      hshell.layer_ne_nil h.1 h.2 (hfront.layer_eq_nil hbound)
    simp [layersFrom, hnone]
  | succ bound ih =>
    cases hlayer : layer with
    | nil =>
      have hnone : ¬ (k ≤ n ∧ IsDistance next start x n) := fun h ↦
        hshell.layer_ne_nil h.1 h.2 hlayer
      simp [layersFrom, hnone]
    | cons first rest =>
      have hpos : 0 < layer.length := by simp [hlayer]
      have hlater := ih (hfront.fresh hnext) hshell.fresh (by rw [List.length_append]; omega)
      rw [layersFrom, ← hlayer, List.zipIdx_cons]
      · constructor
        · rintro ⟨l, hl, hx⟩
          rcases List.mem_cons.mp hl with hl | hl
          · cases hl
            exact ⟨le_rfl, (hshell.layer_iff x).mp hx⟩
          · obtain ⟨hle, hx⟩ := hlater.mp ⟨l, hl, hx⟩
            exact ⟨Nat.le_of_succ_le hle, hx⟩
        · rintro ⟨hle, hx⟩
          rcases Nat.lt_or_eq_of_le hle with hlt | rfl
          · obtain ⟨l, hl, hmem⟩ := hlater.mpr ⟨hlt, hx⟩
            exact ⟨l, List.mem_cons_of_mem _ hl, hmem⟩
          · exact ⟨layer, List.mem_cons_self, (hshell.layer_iff x).mpr hx⟩
      · exact List.cons_ne_nil first rest

/-- A search that is bounded by the size of a set that steps do not leave finds every node at its
distance from the start. -/
theorem mem_distances_iff {nodes : List ν} (hnext : ∀ a ∈ nodes, ∀ b ∈ next a, b ∈ nodes)
    {start : ν} (hstart : start ∈ nodes) {bound : Nat} (hbound : nodes.length ≤ bound) {x : ν}
    {n : Nat} : (x, n) ∈ distances next bound start ↔ IsDistance next start x n := by
  have hfront : Front next nodes [] [start] := ⟨by simp, by simpa using hstart, by simp⟩
  have hshell : Shell next start [] [start] 0 := by
    refine ⟨fun y ↦ ⟨?_, ?_⟩, by simp⟩
    · intro hy
      exact List.mem_singleton.mp hy ▸ ⟨.none, fun m _ ↦ m.zero_le⟩
    · rintro ⟨hy, -⟩
      cases hy
      exact List.mem_singleton_self start
  have hlayers := mem_zipIdx_layersFrom_iff hnext hfront hshell (x := x) (n := n)
    (by simpa using hbound)
  have hmem : (x, n) ∈ distances next bound start ↔
      ∃ l, (l, n) ∈ (layersFrom next bound [] [start]).zipIdx ∧ x ∈ l := by
    simp [distances, layers, and_comm]
  rw [hmem, hlayers, and_iff_right n.zero_le]

end FlowChart.Search
