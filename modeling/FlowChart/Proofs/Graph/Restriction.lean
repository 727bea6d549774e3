import FlowChart.Proofs.Graph.Coherence

/-!
# Restrictions compose

To restrict a graph to one set of ids after another is to restrict it once, to what is in all of
them: the lists of successors and predecessors, the marks of exits and the edges come out the same,
in whatever order the sets are taken. So pruning a second time changes nothing. All that is left can
be reached again from the same entry, even if the lists and the edges of the graph disagree.
-/

namespace FlowChart

/-- A block within one set of ids and then within another one is the block within both. -/
theorem Block.restrict_restrict (b : Block) (keep keep' : String → Bool) :
    (b.restrict keep).restrict keep' = b.restrict fun id ↦ keep id && keep' id := by
  have hlists : ∀ xs : List String,
      (xs.filter keep).filter keep' = xs.filter fun id ↦ keep id && keep' id := by
    intro xs
    rw [List.filter_filter]
    simp only [Bool.and_comm]
  simp only [Block.restrict, hlists]

namespace Graph

variable {g : Graph} {entry : Block}

/-- A graph within one set of ids and then within another one is the graph within both. -/
theorem restrict_restrict (g : Graph) (keep keep' : String → Bool) :
    (g.restrict keep).restrict keep' = g.restrict fun id ↦ keep id && keep' id := by
  have hblocks : ((g.restrict keep).restrict keep').blocks =
      (g.restrict fun id ↦ keep id && keep' id).blocks := by
    simp only [restrict, List.filter_map, List.map_map, List.filter_filter]
    refine congrArg₂ List.map (funext fun b ↦ b.restrict_restrict keep keep') ?_
    exact List.filter_congr fun b _ ↦ Bool.and_comm _ _
  have hedges : ((g.restrict keep).restrict keep').edges =
      (g.restrict fun id ↦ keep id && keep' id).edges := by
    simp only [restrict, List.filter_filter]
    refine List.filter_congr fun e _ ↦ ?_
    ac_rfl
  exact congrArg₂ Graph.mk hblocks hedges

/-- A restricted graph stays as it is within a larger set of ids. -/
theorem restrict_restrict_of_imp {keep keep' : String → Bool}
    (h : ∀ id, keep id = true → keep' id = true) :
    (g.restrict keep).restrict keep' = g.restrict keep := by
  have hboth : (fun id ↦ keep id && keep' id) = keep := by
    funext id
    rw [Bool.eq_iff_iff, Bool.and_eq_true, and_iff_left_iff_imp]
    exact h id
  rw [restrict_restrict, hboth]

/-- A graph that is restricted again and again is restricted to what is in all sets. -/
theorem narrow_within (g : Graph) (keep : String → Bool) (keeps : List (String → Bool)) :
    (g.restrict keep).narrow (keeps.map .within) =
      g.restrict fun id ↦ keep id && keeps.all fun keep' ↦ keep' id := by
  induction keeps generalizing keep with
  | nil =>
    simp only [List.all_nil, Bool.and_true]
    rfl
  | cons keep' rest ih =>
    have hstep : (g.restrict keep).narrow ((keep' :: rest).map .within) =
        ((g.restrict keep).restrict keep').narrow (rest.map .within) := rfl
    rw [hstep, restrict_restrict, ih]
    simp only [List.all_cons, Bool.and_assoc]

/-- Without an entry nothing is left. -/
theorem prune_of_none (h : g.entry? = none) : g.prune = ⟨.empty, none, g.ids⟩ := by
  rw [prune, h]

/-- With an entry what a search reaches is left. -/
theorem prune_of_some (h : g.entry? = some entry) :
    g.prune = ⟨g.restrict (g.reachableFrom entry.id).contains, some entry.id,
      g.ids.filter fun id ↦ !(g.reachableFrom entry.id).contains id⟩ := by
  rw [prune, h]

/-- What a search reaches is reached again once the rest is dropped. -/
theorem mem_reachableFrom_prune (h : g.entry? = some entry) {id : String}
    (hid : id ∈ g.reachableFrom entry.id) : id ∈ g.prune.graph.reachableFrom entry.id := by
  obtain ⟨kept, hkeeps⟩ := exists_keeps_prune h
  have hstart : entry.id ∈ g.ids := List.mem_map_of_mem (List.mem_of_find?_eq_some h)
  have hleft : ∀ id, id ∈ g.prune.graph.ids ↔ id ∈ g.reachableFrom entry.id := by
    intro id
    rw [hkeeps.mem_ids_iff h, hkeeps.kept_iff, mem_reachableFrom_iff hstart]
  have hself : entry.id ∈ g.prune.graph.ids :=
    (hleft entry.id).mpr ((mem_reachableFrom_iff hstart).mpr .refl)
  rw [mem_reachableFrom_iff hself]
  exact hkeeps.reflTransGen_flows h ((hleft id).mpr hid)

/-- Pruning twice is pruning once: the entry is the same, and nothing is removed the second time. -/
theorem prune_prune (g : Graph) :
    g.prune.graph.prune = ⟨g.prune.graph, g.entry?.map (·.id), []⟩ := by
  cases h : g.entry? with
  | none =>
    rw [prune_of_none h]
    rfl
  | some entry =>
    have hstart : entry.id ∈ g.ids := List.mem_map_of_mem (List.mem_of_find?_eq_some h)
    have hself : (g.reachableFrom entry.id).contains entry.id = true :=
      List.contains_iff_mem.mpr ((mem_reachableFrom_iff hstart).mpr .refl)
    have hagain : ∀ id, (g.reachableFrom entry.id).contains id = true →
        (g.prune.graph.reachableFrom entry.id).contains id = true := by
      intro id hid
      exact List.contains_iff_mem.mpr
        (mem_reachableFrom_prune h (List.contains_iff_mem.mp hid))
    rw [prune_of_some h] at hagain ⊢
    rw [prune_of_some (entry?_restrict h hself)]
    have hgraph := restrict_restrict_of_imp (g := g) hagain
    have hremoved : (g.restrict (g.reachableFrom entry.id).contains).ids.filter (fun id ↦
        !((g.restrict (g.reachableFrom entry.id).contains).reachableFrom entry.id).contains id) =
          [] := by
      rw [ids_restrict, List.filter_eq_nil_iff]
      intro id hid
      simp only [hagain id (List.mem_filter.mp hid).2, Bool.not_true, Bool.false_eq_true,
        not_false_eq_true]
    exact congrArg₂ (Pruned.mk · (some entry.id) ·) hgraph hremoved

/-- Restrictions of a graph compose to the restriction to what is in all sets, so that neither their
order nor a repetition matters, and pruning what is left after pruning changes nothing. -/
theorem restrictions_compose (g : Graph) :
    (∀ keep keep', (g.restrict keep).restrict keep' = g.restrict fun id ↦ keep id && keep' id) ∧
    (∀ keep (keeps : List (String → Bool)), (g.restrict keep).narrow (keeps.map .within) =
      g.restrict fun id ↦ keep id && keeps.all fun keep' ↦ keep' id) ∧
    (∀ keep keep', (g.restrict keep).restrict keep' = (g.restrict keep').restrict keep) ∧
    (∀ keep, (g.restrict keep).restrict keep = g.restrict keep) ∧
    g.prune.graph.prune = ⟨g.prune.graph, g.entry?.map (·.id), []⟩ := by
  refine ⟨g.restrict_restrict, narrow_within g, fun keep keep' ↦ ?_, fun keep ↦ ?_, g.prune_prune⟩
  · rw [restrict_restrict, restrict_restrict]
    simp only [Bool.and_comm]
  · exact restrict_restrict_of_imp fun _ hid ↦ hid

end Graph

end FlowChart
