import FlowChart.Proofs.Distances
import FlowChart.Proofs.Graph.Coherence

/-!
# No block above its distance

A level is found in one of two ways: from the predecessors of lower rank or, without any, from the
distance. Whichever it is, the level of a block is its distance from the entry at least, as long as
the predecessors of a block are where its edges come from. The ranks are those of the addresses, but
the bound does not depend on them: a loop, or an address that cannot be read, may put a block further
down, never further up. So the entry has the top level to itself.
-/

namespace FlowChart

namespace Graph

variable {g : Graph} {entry id : String} {level : String → Int} {n : Nat}

/-- If edges lead from the predecessors of blocks to the blocks, the level of a block is its distance
from the entry at least. -/
theorem SolvesLevels.distance_le (h : g.SolvesLevels entry level)
    (hedges : ∀ b ∈ g.blocks, ∀ p ∈ b.predecessors, p ∈ g.ids → Search.Step g.targetsOf p b.id)
    (hdistances : ∀ id ∈ g.ids, ∃ n, Search.IsDistance g.targetsOf entry id n) (hid : id ∈ g.ids)
    (hn : Search.IsDistance g.targetsOf entry id n) : (n : Int) ≤ level id := by
  suffices hall : ∀ n, Search.IsDistance g.targetsOf entry id n → (n : Int) ≤ level id from hall n hn
  clear hn
  refine induction_forward (motive := fun id ↦
    ∀ n, Search.IsDistance g.targetsOf entry id n → (n : Int) ≤ level id) (fun b hb ih n hn ↦ ?_) hid
  by_cases hentry : b.id = entry
  · have hzero : n ≤ 0 := hn.2 (hentry ▸ .none)
    rw [hentry, h.top]
    omega
  by_cases hforward : ∃ p, g.IsForward p b
  · obtain ⟨p, hp⟩ := hforward
    obtain ⟨m, hm⟩ := hdistances p hp.isBlock
    have hnear : n ≤ m + 1 :=
      hn.2 (Search.Steps.step hm.1 (hedges b hb p hp.listed hp.isBlock))
    have hfar : (m : Int) ≤ level p := ih p hp m hm
    have hbelow : level p + 1 ≤ level b.id := (h.below b hb hentry ⟨p, hp⟩).2 ⟨p, hp, rfl⟩
    omega
  · exact (h.near b hb hentry hforward n hn).ge

/-- Levels that put no block above its distance from the entry, which every block has. -/
structure IsDeepEnough (g : Graph) (entry : String) (l : Leveling) : Prop where
  /-- A block has a distance from the entry, and its level is the same or more. -/
  distance_le : ∀ id ∈ g.ids, ∃ n level, Search.IsDistance g.targetsOf entry id n ∧
    l.distances.get? id = some n ∧ l.levels.get? id = some level ∧ (n : Int) ≤ level
  /-- No block but the entry is on the top level. -/
  top_iff : ∀ id, l.levels.get? id = some 0 ↔ id = entry

/-- In a coherent graph with different ids, where edges lead from the entry to all blocks, no level
is less than the distance. -/
theorem IsCoherent.isDeepEnough (hg : g.IsCoherent) (hids : g.ids.Nodup)
    (hleads : ∀ id ∈ g.ids, Relation.ReflTransGen g.Leads entry id) {l : Leveling}
    (hl : Leveling.assign g entry = .ok l) : g.IsDeepEnough entry l := by
  have hentry := Leveling.mem_ids_of_assign hl
  obtain ⟨level, hlevel, hsolves⟩ := Leveling.exists_solvesLevels hids hl
  have hdistances : ∀ id ∈ g.ids, ∃ n, Search.IsDistance g.targetsOf entry id n := by
    intro id hid
    rw [Search.exists_isDistance_iff, step_targetsOf hg.ends]
    exact hleads id hid
  have hedges : ∀ b ∈ g.blocks, ∀ p ∈ b.predecessors, p ∈ g.ids →
      Search.Step g.targetsOf p b.id := by
    intro b hb p hp hblock
    obtain ⟨p, hmem, rfl⟩ := List.mem_map.mp hblock
    rw [step_targetsOf hg.ends]
    exact (hg.mem_predecessors p hmem b hb).mp hp
  constructor
  · intro id hid
    obtain ⟨n, hn⟩ := hdistances id hid
    refine ⟨n, level id, hn, ?_, hlevel id hid, hsolves.distance_le hedges hdistances hid hn⟩
    rw [Leveling.distances_eq hl]
    exact (get?_edgeDistances hentry).mpr hn
  · intro id
    constructor
    · intro htop
      have hid := ((Leveling.succeeds_assign hentry).of_eq_ok hl).mem_ids htop
      obtain ⟨n, hn⟩ := hdistances id hid
      have hle := hsolves.distance_le hedges hdistances hid hn
      rw [Option.some.inj ((hlevel id hid).symm.trans htop)] at hle
      obtain rfl : n = 0 := by omega
      cases hn.1
      rfl
    · rintro rfl
      exact Leveling.get?_levels_entry hl

/-- A block that edges lead to from one block only, and that comes before it in address order, is one
level below the distance of that block. -/
theorem IsCoherent.get?_levels_of_leads_only (hg : g.IsCoherent) (hids : g.ids.Nodup) {l : Leveling}
    (hl : Leveling.assign g entry = .ok l) {a b : Block} (ha : a ∈ g.blocks) (hb : b ∈ g.blocks)
    (hne : b.id ≠ entry) (hleads : g.Leads a.id b.id) (honly : ∀ p, g.Leads p b.id → p = a.id)
    (hprecedes : b.Precedes a) (hn : Search.IsDistance g.targetsOf entry a.id n) :
    l.levels.get? b.id = some ((n : Int) + 1) := by
  obtain ⟨level, hlevel, hsolves⟩ := Leveling.exists_solvesLevels hids hl
  have hbackward : ¬ ∃ p, g.IsForward p b := by
    rintro ⟨p, hlisted, hblock, hlower⟩
    obtain ⟨p, hp, rfl⟩ := List.mem_map.mp hblock
    rw [honly p.id ((hg.mem_predecessors p hp b hb).mp hlisted)] at hlower
    obtain ⟨rank, hrank, hless⟩ := exists_rank_lt hids hb ha hprecedes
    rw [Leveling.rankOf, Leveling.rankOf, hrank, Option.getD_some] at hlower
    rw [Leveling.rankOf] at hless
    omega
  rw [← step_targetsOf hg.ends] at hleads honly
  have hdistance := hn.step hleads honly hne
  rw [hlevel b.id (List.mem_map_of_mem hb), hsolves.near b hb hne hbackward _ hdistance,
    Int.natCast_succ]

end Graph

namespace Listing

variable {c : Classifier} {listing : List Instruction} {entry : Block}

/-- In the reachable part of a listing no block is above its distance from the entry. -/
theorem isDeepEnough_prune_split
    (hentry : Graph.entry? (split c listing).prune.graph = some entry) {l : Leveling}
    (hl : Leveling.assign (split c listing).prune.graph entry.id = .ok l) :
    (split c listing).prune.graph.IsDeepEnough entry.id l := by
  cases hwhole : Graph.entry? (split c listing) with
  | none =>
    rw [Graph.prune, hwhole] at hentry
    cases hentry
  | some first =>
    obtain ⟨kept, hkeeps⟩ := Graph.exists_keeps_prune hwhole
    obtain rfl := Option.some.inj (hkeeps.first.symm.trans hentry)
    have hids : (split c listing).prune.graph.ids.Nodup :=
      hkeeps.ids ▸ (nodup_ids_split c listing).filter _
    refine (isCoherent_split c listing).prune.isDeepEnough hids (fun _ hid ↦ ?_) hl
    exact hkeeps.reflTransGen_leads hwhole (fun _ _ hflows ↦
      (isConsistent_split c listing).flows_eq_leads ▸ hflows) hid

/-- Whatever the instructions of a listing and their addresses are, no block of its reachable part is
on a level above its distance from the entry, and the entry is alone on the top level. -/
theorem exists_isDeepEnough_split (c : Classifier) (listing : List Instruction)
    (hne : (split c listing).prune.graph.blocks ≠ []) :
    ∃ entry l, Graph.entry? (split c listing).prune.graph = some entry ∧
      (split c listing).prune.entry = some entry.id ∧
      Leveling.assign (split c listing).prune.graph entry.id = .ok l ∧
      (split c listing).prune.graph.IsDeepEnough entry.id l := by
  obtain ⟨first, hfirst⟩ : ∃ first, Graph.entry? (split c listing) = some first := by
    apply Option.ne_none_iff_exists'.mp
    intro hnone
    rw [Graph.prune, hnone] at hne
    exact hne rfl
  obtain ⟨kept, hkeeps⟩ := Graph.exists_keeps_prune hfirst
  have hstart : first.id ∈ (split c listing).prune.graph.ids :=
    (hkeeps.mem_ids_iff hfirst).mpr ((hkeeps.kept_iff _).mpr .refl)
  obtain ⟨l, hl, -⟩ := Leveling.succeeds_assign hstart
  exact ⟨_, l, hkeeps.first, hkeeps.named, hl, isDeepEnough_prune_split hkeeps.first hl⟩

/-- A loop around a block whose address cannot be read. It is ordered first, and goes to the level
of its distance. -/
theorem exists_isDeepEnough_split_loop :
    let g := split .x86 [⟨"0x0", "", "nop", "", .null⟩, ⟨"0x4", "", "je", "0xc", .null⟩,
      ⟨"??", "", "nop", "", .null⟩, ⟨"0xc", "", "jmp", "0x4", .null⟩]
    g.prune.graph.blocks ≠ [] ∧
      ∃ entry l, g.prune.graph.entry? = some entry ∧ g.prune.entry = some entry.id ∧
        Leveling.assign g.prune.graph entry.id = .ok l ∧ g.prune.graph.IsDeepEnough entry.id l := by
  intro g
  have hne : g.prune.graph.blocks ≠ [] := by
    intro h
    have hlength : g.prune.graph.blocks.length = 4 := by decide +kernel
    rw [h] at hlength
    cases hlength
  exact ⟨hne, exists_isDeepEnough_split .x86 _ hne⟩

end Listing

end FlowChart
