import FlowChart.Proofs.Charts
import FlowChart.Proofs.Graph.AddressOrder
import FlowChart.Proofs.Layout.Depths

/-!
# Edges to later blocks go down

In the chart of a listing whose addresses ascend, every edge to a block that is built later leads to
a deeper level and does not count as going back, so that code without loops reads from top to bottom.
There is one exception. A block whose first instruction has no address is ordered before all others.
It is entered from the block before it only, and is one level below the distance of that block from
the entry: deep enough if that block is at the level of its distance, too high if it is deeper.
-/

namespace FlowChart

variable {α : Type} [Scalar α]

/-- A route that leads to a deeper level and does not count as going back. -/
def Chart.GoesDown (chart : Chart α) (r : Route α) : Prop :=
  (∃ level level', chart.levels.get? r.edge.source = some level ∧
    chart.levels.get? r.edge.target = some level' ∧ level < level') ∧ r.isBack = false

/-- The level of an id is its distance from the entry of a graph. -/
def Chart.IsAtDistance (chart : Chart α) (g : Graph) (id : String) : Prop :=
  ∃ entry, ∃ n : Nat, g.entry? = some entry ∧ Search.IsDistance g.targetsOf entry.id id n ∧
    chart.levels.get? id = some (n : Int)

/-- An edge of a graph leads from a block to one that is built later. -/
structure Graph.JoinsLater (g : Graph) (e : Edge) (a b : Block) : Prop where
  /-- The edge is one of the graph. -/
  edge : e ∈ g.edges
  /-- So is the first block. -/
  first : a ∈ g.blocks
  /-- So is the second one. -/
  second : b ∈ g.blocks
  /-- The edge comes from the first block. -/
  source : e.source = a.id
  /-- It leads to the second one. -/
  target : e.target = b.id
  /-- The second block is built later. -/
  later : a.index < b.index

/-- A route counts as going back unless its target is on a deeper level. -/
theorem Chart.isBack_eq {g : Graph} {entry : Block} (hentry : g.entry? = some entry)
    {canvasWidth : Option α} {config : Config α} {chart : Chart α}
    (h : Chart.ofGraph g canvasWidth config = .ok chart) {r : Route α} (hr : r ∈ chart.routes) :
    ∃ level level', chart.levels.get? r.edge.source = some level ∧
      chart.levels.get? r.edge.target = some level' ∧ r.isBack = decide (level' ≤ level) := by
  obtain ⟨steps, offsets, hdrawn⟩ := (succeeds_ofGraph hentry canvasWidth config).of_eq_ok h
  have hlevels : chart.levels = steps.leveling.levels := hdrawn.readOff.levels
  obtain ⟨⟨index, edge, source, target⟩, hplaced, hedge, hback⟩ :=
    exists_of_forall₂ (Route.isBack_of_ofEdges (place_and_ofEdges h).2) hr
  obtain ⟨-, hsource, htarget⟩ := Route.mem_placedEdges hplaced
  rw [hedge, hlevels]
  exact ⟨source.level, target.level, (hdrawn.readOff.gives hsource).level,
    (hdrawn.readOff.gives htarget).level, hback⟩

/-- A route goes down if its target is on a deeper level. -/
theorem Chart.goesDown_iff {g : Graph} {entry : Block} (hentry : g.entry? = some entry)
    {canvasWidth : Option α} {config : Config α} {chart : Chart α}
    (h : Chart.ofGraph g canvasWidth config = .ok chart) {r : Route α} (hr : r ∈ chart.routes)
    {level level' : Int} (hlevel : chart.levels.get? r.edge.source = some level)
    (hlevel' : chart.levels.get? r.edge.target = some level') :
    chart.GoesDown r ↔ level < level' := by
  constructor
  · rintro ⟨⟨_, _, hsource, htarget, hdeeper⟩, -⟩
    cases hlevel.symm.trans hsource
    cases hlevel'.symm.trans htarget
    exact hdeeper
  · intro hdeeper
    obtain ⟨_, _, hsource, htarget, hback⟩ := isBack_eq hentry h hr
    cases hlevel.symm.trans hsource
    cases hlevel'.symm.trans htarget
    refine ⟨⟨level, level', hlevel, hlevel', hdeeper⟩, ?_⟩
    rw [hback]
    exact decide_eq_false (Int.not_le.mpr hdeeper)

namespace Listing

variable {c : Classifier} {listing : List Instruction} {keep : String → Bool} {a b : Block}

/-- A block is listed as a predecessor of the blocks that its edges lead to. -/
theorem mem_predecessors_restrict (hb : b ∈ ((split c listing).restrict keep).blocks) {e : Edge}
    (he : e ∈ ((split c listing).restrict keep).edges) (htarget : e.target = b.id) :
    e.source ∈ b.predecessors := by
  obtain ⟨b₀, hb₀, rfl⟩ := Graph.exists_of_mem_blocks_restrict hb
  obtain ⟨hedge, hkeep⟩ := List.mem_filter.mp he
  rw [Bool.and_eq_true] at hkeep
  exact List.mem_filter.mpr ⟨(mem_predecessors_split hb₀).mpr ⟨e, hedge, rfl, htarget⟩, hkeep.1⟩

private theorem nodup_ids_restrict : ((split c listing).restrict keep).ids.Nodup := by
  rw [Graph.ids_restrict]
  exact (nodup_ids_split c listing).filter _

private theorem precedes_of_mem_restrict (hascending : HasAscendingAddresses listing)
    (ha : a ∈ ((split c listing).restrict keep).blocks)
    (hb : b ∈ ((split c listing).restrict keep).blocks) (hlt : a.index < b.index)
    (hstart : b.address?.isSome ∨ a.address?.getD 0 = 0) : a.Precedes b := by
  obtain ⟨a₀, ha₀, rfl⟩ := Graph.exists_of_mem_blocks_restrict ha
  obtain ⟨b₀, hb₀, rfl⟩ := Graph.exists_of_mem_blocks_restrict hb
  have h : a₀.Precedes b₀ := precedes_of_index_lt hascending ha₀ hb₀ hlt hstart
  exact h

/-- A block that is built later than another one is not the entry. -/
theorem id_ne_of_index_lt {entry : Block}
    (hentry : Graph.entry? ((split c listing).restrict keep) = some entry)
    (ha : a ∈ ((split c listing).restrict keep).blocks)
    (hb : b ∈ ((split c listing).restrict keep).blocks) (hlt : a.index < b.index) :
    b.id ≠ entry.id := by
  intro hid
  obtain rfl := List.inj_on_of_nodup_map nodup_ids_restrict hb (List.mem_of_find?_eq_some hentry) hid
  have hentered : b.isEntry = true := List.find?_some hentry
  obtain ⟨a₀, ha₀, rfl⟩ := Graph.exists_of_mem_blocks_restrict ha
  obtain ⟨b₀, hb₀, rfl⟩ := Graph.exists_of_mem_blocks_restrict hb
  obtain ⟨k, hk⟩ := List.getElem?_of_mem ha₀
  obtain ⟨l, hl⟩ := List.getElem?_of_mem hb₀
  have hzero : l = 0 := by
    rw [Block.restrict, isEntry_of_getElem?_blocks hl] at hentered
    exact beq_iff_eq.mp hentered
  rw [Block.restrict, Block.restrict, index_of_getElem?_blocks hk, index_of_getElem?_blocks hl,
    hzero] at hlt
  exact absurd hlt (by simp)

/-- In a part of a listing whose addresses ascend, an edge to a later block leads to a deeper level, as
far as that block starts at an address, or the block before starts at none or at zero. -/
theorem exists_levels_lt_of_edge (hascending : HasAscendingAddresses listing) {entry : Block}
    (hentry : Graph.entry? ((split c listing).restrict keep) = some entry) {l : Leveling}
    (hl : Leveling.assign ((split c listing).restrict keep) entry.id = .ok l) {e : Edge}
    (he : ((split c listing).restrict keep).JoinsLater e a b)
    (hstart : b.address?.isSome ∨ a.address?.getD 0 = 0) :
    ∃ level level', l.levels.get? a.id = some level ∧ l.levels.get? b.id = some level' ∧
      level < level' :=
  Leveling.exists_levels_lt nodup_ids_restrict hl he.first he.second
    (precedes_of_mem_restrict hascending he.first he.second he.later hstart)
    (he.source ▸ mem_predecessors_restrict he.second he.edge he.target)
    (id_ne_of_index_lt hentry he.first he.second he.later)

/-- In a part of a listing, a later block that starts at no address is one level below the distance of
the block before it, if that is at a positive address. -/
theorem get?_levels_of_address?_eq_none {entry : Block}
    (hentry : Graph.entry? ((split c listing).restrict keep) = some entry) {l : Leveling}
    (hl : Leveling.assign ((split c listing).restrict keep) entry.id = .ok l) {e : Edge}
    (he : ((split c listing).restrict keep).JoinsLater e a b) (hnone : b.address? = none)
    (hpositive : a.address?.getD 0 ≠ 0) {n : Nat}
    (hn : Search.IsDistance ((split c listing).restrict keep).targetsOf entry.id a.id n) :
    l.levels.get? b.id = some ((n : Int) + 1) := by
  have hne := id_ne_of_index_lt hentry he.first he.second he.later
  obtain ⟨a₀, ha₀, hrestrict⟩ := Graph.exists_of_mem_blocks_restrict he.first
  obtain ⟨b₀, hb₀, hrestrict'⟩ := Graph.exists_of_mem_blocks_restrict he.second
  have hprecedes : b.Precedes a := by
    subst hrestrict hrestrict'
    have h : b₀.Precedes a₀ := precedes_of_address?_eq_none ha₀ hb₀ hnone hpositive
    exact h
  have honly : ∀ p, ((split c listing).restrict keep).Leads p b.id → p = a.id := by
    rintro p ⟨e', he', rfl, htarget'⟩
    subst hrestrict'
    rw [← he.source]
    exact source_eq_of_address?_eq_none hb₀ hnone (List.mem_of_mem_filter he')
      (List.mem_of_mem_filter he.edge) htarget' he.target
  exact ((isCoherent_split c listing).restrict keep).get?_levels_of_leads_only nodup_ids_restrict hl
    he.first he.second hne ⟨e, he.edge, he.source, he.target⟩ honly hprecedes hn

/-- In the reachable part of a listing whose addresses ascend, an edge to a later block leads to a
deeper level exactly if that block starts at an address, or the block before starts at none or at
zero, or the block before is at the level of its distance. -/
theorem exists_levels_lt_iff_of_edge (hascending : HasAscendingAddresses listing)
    {first entry : Block} (hfirst : Graph.entry? (split c listing) = some first)
    (hentry : Graph.entry? (split c listing).prune.graph = some entry) {l : Leveling}
    (hl : Leveling.assign (split c listing).prune.graph entry.id = .ok l) {e : Edge}
    (he : (split c listing).prune.graph.JoinsLater e a b) :
    ∃ level level', l.levels.get? a.id = some level ∧ l.levels.get? b.id = some level' ∧
      (level < level' ↔ b.address?.isSome ∨ a.address?.getD 0 = 0 ∨ ∃ n : Nat,
        Search.IsDistance (split c listing).prune.graph.targetsOf entry.id a.id n ∧
          l.levels.get? a.id = some (n : Int)) := by
  have hdeep := isDeepEnough_prune_split hentry hl
  obtain ⟨keep, hkeep⟩ := Graph.exists_prune_eq_restrict hfirst
  rw [hkeep] at hentry hl he hdeep ⊢
  by_cases hstart : b.address?.isSome ∨ a.address?.getD 0 = 0
  · obtain ⟨level, level', hlevel, hlevel', hdeeper⟩ :=
      exists_levels_lt_of_edge hascending hentry hl he hstart
    refine ⟨level, level', hlevel, hlevel', iff_of_true hdeeper ?_⟩
    exact or_assoc.mp (.inl hstart)
  · rw [not_or, Bool.not_eq_true, Option.isSome_eq_false_iff, Option.isNone_iff_eq_none] at hstart
    obtain ⟨hnone, hpositive⟩ := hstart
    obtain ⟨n, level, hn, -, hlevel, hle⟩ := hdeep.distance_le a.id (List.mem_map_of_mem he.first)
    have hlevel' := get?_levels_of_address?_eq_none hentry hl he hnone hpositive hn
    refine ⟨level, _, hlevel, hlevel', ?_⟩
    constructor
    · intro hless
      obtain rfl : level = n := by omega
      exact .inr (.inr ⟨n, hn, hlevel⟩)
    · rintro (hsome | hzero | ⟨m, hm, hdistance⟩)
      · rw [hnone] at hsome
        cases hsome
      · exact absurd hzero hpositive
      · obtain rfl := hm.unique hn
        obtain rfl := Option.some.inj (hlevel.symm.trans hdistance)
        exact Int.lt_add_one_of_le le_rfl

end Listing

open Listing in
/-- In the chart of a listing whose addresses ascend, an edge to a later block goes down exactly if
that block starts at an address, or the block before starts at none or at zero, or the block before
is at the level of its distance from the entry. -/
theorem Chart.exists_laterEdges_goDown_iff (c : Classifier) {listing : List Instruction}
    (hascending : HasAscendingAddresses listing) (canvasWidth : Option α) (config : Config α) :
    let g := (split c listing).prune.graph
    ∃ chart, Chart.ofGraph g canvasWidth config = .ok chart ∧
      chart.routes.map (·.edge) = g.edges ∧
      ∀ r ∈ chart.routes, ∀ a ∈ g.blocks, ∀ b ∈ g.blocks, r.edge.source = a.id →
        r.edge.target = b.id → a.index < b.index →
          (chart.GoesDown r ↔
            b.address?.isSome ∨ a.address?.getD 0 = 0 ∨ chart.IsAtDistance g a.id) := by
  intro g
  by_cases hne : listing = []
  · subst hne
    exact ⟨_, rfl, rfl, by simp⟩
  · obtain ⟨first, hfirst⟩ := Option.isSome_iff_exists.mp (isSome_entry?_split (c := c) hne)
    have hpart := Graph.isReachablePart_prune (isConsistent_split c listing) hfirst
    obtain ⟨entry, hentry⟩ := Option.isSome_iff_exists.mp hpart.entry.2
    obtain ⟨chart, hchart, steps, offsets, hdrawn⟩ := succeeds_ofGraph hentry canvasWidth config
    have hedges := hdrawn.map_edge hpart.ends
    refine ⟨chart, hchart, hedges, ?_⟩
    intro r hr a ha b hb hsource htarget hlt
    have hedge : r.edge ∈ g.edges := by
      rw [← hedges]
      exact List.mem_map_of_mem hr
    obtain ⟨l, hl, hlevels⟩ := Graph.exists_assign_of_place hentry (place_and_ofEdges hchart).1
    replace hlevels : chart.levels = l.levels := hlevels
    obtain ⟨level, level', hlevel, hlevel', hiff⟩ := exists_levels_lt_iff_of_edge hascending hfirst
      hentry hl ⟨hedge, ha, hb, hsource, htarget, hlt⟩
    rw [← hlevels] at hlevel hlevel' hiff
    rw [goesDown_iff hentry hchart hr (hsource ▸ hlevel) (htarget ▸ hlevel'), hiff]
    refine or_congr_right (or_congr_right ⟨?_, ?_⟩)
    · rintro ⟨n, hn, hdistance⟩
      exact ⟨entry, n, hentry, hn, hdistance⟩
    · rintro ⟨_, n, hentry', hn, hdistance⟩
      obtain rfl := Option.some.inj (hentry.symm.trans hentry')
      exact ⟨n, hn, hdistance⟩

open Listing in
/-- A branch over an instruction whose address cannot be read, in exact numbers. The branch and the
step to that instruction go down, since they leave the entry. -/
theorem Chart.exists_laterEdges_goDown_iff_branch :
    let listing : List Instruction := [⟨"0x100", "", "je", "0x108", .null⟩,
      ⟨"??", "", "nop", "", .null⟩, ⟨"0x108", "", "ret", "", .null⟩]
    let g := (split .x86 listing).prune.graph
    HasAscendingAddresses listing ∧
      ∃ chart : Chart Rat, Chart.ofGraph g none .standard = .ok chart ∧
        chart.routes.map (·.edge) = g.edges ∧
        ∀ r ∈ chart.routes, ∀ a ∈ g.blocks, ∀ b ∈ g.blocks, r.edge.source = a.id →
          r.edge.target = b.id → a.index < b.index →
            (chart.GoesDown r ↔
              b.address?.isSome ∨ a.address?.getD 0 = 0 ∨ chart.IsAtDistance g a.id) := by
  intro listing g
  have hascending : HasAscendingAddresses listing := by
    unfold HasAscendingAddresses
    decide +kernel
  exact ⟨hascending, exists_laterEdges_goDown_iff .x86 hascending none .standard⟩

open Listing in
/-- The second branch falls through to an instruction whose address cannot be read. That block is
ordered first, so its level is its distance from the entry; the branch is as deep, since the longer
way to it counts. -/
theorem Chart.exists_laterEdge_goingBack :
    let listing : List Instruction := [⟨"0x100", "", "je", "0x108", .null⟩,
      ⟨"0x104", "", "mov", "", .null⟩, ⟨"0x108", "", "je", "0x110", .null⟩,
      ⟨"??", "", "nop", "", .null⟩, ⟨"0x110", "", "ret", "", .null⟩]
    let g := (split .x86 listing).prune.graph
    HasAscendingAddresses listing ∧
      ∃ chart : Chart Rat, Chart.ofGraph g none .standard = .ok chart ∧
        ∃ r ∈ chart.routes, ∃ a ∈ g.blocks, ∃ b ∈ g.blocks, r.edge.source = a.id ∧
          r.edge.target = b.id ∧ a.index < b.index ∧ r.isBack = true ∧ ¬ chart.GoesDown r := by
  intro listing g
  have hascending : HasAscendingAddresses listing := by
    unfold HasAscendingAddresses
    decide +kernel
  have hfound : ((Chart.ofGraph g none .standard : Except Fault (Chart Rat)).toOption.any fun chart ↦
      chart.routes.any fun r ↦ r.isBack && g.blocks.any fun a ↦ g.blocks.any fun b ↦
        r.edge.source == a.id && (r.edge.target == b.id && decide (a.index < b.index))) = true := by
    decide +kernel
  refine ⟨hascending, ?_⟩
  cases hchart : (Chart.ofGraph g none .standard : Except Fault (Chart Rat)) with
  | error fault =>
    rw [hchart] at hfound
    cases hfound
  | ok chart =>
    rw [hchart] at hfound
    simp only [Except.toOption, Option.any_some, List.any_eq_true, Bool.and_eq_true, beq_iff_eq,
      decide_eq_true_eq] at hfound
    obtain ⟨r, hr, hback, a, ha, b, hb, hsource, htarget, hlt⟩ := hfound
    refine ⟨chart, rfl, r, hr, a, ha, b, hb, hsource, htarget, hlt, hback, ?_⟩
    rintro ⟨-, hdown⟩
    exact Bool.false_ne_true (hdown.symm.trans hback)

end FlowChart
