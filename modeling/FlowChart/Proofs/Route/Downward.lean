import FlowChart.Proofs.Charts
import FlowChart.Proofs.Route.Room

/-!
# Routes run downwards

In exact arithmetic a route to a deeper level never turns up on its way, however its lanes and
crossings are staggered, as long as the gap between levels has room for them. A route back leaves its
source downwards and enters its target from above.
-/

namespace FlowChart

namespace Route

/-- A piece that does not go up, and that goes down if back edges drop at all. -/
def Drops (config : Config Rat) (p q : Point Rat) : Prop :=
  p.y ≤ q.y ∧ (0 < config.edgeMargin + config.backEdgeClearance → p.y < q.y)

/-- A route that runs downwards: all the way if it leads to a deeper level, and else where it leaves
its source and where it enters its target. -/
structure GoesDownward (config : Config Rat) (source target : Box Rat) (r : Route Rat) : Prop where
  /-- The route starts at the bottom of its source. -/
  start : r.points.head?.map (·.y) = some source.bottom
  /-- It ends at the top of its target. -/
  finish : r.points.getLast?.map (·.y) = some target.y
  /-- To a deeper level, no piece goes up. -/
  forward : r.isBack = false → r.points.IsChain fun p q ↦ p.y ≤ q.y
  /-- A route back begins with a piece down. -/
  leaves : r.isBack = true → ∃ p q rest, r.points = p :: q :: rest ∧ Drops config p q
  /-- It ends with a piece down. -/
  enters : r.isBack = true → ∃ rest p q, r.points = rest ++ [p, q] ∧ Drops config p q

variable {config : Config Rat} {boxes : List (Box Rat)} {source target : Box Rat}
  {e : Ends Rat} {rowBottom : Rat}

/-- The gap under a level starts below all of its boxes, and a deeper box comes after it. -/
private theorem row_bounds {gap : Rat} (hlayered : Layered gap boxes) (hsource : source ∈ boxes)
    (htarget : target ∈ boxes) (hrow : IsLowest boxes source.level rowBottom) :
    source.bottom ≤ rowBottom ∧ (source.level < target.level → rowBottom + gap ≤ target.y) := by
  constructor
  · exact hrow.le source hsource rfl
  · intro deeper
    obtain ⟨b, hb, hlevel, rfl⟩ := hrow.attained
    exact hlayered.below b hb target htarget (hlevel ▸ deeper)

/-- Lanes that leave a level and enter a deeper one are in order, however they are staggered. -/
private theorem exit_le_entry (hc : config.HasMargins)
    (hlanes : 2 * (config.edgeMargin + 2 * config.edgeSpacing) ≤ config.vGap) {top : Rat}
    (hgap : rowBottom + config.vGap ≤ top) (index : Int) :
    rowBottom ≤ rowBottom + config.edgeMargin + stagger config index ∧
      rowBottom + config.edgeMargin + stagger config index ≤
        top - config.edgeMargin - stagger config index ∧
      top - config.edgeMargin - stagger config index ≤ top := by
  obtain ⟨hnonneg, hle⟩ := stagger_bounds hc.edgeSpacing index
  have hmargin := hc.edgeMargin
  refine ⟨?_, ?_, ?_⟩ <;> linarith

private theorem isChain_along {x exitY entryY : Rat} (hexit : e.start.y ≤ exitY)
    (hlane : exitY ≤ entryY) (hentry : entryY ≤ e.finish.y) :
    (e.along x exitY entryY).IsChain fun p q ↦ p.y ≤ q.y := by
  simp [Ends.along, hexit, hlane, hentry]

private theorem isChain_across {y : Rat} (hy : y ∈ Set.Icc e.start.y e.finish.y) :
    (e.across y).IsChain fun p q ↦ p.y ≤ q.y := by
  simp [Ends.across, hy.1, hy.2]

section Courses

variable {index : Int} {edge : Edge} {r : Route Rat} (hc : config.HasMargins)
  (hlayered : Layered config.vGap boxes) (hsource : source ∈ boxes) (htarget : target ∈ boxes)
  (hrow : IsLowest boxes source.level rowBottom) (hstart : e.start.y = source.bottom)
  (hfinish : e.finish.y = target.y)
  (h : Course config index edge source target boxes rowBottom e r)
include hc hlayered hsource htarget hrow hstart hfinish h

/-- An edge to a deeper level runs downwards all the way. -/
theorem Course.isChain_of_forward (hcrossings : 4 * config.edgeSpacing ≤ config.vGap)
    (hlanes : 2 * (config.edgeMargin + 2 * config.edgeSpacing) ≤ config.vGap)
    (hforward : r.isBack = false) : r.points.IsChain fun p q ↦ p.y ≤ q.y := by
  obtain ⟨hbottom, hgap⟩ := row_bounds hlayered hsource htarget hrow
  have hdown : source.level < target.level → e.start.y + config.vGap ≤ e.finish.y := by
    intro deeper
    have := hgap deeper
    linarith
  cases h with
  | back => cases hforward
  | around deeper _ exit entry =>
    obtain ⟨hexit, hlane, hentry⟩ := exit_le_entry hc hlanes (hgap deeper) index
    rw [← hfinish, ← entry] at hlane hentry
    rw [← exit] at hexit hlane
    exact isChain_along (hstart.trans_le (hbottom.trans hexit)) hlane hentry
  | straight deeper =>
    have hvGap := hc.vGap
    have := hdown deeper
    rw [List.isChain_pair]
    linarith
  | across deeper =>
    exact isChain_across (acrossY_mem_Icc hc.edgeSpacing hcrossings (hdown deeper) index)

omit hfinish in
/-- An edge back leaves its source downwards and enters its target from above. -/
theorem Course.drops_of_back (hback : r.isBack = true) :
    (∃ p q rest, r.points = p :: q :: rest ∧ Drops config p q) ∧
      ∃ rest p q, r.points = rest ++ [p, q] ∧ Drops config p q := by
  obtain ⟨hbottom, -⟩ := row_bounds hlayered hsource htarget hrow
  obtain ⟨hstagger, -⟩ := stagger_bounds hc.edgeSpacing index
  have hmargin := hc.edgeMargin
  have hclearance := hc.backEdgeClearance
  cases h with
  | @back x exitY entryY _ exit entry =>
    have hexit : Drops config e.start ⟨e.start.x, exitY⟩ := by
      constructor
      · show e.start.y ≤ exitY
        linarith
      · intro hpos
        show e.start.y < exitY
        linarith
    have hentry : Drops config ⟨e.finish.x, entryY⟩ e.finish := by
      constructor
      · show entryY ≤ e.finish.y
        linarith
      · intro hpos
        show entryY < e.finish.y
        linarith
    exact ⟨⟨_, _, [⟨x, exitY⟩, ⟨x, entryY⟩, ⟨e.finish.x, entryY⟩, e.finish], rfl, hexit⟩,
      ⟨[e.start, ⟨e.start.x, exitY⟩, ⟨x, exitY⟩, ⟨x, entryY⟩], _, _, rfl, hentry⟩⟩
  | around => cases hback
  | straight => cases hback
  | across => cases hback

/-- Whichever course an edge takes between its boxes, it runs downwards. -/
theorem Course.goesDownward (hcrossings : 4 * config.edgeSpacing ≤ config.vGap)
    (hlanes : 2 * (config.edgeMargin + 2 * config.edgeSpacing) ≤ config.vGap) :
    GoesDownward config source target r := by
  have hdrops := h.drops_of_back hc hlayered hsource htarget hrow hstart
  constructor
  · rw [h.head?_points, Option.map_some, hstart]
  · rw [h.getLast?_points, Option.map_some, hfinish]
  · exact h.isChain_of_forward hc hlayered hsource htarget hrow hstart hfinish hcrossings hlanes
  · exact fun hback ↦ (hdrops hback).1
  · exact fun hback ↦ (hdrops hback).2

end Courses

end Route

/-- Every graph with an entry is drawn, and its routes run downwards: to a deeper level all the way,
and back at both ends. -/
theorem Chart.exists_routes_goDownward (g : Graph) (canvasWidth : Option Rat) (config : Config Rat)
    (hentry : g.entry?.isSome) (hc : config.HasMargins)
    (hcrossings : 4 * config.edgeSpacing ≤ config.vGap)
    (hlanes : 2 * (config.edgeMargin + 2 * config.edgeSpacing) ≤ config.vGap) :
    ∃ chart, Chart.ofGraph g canvasWidth config = .ok chart ∧
      ∀ r ∈ chart.routes, ∃ source target, chart.boxes.get? r.edge.source = some source ∧
        chart.boxes.get? r.edge.target = some target ∧
          Route.GoesDownward config source target r := by
  obtain ⟨entry, hentry⟩ := Option.isSome_iff_exists.mp hentry
  obtain ⟨chart, hchart, steps, offsets, hdrawn⟩ := succeeds_ofGraph hentry canvasWidth config
  refine ⟨chart, hchart, fun r hr ↦ ?_⟩
  obtain ⟨⟨index, edge, source, target⟩, hplaced, hcourse⟩ :=
    exists_of_forall₂ (hdrawn.follows hchart) hr
  obtain ⟨-, hsource, htarget⟩ := Route.mem_placedEdges hplaced
  have hlayered := Route.layered_of_readOff hdrawn.readOff hdrawn.sound hc.toHasSizes
  have hmem := hdrawn.readOff.mem_values hsource
  have hrow := Route.isLowest_getD_rowBottoms hmem source.bottom
  rw [hcourse.edge_eq]
  exact ⟨source, target, hsource, htarget, hcourse.goesDownward hc hlayered hmem
    (hdrawn.readOff.mem_values htarget) hrow rfl rfl hcrossings hlanes⟩

/-- So are a branch and a loop with the settings that are used unless others are given. -/
theorem Chart.exists_routes_goDownward_loop :
    let g : Graph := ⟨[
      { index := 0, id := "a", instructions := [], start := "", stop := "",
        successors := ["c", "b"], predecessors := ["b"], isEntry := true },
      { index := 1, id := "b", instructions := [], start := "", stop := "",
        successors := ["a"], predecessors := ["a"] },
      { index := 2, id := "c", instructions := [], start := "", stop := "",
        predecessors := ["a"], isExit := true }],
      [⟨"a", "c", .conditionalTrue⟩, ⟨"a", "b", .conditionalFalse⟩, ⟨"b", "a", .unconditional⟩]⟩
    let config : Config Rat := .standard
    g.entry?.isSome ∧ config.HasMargins ∧ 4 * config.edgeSpacing ≤ config.vGap ∧
      2 * (config.edgeMargin + 2 * config.edgeSpacing) ≤ config.vGap ∧
      ∃ chart, Chart.ofGraph g none config = .ok chart ∧
        ∀ r ∈ chart.routes, ∃ source target, chart.boxes.get? r.edge.source = some source ∧
          chart.boxes.get? r.edge.target = some target ∧
            Route.GoesDownward config source target r := by
  intro g config
  have hcrossings : 4 * config.edgeSpacing ≤ config.vGap := by norm_num [config, Config.standard]
  have hlanes : 2 * (config.edgeMargin + 2 * config.edgeSpacing) ≤ config.vGap := by
    norm_num [config, Config.standard]
  exact ⟨rfl, Config.hasMargins_standard, hcrossings, hlanes,
    exists_routes_goDownward g none config rfl Config.hasMargins_standard hcrossings hlanes⟩

end FlowChart
