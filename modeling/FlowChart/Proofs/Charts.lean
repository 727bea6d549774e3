import FlowChart.Chart
import FlowChart.Proofs.Layout.Placement
import FlowChart.Proofs.Route.Ways

/-!
# Drawing succeeds

Every graph with an entry is drawn, in any arithmetic. Its boxes are those of a placement and its
routes are those of its edges, in edge order.
-/

namespace FlowChart.Chart

variable {α : Type} [Scalar α]

/-- A chart with the boxes of a placement and routes between them. -/
structure Drawn (g : Graph) (config : Config α) (steps : PlacementSteps α)
    (offsets : List α × List α) (chart : Chart α) : Prop where
  /-- The steps of the placement have succeeded. -/
  sound : steps.Sound g config
  /-- The boxes are read off from them. -/
  readOff : Placement.ReadOff g steps ⟨chart.boxes, chart.levels⟩
  /-- The offsets are those of all edges. -/
  anchors : Anchor.ofEdges g.edges config.parallelOffset (some (Route.widthsOf chart.boxes))
    config.edgeMargin = .ok offsets
  /-- Edges between boxes have routes. -/
  routes : List.Forall₂ (Route.Joins config chart.boxes.values offsets)
    (Route.placedEdges g.edges chart.boxes) chart.routes

/-- The boxes of a chart stand under their ids. -/
theorem Drawn.keyed {g : Graph} {config : Config α} {steps : PlacementSteps α}
    {offsets : List α × List α} {chart : Chart α} (h : chart.Drawn g config steps offsets) :
    Route.Keyed chart.boxes where
  distinct := h.readOff.boxes.distinct
  named hb := (h.readOff.gives hb).named

/-- If all edges lead between blocks, all of them have routes, in edge order. -/
theorem Drawn.map_edge {g : Graph} {config : Config α} {steps : PlacementSteps α}
    {offsets : List α × List α} {chart : Chart α} (h : chart.Drawn g config steps offsets)
    (ends : ∀ e ∈ g.edges, e.source ∈ g.ids ∧ e.target ∈ g.ids) :
    chart.routes.map (·.edge) = g.edges := by
  have hkeys := h.readOff.boxes.mem_keys
  have hedges : chart.routes.map (·.edge) =
      (Route.placedEdges g.edges chart.boxes).map (·.2.1) :=
    map_eq_of_forall₂ (fun _ _ hjoins ↦ hjoins.edge) h.routes
  rw [hedges]
  apply Route.map_placedEdges
  intro e he
  exact ⟨(hkeys e.source).mpr (ends e he).1, (hkeys e.target).mpr (ends e he).2⟩

/-- A chart is a placement and the routes between its boxes. -/
theorem place_and_ofEdges {g : Graph} {canvasWidth : Option α} {config : Config α}
    {chart : Chart α} (h : ofGraph g canvasWidth config = .ok chart) :
    g.place config = .ok ⟨chart.boxes, chart.levels⟩ ∧
      Route.ofEdges config g.edges chart.boxes = .ok chart.routes := by
  obtain ⟨p, hp, h⟩ := exists_of_bind_eq_ok h
  obtain ⟨routes, hroutes, h⟩ := exists_of_bind_eq_ok h
  cases h
  exact ⟨hp, hroutes⟩

/-- Each route of a chart takes a course between the boxes of its edge. -/
theorem Drawn.follows {g : Graph} {config : Config α} {steps : PlacementSteps α}
    {offsets : List α × List α} {chart : Chart α} (h : chart.Drawn g config steps offsets)
    {canvasWidth : Option α} (hchart : ofGraph g canvasWidth config = .ok chart) :
    List.Forall₂ (Route.Follows config chart.boxes.values offsets)
      (Route.placedEdges g.edges chart.boxes) chart.routes := by
  obtain ⟨offsets', hanchors, hfollows⟩ := (Route.succeeds_ofEdges_follows config g.edges
    chart.boxes).of_eq_ok (place_and_ofEdges hchart).2
  rw [h.anchors] at hanchors
  exact Except.ok.inj hanchors ▸ hfollows

/-- Every graph with an entry is drawn. -/
theorem succeeds_ofGraph {g : Graph} {entry : Block} (h : g.entry? = some entry)
    (canvasWidth : Option α) (config : Config α) :
    Succeeds (ofGraph g canvasWidth config) fun chart ↦
      ∃ steps offsets, chart.Drawn g config steps offsets := by
  apply (Graph.succeeds_place h).bind
  rintro p ⟨steps, hsound, hread⟩
  apply (Route.succeeds_ofEdges config g.edges p.boxes).bind
  intro routes hroutes
  apply Succeeds.ok
  obtain ⟨offsets, hanchors, hjoins⟩ := hroutes
  exact ⟨steps, offsets, hsound, hread, hanchors, hjoins⟩

/-- Routing never fails, whatever the boxes and edges are, and serves exactly the edges between
boxes. In the chart of a graph with an entry whose edges lead between its blocks, that is all of
them, and there is nothing to warn about. -/
theorem exists_routes_serve (config : Config α) :
    (∀ (edges : List Edge) (boxes : Table String (Box α)),
      ∃ routes, Route.ofEdges config edges boxes = .ok routes ∧
        Route.Serves edges boxes routes) ∧
    ∀ (g : Graph) (canvasWidth : Option α), g.entry?.isSome →
      (∀ e ∈ g.edges, e.source ∈ g.ids ∧ e.target ∈ g.ids) →
      ∃ chart, ofGraph g canvasWidth config = .ok chart ∧
        Route.Serves g.edges chart.boxes chart.routes ∧ chart.routes.map (·.edge) = g.edges ∧
        unplacedWarnings g.edges chart.boxes = [] := by
  constructor
  · exact Route.succeeds_ofEdges_serves config
  · intro g canvasWidth hentry ends
    obtain ⟨entry, hentry⟩ := Option.isSome_iff_exists.mp hentry
    obtain ⟨chart, hchart, steps, offsets, hdrawn⟩ := succeeds_ofGraph hentry canvasWidth config
    have hserves := (Route.succeeds_ofEdges_serves config g.edges chart.boxes).of_eq_ok
      (place_and_ofEdges hchart).2
    have hedges := hdrawn.map_edge ends
    refine ⟨chart, hchart, hserves, hedges, ?_⟩
    -- the edges without a route are those that are not served
    have hall := List.filter_eq_self.mp (hserves.edges.symm.trans hedges)
    rw [unplacedWarnings, Route.unplacedEdges, List.map_eq_nil_iff, List.filter_eq_nil_iff]
    intro e he
    simp [hall e he]

/-- A loop of two blocks is drawn with both of its edges. -/
theorem exists_routes_serve_loop :
    let g : Graph := ⟨[
      { index := 0, id := "a", instructions := [], start := "", stop := "", successors := ["b"],
        predecessors := ["b"], isEntry := true },
      { index := 1, id := "b", instructions := [], start := "", stop := "", successors := ["a"],
        predecessors := ["a"] }], [⟨"a", "b", .normal⟩, ⟨"b", "a", .unconditional⟩]⟩
    g.entry?.isSome ∧ (∀ e ∈ g.edges, e.source ∈ g.ids ∧ e.target ∈ g.ids) ∧
      ∃ chart, ofGraph g none (.standard : Config Rat) = .ok chart ∧
        Route.Serves g.edges chart.boxes chart.routes ∧ chart.routes.map (·.edge) = g.edges ∧
        unplacedWarnings g.edges chart.boxes = [] :=
  ⟨rfl, by decide, (exists_routes_serve .standard).2 _ none rfl (by decide)⟩

end FlowChart.Chart
