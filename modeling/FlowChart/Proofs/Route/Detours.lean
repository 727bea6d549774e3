import FlowChart.Proofs.Route.Clearance

/-!
# Which edges take a detour

An edge to a deeper level is only tested against the boxes that meet the rectangle around its ends.
In exact arithmetic that loses nothing: anchors lie on the sides of their boxes and crossings between
the levels, so that the way across stays within this rectangle, and the edge takes a detour exactly
when the way across hits any other box of the chart.
-/

namespace FlowChart

namespace Route

/-- The way of an edge that goes down, across and down hits a box other than those at the ends of the
edge. -/
def AcrossHitsSome (config : Config Rat) (boxes : Table String (Box Rat)) (index : Nat)
    (edge : Edge) (e : Ends Rat) : Prop :=
  ∃ id b, boxes.get? id = some b ∧ id ≠ edge.source ∧ id ≠ edge.target ∧
    (b.hitVertically config.edgeMargin e.start.x e.start.y
        (acrossY config.edgeSpacing index e) = true ∨
      b.hitHorizontally config.edgeMargin (acrossY config.edgeSpacing index e) e.start.x
        e.finish.x = true ∨
      b.hitVertically config.edgeMargin e.finish.x (acrossY config.edgeSpacing index e)
        e.finish.y = true)

variable {config : Config Rat}

/-- A way across between two boxes that meets their sides stays within the rectangle around them, so
what it hits is in the path. -/
theorem mem_between_of_acrossHits {boxes : List (Box Rat)} {source target b : Box Rat}
    {e : Ends Rat} {margin y : Rat} (hends : e.Meet source target) (hheight : 0 ≤ source.height)
    (hheight' : 0 ≤ target.height) (hy : y ∈ Set.Icc e.start.y e.finish.y) (hb : b ∈ boxes)
    (hsource : b.id ≠ source.id) (htarget : b.id ≠ target.id)
    (hit : e.acrossHits y margin b = true) : b ∈ Box.between source target boxes margin := by
  have hspan := hends.subset_spanY hheight hheight'
  have hdown := hy.1.trans hy.2
  have hstartX := hends.start_mem_spanX
  have hfinishX := hends.finish_mem_spanX
  have hstartY := hspan (Set.left_mem_Icc.mpr hdown)
  have hfinishY := hspan (Set.right_mem_Icc.mpr hdown)
  have hcrossing := hspan hy
  rw [Ends.acrossHits, Bool.or_eq_true, Bool.or_eq_true] at hit
  rcases hit with (hit | hit) | hit
  · exact Box.mem_between_of_hitVertically hb hsource htarget hstartX hstartY hcrossing hit
  · exact Box.mem_between_of_hitHorizontally hb hsource htarget hcrossing hstartX hfinishX hit
  · exact Box.mem_between_of_hitVertically hb hsource htarget hfinishX hcrossing hfinishY hit

/-- To test the boxes in the path of an edge is to test all boxes but those at its ends. -/
theorem acrossHitsSome_iff {boxes : Table String (Box Rat)} {index : Nat} {edge : Edge}
    {source target : Box Rat} {e : Ends Rat} (hkeyed : Keyed boxes)
    (hsource : boxes.get? edge.source = some source)
    (htarget : boxes.get? edge.target = some target) (hends : e.Meet source target)
    (hheight : 0 ≤ source.height) (hheight' : 0 ≤ target.height)
    (hcrossing : acrossY config.edgeSpacing index e ∈ Set.Icc e.start.y e.finish.y) :
    (∃ b ∈ Box.between source target boxes.values config.edgeMargin,
      e.acrossHits (acrossY config.edgeSpacing index e) config.edgeMargin b = true) ↔
      AcrossHitsSome config boxes index edge e := by
  have hid := hkeyed.named hsource
  have hid' := hkeyed.named htarget
  constructor
  · rintro ⟨b, hb, hit⟩
    obtain ⟨hmem, hne, hne', -⟩ := Box.mem_between_iff.mp hb
    obtain ⟨id, hget⟩ := hkeyed.distinct.mem_values_iff.mp hmem
    rw [hkeyed.named hget] at hne hne'
    rw [Ends.acrossHits, Bool.or_eq_true, Bool.or_eq_true, or_assoc] at hit
    exact ⟨id, b, hget, hid ▸ hne, hid' ▸ hne', hit⟩
  · rintro ⟨id, b, hget, hne, hne', hit⟩
    rw [← or_assoc, ← Bool.or_eq_true, ← Bool.or_eq_true] at hit
    rw [← hkeyed.named hget] at hne hne'
    refine ⟨b, mem_between_of_acrossHits hends hheight hheight' hcrossing ?_ (hid ▸ hne)
      (hid' ▸ hne') hit, hit⟩
    exact hkeyed.distinct.mem_values_iff.mpr ⟨id, hget⟩

end Route

/-- Every graph with an entry is drawn, and an edge to a deeper level takes a detour exactly when its
way across hits a box of the chart other than those at its ends. -/
theorem Chart.exists_detours_iff (g : Graph) (canvasWidth : Option Rat) (config : Config Rat)
    (hentry : g.entry?.isSome) (hc : config.HasMargins)
    (hcrossings : 4 * config.edgeSpacing ≤ config.vGap) :
    ∃ chart offsets, Chart.ofGraph g canvasWidth config = .ok chart ∧
      Anchor.ofEdges g.edges config.parallelOffset (some (Route.widthsOf chart.boxes))
        config.edgeMargin = .ok offsets ∧
      List.Forall₂ (fun placed r ↦ r.edge = placed.2.1 ∧ (r.isBack = false →
        (r.isDetour = true ↔ Route.AcrossHitsSome config chart.boxes placed.1 placed.2.1
          (Route.endsAt offsets placed.1 placed.2.2.1 placed.2.2.2))))
        (Route.placedEdges g.edges chart.boxes) chart.routes := by
  obtain ⟨entry, hentry⟩ := Option.isSome_iff_exists.mp hentry
  obtain ⟨chart, hchart, steps, offsets, hdrawn⟩ := succeeds_ofGraph hentry canvasWidth config
  refine ⟨chart, offsets, hchart, hdrawn.anchors, ?_⟩
  have hlayered := Route.layered_of_readOff hdrawn.readOff hdrawn.sound hc.toHasSizes
  have hfollows := (List.forall₂_and_left _ _).mpr ⟨fun _ h ↦ h, hdrawn.follows hchart⟩
  apply hfollows.imp
  rintro ⟨index, edge, source, target⟩ r ⟨hplaced, hcourse⟩
  refine ⟨hcourse.edge_eq, fun hforward ↦ ?_⟩
  obtain ⟨hedge, hsource, htarget⟩ := Route.mem_placedEdges hplaced
  have hmem := hdrawn.readOff.mem_values hsource
  have hmem' := hdrawn.readOff.mem_values htarget
  have hends := Route.meet_endsAt hdrawn.keyed hdrawn.anchors hc.parallelOffset hc.edgeMargin hedge
    hsource htarget (hlayered.width source hmem) (hlayered.width target hmem')
  have hdeeper : source.level < target.level := by
    rw [hcourse.isBack_eq, decide_eq_false_iff_not] at hforward
    exact not_le.mp hforward
  have hgap := hlayered.below source hmem target hmem' hdeeper
  rw [← hends.start_y, ← hends.finish_y] at hgap
  have hcrossing := Route.acrossY_mem_Icc hc.edgeSpacing hcrossings hgap index
  rw [hcourse.isDetour_iff hforward]
  exact Route.acrossHitsSome_iff hdrawn.keyed hsource htarget hends (hlayered.height source hmem)
    (hlayered.height target hmem') hcrossing

/-- So does an edge that skips a level, with the settings that are used unless others are given. -/
theorem Chart.exists_detours_iff_skip :
    let g : Graph := ⟨[
      { index := 0, id := "a", instructions := [], start := "", stop := "",
        successors := ["c", "b"], isEntry := true },
      { index := 1, id := "b", instructions := [], start := "", stop := "",
        successors := ["c"], predecessors := ["a"] },
      { index := 2, id := "c", instructions := [], start := "", stop := "",
        predecessors := ["a", "b"], isExit := true }],
      [⟨"a", "c", .conditionalTrue⟩, ⟨"a", "b", .conditionalFalse⟩, ⟨"b", "c", .normal⟩]⟩
    let config : Config Rat := .standard
    g.entry?.isSome ∧ config.HasMargins ∧ 4 * config.edgeSpacing ≤ config.vGap ∧
      ∃ chart offsets, Chart.ofGraph g none config = .ok chart ∧
        Anchor.ofEdges g.edges config.parallelOffset (some (Route.widthsOf chart.boxes))
          config.edgeMargin = .ok offsets ∧
        List.Forall₂ (fun placed r ↦ r.edge = placed.2.1 ∧ (r.isBack = false →
          (r.isDetour = true ↔ Route.AcrossHitsSome config chart.boxes placed.1 placed.2.1
            (Route.endsAt offsets placed.1 placed.2.2.1 placed.2.2.2))))
          (Route.placedEdges g.edges chart.boxes) chart.routes := by
  intro g config
  have hcrossings : 4 * config.edgeSpacing ≤ config.vGap := by norm_num [config, Config.standard]
  exact ⟨rfl, Config.hasMargins_standard, hcrossings,
    exists_detours_iff g none config rfl Config.hasMargins_standard hcrossings⟩

end FlowChart
