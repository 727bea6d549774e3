import FlowChart.Proofs.Route.Anchors
import FlowChart.Proofs.Tables
import FlowChart.Route.Basic

/-!
# Routing succeeds

Every edge between placed blocks gets a route, in any arithmetic. A route takes one of four ways,
and each way comes with what has been checked before it was taken: a side lane is placed beside the
boxes of the band that it crosses, a straight way has no boxes in its path, and a way across hits
none of them.
-/

namespace FlowChart.Route

variable {α : Type} [Scalar α]

/-- How far the lane of an edge is shifted from those of its neighbours. -/
def stagger (config : Config α) (index : Int) : α :=
  ((index % 3 : Int) : α) * config.edgeSpacing

/-- How far the lane of an edge is from what it passes. -/
def laneClearance (config : Config α) (index : Int) : α :=
  config.detourMargin + (index : α) * config.edgeSpacing

/-- A lane is placed beside at least the boxes that reach into a band. -/
def IsLane (boxes : List (Box α)) (y₁ y₂ clearance x : α) : Prop :=
  ∃ obstacles onRight, Box.inBand boxes y₁ y₂ ⊆ obstacles ∧
    laneX obstacles onRight clearance = .ok x

/-- The points that the way of an edge may have. -/
inductive Way (config : Config α) (index : Int) (source target : Box α) (boxes : List (Box α))
    (rowBottom : α) (e : Ends α) : List (Point α) → Prop where
  /-- Back on a side lane. -/
  | back {x exitY entryY}
      (exit : exitY = rowBottom + config.edgeMargin + config.backEdgeClearance +
        stagger config index)
      (entry : entryY = e.finish.y - config.edgeMargin - config.backEdgeClearance -
        stagger config index)
      (lane : IsLane boxes entryY exitY (laneClearance config index) x) :
      Way config index source target boxes rowBottom e (e.along x exitY entryY)
  /-- Down on a side lane. -/
  | around {x exitY entryY}
      (exit : exitY = rowBottom + config.edgeMargin + stagger config index)
      (entry : entryY = e.finish.y - config.edgeMargin - stagger config index)
      (lane : IsLane boxes exitY entryY (laneClearance config index) x) :
      Way config index source target boxes rowBottom e (e.along x exitY entryY)
  /-- Straight down. -/
  | straight (deeper : source.level < target.level)
      (free : Box.between source target boxes config.edgeMargin = []) :
      Way config index source target boxes rowBottom e [e.start, e.finish]
  /-- Down, across and down. -/
  | across {y} (deeper : source.level < target.level)
      (crossing : y = acrossY config.edgeSpacing index e)
      (free : ∀ b ∈ Box.between source target boxes config.edgeMargin,
        e.acrossHits y config.edgeMargin b = false) :
      Way config index source target boxes rowBottom e (e.across y)

/-- The route that an edge may get: its way and its marks, with what has been checked before. -/
inductive Course (config : Config α) (index : Int) (edge : Edge) (source target : Box α)
    (boxes : List (Box α)) (rowBottom : α) (e : Ends α) : Route α → Prop where
  /-- An edge that does not lead deeper goes back on a side lane. -/
  | back {x exitY entryY} (level : target.level ≤ source.level)
      (exit : exitY = rowBottom + config.edgeMargin + config.backEdgeClearance +
        stagger config index)
      (entry : entryY = e.finish.y - config.edgeMargin - config.backEdgeClearance -
        stagger config index)
      (lane : IsLane boxes entryY exitY (laneClearance config index) x) :
      Course config index edge source target boxes rowBottom e
        { edge, points := e.along x exitY entryY, isBack := true, isDetour := true }
  /-- An edge whose way across would hit a box in its path goes around. -/
  | around {x exitY entryY} (deeper : source.level < target.level)
      (hit : ∃ b ∈ Box.between source target boxes config.edgeMargin,
        e.acrossHits (acrossY config.edgeSpacing index e) config.edgeMargin b = true)
      (exit : exitY = rowBottom + config.edgeMargin + stagger config index)
      (entry : entryY = e.finish.y - config.edgeMargin - stagger config index)
      (lane : IsLane boxes exitY entryY (laneClearance config index) x) :
      Course config index edge source target boxes rowBottom e
        { edge, points := e.along x exitY entryY, isDetour := true }
  /-- An edge with nothing in its path, between anchors almost one below the other, goes straight
  down. -/
  | straight (deeper : source.level < target.level)
      (free : Box.between source target boxes config.edgeMargin = [])
      (near : Scalar.magnitude (e.start.x - e.finish.x) < config.straightTolerance) :
      Course config index edge source target boxes rowBottom e
        { edge, points := [e.start, e.finish] }
  /-- Any other edge goes across, where that hits nothing in its path. -/
  | across (deeper : source.level < target.level)
      (crooked : ¬ (Box.between source target boxes config.edgeMargin = [] ∧
        Scalar.magnitude (e.start.x - e.finish.x) < config.straightTolerance))
      (free : ∀ b ∈ Box.between source target boxes config.edgeMargin,
        e.acrossHits (acrossY config.edgeSpacing index e) config.edgeMargin b = false) :
      Course config index edge source target boxes rowBottom e
        { edge, points := e.across (acrossY config.edgeSpacing index e) }

section Marks

variable {config : Config α} {index : Int} {edge : Edge} {source target : Box α}
  {boxes : List (Box α)} {rowBottom : α} {e : Ends α} {r : Route α}

/-- The route is that of the edge. -/
theorem Course.edge_eq (h : Course config index edge source target boxes rowBottom e r) :
    r.edge = edge := by
  cases h <;> rfl

/-- The points of the route are those of a way. -/
theorem Course.way (h : Course config index edge source target boxes rowBottom e r) :
    Way config index source target boxes rowBottom e r.points := by
  cases h with
  | back _ exit entry lane => exact .back exit entry lane
  | around _ _ exit entry lane => exact .around exit entry lane
  | straight deeper free => exact .straight deeper free
  | across deeper _ free => exact .across deeper rfl free

/-- A route counts as going back exactly when its target is not on a deeper level. -/
theorem Course.isBack_eq (h : Course config index edge source target boxes rowBottom e r) :
    r.isBack = decide (target.level ≤ source.level) := by
  cases h with
  | back level => exact (decide_eq_true level).symm
  | around deeper => exact (decide_eq_false (not_le.mpr deeper)).symm
  | straight deeper => exact (decide_eq_false (not_le.mpr deeper)).symm
  | across deeper => exact (decide_eq_false (not_le.mpr deeper)).symm

/-- A route that goes back is a detour, with a turn at each end and one at each end of its lane. -/
theorem Course.isDetour_of_isBack
    (h : Course config index edge source target boxes rowBottom e r) (hback : r.isBack = true) :
    r.isDetour = true ∧ r.points.length = 6 := by
  cases h with
  | back => exact ⟨rfl, rfl⟩
  | around => cases hback
  | straight => cases hback
  | across => cases hback

/-- A route to a deeper level is a detour exactly when the way across would hit a box in its
path. -/
theorem Course.isDetour_iff (h : Course config index edge source target boxes rowBottom e r)
    (hforward : r.isBack = false) :
    r.isDetour = true ↔ ∃ b ∈ Box.between source target boxes config.edgeMargin,
      e.acrossHits (acrossY config.edgeSpacing index e) config.edgeMargin b = true := by
  cases h with
  | back => cases hforward
  | around _ hit => exact iff_of_true rfl hit
  | straight _ free => simp [free]
  | across _ _ free =>
    apply iff_of_false (by simp)
    rintro ⟨b, hb, hit⟩
    rw [free b hb] at hit
    cases hit

/-- A route begins where its way leaves the source. -/
theorem Course.head?_points (h : Course config index edge source target boxes rowBottom e r) :
    r.points.head? = some e.start := by
  cases h <;> rfl

/-- A route ends where its way enters the target. -/
theorem Course.getLast?_points (h : Course config index edge source target boxes rowBottom e r) :
    r.points.getLast? = some e.finish := by
  cases h <;> rfl

end Marks

private theorem succeeds_laneX {obstacles : List (Box α)} (h : obstacles ≠ []) (onRight : Bool)
    (clearance : α) :
    Succeeds (laneX obstacles onRight clearance) fun x ↦
      laneX obstacles onRight clearance = .ok x := by
  obtain ⟨b, rest, rfl⟩ := List.exists_cons_of_ne_nil h
  cases onRight
  · exact ⟨_, rfl, rfl⟩
  · exact ⟨_, rfl, rfl⟩

section Between

variable (config : Config α) (index : Int) (edge : Edge) (source target : Box α)
  (boxes : List (Box α)) (rowBottom : α) (e : Ends α)

private theorem succeeds_back (level : target.level ≤ source.level) :
    Succeeds (back config index edge source target boxes rowBottom e)
      (Course config index edge source target boxes rowBottom e) := by
  apply (succeeds_laneX (List.cons_ne_nil _ _) _ _).bind
  intro x hx
  apply Succeeds.ok
  refine Course.back level rfl rfl ⟨_, _, ?_, hx⟩
  intro b hb
  exact List.mem_cons_of_mem _ (List.mem_cons_of_mem _ hb)

private theorem succeeds_around (deeper : source.level < target.level) {inPath : List (Box α)}
    (hpath : Box.between source target boxes config.edgeMargin = inPath) {b : Box α}
    (hb : b ∈ inPath)
    (hit : e.acrossHits (acrossY config.edgeSpacing index e) config.edgeMargin b = true) :
    Succeeds (around config index edge boxes inPath rowBottom e)
      (Course config index edge source target boxes rowBottom e) := by
  obtain ⟨first, rest, rfl⟩ := List.exists_cons_of_ne_nil (List.ne_nil_of_mem hb)
  apply Succeeds.bind (p := fun _ ↦ True) (.ok trivial)
  intro _ _
  apply Succeeds.bind (p := fun _ ↦ True) (.ok trivial)
  intro _ _
  apply (succeeds_laneX (List.cons_ne_nil _ _) _ _).bind
  intro x hx
  exact .ok (.around deeper ⟨b, hpath ▸ hb, hit⟩ rfl rfl
    ⟨_, _, fun _ hc ↦ List.mem_append_right (first :: rest) hc, hx⟩)

private theorem succeeds_forward (deeper : source.level < target.level) :
    Succeeds (forward config index edge source target boxes rowBottom e)
      (Course config index edge source target boxes rowBottom e) := by
  unfold forward
  dsimp only
  split
  · next hstraight =>
    rw [Bool.and_eq_true, List.isEmpty_iff, decide_eq_true_eq] at hstraight
    exact .ok (.straight deeper hstraight.1 hstraight.2)
  · next hcrooked =>
    rw [Bool.and_eq_true, List.isEmpty_iff, decide_eq_true_eq] at hcrooked
    split
    · next hhit =>
      obtain ⟨b, hb, hit⟩ := List.any_eq_true.mp hhit
      exact succeeds_around config index edge source target boxes rowBottom e deeper rfl hb hit
    · next hfree =>
      rw [Bool.not_eq_true, List.any_eq_false] at hfree
      apply Succeeds.ok
      apply Course.across deeper hcrooked
      intro b hb
      exact Bool.eq_false_iff.mpr (hfree b hb)

/-- The edge between two boxes gets a route, and the route takes one of the courses. -/
theorem succeeds_course (rowBottoms : Table Int α) (sourceOffset targetOffset : α) :
    Succeeds (between config index edge source target boxes rowBottoms sourceOffset targetOffset)
      (Course config index edge source target boxes
        ((rowBottoms.get? source.level).getD source.bottom)
        (Ends.between source target sourceOffset targetOffset)) := by
  unfold between
  dsimp only
  split
  · next hlevel => exact succeeds_back config index edge source target boxes _ _ hlevel
  · next hlevel =>
    exact succeeds_forward config index edge source target boxes _ _ (not_le.mp hlevel)

/-- The edge between two boxes gets a route, and the route takes one of the ways. -/
theorem succeeds_between (rowBottoms : Table Int α) (sourceOffset targetOffset : α) :
    Succeeds (between config index edge source target boxes rowBottoms sourceOffset targetOffset)
      fun r ↦ r.edge = edge ∧ Way config index source target boxes
        ((rowBottoms.get? source.level).getD source.bottom)
        (Ends.between source target sourceOffset targetOffset) r.points :=
  (succeeds_course config index edge source target boxes rowBottoms sourceOffset targetOffset).imp
    fun _ hcourse ↦ ⟨hcourse.edge_eq, hcourse.way⟩

end Between

/-! ### All edges -/

omit [Scalar α] in
/-- An edge that is routed has boxes at its ends, and stands at its position. -/
theorem mem_placedEdges {edges : List Edge} {boxes : Table String (Box α)} {index : Nat}
    {edge : Edge} {source target : Box α}
    (h : (index, edge, source, target) ∈ placedEdges edges boxes) :
    edges[index]? = some edge ∧ boxes.get? edge.source = some source ∧
      boxes.get? edge.target = some target := by
  obtain ⟨⟨edge', index'⟩, hmem, hsome⟩ := List.mem_filterMap.mp h
  dsimp only at hsome
  split at hsome
  · next hsource htarget =>
    cases hsome
    exact ⟨List.mem_zipIdx_iff_getElem?.mp hmem, hsource, htarget⟩
  · exact absurd hsome (by simp)

omit [Scalar α] in
/-- Edges are routed in the order of their positions. -/
theorem pairwise_placedEdges (edges : List Edge) (boxes : Table String (Box α)) :
    (placedEdges edges boxes).Pairwise fun placed placed' ↦ placed.1 < placed'.1 := by
  have hpositions : edges.zipIdx.Pairwise fun e e' ↦ e.2 < e'.2 := by
    rw [← List.pairwise_map, List.zipIdx_map_snd]
    exact List.pairwise_lt_range'
  apply List.pairwise_filterMap.mpr
  apply hpositions.imp
  rintro ⟨edge, index⟩ ⟨edge', index'⟩ hlt placed hplaced placed' hplaced'
  dsimp only at hplaced hplaced'
  split at hplaced
  · split at hplaced'
    · cases hplaced
      cases hplaced'
      exact hlt
    · cases hplaced'
  · cases hplaced

omit [Scalar α] in
/-- The edges that are routed are those with boxes at both ends, in edge order. -/
theorem map_placedEdges_eq_filter (edges : List Edge) (boxes : Table String (Box α)) :
    (placedEdges edges boxes).map (·.2.1) =
      edges.filter fun e ↦ boxes.contains e.source && boxes.contains e.target := by
  unfold placedEdges
  rw [List.map_filterMap]
  calc List.filterMap _ edges.zipIdx
      = edges.zipIdx.filterMap ((Option.guard fun e ↦
          boxes.contains e.source && boxes.contains e.target) ∘ Prod.fst) := by
        refine List.filterMap_congr fun e _ ↦ ?_
        cases hsource : boxes.get? e.1.source with
        | none => simp [Table.contains, hsource, Option.guard]
        | some source =>
          cases htarget : boxes.get? e.1.target with
          | none => simp [Table.contains, hsource, htarget, Option.guard]
          | some target => simp [Table.contains, hsource, htarget]
    _ = edges.filter fun e ↦ boxes.contains e.source && boxes.contains e.target := by
        rw [← List.filterMap_map, List.zipIdx_map_fst, List.filterMap_eq_filter]

omit [Scalar α] in
/-- If all edges have boxes at their ends, all are routed. -/
theorem map_placedEdges {edges : List Edge} {boxes : Table String (Box α)}
    (h : ∀ e ∈ edges, e.source ∈ boxes.keys ∧ e.target ∈ boxes.keys) :
    (placedEdges edges boxes).map (·.2.1) = edges := by
  rw [map_placedEdges_eq_filter, List.filter_eq_self]
  intro e he
  rw [Bool.and_eq_true, Table.contains_iff_mem_keys, Table.contains_iff_mem_keys]
  exact h e he

/-- The widths of some boxes. -/
def widthsOf (boxes : Table String (Box α)) : Table String α :=
  .ofList (boxes.values.map fun b ↦ (b.id, b.width))

/-- A table of boxes by their ids: every box stands under its own id and no other. -/
structure Keyed (boxes : Table String (Box α)) : Prop where
  /-- No id is listed twice. -/
  distinct : boxes.HasDistinctKeys
  /-- A box is found under its id. -/
  named : ∀ {id b}, boxes.get? id = some b → b.id = id

omit [Scalar α] in
/-- Boxes that are listed under their ids stand there. -/
theorem keyed_ofList (boxes : List (Box α)) :
    Keyed (.ofList (boxes.map fun b ↦ (b.id, b)) : Table String (Box α)) where
  distinct := Table.hasDistinctKeys_ofList _
  named hget := by
    obtain ⟨b, -, he⟩ := List.mem_map.mp (Table.get?_ofList_eq_some hget)
    cases he
    rfl

omit [Scalar α] in
/-- The width of a box that stands under its id is known. -/
theorem Keyed.get?_widthsOf {boxes : Table String (Box α)} (h : Keyed boxes) {id : String}
    {b : Box α} (hb : boxes.get? id = some b) : (widthsOf boxes).get? id = some b.width := by
  apply Table.get?_ofList_of_mem
  · exact List.mem_map.mpr ⟨b, h.distinct.mem_values_iff.mpr ⟨id, hb⟩, by rw [h.named hb]⟩
  · intro width hwidth
    obtain ⟨b', hmem, he⟩ := List.mem_map.mp hwidth
    obtain ⟨id', hb'⟩ := h.distinct.mem_values_iff.mp hmem
    cases he
    obtain rfl := h.named hb'
    rw [hb] at hb'
    exact congrArg Box.width (Option.some.inj hb').symm

/-- The ends of the way of an edge at its position, with offsets of the anchors of all edges. -/
def endsAt (offsets : List α × List α) (index : Nat) (source target : Box α) : Ends α :=
  Ends.between source target (offsets.1[index]?.getD ((0 : Nat) : α))
    (offsets.2[index]?.getD ((0 : Nat) : α))

/-- A route of an edge at its position between its boxes. -/
structure Joins (config : Config α) (boxes : List (Box α)) (offsets : List α × List α)
    (placed : Nat × Edge × Box α × Box α) (r : Route α) : Prop where
  /-- The route is that of the edge. -/
  edge : r.edge = placed.2.1
  /-- It takes one of the ways. -/
  way : Way config placed.1 placed.2.2.1 placed.2.2.2 boxes
    (((rowBottoms boxes).get? placed.2.2.1.level).getD placed.2.2.1.bottom)
    (endsAt offsets placed.1 placed.2.2.1 placed.2.2.2) r.points

/-- A route of an edge at its position takes a course between the boxes of the edge. -/
def Follows (config : Config α) (boxes : List (Box α)) (offsets : List α × List α)
    (placed : Nat × Edge × Box α × Box α) (r : Route α) : Prop :=
  Course config placed.1 placed.2.1 placed.2.2.1 placed.2.2.2 boxes
    (((rowBottoms boxes).get? placed.2.2.1.level).getD placed.2.2.1.bottom)
    (endsAt offsets placed.1 placed.2.2.1 placed.2.2.2) r

/-- All edges between boxes get routes, in edge order, and each route takes a course. -/
theorem succeeds_ofEdges_follows (config : Config α) (edges : List Edge)
    (boxes : Table String (Box α)) :
    Succeeds (ofEdges config edges boxes) fun routes ↦ ∃ offsets,
      Anchor.ofEdges edges config.parallelOffset (some (widthsOf boxes)) config.edgeMargin =
        .ok offsets ∧
      List.Forall₂ (Follows config boxes.values offsets) (placedEdges edges boxes) routes := by
  obtain ⟨offsets, hoffsets, _⟩ := Anchor.succeeds_ofEdges config.parallelOffset config.edgeMargin
    edges (some (widthsOf boxes))
  apply Succeeds.bind (p := (offsets = ·)) ⟨offsets, hoffsets, rfl⟩
  intro _ he
  subst he
  have heach : ∀ placed ∈ placedEdges edges boxes, Succeeds
      (between config placed.1 placed.2.1 placed.2.2.1 placed.2.2.2 boxes.values
        (rowBottoms boxes.values) (offsets.1[placed.1]?.getD ((0 : Nat) : α))
        (offsets.2[placed.1]?.getD ((0 : Nat) : α)))
      (Follows config boxes.values offsets placed) := fun placed _ ↦
    succeeds_course config _ _ _ _ _ _ _ _
  exact (Succeeds.mapM heach).imp fun routes hroutes ↦ ⟨offsets, hoffsets, hroutes⟩

/-- All edges between boxes get routes, in edge order. -/
theorem succeeds_ofEdges (config : Config α) (edges : List Edge) (boxes : Table String (Box α)) :
    Succeeds (ofEdges config edges boxes) fun routes ↦ ∃ offsets,
      Anchor.ofEdges edges config.parallelOffset (some (widthsOf boxes)) config.edgeMargin =
        .ok offsets ∧
      List.Forall₂ (Joins config boxes.values offsets) (placedEdges edges boxes) routes := by
  apply (succeeds_ofEdges_follows config edges boxes).imp
  rintro routes ⟨offsets, hoffsets, hfollows⟩
  exact ⟨offsets, hoffsets, hfollows.imp fun _ _ hcourse ↦ ⟨hcourse.edge_eq, hcourse.way⟩⟩

/-- Which edges count as going back follows from the levels of the boxes at their ends. -/
theorem isBack_of_ofEdges {config : Config α} {edges : List Edge} {boxes : Table String (Box α)}
    {routes : List (Route α)} (h : ofEdges config edges boxes = .ok routes) :
    List.Forall₂ (fun placed r ↦ r.edge = placed.2.1 ∧
      r.isBack = decide (placed.2.2.2.level ≤ placed.2.2.1.level))
      (placedEdges edges boxes) routes := by
  obtain ⟨offsets, -, hfollows⟩ := (succeeds_ofEdges_follows config edges boxes).of_eq_ok h
  exact hfollows.imp fun _ _ hcourse ↦ ⟨hcourse.edge_eq, hcourse.isBack_eq⟩

/-- Routes that are exactly those of the edges between boxes. -/
structure Serves (edges : List Edge) (boxes : Table String (Box α)) (routes : List (Route α)) :
    Prop where
  /-- Every edge with boxes at both ends has one route, in edge order, and no other edge has. -/
  edges : routes.map (·.edge) =
    edges.filter fun e ↦ boxes.contains e.source && boxes.contains e.target
  /-- A route goes back exactly when its target is not on a deeper level than its source. -/
  back : ∀ r ∈ routes, ∃ source target, boxes.get? r.edge.source = some source ∧
    boxes.get? r.edge.target = some target ∧ (r.isBack = true ↔ target.level ≤ source.level)
  /-- A route that goes back is a detour of six points. -/
  detour : ∀ r ∈ routes, r.isBack = true → r.isDetour = true ∧ r.points.length = 6

/-- The routes that are found are those of the edges between boxes. -/
theorem succeeds_ofEdges_serves (config : Config α) (edges : List Edge)
    (boxes : Table String (Box α)) :
    Succeeds (ofEdges config edges boxes) (Serves edges boxes) := by
  apply (succeeds_ofEdges_follows config edges boxes).imp
  rintro routes ⟨offsets, -, hfollows⟩
  constructor
  · rw [map_eq_of_forall₂ (fun _ _ hcourse ↦ hcourse.edge_eq) hfollows]
    exact map_placedEdges_eq_filter edges boxes
  · intro r hr
    obtain ⟨⟨index, edge, source, target⟩, hplaced, hcourse⟩ := exists_of_forall₂ hfollows hr
    obtain ⟨-, hsource, htarget⟩ := mem_placedEdges hplaced
    rw [hcourse.edge_eq, hcourse.isBack_eq, decide_eq_true_iff]
    exact ⟨source, target, hsource, htarget, Iff.rfl⟩
  · intro r hr
    obtain ⟨placed, -, hcourse⟩ := exists_of_forall₂ hfollows hr
    exact hcourse.isDetour_of_isBack

end FlowChart.Route
