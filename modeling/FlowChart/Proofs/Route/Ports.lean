import FlowChart.Proofs.Route.Ways
import Mathlib.Order.Interval.Set.Defs

/-!
# Where routes meet their blocks

In exact arithmetic a route starts on the bottom side of its source and ends on the top side of its
target. Where the side has room for it, the anchor keeps a margin from the corners, and different
edges have different anchors.
-/

namespace FlowChart.Route

variable {config : Config Rat} {edges : List Edge} {boxes : Table String (Box Rat)}
  {offsets : List Rat × List Rat} {index : Nat} {edge : Edge} {source target : Box Rat}
  {r : Route Rat}

/-- A route meets its blocks at the right sides, and where a side has room for it, a margin inside
the corners. -/
structure IsAnchored (margin : Rat) (source target : Box Rat) (r : Route Rat) : Prop where
  /-- The route starts on the bottom side of the source. -/
  start : ∃ p, r.points.head? = some p ∧ p.y = source.bottom ∧
    (2 * margin ≤ source.width → p.x ∈ Set.Icc (source.x + margin) (source.right - margin))
  /-- It ends on the top side of the target. -/
  finish : ∃ p, r.points.getLast? = some p ∧ p.y = target.y ∧
    (2 * margin ≤ target.width → p.x ∈ Set.Icc (target.x + margin) (target.right - margin))

/-- Two routes have different anchors on each side that they share and that has room for them. -/
structure AnchoredApart (margin : Rat) (boxes : Table String (Box Rat)) (r r' : Route Rat) :
    Prop where
  /-- They start at different points of the source. -/
  start : ∀ b, boxes.get? r.edge.source = some b → r'.edge.source = r.edge.source →
    2 * margin < b.width → r.points.head? ≠ r'.points.head?
  /-- They end at different points of the target. -/
  finish : ∀ b, boxes.get? r.edge.target = some b → r'.edge.target = r.edge.target →
    2 * margin < b.width → r.points.getLast? ≠ r'.points.getLast?

private theorem mem_side_of_abs_le {x width margin offset : Rat} (hwide : 2 * margin ≤ width)
    (h : |offset| ≤ max (width - 2 * margin) 0 / 2) :
    x + width / 2 + offset ∈ Set.Icc (x + margin) (x + width - margin) := by
  rw [max_eq_left (sub_nonneg.mpr hwide), abs_le] at h
  constructor <;> linarith

section Anchors

variable (hkeyed : Keyed boxes)
  (hanchors : Anchor.ofEdges edges config.parallelOffset (some (widthsOf boxes)) config.edgeMargin =
    .ok offsets)
include hkeyed hanchors

/-- The anchors of an edge lie within the room of its blocks. -/
theorem abs_offsets_le (hparallel : 0 ≤ config.parallelOffset) (hedge : edges[index]? = some edge)
    (hsource : boxes.get? edge.source = some source)
    (htarget : boxes.get? edge.target = some target) :
    |offsets.1[index]?.getD 0| ≤ max (source.width - 2 * config.edgeMargin) 0 / 2 ∧
      |offsets.2[index]?.getD 0| ≤ max (target.width - 2 * config.edgeMargin) 0 / 2 := by
  obtain ⟨hsources, htargets⟩ := (Anchor.succeeds_ofEdges config.parallelOffset config.edgeMargin
    edges (some (widthsOf boxes))).of_eq_ok hanchors
  constructor
  · exact Anchor.abs_getD_offsets_le hsources (hkeyed.get?_widthsOf hsource) hparallel
      (by simp [hedge])
  · exact Anchor.abs_getD_offsets_le htargets (hkeyed.get?_widthsOf htarget) hparallel
      (by simp [hedge])

/-- The route of an edge is anchored at its blocks. -/
theorem Follows.isAnchored (hparallel : 0 ≤ config.parallelOffset)
    (hplaced : (index, edge, source, target) ∈ placedEdges edges boxes)
    (h : Follows config boxes.values offsets (index, edge, source, target) r) :
    IsAnchored config.edgeMargin source target r := by
  obtain ⟨hedge, hsource, htarget⟩ := mem_placedEdges hplaced
  obtain ⟨hstart, hfinish⟩ := abs_offsets_le hkeyed hanchors hparallel hedge hsource htarget
  constructor
  · exact ⟨_, h.head?_points, rfl, fun hwide ↦ mem_side_of_abs_le hwide hstart⟩
  · exact ⟨_, h.getLast?_points, rfl, fun hwide ↦ mem_side_of_abs_le hwide hfinish⟩

/-- The routes of two edges are anchored apart. -/
theorem Follows.anchoredApart (hparallel : 0 < config.parallelOffset) {index' : Nat} {edge' : Edge}
    {source' target' : Box Rat} {r' : Route Rat}
    (hplaced : (index, edge, source, target) ∈ placedEdges edges boxes)
    (hplaced' : (index', edge', source', target') ∈ placedEdges edges boxes) (hlt : index < index')
    (h : Follows config boxes.values offsets (index, edge, source, target) r)
    (h' : Follows config boxes.values offsets (index', edge', source', target') r') :
    AnchoredApart config.edgeMargin boxes r r' := by
  obtain ⟨hedge, hsource, htarget⟩ := mem_placedEdges hplaced
  obtain ⟨hedge', hsource', htarget'⟩ := mem_placedEdges hplaced'
  obtain ⟨hsources, htargets⟩ := (Anchor.succeeds_ofEdges config.parallelOffset config.edgeMargin
    edges (some (widthsOf boxes))).of_eq_ok hanchors
  obtain rfl : r.edge = edge := h.edge_eq
  obtain rfl : r'.edge = edge' := h'.edge_eq
  constructor
  · intro b hb hshared hwide hsame
    obtain rfl : source = b := Option.some.inj (hsource.symm.trans hb)
    obtain rfl : source' = source := Option.some.inj (hsource'.symm.trans (hshared ▸ hb))
    have hbefore := Anchor.getD_offsets_lt hsources (hkeyed.get?_widthsOf hb) hparallel hwide hlt
      (by simp [hedge]) (by simp [hedge', hshared])
    rw [h.head?_points, h'.head?_points] at hsame
    exact hbefore.ne (add_left_cancel (congrArg Point.x (Option.some.inj hsame)))
  · intro b hb hshared hwide hsame
    obtain rfl : target = b := Option.some.inj (htarget.symm.trans hb)
    obtain rfl : target' = target := Option.some.inj (htarget'.symm.trans (hshared ▸ hb))
    have hbefore := Anchor.getD_offsets_lt htargets (hkeyed.get?_widthsOf hb) hparallel hwide hlt
      (by simp [hedge]) (by simp [hedge', hshared])
    rw [h.getLast?_points, h'.getLast?_points] at hsame
    exact hbefore.ne (add_left_cancel (congrArg Point.x (Option.some.inj hsame)))

end Anchors

/-- The anchors of all edges that share a source, or a target, of known width are a fan. So every
route meets its blocks at the right sides, a margin inside the corners, and no two routes share an
anchor, where the blocks have room for it. -/
theorem exists_ofEdges_anchored (edges : List Edge) {spacing : Rat} (margin : Rat)
    (widths : Table String Rat) (hspacing : 0 ≤ spacing) (config : Config Rat)
    (hparallel : 0 ≤ config.parallelOffset) (boxes : Table String (Box Rat))
    (hkeyed : Keyed boxes) :
    (∃ sources targets,
      Anchor.ofEdges edges spacing (some widths) margin = .ok (sources, targets) ∧
      ∀ id width, widths.get? id = some width →
        Anchor.IsFan spacing margin width ((edges.map (·.source)).count id)
          (Anchor.offsetsOf (edges.map (·.source)) sources id) ∧
        Anchor.IsFan spacing margin width ((edges.map (·.target)).count id)
          (Anchor.offsetsOf (edges.map (·.target)) targets id)) ∧
    ∃ routes, ofEdges config edges boxes = .ok routes ∧
      (∀ r ∈ routes, ∃ source target, boxes.get? r.edge.source = some source ∧
        boxes.get? r.edge.target = some target ∧
          IsAnchored config.edgeMargin source target r) ∧
      (0 < config.parallelOffset → routes.Pairwise (AnchoredApart config.edgeMargin boxes)) := by
  constructor
  · obtain ⟨⟨sources, targets⟩, hok, hsources, htargets⟩ :=
      Anchor.succeeds_ofEdges spacing margin edges (some widths)
    refine ⟨sources, targets, hok, fun id width hwidth ↦ ⟨?_, ?_⟩⟩
    · exact Anchor.isFan_offsetsOf hsources hwidth hspacing
    · exact Anchor.isFan_offsetsOf htargets hwidth hspacing
  · obtain ⟨routes, hroutes, offsets, hanchors, hfollows⟩ :=
      succeeds_ofEdges_follows config edges boxes
    refine ⟨routes, hroutes, fun r hr ↦ ?_, fun hpos ↦ ?_⟩
    · obtain ⟨⟨index, edge, source, target⟩, hplaced, h⟩ := exists_of_forall₂ hfollows hr
      obtain ⟨-, hsource, htarget⟩ := mem_placedEdges hplaced
      rw [h.edge_eq]
      exact ⟨source, target, hsource, htarget,
        h.isAnchored hkeyed hanchors hparallel hplaced⟩
    · have hordered := List.Pairwise.and_mem.mp (pairwise_placedEdges edges boxes)
      refine pairwise_of_forall₂ ?_ hfollows hordered
      rintro ⟨index, edge, source, target⟩ ⟨index', edge', source', target'⟩ r r'
        ⟨hplaced, hplaced', hlt⟩ h h'
      exact h.anchoredApart hkeyed hanchors hpos hplaced hplaced' hlt h'

/-- Two edges side by side, and one back, are anchored so with the settings that are used unless
others are given. -/
theorem exists_ofEdges_anchored_pair :
    let edges : List Edge := [⟨"a", "b", .conditionalTrue⟩, ⟨"b", "a", .unconditional⟩,
      ⟨"a", "b", .conditionalFalse⟩]
    let widths : Table String Rat := .ofList [("a", 20), ("b", 100)]
    let config : Config Rat := .standard
    let boxes : List (Box Rat) := [
      { id := "a", x := 0, y := 0, width := 300, height := 60 },
      { id := "b", x := 0, y := 140, width := 300, height := 60, level := 1 }]
    let placed : Table String (Box Rat) := .ofList (boxes.map fun b ↦ (b.id, b))
    0 ≤ (8 : Rat) ∧ 0 ≤ config.parallelOffset ∧ Keyed placed ∧
    (∃ sources targets,
      Anchor.ofEdges edges 8 (some widths) 5 = .ok (sources, targets) ∧
      ∀ id width, widths.get? id = some width →
        Anchor.IsFan 8 5 width ((edges.map (·.source)).count id)
          (Anchor.offsetsOf (edges.map (·.source)) sources id) ∧
        Anchor.IsFan 8 5 width ((edges.map (·.target)).count id)
          (Anchor.offsetsOf (edges.map (·.target)) targets id)) ∧
    ∃ routes, ofEdges config edges placed = .ok routes ∧
      (∀ r ∈ routes, ∃ source target, placed.get? r.edge.source = some source ∧
        placed.get? r.edge.target = some target ∧
          IsAnchored config.edgeMargin source target r) ∧
      (0 < config.parallelOffset → routes.Pairwise (AnchoredApart config.edgeMargin placed)) := by
  intro edges widths config boxes placed
  have hspacing : 0 ≤ (8 : Rat) := by norm_num
  have hparallel : 0 ≤ config.parallelOffset := by norm_num [config, Config.standard]
  have hkeyed : Keyed placed := keyed_ofList boxes
  exact ⟨hspacing, hparallel, hkeyed,
    exists_ofEdges_anchored edges 5 widths hspacing config hparallel placed hkeyed⟩

end FlowChart.Route
