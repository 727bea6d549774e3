import FlowChart.Proofs.Charts
import FlowChart.Proofs.Route.Pieces
import FlowChart.Proofs.Route.Ports

/-!
# Routes keep their distance

In exact arithmetic no route passes through a block. Horizontal pieces run in the gaps between
levels, vertical pieces stand in front of the blocks that they end at, and side lanes pass all boxes
of the band that they cross. A route without side lane stays within the rectangle around its ends,
so that only the boxes in that rectangle had to be tested.
-/

namespace FlowChart

namespace Route

/-- A point lies on one of the segments between neighbouring points. -/
def Passes (points : List (Point Rat)) (p : Point Rat) : Prop :=
  ∃ segment ∈ points.zip points.tail, Point.Between segment.1 segment.2 p

private theorem passes_cons_cons {a b p : Point Rat} {rest : List (Point Rat)} :
    Passes (a :: b :: rest) p ↔ Point.Between a b p ∨ Passes (b :: rest) p := by
  simp [Passes]

private theorem not_passes_singleton (a p : Point Rat) : ¬ Passes [a] p := by
  simp [Passes]

/-- A point lies in no box, grown by the margin, apart from the ends of a route, which are not
grown. -/
structure KeepsOff (config : Config Rat) (boxes : List (Box Rat)) (source target : Box Rat)
    (p : Point Rat) : Prop where
  /-- The point is not inside the source. -/
  outside_source : ¬ source.Encloses 0 p
  /-- The point is not inside the target. -/
  outside_target : ¬ target.Encloses 0 p
  /-- The point keeps a margin from all other boxes. -/
  apart : ∀ b ∈ boxes, b ≠ source → b ≠ target → ¬ b.Encloses config.edgeMargin p

/-- The ends of a way lie on the bottom side of the source and on the top side of the target. -/
structure Ends.Meet (source target : Box Rat) (e : Ends Rat) : Prop where
  /-- The way starts below the source. -/
  start_y : e.start.y = source.bottom
  /-- It does not start left of the source. -/
  le_start : source.x ≤ e.start.x
  /-- It does not start right of the source. -/
  start_le : e.start.x ≤ source.right
  /-- The way ends above the target. -/
  finish_y : e.finish.y = target.y
  /-- It does not end left of the target. -/
  le_finish : target.x ≤ e.finish.x
  /-- It does not end right of the target. -/
  finish_le : e.finish.x ≤ target.right

variable {config : Config Rat} {boxes : List (Box Rat)} {source target : Box Rat} {e : Ends Rat}
  {p : Point Rat}

/-- A way starts within the abscissas of the rectangle around its boxes. -/
theorem Ends.Meet.start_mem_spanX (h : e.Meet source target) :
    e.start.x ∈ Box.spanX source target :=
  ⟨(min_le_left _ _).trans h.le_start, h.start_le.trans (le_max_left _ _)⟩

/-- It ends there, too. -/
theorem Ends.Meet.finish_mem_spanX (h : e.Meet source target) :
    e.finish.x ∈ Box.spanX source target :=
  ⟨(min_le_right _ _).trans h.le_finish, h.finish_le.trans (le_max_right _ _)⟩

/-- Heights between the ends of a way are within the rectangle around its boxes. -/
theorem Ends.Meet.subset_spanY (h : e.Meet source target) (hheight : 0 ≤ source.height)
    (hheight' : 0 ≤ target.height) :
    Set.Icc e.start.y e.finish.y ⊆ Box.spanY source target := by
  have hsourceSides : source.y + source.height = source.bottom := rfl
  have htargetSides : target.y + target.height = target.bottom := rfl
  rw [h.start_y, h.finish_y]
  apply Set.Icc_subset_Icc
  · exact (min_le_left _ _).trans (by linarith)
  · exact le_trans (by linarith) (le_max_right _ _)

private theorem keepsOff_of_apart (hc : config.FitsRoutes) (hsource : source ∈ boxes)
    (htarget : target ∈ boxes) {c : Box Rat} (hend : c = source ∨ c = target)
    (hinside : ¬ c.Encloses 0 p)
    (hothers : ∀ b ∈ boxes, b ≠ c → ¬ b.Encloses config.edgeMargin p) :
    KeepsOff config boxes source target p := by
  have hplain : ∀ b ∈ boxes, ¬ b.Encloses 0 p := by
    intro b hb henclosed
    by_cases hbc : b = c
    · exact hinside (hbc ▸ henclosed)
    · exact hothers b hb hbc (henclosed.grow hc.edgeMargin)
  constructor
  · exact hplain source hsource
  · exact hplain target htarget
  · intro b hb hne hne'
    apply hothers b hb
    rcases hend with rfl | rfl
    · exact hne
    · exact hne'

private theorem keepsOff_of_forall (hc : config.FitsRoutes) (hsource : source ∈ boxes)
    (htarget : target ∈ boxes) (h : ∀ b ∈ boxes, ¬ b.Encloses config.edgeMargin p) :
    KeepsOff config boxes source target p :=
  keepsOff_of_apart hc hsource htarget (.inl rfl)
    (fun henclosed ↦ h source hsource (henclosed.grow hc.edgeMargin)) fun b hb _ ↦ h b hb

/-! ### Side lanes -/

section Lanes

variable (hroom : Roomy config boxes) (hc : config.FitsRoutes) (hsource : source ∈ boxes)
  (htarget : target ∈ boxes) (hends : e.Meet source target)
include hroom hc hsource htarget hends

private theorem keepsOff_start {y : Rat} (hgap : InGap config.edgeMargin boxes source.level y)
    (hx : p.x = e.start.x) (hy : p.y ∈ Set.uIcc e.start.y y) :
    KeepsOff config boxes source target p := by
  have hmargin := hc.edgeMargin
  have hdown : e.start.y ≤ y := by
    have := hgap.above source hsource le_rfl
    rw [hends.start_y]
    linarith
  rw [Set.uIcc_of_le hdown, hends.start_y] at hy
  obtain ⟨hge, hle⟩ := hy
  apply keepsOff_of_apart hc hsource htarget (.inl rfl)
  · rintro ⟨-, -, -, hbottom⟩
    linarith
  · intro b hb hne
    refine hroom.not_encloses_of_beside hsource (hx ▸ hends.le_start) (hx ▸ hends.start_le)
      ?_ ?_ hb hne
    · intro b hb hlevel
      have hbelow := hroom.below b hb source hsource hlevel
      have hsides : source.y + source.height = source.bottom := rfl
      have := hroom.height source hsource
      have := hc.margin_le_vGap
      linarith
    · intro b hb hlevel
      have := hgap.below b hb hlevel
      linarith

private theorem keepsOff_finish {y : Rat}
    (hgap : InGap config.edgeMargin boxes (target.level - 1) y)
    (hx : p.x = e.finish.x) (hy : p.y ∈ Set.uIcc y e.finish.y) :
    KeepsOff config boxes source target p := by
  have hmargin := hc.edgeMargin
  have hdown : y ≤ e.finish.y := by
    have := hgap.below target htarget (by omega)
    rw [hends.finish_y]
    linarith
  rw [Set.uIcc_of_le hdown, hends.finish_y] at hy
  obtain ⟨hge, hle⟩ := hy
  apply keepsOff_of_apart hc hsource htarget (.inr rfl)
  · rintro ⟨-, -, htop, -⟩
    linarith
  · intro b hb hne
    refine hroom.not_encloses_of_beside htarget (hx ▸ hends.le_finish) (hx ▸ hends.finish_le)
      ?_ ?_ hb hne
    · intro b hb hlevel
      have := hgap.above b hb (by omega)
      linarith
    · intro b hb hlevel
      have hbelow := hroom.below target htarget b hb hlevel
      have hsides : target.y + target.height = target.bottom := rfl
      have := hroom.height target htarget
      have := hc.margin_le_vGap
      linarith

/-- A way along a side lane between two gaps keeps its distance, if the lane does. -/
theorem keepsOff_along {x exitY entryY : Rat}
    (hexit : InGap config.edgeMargin boxes source.level exitY)
    (hentry : InGap config.edgeMargin boxes (target.level - 1) entryY)
    (hlane : ∀ p : Point Rat, p.x = x → p.y ∈ Set.uIcc exitY entryY →
      ∀ b ∈ boxes, ¬ b.Encloses config.edgeMargin p)
    (hp : Passes (e.along x exitY entryY) p) : KeepsOff config boxes source target p := by
  simp only [Ends.along, passes_cons_cons, not_passes_singleton, or_false] at hp
  rcases hp with hp | hp | hp | hp | hp
  · obtain ⟨hx, hy⟩ := hp.vertical rfl
    exact keepsOff_start hroom hc hsource htarget hends hexit hx hy
  · obtain ⟨-, hy⟩ := hp.horizontal rfl
    exact keepsOff_of_forall hc hsource htarget fun b hb ↦ hexit.not_encloses hb hy
  · obtain ⟨hx, hy⟩ := hp.vertical rfl
    exact keepsOff_of_forall hc hsource htarget (hlane p hx hy)
  · obtain ⟨-, hy⟩ := hp.horizontal rfl
    exact keepsOff_of_forall hc hsource htarget fun b hb ↦ hentry.not_encloses hb hy
  · obtain ⟨hx, hy⟩ := hp.vertical rfl
    exact keepsOff_finish hroom hc hsource htarget hends hentry hx hy

end Lanes

/-! ### Ways without side lane -/

/-- A point within the rectangle around the ends keeps its distance from everything that is not in
the path. -/
theorem keepsOff_direct (hroom : Roomy config boxes) (hsource : source ∈ boxes)
    (htarget : target ∈ boxes) (hends : e.Meet source target)
    (hx : p.x ∈ Set.uIcc e.start.x e.finish.x) (hy : p.y ∈ Set.Icc e.start.y e.finish.y)
    (hpath : ∀ b ∈ Box.between source target boxes config.edgeMargin,
      ¬ b.Encloses config.edgeMargin p) : KeepsOff config boxes source target p := by
  have hspanX : p.x ∈ Box.spanX source target :=
    Set.uIcc_subset_Icc hends.start_mem_spanX hends.finish_mem_spanX hx
  have hspanY : p.y ∈ Box.spanY source target :=
    hends.subset_spanY (hroom.height source hsource) (hroom.height target htarget) hy
  obtain ⟨hstart, hfinish⟩ := hy
  rw [hends.start_y] at hstart
  rw [hends.finish_y] at hfinish
  constructor
  · rintro ⟨-, -, -, hinside⟩
    linarith
  · rintro ⟨-, -, hinside, -⟩
    linarith
  · intro b hb hne hne' henclosed
    have hid : b.id ≠ source.id := fun hid ↦ hne (hroom.unique b hb source hsource hid)
    have hid' : b.id ≠ target.id := fun hid ↦ hne' (hroom.unique b hb target htarget hid)
    refine hpath b ?_ henclosed
    obtain ⟨hleft, hright, htop, hbottom⟩ := henclosed
    exact Box.mem_between_of_reaches hb hid hid' hspanX hspanX hspanY hspanY hleft hright htop
      hbottom

/-- A box that encloses a point of a way across is hit by the way. -/
theorem acrossHits_of_encloses {y margin : Rat} (hp : Passes (e.across y) p) {b : Box Rat}
    (h : b.Encloses margin p) : e.acrossHits y margin b = true := by
  simp only [Ends.across, passes_cons_cons, not_passes_singleton, or_false] at hp
  rw [Ends.acrossHits, Bool.or_eq_true, Bool.or_eq_true]
  rcases hp with hp | hp | hp
  · exact .inl (.inl (Piece.hits_of_encloses (.vertical e.start.x e.start.y y) hp h))
  · exact .inl (.inr (Piece.hits_of_encloses (.horizontal y e.start.x e.finish.x) hp h))
  · exact .inr (Piece.hits_of_encloses (.vertical e.finish.x y e.finish.y) hp h)

private theorem mem_rect_of_across {y : Rat} (hy : y ∈ Set.Icc e.start.y e.finish.y)
    (hp : Passes (e.across y) p) :
    p.x ∈ Set.uIcc e.start.x e.finish.x ∧ p.y ∈ Set.Icc e.start.y e.finish.y := by
  simp only [Ends.across, passes_cons_cons, not_passes_singleton, or_false] at hp
  obtain ⟨hstart, hfinish⟩ := hy
  rcases hp with hp | hp | hp
  · obtain ⟨hx, hy⟩ := hp.vertical rfl
    rw [Set.uIcc_of_le hstart] at hy
    exact ⟨hx ▸ Set.left_mem_uIcc, hy.1, hy.2.trans hfinish⟩
  · obtain ⟨hx, hy⟩ := hp.horizontal rfl
    exact ⟨hx, hy ▸ hstart, hy ▸ hfinish⟩
  · obtain ⟨hx, hy⟩ := hp.vertical rfl
    rw [Set.uIcc_of_le hfinish] at hy
    exact ⟨hx ▸ Set.right_mem_uIcc, hstart.trans hy.1, hy.2⟩

/-! ### All ways -/

private theorem margin_le_laneClearance (hc : config.FitsRoutes) (index : Nat) :
    config.edgeMargin ≤ laneClearance config index := by
  have hpos : (0 : Rat) ≤ ((index : Int) : Rat) := by exact_mod_cast Nat.zero_le index
  have := mul_nonneg hpos hc.edgeSpacing
  have := hc.margin_le_detourMargin
  unfold laneClearance
  linarith

/-- Whichever way an edge takes, it keeps its distance from all boxes. -/
theorem Way.keepsOff (hroom : Roomy config boxes) (hc : config.FitsRoutes)
    (hsource : source ∈ boxes) (htarget : target ∈ boxes) (hends : e.Meet source target)
    {index : Nat} {rowBottom : Rat} (hrow : IsLowest boxes source.level rowBottom)
    {points : List (Point Rat)} (h : Way config index source target boxes rowBottom e points)
    (hp : Passes points p) : KeepsOff config boxes source target p := by
  obtain ⟨hnonneg, hstagger⟩ := stagger_bounds hc.edgeSpacing index
  have hclearance := hc.backEdgeClearance
  have hlane := margin_le_laneClearance hc index
  cases h with
  | back exit entry lane =>
    have hexit := hroom.inGap_exit hc hsource hrow (add_nonneg hclearance hnonneg) (by linarith)
    have hentry := hroom.inGap_entry hc htarget (add_nonneg hclearance hnonneg) (by linarith)
    rw [← add_assoc, ← exit] at hexit
    rw [← hends.finish_y, ← sub_sub, ← entry] at hentry
    refine keepsOff_along hroom hc hsource htarget hends hexit hentry (fun p hx hy b hb ↦ ?_) hp
    rw [Set.uIcc_comm] at hy
    exact lane.not_encloses hlane hentry hexit hb (hroom.height b hb) hx hy
  | around exit entry lane =>
    have hexit := hroom.inGap_exit hc hsource hrow hnonneg (by linarith)
    have hentry := hroom.inGap_entry hc htarget hnonneg (by linarith)
    rw [← exit] at hexit
    rw [← hends.finish_y, ← entry] at hentry
    refine keepsOff_along hroom hc hsource htarget hends hexit hentry (fun p hx hy b hb ↦ ?_) hp
    exact lane.not_encloses hlane hexit hentry hb (hroom.height b hb) hx hy
  | straight deeper free =>
    simp only [passes_cons_cons, not_passes_singleton, or_false] at hp
    obtain ⟨hx, hy⟩ := hp.mem_uIcc
    have hgap := hroom.below source hsource target htarget deeper
    have hdown : e.start.y ≤ e.finish.y := by
      have := hc.vGap
      rw [hends.start_y, hends.finish_y]
      linarith
    rw [Set.uIcc_of_le hdown] at hy
    exact keepsOff_direct hroom hsource htarget hends hx hy (by simp [free])
  | across deeper crossing free =>
    have hgap := hroom.below source hsource target htarget deeper
    rw [← hends.start_y, ← hends.finish_y] at hgap
    obtain ⟨hx, hy⟩ := mem_rect_of_across
      (crossing ▸ acrossY_mem_Icc hc.edgeSpacing hc.crossings_le_vGap hgap index) hp
    apply keepsOff_direct hroom hsource htarget hends hx hy
    intro b hb henclosed
    have hhit := acrossHits_of_encloses hp henclosed
    rw [free b hb] at hhit
    exact absurd hhit (by simp)

private theorem half_room_le {margin width : Rat} (hmargin : 0 ≤ margin) (hwidth : 0 ≤ width) :
    max (width - 2 * margin) 0 / 2 ≤ width / 2 := by
  have := max_le (show width - 2 * margin ≤ width by linarith) hwidth
  linarith

/-- Anchors that stay within half of the width are met. -/
private theorem meet_between {sourceOffset targetOffset : Rat}
    (hsource : |sourceOffset| ≤ source.width / 2) (htarget : |targetOffset| ≤ target.width / 2) :
    (Ends.between source target sourceOffset targetOffset).Meet source target := by
  rw [abs_le] at hsource htarget
  have hsourceRight : source.right = source.x + source.width := rfl
  have htargetRight : target.right = target.x + target.width := rfl
  have hsourceCenter : source.centerX = source.x + source.width / 2 := rfl
  have htargetCenter : target.centerX = target.x + target.width / 2 := rfl
  refine ⟨rfl, ?_, ?_, rfl, ?_, ?_⟩ <;> simp only [Ends.between] <;> linarith

/-- The ends of the way of an edge lie on the sides of its boxes. -/
theorem meet_endsAt {edges : List Edge} {boxes : Table String (Box Rat)}
    {offsets : List Rat × List Rat} (hkeyed : Keyed boxes)
    (hanchors : Anchor.ofEdges edges config.parallelOffset (some (widthsOf boxes))
      config.edgeMargin = .ok offsets)
    (hparallel : 0 ≤ config.parallelOffset) (hmargin : 0 ≤ config.edgeMargin)
    {index : Nat} {edge : Edge} (hedge : edges[index]? = some edge)
    (hsource : boxes.get? edge.source = some source)
    (htarget : boxes.get? edge.target = some target) (hwidth : 0 ≤ source.width)
    (hwidth' : 0 ≤ target.width) : (endsAt offsets index source target).Meet source target := by
  obtain ⟨hstart, hfinish⟩ := abs_offsets_le hkeyed hanchors hparallel hedge hsource htarget
  exact meet_between (hstart.trans (half_room_le hmargin hwidth))
    (hfinish.trans (half_room_le hmargin hwidth'))

end Route

namespace Chart.Drawn

variable {g : Graph} {config : Config Rat} {steps : PlacementSteps Rat}
  {offsets : List Rat × List Rat} {chart : Chart Rat}

private theorem meet_endsAt (h : chart.Drawn g config steps offsets) (hc : config.FitsRoutes)
    {index : Nat} {edge : Edge} {source target : Box Rat} (hedge : g.edges[index]? = some edge)
    (hsource : chart.boxes.get? edge.source = some source)
    (htarget : chart.boxes.get? edge.target = some target) :
    (Route.endsAt offsets index source target).Meet source target := by
  have hroom := Route.roomy_of_readOff h.readOff h.sound hc
  exact Route.meet_endsAt h.keyed h.anchors hc.parallelOffset hc.edgeMargin hedge hsource htarget
    (hroom.width source (h.readOff.mem_values hsource))
    (hroom.width target (h.readOff.mem_values htarget))

end Chart.Drawn

/-- No route passes through a box: no point of its segments lies strictly inside the boxes at its
ends, and all other boxes keep a margin from it. -/
def Chart.RoutesKeepOff (chart : Chart Rat) (config : Config Rat) : Prop :=
  ∀ route ∈ chart.routes, ∀ p, Route.Passes route.points p →
    ∀ id box, chart.boxes.get? id = some box →
      ¬ box.Encloses
        (if id = route.edge.source ∨ id = route.edge.target then 0 else config.edgeMargin) p

/-- Every graph with an entry is drawn, and no route passes through a box. -/
theorem Chart.exists_routesKeepOff (g : Graph) (canvasWidth : Option Rat) (config : Config Rat)
    (hentry : g.entry?.isSome) (hc : config.FitsRoutes) :
    ∃ chart, Chart.ofGraph g canvasWidth config = .ok chart ∧ chart.RoutesKeepOff config := by
  obtain ⟨entry, hentry⟩ := Option.isSome_iff_exists.mp hentry
  obtain ⟨chart, hchart, steps, offsets, hdrawn⟩ := succeeds_ofGraph hentry canvasWidth config
  refine ⟨chart, hchart, fun route hroute p hp id box hbox ↦ ?_⟩
  have hroom := Route.roomy_of_readOff hdrawn.readOff hdrawn.sound hc
  obtain ⟨⟨index, edge, source, target⟩, hplaced, hjoins⟩ :=
    exists_of_forall₂ hdrawn.routes hroute
  obtain ⟨hedge, hsource, htarget⟩ := Route.mem_placedEdges hplaced
  have hmem := hdrawn.readOff.mem_values hsource
  have hmem' := hdrawn.readOff.mem_values htarget
  have hkeeps := hjoins.way.keepsOff hroom hc hmem hmem'
    (hdrawn.meet_endsAt hc hedge hsource htarget) (Route.isLowest_getD_rowBottoms hmem _) hp
  rw [hjoins.edge]
  by_cases hid : id = edge.source
  · subst hid
    rw [hsource] at hbox
    cases hbox
    simpa using hkeeps.outside_source
  · by_cases hid' : id = edge.target
    · subst hid'
      rw [htarget] at hbox
      cases hbox
      simpa using hkeeps.outside_target
    · have hne : ∀ {k : String} {b : Box Rat}, chart.boxes.get? k = some b → id ≠ k → box ≠ b := by
        rintro k b hb hk rfl
        exact hk ((hdrawn.readOff.gives hbox).named.symm.trans (hdrawn.readOff.gives hb).named)
      rw [if_neg (by simp [hid, hid'])]
      exact hkeeps.apart box (hdrawn.readOff.mem_values hbox) (hne hsource hid) (hne htarget hid')

/-- A block that loops to itself is drawn so with the settings that are used unless others are
given. -/
theorem Chart.exists_routesKeepOff_loop :
    let g : Graph := ⟨[
      { index := 0, id := "a", instructions := [], start := "", stop := "", successors := ["a"],
        predecessors := ["a"], isEntry := true }], [⟨"a", "a", .normal⟩]⟩
    g.entry?.isSome ∧ (Config.standard : Config Rat).FitsRoutes ∧
      ∃ chart, Chart.ofGraph g none .standard = .ok chart ∧ chart.RoutesKeepOff .standard :=
  ⟨rfl, Config.fitsRoutes_standard,
    exists_routesKeepOff _ none .standard rfl Config.fitsRoutes_standard⟩

end FlowChart
