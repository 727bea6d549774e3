import FlowChart.Proofs.Layout.Separation
import FlowChart.Proofs.Route.Ways
import Mathlib.Order.Interval.Set.UnorderedInterval

/-!
# Room for routes

What the boxes of a placement leave free, in exact arithmetic. Under every level there is a gap that
is wide enough for a horizontal piece with a margin on both sides; a vertical piece in front of a
block meets no other block before it reaches the gap; and a side lane meets no box of the band that
it crosses.
-/

namespace FlowChart

/-- A box, grown by a margin, has a point strictly inside. -/
def Box.Encloses (b : Box Rat) (margin : Rat) (p : Point Rat) : Prop :=
  b.x - margin < p.x ∧ p.x < b.right + margin ∧ b.y - margin < p.y ∧ p.y < b.bottom + margin

/-- A box that is grown encloses what it encloses. -/
theorem Box.Encloses.grow {b : Box Rat} {margin margin' : Rat} {p : Point Rat}
    (h : b.Encloses margin p) (hle : margin ≤ margin') : b.Encloses margin' p := by
  obtain ⟨h₁, h₂, h₃, h₄⟩ := h
  refine ⟨?_, ?_, ?_, ?_⟩ <;> linarith

/-- Sizes, and distances of routes, that are not negative. -/
structure Config.HasMargins (config : Config Rat) : Prop extends config.HasSizes where
  /-- The distance of routes from blocks. -/
  edgeMargin : 0 ≤ config.edgeMargin
  /-- The distance between lanes. -/
  edgeSpacing : 0 ≤ config.edgeSpacing
  /-- The distance between anchors. -/
  parallelOffset : 0 ≤ config.parallelOffset
  /-- The further drop of back edges. -/
  backEdgeClearance : 0 ≤ config.backEdgeClearance

/-- The settings that are used unless others are given have no negative sizes or distances. -/
theorem Config.hasMargins_standard : (standard : Config Rat).HasMargins where
  toHasSizes := hasSizes_standard
  edgeMargin := by simp [standard]
  edgeSpacing := by simp [standard]
  parallelOffset := by simp [standard]
  backEdgeClearance := by simp [standard]

/-- Settings that leave room for routes: gaps are wide enough for a lane with a margin on each
side, however the lane is staggered. -/
structure Config.FitsRoutes (config : Config Rat) : Prop extends config.HasSizes where
  /-- The distance of routes from blocks. -/
  edgeMargin : 0 ≤ config.edgeMargin
  /-- The distance between lanes. -/
  edgeSpacing : 0 ≤ config.edgeSpacing
  /-- The distance between anchors. -/
  parallelOffset : 0 ≤ config.parallelOffset
  /-- The further drop of back edges. -/
  backEdgeClearance : 0 ≤ config.backEdgeClearance
  /-- Blocks of one level leave a margin. -/
  margin_le_hGap : config.edgeMargin ≤ config.hGap
  /-- Side lanes leave a margin. -/
  margin_le_detourMargin : config.edgeMargin ≤ config.detourMargin
  /-- Staggered crossings stay between their levels. -/
  crossings_le_vGap : 4 * config.edgeSpacing ≤ config.vGap
  /-- Staggered lanes stay between their levels, with a margin on each side. -/
  lanes_le_vGap :
    2 * config.edgeMargin + config.backEdgeClearance + 2 * config.edgeSpacing ≤ config.vGap

/-- A margin fits between levels. -/
theorem Config.FitsRoutes.margin_le_vGap {config : Config Rat} (h : config.FitsRoutes) :
    config.edgeMargin ≤ config.vGap := by
  have := h.lanes_le_vGap
  have := h.edgeMargin
  have := h.edgeSpacing
  have := h.backEdgeClearance
  linarith

/-- The settings that are used unless others are given leave room for routes. -/
theorem Config.fitsRoutes_standard : (standard : Config Rat).FitsRoutes where
  toHasSizes := hasSizes_standard
  edgeMargin := by simp [standard]
  edgeSpacing := by simp [standard]
  parallelOffset := by simp [standard]
  backEdgeClearance := by simp [standard]
  margin_le_hGap := by norm_num [standard]
  margin_le_detourMargin := by norm_num [standard]
  crossings_le_vGap := by norm_num [standard]
  lanes_le_vGap := by norm_num [standard]

namespace Route

/-- Boxes on levels that lie a gap apart. -/
structure Layered (gap : Rat) (boxes : List (Box Rat)) : Prop where
  /-- No width is negative. -/
  width : ∀ b ∈ boxes, 0 ≤ b.width
  /-- No height is negative. -/
  height : ∀ b ∈ boxes, 0 ≤ b.height
  /-- A box on a deeper level lies below, a gap apart. -/
  below : ∀ a ∈ boxes, ∀ b ∈ boxes, a.level < b.level → a.bottom + gap ≤ b.y

/-- The boxes of a placement lie on levels. -/
theorem layered_of_readOff {g : Graph} {config : Config Rat} {steps : PlacementSteps Rat}
    {p : Placement Rat} (hread : p.ReadOff g steps) (hsound : steps.Sound g config)
    (hc : config.HasSizes) : Layered config.vGap p.boxes.values where
  width b hb := by
    rw [hsound.eq_width (hread.gives (hread.get?_id hb)).width]
    exact hc.blockWidth
  height b hb := hsound.height_nonneg hc (hread.gives (hread.get?_id hb)).height
  below a ha b hb := (hread.collisionFree hsound hc).below (hread.get?_id ha) (hread.get?_id hb)

/-- Boxes with room for routes between them. -/
structure Roomy (config : Config Rat) (boxes : List (Box Rat)) : Prop where
  /-- Boxes are told apart by their ids. -/
  unique : ∀ a ∈ boxes, ∀ b ∈ boxes, a.id = b.id → a = b
  /-- No width is negative. -/
  width : ∀ b ∈ boxes, 0 ≤ b.width
  /-- No height is negative. -/
  height : ∀ b ∈ boxes, 0 ≤ b.height
  /-- Boxes of one level have one top side. -/
  top : ∀ a ∈ boxes, ∀ b ∈ boxes, a.level = b.level → a.y = b.y
  /-- Boxes of one level stand side by side, a margin apart. -/
  beside : ∀ a ∈ boxes, ∀ b ∈ boxes, a ≠ b → a.level = b.level →
    a.right + config.edgeMargin ≤ b.x ∨ b.right + config.edgeMargin ≤ a.x
  /-- A box on a deeper level lies below, a gap apart. -/
  below : ∀ a ∈ boxes, ∀ b ∈ boxes, a.level < b.level → a.bottom + config.vGap ≤ b.y

/-- The boxes of a placement leave room for routes. -/
theorem roomy_of_readOff {g : Graph} {config : Config Rat} {steps : PlacementSteps Rat}
    {p : Placement Rat} (hread : p.ReadOff g steps) (hsound : steps.Sound g config)
    (hc : config.FitsRoutes) : Roomy config p.boxes.values := by
  have hfree := hread.collisionFree hsound hc.toHasSizes
  have hne : ∀ {a b : Box Rat}, a ∈ p.boxes.values → b ∈ p.boxes.values → a ≠ b → a.id ≠ b.id := by
    intro a b ha hb hab hid
    have hsame := hread.get?_id ha
    rw [hid, hread.get?_id hb] at hsame
    exact hab (Option.some.inj hsame).symm
  have hlayered := layered_of_readOff hread hsound hc.toHasSizes
  refine ⟨?_, hlayered.width, hlayered.height, ?_, ?_, hlayered.below⟩
  · intro a ha b hb hid
    by_contra hab
    exact hne ha hb hab hid
  · intro a ha b hb hlevel
    by_cases hab : a = b
    · rw [hab]
    · exact (hfree.beside (hread.get?_id ha) (hread.get?_id hb) (hne ha hb hab) hlevel).1
  · intro a ha b hb hab hlevel
    have hgap := hc.margin_le_hGap
    rcases (hfree.beside (hread.get?_id ha) (hread.get?_id hb) (hne ha hb hab) hlevel).2 with h | h
    · left
      linarith
    · right
      linarith

variable {config : Config Rat} {boxes : List (Box Rat)}

/-! ### The gap under a level -/

/-- A height lies in the gap under a level, a margin away from all boxes. -/
structure InGap (margin : Rat) (boxes : List (Box Rat)) (level : Int) (y : Rat) : Prop where
  /-- Boxes of the level and of higher ones lie above. -/
  above : ∀ b ∈ boxes, b.level ≤ level → b.bottom + margin ≤ y
  /-- Boxes of deeper levels lie below. -/
  below : ∀ b ∈ boxes, level < b.level → y + margin ≤ b.y

/-- A height in a gap is a margin away from every box. -/
theorem InGap.apart {margin y : Rat} {level : Int} (h : InGap margin boxes level y) {b : Box Rat}
    (hb : b ∈ boxes) : b.bottom + margin ≤ y ∨ y + margin ≤ b.y := by
  rcases le_or_gt b.level level with hle | hlt
  · exact .inl (h.above b hb hle)
  · exact .inr (h.below b hb hlt)

/-- At a height in a gap no box, grown by the margin, encloses a point. -/
theorem InGap.not_encloses {margin y : Rat} {level : Int} (h : InGap margin boxes level y)
    {b : Box Rat} (hb : b ∈ boxes) {p : Point Rat} (hp : p.y = y) : ¬ b.Encloses margin p := by
  rintro ⟨-, -, htop, hbottom⟩
  rcases h.apart hb with habove | hbelow <;> linarith

/-- A height is that of the lowest bottom side on a level. -/
structure IsLowest (boxes : List (Box Rat)) (level : Int) (y : Rat) : Prop where
  /-- It is the bottom side of a box. -/
  attained : ∃ b ∈ boxes, b.level = level ∧ b.bottom = y
  /-- No bottom side is lower. -/
  le : ∀ b ∈ boxes, b.level = level → b.bottom ≤ y

private theorem isLowest_concat_of_none {level : Int} {c : Box Rat}
    (hnone : ∀ b ∈ boxes, b.level ≠ level) (hc : c.level = level) :
    IsLowest (boxes ++ [c]) level c.bottom where
  attained := ⟨c, by simp, hc, rfl⟩
  le := by
    intro b hb hlevel
    rcases List.mem_append.mp hb with hb | hb
    · exact absurd hlevel (hnone b hb)
    · exact (List.mem_singleton.mp hb ▸ le_refl _)

/-- A box on the level may be lower than all others. -/
private theorem IsLowest.concat {level : Int} {y : Rat} {c : Box Rat}
    (h : IsLowest boxes level y) (hc : c.level = level) :
    IsLowest (boxes ++ [c]) level (max y c.bottom) where
  attained := by
    obtain ⟨a, ha, hlevel, hbottom⟩ := h.attained
    rcases le_total y c.bottom with hle | hle
    · exact ⟨c, by simp, hc, (max_eq_right hle).symm⟩
    · exact ⟨a, List.mem_append_left _ ha, hlevel, hbottom.trans (max_eq_left hle).symm⟩
  le := by
    intro b hb hlevel
    rcases List.mem_append.mp hb with hb | hb
    · exact (h.le b hb hlevel).trans (le_max_left _ _)
    · exact (List.mem_singleton.mp hb ▸ le_max_right _ _)

/-- A box on another level changes nothing. -/
private theorem IsLowest.concat_of_ne {level : Int} {y : Rat} {c : Box Rat}
    (h : IsLowest boxes level y) (hc : c.level ≠ level) : IsLowest (boxes ++ [c]) level y where
  attained := by
    obtain ⟨a, ha, hlevel, hbottom⟩ := h.attained
    exact ⟨a, List.mem_append_left _ ha, hlevel, hbottom⟩
  le := by
    intro b hb hlevel
    rcases List.mem_append.mp hb with hb | hb
    · exact h.le b hb hlevel
    · exact absurd (List.mem_singleton.mp hb ▸ hlevel) hc

private theorem isLowest_addBottom {bottoms : Table Int Rat} {level : Int}
    (hsome : ∀ y, bottoms.get? level = some y → IsLowest boxes level y)
    (hnone : bottoms.get? level = none → ∀ b ∈ boxes, b.level ≠ level) (c : Box Rat) :
    (∀ y, (addBottom bottoms c).get? level = some y → IsLowest (boxes ++ [c]) level y) ∧
      ((addBottom bottoms c).get? level = none → ∀ b ∈ boxes ++ [c], b.level ≠ level) := by
  unfold addBottom
  rw [Table.get?_insert, Scalar.larger_eq_max]
  split
  · next hc =>
    constructor
    · intro y hy
      cases hy
      rw [hc]
      cases hget : bottoms.get? level with
      | none =>
        rw [Option.getD_none, max_self]
        exact isLowest_concat_of_none (hnone hget) hc
      | some y => exact (hsome y hget).concat hc
    · exact fun h ↦ absurd h (by simp)
  · next hc =>
    constructor
    · exact fun y hy ↦ (hsome y hy).concat_of_ne hc
    · intro h b hb
      rcases List.mem_append.mp hb with hb | hb
      · exact hnone h b hb
      · exact List.mem_singleton.mp hb ▸ hc

private theorem isLowest_rowBottoms (boxes : List (Box Rat)) (level : Int) :
    (∀ y, (rowBottoms boxes).get? level = some y → IsLowest boxes level y) ∧
      ((rowBottoms boxes).get? level = none → ∀ b ∈ boxes, b.level ≠ level) := by
  unfold rowBottoms
  induction boxes using List.reverseRecOn with
  | nil => exact ⟨fun y hy ↦ absurd hy (by simp), fun _ b hb ↦ absurd hb (by simp)⟩
  | append_singleton boxes c ih =>
    rw [List.foldl_append, List.foldl_cons, List.foldl_nil]
    exact isLowest_addBottom ih.1 ih.2 c

/-- The height that is noted for the level of a box is that of the lowest bottom side. -/
theorem isLowest_getD_rowBottoms {b : Box Rat} (hb : b ∈ boxes) (y : Rat) :
    IsLowest boxes b.level (((rowBottoms boxes).get? b.level).getD y) := by
  obtain ⟨hsome, hnone⟩ := isLowest_rowBottoms boxes b.level
  cases h : (rowBottoms boxes).get? b.level with
  | none => exact absurd rfl (hnone h b hb)
  | some y' => exact hsome y' h

/-- Staggered lanes are at most twice the spacing away from where they would be. -/
theorem stagger_bounds (hspacing : 0 ≤ config.edgeSpacing) (index : Int) :
    0 ≤ stagger config index ∧ stagger config index ≤ 2 * config.edgeSpacing := by
  have hnonneg : (0 : Rat) ≤ ((index % 3 : Int) : Rat) := by
    exact_mod_cast (show 0 ≤ index % 3 by omega)
  have hle : ((index % 3 : Int) : Rat) ≤ 2 := by
    exact_mod_cast (show index % 3 ≤ 2 by omega)
  exact ⟨mul_nonneg hnonneg hspacing, mul_le_mul_of_nonneg_right hle hspacing⟩

/-- A crossing lies between the ends of its way, however it is staggered. -/
theorem acrossY_mem_Icc {spacing gap : Rat} (hspacing : 0 ≤ spacing) (hcrossings : 4 * spacing ≤ gap)
    {e : Ends Rat} (hgap : e.start.y + gap ≤ e.finish.y) (index : Int) :
    acrossY spacing index e ∈ Set.Icc e.start.y e.finish.y := by
  have hlow : (-2 : Rat) ≤ ((index % 5 - 2 : Int) : Rat) := by
    exact_mod_cast (show -2 ≤ index % 5 - 2 by omega)
  have hhigh : ((index % 5 - 2 : Int) : Rat) ≤ 2 := by
    exact_mod_cast (show index % 5 - 2 ≤ 2 by omega)
  have hup := mul_le_mul_of_nonneg_right hlow hspacing
  have hdown := mul_le_mul_of_nonneg_right hhigh hspacing
  unfold acrossY
  rw [Scalar.half_eq_div]
  constructor <;> linarith

/-- A drop below a level that is not too deep ends in the gap under it. -/
theorem Roomy.inGap_exit (hroom : Roomy config boxes) (hc : config.FitsRoutes) {b : Box Rat}
    (hb : b ∈ boxes) {rowBottom drop : Rat} (hrow : IsLowest boxes b.level rowBottom)
    (hnonneg : 0 ≤ drop) (hdrop : drop ≤ config.backEdgeClearance + 2 * config.edgeSpacing) :
    InGap config.edgeMargin boxes b.level (rowBottom + config.edgeMargin + drop) where
  above a ha hlevel := by
    have hle : a.bottom ≤ rowBottom := by
      rcases hlevel.lt_or_eq with hlt | heq
      · have hgap := hroom.below a ha b hb hlt
        have hheight := hroom.height b hb
        have hlow : b.y + b.height ≤ rowBottom := hrow.le b hb rfl
        have := hc.vGap
        linarith
      · exact hrow.le a ha heq
    linarith
  below a ha hlevel := by
    obtain ⟨b', hb', hlevel', hbottom⟩ := hrow.attained
    have hgap := hroom.below b' hb' a ha (hlevel' ▸ hlevel)
    have := hc.lanes_le_vGap
    linarith

/-- A rise above a box that is not too high ends in the gap over its level. -/
theorem Roomy.inGap_entry (hroom : Roomy config boxes) (hc : config.FitsRoutes) {b : Box Rat}
    (hb : b ∈ boxes) {rise : Rat} (hnonneg : 0 ≤ rise)
    (hrise : rise ≤ config.backEdgeClearance + 2 * config.edgeSpacing) :
    InGap config.edgeMargin boxes (b.level - 1) (b.y - config.edgeMargin - rise) where
  above a ha hlevel := by
    have hgap := hroom.below a ha b hb (by omega)
    have := hc.lanes_le_vGap
    linarith
  below a ha hlevel := by
    have hle : b.y ≤ a.y := by
      rcases (show b.level ≤ a.level by omega).lt_or_eq with hlt | heq
      · have hgap : b.y + b.height + config.vGap ≤ a.y := hroom.below b hb a ha hlt
        have hheight := hroom.height b hb
        have := hc.vGap
        linarith
      · exact (hroom.top b hb a ha heq).le
    linarith

/-! ### In front of a block -/

/-- A point that is level with the inside of a block, but above or below it and not yet in another
level, keeps a margin from all other boxes. -/
theorem Roomy.not_encloses_of_beside (hroom : Roomy config boxes) {c : Box Rat}
    (hbox : c ∈ boxes) {p : Point Rat} (hleft : c.x ≤ p.x) (hright : p.x ≤ c.right)
    (habove : ∀ b ∈ boxes, b.level < c.level → b.bottom + config.edgeMargin ≤ p.y)
    (hbelow : ∀ b ∈ boxes, c.level < b.level → p.y + config.edgeMargin ≤ b.y)
    {b : Box Rat} (hb : b ∈ boxes) (hne : b ≠ c) : ¬ b.Encloses config.edgeMargin p := by
  rintro ⟨hx, hx', hy, hy'⟩
  rcases lt_trichotomy b.level c.level with hlt | heq | hgt
  · have := habove b hb hlt
    linarith
  · rcases hroom.beside b hb c hbox hne heq with h | h <;> linarith
  · have := hbelow b hb hgt
    linarith

/-! ### Side lanes -/

/-- A side lane has a clearance on the side where an obstacle lies. -/
private theorem clear_of_laneX {obstacles : List (Box Rat)} {onRight : Bool} {clearance x : Rat}
    (h : laneX obstacles onRight clearance = .ok x) {b : Box Rat} (hb : b ∈ obstacles) :
    b.right + clearance ≤ x ∨ x ≤ b.x - clearance := by
  unfold laneX at h
  split at h
  · cases hl : Scalar.largestOf (obstacles.map Box.right) with
    | error fault => simp [hl, bind, Except.bind] at h
    | ok right =>
      rw [hl] at h
      cases h
      have := Scalar.le_of_largestOf hl b.right (List.mem_map_of_mem hb)
      left
      linarith
  · cases hs : Scalar.smallestOf (obstacles.map Box.x) with
    | error fault => simp [hs, bind, Except.bind] at h
    | ok left =>
      rw [hs] at h
      cases h
      have := Scalar.le_of_smallestOf hs b.x (List.mem_map_of_mem hb)
      right
      linarith

private theorem not_encloses_of_beyond {margin low high : Rat} {b : Box Rat}
    (hheight : 0 ≤ b.height) (hlow : b.bottom + margin ≤ low ∨ low + margin ≤ b.y)
    (hhigh : b.bottom + margin ≤ high ∨ high + margin ≤ b.y)
    (hout : high ≤ b.y ∨ b.bottom ≤ low) {p : Point Rat} (hp : p.y ∈ Set.Icc low high) :
    ¬ b.Encloses margin p := by
  rintro ⟨-, -, htop, hbottom⟩
  obtain ⟨hge, hle⟩ := hp
  have hsides : b.bottom = b.y + b.height := rfl
  rcases hout with hout | hout
  · rcases hhigh with h | h <;> linarith
  · rcases hlow with h | h <;> linarith

/-- On a side lane between two gaps no box, grown by the margin, encloses a point. Boxes that reach
into the band are passed at a distance, and other boxes lie beyond one of the gaps. -/
theorem IsLane.not_encloses {margin clearance x y₁ y₂ : Rat} {level₁ level₂ : Int}
    (hlane : IsLane boxes y₁ y₂ clearance x) (hclearance : margin ≤ clearance)
    (h₁ : InGap margin boxes level₁ y₁) (h₂ : InGap margin boxes level₂ y₂) {b : Box Rat}
    (hb : b ∈ boxes) (hheight : 0 ≤ b.height) {p : Point Rat} (hx : p.x = x)
    (hy : p.y ∈ Set.uIcc y₁ y₂) : ¬ b.Encloses margin p := by
  obtain ⟨obstacles, onRight, hband, hok⟩ := hlane
  rintro ⟨hleft, hright, htop, hbottom⟩
  by_cases hmem : b ∈ obstacles
  · rcases clear_of_laneX hok hmem with h | h <;> linarith
  · have hout : max y₁ y₂ ≤ b.y ∨ b.bottom ≤ min y₁ y₂ := by
      rw [← not_lt, ← not_lt, ← not_and_or]
      intro hin
      apply hmem
      apply hband
      simpa [Box.inBand, hb, Scalar.larger_eq_max, Scalar.smaller_eq_min] using hin
    have hlow : b.bottom + margin ≤ min y₁ y₂ ∨ min y₁ y₂ + margin ≤ b.y := by
      rcases min_choice y₁ y₂ with h | h
      · rw [h]
        exact h₁.apart hb
      · rw [h]
        exact h₂.apart hb
    have hhigh : b.bottom + margin ≤ max y₁ y₂ ∨ max y₁ y₂ + margin ≤ b.y := by
      rcases max_choice y₁ y₂ with h | h
      · rw [h]
        exact h₁.apart hb
      · rw [h]
        exact h₂.apart hb
    exact not_encloses_of_beyond hheight hlow hhigh hout hy ⟨hleft, hright, htop, hbottom⟩

end Route

end FlowChart
