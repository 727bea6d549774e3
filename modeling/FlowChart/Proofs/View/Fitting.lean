import FlowChart.Proofs.Number.Exact
import FlowChart.Proofs.Success
import FlowChart.View.Minimap

/-!
# Fitting a chart into a panel

The space around the boxes gives the rectangle that a minimap shows a width and a height, and no
boxes are shown as a square. So in exact arithmetic the scale is defined and positive. It is the
smaller of the scales that fill one direction each, and therefore the rectangle fits in both. Each
direction is then dealt with on its own: the rectangle is centred in the panel, and what lies between
its sides is shown between the sides of the panel.
-/

namespace FlowChart

open Scalar

/-- A minimap that has a size, with some space around the chart. -/
structure Config.HasPanel (config : Config Rat) : Prop where
  /-- The width of the minimap. -/
  minimapWidth : 0 < config.minimapWidth
  /-- The height of the minimap. -/
  minimapHeight : 0 < config.minimapHeight
  /-- The space around the chart. -/
  minimapPadding : 0 < config.minimapPadding

/-- The settings that are used unless others are given have a minimap. -/
theorem Config.hasPanel_standard : (standard : Config Rat).HasPanel := by
  constructor <;> simp [standard]

/-- A box without negative sizes. -/
structure Box.IsSized (b : Box Rat) : Prop where
  /-- The width. -/
  width : 0 ≤ b.width
  /-- The height. -/
  height : 0 ≤ b.height

/-- A rectangle lies in a panel that starts at the origin. -/
structure Rect.LiesIn (r : Rect Rat) (panelWidth panelHeight : Rat) : Prop where
  /-- Its left side. -/
  left : 0 ≤ r.x
  /-- Its top side. -/
  top : 0 ≤ r.y
  /-- Its right side. -/
  right : r.x + r.width ≤ panelWidth
  /-- Its bottom side. -/
  bottom : r.y + r.height ≤ panelHeight

variable {boxes : List (Box Rat)}

/-! ### Bounds -/

namespace Bounds

/-- A box lies in a rectangle with some space around it. -/
structure Surrounds (bounds : Bounds Rat) (padding : Rat) (b : Box Rat) : Prop where
  /-- The space on the left. -/
  left : bounds.minX + padding ≤ b.x
  /-- The space above. -/
  top : bounds.minY + padding ≤ b.y
  /-- The space on the right. -/
  right : b.right + padding ≤ bounds.maxX
  /-- The space below. -/
  bottom : b.bottom + padding ≤ bounds.maxY

/-- The rectangle around some boxes surrounds each of them. -/
theorem surrounds_ofBoxes (padding : Rat) {b : Box Rat} (hb : b ∈ boxes) :
    (ofBoxes boxes padding).Surrounds padding b := by
  cases boxes with
  | nil => cases hb
  | cons first rest =>
    have hleft := le_of_smallestOf (smallestOf_cons first.x (rest.map Box.x)) b.x
      (List.mem_map_of_mem hb)
    have htop := le_of_smallestOf (smallestOf_cons first.y (rest.map Box.y)) b.y
      (List.mem_map_of_mem hb)
    have hright := le_of_largestOf (largestOf_cons first.right (rest.map Box.right)) b.right
      (List.mem_map_of_mem hb)
    have hbottom := le_of_largestOf (largestOf_cons first.bottom (rest.map Box.bottom)) b.bottom
      (List.mem_map_of_mem hb)
    constructor
    · rwa [ofBoxes, sub_add_cancel]
    · rwa [ofBoxes, sub_add_cancel]
    · exact add_le_add_left hright padding
    · exact add_le_add_left hbottom padding

/-- A rectangle that surrounds a box is wider and higher than the box. -/
theorem Surrounds.size_le {bounds : Bounds Rat} {padding : Rat} {b : Box Rat}
    (h : bounds.Surrounds padding b) :
    padding + b.width + padding ≤ bounds.width ∧ padding + b.height + padding ≤ bounds.height := by
  have hleft := h.left
  have htop := h.top
  have hright := h.right
  have hbottom := h.bottom
  rw [Box.right] at hright
  rw [Box.bottom] at hbottom
  rw [width, height]
  exact ⟨by linarith, by linarith⟩

/-- The rectangle around some boxes, grown by some space, has a width and a height. -/
theorem size_pos {padding : Rat} (hpadding : 0 < padding) (hboxes : ∀ b ∈ boxes, b.IsSized) :
    0 < (ofBoxes boxes padding).width ∧ 0 < (ofBoxes boxes padding).height := by
  cases boxes with
  | nil => norm_num [ofBoxes, width, height, emptyExtent]
  | cons first rest =>
    have hfirst : first ∈ first :: rest := List.mem_cons_self
    obtain ⟨hwidth, hheight⟩ := (surrounds_ofBoxes padding hfirst).size_le
    obtain ⟨hwidth', hheight'⟩ := hboxes first hfirst
    exact ⟨by linarith, by linarith⟩

end Bounds

namespace Minimap

/-! ### One direction -/

/-- In one direction, what lies between two sides is shown at a scale in the middle of a panel. -/
structure Centres (low high scale offset panel : Rat) : Prop where
  /-- It is not larger than the panel. -/
  fits : (high - low) * scale ≤ panel
  /-- It starts inside the panel. -/
  offset_nonneg : 0 ≤ offset
  /-- As much space is after it as before it. -/
  centred : offset + (high - low) * scale + offset = panel

variable {low high scale offset panel : Rat}

private theorem centres_half (h : (high - low) * scale ≤ panel) :
    Centres low high scale (half (panel - (high - low) * scale)) panel where
  fits := h
  offset_nonneg := by
    rw [half_eq_div]
    linarith
  centred := by
    rw [half_eq_div]
    linarith

/-- What lies between the two sides is shown between the sides of the panel. -/
theorem Centres.shown_within (h : Centres low high scale offset panel) (hscale : 0 ≤ scale)
    {start size : Rat} (hlow : low ≤ start) (hhigh : start + size ≤ high) :
    0 ≤ (start - low) * scale + offset ∧ (start - low) * scale + offset + size * scale ≤ panel := by
  have hbefore : 0 ≤ (start - low) * scale := mul_nonneg (sub_nonneg.mpr hlow) hscale
  have hafter : 0 ≤ (high - (start + size)) * scale := mul_nonneg (sub_nonneg.mpr hhigh) hscale
  have hoffset := h.offset_nonneg
  have hpanel := h.centred
  exact ⟨by linarith, by linarith⟩

/-! ### Both directions -/

/-- A minimap of some boxes that fits its panel. -/
structure IsFit (m : Minimap Rat) (boxes : List (Box Rat)) (config : Config Rat) : Prop where
  /-- The rectangle around the boxes is shown. -/
  bounds : m.bounds = .ofBoxes boxes config.minimapPadding
  /-- The width of the panel is that of the settings. -/
  panelWidth : m.panelWidth = config.minimapWidth
  /-- The height of the panel is that of the settings. -/
  panelHeight : m.panelHeight = config.minimapHeight
  /-- The scale is positive. -/
  scale_pos : 0 < m.scale
  /-- The rectangle is centred between the left and the right side of the panel. -/
  across : Centres m.bounds.minX m.bounds.maxX m.scale m.offset.x m.panelWidth
  /-- The rectangle is centred between the top and the bottom side of the panel. -/
  down : Centres m.bounds.minY m.bounds.maxY m.scale m.offset.y m.panelHeight
  /-- The rectangle fills the panel in one direction. -/
  fills : m.bounds.width * m.scale = m.panelWidth ∨ m.bounds.height * m.scale = m.panelHeight

namespace IsFit

variable {m : Minimap Rat} {config : Config Rat}

/-- Every box is shown inside the panel. -/
theorem liesIn_boxRect (h : m.IsFit boxes config) (hconfig : config.HasPanel) {b : Box Rat}
    (hb : b ∈ boxes) : (m.boxRect b).LiesIn m.panelWidth m.panelHeight := by
  have hpadding := hconfig.minimapPadding
  have hsurrounds : m.bounds.Surrounds config.minimapPadding b :=
    h.bounds ▸ Bounds.surrounds_ofBoxes config.minimapPadding hb
  have hleft : m.bounds.minX ≤ b.x := by linarith [hsurrounds.left]
  have htop : m.bounds.minY ≤ b.y := by linarith [hsurrounds.top]
  have hright : b.right ≤ m.bounds.maxX := by linarith [hsurrounds.right]
  have hbottom : b.bottom ≤ m.bounds.maxY := by linarith [hsurrounds.bottom]
  obtain ⟨hx, hx'⟩ := h.across.shown_within h.scale_pos.le hleft hright
  obtain ⟨hy, hy'⟩ := h.down.shown_within h.scale_pos.le htop hbottom
  exact ⟨hx, hy, hx', hy'⟩

end IsFit

/-- The smaller of the scales that fill a panel in one direction each is positive, fits in both
directions and fills one. -/
private theorem smaller_fits {width height panelWidth panelHeight : Rat} (hwidth : 0 < width)
    (hheight : 0 < height) (hpanelWidth : 0 < panelWidth) (hpanelHeight : 0 < panelHeight) :
    let scale := smaller (panelWidth / width) (panelHeight / height)
    0 < scale ∧ width * scale ≤ panelWidth ∧ height * scale ≤ panelHeight ∧
      (width * scale = panelWidth ∨ height * scale = panelHeight) := by
  rw [smaller_eq_min]
  refine ⟨lt_min (div_pos hpanelWidth hwidth) (div_pos hpanelHeight hheight),
    (le_div_iff₀' hwidth).mp (min_le_left _ _), (le_div_iff₀' hheight).mp (min_le_right _ _), ?_⟩
  rcases min_choice (panelWidth / width) (panelHeight / height) with h | h
  · exact .inl (by rw [h, mul_div_cancel₀ _ hwidth.ne'])
  · exact .inr (by rw [h, mul_div_cancel₀ _ hheight.ne'])

/-- Boxes without negative sizes have a minimap, and it fits its panel. -/
theorem succeeds_fit {config : Config Rat} (hconfig : config.HasPanel)
    (hboxes : ∀ b ∈ boxes, b.IsSized) : Succeeds (fit boxes config) (·.IsFit boxes config) := by
  obtain ⟨hwidth, hheight⟩ := Bounds.size_pos hconfig.minimapPadding hboxes
  obtain ⟨hscale, hacross, hdown, hfills⟩ :=
    smaller_fits hwidth hheight hconfig.minimapWidth hconfig.minimapHeight
  rw [fit]
  apply Succeeds.bind ⟨_, divide_eq_ok _ hwidth.ne', rfl⟩
  rintro scaleX rfl
  apply Succeeds.bind ⟨_, divide_eq_ok _ hheight.ne', rfl⟩
  rintro scaleY rfl
  exact .ok {
    bounds := rfl
    panelWidth := rfl
    panelHeight := rfl
    scale_pos := hscale
    across := centres_half hacross
    down := centres_half hdown
    fills := hfills }

end Minimap

end FlowChart
