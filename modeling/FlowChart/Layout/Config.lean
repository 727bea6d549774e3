import FlowChart.Fault
import FlowChart.Number.Scalar

/-!
# Settings

The sizes, distances and zooms that a chart is drawn with, in pixels.
-/

namespace FlowChart

/-- The settings of a chart. -/
structure Config (α : Type) where
  /-- The width of every block. -/
  blockWidth : α
  /-- The height of a block's header. -/
  headerHeight : α
  /-- The height of an instruction. -/
  lineHeight : α
  /-- The height of a block's border. -/
  borderHeight : α
  /-- The least distance between blocks of one level. -/
  hGap : α
  /-- The distance between levels. -/
  vGap : α
  /-- The space left of the entry's subtree. -/
  leftMargin : α
  /-- The space above the first level. -/
  topMargin : α
  /-- The distance that routes keep from blocks. -/
  edgeMargin : α
  /-- The distance between the lanes of neighbouring edges. -/
  edgeSpacing : α
  /-- The distance between the anchors of edges that share a block. -/
  parallelOffset : α
  /-- The distance of a side lane from what it passes. -/
  detourMargin : α
  /-- How much further a back edge drops and rises than `edgeMargin`. -/
  backEdgeClearance : α
  /-- How far apart the ends of a straight route may lie. -/
  straightTolerance : α
  /-- The zoom that a view starts with. -/
  initialZoom : α
  /-- The least zoom. -/
  minZoom : α
  /-- The greatest zoom. -/
  maxZoom : α
  /-- How far below the top of the canvas the entry starts. -/
  initialTopOffset : α
  /-- The width of the minimap. -/
  minimapWidth : α
  /-- The height of the minimap. -/
  minimapHeight : α
  /-- The space around the chart in the minimap. -/
  minimapPadding : α

namespace Config

variable {α : Type} [Scalar α]

/-- The settings that are used unless others are given. -/
def standard : Config α where
  blockWidth := ((380 : Nat) : α)
  headerHeight := ((22 : Nat) : α)
  lineHeight := ((16 : Nat) : α)
  borderHeight := ((4 : Nat) : α)
  hGap := ((60 : Nat) : α)
  vGap := ((100 : Nat) : α)
  leftMargin := ((50 : Nat) : α)
  topMargin := ((50 : Nat) : α)
  edgeMargin := ((15 : Nat) : α)
  edgeSpacing := ((12 : Nat) : α)
  parallelOffset := ((25 : Nat) : α)
  detourMargin := ((80 : Nat) : α)
  backEdgeClearance := ((25 : Nat) : α)
  straightTolerance := ((5 : Nat) : α)
  initialZoom := 0.3
  minZoom := 0.05
  maxZoom := 3.0
  initialTopOffset := ((80 : Nat) : α)
  minimapWidth := ((200 : Nat) : α)
  minimapHeight := ((150 : Nat) : α)
  minimapPadding := ((50 : Nat) : α)

instance : Inhabited (Config α) := ⟨standard⟩

/-- The height of a block with a number of instructions. -/
def blockHeight (c : Config α) (instructions : Int) : α :=
  c.headerHeight + c.lineHeight * (instructions : α) + c.borderHeight

/-- Every setting under its name. -/
def settings (c : Config α) : List (String × α) := [
  ("block_width", c.blockWidth), ("header_height", c.headerHeight),
  ("line_height", c.lineHeight), ("border_height", c.borderHeight),
  ("h_gap", c.hGap), ("v_gap", c.vGap),
  ("left_margin", c.leftMargin), ("top_margin", c.topMargin),
  ("edge_margin", c.edgeMargin), ("edge_spacing", c.edgeSpacing),
  ("parallel_offset", c.parallelOffset), ("detour_margin", c.detourMargin),
  ("back_edge_clearance", c.backEdgeClearance), ("straight_tolerance", c.straightTolerance),
  ("initial_zoom", c.initialZoom), ("min_zoom", c.minZoom), ("max_zoom", c.maxZoom),
  ("initial_top_offset", c.initialTopOffset),
  ("minimap_width", c.minimapWidth), ("minimap_height", c.minimapHeight),
  ("minimap_padding", c.minimapPadding)]

/-- Change the setting of a name. -/
def change (c : Config α) (name : String) (value : α) : Except Fault (Config α) :=
  match name with
  | "block_width" => .ok { c with blockWidth := value }
  | "header_height" => .ok { c with headerHeight := value }
  | "line_height" => .ok { c with lineHeight := value }
  | "border_height" => .ok { c with borderHeight := value }
  | "h_gap" => .ok { c with hGap := value }
  | "v_gap" => .ok { c with vGap := value }
  | "left_margin" => .ok { c with leftMargin := value }
  | "top_margin" => .ok { c with topMargin := value }
  | "edge_margin" => .ok { c with edgeMargin := value }
  | "edge_spacing" => .ok { c with edgeSpacing := value }
  | "parallel_offset" => .ok { c with parallelOffset := value }
  | "detour_margin" => .ok { c with detourMargin := value }
  | "back_edge_clearance" => .ok { c with backEdgeClearance := value }
  | "straight_tolerance" => .ok { c with straightTolerance := value }
  | "initial_zoom" => .ok { c with initialZoom := value }
  | "min_zoom" => .ok { c with minZoom := value }
  | "max_zoom" => .ok { c with maxZoom := value }
  | "initial_top_offset" => .ok { c with initialTopOffset := value }
  | "minimap_width" => .ok { c with minimapWidth := value }
  | "minimap_height" => .ok { c with minimapHeight := value }
  | "minimap_padding" => .ok { c with minimapPadding := value }
  | _ => .error (.unknownSetting name)

/-- Change several settings from left to right. -/
def changeAll (c : Config α) (changes : List (String × α)) : Except Fault (Config α) :=
  changes.foldlM (fun c change ↦ c.change change.1 change.2) c

end Config

end FlowChart
