import FlowChart.Number.Text
import FlowChart.Route.Basic

/-!
# Path data

The way points of a route as the data of a path in a vector drawing: a move to the first point
and lines to the others.
-/

namespace FlowChart.Route

/-- A path command with the point that it leads to. -/
def command (letter : String) (p : Point Float) : String :=
  letter ++ " " ++ briefText p.x ++ " " ++ briefText p.y

/-- The path data of some points; empty without points. -/
def pathData : List (Point Float) → String
  | [] => ""
  | head :: rest => " ".intercalate (command "M" head :: rest.map (command "L"))

end FlowChart.Route
