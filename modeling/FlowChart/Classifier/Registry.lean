import FlowChart.Classifier.Builtin
import FlowChart.Sorting
import FlowChart.Table

/-!
# Registries of instruction sets

A registry holds classifiers under architecture names, in lower case. There is one shared
registry; others are private, under names of their own, and no registration in one registry is seen
in another.
-/

namespace FlowChart

/-- Classifiers under architecture names in lower case. -/
abbrev Registry := Table String Classifier

namespace Registry

/-- The registry that every other one starts from. -/
def builtin : Registry := .ofList
  [("auto", .auto), ("arm64", .arm64), ("aarch64", .arm64), ("x86", .x86), ("x86_64", .x86),
    ("x64", .x86), ("amd64", .x86)]

/-- Put a classifier under a name, in place of the one that was there. -/
def register (r : Registry) (name : String) (c : Classifier) : Registry :=
  r.insert (Text.lower name) c

/-- The classifier under a name in any letter case. -/
def lookup? (r : Registry) (name : String) : Option Classifier := r.get? (Text.lower name)

/-- The names in order of their code points. -/
def architectures (r : Registry) : List String := sortedTexts r.keys

/-- A name just registered is found in every letter case. -/
theorem lookup?_register (r : Registry) (name name' : String) (c : Classifier) :
    (r.register name c).lookup? name' =
      if Text.lower name = Text.lower name' then some c else r.lookup? name' :=
  Table.get?_insert r _ _ c

end Registry

/-- An instruction set as a caller names it: by architecture name, or by a classifier itself. -/
inductive Architecture where
  /-- The classifier registered under a name. -/
  | named (name : String)
  /-- The classifier itself. -/
  | given (classifier : Classifier)

namespace Architecture

/-- The classifier that is meant, or the name that is not registered. -/
def resolve (registry : Registry) : Architecture → Except String Classifier
  | .given c => .ok c
  | .named name =>
    match registry.lookup? name with
    | some c => .ok c
    | none => .error name

end Architecture

/-- The shared registry and the private ones. -/
structure Registries where
  /-- The registry used when none is named. -/
  common : Registry := .builtin
  /-- The private registries under their names. -/
  own : Table String Registry := .empty

namespace Registries

/-- The shared registry, or the private one of a name. -/
def get? (s : Registries) : Option String → Option Registry
  | none => some s.common
  | some name => s.own.get? name

/-- Replace the shared registry, or the private one of a name. -/
def set (s : Registries) (name : Option String) (r : Registry) : Registries :=
  match name with
  | none => { s with common := r }
  | some name => { s with own := s.own.insert name r }

/-- A registry just replaced is the new one, and the others are as before. -/
theorem get?_set (s : Registries) (name name' : Option String) (r : Registry) :
    (s.set name r).get? name' = if name = name' then some r else s.get? name' := by
  cases name <;> cases name' <;> simp [set, get?, Table.get?_insert]

end Registries

end FlowChart
