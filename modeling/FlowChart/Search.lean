/-!
# Breadth-first search

The nodes reached from a start node, in layers: a layer holds the nodes whose shortest path from
the start has a given number of steps. The successor function must stay within a finite set of
nodes; the number of layers is bounded by the size of that set.
-/

namespace FlowChart.Search

variable {ν : Type} [DecidableEq ν]

/-- The members of a list that have not been seen, each once. -/
def fresh (seen : List ν) : List ν → List ν
  | [] => []
  | x :: xs => if x ∈ seen then fresh seen xs else x :: fresh (x :: seen) xs

/-- The layers from `layer` on, where `seen` holds the nodes of the layers before. -/
def layersFrom (next : ν → List ν) : Nat → List ν → List ν → List (List ν)
  | 0, _, _ => []
  | _ + 1, _, [] => []
  | bound + 1, seen, layer =>
    layer :: layersFrom next bound (layer ++ seen) (fresh (layer ++ seen) (layer.flatMap next))

/-- The layers of a search among at most `bound` nodes. -/
def layers (next : ν → List ν) (bound : Nat) (start : ν) : List (List ν) :=
  layersFrom next bound [] [start]

/-- The nodes that a search reaches, the start included. -/
def reached (next : ν → List ν) (bound : Nat) (start : ν) : List ν :=
  (layers next bound start).flatten

/-- The reached nodes with the lengths of their shortest paths from the start. -/
def distances (next : ν → List ν) (bound : Nat) (start : ν) : List (ν × Nat) :=
  (layers next bound start).zipIdx.flatMap fun (layer, distance) ↦ layer.map (·, distance)

/-- Fresh members are members that have not been seen. -/
theorem mem_fresh {seen xs : List ν} {x : ν} : x ∈ fresh seen xs ↔ x ∈ xs ∧ x ∉ seen := by
  induction xs generalizing seen with
  | nil => simp [fresh]
  | cons y ys ih =>
    by_cases hy : y ∈ seen
    · simp only [fresh, hy, if_true, ih, List.mem_cons]
      constructor
      · exact fun h ↦ ⟨.inr h.1, h.2⟩
      · rintro ⟨rfl | h, hn⟩
        · exact absurd hy hn
        · exact ⟨h, hn⟩
    · simp only [fresh, hy, if_false, List.mem_cons, ih, not_or]
      constructor
      · rintro (rfl | ⟨h, _, hn⟩)
        · exact ⟨.inl rfl, hy⟩
        · exact ⟨.inr h, hn⟩
      · rintro ⟨rfl | h, hn⟩
        · exact .inl rfl
        · by_cases hxy : x = y
          · exact .inl hxy
          · exact .inr ⟨h, hxy, hn⟩

/-- Fresh members occur once each. -/
theorem nodup_fresh (seen xs : List ν) : (fresh seen xs).Nodup := by
  induction xs generalizing seen with
  | nil => simp [fresh]
  | cons y ys ih =>
    by_cases hy : y ∈ seen
    · simpa [fresh, hy] using ih seen
    · simp only [fresh, hy, if_false, List.nodup_cons]
      exact ⟨fun h ↦ (mem_fresh.mp h).2 (by simp), ih _⟩

end FlowChart.Search
