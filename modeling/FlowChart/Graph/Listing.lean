import FlowChart.Classifier.Registry
import FlowChart.Graph.Basic
import FlowChart.Search

/-!
# Splitting a listing into blocks

A listing is a list of instructions in address order. A block starts at its first instruction,
after every branch and at every target of a branch that is an address of the listing. The last
instruction of a block decides the edges that leave it; a target that cannot be found only loses
its own edge.
-/

namespace FlowChart.Listing

/-- The addresses of a listing with their positions, in order; texts that denote none are left
out. -/
def addressed (listing : List Instruction) : List (Nat × Nat) :=
  listing.zipIdx.filterMap fun (i, position) ↦ i.address?.map (·, position)

/-- The position of each address; the last one, if several instructions have it. -/
def addressIndex (listing : List Instruction) : Table Nat Nat := .ofList (addressed listing)

/-- The positions and texts of the addresses that denote none. -/
def unaddressed (listing : List Instruction) : List (Nat × String) :=
  listing.zipIdx.filterMap fun (i, position) ↦
    if i.address?.isNone then some (position, i.address) else none

/-- The position that an instruction's operands name. -/
def targetIn (index : Table Nat Nat) (i : Instruction) : Option Nat := i.target?.bind index.get?

/-- The positions that the branches of a listing jump to. -/
def jumpTargets (c : Classifier) (index : Table Nat Nat) (listing : List Instruction) :
    List Nat :=
  (listing.filter fun i ↦ c.isBranch i.mnemonic).filterMap (targetIn index)

/-- Whether the instruction before a position is a branch. -/
def followsBranch (c : Classifier) (listing : List Instruction) : Nat → Bool
  | 0 => false
  | position + 1 => (listing[position]?.map fun i ↦ c.isBranch i.mnemonic).getD false

/-- The positions where a block starts, in ascending order. -/
def leaders (c : Classifier) (listing : List Instruction) : List Nat :=
  let targets := jumpTargets c (addressIndex listing) listing
  (List.range listing.length).filter fun position ↦
    position == 0 || followsBranch c listing position || targets.contains position

/-- A list cut before each position that is in `starts`. The first element is at `position`. -/
def cut {α : Type} (starts : List Nat) (position : Nat) : List α → List (List α)
  | [] => []
  | x :: xs =>
    match cut starts (position + 1) xs with
    | [] => [[x]]
    | run :: runs =>
      if starts.contains (position + 1) then [x] :: run :: runs else (x :: run) :: runs

/-- The number of the block that holds a position, given where blocks start. -/
def blockHolding (starts : List Nat) (position : Nat) : Nat :=
  (starts.filter fun s ↦ 0 < s && s ≤ position).length

/-- The edges that leave the block `source`, by its last instruction. `target` is the block that
its operands name, and `next` the block that follows. -/
def exitsOf (c : Classifier) (source : String) (mnemonic : String) (target next : Option String) :
    List Edge :=
  if c.isReturn mnemonic then []
  else if c.isBranch mnemonic then
    if c.isConditional mnemonic then
      (target.toList.map fun t ↦ ⟨source, t, .conditionalTrue⟩) ++
        next.toList.map fun t ↦ ⟨source, t, .conditionalFalse⟩
    else target.toList.map fun t ↦ ⟨source, t, .unconditional⟩
  else next.toList.map fun t ↦ ⟨source, t, .normal⟩

/-- The edges of a listing cut into runs, in run order. -/
def edgesOf (c : Classifier) (starts : List Nat) (index : Table Nat Nat)
    (runs : List (List Instruction)) : List Edge :=
  runs.zipIdx.flatMap fun (run, k) ↦
    match run.getLast? with
    | none => []
    | some last =>
      exitsOf c (Block.idAt k) last.mnemonic
        ((targetIn index last).map fun position ↦ Block.idAt (blockHolding starts position))
        (if k + 1 < runs.length then some (Block.idAt (k + 1)) else none)

/-- The members of a list, each once, in the order in which they come first. -/
def distinct (xs : List String) : List String := Search.fresh [] xs

/-- Distinct members are members. -/
theorem mem_distinct {xs : List String} {x : String} : x ∈ distinct xs ↔ x ∈ xs := by
  simp [distinct, Search.mem_fresh]

/-- Distinct members occur once each. -/
theorem nodup_distinct (xs : List String) : (distinct xs).Nodup := Search.nodup_fresh [] xs

/-- The block of the run at position `k`, connected by the edges. -/
def blockOf (edges : List Edge) (k : Nat) (run : List Instruction) : Block :=
  let id := Block.idAt k
  let successors := distinct ((edges.filter (·.source == id)).map (·.target))
  Block.withAddresses {
    index := k
    id := id
    instructions := run
    start := ""
    stop := ""
    successors := successors
    predecessors := distinct ((edges.filter (·.target == id)).map (·.source))
    isEntry := k == 0
    isExit := successors.isEmpty }

/-- The graph of a listing. -/
def split (c : Classifier) (listing : List Instruction) : Graph :=
  let starts := leaders c listing
  let runs := cut starts 0 listing
  let edges := edgesOf c starts (addressIndex listing) runs
  ⟨runs.zipIdx.map fun (run, k) ↦ blockOf edges k run, edges⟩

/-- The graph of a listing for a named instruction set. The name is looked up only when there is
something to split. -/
def splitFor (architecture : Architecture) (registry : Registry) (listing : List Instruction) :
    Except String Graph :=
  if listing.isEmpty then .ok .empty
  else (architecture.resolve registry).map fun c ↦ split c listing

/-- Cutting loses nothing. -/
theorem flatten_cut {α : Type} (starts : List Nat) (position : Nat) (xs : List α) :
    (cut starts position xs).flatten = xs := by
  induction xs generalizing position with
  | nil => rfl
  | cons x xs ih =>
    have h := ih (position + 1)
    rw [cut]
    split
    · next hc => simp_all
    · next run runs hc =>
      rw [hc] at h
      split <;> simpa using h

/-- No run is empty. -/
theorem ne_nil_of_mem_cut {α : Type} (starts : List Nat) (position : Nat) (xs : List α) :
    ∀ run ∈ cut starts position xs, run ≠ [] := by
  induction xs generalizing position with
  | nil => simp [cut]
  | cons x xs ih =>
    have h := ih (position + 1)
    rw [cut]
    split
    · simp
    · next run runs hc =>
      rw [hc] at h
      split
      · intro r hr
        rcases List.mem_cons.mp hr with rfl | hr
        · simp
        · exact h r hr
      · intro r hr
        rcases List.mem_cons.mp hr with rfl | hr
        · simp
        · exact h r (List.mem_cons_of_mem _ hr)

/-- Blocks start at the first instruction, after branches and at the targets of branches. -/
theorem mem_leaders {c : Classifier} {listing : List Instruction} {position : Nat} :
    position ∈ leaders c listing ↔
      position < listing.length ∧
        (position = 0 ∨ followsBranch c listing position = true ∨
          position ∈ jumpTargets c (addressIndex listing) listing) := by
  simp [leaders, or_assoc]

end FlowChart.Listing
