import FlowChart.Proofs.Graph.Splitting
import FlowChart.Proofs.Text.Lowering

/-!
# Merged classifiers

The graph of a listing depends on a classifier only through what it says of the mnemonics in the
listing. A classifier that is merged with another one says the same as before of every mnemonic that
the other one does not list, or lists in no new role. In general it does not: a mnemonic that one of
them lists as a jump and the other one as a call ends no block any more.
-/

namespace FlowChart

namespace Classifier

/-- What a mnemonic may be listed as. -/
inductive Role where
  /-- A jump that is always taken. -/
  | unconditional
  /-- A jump that may fall through. -/
  | conditional
  /-- A return. -/
  | returns
  /-- A call. -/
  | calls
  deriving DecidableEq

/-- The mnemonics that a classifier lists in a role. -/
def table (c : Classifier) : Role → List String
  | .unconditional => c.unconditional
  | .conditional => c.conditional
  | .returns => c.returns
  | .calls => c.calls

/-- A classifier lists a mnemonic. -/
def Knows (c : Classifier) (mnemonic : String) : Prop := ∃ role, mnemonic ∈ c.table role

/-- Two classifiers say the same of a mnemonic. -/
structure AgreeOn (c c' : Classifier) (mnemonic : String) : Prop where
  /-- Both take it for a branch, or neither does. -/
  isBranch : c.isBranch mnemonic = c'.isBranch mnemonic
  /-- Both take it for a return, or neither does. -/
  isReturn : c.isReturn mnemonic = c'.isReturn mnemonic
  /-- Both take it for a jump that may fall through, or neither does. -/
  isConditional : c.isConditional mnemonic = c'.isConditional mnemonic

/-- Classifiers that list a lower-case mnemonic in the same roles say the same of it. -/
theorem agreeOn_of_table {c c' : Classifier} {mnemonic : String}
    (hlower : Text.lower mnemonic = mnemonic)
    (h : ∀ role, mnemonic ∈ c.table role ↔ mnemonic ∈ c'.table role) : c.AgreeOn c' mnemonic := by
  have hcontains : ∀ role, (c.table role).contains mnemonic = (c'.table role).contains mnemonic :=
    fun role ↦ by rw [List.contains_eq_mem, List.contains_eq_mem, decide_eq_decide.mpr (h role)]
  have hunconditional := hcontains .unconditional
  have hconditional := hcontains .conditional
  have hreturns := hcontains .returns
  have hcalls := hcontains .calls
  simp only [table] at hunconditional hconditional hreturns hcalls
  constructor
  · simp only [isBranch, isCall, hlower, hunconditional, hconditional, hreturns, hcalls]
  · rw [isReturn, isReturn, hlower, hreturns]
  · rw [isConditional, isConditional, hlower, hconditional]

/-- A merged classifier lists what either of the two lists. -/
theorem mem_table_merge {a b : Classifier} {name mnemonic : String} {role : Role} :
    mnemonic ∈ (a.merge b name).table role ↔ mnemonic ∈ a.table role ∨ mnemonic ∈ b.table role := by
  have hunion : ∀ xs ys : List String, mnemonic ∈ union xs ys ↔ mnemonic ∈ xs ∨ mnemonic ∈ ys := by
    intro xs ys
    rw [← List.contains_iff_mem, contains_union, Bool.or_eq_true, List.contains_iff_mem,
      List.contains_iff_mem]
  cases role <;> exact hunion _ _

/-- The two families of instruction sets give no mnemonic different roles. -/
theorem role_eq_of_mem_table {mnemonic : String} {role role' : Role}
    (h : mnemonic ∈ arm64.table role) (h' : mnemonic ∈ x86.table role') : role = role' := by
  revert mnemonic
  cases role <;> cases role' <;> decide +kernel

end Classifier

namespace Listing

variable {c c' : Classifier} {listing : List Instruction}

private theorem jumpTargets_congr (h : ∀ i ∈ listing, c.AgreeOn c' i.mnemonic)
    (index : Table Nat Nat) : jumpTargets c index listing = jumpTargets c' index listing := by
  rw [jumpTargets, jumpTargets, List.filter_congr fun i hi ↦ (h i hi).isBranch]

private theorem followsBranch_congr (h : ∀ i ∈ listing, c.AgreeOn c' i.mnemonic) :
    followsBranch c listing = followsBranch c' listing := by
  funext position
  cases position with
  | zero => rfl
  | succ position =>
    rw [followsBranch, followsBranch]
    cases hget : listing[position]? with
    | none => rfl
    | some i => rw [Option.map_some, Option.map_some, (h i (List.mem_of_getElem? hget)).isBranch]

private theorem leaders_congr (h : ∀ i ∈ listing, c.AgreeOn c' i.mnemonic) :
    leaders c listing = leaders c' listing := by
  rw [leaders, leaders, jumpTargets_congr h, followsBranch_congr h]

/-- The edges depend on the last instructions of the runs, which stand in the listing. -/
private theorem edgesOf_congr (h : ∀ i ∈ listing, c.AgreeOn c' i.mnemonic) (starts : List Nat)
    (index : Table Nat Nat) {runs : List (List Instruction)} (hruns : ∀ run ∈ runs, run ⊆ listing) :
    edgesOf c starts index runs = edgesOf c' starts index runs := by
  rw [edgesOf, edgesOf, List.flatMap_def, List.flatMap_def]
  refine congrArg List.flatten (List.map_congr_left ?_)
  rintro ⟨run, k⟩ hrun
  dsimp only
  cases hlast : run.getLast? with
  | none => rfl
  | some last =>
    have hmem := hruns run (List.fst_mem_of_mem_zipIdx hrun) (List.mem_of_getLast? hlast)
    obtain ⟨hbranch, hreturn, hconditional⟩ := h last hmem
    dsimp only
    rw [exitsOf, exitsOf, hbranch, hreturn, hconditional]

/-- A listing is split in the same way by classifiers that say the same of its mnemonics. -/
theorem split_congr (h : ∀ i ∈ listing, c.AgreeOn c' i.mnemonic) :
    split c listing = split c' listing := by
  have hruns : ∀ run ∈ cut (leaders c' listing) 0 listing, run ⊆ listing := by
    intro run hrun
    have hsublist := List.sublist_flatten_of_mem hrun
    rw [flatten_cut] at hsublist
    exact hsublist.subset
  rw [split, split, leaders_congr h, edgesOf_congr h _ _ hruns]

/-- Instruction sets that are found, and say the same of its mnemonics, split a listing in the same
way. -/
theorem splitFor_congr {architecture architecture' : Architecture} {registry registry' : Registry}
    (hc : architecture.resolve registry = .ok c) (hc' : architecture'.resolve registry' = .ok c')
    (h : ∀ i ∈ listing, c.AgreeOn c' i.mnemonic) :
    splitFor architecture registry listing = splitFor architecture' registry' listing := by
  rw [splitFor, splitFor, hc, hc', Except.map, Except.map, split_congr h]

/-- What a classifier lists of the mnemonics in a listing, another one lists in the same roles. -/
def Covers (a b : Classifier) (listing : List Instruction) : Prop :=
  ∀ i ∈ listing, ∀ role, i.mnemonic ∈ b.table role → i.mnemonic ∈ a.table role

/-- The classifier merged with one that has nothing new to say of a listing says the same of it. -/
theorem Covers.agreeOn {a b merged : Classifier} (h : Covers a b listing)
    (hmerged : ∀ {mnemonic role},
      mnemonic ∈ merged.table role ↔ mnemonic ∈ a.table role ∨ mnemonic ∈ b.table role) :
    ∀ i ∈ listing, merged.AgreeOn a i.mnemonic := by
  intro i hi
  refine Classifier.agreeOn_of_table (Text.lower_lower _) fun role ↦ ?_
  rw [hmerged]
  exact or_iff_left_of_imp (h i hi role)

/-- Merging a classifier on either side with one that lists nothing of a listing in a new role does not
change how the listing is split. So with both known instruction sets together, a listing is split as
with one of them, unless it has a mnemonic that only the other one lists. -/
theorem splitFor_merge :
    (∀ (a b : Classifier) (listing : List Instruction), Covers a b listing →
      ∀ (name : String) (registry : Registry),
        splitFor (.given (a.merge b name)) registry listing =
          splitFor (.given a) registry listing ∧
        splitFor (.given (b.merge a name)) registry listing =
          splitFor (.given a) registry listing) ∧
    (∀ listing : List Instruction,
      (∀ i ∈ listing, Classifier.x86.Knows i.mnemonic → Classifier.arm64.Knows i.mnemonic) →
      splitFor (.named "auto") .builtin listing = splitFor (.named "arm64") .builtin listing) ∧
    ∀ listing : List Instruction,
      (∀ i ∈ listing, Classifier.arm64.Knows i.mnemonic → Classifier.x86.Knows i.mnemonic) →
      splitFor (.named "auto") .builtin listing = splitFor (.named "x86") .builtin listing := by
  refine ⟨fun a b listing h name registry ↦ ⟨?_, ?_⟩, fun listing h ↦ ?_, fun listing h ↦ ?_⟩
  · exact splitFor_congr rfl rfl (h.agreeOn Classifier.mem_table_merge)
  · exact splitFor_congr rfl rfl (h.agreeOn (Classifier.mem_table_merge.trans or_comm))
  · have hcovers : Covers .arm64 .x86 listing := by
      intro i hi role hrole
      obtain ⟨role', hrole'⟩ := h i hi ⟨role, hrole⟩
      rwa [← Classifier.role_eq_of_mem_table hrole' hrole]
    exact splitFor_congr rfl rfl (hcovers.agreeOn Classifier.mem_table_merge)
  · have hcovers : Covers .x86 .arm64 listing := by
      intro i hi role hrole
      obtain ⟨role', hrole'⟩ := h i hi ⟨role, hrole⟩
      rwa [Classifier.role_eq_of_mem_table hrole hrole']
    exact splitFor_congr rfl rfl (hcovers.agreeOn (Classifier.mem_table_merge.trans or_comm))

/-- A jump that both list as a call, so that it ends no block, and a listing of either instruction
set. -/
theorem splitFor_merge_veto :
    let a : Classifier :=
      { name := "a", unconditional := ["jmp"], returns := ["ret"], calls := ["jmp"] }
    let b : Classifier := { name := "b", conditional := ["jz"], calls := ["jmp"] }
    let jmp : Instruction := ⟨"0x0", "", "JMP", "0x8", .null⟩
    let beq : Instruction := ⟨"0x0", "", "b.eq", "0x8", .null⟩
    let jne : Instruction := ⟨"0x0", "", "jne", "0x8", .null⟩
    let mov : Instruction := ⟨"0x4", "", "mov", "", .null⟩
    let ret : Instruction := ⟨"0x8", "", "ret", "", .null⟩
    Covers a b [jmp, mov, ret] ∧
      splitFor (.given (a.merge b "c")) .builtin [jmp, mov, ret] =
        splitFor (.given a) .builtin [jmp, mov, ret] ∧
      splitFor (.given (b.merge a "c")) .builtin [jmp, mov, ret] =
        splitFor (.given a) .builtin [jmp, mov, ret] ∧
      splitFor (.named "auto") .builtin [beq, mov, ret] =
        splitFor (.named "arm64") .builtin [beq, mov, ret] ∧
      splitFor (.named "auto") .builtin [jne, mov, ret] =
        splitFor (.named "x86") .builtin [jne, mov, ret] := by
  intro a b jmp beq jne mov ret
  have hcovers : Covers a b [jmp, mov, ret] := by
    have hroles : ∀ role, ∀ i ∈ [jmp, mov, ret],
        i.mnemonic ∈ b.table role → i.mnemonic ∈ a.table role := by
      intro role
      cases role <;> decide +kernel
    exact fun i hi role ↦ hroles role i hi
  have hmov : ∀ c ∈ [Classifier.arm64, Classifier.x86], ¬ c.Knows mov.mnemonic := by
    have hroles : ∀ role, ∀ c ∈ [Classifier.arm64, Classifier.x86], mov.mnemonic ∉ c.table role := by
      intro role
      cases role <;> decide +kernel
    rintro c hc ⟨role, hrole⟩
    exact hroles role c hc hrole
  have harm : ∀ i ∈ [beq, mov, ret],
      Classifier.x86.Knows i.mnemonic → Classifier.arm64.Knows i.mnemonic := by
    rw [List.forall_mem_cons, List.forall_mem_cons, List.forall_mem_singleton]
    exact ⟨fun _ ↦ ⟨.conditional, by decide +kernel⟩, fun h ↦ absurd h (hmov _ (by simp)),
      fun _ ↦ ⟨.returns, by decide +kernel⟩⟩
  have hx86 : ∀ i ∈ [jne, mov, ret],
      Classifier.arm64.Knows i.mnemonic → Classifier.x86.Knows i.mnemonic := by
    rw [List.forall_mem_cons, List.forall_mem_cons, List.forall_mem_singleton]
    exact ⟨fun _ ↦ ⟨.conditional, by decide +kernel⟩, fun h ↦ absurd h (hmov _ (by simp)),
      fun _ ↦ ⟨.returns, by decide +kernel⟩⟩
  obtain ⟨hmerge, hmerge'⟩ := splitFor_merge.1 a b _ hcovers "c" .builtin
  exact ⟨hcovers, hmerge, hmerge', splitFor_merge.2.1 _ harm, splitFor_merge.2.2 _ hx86⟩

end Listing

end FlowChart
