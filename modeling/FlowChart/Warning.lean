import FlowChart.Rejection

/-!
# Warnings

What is worth telling about a request beside its outcome. Warnings are kept in the order in which
they arise, and are told also when the request fails.
-/

namespace FlowChart

/-- Something that was passed over or went wrong. -/
inductive Warning where
  /-- The address of the instruction at a position denotes no number. -/
  | unparseableAddress (position : Nat) (text : String)
  /-- None of the blocks of a graph is entered. -/
  | noEntryBlock (blocks : Nat)
  /-- An edge from outside was dropped, because one of its ends is no block. -/
  | droppedEdge (source target : String)
  /-- An edge has no route, because one of its ends has no place. -/
  | unplacedEdge (source target : String)
  /-- A chart could not be built from instructions. -/
  | buildFailed (message : String)
  /-- A chart could not be built from a graph from outside. -/
  | importFailed (message : String)
  /-- A reachability record names no block. -/
  | withoutBlock (record : Json)

/-- The wording of a warning. -/
def Warning.message : Warning → String
  | .unparseableAddress position text =>
    "instruction " ++ toString position ++ " has unparseable address " ++ Text.quoted text
  | .noEntryBlock blocks => "CFG with " ++ toString blocks ++ " blocks has no entry block"
  | .droppedEdge source target =>
    "dropping external edge " ++ source ++ " -> " ++ target ++ ": unknown block"
  | .unplacedEdge source target =>
    "skipping edge " ++ source ++ " -> " ++ target ++ ": endpoint not placed"
  | .buildFailed message => "CFG build failed: " ++ message
  | .importFailed message => "external CFG build failed: " ++ message
  | .withoutBlock record => "ignoring reachability record without blockId: " ++ record.inspect

/-- An outcome with the warnings that arose on the way to it. -/
structure Logged (α : Type) where
  /-- The warnings in order. -/
  warnings : List Warning
  /-- The value, or the failure that ended the request. -/
  outcome : Except Failure α

namespace Logged

variable {α β : Type}

/-- A value without warnings. -/
def pure (a : α) : Logged α := ⟨[], .ok a⟩

/-- Go on with the value, keeping the warnings of both parts. A failure ends the request. -/
def bind (x : Logged α) (f : α → Logged β) : Logged β :=
  match x.outcome with
  | .ok a => ⟨x.warnings ++ (f a).warnings, (f a).outcome⟩
  | .error failure => ⟨x.warnings, .error failure⟩

instance : Monad Logged where
  pure := pure
  bind := bind

/-- Give warnings. -/
def warn (warnings : List Warning) : Logged Unit := ⟨warnings, .ok ()⟩

/-- A request that fails. -/
def fail (failure : Failure) : Logged α := ⟨[], .error failure⟩

/-- A request that ends with a rejection. -/
def reject (reason : Rejection) : Logged α := fail (.rejected reason)

/-- A request that meets a fault. -/
def broken (fault : Fault) : Logged α := fail (.broken fault)

/-- A computation that may meet a fault. -/
def ofFaulty : Except Fault α → Logged α
  | .ok a => pure a
  | .error fault => broken fault

/-- Nothing is warned of on the way to a pure value. -/
@[simp] theorem warnings_pure (a : α) : (Pure.pure a : Logged α).warnings = [] := rfl

/-- A pure value is its own outcome. -/
@[simp] theorem outcome_pure (a : α) : (Pure.pure a : Logged α).outcome = .ok a := rfl

/-- Going on with a value unchanged changes nothing. -/
theorem id_map (x : Logged α) : id <$> x = x := by
  obtain ⟨warnings, outcome⟩ := x
  cases outcome <;> simp [Functor.map, bind, pure]

/-- Going on from a pure value is the rest alone. -/
theorem pure_bind (a : α) (f : α → Logged β) : Pure.pure a >>= f = f a := by
  simp [Bind.bind, bind, Pure.pure, pure]

/-- How three requests in sequence are grouped does not matter. -/
theorem bind_assoc {γ : Type} (x : Logged α) (f : α → Logged β) (g : β → Logged γ) :
    x >>= f >>= g = x >>= fun a ↦ f a >>= g := by
  obtain ⟨warnings, outcome⟩ := x
  cases outcome with
  | error failure => rfl
  | ok a =>
    simp only [Bind.bind, bind]
    cases (f a).outcome <;> simp

instance : LawfulMonad Logged := LawfulMonad.mk' Logged id_map pure_bind bind_assoc

end Logged

end FlowChart
