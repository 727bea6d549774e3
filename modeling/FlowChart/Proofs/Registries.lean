import FlowChart.Classifier.Registry

/-!
# Sequences of registrations

Registries are worked on by calls, one after the other: private ones are made, classifiers are
registered, and instruction sets are looked up. A call acts on one registry only. So what a lookup
finds depends on the registry that it is made in, and there on how that one was made last and on the
last registration since then under the same name in lower case. Everything else leaves no trace.
-/

namespace FlowChart.Registries

/-- A call. It works on the shared registry, or on the private one of a name. -/
inductive Call where
  /-- Make a private registry of what is known from the start. -/
  | makeStandard (own : String)
  /-- Make a private registry with nothing in it. -/
  | makeEmpty (own : String)
  /-- Register a classifier. -/
  | register (place : Option String) (name : String) (c : Classifier)
  /-- Look up an instruction set. -/
  | lookup (place : Option String) (architecture : Architecture)

/-- The registries after a call. Nothing is registered where there is no registry. -/
def act (s : Registries) : Call → Registries
  | .makeStandard own => s.set (some own) .builtin
  | .makeEmpty own => s.set (some own) .empty
  | .register place name c =>
    match s.get? place with
    | some r => s.set place (r.register name c)
    | none => s
  | .lookup _ _ => s

/-- The registries after a sequence of calls. -/
def run (calls : List Call) : Registries := calls.foldl act {}

/-- What a lookup gives where there is a registry: the classifier, or the name that is not
registered. -/
def resolveIn (s : Registries) (place : Option String) (architecture : Architecture) :
    Option (Except String Classifier) :=
  (s.get? place).map architecture.resolve

/-- What a private registry is made as by a call. -/
def Call.made? (own : String) : Call → Option Registry
  | .makeStandard own' => if own' = own then some .builtin else none
  | .makeEmpty own' => if own' = own then some .empty else none
  | _ => none

/-- A call registers a classifier under a name, in any letter case. -/
def Call.Registers (place : Option String) (name : String) : Call → Prop
  | .register place' name' _ => place' = place ∧ Text.lower name' = Text.lower name
  | _ => False

instance (place : Option String) (name : String) : DecidablePred (Call.Registers place name)
  | .register _ _ _ => inferInstanceAs (Decidable (_ ∧ _))
  | .makeStandard _ => inferInstanceAs (Decidable False)
  | .makeEmpty _ => inferInstanceAs (Decidable False)
  | .lookup _ _ => inferInstanceAs (Decidable False)

/-- What a registry held when it was made last, and the calls since then. The shared one was made
before all calls. -/
inductive MadeAs (calls : List Call) : Option String → Registry → List Call → Prop where
  /-- The shared registry. -/
  | shared : MadeAs calls none .builtin calls
  /-- A private registry. -/
  | own {own : String} {origin : Registry} {before since : List Call} {call : Call}
      (eq : calls = before ++ call :: since) (made : call.made? own = some origin)
      (last : ∀ call ∈ since, call.made? own = none) : MadeAs calls (some own) origin since

/-- Of some calls, the last one that registers a classifier under a name registers this one. -/
def LastRegisters (calls : List Call) (place : Option String) (name : String) (c : Classifier) :
    Prop :=
  ∃ before name' after, calls = before ++ .register place name' c :: after ∧
    Text.lower name' = Text.lower name ∧ ∀ call ∈ after, ¬ call.Registers place name

/-! ### One call -/

/-- What a call does to one of the registries. -/
def Call.effect (place : Option String) (content : Option Registry) : Call → Option Registry
  | .makeStandard own => if some own = place then some .builtin else content
  | .makeEmpty own => if some own = place then some .empty else content
  | .register place' name c => if place' = place then content.map (·.register name c) else content
  | .lookup _ _ => content

variable {place : Option String} {content : Option Registry} {own name : String} {call : Call}

/-- What a call does to a registry does not depend on the others. -/
theorem get?_act (s : Registries) (call : Call) (place : Option String) :
    (s.act call).get? place = call.effect place (s.get? place) := by
  cases call with
  | makeStandard own => exact get?_set s _ _ _
  | makeEmpty own => exact get?_set s _ _ _
  | register place' name c =>
    rw [act, Call.effect]
    split
    · next r hr =>
      rw [get?_set]
      split
      · next heq => rw [← heq, hr, Option.map_some]
      · rfl
    · next hnone =>
      split
      · next heq => rw [← heq, hnone, Option.map_none]
      · rfl
  | lookup => rfl

/-- A call makes a registry, or registers something in it, or leaves it as it is. -/
theorem effect_cases (place : Option String) (content : Option Registry) (call : Call) :
    (∃ own origin, place = some own ∧ call.made? own = some origin ∧
      call.effect place content = some origin) ∨
    (∃ name c, call = .register place name c ∧
      call.effect place content = content.map (·.register name c)) ∨
    (call.effect place content = content ∧ ∀ own, place = some own → call.made? own = none) := by
  cases call with
  | makeStandard own =>
    by_cases hplace : some own = place
    · exact .inl ⟨own, .builtin, hplace.symm, if_pos rfl, if_pos hplace⟩
    · exact .inr (.inr ⟨if_neg hplace, fun own' heq ↦ if_neg fun hown ↦
        hplace ((congrArg some hown).trans heq.symm)⟩)
  | makeEmpty own =>
    by_cases hplace : some own = place
    · exact .inl ⟨own, .empty, hplace.symm, if_pos rfl, if_pos hplace⟩
    · exact .inr (.inr ⟨if_neg hplace, fun own' heq ↦ if_neg fun hown ↦
        hplace ((congrArg some hown).trans heq.symm)⟩)
  | register place' name c =>
    by_cases hplace : place' = place
    · subst hplace
      exact .inr (.inl ⟨name, c, rfl, if_pos rfl⟩)
    · exact .inr (.inr ⟨if_neg hplace, fun _ _ ↦ rfl⟩)
  | lookup => exact .inr (.inr ⟨rfl, fun _ _ ↦ rfl⟩)

/-- A call that makes a registry leaves it as it is made. -/
theorem effect_of_made {origin : Registry} (h : call.made? own = some origin)
    (content : Option Registry) : call.effect (some own) content = some origin := by
  obtain ⟨own', _, hplace, hmade, heffect⟩ | ⟨name, c, rfl, -⟩ | ⟨-, hnone⟩ :=
    effect_cases (some own) content call
  · cases hplace
    rw [heffect, ← hmade, h]
  · cases h
  · rw [hnone own rfl] at h
    cases h

/-- A call that does not make a registry does not bring it about. -/
theorem effect_none (h : call.made? own = none) : call.effect (some own) none = none := by
  obtain ⟨own', _, hplace, hmade, -⟩ | ⟨name, c, -, heffect⟩ | ⟨heffect, -⟩ :=
    effect_cases (some own) none call
  · cases hplace
    rw [h] at hmade
    cases hmade
  · rw [heffect, Option.map_none]
  · exact heffect

/-- No call removes a registry. -/
theorem isSome_effect (h : content.isSome) (call : Call) : (call.effect place content).isSome := by
  obtain ⟨_, _, -, -, heffect⟩ | ⟨name, c, -, heffect⟩ | ⟨heffect, -⟩ :=
    effect_cases place content call
  · rw [heffect, Option.isSome_some]
  · rwa [heffect, Option.isSome_map]
  · rwa [heffect]

/-- A call that neither makes a registry nor registers a classifier under a name leaves what is found
there. -/
theorem map_lookup?_effect (hmade : ∀ own, place = some own → call.made? own = none)
    (h : ¬ call.Registers place name) :
    (call.effect place content).map (·.lookup? name) = content.map (·.lookup? name) := by
  obtain ⟨own, _, hplace, hown, -⟩ | ⟨name', c, rfl, heffect⟩ | ⟨heffect, -⟩ :=
    effect_cases place content call
  · rw [hmade own hplace] at hown
    cases hown
  · have hname : ¬ Text.lower name' = Text.lower name := fun hname ↦ h ⟨rfl, hname⟩
    rw [heffect]
    simp only [Option.map_map, Function.comp_def, Registry.lookup?_register, if_neg hname]
  · rw [heffect]

/-! ### Sequences of calls -/

variable {calls since : List Call} {origin : Registry}

/-- What a sequence of calls does to a registry does not depend on the others. -/
theorem get?_foldl_act (s : Registries) (calls : List Call) (place : Option String) :
    (calls.foldl act s).get? place = calls.foldl (Call.effect place) (s.get? place) := by
  induction calls generalizing s with
  | nil => rfl
  | cons call rest ih => rw [List.foldl_cons, List.foldl_cons, ih, get?_act]

private theorem isSome_foldl_effect (h : content.isSome) (calls : List Call) :
    (calls.foldl (Call.effect place) content).isSome := by
  induction calls generalizing content with
  | nil => exact h
  | cons call rest ih => exact ih (isSome_effect h call)

private theorem foldl_effect_none (h : ∀ call ∈ calls, call.made? own = none) :
    calls.foldl (Call.effect (some own)) none = none := by
  induction calls with
  | nil => rfl
  | cons call rest ih =>
    obtain ⟨hcall, hrest⟩ := List.forall_mem_cons.mp h
    rw [List.foldl_cons, effect_none hcall, ih hrest]

private theorem map_lookup?_foldl_effect (content : Option Registry)
    (hmade : ∀ own, place = some own → ∀ call ∈ calls, call.made? own = none)
    (h : ∀ call ∈ calls, ¬ call.Registers place name) :
    (calls.foldl (Call.effect place) content).map (·.lookup? name) =
      content.map (·.lookup? name) := by
  induction calls generalizing content with
  | nil => rfl
  | cons call rest ih =>
    obtain ⟨hcall, hrest⟩ := List.forall_mem_cons.mp h
    rw [List.foldl_cons, ih _ (fun own heq ↦ (List.forall_mem_cons.mp (hmade own heq)).2) hrest]
    exact map_lookup?_effect (fun own heq ↦ (List.forall_mem_cons.mp (hmade own heq)).1) hcall

/-- What is registered last is found. -/
private theorem map_lookup?_of_lastRegisters {c : Classifier} (origin : Registry)
    (hmade : ∀ own, place = some own → ∀ call ∈ calls, call.made? own = none)
    (h : LastRegisters calls place name c) :
    (calls.foldl (Call.effect place) (some origin)).map (·.lookup? name) = some (some c) := by
  obtain ⟨before, name', after, rfl, hname, hafter⟩ := h
  have hsome : (before.foldl (Call.effect place) (some origin)).isSome :=
    isSome_foldl_effect Option.isSome_some before
  obtain ⟨r, hr⟩ := Option.isSome_iff_exists.mp hsome
  have hlater : ∀ own, place = some own → ∀ call ∈ after, call.made? own = none :=
    fun own heq call hcall ↦ hmade own heq call (List.mem_append_right _ (.tail _ hcall))
  rw [List.foldl_append, List.foldl_cons, map_lookup?_foldl_effect _ hlater hafter, hr, Call.effect,
    if_pos rfl, Option.map_some, Option.map_some, Registry.lookup?_register, if_pos hname]

/-- A registry goes on from what it was made as. -/
theorem MadeAs.get?_run (h : MadeAs calls place origin since) :
    (run calls).get? place = since.foldl (Call.effect place) (some origin) := by
  rw [run, get?_foldl_act]
  cases h with
  | shared => rfl
  | own eq made last => rw [eq, List.foldl_append, List.foldl_cons, effect_of_made made]

/-- No later call makes it again. -/
theorem MadeAs.last (h : MadeAs calls place origin since) :
    ∀ own, place = some own → ∀ call ∈ since, call.made? own = none := by
  intro own heq
  cases h with
  | shared => cases heq
  | own eq made last =>
    cases heq
    exact last

private theorem exists_last {p : Call → Prop} (h : ∃ call ∈ calls, p call) :
    ∃ before call after, calls = before ++ call :: after ∧ p call ∧ ∀ call ∈ after, ¬ p call := by
  induction calls with
  | nil =>
    obtain ⟨call, hcall, -⟩ := h
    cases hcall
  | cons first rest ih =>
    by_cases hrest : ∃ call ∈ rest, p call
    · obtain ⟨before, call, after, rfl, hcall, hafter⟩ := ih hrest
      exact ⟨first :: before, call, after, rfl, hcall, hafter⟩
    · refine ⟨[], first, rest, rfl, ?_, fun call hcall hp ↦ hrest ⟨call, hcall, hp⟩⟩
      obtain ⟨call, hcall, hp⟩ := h
      rcases List.mem_cons.mp hcall with rfl | hcall
      · exact hp
      · exact absurd ⟨call, hcall, hp⟩ hrest

/-- There are the shared registry and the private ones that were made. -/
theorem isSome_get?_run_iff :
    ((run calls).get? place).isSome ↔ ∃ origin since, MadeAs calls place origin since := by
  constructor
  · intro h
    cases place with
    | none => exact ⟨_, _, .shared⟩
    | some own =>
      by_cases hmade : ∃ call ∈ calls, (call.made? own).isSome
      · obtain ⟨before, call, since, heq, hcall, hlast⟩ := exists_last hmade
        obtain ⟨origin, horigin⟩ := Option.isSome_iff_exists.mp hcall
        exact ⟨origin, since, .own heq horigin fun call hmem ↦
          Option.not_isSome_iff_eq_none.mp (hlast call hmem)⟩
      · have hnever : ∀ call ∈ calls, call.made? own = none := fun call hcall ↦
          Option.not_isSome_iff_eq_none.mp fun hsome ↦ hmade ⟨call, hcall, hsome⟩
        have hnone : (run calls).get? (some own) = none := by
          rw [run, get?_foldl_act]
          exact foldl_effect_none hnever
        rw [hnone] at h
        cases h
  · rintro ⟨origin, since, hmade⟩
    rw [hmade.get?_run]
    exact isSome_foldl_effect Option.isSome_some since

private theorem resolve_named (r : Registry) (name : String) :
    (Architecture.named name).resolve r = (r.lookup? name).elim (.error name) .ok := by
  rw [Architecture.resolve]
  cases r.lookup? name <;> rfl

private theorem resolveIn_named {s : Registries} {found : Option Classifier}
    (h : (s.get? place).map (·.lookup? name) = some found) :
    s.resolveIn place (.named name) = some (found.elim (.error name) .ok) := by
  obtain ⟨r, hr, hfound⟩ := Option.map_eq_some_iff.mp h
  rw [resolveIn, hr, Option.map_some, resolve_named, hfound]

/-- After any calls, a name in any letter case is resolved in a registry as the classifier that was
registered last in it under that name, since it was made. If there is none, then it is resolved as in
what the registry was made as: what is known from the start, or nothing, where every name is unknown.
A registration in one registry changes no lookup in another one, and what is known from the start is
the same after all calls. -/
theorem resolveIn_run (calls : List Call) :
    (∀ place, ((run calls).get? place).isSome ↔ ∃ origin since, MadeAs calls place origin since) ∧
    (∀ place origin since, MadeAs calls place origin since → ∀ name,
      (∀ c, LastRegisters since place name c →
        (run calls).resolveIn place (.named name) = some (.ok c)) ∧
      ((∀ call ∈ since, ¬ call.Registers place name) →
        (run calls).resolveIn place (.named name) =
          some ((Architecture.named name).resolve origin))) ∧
    (∀ name, (Architecture.named name).resolve .empty = .error name) ∧
    (∀ place place' name c architecture, place ≠ place' →
      ((run calls).act (.register place name c)).resolveIn place' architecture =
        (run calls).resolveIn place' architecture) ∧
    ∀ own, ((run calls).act (.makeStandard own)).get? (some own) = some .builtin := by
  refine ⟨fun _ ↦ isSome_get?_run_iff, ?_, fun _ ↦ rfl, ?_, fun own ↦ ?_⟩
  · refine fun place origin since hmade name ↦ ⟨fun c hlast ↦ ?_, fun hnever ↦ ?_⟩
    · have hfound := map_lookup?_of_lastRegisters origin hmade.last hlast
      rw [← hmade.get?_run] at hfound
      exact resolveIn_named hfound
    · have hfound := map_lookup?_foldl_effect (some origin) hmade.last hnever
      rw [← hmade.get?_run, Option.map_some] at hfound
      rw [resolve_named]
      exact resolveIn_named hfound
  · intro place place' name c architecture hne
    rw [resolveIn, get?_act, Call.effect, if_neg hne, resolveIn]
  · have hmade : (Call.makeStandard own).made? own = some .builtin := if_pos rfl
    rw [get?_act, effect_of_made hmade]

/-- Two registrations under one name in a private registry, one in an empty one, and one in the shared
registry in between. -/
theorem resolveIn_run_private :
    let first : Classifier := { name := "first", returns := ["done"] }
    let second : Classifier := { name := "second", returns := ["ret"] }
    let calls : List Call := [.makeStandard "a", .makeEmpty "b", .register (some "a") "X86" first,
      .register none "x86" first, .register (some "b") "toy" first,
      .register (some "a") "x86" second, .lookup (some "a") (.named "x86")]
    (run calls).resolveIn (some "a") (.named "x86") = some (.ok second) ∧
      (run calls).resolveIn (some "a") (.named "ARM64") = some (.ok .arm64) ∧
      (run calls).resolveIn (some "b") (.named "Toy") = some (.ok first) ∧
      (run calls).resolveIn (some "b") (.named "x86") = some (.error "x86") ∧
      ((run calls).act (.register none "x64" first)).resolveIn (some "a") (.named "x64") =
        (run calls).resolveIn (some "a") (.named "x64") := by
  intro first second calls
  obtain ⟨-, hresolve, -, hframe, -⟩ := resolveIn_run calls
  have ha : MadeAs calls (some "a") .builtin (calls.drop 1) :=
    @MadeAs.own calls "a" .builtin [] _ (.makeStandard "a") rfl rfl (by simp [calls, Call.made?])
  have hb : MadeAs calls (some "b") .empty (calls.drop 2) :=
    @MadeAs.own calls "b" .empty (calls.take 1) _ (.makeEmpty "b") rfl rfl
      (by simp [calls, Call.made?])
  refine ⟨?_, ?_, ?_, ?_, hframe none (some "a") "x64" first _ nofun⟩
  · exact (hresolve _ _ _ ha "x86").1 second
      ⟨(calls.drop 1).take 4, "x86", calls.drop 6, rfl, rfl, by decide +kernel⟩
  · exact (hresolve _ _ _ ha "ARM64").2 (by decide +kernel)
  · exact (hresolve _ _ _ hb "Toy").1 first
      ⟨(calls.drop 2).take 2, "toy", calls.drop 5, rfl, by decide +kernel, by decide +kernel⟩
  · exact (hresolve _ _ _ hb "x86").2 (by decide +kernel)

end FlowChart.Registries
