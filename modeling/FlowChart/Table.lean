/-!
# Insertion-ordered tables

A table keeps its keys in the order in which they were first written. Writing a key again
replaces the value and leaves the position. The list of entries is the whole state; a key is looked
up by its first entry.
-/

namespace FlowChart

/-- Values under keys, in the order in which the keys were first written. -/
structure Table (κ α : Type) where
  /-- The keys with their values. -/
  entries : List (κ × α)

namespace Table

variable {κ α β : Type}

/-- The table without keys. -/
def empty : Table κ α := ⟨[]⟩

instance : EmptyCollection (Table κ α) := ⟨empty⟩

instance : Inhabited (Table κ α) := ⟨empty⟩

/-- The keys in order. -/
def keys (t : Table κ α) : List κ := t.entries.map (·.1)

/-- The values in the order of their keys. -/
def values (t : Table κ α) : List α := t.entries.map (·.2)

/-- Whether the table has no keys. -/
def isEmpty (t : Table κ α) : Bool := t.entries.isEmpty

/-- The same keys with every value changed by `f`. -/
def mapValues (f : κ → α → β) (t : Table κ α) : Table κ β :=
  ⟨t.entries.map fun e ↦ (e.1, f e.1 e.2)⟩

variable [DecidableEq κ]

/-- The value under a key in a list of entries. -/
def find (k : κ) : List (κ × α) → Option α
  | [] => none
  | (k', v) :: rest => if k' = k then some v else find k rest

/-- A list of entries with a value written under a key. -/
def write (k : κ) (v : α) : List (κ × α) → List (κ × α)
  | [] => [(k, v)]
  | (k', v') :: rest => if k' = k then (k', v) :: rest else (k', v') :: write k v rest

/-- The value under a key. -/
def get? (t : Table κ α) (k : κ) : Option α := find k t.entries

/-- Whether a key has a value. -/
def contains (t : Table κ α) (k : κ) : Bool := (t.get? k).isSome

/-- Write a value under a key. -/
def insert (t : Table κ α) (k : κ) (v : α) : Table κ α := ⟨write k v t.entries⟩

/-- Write a value under a key that has none yet. -/
def insertIfNew (t : Table κ α) (k : κ) (v : α) : Table κ α :=
  if t.contains k then t else t.insert k v

/-- Write a list of pairs from left to right. -/
def insertAll (t : Table κ α) (pairs : List (κ × α)) : Table κ α :=
  pairs.foldl (fun t p ↦ t.insert p.1 p.2) t

/-- The table written by a list of pairs from left to right. -/
def ofList (pairs : List (κ × α)) : Table κ α := empty.insertAll pairs

private theorem find_write (k k' : κ) (v : α) (es : List (κ × α)) :
    find k' (write k v es) = if k = k' then some v else find k' es := by
  induction es with
  | nil => rfl
  | cons e rest ih =>
    obtain ⟨k'', v'⟩ := e
    by_cases h : k'' = k
    · subst h
      by_cases h' : k'' = k' <;> simp [write, find, h']
    · by_cases h' : k = k'
      · subst h'
        simp [write, find, h, ih]
      · by_cases h'' : k'' = k'
        · subst h''
          simp [write, find, h, h']
        · simp [write, find, h, h', h'', ih]

private theorem find_isSome_iff (k : κ) (es : List (κ × α)) :
    (find k es).isSome = true ↔ k ∈ es.map (·.1) := by
  induction es with
  | nil => simp [find]
  | cons e rest ih =>
    obtain ⟨k', v⟩ := e
    by_cases h : k' = k
    · simp [find, h]
    · simp only [find, h, if_false, ih, List.map_cons, List.mem_cons]
      exact ⟨Or.inr, fun hk ↦ hk.resolve_left fun he ↦ h he.symm⟩

private theorem map_fst_write (k : κ) (v : α) (es : List (κ × α)) :
    (write k v es).map (·.1) =
      if k ∈ es.map (·.1) then es.map (·.1) else es.map (·.1) ++ [k] := by
  induction es with
  | nil => simp [write]
  | cons e rest ih =>
    obtain ⟨k', v'⟩ := e
    by_cases h : k' = k
    · simp [write, h]
    · have h' : ¬ k = k' := fun he ↦ h he.symm
      simp only [write, h, if_false, List.map_cons, ih, List.mem_cons, h', false_or]
      split <;> rfl

/-- Nothing is found in the empty table. -/
@[simp] theorem get?_empty (k : κ) : (empty : Table κ α).get? k = none := rfl

/-- A written key has the written value, and other keys keep theirs. -/
theorem get?_insert (t : Table κ α) (k k' : κ) (v : α) :
    (t.insert k v).get? k' = if k = k' then some v else t.get? k' :=
  find_write k k' v t.entries

/-- A key just written has the written value. -/
@[simp] theorem get?_insert_self (t : Table κ α) (k : κ) (v : α) :
    (t.insert k v).get? k = some v := by
  simp [get?_insert]

/-- Writing leaves the values of other keys. -/
theorem get?_insert_of_ne (t : Table κ α) {k k' : κ} (h : k ≠ k') (v : α) :
    (t.insert k v).get? k' = t.get? k' := by
  simp [get?_insert, h]

/-- A key has a value exactly when it is among the keys. -/
theorem contains_iff_mem_keys (t : Table κ α) (k : κ) : t.contains k = true ↔ k ∈ t.keys :=
  find_isSome_iff k t.entries

/-- A new key goes to the end; a key written again stays where it is. -/
theorem keys_insert (t : Table κ α) (k : κ) (v : α) :
    (t.insert k v).keys = if k ∈ t.keys then t.keys else t.keys ++ [k] :=
  map_fst_write k v t.entries

/-- Writing only when new keeps the value of a key that has one. -/
theorem get?_insertIfNew (t : Table κ α) (k k' : κ) (v : α) :
    (t.insertIfNew k v).get? k' =
      if t.contains k = false ∧ k = k' then some v else t.get? k' := by
  by_cases h : t.contains k <;> simp [insertIfNew, h, get?_insert]

end Table

end FlowChart
