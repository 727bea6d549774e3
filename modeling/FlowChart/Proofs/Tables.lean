import FlowChart.Table
import Mathlib.Data.List.Nodup

/-!
# Laws of tables

A table that is only ever written to has every key once. Then its entries are exactly the pairs
that a look-up finds, and each of the two views decides the other.
-/

namespace FlowChart.Table

variable {κ α : Type}

/-- No key is listed twice. -/
def HasDistinctKeys (t : Table κ α) : Prop := t.keys.Nodup

/-- The empty table lists no key. -/
@[simp] theorem keys_empty : (empty : Table κ α).keys = [] := rfl

/-- A table is empty if it lists no key. -/
theorem isEmpty_iff {t : Table κ α} : t.isEmpty = true ↔ t.keys = [] := by
  rw [isEmpty, keys, List.map_eq_nil_iff, List.isEmpty_iff]

/-- The keys of the empty table are distinct. -/
theorem hasDistinctKeys_empty : (empty : Table κ α).HasDistinctKeys := List.nodup_nil

variable [DecidableEq κ]

private theorem mem_of_find {k : κ} {v : α} {es : List (κ × α)} (h : find k es = some v) :
    (k, v) ∈ es := by
  induction es with
  | nil => simp [find] at h
  | cons e rest ih =>
    obtain ⟨k', v'⟩ := e
    by_cases hk : k' = k
    · subst hk
      simp only [find, if_true, Option.some.injEq] at h
      simp [h]
    · simp only [find, hk, if_false] at h
      exact List.mem_cons_of_mem _ (ih h)

private theorem find_of_mem {k : κ} {v : α} {es : List (κ × α)} (h : (es.map (·.1)).Nodup)
    (hv : (k, v) ∈ es) : find k es = some v := by
  induction es with
  | nil => simp at hv
  | cons e rest ih =>
    obtain ⟨k', v'⟩ := e
    have parts := List.nodup_cons.mp h
    rcases List.mem_cons.mp hv with hv | hv
    · cases hv
      simp [find]
    · have hk : k' ≠ k := by
        rintro rfl
        exact parts.1 (List.mem_map.mpr ⟨_, hv, rfl⟩)
      simp [find, hk, ih parts.2 hv]

/-- What is found under a key is an entry. -/
theorem mem_entries_of_get? {t : Table κ α} {k : κ} {v : α} (h : t.get? k = some v) :
    (k, v) ∈ t.entries := mem_of_find h

/-- With distinct keys, every entry is found under its key. -/
theorem HasDistinctKeys.mem_entries_iff {t : Table κ α} (h : t.HasDistinctKeys) {k : κ} {v : α} :
    (k, v) ∈ t.entries ↔ t.get? k = some v :=
  ⟨find_of_mem h, mem_entries_of_get?⟩

/-- A key is listed exactly when something is found under it. -/
theorem mem_keys_iff {t : Table κ α} {k : κ} : k ∈ t.keys ↔ ∃ v, t.get? k = some v := by
  rw [← contains_iff_mem_keys, contains, Option.isSome_iff_exists]

/-- Nothing is found under a key that is not listed. -/
theorem get?_eq_none_iff {t : Table κ α} {k : κ} : t.get? k = none ↔ k ∉ t.keys := by
  rw [mem_keys_iff, Option.eq_none_iff_forall_ne_some, not_exists]

/-- With distinct keys, the values are what can be found. -/
theorem HasDistinctKeys.mem_values_iff {t : Table κ α} (h : t.HasDistinctKeys) {v : α} :
    v ∈ t.values ↔ ∃ k, t.get? k = some v := by
  simp only [values, List.mem_map]
  constructor
  · rintro ⟨⟨k, v'⟩, he, rfl⟩
    exact ⟨k, h.mem_entries_iff.mp he⟩
  · rintro ⟨k, hk⟩
    exact ⟨(k, v), mem_entries_of_get? hk, rfl⟩

/-- Writing lists one more key. -/
theorem mem_keys_insert {t : Table κ α} {k k' : κ} {v : α} :
    k' ∈ (t.insert k v).keys ↔ k' = k ∨ k' ∈ t.keys := by
  rw [keys_insert]
  split
  · next h => exact ⟨.inr, fun hk ↦ hk.elim (fun he ↦ he ▸ h) id⟩
  · simp [or_comm]

/-- So does writing only when new. -/
theorem mem_keys_insertIfNew {t : Table κ α} {k k' : κ} {v : α} :
    k' ∈ (t.insertIfNew k v).keys ↔ k' = k ∨ k' ∈ t.keys := by
  unfold insertIfNew
  split
  · next h =>
    rw [contains_iff_mem_keys] at h
    exact ⟨.inr, fun hk ↦ hk.elim (fun he ↦ he ▸ h) id⟩
  · exact mem_keys_insert

/-- Writing under a listed key lists the same keys. -/
theorem keys_insert_of_mem {t : Table κ α} {k : κ} (h : k ∈ t.keys) (v : α) :
    (t.insert k v).keys = t.keys := by
  rw [keys_insert, if_pos h]

/-- Of listed keys, all have a value. -/
theorem filter_contains (t : Table κ α) {ks : List κ} (h : ∀ k ∈ ks, k ∈ t.keys) :
    ks.filter t.contains = ks :=
  List.filter_eq_self.mpr fun k hk ↦ (contains_iff_mem_keys t k).mpr (h k hk)

private theorem write_eq_self {k : κ} {v : α} {es : List (κ × α)} (h : find k es = some v) :
    write k v es = es := by
  induction es with
  | nil => simp [find] at h
  | cons e rest ih =>
    obtain ⟨k', v'⟩ := e
    rw [find] at h
    rw [write]
    split at h
    · next hk =>
      cases h
      rw [if_pos hk]
    · next hk => rw [if_neg hk, ih h]

/-- Writing what is found under a key changes nothing. -/
theorem insert_eq_self {t : Table κ α} {k : κ} {v : α} (h : t.get? k = some v) :
    t.insert k v = t :=
  congrArg Table.mk (write_eq_self h)

/-- A value written under a new key is one more entry at the end. Under a key with an entry it takes
the place of the value there. -/
theorem insert_cases (t : Table κ α) (k : κ) (v : α) :
    t.get? k = none ∧ (t.insert k v).entries = t.entries ++ [(k, v)] ∨
      ∃ before old after, t.get? k = some old ∧ t.entries = before ++ (k, old) :: after ∧
        (t.insert k v).entries = before ++ (k, v) :: after := by
  suffices hentries : ∀ es : List (κ × α), find k es = none ∧ write k v es = es ++ [(k, v)] ∨
      ∃ before old after, find k es = some old ∧ es = before ++ (k, old) :: after ∧
        write k v es = before ++ (k, v) :: after from hentries t.entries
  intro es
  induction es with
  | nil => exact .inl ⟨rfl, rfl⟩
  | cons e rest ih =>
    obtain ⟨k', old⟩ := e
    by_cases hk : k' = k
    · subst hk
      exact .inr ⟨[], old, rest, by rw [find, if_pos rfl], rfl, by rw [write, if_pos rfl]; rfl⟩
    · rw [find, if_neg hk, write, if_neg hk]
      rcases ih with ⟨hnone, hwrite⟩ | ⟨before, old', after, hsome, hrest, hwrite⟩
      · exact .inl ⟨hnone, by rw [hwrite, List.cons_append]⟩
      · exact .inr ⟨(k', old) :: before, old', after, hsome, by rw [hrest, List.cons_append],
          by rw [hwrite, List.cons_append]⟩

/-- Writing keeps keys distinct. -/
theorem HasDistinctKeys.insert {t : Table κ α} (h : t.HasDistinctKeys) (k : κ) (v : α) :
    (t.insert k v).HasDistinctKeys := by
  rw [HasDistinctKeys, keys_insert]
  split
  · exact h
  · next hk =>
    rw [List.nodup_append']
    constructor
    · exact h
    · constructor
      · exact List.nodup_singleton k
      · intro a ha hb
        rw [List.mem_singleton.mp hb] at ha
        exact hk ha

/-- Writing pairs lists their keys. -/
theorem mem_keys_insertAll {t : Table κ α} {pairs : List (κ × α)} {k : κ} :
    k ∈ (t.insertAll pairs).keys ↔ k ∈ t.keys ∨ k ∈ pairs.map (·.1) := by
  induction pairs generalizing t with
  | nil => simp [insertAll]
  | cons p rest ih =>
    have hrest := ih (t := t.insert p.1 p.2)
    rw [mem_keys_insert] at hrest
    rw [List.map_cons, List.mem_cons]
    apply hrest.trans
    rw [or_assoc, or_left_comm]

/-- Writing pairs keeps keys distinct. -/
theorem HasDistinctKeys.insertAll {t : Table κ α} (h : t.HasDistinctKeys)
    (pairs : List (κ × α)) : (t.insertAll pairs).HasDistinctKeys := by
  induction pairs generalizing t with
  | nil => exact h
  | cons p rest ih => exact ih (h.insert p.1 p.2)

/-- What is found after writing pairs is one of them, or was there before. -/
theorem get?_insertAll_eq_some {t : Table κ α} {pairs : List (κ × α)} {k : κ} {v : α}
    (h : (t.insertAll pairs).get? k = some v) : (k, v) ∈ pairs ∨ t.get? k = some v := by
  induction pairs generalizing t with
  | nil => exact .inr h
  | cons p rest ih =>
    rcases ih (t := t.insert p.1 p.2) h with hp | hp
    · exact .inl (List.mem_cons_of_mem p hp)
    · rw [get?_insert] at hp
      split at hp
      · next hk =>
        cases hk
        cases hp
        exact .inl (by simp)
      · exact .inr hp

/-- The last pair with a key gives what is found under it, or what was there before does. -/
theorem get?_insertAll (t : Table κ α) (pairs : List (κ × α)) (k : κ) :
    (t.insertAll pairs).get? k =
      ((pairs.filter fun p ↦ p.1 == k).getLast?.map (·.2)).or (t.get? k) := by
  induction pairs generalizing t with
  | nil => rfl
  | cons p rest ih =>
    have hrest := ih (t.insert p.1 p.2)
    rw [get?_insert] at hrest
    refine hrest.trans ?_
    by_cases hk : p.1 = k
    · rw [if_pos hk, List.filter_cons, if_pos (beq_iff_eq.mpr hk), List.getLast?_cons]
      cases (rest.filter fun p ↦ p.1 == k).getLast? <;> rfl
    · rw [if_neg hk, List.filter_cons, if_neg (mt beq_iff_eq.mp hk)]

/-- What is found in a table written from pairs is given by the last pair with the key. -/
theorem get?_ofList (pairs : List (κ × α)) (k : κ) :
    (ofList pairs).get? k = (pairs.filter fun p ↦ p.1 == k).getLast?.map (·.2) := by
  rw [ofList, get?_insertAll, get?_empty, Option.or_none]

/-- The keys of a table written from pairs are those of the pairs. -/
theorem mem_keys_ofList {pairs : List (κ × α)} {k : κ} :
    k ∈ (ofList pairs).keys ↔ k ∈ pairs.map (·.1) := by
  simp [ofList, mem_keys_insertAll]

/-- The keys of a table written from pairs are distinct. -/
theorem hasDistinctKeys_ofList (pairs : List (κ × α)) : (ofList pairs).HasDistinctKeys :=
  hasDistinctKeys_empty.insertAll pairs

/-- What is found in a table written from pairs is one of them. -/
theorem get?_ofList_eq_some {pairs : List (κ × α)} {k : κ} {v : α}
    (h : (ofList pairs).get? k = some v) : (k, v) ∈ pairs := by
  simpa using get?_insertAll_eq_some h

/-- Pairs whose values depend on their keys are found again. -/
theorem get?_ofList_of_mem {pairs : List (κ × α)} {k : κ} {v : α} (h : (k, v) ∈ pairs)
    (unique : ∀ v', (k, v') ∈ pairs → v' = v) : (ofList pairs).get? k = some v := by
  obtain ⟨v', hv'⟩ := mem_keys_iff.mp (mem_keys_ofList.mpr (List.mem_map.mpr ⟨_, h, rfl⟩))
  rw [hv', unique v' (get?_ofList_eq_some hv')]

/-- Renaming all keys so that different ones stay different keeps what is found under them. -/
theorem get?_ofList_map {κ' : Type} [DecidableEq κ'] {f : κ → κ'} (hf : Function.Injective f)
    (pairs : List (κ × α)) (k : κ) :
    (ofList (pairs.map fun p ↦ (f p.1, p.2))).get? (f k) = (ofList pairs).get? k := by
  have hinsertAll : ∀ {t : Table κ α} {t' : Table κ' α}, t'.get? (f k) = t.get? k →
      (t'.insertAll (pairs.map fun p ↦ (f p.1, p.2))).get? (f k) = (t.insertAll pairs).get? k := by
    induction pairs with
    | nil => exact id
    | cons p rest ih =>
      intro t t' ht
      apply ih
      rw [get?_insert, get?_insert, ht]
      simp only [hf.eq_iff]
  exact hinsertAll rfl

end FlowChart.Table
