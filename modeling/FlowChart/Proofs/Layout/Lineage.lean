import FlowChart.Proofs.Layout.Ownership
import FlowChart.Proofs.Layout.Ranks
import FlowChart.Proofs.Search

/-!
# What is owned

The walk that finds owners goes from the entry to successors on deeper levels, and so from there on.
It comes to an end with its queue worked off, since a block enters the queue once and has a level. So
exactly the blocks are owned to which a path leads down from the entry, each by a block that is on
such a path itself. Every owner lies higher than what it owns, so the owner of the owner, and so on,
is the entry after as many steps as there are levels above the block, or fewer.
-/

namespace FlowChart

/-- A block lists another one, which is on a deeper level, as a successor. -/
def Graph.Deepens (g : Graph) (levels : Table String Int) (a b : String) : Prop :=
  ∃ block level level', g.block? a = some block ∧ b ∈ block.successors ∧
    levels.get? a = some level ∧ levels.get? b = some level' ∧ level < level'

namespace OwnerWalk

variable {g : Graph} {entry owner child : String} {levels : Table String Int} {level : Int}
  {s s' s'' : OwnerWalk}

/-! ### Steps of the walk -/

/-- What the walk has found. -/
structure Explores (g : Graph) (entry : String) (levels : Table String Int) (s : OwnerWalk) :
    Prop where
  /-- No block enters the queue twice. -/
  nodup : s.seen.Nodup
  /-- The entry has entered it, and what is owned has. -/
  seen_iff : ∀ id, id ∈ s.seen ↔ id = entry ∨ id ∈ s.owners.keys
  /-- What is in the queue has entered it. -/
  queued : s.queue ⊆ s.seen
  /-- An owner has entered it, and is above what it owns. -/
  owned : ∀ child owner, s.owners.get? child = some owner →
    owner ∈ s.seen ∧ g.Deepens levels owner child

/-- How the walk goes on from a state to a later one. -/
structure Extends (s s' : OwnerWalk) : Prop where
  /-- What is owned stays owned. -/
  owners : s.owners.keys ⊆ s'.owners.keys
  /-- What has entered the queue has done so for good. -/
  seen : s.seen ⊆ s'.seen
  /-- Nothing leaves the queue. -/
  queue : s.queue ⊆ s'.queue
  /-- What has entered it since is still there. -/
  entered : ∀ id ∈ s'.seen, id ∈ s.seen ∨ id ∈ s'.queue
  /-- There it takes one place. -/
  length : s'.queue.length + s.seen.length = s.queue.length + s'.seen.length

private theorem Extends.refl (s : OwnerWalk) : s.Extends s where
  owners := List.Subset.refl _
  seen := List.Subset.refl _
  queue := List.Subset.refl _
  entered _ := .inl
  length := rfl

private theorem Extends.trans (h : s.Extends s') (h' : s'.Extends s'') : s.Extends s'' where
  owners := List.Subset.trans h.owners h'.owners
  seen := List.Subset.trans h.seen h'.seen
  queue := List.Subset.trans h.queue h'.queue
  entered id hid := by
    rcases h'.entered id hid with hid | hid
    · exact (h.entered id hid).imp_right (h'.queue ·)
    · exact .inr hid
  length := by
    have := h.length
    have := h'.length
    omega

/-- What has entered the queue has a level. -/
private theorem Explores.subset_keys (h : s.Explores g entry levels) (hentry : entry ∈ levels.keys) :
    s.seen ⊆ levels.keys := by
  intro id hid
  rcases (h.seen_iff id).mp hid with rfl | hid
  · exact hentry
  · obtain ⟨owner, howner⟩ := Table.mem_keys_iff.mp hid
    obtain ⟨-, _, _, level, -, -, -, hlevel, -⟩ := h.owned id owner howner
    exact Table.mem_keys_iff.mpr ⟨level, hlevel⟩

/-- A block that has entered the queue may own one below it, which then has entered it too. -/
private theorem Explores.own (h : s.Explores g entry levels) (howner : owner ∈ s.seen)
    (hdeepens : g.Deepens levels owner child) {seen queue : List String} (hnodup : seen.Nodup)
    (hseen : ∀ id, id ∈ seen ↔ id = child ∨ id ∈ s.seen) (hqueue : queue ⊆ seen) :
    Explores g entry levels ⟨s.owners.insertIfNew child owner, seen, queue⟩ where
  nodup := hnodup
  seen_iff id := by
    dsimp only
    rw [hseen, h.seen_iff, Table.mem_keys_insertIfNew, or_left_comm]
  queued := hqueue
  owned k o hget := by
    rw [Table.get?_insertIfNew] at hget
    split at hget
    · next hnew =>
      cases hget
      exact ⟨(hseen _).mpr (.inr howner), hnew.2 ▸ hdeepens⟩
    · exact (h.owned k o hget).imp_left fun ho ↦ (hseen o).mpr (.inr ho)

/-- Claiming a successor finds no more than there is, and claims it if it lies deeper. -/
private theorem Explores.claim (h : s.Explores g entry levels) (howner : owner ∈ s.seen)
    (hlevel : levels.get? owner = some level) {block : Block} (hblock : g.block? owner = some block)
    (hchild : child ∈ block.successors) :
    (claim levels owner level s child).Explores g entry levels ∧
      s.Extends (claim levels owner level s child) ∧
      (g.Deepens levels owner child → child ∈ (claim levels owner level s child).owners.keys) := by
  obtain ⟨hshallow, heq⟩ | ⟨⟨childLevel, hdeep, hlt⟩, hclaim⟩ :=
    claim_cases levels owner level s child
  · rw [heq]
    refine ⟨h, .refl s, ?_⟩
    rintro ⟨_, _, childLevel, -, -, howner, hdeep, hlt⟩
    cases hlevel.symm.trans howner
    exact absurd hlt (not_lt.mpr (hshallow childLevel hdeep))
  · have hdeepens : g.Deepens levels owner child :=
      ⟨block, level, childLevel, hblock, hchild, hlevel, hdeep, hlt⟩
    have hkeys : s.owners.keys ⊆ (s.owners.insertIfNew child owner).keys := fun k hk ↦
      Table.mem_keys_insertIfNew.mpr (.inr hk)
    have hself : child ∈ (s.owners.insertIfNew child owner).keys :=
      Table.mem_keys_insertIfNew.mpr (.inl rfl)
    obtain ⟨hseen, heq⟩ | ⟨hnew, heq⟩ := hclaim
    · rw [heq]
      have hsame : ∀ id, id ∈ s.seen ↔ id = child ∨ id ∈ s.seen := fun id ↦
        ⟨.inr, fun hid ↦ hid.elim (fun he ↦ he ▸ hseen) fun hid ↦ hid⟩
      exact ⟨h.own howner hdeepens h.nodup hsame h.queued,
        ⟨hkeys, List.Subset.refl _, List.Subset.refl _, fun _ ↦ .inl, rfl⟩, fun _ ↦ hself⟩
    · rw [heq]
      have hqueue : s.queue ++ [child] ⊆ child :: s.seen :=
        List.append_subset.mpr ⟨List.subset_cons_of_subset child h.queued, by simp⟩
      refine ⟨h.own howner hdeepens (List.nodup_cons.mpr ⟨hnew, h.nodup⟩)
        (fun _ ↦ List.mem_cons) hqueue, ?_, fun _ ↦ hself⟩
      refine ⟨hkeys, List.subset_cons_self _ _, List.subset_append_left _ _, fun id hid ↦ ?_, ?_⟩
      · rcases List.mem_cons.mp hid with rfl | hid
        · exact .inr (by simp)
        · exact .inl hid
      · simp only [List.length_append, List.length_cons, List.length_nil]
        omega

/-- So does claiming several successors, one after the other. -/
private theorem Explores.foldl_claim (h : s.Explores g entry levels) (howner : owner ∈ s.seen)
    (hlevel : levels.get? owner = some level) {block : Block} (hblock : g.block? owner = some block)
    {children : List String} (hchildren : children ⊆ block.successors) :
    (children.foldl (OwnerWalk.claim levels owner level) s).Explores g entry levels ∧
      s.Extends (children.foldl (OwnerWalk.claim levels owner level) s) ∧
      ∀ child ∈ children, g.Deepens levels owner child →
        child ∈ (children.foldl (OwnerWalk.claim levels owner level) s).owners.keys := by
  induction children generalizing s with
  | nil => exact ⟨h, .refl s, by simp⟩
  | cons child rest ih =>
    obtain ⟨hchild, hrest⟩ := List.cons_subset.mp hchildren
    obtain ⟨hexplores, hextends, hclaimed⟩ := h.claim howner hlevel hblock hchild
    obtain ⟨hexplores', hextends', hclaimed'⟩ := ih hexplores (hextends.seen howner) hrest
    refine ⟨hexplores', hextends.trans hextends', ?_⟩
    refine List.forall_mem_cons.mpr ⟨fun hdeepens ↦ ?_, hclaimed'⟩
    exact hextends'.owners (hclaimed hdeepens)

/-- Visiting a block claims all that lies below it. -/
private theorem Explores.visit (h : s.Explores g entry levels) (hentry : entry ∈ levels.keys)
    (howner : owner ∈ s.seen) :
    (visit g levels s owner).Explores g entry levels ∧ s.Extends (visit g levels s owner) ∧
      ∀ child, g.Deepens levels owner child → child ∈ (visit g levels s owner).owners.keys := by
  obtain ⟨level, hlevel⟩ := Table.mem_keys_iff.mp (h.subset_keys hentry howner)
  unfold OwnerWalk.visit
  cases hblock : g.block? owner with
  | none =>
    refine ⟨h, .refl s, ?_⟩
    rintro child ⟨_, _, _, hsome, -⟩
    cases hblock.symm.trans hsome
  | some block =>
    rw [hlevel, Option.getD_some]
    obtain ⟨hexplores, hextends, hclaimed⟩ :=
      h.foldl_claim howner hlevel hblock (List.Subset.refl block.successors)
    refine ⟨hexplores, hextends, fun child hdeepens ↦ hclaimed child ?_ hdeepens⟩
    obtain ⟨_, _, _, hsome, hchild, -⟩ := hdeepens
    cases hblock.symm.trans hsome
    exact hchild

/-! ### The walk -/

/-- All that lies below what has left the queue is owned. -/
def IsClosed (g : Graph) (levels : Table String Int) (s : OwnerWalk) : Prop :=
  ∀ id ∈ s.seen, id ∉ s.queue → ∀ child, g.Deepens levels id child → child ∈ s.owners.keys

/-- The walk works its queue off: every block in it has a level, so the bound is not reached. -/
private theorem Explores.run (h : s.Explores g entry levels) (hclosed : s.IsClosed g levels)
    (hentry : entry ∈ levels.keys) {bound : Nat}
    (hbound : levels.keys.length + 1 + s.queue.length ≤ s.seen.length + bound) :
    (run g levels bound s).Explores g entry levels ∧ (run g levels bound s).IsClosed g levels ∧
      (run g levels bound s).queue = [] := by
  induction bound generalizing s with
  | zero =>
    have hle := (List.subperm_of_subset h.nodup (h.subset_keys hentry)).length_le
    omega
  | succ bound ih =>
    unfold OwnerWalk.run
    cases hqueue : s.queue with
    | nil => exact ⟨h, hclosed, hqueue⟩
    | cons id rest =>
      have hid : id ∈ s.seen := h.queued (by simp [hqueue])
      have hrest : Explores g entry levels { s with queue := rest } :=
        ⟨h.nodup, h.seen_iff, fun k hk ↦ h.queued (by simp [hqueue, hk]), h.owned⟩
      obtain ⟨hexplores, hextends, hclaimed⟩ := hrest.visit hentry hid
      apply ih hexplores
      · -- a block that has left the queue is the one just visited, or left it before
        intro k hk hleft child hdeepens
        by_cases hsame : k = id
        · exact hclaimed child (hsame ▸ hdeepens)
        · have hbefore : k ∈ s.seen := (hextends.entered k hk).resolve_right hleft
          refine hextends.owners (hclosed k hbefore (fun hwaits ↦ ?_) child hdeepens)
          rw [hqueue, List.mem_cons] at hwaits
          exact hleft (hextends.queue (hwaits.resolve_left hsame))
      · have hlength := hextends.length
        rw [hqueue, List.length_cons] at hbound
        dsimp only at hlength
        omega

end OwnerWalk

namespace Graph

variable {g : Graph} {entry id : String} {levels : Table String Int} {owners : Table String String}

/-! ### Owners of owners -/

/-- The owner of the owner, and so on, so many steps up. -/
def ownerAbove (owners : Table String String) : Nat → String → Option String
  | 0, id => some id
  | n + 1, id => (owners.get? id).bind (ownerAbove owners n)

/-- What is owned, and by what, when a graph is entered at a block. -/
structure IsLineage (g : Graph) (entry : String) (levels : Table String Int)
    (owners : Table String String) : Prop where
  /-- The blocks below the entry are owned. -/
  owned_iff : ∀ id, id ∈ owners.keys ↔
    id ≠ entry ∧ Relation.ReflTransGen (g.Deepens levels) entry id
  /-- An owner lists what it owns and is on a higher level. It is the entry or owned itself. -/
  owner : ∀ child owner, owners.get? child = some owner →
    g.Deepens levels owner child ∧ (owner = entry ∨ owner ∈ owners.keys)
  /-- The owners above a block lead to the entry, within as many steps as its level. -/
  chain : ∀ id ∈ owners.keys, ∃ level : Int, ∃ n : Nat, levels.get? id = some level ∧
    (n : Int) ≤ level ∧ ownerAbove owners n id = some entry

/-- Owners are found until nothing is left to be owned. -/
private theorem exists_explores (hentry : entry ∈ levels.keys) :
    ∃ s : OwnerWalk, s.owners = g.owners entry levels ∧ s.Explores g entry levels ∧
      ∀ id, (id = entry ∨ id ∈ s.owners.keys) →
        ∀ child, g.Deepens levels id child → child ∈ s.owners.keys := by
  have hstart : OwnerWalk.Explores g entry levels ⟨.empty, [entry], [entry]⟩ :=
    ⟨List.nodup_singleton _, by simp, List.Subset.refl _, by simp⟩
  have hbound : levels.keys.length + 1 + 1 ≤ 1 + (levels.entries.length + 1) := by
    rw [Table.keys, List.length_map]
    omega
  obtain ⟨hexplores, hclosed, hdone⟩ := hstart.run (fun id hid hnot ↦ absurd hid hnot) hentry hbound
  refine ⟨_, rfl, hexplores, fun id hid child hdeepens ↦ ?_⟩
  exact hclosed id ((hexplores.seen_iff id).mpr hid) (by simp [hdone]) child hdeepens

/-- The way up along owners is a way down from the last of them. -/
private theorem reflTransGen_of_ownerAbove
    (howned : ∀ child owner, owners.get? child = some owner → g.Deepens levels owner child)
    {n : Nat} {above : String} (h : ownerAbove owners n id = some above) :
    Relation.ReflTransGen (g.Deepens levels) above id := by
  induction n generalizing id with
  | zero =>
    cases h
    exact .refl
  | succ n ih =>
    obtain ⟨owner, howner, h⟩ := Option.bind_eq_some_iff.mp h
    exact (ih h).tail (howned id owner howner)

/-- The way up ends at the entry, since levels get smaller on it and are not negative. -/
private theorem exists_ownerAbove (hnonneg : ∀ id level, levels.get? id = some level → 0 ≤ level)
    (howned : ∀ child owner, owners.get? child = some owner →
      g.Deepens levels owner child ∧ (owner = entry ∨ owner ∈ owners.keys))
    {level : Int} (hlevel : levels.get? id = some level) (hid : id = entry ∨ id ∈ owners.keys) :
    ∃ n : Nat, (n : Int) ≤ level ∧ ownerAbove owners n id = some entry := by
  induction hheight : level.toNat using Nat.strongRecOn generalizing id level with
  | ind height ih =>
    subst hheight
    rcases hid with rfl | hid
    · exact ⟨0, hnonneg id level hlevel, rfl⟩
    · obtain ⟨owner, howner⟩ := Table.mem_keys_iff.mp hid
      obtain ⟨⟨_, above, level', -, -, habove, hlevel', hlt⟩, hlisted⟩ := howned id owner howner
      cases hlevel.symm.trans hlevel'
      have hpos := hnonneg owner above habove
      obtain ⟨n, hn, hchain⟩ := ih above.toNat (by omega) habove hlisted rfl
      refine ⟨n + 1, by omega, ?_⟩
      rw [ownerAbove, howner]
      exact hchain

/-- With the entry on the top level and nothing above it, the walk finds the lineage. -/
theorem isLineage_owners (hentry : levels.get? entry = some 0)
    (hnonneg : ∀ id level, levels.get? id = some level → 0 ≤ level) :
    g.IsLineage entry levels (g.owners entry levels) := by
  obtain ⟨s, hs, hexplores, hclosed⟩ :=
    exists_explores (g := g) (Table.mem_keys_iff.mpr ⟨0, hentry⟩)
  rw [← hs]
  have howned : ∀ child owner, s.owners.get? child = some owner →
      g.Deepens levels owner child ∧ (owner = entry ∨ owner ∈ s.owners.keys) := by
    intro child owner howner
    obtain ⟨hseen, hdeepens⟩ := hexplores.owned child owner howner
    exact ⟨hdeepens, (hexplores.seen_iff owner).mp hseen⟩
  have hchain : ∀ id ∈ s.owners.keys, ∃ level : Int, ∃ n : Nat, levels.get? id = some level ∧
      (n : Int) ≤ level ∧ ownerAbove s.owners n id = some entry := by
    intro id hid
    obtain ⟨owner, howner⟩ := Table.mem_keys_iff.mp hid
    obtain ⟨⟨_, _, level, -, -, -, hlevel, -⟩, -⟩ := howned id owner howner
    obtain ⟨n, hn, habove⟩ := exists_ownerAbove hnonneg howned hlevel (.inr hid)
    exact ⟨level, n, hlevel, hn, habove⟩
  refine ⟨fun id ↦ ⟨fun hid ↦ ⟨?_, ?_⟩, ?_⟩, howned, hchain⟩
  · rintro rfl
    obtain ⟨owner, howner⟩ := Table.mem_keys_iff.mp hid
    obtain ⟨⟨_, above, level, -, -, habove, hlevel, hlt⟩, -⟩ := howned id owner howner
    cases hentry.symm.trans hlevel
    exact absurd hlt (not_lt.mpr (hnonneg owner above habove))
  · obtain ⟨_, n, -, -, habove⟩ := hchain id hid
    exact reflTransGen_of_ownerAbove (fun child owner howner ↦ (howned child owner howner).1) habove
  · rintro ⟨hne, hpath⟩
    suffices hfound : id = entry ∨ id ∈ s.owners.keys from hfound.resolve_left hne
    clear hne
    induction hpath with
    | refl => exact .inl rfl
    | tail _ hdeepens ih => exact .inr (hclosed _ ih _ hdeepens)

end Graph

end FlowChart
