import FlowChart.Proofs.Layout.Ranks
import FlowChart.Proofs.Search

/-!
# Levels by their equations

Levels are assigned in one pass, and yet they do not depend on the pass: they are the one solution of
the equations that put a block below its deepest predecessor of lower rank and, where there is none,
at its distance from the entry. The equations have one solution because each of them refers to lower
ranks only.

Where only the entry has no such predecessor, distances have no part in the solution. Then the level
of a block is the length of the longest path to it along which ranks increase, and jumps back to
lower or equal ranks do not change it.
-/

namespace FlowChart

namespace Graph

variable {g : Graph} {entry : String} {b : Block}

/-- A predecessor of a block leads forward, if it is a block with a lower rank. -/
structure IsForward (g : Graph) (p : String) (b : Block) : Prop where
  /-- It is listed as a predecessor. -/
  listed : p ∈ b.predecessors
  /-- It is a block. -/
  isBlock : p ∈ g.ids
  /-- It has a lower rank. -/
  lower : Leveling.rankOf g.ranks p < Leveling.rankOf g.ranks b.id

private theorem isForward_iff {p : String} :
    g.IsForward p b ↔ p ∈ b.predecessors ∧
      ∃ rank, g.ranks.get? p = some rank ∧ rank < Leveling.rankOf g.ranks b.id := by
  constructor
  · rintro ⟨hlisted, hblock, hlower⟩
    obtain ⟨rank, hrank⟩ := Table.mem_keys_iff.mp (g.mem_keys_ranks.mpr hblock)
    rw [Leveling.rankOf, hrank, Option.getD_some] at hlower
    exact ⟨hlisted, rank, hrank, hlower⟩
  · rintro ⟨hlisted, rank, hrank, hlower⟩
    refine ⟨hlisted, g.mem_keys_ranks.mp (Table.mem_keys_iff.mpr ⟨rank, hrank⟩), ?_⟩
    rwa [Leveling.rankOf, hrank, Option.getD_some]

/-- What holds of a block as soon as it holds of all predecessors that lead forward holds of every
block. -/
theorem induction_forward {motive : String → Prop}
    (step : ∀ b ∈ g.blocks, (∀ p, g.IsForward p b → motive p) → motive b.id) {id : String}
    (hid : id ∈ g.ids) : motive id := by
  induction hrank : Leveling.rankOf g.ranks id using Nat.strongRecOn generalizing id with
  | ind rank ih =>
    subst hrank
    obtain ⟨b, hb, rfl⟩ := List.mem_map.mp hid
    exact step b hb fun p hp ↦ ih _ hp.lower hp.isBlock rfl

/-- What has a distance along edges is found at it. -/
theorem get?_edgeDistances (hentry : entry ∈ g.ids) {id : String} {n : Nat} :
    (g.edgeDistances entry).get? id = some n ↔ Search.IsDistance g.targetsOf entry id n := by
  have hnext : ∀ a ∈ g.ids, ∀ b ∈ g.targetsOf a, b ∈ g.ids := by
    intro a _ b hb
    obtain ⟨e, he, rfl⟩ := List.mem_map.mp hb
    have hends : g.hasEnds e = true := (Bool.and_eq_true_iff.mp (List.mem_filter.mp he).2).2
    exact (g.contains_iff e.target).mp (Bool.and_eq_true_iff.mp hends).2
  have hmem : ∀ {m}, (id, m) ∈ (g.edgeDistances entry).entries ↔
      Search.IsDistance g.targetsOf entry id m :=
    Search.mem_distances_iff hnext hentry (by simp [ids])
  constructor
  · exact fun h ↦ hmem.mp (Table.mem_entries_of_get? h)
  · intro h
    have hkey : id ∈ (g.edgeDistances entry).keys := List.mem_map.mpr ⟨(id, n), hmem.mpr h, rfl⟩
    obtain ⟨m, hm⟩ := Table.mem_keys_iff.mp hkey
    exact hmem.mp (Table.mem_entries_of_get? hm) |>.unique h ▸ hm

/-- The equations of levels. -/
structure SolvesLevels (g : Graph) (entry : String) (level : String → Int) : Prop where
  /-- The entry is on the top level. -/
  top : level entry = 0
  /-- A block with predecessors that lead forward is one level below the deepest of them. -/
  below : ∀ b ∈ g.blocks, b.id ≠ entry → (∃ p, g.IsForward p b) →
    IsGreatest ((fun p ↦ level p + 1) '' {p | g.IsForward p b}) (level b.id)
  /-- Any other block that can be reached is at its distance from the entry. -/
  near : ∀ b ∈ g.blocks, b.id ≠ entry → (¬ ∃ p, g.IsForward p b) →
    ∀ n : Nat, Search.IsDistance g.targetsOf entry b.id n → level b.id = n
  /-- Any other block is on the first level below the entry. -/
  apart : ∀ b ∈ g.blocks, b.id ≠ entry → (¬ ∃ p, g.IsForward p b) →
    (¬ ∃ n : Nat, Search.IsDistance g.targetsOf entry b.id n) → level b.id = 1

/-- The equations have one solution, by induction on the ranks. -/
theorem SolvesLevels.unique {level level' : String → Int} (h : g.SolvesLevels entry level)
    (h' : g.SolvesLevels entry level') {id : String} (hid : id ∈ g.ids) : level id = level' id := by
  refine induction_forward (motive := fun id ↦ level id = level' id) (fun b hb ih ↦ ?_) hid
  by_cases hentry : b.id = entry
  · rw [hentry, h.top, h'.top]
  by_cases hforward : ∃ p, g.IsForward p b
  · have hsame : (fun p ↦ level p + 1) '' {p | g.IsForward p b} =
        (fun p ↦ level' p + 1) '' {p | g.IsForward p b} :=
      Set.image_congr fun p (hp : g.IsForward p b) ↦ by rw [ih p hp]
    exact (hsame ▸ h.below b hb hentry hforward).unique (h'.below b hb hentry hforward)
  by_cases hnear : ∃ n : Nat, Search.IsDistance g.targetsOf entry b.id n
  · obtain ⟨n, hn⟩ := hnear
    rw [h.near b hb hentry hforward n hn, h'.near b hb hentry hforward n hn]
  · rw [h.apart b hb hentry hforward hnear, h'.apart b hb hentry hforward hnear]

end Graph

namespace Leveling

variable {g : Graph} {entry : String}

/-- The levels that count for a block are those of the predecessors that lead forward. -/
private theorem mem_forwardLevels_iff_isForward {levels : Table String Int} {level : String → Int}
    (hlevel : ∀ id ∈ g.ids, levels.get? id = some (level id)) {b : Block} {x : Int} :
    x ∈ forwardLevels g.ranks levels b ↔ ∃ p, g.IsForward p b ∧ level p = x := by
  rw [mem_forwardLevels_iff]
  refine exists_congr fun p ↦ ?_
  constructor
  · rintro ⟨hlisted, hx, hlower⟩
    have hp := Graph.isForward_iff.mpr ⟨hlisted, hlower⟩
    exact ⟨hp, Option.some.inj ((hlevel p hp.isBlock).symm.trans hx)⟩
  · rintro ⟨hp, rfl⟩
    obtain ⟨hlisted, hlower⟩ := Graph.isForward_iff.mp hp
    exact ⟨hlisted, hlevel p hp.isBlock, hlower⟩

private theorem forwardLevels_eq_nil {levels : Table String Int} {level : String → Int}
    (hlevel : ∀ id ∈ g.ids, levels.get? id = some (level id)) {b : Block}
    (hb : ¬ ∃ p, g.IsForward p b) : forwardLevels g.ranks levels b = [] := by
  refine List.eq_nil_iff_forall_not_mem.mpr fun x hx ↦ ?_
  obtain ⟨p, hp, -⟩ := (mem_forwardLevels_iff_isForward hlevel).mp hx
  exact hb ⟨p, hp⟩

/-- The levels that are assigned solve the equations. -/
private theorem solvesLevels_of_assign (hids : g.ids.Nodup) {l : Leveling}
    (h : assign g entry = .ok l) {level : String → Int}
    (hlevel : ∀ id ∈ g.ids, l.levels.get? id = some (level id)) : g.SolvesLevels entry level := by
  have hentry := mem_ids_of_assign h
  have hequation : ∀ b ∈ g.blocks, b.id ≠ entry →
      level b.id = levelOf g.ranks (g.edgeDistances entry) l.levels b := by
    intro b hb hne
    have hget := get?_levels hids h hb hne
    rw [hlevel b.id (List.mem_map_of_mem hb)] at hget
    exact Option.some.inj hget
  constructor
  · exact Option.some.inj ((hlevel entry hentry).symm.trans (get?_levels_entry h))
  · intro b hb hne hp
    obtain ⟨p, hp⟩ := hp
    have hmem := (mem_forwardLevels_iff_isForward hlevel).mpr ⟨p, hp, rfl⟩
    have hlevels : {x | x ∈ forwardLevels g.ranks l.levels b} = level '' {p | g.IsForward p b} :=
      Set.ext fun x ↦ mem_forwardLevels_iff_isForward hlevel
    rw [hequation b hb hne, ← Set.image_image (· + 1) level, ← hlevels]
    exact isGreatest_levelOf (List.ne_nil_of_mem hmem)
  · intro b hb hne hp n hn
    rw [hequation b hb hne, levelOf_eq_distance (forwardLevels_eq_nil hlevel hp),
      (Graph.get?_edgeDistances hentry).mpr hn, Option.getD_some]
  · intro b hb hne hp hn
    have hdistance : (g.edgeDistances entry).get? b.id = none :=
      Option.eq_none_iff_forall_ne_some.mpr fun n h ↦ hn ⟨n, (Graph.get?_edgeDistances hentry).mp h⟩
    rw [hequation b hb hne, levelOf_eq_distance (forwardLevels_eq_nil hlevel hp), hdistance]
    rfl

/-- The levels that are assigned are a solution. -/
theorem exists_solvesLevels (hids : g.ids.Nodup) {l : Leveling} (h : assign g entry = .ok l) :
    ∃ level, (∀ id ∈ g.ids, l.levels.get? id = some (level id)) ∧ g.SolvesLevels entry level := by
  have hcovers := (succeeds_assign (mem_ids_of_assign h)).of_eq_ok h
  have hlevel : ∀ id ∈ g.ids, l.levels.get? id = some ((l.levels.get? id).getD 0) := by
    intro id hid
    obtain ⟨level, hlevel⟩ := hcovers.exists_get? hid
    rw [hlevel, Option.getD_some]
  exact ⟨_, hlevel, solvesLevels_of_assign hids h hlevel⟩

/-- The levels of a graph with different ids are the one solution of their equations. Therefore a
predecessor that leads forward to a block other than the entry is on a higher level. -/
theorem exists_assign_solvesLevels (hids : g.ids.Nodup) (hentry : entry ∈ g.ids) :
    ∃ l, assign g entry = .ok l ∧ l.levels.Covers g ∧
      (∀ level, g.SolvesLevels entry level ↔ ∀ id ∈ g.ids, l.levels.get? id = some (level id)) ∧
      ∀ b ∈ g.blocks, b.id ≠ entry → ∀ p, g.IsForward p b →
        ∃ level level', l.levels.get? p = some level ∧ l.levels.get? b.id = some level' ∧
          level < level' := by
  obtain ⟨l, hl, hcovers⟩ := succeeds_assign hentry
  obtain ⟨found, hfound, hsolves⟩ := exists_solvesLevels hids hl
  refine ⟨l, hl, hcovers, fun level ↦ ⟨fun hlevel id hid ↦ ?_, ?_⟩, fun b hb hne p hp ↦ ?_⟩
  · rw [hfound id hid, hlevel.unique hsolves hid]
  · exact solvesLevels_of_assign hids hl
  · refine ⟨_, _, hfound p hp.isBlock, hfound b.id (List.mem_map_of_mem hb), ?_⟩
    exact Int.lt_of_add_one_le ((hsolves.below b hb hne ⟨p, hp⟩).2 ⟨p, hp, rfl⟩)

/-- A loop that is entered in the middle, with a predecessor that is no block. -/
theorem exists_assign_solvesLevels_loop :
    let g : Graph := ⟨[
      { index := 0, id := "a", instructions := [], start := "", stop := "", predecessors := ["c"] },
      { index := 1, id := "b", instructions := [], start := "", stop := "",
        predecessors := ["a", "x"], isEntry := true },
      { index := 2, id := "c", instructions := [], start := "", stop := "", predecessors := ["b"] }],
      [⟨"a", "b", .normal⟩, ⟨"b", "c", .normal⟩, ⟨"c", "a", .normal⟩]⟩
    ∃ l, assign g "b" = .ok l ∧ l.levels.Covers g ∧
      ∀ level, g.SolvesLevels "b" level ↔ ∀ id ∈ g.ids, l.levels.get? id = some (level id) := by
  intro g
  obtain ⟨l, hl, hcovers, hsolves, -⟩ :=
    @exists_assign_solvesLevels g "b" (by decide) (by decide)
  exact ⟨l, hl, hcovers, hsolves⟩

end Leveling

/-! ### Longest paths -/

namespace Graph

variable {g g' : Graph} {entry : String} {level : String → Int}

/-- A path of so many predecessor links that all lead forward goes from the entry to a block. -/
inductive Climbs (g : Graph) (entry : String) : Nat → String → Prop where
  /-- The entry is reached without a link. -/
  | none : Climbs g entry 0 entry
  /-- One more link leads to a block. -/
  | step {n : Nat} {p : String} {b : Block} :
    Climbs g entry n p → b ∈ g.blocks → g.IsForward p b → Climbs g entry (n + 1) b.id

/-- If every block but the entry has a predecessor that leads forward, the entry has the least
rank. -/
private theorem rankOf_entry_le (hforward : ∀ b ∈ g.blocks, b.id ≠ entry → ∃ p, g.IsForward p b)
    {id : String} (hid : id ∈ g.ids) :
    Leveling.rankOf g.ranks entry ≤ Leveling.rankOf g.ranks id := by
  refine induction_forward (motive := fun id ↦
    Leveling.rankOf g.ranks entry ≤ Leveling.rankOf g.ranks id) (fun b hb ih ↦ ?_) hid
  by_cases hentry : b.id = entry
  · rw [hentry]
  · obtain ⟨p, hp⟩ := hforward b hb hentry
    exact (ih p hp).trans hp.lower.le

/-- If every block but the entry has a predecessor that leads forward, levels are the lengths of the
longest paths. -/
private theorem SolvesLevels.isGreatest_climbs (h : g.SolvesLevels entry level) (hids : g.ids.Nodup)
    (hforward : ∀ b ∈ g.blocks, b.id ≠ entry → ∃ p, g.IsForward p b) {id : String}
    (hid : id ∈ g.ids) : ∃ n : Nat, level id = n ∧ IsGreatest {n | g.Climbs entry n id} n := by
  refine induction_forward (motive := fun id ↦
    ∃ n : Nat, level id = n ∧ IsGreatest {n | g.Climbs entry n id} n) (fun b hb ih ↦ ?_) hid
  by_cases hentry : b.id = entry
  · refine ⟨0, hentry ▸ h.top, hentry ▸ .none, fun n hn ↦ ?_⟩
    rw [hentry] at hn
    generalize hid' : entry = id at hn
    rcases hn with _ | ⟨-, hb', hp⟩
    · exact le_rfl
    · -- no rank is below that of the entry
      have hle := rankOf_entry_le hforward hp.isBlock
      exact absurd (hid' ▸ hp.lower) (not_lt.mpr hle)
  · obtain ⟨⟨p, (hp : g.IsForward p b), (hlevel : level p + 1 = level b.id)⟩, hdeepest⟩ :=
      h.below b hb hentry (hforward b hb hentry)
    obtain ⟨n, hn, hclimbs, -⟩ := ih p hp
    refine ⟨n + 1, ?_, Climbs.step hclimbs hb hp, fun m hm ↦ ?_⟩
    · rw [← hlevel, hn, Int.natCast_succ]
    · generalize hid' : b.id = id at hm
      rcases hm with _ | @⟨m, p', b', hm, hb', hp'⟩
      · exact Nat.zero_le _
      · obtain rfl := List.inj_on_of_nodup_map hids hb hb' hid'
        obtain ⟨n', hn', -, hlongest⟩ := ih p' hp'
        have hle : level p' + 1 ≤ level b.id := hdeepest ⟨p', hp', rfl⟩
        have hm : m ≤ n' := hlongest hm
        omega

/-- The second of two blocks has the place of the first one in address order and the same
predecessors that lead forward in a graph. Their other predecessors may differ. -/
structure SameForward (g : Graph) (b b' : Block) : Prop where
  /-- They have one id. -/
  id : b'.id = b.id
  /-- They have one position. -/
  index : b'.index = b.index
  /-- They are ordered by one address. -/
  sortAddress : b'.sortAddress = b.sortAddress
  /-- The same predecessors lead forward to them. -/
  forward : ∀ p, g.IsForward p b' ↔ g.IsForward p b

/-- Levels of a graph in which the same predecessors lead forward are levels of the graph itself. -/
private theorem SolvesLevels.of_sameForward
    (hforward : ∀ b ∈ g.blocks, b.id ≠ entry → ∃ p, g.IsForward p b)
    (hids : g'.ids = g.ids) (hranks : g'.ranks = g.ranks)
    (hsame : List.Forall₂ g.SameForward g.blocks g'.blocks) (h : g'.SolvesLevels entry level) :
    g.SolvesLevels entry level where
  top := h.top
  below b hb hentry hp := by
    obtain ⟨b', hb', hmatch⟩ := exists_of_forall₂ hsame.flip hb
    have hiff : ∀ p, g'.IsForward p b' ↔ g.IsForward p b := by
      intro p
      rw [← hmatch.forward p]
      constructor
      · rintro ⟨hlisted, hblock, hlower⟩
        exact ⟨hlisted, hids ▸ hblock, hranks ▸ hlower⟩
      · rintro ⟨hlisted, hblock, hlower⟩
        exact ⟨hlisted, hids ▸ hblock, hranks ▸ hlower⟩
    have hbelow := h.below b' hb' (hmatch.id ▸ hentry)
    simp only [hiff, hmatch.id] at hbelow
    exact hbelow hp
  near b hb hentry hnone := absurd (hforward b hb hentry) hnone
  apart b hb hentry hnone := absurd (hforward b hb hentry) hnone

end Graph

namespace Leveling

variable {g : Graph} {entry : String}

/-- If every block but the entry has a predecessor that leads forward, the level of a block is the
number of links on the longest path to it that leads forward. Whatever is changed about other
predecessors, such as jumps back, leaves all levels. -/
theorem exists_levels_longest (hids : g.ids.Nodup) (hentry : entry ∈ g.ids)
    (hforward : ∀ b ∈ g.blocks, b.id ≠ entry → ∃ p, g.IsForward p b) :
    ∃ l, assign g entry = .ok l ∧
      (∀ id ∈ g.ids, ∃ n : Nat, l.levels.get? id = some (n : Int) ∧
        IsGreatest {n | g.Climbs entry n id} n) ∧
      ∀ g' : Graph, List.Forall₂ g.SameForward g.blocks g'.blocks →
        ∃ l', assign g' entry = .ok l' ∧ ∀ id, l'.levels.get? id = l.levels.get? id := by
  obtain ⟨l, hl, hcovers⟩ := succeeds_assign hentry
  obtain ⟨level, hlevel, hsolves⟩ := exists_solvesLevels hids hl
  refine ⟨l, hl, fun id hid ↦ ?_, fun g' hsame ↦ ?_⟩
  · obtain ⟨n, hn, hlongest⟩ := hsolves.isGreatest_climbs hids hforward hid
    exact ⟨n, hn ▸ hlevel id hid, hlongest⟩
  · have hids' : g'.ids = g.ids := map_eq_of_forall₂ (fun _ _ hb ↦ hb.id) hsame
    have hranks : g'.ranks = g.ranks := by
      apply Graph.ranks_eq_of_forall₂ (fun _ _ hb ↦ hb.id) _ hsame
      intro a b a' b' hb hb'
      simp only [Graph.addressLe, hb.sortAddress, hb'.sortAddress, hb.index, hb'.index]
    obtain ⟨l', hl', hcovers'⟩ := succeeds_assign (hids' ▸ hentry)
    obtain ⟨level', hlevel', hsolves'⟩ := exists_solvesLevels (hids' ▸ hids) hl'
    have hagree := fun id (hid : id ∈ g.ids) ↦
      (hsolves'.of_sameForward hforward hids' hranks hsame).unique hsolves hid
    refine ⟨l', hl', fun id ↦ ?_⟩
    by_cases hid : id ∈ g.ids
    · rw [hlevel id hid, hlevel' id (hids' ▸ hid), hagree id hid]
    · rw [Table.get?_eq_none_iff.mpr (mt (hcovers.mem_keys id).mp hid),
        Table.get?_eq_none_iff.mpr (mt (hcovers'.mem_keys id).mp (hids' ▸ hid))]

/-- A loop whose last block jumps back to the first one after the entry. -/
theorem exists_levels_longest_loop :
    let g : Graph := ⟨[
      { index := 0, id := "a", instructions := [], start := "", stop := "", isEntry := true },
      { index := 1, id := "b", instructions := [], start := "", stop := "",
        predecessors := ["a", "c"] },
      { index := 2, id := "c", instructions := [], start := "", stop := "", predecessors := ["b"] }],
      [⟨"a", "b", .normal⟩, ⟨"b", "c", .normal⟩, ⟨"c", "b", .normal⟩]⟩
    ∃ l, assign g "a" = .ok l ∧ ∀ id ∈ g.ids, ∃ n : Nat, l.levels.get? id = some (n : Int) ∧
      IsGreatest {n | g.Climbs "a" n id} n := by
  intro g
  have hforward : ∀ b ∈ g.blocks, b.id ≠ "a" → ∃ p, g.IsForward p b := by
    simp only [g, List.forall_mem_cons]
    exact ⟨by simp, fun _ ↦ ⟨"a", by decide, by decide, by decide⟩,
      fun _ ↦ ⟨"b", by decide, by decide, by decide⟩, by simp⟩
  obtain ⟨l, hl, hlongest, -⟩ := @exists_levels_longest g "a" (by decide) (by decide) hforward
  exact ⟨l, hl, hlongest⟩

end Leveling

end FlowChart
