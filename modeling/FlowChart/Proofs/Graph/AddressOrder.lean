import FlowChart.Proofs.Graph.Partition
import FlowChart.Proofs.Layout.Ranks

/-!
# Blocks of a listing in address order

The ids of a listing's blocks hold no address, so a block is ordered by the address of its first
instruction, and comes first if that denotes none. Where the addresses of a listing ascend, address
order is the order in which its blocks are built, except that blocks without an address move ahead of
those with one. Jumps lead to addresses, so control comes to such a block only from the one before it.
-/

namespace FlowChart

namespace Block

/-- The address of a block's first instruction, if its text denotes one. -/
def address? (b : Block) : Option Nat := b.instructions.head?.bind (·.address?)

/-- An id made from a position holds no address. -/
theorem idAddress?_idAt (k : Nat) : idAddress? (idAt k) = none := by
  have hdigits : (idAt k).toList.drop idStem.toList.length = Nat.toDigits 10 k := by
    have htext : toString (k : Int) = Nat.repr k := rfl
    rw [idAt, String.toList_append, List.drop_left, htext]
    simp [Nat.repr]
  unfold idAddress?
  dsimp only
  rw [hdigits]
  split
  · split
    · next digits hmark =>
      have hx : ('x' : Char) ∈ Nat.toDigits 10 k := by simp [hmark]
      exact absurd (Nat.isDigit_of_mem_toDigits (by decide) (by decide) hx) (by decide)
    · rfl
  · rfl

end Block

namespace Listing

variable {c : Classifier} {listing : List Instruction} {a b : Block}

/-- The addresses of a listing, as far as their texts denote any, ascend. -/
def HasAscendingAddresses (listing : List Instruction) : Prop :=
  (listing.filterMap (·.address?)).Pairwise (· < ·)

/-- The id of a block of a listing holds no address. -/
theorem idAddress?_of_mem_blocks (h : b ∈ (split c listing).blocks) :
    Block.idAddress? b.id = none := by
  obtain ⟨k, hk⟩ := List.getElem?_of_mem h
  obtain ⟨run, -, rfl⟩ := exists_run_of_getElem?_blocks hk
  exact Block.idAddress?_idAt k

/-- A block of a listing is ordered by the address where it starts, or by zero. -/
theorem sortAddress_of_mem_blocks (h : b ∈ (split c listing).blocks) :
    b.sortAddress = b.address?.getD 0 := by
  rw [Block.sortAddress, idAddress?_of_mem_blocks h]
  rfl

private theorem pairwise_blocks (h : HasAscendingAddresses listing) :
    (split c listing).blocks.Pairwise fun a b ↦ ∀ i ∈ a.instructions, ∀ j ∈ b.instructions,
      ∀ address, i.address? = some address → ∀ address', j.address? = some address' →
        address < address' := by
  have hlisting := List.pairwise_filterMap.mp h
  rw [← instructions_split c listing, Graph.instructions, List.pairwise_flatMap] at hlisting
  exact hlisting.2

private theorem address_lt (h : HasAscendingAddresses listing) (ha : a ∈ (split c listing).blocks)
    (hb : b ∈ (split c listing).blocks) (hlt : a.index < b.index) {address address' : Nat}
    (ha' : a.address? = some address) (hb' : b.address? = some address') : address < address' := by
  obtain ⟨k, hk⟩ := List.getElem?_of_mem ha
  obtain ⟨l, hl⟩ := List.getElem?_of_mem hb
  rw [index_of_getElem?_blocks hk, index_of_getElem?_blocks hl, Int.ofNat_lt] at hlt
  obtain ⟨hklt, rfl⟩ := List.getElem?_eq_some_iff.mp hk
  obtain ⟨hllt, rfl⟩ := List.getElem?_eq_some_iff.mp hl
  obtain ⟨i, hi, hia⟩ := Option.bind_eq_some_iff.mp ha'
  obtain ⟨j, hj, hjb⟩ := Option.bind_eq_some_iff.mp hb'
  exact List.pairwise_iff_getElem.mp (pairwise_blocks h) k l hklt hllt hlt i
    (List.mem_of_mem_head? hi) j (List.mem_of_mem_head? hj) address hia address' hjb

/-- Where addresses ascend, a block comes before every block that is built later and has an address;
and if it has none itself, or is at zero, before every block that is built later. -/
theorem precedes_of_index_lt (hascending : HasAscendingAddresses listing)
    (ha : a ∈ (split c listing).blocks) (hb : b ∈ (split c listing).blocks)
    (hlt : a.index < b.index) (hstart : b.address?.isSome ∨ a.address?.getD 0 = 0) :
    a.Precedes b := by
  suffices hle : a.address?.getD 0 ≤ b.address?.getD 0 by
    rw [← sortAddress_of_mem_blocks ha, ← sortAddress_of_mem_blocks hb] at hle
    exact (Nat.lt_or_eq_of_le hle).imp_right fun he ↦ ⟨he, hlt⟩
  rcases hstart with hstart | hzero
  · obtain ⟨address', hb'⟩ := Option.isSome_iff_exists.mp hstart
    cases ha' : a.address? with
    | none => exact Nat.zero_le _
    | some address =>
      rw [Option.getD_some, hb', Option.getD_some]
      exact Nat.le_of_lt (address_lt hascending ha hb hlt ha' hb')
  · rw [hzero]
    exact Nat.zero_le _

/-- A block that starts at no address comes before every block at a positive address. -/
theorem precedes_of_address?_eq_none (ha : a ∈ (split c listing).blocks)
    (hb : b ∈ (split c listing).blocks) (hnone : b.address? = none)
    (hpositive : a.address?.getD 0 ≠ 0) : b.Precedes a := by
  apply Or.inl
  rw [sortAddress_of_mem_blocks ha, sortAddress_of_mem_blocks hb, hnone]
  exact Nat.pos_of_ne_zero hpositive

/-! ### Blocks without an address -/

/-- A jump leads to a block that starts at an address. -/
private theorem JumpExits.isSome_address? {blocks : List Block} {last : Instruction}
    {kind : EdgeKind} {es : List Edge} (h : JumpExits listing blocks a last kind es) {e : Edge}
    (he : e ∈ es) : ∃ b ∈ blocks, e.target = b.id ∧ b.address?.isSome := by
  cases h with
  | @found address position target names lastAt starts head =>
    obtain ⟨k, hk, -⟩ := starts
    rw [List.mem_singleton.mp he]
    refine ⟨target, List.mem_of_getElem? hk, rfl, ?_⟩
    rw [Block.address?, head, lastAt.here]
    rfl
  | missing unknown => simp at he

/-- An edge leads to the next block or to one that starts at an address. -/
theorem Exits.isNext_or_isSome_address? {blocks : List Block} {k : Nat} {es : List Edge}
    (h : Exits c listing blocks k a es) {e : Edge} (he : e ∈ es) :
    (∃ b, blocks[k + 1]? = some b ∧ e.target = b.id) ∨
      ∃ b ∈ blocks, e.target = b.id ∧ b.address?.isSome := by
  have hnext : ∀ {kind : EdgeKind}, e ∈ nextExits blocks k a kind →
      ∃ b, blocks[k + 1]? = some b ∧ e.target = b.id := by
    intro kind he
    obtain ⟨b, hb, rfl⟩ := List.mem_map.mp he
    exact ⟨b, Option.mem_toList.mp hb, rfl⟩
  cases h with
  | returning _ _ => simp at he
  | conditional _ _ _ _ jumps =>
    rcases List.mem_append.mp he with he | he
    · exact .inr (jumps.isSome_address? he)
    · exact .inl (hnext he)
  | unconditional _ _ _ _ jumps => exact .inr (jumps.isSome_address? he)
  | plain _ _ _ => exact .inl (hnext he)

/-- A block that starts at no address is entered from one block only, the one that is built before
it. -/
theorem source_eq_of_address?_eq_none (hb : b ∈ (split c listing).blocks)
    (hnone : b.address? = none) {e e' : Edge} (he : e ∈ (split c listing).edges)
    (he' : e' ∈ (split c listing).edges) (htarget : e.target = b.id)
    (htarget' : e'.target = b.id) : e.source = e'.source := by
  have hbefore : ∀ e ∈ (split c listing).edges, e.target = b.id →
      ∃ k : Nat, ∃ a, (split c listing).blocks[k]? = some a ∧ e.source = a.id ∧
        b.index = (k : Int) + 1 := by
    intro e he htarget
    obtain ⟨k, a, es, ha, hexits, hmem⟩ := exists_exits_of_mem_edges he
    refine ⟨k, a, ha, (hexits.ends e hmem).1, ?_⟩
    rcases hexits.isNext_or_isSome_address? hmem with ⟨b', hb', hid⟩ | ⟨b', hb', hid, hsome⟩
    · obtain rfl := List.inj_on_of_nodup_map (nodup_ids_split c listing)
        (List.mem_of_getElem? hb') hb (hid.symm.trans htarget)
      exact index_of_getElem?_blocks hb'
    · obtain rfl := List.inj_on_of_nodup_map (nodup_ids_split c listing) hb' hb
        (hid.symm.trans htarget)
      rw [hnone] at hsome
      cases hsome
  obtain ⟨k, a, ha, hsource, hindex⟩ := hbefore e he htarget
  obtain ⟨k', a', ha', hsource', hindex'⟩ := hbefore e' he' htarget'
  obtain rfl : k = k' := by omega
  rw [hsource, hsource', Option.some.inj (ha.symm.trans ha')]

end Listing

end FlowChart
