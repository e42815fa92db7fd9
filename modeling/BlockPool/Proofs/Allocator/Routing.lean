import BlockPool.Proofs.Allocator.Descent
import BlockPool.Proofs.Tracker.Ledger

/-!
# The block that an address is returned to

An address is looked for in one group after another, and in each of them by the greatest base that
is not above it. Blocks that have no address in common make this search exact: no matter how they
lie, how long they are and to which groups they belong, it finds the block with the address if there
is one. A return then changes the books of this one block, or nothing at all.
-/

namespace BlockPool

/-- `Table.insert` of a value that is stored already changes nothing. -/
lemma Table.insert_eq_self {κ α : Type} [KeyOrder κ] [DecidableEq κ] {t : Table κ α} {key : κ}
    {value : α} (h : t.find? key = some value) : t.insert key value = t := by
  refine Table.eq_of_find?_eq fun key' => ?_
  rw [Table.find?_insert]
  split
  · rename_i hkey
    rw [hkey, h]
  · rfl

/-- `release` that answers `true` takes a slot out, so the tracker is not the same. -/
lemma Tracker.release_state_ne {t : Tracker} (ht : t.InOrder) {offset size : Nat}
    (h : (t.release offset size).answer = true) : (t.release offset size).state ≠ t := by
  intro heq
  have hslot := (release_answer_iff ht offset size).1 h
  have hperm := slotSpans_release ht offset size
  rw [heq] at hperm
  have hlength := hperm.length_eq
  rw [List.length_erase_of_mem hslot] at hlength
  have hpos := List.length_pos_of_mem hslot
  omega

namespace Group

variable {g : Group}

/-- In a `Spread` group, `owner?` finds what a walk through all blocks finds. -/
lemma Spread.owner?_eq_find? (hg : g.Spread) (address : Nat) :
    g.owner? address = g.blocks.entries.find? fun e => e.2.contains address := by
  rcases hscan : g.blocks.entries.find? (fun e => e.2.contains address) with _ | ⟨key, b⟩
  · rw [hscan, Option.eq_none_iff_forall_ne_some]
    rintro ⟨key, b⟩ howner
    obtain ⟨hfind, hcontains⟩ := find?_of_owner? howner
    exact List.find?_eq_none.1 hscan (key, b) (Table.find?_eq_some_iff.1 hfind) hcontains
  · have hfind := Table.find?_eq_some_iff.2 (List.mem_of_find?_eq_some hscan)
    have hcontains := List.find?_some hscan
    rw [hscan]
    exact hg.owner?_of_contains hfind hcontains

end Group

/-- A block after `Tracker.release` at an address in it. -/
def Block.afterRelease (b : Block) (address size : Nat) : Block :=
  { b with tracker := (b.tracker.release (address - b.base) size).state }

/-- `afterRelease` is the block itself if the release is refused. -/
lemma Block.afterRelease_self {b : Block} {address size : Nat}
    (h : (b.tracker.release (address - b.base) size).answer = false) :
    b.afterRelease address size = b := by
  unfold afterRelease
  rw [Tracker.release_refused h]

/-- `afterRelease` is another block if the release is accepted. -/
lemma Block.afterRelease_ne {b : Block} (hb : b.Ok) {address size : Nat}
    (h : (b.tracker.release (address - b.base) size).answer = true) :
    b.afterRelease address size ≠ b :=
  fun heq => Tracker.release_state_ne hb.inOrder h (congrArg Block.tracker heq)

namespace Allocator

variable {a : Allocator} {affinity affinity' : Affinity} {key key' address : Nat} {b b' : Block}

/-- An allocator with another `Wiring`. -/
def withWiring (a : Allocator) (x : Wiring) : Allocator :=
  { a with nested := x.nested, backstop := x.backstop }

/-- An allocator with the block under `key` of the group of an affinity replaced. -/
def setBlock (a : Allocator) (affinity : Affinity) (g : Group) (key : Nat) (b : Block) :
    Allocator :=
  a.setGroup affinity { g with blocks := g.blocks.insert key b }

/-- `setBlock` with the block that is there changes nothing. -/
lemma setBlock_self {g : Group} (hg : a.groups.find? affinity = some g)
    (hb : g.blocks.find? key = some b) : a.setBlock affinity g key b = a := by
  unfold setBlock setGroup
  rw [Table.insert_eq_self hb, Table.insert_eq_self hg]

/-- `setBlock` with another block changes `a.groups`. -/
lemma setBlock_groups_ne {g : Group} (hg : a.groups.find? affinity = some g)
    (hb : g.blocks.find? key = some b) (hne : b' ≠ b) :
    (a.setBlock affinity g key b').groups ≠ a.groups := by
  intro heq
  have hfind : (a.setBlock affinity g key b').groups.find? affinity =
      some { g with blocks := g.blocks.insert key b' } :=
    (Table.find?_insert ..).trans (if_pos rfl)
  rw [heq, hg] at hfind
  have hblocks : g.blocks = g.blocks.insert key b' := congrArg Group.blocks (Option.some.inj hfind)
  have hfind' : g.blocks.find? key = some b' := by
    rw [hblocks, Table.find?_insert, if_pos rfl]
  exact hne (Option.some.inj (hfind'.symm.trans hb))

/-! ## Blocks that are apart -/

/-- Regions of blocks at different places can both be split off `a.regions`. -/
lemma exists_regions_of_ne (hb : a.block? affinity key = some b)
    (hb' : a.block? affinity' key' = some b') (hne : (affinity, key) ≠ (affinity', key')) :
    ∃ rest, a.regions = b.region ::ₘ b'.region ::ₘ rest := by
  obtain ⟨g, hg, hfind⟩ := Option.bind_eq_some_iff.1 hb
  obtain ⟨g', hg', hfind'⟩ := Option.bind_eq_some_iff.1 hb'
  by_cases haffinity : affinity = affinity'
  · subst haffinity
    obtain rfl := Option.some.inj (hg.symm.trans hg')
    have hkey : key ≠ key' := fun heq => hne (heq ▸ rfl)
    obtain ⟨rest, hrest⟩ := Group.exists_regions_of_ne hfind hfind' hkey
    obtain ⟨others, -, hregions, -, -⟩ := exists_others hg
    exact ⟨rest + others, by rw [hregions, hrest, Multiset.cons_add, Multiset.cons_add]⟩
  · obtain ⟨rest, hvalues⟩ := Table.exists_coe_values_of_ne hg hg' haffinity
    obtain ⟨s, hs⟩ := Multiset.exists_cons_of_mem (Group.region_mem hfind)
    obtain ⟨s', hs'⟩ := Multiset.exists_cons_of_mem (Group.region_mem hfind')
    refine ⟨s + (s' + rest.bind Group.regions), ?_⟩
    unfold regions
    rw [hvalues, Multiset.cons_bind, Multiset.cons_bind, hs, hs', Multiset.cons_add,
      Multiset.cons_add, Multiset.add_cons]

/-- The blocks of an allocator are stored under their `base`, and their regions are `Disjoint`. -/
structure Spread (a : Allocator) : Prop where
  keyed {affinity : Affinity} {key : Nat} {b : Block} :
    a.block? affinity key = some b → b.base = key
  apart : a.regions.Pairwise Region.Disjoint

/-- An address lies in at most one block of a `Spread` allocator. -/
lemma Spread.place_unique (ha : a.Spread) (hb : a.block? affinity key = some b)
    (hcontains : b.contains address = true) (hb' : a.block? affinity' key' = some b')
    (hcontains' : b'.contains address = true) : affinity = affinity' ∧ key = key' := by
  by_contra hnot
  have hne : (affinity, key) ≠ (affinity', key') := by simpa using hnot
  obtain ⟨rest, hrest⟩ := exists_regions_of_ne hb hb' hne
  have hdisjoint := Region.disjoint_of_pairwise ha.apart hrest
  exact hdisjoint.not_contains (of_decide_eq_true hcontains) (of_decide_eq_true hcontains')

lemma Spread.group (ha : a.Spread) {g : Group} (hg : a.groups.find? affinity = some g) :
    g.Spread := by
  have hblock : ∀ {key b}, g.blocks.find? key = some b → a.block? affinity key = some b :=
    fun hfind => (block?_of_find? hg _).trans hfind
  refine ⟨fun hfind => ha.keyed (hblock hfind), fun hfind hfind' hne => ?_⟩
  have hne' : (affinity, _) ≠ (affinity, _) := fun heq => hne (Prod.mk.inj heq).2
  obtain ⟨rest, hrest⟩ := exists_regions_of_ne (hblock hfind) (hblock hfind') hne'
  exact Region.disjoint_of_pairwise ha.apart hrest

/-- In a `Spread` allocator, `owner?` finds the group of the block that contains the address. -/
lemma Spread.owner?_of_contains (ha : a.Spread) {g : Group}
    (hg : a.groups.find? affinity = some g) (hb : g.blocks.find? key = some b)
    (hcontains : b.contains address = true) : a.owner? address = some (affinity, g) := by
  have howns : g.owns address = true := (ha.group hg).owns_iff.2 ⟨key, b, hb, hcontains⟩
  have hsome : (a.owner? address).isSome :=
    List.find?_isSome.2 ⟨(affinity, g), Table.find?_eq_some_iff.1 hg, howns⟩
  obtain ⟨⟨affinity', g'⟩, howner⟩ := Option.isSome_iff_exists.1 hsome
  obtain ⟨hg', howns'⟩ := find?_of_owner? howner
  obtain ⟨key', b', hb', hcontains'⟩ := (ha.group hg').owns_iff.1 howns'
  have hplace := ha.place_unique ((block?_of_find? hg key).trans hb) hcontains
    ((block?_of_find? hg' key').trans hb') hcontains'
  obtain ⟨rfl, -⟩ := hplace
  rw [howner, Option.some.inj (hg'.symm.trans hg)]

/-- A `Spread` allocator `owns` exactly the addresses in its blocks. -/
lemma Spread.owns_iff (ha : a.Spread) : a.owns address = true ↔
    ∃ affinity key b, a.block? affinity key = some b ∧ b.contains address = true := by
  unfold owns owner?
  rw [List.find?_isSome]
  constructor
  · rintro ⟨⟨affinity, g⟩, hmem, howns⟩
    have hg := Table.find?_eq_some_iff.2 hmem
    obtain ⟨key, b, hfind, hcontains⟩ := (ha.group hg).owns_iff.1 howns
    exact ⟨affinity, key, b, (block?_of_find? hg key).trans hfind, hcontains⟩
  · rintro ⟨affinity, key, b, hb, hcontains⟩
    obtain ⟨g, hg, hfind⟩ := Option.bind_eq_some_iff.1 hb
    refine ⟨(affinity, g), Table.find?_eq_some_iff.1 hg, ?_⟩
    exact (ha.group hg).owns_iff.2 ⟨key, b, hfind, hcontains⟩

/-! ## Slots and returns -/

/-- A `Spread` allocator with `Block.Ok` of every block. -/
structure Routed (a : Allocator) : Prop extends a.Spread where
  ok {affinity : Affinity} {key : Nat} {b : Block} : a.block? affinity key = some b → b.Ok

/-- At an address in a block, the slot named is in `a.slots` exactly if `Tracker.release` answers
`true`. -/
lemma Routed.mem_slots_iff_release (ha : a.Routed) (hb : a.block? affinity key = some b)
    (hcontains : b.contains address = true) (size : Nat) :
    ⟨address, Tracker.slotSize size⟩ ∈ a.slots ↔
      (b.tracker.release (address - b.base) size).answer = true := by
  have hbase : b.base ≤ address := (of_decide_eq_true hcontains : b.region.Contains address).1
  have hslot : (⟨address, Tracker.slotSize size⟩ : Extent) ∈ b.slots ↔
      b.tracker.Holds false (address - b.base) (Tracker.slotSize size) := by
    rw [Block.mem_slots_iff]
    constructor
    · rintro ⟨offset, hstart, hold⟩
      have hstart : address = b.base + offset := hstart
      rwa [hstart, Nat.add_sub_cancel_left]
    · intro hold
      exact ⟨address - b.base, (Nat.add_sub_cancel' hbase).symm, hold⟩
  have hrelease : (b.tracker.release (address - b.base) size).answer = true ↔
      b.tracker.Holds false (address - b.base) (Tracker.slotSize size) := by
    rcases b.tracker.release_cases (address - b.base) size with ⟨hanswer, -, hnot⟩ |
      ⟨hanswer, -, hold⟩
    · simp [hanswer, hnot]
    · simp [hanswer, hold]
  rw [hrelease, ← hslot, mem_slots_iff]
  constructor
  · rintro ⟨affinity', g', hg', hx⟩
    obtain ⟨key', b', hfind', hx⟩ := Group.mem_slots_iff.1 hx
    have hb' := (block?_of_find? hg' key').trans hfind'
    obtain ⟨rfl, rfl⟩ := ha.place_unique hb hcontains hb' ((ha.ok hb').contains_slot hx)
    rwa [Option.some.inj (hb.symm.trans hb')]
  · intro hx
    obtain ⟨g, hg, hfind⟩ := Option.bind_eq_some_iff.1 hb
    exact ⟨affinity, g, hg, Group.mem_slots_iff.2 ⟨key, b, hfind, hx⟩⟩

/-- The start of each of `a.slots` lies in a block. -/
lemma Routed.owns_of_slot (ha : a.Routed) {x : Extent} (hx : x ∈ a.slots) :
    ∃ affinity key b, a.block? affinity key = some b ∧ b.contains x.start = true := by
  obtain ⟨affinity, g, hg, hx⟩ := mem_slots_iff.1 hx
  obtain ⟨key, b, hfind, hx⟩ := Group.mem_slots_iff.1 hx
  have hb := (block?_of_find? hg key).trans hfind
  exact ⟨affinity, key, b, hb, (ha.ok hb).contains_slot hx⟩

/-- `deallocatePooled` at an address in a block is `afterRelease` of that block and nothing else. -/
lemma Routed.deallocatePooled {σ : Type} (ha : a.Routed) {g : Group}
    (hg : a.groups.find? affinity = some g) (hb : g.blocks.find? key = some b)
    (hcontains : b.contains address = true) (size : Nat) (m : Memory σ) :
    Ends (a.deallocatePooled address size) m fun out m' =>
      out = (true, a.setBlock affinity g key (b.afterRelease address size)) ∧ m.Quiet m' := by
  have hgroup : (g.deallocate address size).state =
      { g with blocks := g.blocks.insert key (b.afterRelease address size) } := by
    unfold Group.deallocate Block.deallocate
    rw [(ha.group hg).owner?_of_contains hb hcontains]
    simp only [if_pos hcontains, Block.afterRelease]
  unfold Allocator.deallocatePooled
  rw [ha.owner?_of_contains hg hb hcontains]
  refine (Memory.quiet_settle _ m).bind ?_
  rintro ⟨known, g'⟩ m₁ ⟨hout, hquiet⟩
  obtain ⟨-, rfl⟩ := Prod.mk.inj hout
  refine (Memory.quiet_noteIf _ _ m₁).bind fun _ m₂ hquiet' => ⟨?_, hquiet.trans hquiet'⟩
  rw [hgroup]
  rfl

end Allocator

end BlockPool
