import BlockPool.Group.Basic
import BlockPool.Proofs.Block

/-!
# The slots of a group

The blocks of a group lie in regions of their own, so an address belongs to one block at most, and
the search by base addresses finds it. A request adds the slot that it is answered with, a return
removes just the slot returned, and compaction gives back regions without a slot.
-/

namespace BlockPool

namespace Table

variable {κ α : Type} [KeyOrder κ] [DecidableEq κ]

/-- Up to order, `t.insert key value` has `value` and the values of `t.erase key`. -/
lemma coe_values_insert (t : Table κ α) (key : κ) (value : α) :
    ((t.insert key value).values : Multiset α) = value ::ₘ ((t.erase key).values : Multiset α) :=
  Multiset.coe_eq_coe.2 (values_insert_perm t key value)

/-- A stored value can be split off `t.values`; what is left are the values of `t.erase key`. -/
lemma coe_values_of_find? {t : Table κ α} {key : κ} {value : α}
    (h : t.find? key = some value) :
    (t.values : Multiset α) = value ::ₘ ((t.erase key).values : Multiset α) :=
  Multiset.coe_eq_coe.2 (values_perm_of_find? h)

/-- Values stored under different keys can both be split off `t.values`. -/
lemma exists_coe_values_of_ne {t : Table κ α} {key key' : κ} {value value' : α}
    (h : t.find? key = some value) (h' : t.find? key' = some value') (hne : key ≠ key') :
    ∃ rest, (t.values : Multiset α) = value ::ₘ value' ::ₘ rest := by
  have herase : (t.erase key).find? key' = some value' := by
    rw [find?_erase, if_neg (Ne.symm hne), h']
  exact ⟨_, by rw [coe_values_of_find? h, coe_values_of_find? herase]⟩

omit [DecidableEq κ] in
lemma values_filter (t : Table κ α) (keep : α → Bool) :
    (t.filter fun _ value => keep value).values = t.values.filter keep :=
  List.filter_map.symm

omit [DecidableEq κ] in
lemma values_mapValues (t : Table κ α) (f : α → α) :
    (t.mapValues f).values = t.values.map f := by
  unfold values mapValues
  rw [List.map_map, List.map_map]
  rfl

end Table

namespace Group

variable {g : Group}

/-- The regions of a group: `Block.region` of each block. -/
def regions (g : Group) : Multiset Region := (g.blocks.values : Multiset Block).map Block.region

/-- The slots of a group: `Block.slots` of each block. -/
def slots (g : Group) : Multiset Extent :=
  (g.blocks.values : Multiset Block).bind fun b => (b.slots : Multiset Extent)

/-- The books of a group: every block is stored under its `base`, and `Block.Ok` holds of it. -/
structure Ok (g : Group) : Prop where
  block {key : Nat} {b : Block} : g.blocks.find? key = some b → b.base = key ∧ b.Ok

/-- The slots of `g.slots` are those of the blocks stored in `g.blocks`. -/
lemma mem_slots_iff {x : Extent} :
    x ∈ g.slots ↔ ∃ key b, g.blocks.find? key = some b ∧ x ∈ b.slots := by
  unfold slots
  rw [Multiset.mem_bind]
  constructor
  · rintro ⟨b, hb, hx⟩
    obtain ⟨key, hfind⟩ := Table.mem_values_iff.1 hb
    exact ⟨key, b, hfind, hx⟩
  · rintro ⟨key, b, hfind, hx⟩
    exact ⟨b, Table.mem_values_iff.2 ⟨key, hfind⟩, hx⟩

/-! ## Groups that differ in one block -/

section Update

variable {key : Nat} {b b' : Block}

lemma Ok.insert {g' : Group} (hg : g.Ok) (hb : b'.Ok) (hbase : b'.base = key)
    (hblocks : g'.blocks = g.blocks.insert key b') : g'.Ok where
  block {key' c} hfind := by
    rw [hblocks, Table.find?_insert] at hfind
    split at hfind
    · rename_i hkey
      rw [← Option.some.inj hfind, hkey]
      exact ⟨hbase, hb⟩
    · exact hg.block hfind

/-- Storing a block of the same `region` in place of another keeps `g.regions` and swaps its part of
`g.slots`. -/
theorem replace_spec (b' : Block) (g' : Group) (hfind : g.blocks.find? key = some b)
    (hregion : b'.region = b.region) (hblocks : g'.blocks = g.blocks.insert key b') :
    g'.regions = g.regions ∧ ∃ rest, g.slots = b.slots + rest ∧ g'.slots = b'.slots + rest := by
  unfold regions slots
  rw [hblocks, Table.coe_values_insert, Table.coe_values_of_find? hfind]
  simp only [Multiset.map_cons, Multiset.cons_bind, hregion, true_and]
  exact ⟨_, rfl, rfl⟩

/-- Storing a block under a new key adds its `region` to `g.regions` and its slots to `g.slots`. -/
theorem add_spec (g' : Group) (hnone : g.blocks.find? key = none)
    (hblocks : g'.blocks = g.blocks.insert key b') :
    g'.regions = b'.region ::ₘ g.regions ∧ g'.slots = b'.slots + g.slots := by
  unfold regions slots
  rw [hblocks, Table.coe_values_insert, Table.erase_eq_self hnone, Multiset.map_cons,
    Multiset.cons_bind]
  exact ⟨rfl, rfl⟩

end Update

/-! ## Requests -/

/-- A group after its block at `base` served a request, which makes that block the `latest` one. -/
def afterServing (g : Group) (base : Nat) (b : Block) : Group :=
  { g with blocks := g.blocks.insert base b, latest := some base }

/-- `serveFrom` is served by the first of `bases` whose block has a place, with the group
`afterServing`; if there is none the group is unchanged. -/
theorem serveFrom_first (g : Group) (size : Nat) (bases : List Nat) :
    (∀ key ∈ bases, ∀ c, g.blocks.find? key = some c → (c.allocate size).answer = none) ∧
        (g.serveFrom size bases).answer = none ∧ (g.serveFrom size bases).state = g ∨
      ∃ front base rest b address, bases = front ++ base :: rest ∧
        (∀ key ∈ front, ∀ c, g.blocks.find? key = some c → (c.allocate size).answer = none) ∧
        g.blocks.find? base = some b ∧ (b.allocate size).answer = some address ∧
        (g.serveFrom size bases).answer = some address ∧
        (g.serveFrom size bases).state = g.afterServing base (b.allocate size).state := by
  induction bases with
  | nil => exact .inl ⟨fun key hkey => absurd hkey List.not_mem_nil, rfl, rfl⟩
  | cons key bases ih =>
    -- a key whose block has no place may stand in front of what is known of the others
    have hskip : (∀ c, g.blocks.find? key = some c → (c.allocate size).answer = none) →
        ∀ front, (∀ k ∈ front, ∀ c, g.blocks.find? k = some c →
          (c.allocate size).answer = none) →
        ∀ k ∈ key :: front, ∀ c, g.blocks.find? k = some c → (c.allocate size).answer = none := by
      intro hkey front hfront k hk
      rcases List.mem_cons.1 hk with rfl | hk
      · exact hkey
      · exact hfront k hk
    unfold serveFrom
    split
    · rename_i hnone
      have hkey : ∀ c, g.blocks.find? key = some c → (c.allocate size).answer = none :=
        fun c hc => absurd (hnone.symm.trans hc) (by simp)
      rcases ih with ⟨hall, hend⟩ | ⟨front, base, rest, b, address, rfl, hfront, hend⟩
      · exact .inl ⟨hskip hkey bases hall, hend⟩
      · exact .inr ⟨key :: front, base, rest, b, address, rfl, hskip hkey front hfront, hend⟩
    · rename_i b hfind
      simp only
      split
      · rename_i address hanswer
        exact .inr ⟨[], key, bases, b, address, rfl, fun k hk => absurd hk List.not_mem_nil,
          hfind, hanswer, rfl, rfl⟩
      · rename_i hmiss
        have hkey : ∀ c, g.blocks.find? key = some c → (c.allocate size).answer = none :=
          fun c hc => Option.some.inj (hfind.symm.trans hc) ▸ hmiss
        rcases ih with ⟨hall, hend⟩ | ⟨front, base, rest, b, address, rfl, hfront, hend⟩
        · exact .inl ⟨hskip hkey bases hall, hend⟩
        · exact .inr ⟨key :: front, base, rest, b, address, rfl, hskip hkey front hfront, hend⟩

/-- `serveFrom` leaves the group as it is or serves from some stored block, as `afterServing`
says. -/
lemma serveFrom_cases (g : Group) (size : Nat) (bases : List Nat) :
    (g.serveFrom size bases).answer = none ∧ (g.serveFrom size bases).state = g ∨
      ∃ base b address, g.blocks.find? base = some b ∧ (b.allocate size).answer = some address ∧
        (g.serveFrom size bases).answer = some address ∧
        (g.serveFrom size bases).state = g.afterServing base (b.allocate size).state := by
  rcases g.serveFrom_first size bases with ⟨-, hend⟩ | ⟨-, base, -, b, address, -, -, hend⟩
  · exact .inl hend
  · exact .inr ⟨base, b, address, hend⟩

/-- How a request to a group ends: with a slot of a block that is there, as `afterServing`, with a
slot of a new block at an address where there is none, as `addBlock`, or with nothing. -/
inductive Serving (g : Group) (size : Nat) : Except AllocationError Nat → Group → Prop where
  | old {base address : Nat} {b : Block} (hfind : g.blocks.find? base = some b)
      (hanswer : (b.allocate size).answer = some address) :
      g.Serving size (.ok address) (g.afterServing base (b.allocate size).state)
  | new {address : Nat} {b : Block} (hnone : g.blocks.find? b.base = none) (hok : b.Ok)
      (haligned : b.Aligned)
      (hslots : (b.slots : Multiset Extent) = {⟨address, Tracker.slotSize size⟩}) :
      g.Serving size (.ok address) (g.addBlock b)
  | failed (reason : AllocationError) : g.Serving size (.error reason) g

/-- Serving from a stored block keeps `g.Ok` and `g.regions`, and adds what was `gained` to
`g.slots`. -/
theorem afterServing_spec (hg : g.Ok) {base : Nat} {b : Block}
    (hfind : g.blocks.find? base = some b) (size : Nat) :
    (g.afterServing base (b.allocate size).state).Ok ∧
      (g.afterServing base (b.allocate size).state).regions = g.regions ∧
      (g.afterServing base (b.allocate size).state).slots =
        gained size (b.allocate size).answer + g.slots := by
  obtain ⟨hbase, hb⟩ := hg.block hfind
  obtain ⟨hok, hregion, hslots⟩ := Block.allocate_spec hb size
  have hbase' : (b.allocate size).state.base = base := (congrArg Region.start hregion).trans hbase
  obtain ⟨hregions, others, hbefore, hafter⟩ := replace_spec (b.allocate size).state
    (g.afterServing base (b.allocate size).state) hfind hregion rfl
  refine ⟨hg.insert hok hbase' rfl, hregions, ?_⟩
  rw [hafter, hslots, hbefore, Multiset.add_assoc]

/-- Whichever way `Serving` ends, the group is in order and `g.slots` grows by what was `gained`. -/
lemma Serving.spec (hg : g.Ok) {size : Nat} {answer : Except AllocationError Nat} {g' : Group}
    (h : g.Serving size answer g') : g'.Ok ∧ g'.slots = gained size answer.toOption + g.slots := by
  cases h with
  | old hfind hanswer =>
    obtain ⟨hok, -, hslots⟩ := afterServing_spec hg hfind size
    rw [hanswer] at hslots
    exact ⟨hok, hslots⟩
  | new hnone hok haligned hslots =>
    obtain ⟨-, hadded⟩ := add_spec (g.addBlock _) hnone rfl
    refine ⟨hg.insert hok rfl rfl, ?_⟩
    rw [hadded, hslots]
    rfl
  | failed reason => exact ⟨hg, (Multiset.zero_add _).symm⟩

section Memory

variable {σ : Type} {m : Memory σ} {held : Multiset Region}

/-- Regions of blocks under different keys can both be split off `g.regions`. -/
lemma exists_regions_of_ne {key key' : Nat} {b b' : Block} (hfind : g.blocks.find? key = some b)
    (hfind' : g.blocks.find? key' = some b') (hne : key ≠ key') :
    ∃ rest, g.regions = b.region ::ₘ b'.region ::ₘ rest := by
  obtain ⟨rest, hvalues⟩ := Table.exists_coe_values_of_ne hfind hfind' hne
  unfold regions
  rw [hvalues, Multiset.map_cons, Multiset.map_cons]
  exact ⟨_, rfl⟩

/-- If the system `Keeps` the regions of a group, blocks under different keys have disjoint
regions. -/
lemma disjoint_of_find? (h : m.Keeps (g.regions + held)) {key key' : Nat} {b b' : Block}
    (hfind : g.blocks.find? key = some b) (hfind' : g.blocks.find? key' = some b')
    (hne : key ≠ key') : b.region.Disjoint b'.region := by
  obtain ⟨rest, hrest⟩ := exists_regions_of_ne hfind hfind' hne
  apply h.disjoint
  rw [hrest, Multiset.cons_add, Multiset.cons_add]

lemma region_mem (hfind : g.blocks.find? key = some b) : b.region ∈ g.regions :=
  Multiset.mem_map_of_mem _ (Table.mem_values_iff.2 ⟨_, hfind⟩)

/-- No block is stored at the `start` of a region kept beside `g.regions`. -/
lemma find?_fresh (hg : g.Ok) {r : Region} (h : m.Keeps (r ::ₘ (g.regions + held))) :
    g.blocks.find? r.start = none := by
  -- a block under that address would have its first byte in common with the region
  rw [Option.eq_none_iff_forall_ne_some]
  intro b hfind
  obtain ⟨rest, hrest⟩ := Multiset.exists_cons_of_mem (region_mem hfind)
  have hdisjoint : r.Disjoint b.region := by
    apply h.disjoint
    rw [hrest, Multiset.cons_add]
  have hpos := (h.proper r (Multiset.mem_cons_self ..)).size_pos
  have hmem : b.region ∈ r ::ₘ (g.regions + held) := by
    rw [hrest]
    simp
  have hpos' := (h.proper b.region hmem).size_pos
  have hbase : b.region.start = r.start := (hg.block hfind).1
  unfold Region.Disjoint Region.stop at hdisjoint
  omega

/-- `displace` does nothing at a base under which no block is stored. -/
lemma displace_eq_pure {base : Nat} (hnone : g.blocks.find? base = none) :
    g.displace base = (pure () : MemoryM σ Unit) := by
  unfold displace
  rw [hnone]

/-- What a request to a group ends with: the slots `gained`, and every region accounted for by
`Keeps`. -/
structure Serves (g : Group) (held : Multiset Region) (size : Nat) (answer : Option Nat)
    (after : Group) (m' : Memory σ) : Prop where
  ok : after.Ok
  keeps : m'.Keeps (after.regions + held)
  slots : after.slots = gained size answer + g.slots

/-- `grow` ends in one of the ways of `Serving`, and the system `Keeps` the regions of what it
leaves. -/
lemma grow_serving [System σ] [LawfulSystem σ] (hg : g.Ok) (h : m.Keeps (g.regions + held))
    (size : Nat) (tracking : Tracking) :
    Ends (g.grow size tracking) m fun out m' =>
      g.Serving size out.1 out.2 ∧ m'.Keeps (out.2.regions + held) := by
  unfold grow
  refine (Block.obtain_spec h ..).bind ?_
  rintro (reason | fresh) m₁ h₁
  · exact ⟨.failed reason, h₁⟩
  · obtain ⟨h₁, hfresh, haligned, hnone⟩ := h₁
    obtain ⟨hok, hregion, hslots⟩ := Block.allocate_spec hfresh size
    refine (Memory.keeps_settle h₁ _).bind ?_
    rintro ⟨answer, b⟩ m₂ ⟨hout, h₂⟩
    obtain ⟨rfl, rfl⟩ := Prod.mk.inj hout
    rw [← hregion] at h₂
    simp only
    split
    · -- a new block has room, but even if it had not, its memory would go back
      exact (Block.giveBack_spec h₂).bind fun _ _ h₃ => ⟨.failed _, h₃⟩
    · rename_i address hanswer
      refine (Memory.keeps_noteIf h₂ ..).bind fun _ m₃ h₃ => ?_
      have hfind : g.blocks.find? (fresh.allocate size).state.base = none := find?_fresh hg h₃
      rw [displace_eq_pure hfind, pure_bind]
      have hslot : ((fresh.allocate size).state.slots : Multiset Extent) =
          {⟨address, Tracker.slotSize size⟩} := by
        rw [hslots, hanswer, hnone]
        rfl
      refine ⟨.new hfind hok ⟨haligned.power, haligned.minimum, haligned.layout, haligned.base⟩
        hslot, ?_⟩
      show m₃.Keeps ((g.addBlock _).regions + held)
      rw [(add_spec (g.addBlock _) hfind rfl).1, Multiset.cons_add]
      exact h₃

/-- `allocate` ends in one of the ways of `Serving`, and the system `Keeps` the regions of what it
leaves. -/
lemma allocate_serving [System σ] [LawfulSystem σ] (hg : g.Ok) (h : m.Keeps (g.regions + held))
    (size : Nat) (tracking : Tracking) :
    Ends (g.allocate size tracking) m fun out m' =>
      g.Serving size out.1 out.2 ∧ m'.Keeps (out.2.regions + held) := by
  unfold allocate
  refine (Memory.keeps_settle h _).bind ?_
  rintro ⟨answer, served⟩ m₁ ⟨hout, h₁⟩
  obtain ⟨rfl, rfl⟩ := Prod.mk.inj hout
  unfold serve
  simp only
  rcases g.serveFrom_cases size g.searchOrder with ⟨hnone, hstate⟩ |
    ⟨base, b, address, hfind, hserved, hanswer, hstate⟩
  · -- the blocks that could not serve have the slots that they had
    rw [hnone, hstate]
    exact grow_serving hg h₁ size tracking
  · rw [hanswer, hstate]
    refine ⟨.old hfind hserved, ?_⟩
    show m₁.Keeps ((g.afterServing base _).regions + held)
    rwa [(afterServing_spec hg hfind size).2.1]

/-- `allocate` ends as `Serves` says, whatever a lawful system answers. -/
theorem allocate_spec [System σ] [LawfulSystem σ] (hg : g.Ok) (h : m.Keeps (g.regions + held))
    (size : Nat) (tracking : Tracking) :
    Ends (g.allocate size tracking) m fun out m' =>
      g.Serves held size out.1.toOption out.2 m' := by
  refine (allocate_serving hg h size tracking).mono ?_
  rintro out m' ⟨hserving, h'⟩
  obtain ⟨hok, hslots⟩ := hserving.spec hg
  exact ⟨hok, h', hslots⟩

/-! ## Returns -/

/-- The block that `owner?` names is stored under the key given and contains the address. -/
lemma find?_of_owner? {address key : Nat} {b : Block} (h : g.owner? address = some (key, b)) :
    g.blocks.find? key = some b ∧ b.contains address = true := by
  unfold owner? at h
  obtain ⟨hlast, hcontains⟩ := Option.filter_eq_some_iff.1 h
  exact ⟨(Table.lastUpTo?_eq_some_iff.1 hlast).1, hcontains⟩

/-- An address that `g.owns` lies in one of `g.regions`. -/
lemma exists_region_of_owns {address : Nat} (h : g.owns address = true) :
    ∃ r ∈ g.regions, r.Contains address := by
  obtain ⟨⟨key, b⟩, hb⟩ := Option.isSome_iff_exists.1 h
  obtain ⟨hblock, hcontains⟩ := find?_of_owner? hb
  exact ⟨b.region, region_mem hblock, of_decide_eq_true hcontains⟩

/-- Blocks are stored under their `base` and have regions that are `Disjoint`. -/
structure Spread (g : Group) : Prop where
  keyed {key : Nat} {b : Block} : g.blocks.find? key = some b → b.base = key
  disjoint {key key' : Nat} {b b' : Block} : g.blocks.find? key = some b →
    g.blocks.find? key' = some b' → key ≠ key' → b.region.Disjoint b'.region

/-- A group in order whose regions the system `Keeps` is `Spread`. -/
lemma Ok.spread (hg : g.Ok) (h : m.Keeps (g.regions + held)) : g.Spread :=
  ⟨fun hfind => (hg.block hfind).1, disjoint_of_find? h⟩

/-- In a `Spread` group `owner?` finds the one block that contains the address. -/
lemma Spread.owner?_of_contains (hg : g.Spread) {address key : Nat} {b : Block}
    (hfind : g.blocks.find? key = some b) (hcontains : b.contains address = true) :
    g.owner? address = some (key, b) := by
  have hin : b.region.Contains address := of_decide_eq_true hcontains
  have hbase : b.region.start = key := hg.keyed hfind
  have hlast : g.blocks.lastUpTo? address = some (key, b) := by
    refine Table.lastUpTo?_eq_some_iff.2 ⟨hfind, ?_, ?_⟩
    · show ¬ address < key
      have := hin.1
      omega
    · -- a block further up starts behind this one, hence behind the address
      intro key' hkey' hle
      obtain ⟨b', hfind'⟩ := Table.mem_keys_iff.1 hkey'
      by_cases heq : key' = key
      · exact .inl heq
      · right
        have hdisjoint := hg.disjoint hfind hfind' (Ne.symm heq)
        have hbase' : b'.region.start = key' := hg.keyed hfind'
        have hle : ¬ address < key' := hle
        have hin' := hin
        show key' < key
        unfold Region.Contains at hin'
        unfold Region.Disjoint at hdisjoint
        have : b'.region.start ≤ b'.region.stop := Nat.le_add_right ..
        omega
  unfold owner?
  rw [hlast]
  exact Option.filter_eq_some_iff.2 ⟨rfl, hcontains⟩

/-- A `Spread` group `owns` exactly the addresses in its blocks. -/
lemma Spread.owns_iff (hg : g.Spread) {address : Nat} :
    g.owns address = true ↔
      ∃ key b, g.blocks.find? key = some b ∧ b.contains address = true := by
  constructor
  · intro howns
    obtain ⟨⟨key, b⟩, howner⟩ := Option.isSome_iff_exists.1 howns
    exact ⟨key, b, find?_of_owner? howner⟩
  · rintro ⟨key, b, hfind, hcontains⟩
    unfold owns
    rw [hg.owner?_of_contains hfind hcontains]
    rfl

/-- A group `owns` the start of each of its slots. -/
lemma owns_of_slot (hg : g.Ok) (h : m.Keeps (g.regions + held)) {x : Extent}
    (hx : x ∈ g.slots) : g.owns x.start = true := by
  obtain ⟨key, b, hfind, hx⟩ := mem_slots_iff.1 hx
  exact (hg.spread h).owns_iff.2 ⟨key, b, hfind, (hg.block hfind).2.contains_slot hx⟩

/-- `deallocate` erases the slot it names from `g.slots`, if it is there, and keeps `g.Ok` and
`g.regions`. -/
theorem deallocate_spec (hg : g.Ok) (h : m.Keeps (g.regions + held)) (address size : Nat) :
    (g.deallocate address size).state.Ok ∧
      (g.deallocate address size).state.regions = g.regions ∧
      (g.deallocate address size).state.slots =
        g.slots.erase ⟨address, Tracker.slotSize size⟩ := by
  unfold deallocate
  rcases howner : g.owner? address with _ | ⟨key, b⟩
  · -- the address of a slot lies in a block, and that block would have been found
    refine ⟨hg, rfl, (Multiset.erase_of_notMem fun hmem => ?_).symm⟩
    obtain ⟨key, b, hfind, hx⟩ := mem_slots_iff.1 hmem
    rw [(hg.spread h).owner?_of_contains hfind ((hg.block hfind).2.contains_slot hx)] at howner
    exact absurd howner (by simp)
  · obtain ⟨hfind, -⟩ := find?_of_owner? howner
    obtain ⟨hbase, hb⟩ := hg.block hfind
    obtain ⟨hok, hregion, hslots⟩ := Block.deallocate_spec hb address size
    have hbase' : (b.deallocate address size).state.base = key :=
      (congrArg Region.start hregion).trans hbase
    obtain ⟨hregions, others, hbefore, hafter⟩ := replace_spec
      (b.deallocate address size).state
      { g with blocks := g.blocks.insert key (b.deallocate address size).state } hfind hregion rfl
    refine ⟨hg.insert hok hbase' rfl, hregions, hafter.trans ?_⟩
    rw [hslots, hbefore]
    by_cases hmem : (⟨address, Tracker.slotSize size⟩ : Extent) ∈ b.slots
    · exact (Multiset.erase_add_left_pos _ (Multiset.mem_coe.2 hmem)).symm
    · -- no other block has the slot, since it would have been found for the address
      rw [Multiset.erase_of_notMem (Multiset.mem_coe.not.2 hmem), Multiset.erase_of_notMem]
      intro hin
      obtain ⟨key', b', hfind', hx⟩ := mem_slots_iff.1 (hbefore ▸ hin)
      have hcontains := (hg.block hfind').2.contains_slot hx
      have howner' := (hg.spread h).owner?_of_contains hfind' hcontains
      obtain ⟨-, rfl⟩ := Prod.mk.inj (Option.some.inj (howner.symm.trans howner'))
      exact hmem hx

end Memory

/-! ## Settings -/

theorem setTracking_spec (hg : g.Ok) (tracking : Tracking) :
    (g.setTracking tracking).Ok ∧ (g.setTracking tracking).regions = g.regions ∧
      (g.setTracking tracking).slots = g.slots := by
  refine ⟨⟨?_⟩, ?_, ?_⟩
  · intro key b hfind
    unfold setTracking at hfind
    rw [Table.find?_mapValues, Option.map_eq_some_iff] at hfind
    obtain ⟨c, hfind, rfl⟩ := hfind
    obtain ⟨hbase, hc⟩ := hg.block hfind
    exact ⟨hbase, hc.setTracking tracking⟩
  · unfold regions setTracking
    rw [Table.values_mapValues, ← Multiset.map_coe, Multiset.map_map]
    rfl
  · unfold slots setTracking
    rw [Table.values_mapValues, ← Multiset.map_coe, Multiset.bind_map]
    rfl

/-! ## Compaction -/

/-- `withoutEmpty` keeps `g.slots`; `g.regions` are what is left and the regions of
`g.emptyBlocks`. -/
theorem withoutEmpty_spec (hg : g.Ok) :
    g.withoutEmpty.Ok ∧
      g.regions = (g.emptyBlocks : Multiset Block).map Block.region + g.withoutEmpty.regions ∧
      g.withoutEmpty.slots = g.slots := by
  have hvalues : g.withoutEmpty.blocks.values = g.blocks.values.filter fun b => !b.isEmpty :=
    Table.values_filter g.blocks fun b => !b.isEmpty
  have hsplit : (g.blocks.values : Multiset Block) =
      (g.emptyBlocks : Multiset Block) + (g.withoutEmpty.blocks.values : Multiset Block) := by
    rw [hvalues, Multiset.coe_add, Multiset.coe_eq_coe]
    exact (List.filter_append_perm (·.isEmpty) g.blocks.values).symm
  refine ⟨⟨?_⟩, ?_, ?_⟩
  · intro key b hfind
    unfold withoutEmpty at hfind
    rw [Table.find?_filter, Option.filter_eq_some_iff] at hfind
    exact hg.block hfind.1
  · unfold regions
    rw [hsplit, Multiset.map_add]
  · -- a block that is empty has no slot to lose
    have hnone :
        (g.emptyBlocks : Multiset Block).bind (fun b => (b.slots : Multiset Extent)) = 0 := by
      refine Multiset.eq_zero_of_forall_notMem fun x hx => ?_
      obtain ⟨b, hb, hx⟩ := Multiset.mem_bind.1 hx
      obtain ⟨hmem, hempty⟩ := List.mem_filter.1 hb
      obtain ⟨key, hfind⟩ := Table.mem_values_iff.1 hmem
      rw [(hg.block hfind).2.slots_eq_nil hempty] at hx
      exact List.not_mem_nil hx
    unfold slots
    rw [hsplit, Multiset.add_bind, hnone, Multiset.zero_add]

section Memory

variable {σ : Type} {m : Memory σ} {held : Multiset Region}

/-- `removeAll` gives the regions of all `blocks` back to the system and no other. -/
theorem removeAll_spec {blocks : List Block} (name : String) (tracking : Tracking)
    (h : m.Keeps ((blocks : Multiset Block).map Block.region + held)) :
    Ends (removeAll name tracking blocks) m fun _ m' => m'.Keeps held := by
  induction blocks generalizing m with
  | nil =>
    rw [Multiset.coe_nil, Multiset.map_zero, Multiset.zero_add] at h
    exact h
  | cons b rest ih =>
    rw [← Multiset.cons_coe, Multiset.map_cons, Multiset.cons_add] at h
    unfold removeAll
    refine (Memory.keeps_noteIf h ..).bind fun _ _ h' => ?_
    exact (Block.giveBack_spec h').bind fun _ _ h'' => ih h''

theorem giveBackAll_spec {blocks : List Block}
    (h : m.Keeps ((blocks : Multiset Block).map Block.region + held)) :
    Ends (giveBackAll blocks) m fun _ m' => m'.Keeps held := by
  induction blocks generalizing m with
  | nil =>
    rw [Multiset.coe_nil, Multiset.map_zero, Multiset.zero_add] at h
    exact h
  | cons b rest ih =>
    rw [← Multiset.cons_coe, Multiset.map_cons, Multiset.cons_add] at h
    unfold giveBackAll
    exact (Block.giveBack_spec h).bind fun _ _ h' => ih h'

/-- `compact` leaves `g.withoutEmpty` and gives back the regions of `g.emptyBlocks`. -/
theorem compact_spec [System σ] (hg : g.Ok) (h : m.Keeps (g.regions + held)) (tracking : Tracking) :
    Ends (g.compact tracking) m fun out m' =>
      out.2 = g.withoutEmpty ∧ m'.Keeps (g.withoutEmpty.regions + held) := by
  rw [(withoutEmpty_spec hg).2.1, Multiset.add_assoc] at h
  unfold compact
  exact (removeAll_spec g.name tracking h).bind fun _ _ h' => ⟨rfl, h'⟩

/-- `giveBack` gives all of `g.regions` back to the system. -/
theorem giveBack_spec [System σ] (h : m.Keeps (g.regions + held)) :
    Ends g.giveBack m fun _ m' => m'.Keeps held :=
  giveBackAll_spec h

end Memory

end Group

end BlockPool
