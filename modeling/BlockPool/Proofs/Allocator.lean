import BlockPool.Allocator.Basic
import BlockPool.Proofs.Group

/-!
# The slots of an allocator

The groups of an allocator share nothing, so an address belongs to one group at most. What a group
does with its slots and its regions is what the allocator does with them; the fallbacks of an
allocator have no part in it.
-/

namespace BlockPool

/-- `Table.ofList` stores under each key the last value that the list has for it. -/
lemma Table.find?_ofList {κ α : Type} [KeyOrder κ] [DecidableEq κ] (entries : List (κ × α))
    (key : κ) :
    (Table.ofList entries).find? key =
      ((entries.filter fun e => e.1 = key).getLast?).map (·.2) := by
  -- the last entry is the one stored last, so the list is taken apart from its end
  induction entries using List.reverseRecOn with
  | nil => simp [ofList]
  | append_singleton rest e ih =>
    have hlast : ofList (rest ++ [e]) = (ofList rest).insert e.1 e.2 := by
      simp only [ofList, List.foldl_append, List.foldl_cons, List.foldl_nil]
    rw [hlast, find?_insert, List.filter_append, ih]
    by_cases hkey : e.1 = key
    · simp [hkey]
    · simp [hkey, Ne.symm hkey]

/-- What `Table.ofList` stores is an entry of the list. -/
lemma Table.mem_of_find?_ofList {κ α : Type} [KeyOrder κ] [DecidableEq κ]
    {entries : List (κ × α)} {key : κ} {value : α}
    (h : (Table.ofList entries).find? key = some value) : (key, value) ∈ entries := by
  rw [find?_ofList, Option.map_eq_some_iff] at h
  obtain ⟨⟨key', value'⟩, hlast, rfl⟩ := h
  obtain ⟨hmem, hkey⟩ := List.mem_filter.1 (List.mem_of_getLast? hlast)
  rwa [← of_decide_eq_true hkey]

namespace Allocator

variable {a : Allocator}

/-- The regions of all blocks: `Group.regions` of every group. -/
def regions (a : Allocator) : Multiset Region :=
  (a.groups.values : Multiset Group).bind Group.regions

/-- The slots of all blocks: `Group.slots` of every group. -/
def slots (a : Allocator) : Multiset Extent :=
  (a.groups.values : Multiset Group).bind Group.slots

/-- The books of an allocator: `Group.Ok` holds of every group. -/
structure Ok (a : Allocator) : Prop where
  group {affinity : Affinity} {g : Group} : a.groups.find? affinity = some g → g.Ok

/-- Whether some group `owns` an address, as `owner?` finds. -/
def owns (a : Allocator) (address : Nat) : Bool := (a.owner? address).isSome

/-- The fallbacks of an allocator: `nested` strategies, and the heap behind them as `backstop`. -/
structure Wiring where
  nested : List Strategy
  backstop : Option Heap

/-- The `Wiring` of an allocator, where it turns when its groups cannot serve. -/
def wiring (a : Allocator) : Wiring := ⟨a.nested, a.backstop⟩

lemma mem_slots_iff {x : Extent} :
    x ∈ a.slots ↔ ∃ affinity g, a.groups.find? affinity = some g ∧ x ∈ g.slots := by
  unfold slots
  rw [Multiset.mem_bind]
  constructor
  · rintro ⟨g, hg, hx⟩
    obtain ⟨affinity, hfind⟩ := Table.mem_values_iff.1 hg
    exact ⟨affinity, g, hfind, hx⟩
  · rintro ⟨affinity, g, hfind, hx⟩
    exact ⟨g, Table.mem_values_iff.2 ⟨affinity, hfind⟩, hx⟩

/-! ## Allocators that differ in one group -/

lemma Ok.setGroup (ha : a.Ok) {affinity : Affinity} {g : Group} (hg : g.Ok) :
    (a.setGroup affinity g).Ok where
  group {affinity' g'} hfind := by
    unfold Allocator.setGroup at hfind
    rw [Table.find?_insert] at hfind
    split at hfind
    · rwa [← Option.some.inj hfind]
    · exact ha.group hfind

/-- `a.setGroup` changes only the part that the replaced group had in `a.regions` and `a.slots`. -/
lemma exists_others {affinity : Affinity} {g : Group}
    (hfind : a.groups.find? affinity = some g) :
    ∃ (others : Multiset Region) (others' : Multiset Extent),
      a.regions = g.regions + others ∧ a.slots = g.slots + others' ∧
        ∀ g', (a.setGroup affinity g').regions = g'.regions + others ∧
          (a.setGroup affinity g').slots = g'.slots + others' := by
  refine ⟨((a.groups.erase affinity).values : Multiset Group).bind Group.regions,
    ((a.groups.erase affinity).values : Multiset Group).bind Group.slots, ?_, ?_, ?_⟩
  · unfold regions
    rw [Table.coe_values_of_find? hfind, Multiset.cons_bind]
  · unfold slots
    rw [Table.coe_values_of_find? hfind, Multiset.cons_bind]
  · intro g'
    unfold regions slots setGroup
    rw [Table.coe_values_insert, Multiset.cons_bind, Multiset.cons_bind]
    exact ⟨rfl, rfl⟩

/-! ## Allocators without blocks -/

/-- No group has a block: `blocks` is empty in each of them. -/
def Bare (a : Allocator) : Prop :=
  ∀ affinity g, a.groups.find? affinity = some g → g.blocks = .empty

lemma Bare.ok (h : a.Bare) : a.Ok where
  group {affinity g} hfind := by
    refine ⟨fun hblock => ?_⟩
    rw [h affinity g hfind] at hblock
    exact absurd hblock (by simp)

/-- A `Bare` allocator has no regions. -/
lemma Bare.regions (h : a.Bare) : a.regions = 0 := by
  refine Multiset.eq_zero_of_forall_notMem fun r hr => ?_
  obtain ⟨g, hg, hr⟩ := Multiset.mem_bind.1 hr
  obtain ⟨affinity, hfind⟩ := Table.mem_values_iff.1 hg
  unfold Group.regions at hr
  rw [h affinity g hfind] at hr
  exact absurd hr (Multiset.notMem_zero r)

lemma Bare.slots (h : a.Bare) : a.slots = 0 := by
  refine Multiset.eq_zero_of_forall_notMem fun x hx => ?_
  obtain ⟨affinity, g, hfind, hx⟩ := mem_slots_iff.1 hx
  unfold Group.slots at hx
  rw [h affinity g hfind] at hx
  exact absurd hx (Multiset.notMem_zero x)

/-- An allocator made by `ofSettings` is `Bare`. -/
lemma bare_ofSettings (s : Settings) (nested : List Strategy) : (ofSettings s nested).Bare := by
  intro affinity g hfind
  obtain ⟨settings, -, heq⟩ := List.mem_map.1 (Table.mem_of_find?_ofList hfind)
  rw [← (Prod.mk.inj heq).2]
  rfl

/-! ## Settings -/

/-- An allocator that has the same `regions`, `slots` and `wiring` as another one, with its books in
order. -/
structure Alike (a a' : Allocator) : Prop where
  ok : a'.Ok
  regions : a'.regions = a.regions
  slots : a'.slots = a.slots
  wiring : a'.wiring = a.wiring

lemma Alike.trans {a a' a'' : Allocator} (h : a.Alike a') (h' : a'.Alike a'') : a.Alike a'' :=
  ⟨h'.ok, h'.regions.trans h.regions, h'.slots.trans h.slots, h'.wiring.trans h.wiring⟩

/-- `setGroup` with a group that has the same `blocks` leaves the allocator `Alike`. -/
lemma Ok.alike_setGroup (ha : a.Ok) {affinity : Affinity} {g g' : Group}
    (hfind : a.groups.find? affinity = some g) (hblocks : g'.blocks = g.blocks) :
    a.Alike (a.setGroup affinity g') := by
  obtain ⟨others, others', hregions, hslots, hset⟩ := exists_others hfind
  have hg' : g'.Ok := ⟨fun h => (ha.group hfind).block (hblocks ▸ h)⟩
  refine ⟨ha.setGroup hg', ?_, ?_, rfl⟩
  · rw [(hset g').1, hregions, Group.regions, hblocks]
    rfl
  · rw [(hset g').2, hslots, Group.slots, hblocks]
    rfl

/-- `setGroup` with a group without blocks, at an affinity without one, leaves the allocator
`Alike`. -/
lemma Ok.alike_addGroup (ha : a.Ok) {affinity : Affinity} {g : Group}
    (hnone : a.groups.find? affinity = none) (hblocks : g.blocks = .empty) :
    a.Alike (a.setGroup affinity g) := by
  have hg : g.Ok := by
    refine ⟨fun hfind => ?_⟩
    rw [hblocks] at hfind
    exact absurd hfind (by simp)
  refine ⟨ha.setGroup hg, ?_, ?_, rfl⟩
  · unfold Allocator.regions Allocator.setGroup
    rw [Table.coe_values_insert, Table.erase_eq_self hnone, Multiset.cons_bind, Group.regions,
      hblocks]
    exact Multiset.zero_add _
  · unfold Allocator.slots Allocator.setGroup
    rw [Table.coe_values_insert, Table.erase_eq_self hnone, Multiset.cons_bind, Group.slots,
      hblocks]
    exact Multiset.zero_add _

/-- `mapValues` with an `f` that keeps `Group.Ok` and the slots of each group keeps `a.Ok` and
`a.slots`. -/
lemma Ok.mapValues (ha : a.Ok) (a' : Allocator) {f : Group → Group}
    (hgroups : a'.groups = a.groups.mapValues f)
    (hf : ∀ g, g.Ok → (f g).Ok ∧ (f g).slots = g.slots) :
    a'.Ok ∧ a'.regions = (a.groups.values : Multiset Group).bind (fun g => (f g).regions) ∧
      a'.slots = a.slots := by
  refine ⟨⟨?_⟩, ?_, ?_⟩
  · intro affinity g hfind
    rw [hgroups, Table.find?_mapValues, Option.map_eq_some_iff] at hfind
    obtain ⟨g', hfind, rfl⟩ := hfind
    exact (hf g' (ha.group hfind)).1
  · rw [Allocator.regions, hgroups, Table.values_mapValues, ← Multiset.map_coe, Multiset.bind_map]
  · rw [Allocator.slots, hgroups, Table.values_mapValues, ← Multiset.map_coe, Multiset.bind_map]
    refine Multiset.bind_congr fun g hg => ?_
    obtain ⟨affinity, hfind⟩ := Table.mem_values_iff.1 hg
    exact (hf g (ha.group hfind)).2

lemma alike_setTracking (ha : a.Ok) (tracking : Tracking) : a.Alike (a.setTracking tracking) := by
  have hgroup : ∀ g : Group, g.Ok → (g.setTracking tracking).Ok ∧
      (g.setTracking tracking).slots = g.slots := fun g hg =>
    let ⟨hok, _, hslots⟩ := Group.setTracking_spec hg tracking
    ⟨hok, hslots⟩
  obtain ⟨hok, hregions, hslots⟩ :=
    ha.mapValues (a.setTracking tracking) rfl hgroup
  refine ⟨hok, ?_, hslots, rfl⟩
  rw [hregions]
  refine Multiset.bind_congr fun g hg => ?_
  obtain ⟨affinity, hfind⟩ := Table.mem_values_iff.1 hg
  exact (Group.setTracking_spec (ha.group hfind) tracking).2.1

section Memory

variable {σ : Type} {m : Memory σ} {held : Multiset Region}

/-- `ensureGroup` answers the group that is stored afterwards and leaves the allocator `Alike`. -/
theorem ensureGroup_spec [System σ] (ha : a.Ok) (h : m.Keeps held) (affinity : Affinity) :
    Ends (a.ensureGroup affinity) m fun out m' =>
      out.2.groups.find? affinity = some out.1 ∧ a.Alike out.2 ∧ m'.Keeps held := by
  unfold ensureGroup
  split
  · rename_i g hfind
    exact ⟨hfind, ⟨ha, rfl, rfl, rfl⟩, h⟩
  · rename_i hnone
    refine (Memory.keeps_noteIf h ..).bind fun _ m' h' => ?_
    refine ⟨?_, ha.alike_addGroup hnone rfl, h'⟩
    exact (Table.find?_insert ..).trans (if_pos rfl)

/-- `setBlockSize` leaves the allocator `Alike` and the system as it was. -/
theorem setBlockSize_spec [System σ] (ha : a.Ok) (h : m.Keeps held) (affinity : Affinity)
    (blockSize : Nat) :
    Ends (a.setBlockSize affinity blockSize) m fun a' m' => a.Alike a' ∧ m'.Keeps held := by
  unfold setBlockSize
  refine (ensureGroup_spec ha h affinity).bind ?_
  rintro ⟨g, a₁⟩ m₁ ⟨hfind, halike, h₁⟩
  exact ⟨halike.trans (halike.ok.alike_setGroup hfind rfl), h₁⟩

/-- `configureGroup` leaves the allocator `Alike` and the system as it was. -/
theorem configureGroup_spec [System σ] (ha : a.Ok) (h : m.Keeps held) (s : GroupSettings) :
    Ends (a.configureGroup s) m fun a' m' => a.Alike a' ∧ m'.Keeps held := by
  unfold configureGroup
  refine (ensureGroup_spec ha h s.affinity).bind ?_
  rintro ⟨g, a₁⟩ m₁ ⟨hfind, halike, h₁⟩
  exact ⟨halike.trans (halike.ok.alike_setGroup hfind rfl), h₁⟩

/-! ## Requests and returns -/

/-- What a request to the groups ends with: the slots `gained`, and every region accounted for by
`Keeps`. -/
structure Serves (a : Allocator) (held : Multiset Region) (size : Nat) (answer : Option Nat)
    (after : Allocator) (m' : Memory σ) : Prop where
  ok : after.Ok
  keeps : m'.Keeps (after.regions + held)
  slots : after.slots = gained size answer + a.slots
  wiring : after.wiring = a.wiring

/-- `allocatePooled` ends as `Serves` says, whatever a lawful system answers. -/
theorem allocatePooled_spec [System σ] [LawfulSystem σ] (ha : a.Ok)
    (h : m.Keeps (a.regions + held)) (size : Nat) (affinity : Affinity) :
    Ends (a.allocatePooled size affinity) m fun out m' =>
      a.Serves held size out.1.toOption out.2 m' := by
  unfold allocatePooled
  refine (ensureGroup_spec ha h affinity).bind ?_
  rintro ⟨g, a₁⟩ m₁ ⟨hfind, halike, h₁⟩
  obtain ⟨others, others', hregions, hslots, hset⟩ := exists_others hfind
  rw [← halike.regions, hregions, Multiset.add_assoc] at h₁
  refine (Group.allocate_spec (halike.ok.group hfind) h₁ size a₁.tracking).bind ?_
  rintro ⟨answer, g'⟩ m₂ ⟨hok, h₂, hgained⟩
  have hserves : ∀ {m' : Memory σ}, m'.Keeps (g'.regions + (others + held)) →
      a.Serves held size answer.toOption (a₁.setGroup affinity g') m' := by
    intro m' h'
    refine ⟨halike.ok.setGroup hok, ?_, ?_, halike.wiring⟩
    · rwa [(hset g').1, Multiset.add_assoc]
    · rw [(hset g').2, hgained, Multiset.add_assoc, ← hslots, halike.slots]
  simp only
  split
  · exact (Memory.keeps_noteIf h₂ ..).bind fun _ _ h₃ => hserves h₃
  · exact (Memory.keeps_note h₂ _).bind fun _ _ h₃ => hserves h₃

/-- `deallocatePooled` answers `false` and does nothing at an address that no block contains. -/
lemma deallocatePooled_of_not_owns [System σ] {address : Nat} (h : a.owns address = false)
    (size : Nat) : a.deallocatePooled address size = (pure (false, a) : MemoryM σ _) := by
  have hnone : a.owner? address = none := by
    rw [← Option.not_isSome_iff_eq_none]
    exact (Bool.eq_false_iff.1 h)
  unfold deallocatePooled
  rw [hnone]

/-- The group that `owner?` names is stored and `owns` the address. -/
lemma find?_of_owner? {affinity : Affinity} {g : Group} {address : Nat}
    (h : a.owner? address = some (affinity, g)) :
    a.groups.find? affinity = some g ∧ g.owns address = true := by
  unfold owner? at h
  exact ⟨Table.find?_eq_some_iff.2 (List.mem_of_find?_eq_some h), by simpa using List.find?_some h⟩

/-- An address that `a.owns` lies in one of `a.regions`. -/
lemma exists_region_of_owns {address : Nat} (h : a.owns address = true) :
    ∃ r ∈ a.regions, r.Contains address := by
  obtain ⟨⟨affinity, g⟩, howner⟩ := Option.isSome_iff_exists.1 h
  obtain ⟨hfind, howns⟩ := find?_of_owner? howner
  obtain ⟨r, hr, hin⟩ := Group.exists_region_of_owns howns
  exact ⟨r, Multiset.mem_bind.2 ⟨g, Table.mem_values_iff.2 ⟨affinity, hfind⟩, hr⟩, hin⟩

/-- `owner?` finds any group that `owns` the address, since no two of them do. -/
lemma owner?_of_owns (h : m.Keeps (a.regions + held)) {affinity : Affinity} {g : Group}
    {address : Nat} (hfind : a.groups.find? affinity = some g) (howns : g.owns address = true) :
    a.owner? address = some (affinity, g) := by
  have hsome : a.owns address = true := by
    refine List.find?_isSome.2 ⟨(affinity, g), Table.find?_eq_some_iff.1 hfind, howns⟩
  obtain ⟨⟨affinity', g'⟩, howner⟩ := Option.isSome_iff_exists.1 hsome
  obtain ⟨hfind', howns'⟩ := find?_of_owner? howner
  by_cases heq : affinity' = affinity
  · subst heq
    rw [hfind] at hfind'
    rw [howner, Option.some.inj hfind']
  · -- two groups that own the address would have two regions that contain it
    obtain ⟨rest, hvalues⟩ := Table.exists_coe_values_of_ne hfind hfind' (Ne.symm heq)
    obtain ⟨r, hr, hin⟩ := Group.exists_region_of_owns howns
    obtain ⟨r', hr', hin'⟩ := Group.exists_region_of_owns howns'
    obtain ⟨s, hs⟩ := Multiset.exists_cons_of_mem hr
    obtain ⟨s', hs'⟩ := Multiset.exists_cons_of_mem hr'
    have hdisjoint : r.Disjoint r' := by
      apply h.disjoint
      unfold regions
      rw [hvalues, Multiset.cons_bind, Multiset.cons_bind, hs, hs', Multiset.cons_add,
        Multiset.cons_add, Multiset.cons_add, Multiset.add_cons, Multiset.cons_add]
    exact absurd hin' (hdisjoint.not_contains hin)

/-- `owner?` finds the group of a slot at the start of the slot. -/
lemma owner?_of_slot (ha : a.Ok) (h : m.Keeps (a.regions + held)) {affinity : Affinity}
    {g : Group} {x : Extent} (hfind : a.groups.find? affinity = some g) (hx : x ∈ g.slots) :
    a.owner? x.start = some (affinity, g) := by
  obtain ⟨others, others', hregions, -, -⟩ := exists_others hfind
  have hgroup : m.Keeps (g.regions + (others + held)) := by
    rwa [hregions, Multiset.add_assoc] at h
  exact owner?_of_owns h hfind (Group.owns_of_slot (ha.group hfind) hgroup hx)

/-- An allocator `owns` the start of each of its slots. -/
lemma owns_of_slot (ha : a.Ok) (h : m.Keeps (a.regions + held)) {x : Extent}
    (hx : x ∈ a.slots) : a.owns x.start = true := by
  obtain ⟨affinity, g, hfind, hx⟩ := mem_slots_iff.1 hx
  unfold owns
  rw [owner?_of_slot ha h hfind hx]
  rfl

/-- `deallocatePooled` answers whether `a.owns` the address and erases the slot it names from
`a.slots`, if it is there. -/
theorem deallocatePooled_spec [System σ] (ha : a.Ok) (h : m.Keeps (a.regions + held))
    (address size : Nat) :
    Ends (a.deallocatePooled address size) m fun out m' =>
      out.1 = a.owns address ∧ out.2.Ok ∧ m'.Keeps (out.2.regions + held) ∧
        out.2.slots = a.slots.erase ⟨address, Tracker.slotSize size⟩ ∧
        out.2.wiring = a.wiring := by
  by_cases howns : a.owns address = true
  · obtain ⟨⟨affinity, g⟩, howner⟩ := Option.isSome_iff_exists.1 howns
    obtain ⟨hfind, -⟩ := find?_of_owner? howner
    obtain ⟨others, others', hregions, hslots, hset⟩ := exists_others hfind
    have hgroup : m.Keeps (g.regions + (others + held)) := by
      rwa [hregions, Multiset.add_assoc] at h
    obtain ⟨hok, hsame, hlost⟩ := Group.deallocate_spec (ha.group hfind) hgroup address size
    unfold deallocatePooled
    rw [howner]
    refine (Memory.keeps_settle hgroup _).bind ?_
    rintro ⟨taken, g'⟩ m₁ ⟨hout, h₁⟩
    obtain ⟨-, rfl⟩ := Prod.mk.inj hout
    refine (Memory.keeps_noteIf h₁ ..).bind fun _ m₂ h₂ => ?_
    refine ⟨howns.symm, ha.setGroup hok, ?_, ?_, rfl⟩
    · show m₂.Keeps ((a.setGroup affinity _).regions + held)
      rwa [(hset _).1, hsame, Multiset.add_assoc]
    · show (a.setGroup affinity _).slots = _
      rw [(hset _).2, hslots, hlost]
      by_cases hmem : (⟨address, Tracker.slotSize size⟩ : Extent) ∈ g.slots
      · exact (Multiset.erase_add_left_pos _ hmem).symm
      · -- no other group has the slot, since it would have been found for the address
        rw [Multiset.erase_of_notMem hmem, ← hslots, Multiset.erase_of_notMem]
        intro hin
        obtain ⟨affinity', g', hfind', hx⟩ := mem_slots_iff.1 hin
        have howner' := owner?_of_slot ha h hfind' hx
        obtain ⟨-, rfl⟩ := Prod.mk.inj (Option.some.inj (howner.symm.trans howner'))
        exact hmem hx
  · rw [deallocatePooled_of_not_owns (Bool.eq_false_iff.2 howns)]
    refine ⟨(Bool.eq_false_iff.2 howns).symm, ha, h, ?_, rfl⟩
    exact (Multiset.erase_of_notMem fun hmem => howns (owns_of_slot ha h hmem)).symm

/-! ## Giving memory back -/

/-- `compactAll` gives back the regions of the empty blocks of all `entries` and no other. -/
theorem compactAll_spec [System σ] {entries : List (Affinity × Group)} (tracking : Tracking)
    (hok : ∀ e ∈ entries, e.2.Ok)
    (h : m.Keeps (((entries.map (·.2) : List Group) : Multiset Group).bind Group.regions + held)) :
    Ends (compactAll tracking entries) m fun _ m' =>
      m'.Keeps (((entries.map (·.2) : List Group) : Multiset Group).bind
        (fun g => g.withoutEmpty.regions) + held) := by
  induction entries generalizing m held with
  | nil => exact h
  | cons e rest ih =>
    rw [List.map_cons, ← Multiset.cons_coe, Multiset.cons_bind, Multiset.add_assoc] at h
    unfold compactAll
    refine (Group.compact_spec (hok e (List.mem_cons_self ..)) h tracking).bind ?_
    rintro _ m₁ ⟨-, h₁⟩
    -- what is left of the first group is held while the others are compacted
    rw [add_left_comm] at h₁
    refine (ih (fun e he => hok e (List.mem_cons_of_mem _ he)) h₁).bind fun _ m₂ h₂ => ?_
    show m₂.Keeps _
    rwa [List.map_cons, ← Multiset.cons_coe, Multiset.cons_bind, Multiset.add_assoc,
      add_left_comm]

/-- `compact` keeps `a.Ok`, `a.slots` and `a.wiring`, and the system `Keeps` the regions that are
left. -/
theorem compact_spec [System σ] (ha : a.Ok) (h : m.Keeps (a.regions + held)) :
    Ends a.compact m fun out m' =>
      out.2.Ok ∧ m'.Keeps (out.2.regions + held) ∧ out.2.slots = a.slots ∧
        out.2.wiring = a.wiring := by
  have hok : ∀ e ∈ a.groups.entries, e.2.Ok := fun e he =>
    ha.group (Table.find?_eq_some_iff.2 he)
  have hgroup : ∀ g : Group, g.Ok → g.withoutEmpty.Ok ∧ g.withoutEmpty.slots = g.slots :=
    fun g hg =>
      let ⟨hok, _, hslots⟩ := Group.withoutEmpty_spec hg
      ⟨hok, hslots⟩
  obtain ⟨hafter, hregions, hslots⟩ :=
    ha.mapValues { a with groups := a.groups.mapValues Group.withoutEmpty } rfl hgroup
  unfold compact
  refine (compactAll_spec a.tracking hok h).bind fun bytes m₁ h₁ => ?_
  refine (Memory.keeps_noteIf h₁ ..).bind fun _ m₂ h₂ => ⟨hafter, ?_, hslots, rfl⟩
  show m₂.Keeps (Allocator.regions { a with groups := _ } + held)
  rw [hregions]
  exact h₂

theorem giveBackAll_spec [System σ] {groups : List Group}
    (h : m.Keeps ((groups : Multiset Group).bind Group.regions + held)) :
    Ends (giveBackAll groups) m fun _ m' => m'.Keeps held := by
  induction groups generalizing m with
  | nil =>
    rw [Multiset.coe_nil, Multiset.zero_bind, Multiset.zero_add] at h
    exact h
  | cons g rest ih =>
    rw [← Multiset.cons_coe, Multiset.cons_bind, Multiset.add_assoc] at h
    unfold giveBackAll
    exact (Group.giveBack_spec h).bind fun _ _ h₁ => ih h₁

/-- `giveBack` gives all of `a.regions` back and leaves a `Bare` allocator with the same
`wiring`. -/
theorem giveBack_spec [System σ] (h : m.Keeps (a.regions + held)) :
    Ends a.giveBack m fun a' m' => a'.Bare ∧ m'.Keeps held ∧ a'.wiring = a.wiring := by
  unfold giveBack
  refine (giveBackAll_spec h).bind fun _ m₁ h₁ => ⟨?_, h₁, rfl⟩
  intro affinity g hfind
  have hfind : (Table.empty : Table Affinity Group).find? affinity = some g := hfind
  exact absurd hfind (by simp)

/-- `reset` gives all of `a.regions` back and is `ofSettings` with the nested strategies of
before. -/
theorem reset_spec [System σ] (h : m.Keeps (a.regions + held)) (s : Settings) :
    Ends (a.reset s) m fun a' m' => a' = ofSettings s a.nested ∧ m'.Keeps held := by
  unfold reset
  exact (giveBack_spec h).bind fun _ _ h₁ => ⟨rfl, h₁.2.1⟩

end Memory

end Allocator

end BlockPool
