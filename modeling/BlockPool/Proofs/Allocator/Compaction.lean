import BlockPool.Proofs.Allocator.Routing
import BlockPool.Proofs.Log
import BlockPool.Proofs.Usage

/-!
# What compaction takes out

Compaction looks at the byte counts of blocks, not at their slots. Books in order make both the
same: no byte of a block is reserved if and only if the block has no slot, as even a slot for zero
bytes takes one. So compaction takes out the blocks without slots, and no others, from every
structure that knows them.
-/

namespace BlockPool

/-! ## Memory that goes back -/

/-- An event by which memory is `released` to the system. -/
def Event.IsReturn (event : Event) : Prop := ∃ named status, event = .released named status

lemma Event.returned?_of_isNotice {event : Event} (h : event.IsNotice) :
    event.returned? = none := by
  obtain ⟨notice, rfl⟩ := h
  rfl

namespace Memory

variable {σ : Type} {m m' m'' : Memory σ} {regions regions' : List Region}
  {events events' : List Event}

/-- The live regions are `Disjoint`, and none of them is empty. -/
structure Sound (m : Memory σ) : Prop where
  apart : m.live.Pairwise Region.Disjoint
  nonempty : ∀ r ∈ m.live, 0 < r.layout.size

/-- The `regions` went back with some `events`, each of them once and with its own layout, and
nothing else happened. If they were live, they went back the right way. -/
structure GivesBack (regions : List Region) (events : List Event) (m m' : Memory σ) : Prop where
  system : m'.system = m.system
  log : m'.log = events ++ m.log
  kinds : ∀ event ∈ events, event.IsNotice ∨ event.IsReturn
  once : returned events = regions
  received : m.Sound → ∀ rest : Multiset Region, (m.live : Multiset Region) = regions + rest →
    m'.Sound ∧ (m'.live : Multiset Region) = rest ∧
      ∀ named status, .released named status ∈ events → status = .ok
  still : regions = [] → m'.live = m.live

/-- A `Quiet` action gives back nothing. -/
lemma Quiet.givesBack (h : m.Quiet m') : ∃ events, GivesBack [] events m m' := by
  obtain ⟨events, hlog, hnotice⟩ := h.writes
  have hnone : events.filterMap Event.returned? = [] :=
    List.filterMap_eq_nil_iff.2 fun event hmem => Event.returned?_of_isNotice (hnotice event hmem)
  refine ⟨events, h.system, hlog, fun event hmem => .inl (hnotice event hmem), ?_, ?_, ?_⟩
  · unfold returned
    rw [hnone]
  · intro hsound rest hlive
    refine ⟨⟨h.live ▸ hsound.apart, h.live ▸ hsound.nonempty⟩, ?_, fun named status hmem => ?_⟩
    · rw [h.live, hlive, Multiset.coe_nil, Multiset.zero_add]
    · obtain ⟨notice, hreturn⟩ := hnotice _ hmem
      exact Event.noConfusion hreturn
  · exact fun _ => h.live

/-- An action that gives back nothing is `Quiet`. -/
lemma GivesBack.quiet (h : GivesBack [] events m m') : m.Quiet m' := by
  refine ⟨h.system, h.still rfl, events, h.log, fun event hmem => ?_⟩
  refine (h.kinds event hmem).resolve_right ?_
  rintro ⟨named, status, rfl⟩
  have hnone : events.filterMap Event.returned? = [] := (Multiset.coe_eq_zero _).1 h.once
  exact Option.some_ne_none _ (List.filterMap_eq_nil_iff.1 hnone _ hmem)

lemma GivesBack.trans (h : GivesBack regions events m m')
    (h' : GivesBack regions' events' m' m'') :
    GivesBack (regions ++ regions') (events' ++ events) m m'' where
  system := h'.system.trans h.system
  log := by rw [h'.log, h.log, List.append_assoc]
  kinds event hmem := by
    rcases List.mem_append.1 hmem with hmem | hmem
    · exact h'.kinds event hmem
    · exact h.kinds event hmem
  once := by
    rw [returned_append, h.once, h'.once, ← Multiset.coe_add, Multiset.add_comm]
  received hsound rest hlive := by
    rw [← Multiset.coe_add, Multiset.add_assoc] at hlive
    obtain ⟨hsound', hlive', hok⟩ := h.received hsound _ hlive
    obtain ⟨hsound'', hlive'', hok'⟩ := h'.received hsound' rest hlive'
    refine ⟨hsound'', hlive'', fun named status hmem => ?_⟩
    rcases List.mem_append.1 hmem with hmem | hmem
    · exact hok' named status hmem
    · exact hok named status hmem
  still hnil := by
    obtain ⟨hnil, hnil'⟩ := List.append_eq_nil_iff.1 hnil
    rw [h'.still hnil', h.still hnil]

/-- `release` gives back the region that it names. -/
lemma givesBack_release (named : Region) (m : Memory σ) :
    Ends (release named) m fun _ m' => ∃ events, GivesBack [named] events m m' := by
  refine ⟨[.released named (statusOf m.live named)], rfl, rfl, ?_, rfl, ?_, ?_⟩
  · intro event hmem
    exact .inr ⟨_, _, List.mem_singleton.1 hmem⟩
  · intro hsound rest hlive
    have hmem : named ∈ m.live := by
      rw [← Multiset.mem_coe, hlive]
      simp
    obtain ⟨hfind, herase⟩ := find?_live hsound.apart hsound.nonempty hmem
    have hmatches : named.Matches named := ⟨rfl, .inr rfl⟩
    have hstatus : statusOf m.live named = .ok := by
      unfold statusOf
      rw [hfind]
      simp [hmatches]
    have hafter : (release named m).2.live = m.live.erase named := herase
    refine ⟨⟨?_, ?_⟩, ?_, ?_⟩
    · rw [hafter]
      exact hsound.apart.sublist List.erase_sublist
    · rw [hafter]
      exact fun r hr => hsound.nonempty r (List.mem_of_mem_erase hr)
    · rw [hafter, ← Multiset.coe_erase, hlive, Multiset.coe_singleton, Multiset.singleton_add,
        Multiset.erase_cons_head]
    · intro other status hevent
      rw [← hstatus]
      exact (Event.released.inj (List.mem_singleton.1 hevent)).2
  · exact fun hnil => absurd hnil (List.cons_ne_nil named [])

/-- A `noteIf` before an action does not change what the action gives back. -/
lemma givesBack_noteIf_bind {report : Bool} {notice : Notice} {x : MemoryM σ Unit}
    (hx : ∀ m, Ends x m fun _ m' => ∃ events, GivesBack regions events m m') (m : Memory σ) :
    Ends (do noteIf report notice; x) m fun _ m' => ∃ events, GivesBack regions events m m' := by
  refine (quiet_noteIf report notice m).bind fun _ m₁ hquiet => (hx m₁).mono ?_
  rintro _ m₂ ⟨events', h'⟩
  obtain ⟨events, h⟩ := hquiet.givesBack
  exact ⟨_, h.trans h'⟩

end Memory

/-! ## Blocks -/

namespace Block

variable {σ : Type} {b : Block}

/-- For a block in order, the counter behind `isEmpty` is zero exactly if there is no slot. -/
lemma Ok.isEmpty_iff (hb : b.Ok) : b.isEmpty = true ↔ b.slots = [] := by
  refine ⟨hb.slots_eq_nil, fun hslots => hb.inOrder.isEmpty_iff.2 ?_⟩
  exact List.length_eq_zero_iff.2 (List.map_eq_nil_iff.1 hslots)

/-- `Block.giveBack` gives back the region of the block. -/
lemma givesBack_giveBack (b : Block) (m : Memory σ) :
    Ends b.giveBack m fun _ m' => ∃ events, Memory.GivesBack [b.region] events m m' := by
  unfold giveBack
  exact Memory.givesBack_noteIf_bind (Memory.givesBack_release b.region) m

end Block

/-! ## Groups -/

namespace Group

variable {g g' : Group}

/-- The blocks without slots, in the order of their addresses. -/
def slotless (g : Group) : List Block := g.blocks.values.filter (·.slots = [])

/-- Whether there is a block with a slot under an address. -/
def Occupied (g : Group) (base : Nat) : Prop :=
  ∃ b, g.blocks.find? base = some b ∧ b.slots ≠ []

instance (g : Group) (base : Nat) : Decidable (g.Occupied base) :=
  match h : g.blocks.find? base with
  | none => .isFalse fun ⟨_, hfind, _⟩ => Option.some_ne_none _ (hfind.symm.trans h)
  | some b =>
    if hslots : b.slots = [] then
      .isFalse fun ⟨_, hfind, hne⟩ => hne (Option.some.inj (h.symm.trans hfind) ▸ hslots)
    else .isTrue ⟨b, h, hslots⟩

/-- A group after compaction: the blocks with slots are there as they were, in `order` as they were
made, and `latest` is forgotten if that block is gone. -/
structure Compacted (g g' : Group) : Prop where
  name : g'.name = g.name
  blockSize : g'.blockSize = g.blockSize
  alignment : g'.alignment = g.alignment
  blocks {base : Nat} {b : Block} :
    g'.blocks.find? base = some b ↔ g.blocks.find? base = some b ∧ b.slots ≠ []
  order : g'.order = g.order.filter (g.Occupied ·)
  latest : g'.latest = g.latest.filter (g.Occupied ·)

/-- In a group in order, `emptyBlocks` are those without slots. -/
lemma Ok.emptyBlocks_eq (hg : g.Ok) : g.emptyBlocks = g.slotless := by
  unfold emptyBlocks slotless
  refine List.filter_congr fun b hb => ?_
  obtain ⟨base, hfind⟩ := Table.mem_values_iff.1 hb
  rw [Bool.eq_iff_iff, (hg.block hfind).2.isEmpty_iff, decide_eq_true_eq]

/-- `withoutEmpty` has a block exactly under the addresses that are `Occupied`. -/
lemma Ok.contains_withoutEmpty (hg : g.Ok) (base : Nat) :
    g.withoutEmpty.blocks.contains base = decide (g.Occupied base) := by
  unfold Table.contains withoutEmpty
  rw [Table.find?_filter, Bool.eq_iff_iff, decide_eq_true_eq, Option.isSome_iff_exists]
  refine exists_congr fun b => ?_
  rw [Option.filter_eq_some_iff]
  refine and_congr_right fun hfind => ?_
  rw [Bool.not_eq_true', ← Bool.not_eq_true, (hg.block hfind).2.isEmpty_iff]

/-- `withoutEmpty` is the group after compaction, as `Compacted` says. -/
lemma Ok.compacted (hg : g.Ok) : g.Compacted g.withoutEmpty where
  name := rfl
  blockSize := rfl
  alignment := rfl
  blocks {base b} := by
    unfold withoutEmpty
    rw [Table.find?_filter, Option.filter_eq_some_iff]
    refine and_congr_right fun hfind => ?_
    rw [Bool.not_eq_true', ← Bool.not_eq_true, (hg.block hfind).2.isEmpty_iff]
  order := List.filter_congr fun base _ => hg.contains_withoutEmpty base
  latest := congrArg (g.latest.filter ·) (funext hg.contains_withoutEmpty)

/-- The `memorySize` of a group is that of `withoutEmpty` and the bytes of `emptyBlocks`. -/
lemma memorySize_withoutEmpty (g : Group) :
    g.withoutEmpty.memorySize + total (g.emptyBlocks.map Block.capacity) = g.memorySize := by
  have hperm := (List.filter_append_perm (·.isEmpty) g.blocks.values).map Block.capacity
  have htotal : total _ = total _ := hperm.sum_eq
  rw [List.map_append, total_append, Nat.add_comm] at htotal
  unfold memorySize emptyBlocks withoutEmpty
  rw [Table.values_filter]
  exact htotal

lemma emptyBlocks_withoutEmpty (g : Group) : g.withoutEmpty.emptyBlocks = [] := by
  unfold emptyBlocks withoutEmpty
  rw [Table.values_filter, List.filter_filter]
  exact List.filter_eq_nil_iff.2 fun b _ => by simp

lemma withoutEmpty_withoutEmpty (g : Group) : g.withoutEmpty.withoutEmpty = g.withoutEmpty := by
  have hblocks : (g.blocks.filter fun _ b => !b.isEmpty).filter (fun _ b => !b.isEmpty) =
      g.blocks.filter fun _ b => !b.isEmpty := by
    refine Table.eq_of_find?_eq fun base => ?_
    rw [Table.find?_filter, Table.find?_filter, Option.filter_filter]
    simp only [Bool.and_self]
  unfold withoutEmpty
  simp only [hblocks, List.filter_filter, Bool.and_self, Option.filter_filter]

section Memory

variable {σ : Type}

/-- `removeAll` gives back the regions of the blocks, each of them once. -/
lemma givesBack_removeAll (name : String) (tracking : Tracking) (blocks : List Block)
    (m : Memory σ) :
    Ends (removeAll name tracking blocks) m fun _ m' =>
      ∃ events, Memory.GivesBack (blocks.map Block.region) events m m' := by
  induction blocks generalizing m with
  | nil => exact (Memory.Quiet.refl m).givesBack
  | cons b rest ih =>
    unfold removeAll
    refine Memory.givesBack_noteIf_bind (fun m => ?_) m
    refine (b.givesBack_giveBack m).bind fun _ m₁ h₁ => (ih m₁).mono fun _ m₂ h₂ => ?_
    obtain ⟨events, h₁⟩ := h₁
    obtain ⟨events', h₂⟩ := h₂
    exact ⟨_, h₁.trans h₂⟩

/-- `Group.compact` answers the bytes of `emptyBlocks`, leaves `withoutEmpty` and gives back the
regions of `emptyBlocks`. -/
lemma givesBack_compact [System σ] (g : Group) (tracking : Tracking) (m : Memory σ) :
    Ends (g.compact tracking) m fun out m' =>
      out = (total (g.emptyBlocks.map Block.capacity), g.withoutEmpty) ∧
        ∃ events, Memory.GivesBack (g.emptyBlocks.map Block.region) events m m' := by
  unfold compact
  exact (givesBack_removeAll g.name tracking g.emptyBlocks m).bind fun _ _ h => ⟨rfl, h⟩

end Memory

end Group

/-! ## Allocators -/

namespace Allocator

variable {a a' : Allocator} {bytes : Nat}

/-- `Group.slotless` of every group. -/
def slotless (a : Allocator) : List Block := a.groups.values.flatMap Group.slotless

/-- `Group.withoutEmpty` of every group. -/
def withoutEmpty (a : Allocator) : Allocator :=
  { a with groups := a.groups.mapValues Group.withoutEmpty }

/-- An allocator after compaction, each group `Compacted`, with the answer how many `bytes` went
back. -/
structure Compacted (a a' : Allocator) (bytes : Nat) : Prop where
  /-- No group is gone, and in each of them the blocks with slots are left. -/
  groups : a'.groups.keys = a.groups.keys ∧ ∀ affinity g, a.groups.find? affinity = some g →
    ∃ g', a'.groups.find? affinity = some g' ∧ g.Compacted g'
  /-- All that is not in a group stays. -/
  others : { a' with groups := a.groups } = a
  slots : a'.slots = a.slots
  reserved : a'.reserved = a.reserved
  freed : bytes = total (a.slotless.map Block.capacity)
  memorySize : a.memorySize = a'.memorySize + bytes

lemma Ok.slotless_eq (ha : a.Ok) : a.groups.values.flatMap Group.emptyBlocks = a.slotless := by
  unfold slotless
  rw [List.flatMap_def, List.flatMap_def]
  refine congrArg List.flatten (List.map_congr_left fun g hg => ?_)
  obtain ⟨affinity, hfind⟩ := Table.mem_values_iff.1 hg
  exact (ha.group hfind).emptyBlocks_eq

/-- `withoutEmpty` keeps `a.Ok` and `a.slots`. -/
lemma Ok.withoutEmpty (ha : a.Ok) : a.withoutEmpty.Ok ∧ a.withoutEmpty.slots = a.slots := by
  have hgroup : ∀ g : Group, g.Ok → g.withoutEmpty.Ok ∧ g.withoutEmpty.slots = g.slots := by
    intro g hg
    obtain ⟨hok, -, hslots⟩ := Group.withoutEmpty_spec hg
    exact ⟨hok, hslots⟩
  obtain ⟨hok, -, hslots⟩ := ha.mapValues a.withoutEmpty rfl hgroup
  exact ⟨hok, hslots⟩

/-- `withoutEmpty` is the allocator after compaction, as `Compacted` says. -/
lemma Ok.compacted (ha : a.Ok) :
    a.Compacted a.withoutEmpty (total (a.slotless.map Block.capacity)) := by
  obtain ⟨hok, hslots⟩ := ha.withoutEmpty
  refine ⟨⟨Table.keys_mapValues .., fun affinity g hfind => ?_⟩, rfl, hslots, ?_, rfl, ?_⟩
  · refine ⟨g.withoutEmpty, ?_, (ha.group hfind).compacted⟩
    unfold Allocator.withoutEmpty
    rw [Table.find?_mapValues, hfind, Option.map_some]
  · rw [hok.reserved_eq, ha.reserved_eq, hslots]
  · rw [← ha.slotless_eq, total_map_flatMap]
    unfold memorySize Allocator.withoutEmpty
    rw [Table.values_mapValues, List.map_map]
    exact (total_map_add fun g _ => g.memorySize_withoutEmpty).symm

/-- `withoutEmpty` leaves no block without slots. -/
lemma Ok.slotless_withoutEmpty (ha : a.Ok) : a.withoutEmpty.slotless = [] := by
  rw [← ha.withoutEmpty.1.slotless_eq, List.flatMap_eq_nil_iff]
  unfold Allocator.withoutEmpty
  rw [Table.values_mapValues]
  intro g hg
  obtain ⟨g, -, rfl⟩ := List.mem_map.1 hg
  exact g.emptyBlocks_withoutEmpty

/-- `Allocator.withoutEmpty` is idempotent. -/
lemma withoutEmpty_withoutEmpty (a : Allocator) :
    a.withoutEmpty.withoutEmpty = a.withoutEmpty := by
  unfold Allocator.withoutEmpty
  simp only [Table.mapValues_mapValues, Group.withoutEmpty_withoutEmpty]

/-- `a.regions` are the regions of `a.slotless` and those of `a.withoutEmpty`. -/
lemma Ok.regions_withoutEmpty (ha : a.Ok) :
    a.regions = ((a.slotless.map Block.region : List Region) : Multiset Region) +
      a.withoutEmpty.regions := by
  have hsplit : a.regions = (a.groups.values : Multiset Group).bind fun g =>
      ((g.emptyBlocks.map Block.region : List Region) : Multiset Region) +
        g.withoutEmpty.regions := by
    unfold regions
    refine Multiset.bind_congr fun g hg => ?_
    obtain ⟨affinity, hfind⟩ := Table.mem_values_iff.1 hg
    rw [(Group.withoutEmpty_spec (ha.group hfind)).2.1, Multiset.map_coe]
  have hleft : a.withoutEmpty.regions =
      (a.groups.values : Multiset Group).bind fun g => g.withoutEmpty.regions := by
    unfold Allocator.withoutEmpty regions
    rw [Table.values_mapValues, ← Multiset.map_coe, Multiset.bind_map]
  rw [hsplit, Multiset.bind_add, hleft, ← ha.slotless_eq, List.map_flatMap, ← Multiset.coe_bind]

/-- `Routed` survives `withoutEmpty`. -/
lemma Routed.withoutEmpty (ha : a.Routed) (hok : a.Ok) : a.withoutEmpty.Routed := by
  have hblock : ∀ {affinity key b}, a.withoutEmpty.block? affinity key = some b →
      a.block? affinity key = some b := by
    intro affinity key b hb
    obtain ⟨g', hg', hfind'⟩ := Option.bind_eq_some_iff.1 hb
    unfold Allocator.withoutEmpty at hg'
    rw [Table.find?_mapValues, Option.map_eq_some_iff] at hg'
    obtain ⟨g, hg, rfl⟩ := hg'
    exact (block?_of_find? hg key).trans (((hok.group hg).compacted.blocks).1 hfind').1
  have hapart := ha.apart
  rw [hok.regions_withoutEmpty, Multiset.add_comm] at hapart
  exact ⟨⟨fun hb => ha.keyed (hblock hb), Region.pairwise_of_add hapart⟩,
    fun hb => ha.ok (hblock hb)⟩

/-- The books of a `Routed` allocator are in order. -/
theorem Routed.books (ha : a.Routed) : a.Ok where
  group hfind := ⟨fun hb =>
    have hblock := (block?_of_find? hfind _).trans hb
    ⟨ha.keyed hblock, ha.ok hblock⟩⟩

section Memory

variable {σ : Type} [System σ]

/-- `compactAll` answers the bytes of all empty blocks of `entries` and gives back their regions. -/
lemma givesBack_compactAll (tracking : Tracking) (entries : List (Affinity × Group))
    (m : Memory σ) :
    Ends (compactAll tracking entries) m fun bytes m' =>
      bytes = total (((entries.map (·.2)).flatMap Group.emptyBlocks).map Block.capacity) ∧
        ∃ events, Memory.GivesBack
          (((entries.map (·.2)).flatMap Group.emptyBlocks).map Block.region) events m m' := by
  induction entries generalizing m with
  | nil => exact ⟨rfl, (Memory.Quiet.refl m).givesBack⟩
  | cons e rest ih =>
    unfold compactAll
    refine (e.2.givesBack_compact tracking m).bind ?_
    rintro ⟨bytes, g'⟩ m₁ ⟨hout, events, h₁⟩
    obtain ⟨rfl, rfl⟩ := Prod.mk.inj hout
    refine (ih m₁).bind ?_
    rintro more m₂ ⟨rfl, events', h₂⟩
    rw [List.map_cons, List.flatMap_cons, List.map_append, List.map_append, total_append]
    exact ⟨rfl, _, h₁.trans h₂⟩

/-- `Allocator.compact` answers the bytes of `a.slotless`, leaves `a.withoutEmpty` and gives back
the regions of `a.slotless`. -/
lemma Ok.ends_compact (ha : a.Ok) (m : Memory σ) :
    Ends a.compact m fun out m' =>
      out = (total (a.slotless.map Block.capacity), a.withoutEmpty) ∧
        ∃ events, Memory.GivesBack (a.slotless.map Block.region) events m m' := by
  unfold compact
  refine (givesBack_compactAll a.tracking a.groups.entries m).bind ?_
  rintro bytes m₁ ⟨rfl, events, h₁⟩
  have hslotless : (a.groups.entries.map (·.2)).flatMap Group.emptyBlocks = a.slotless :=
    ha.slotless_eq
  rw [hslotless] at h₁ ⊢
  refine (Memory.quiet_noteIf _ _ m₁).bind fun _ m₂ hquiet => ⟨rfl, ?_⟩
  obtain ⟨events', h₂⟩ := hquiet.givesBack
  have hboth := h₁.trans h₂
  rw [List.append_nil] at hboth
  exact ⟨_, hboth⟩

end Memory

end Allocator

end BlockPool
