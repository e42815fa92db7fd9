import BlockPool.Proofs.Allocator
import BlockPool.World.Basic

/-!
# Parcels

A parcel is a piece of memory in use: a slot in the pool of some allocator, or a region that a heap
got from the system for it. A world keeps a collection of parcels if these account for all of its
slots, and if its blocks together with the parcels of heaps account for all live regions.

No memory belongs to two parcels then, and the pool that a parcel is from is the only one that
owns its address.
-/

namespace BlockPool

/-! ## Pairs in a collection of collections -/

/-- Two members of a `Multiset.bind` come from one member or from two different ones. -/
lemma pair_of_bind {α β : Type} {s : Multiset α} {f : α → Multiset β} {x y : β}
    {rest : Multiset β} (h : s.bind f = x ::ₘ y ::ₘ rest) :
    (∃ a ∈ s, ∃ others, f a = x ::ₘ y ::ₘ others) ∨
      ∃ a b others, s = a ::ₘ b ::ₘ others ∧ x ∈ f a ∧ y ∈ f b := by
  have hx : x ∈ s.bind f := by
    rw [h]
    exact Multiset.mem_cons_self ..
  obtain ⟨a, ha, hxa⟩ := Multiset.mem_bind.1 hx
  obtain ⟨s', rfl⟩ := Multiset.exists_cons_of_mem ha
  obtain ⟨fa, hfa⟩ := Multiset.exists_cons_of_mem hxa
  -- with the first taken out, the second is in what is left there or in another collection
  rw [Multiset.cons_bind, hfa, Multiset.cons_add] at h
  have hy : y ∈ fa + s'.bind f := by
    rw [(Multiset.cons_inj_right x).1 h]
    exact Multiset.mem_cons_self ..
  rcases Multiset.mem_add.1 hy with hy | hy
  · obtain ⟨others, rfl⟩ := Multiset.exists_cons_of_mem hy
    exact .inl ⟨a, ha, others, hfa⟩
  · obtain ⟨b, hb, hyb⟩ := Multiset.mem_bind.1 hy
    obtain ⟨others, rfl⟩ := Multiset.exists_cons_of_mem hb
    exact .inr ⟨a, b, others, rfl, hxa, hyb⟩

/-- Any two of some extents are `Apart`. -/
def AllApart (extents : Multiset Extent) : Prop :=
  ∀ x y rest, extents = x ::ₘ y ::ₘ rest → x.Apart y

lemma allApart_coe_iff {extents : List Extent} :
    AllApart (extents : Multiset Extent) ↔ extents.Pairwise Extent.Apart := by
  constructor
  · intro h
    induction extents with
    | nil => exact List.Pairwise.nil
    | cons x rest ih =>
      refine List.pairwise_cons.2 ⟨fun y hy => ?_, ih fun y z others hrest => ?_⟩
      · obtain ⟨others, hothers⟩ := Multiset.exists_cons_of_mem (Multiset.mem_coe.2 hy)
        exact h x y others (by rw [← Multiset.cons_coe, hothers])
      · refine h y z (x ::ₘ others) ?_
        rw [← Multiset.cons_coe, hrest, Multiset.cons_swap x y, Multiset.cons_swap x z]
  · intro h x y rest heq
    obtain ⟨others, rfl⟩ := Quot.exists_rep rest
    have hperm : extents.Perm (x :: y :: others) := Multiset.coe_eq_coe.1 heq
    have hpair := hperm.pairwise h fun {_ _} => Extent.apart_comm.1
    exact (List.pairwise_cons.1 hpair).1 y (List.mem_cons_self ..)

/-- A `Multiset.bind` is `AllApart` if each part is and no two parts meet. -/
lemma AllApart.bind {α : Type} {s : Multiset α} {f : α → Multiset Extent}
    (heach : ∀ a ∈ s, AllApart (f a))
    (hpair : ∀ a b rest, s = a ::ₘ b ::ₘ rest → ∀ x ∈ f a, ∀ y ∈ f b, x.Apart y) :
    AllApart (s.bind f) := by
  intro x y rest h
  rcases pair_of_bind h with ⟨a, ha, others, hfa⟩ | ⟨a, b, others, hs, hx, hy⟩
  · exact heach a ha x y others hfa
  · exact hpair a b others hs x hx y hy

/-! ## Slots are apart -/

section Slots

variable {σ : Type} {m : Memory σ} {held : Multiset Region}

/-- Of regions that a memory `Keeps`, those from different parts are disjoint. -/
lemma Memory.Keeps.disjoint_of_mem {s s' : Multiset Region} (h : m.Keeps (s + (s' + held)))
    {r r' : Region} (hr : r ∈ s) (hr' : r' ∈ s') : r.Disjoint r' := by
  obtain ⟨others, rfl⟩ := Multiset.exists_cons_of_mem hr
  obtain ⟨others', rfl⟩ := Multiset.exists_cons_of_mem hr'
  apply h.disjoint
  rw [Multiset.cons_add, Multiset.cons_add, Multiset.add_cons]

/-- Extents that lie in different parts of what a memory `Keeps` do not meet. -/
lemma Memory.Keeps.apart_of_within {s s' : Multiset Region} (h : m.Keeps (s + (s' + held)))
    {x y : Extent} (hx : ∃ r ∈ s, x.Within r) (hy : ∃ r ∈ s', y.Within r) : x.Apart y := by
  obtain ⟨r, hr, hxr⟩ := hx
  obtain ⟨r', hr', hyr'⟩ := hy
  exact Extent.apart_of_disjoint hxr hyr' (h.disjoint_of_mem hr hr')

/-- Each of `g.slots` lies in one of `g.regions`. -/
lemma Group.Ok.slot_within {g : Group} (hg : g.Ok) {x : Extent} (hx : x ∈ g.slots) :
    ∃ r ∈ g.regions, x.Within r := by
  obtain ⟨key, b, hfind, hx⟩ := Group.mem_slots_iff.1 hx
  exact ⟨b.region, Group.region_mem hfind, (hg.block hfind).2.slot_within hx⟩

/-- The slots of a group are `AllApart`. -/
lemma Group.Ok.slots_apart {g : Group} (hg : g.Ok) (h : m.Keeps (g.regions + held)) :
    AllApart g.slots := by
  have hblock : ∀ b ∈ (g.blocks.values : Multiset Block), b.Ok := by
    intro b hb
    obtain ⟨key, hfind⟩ := Table.mem_values_iff.1 hb
    exact (hg.block hfind).2
  refine AllApart.bind (fun b hb => allApart_coe_iff.2 (hblock b hb).slots_apart) ?_
  intro b b' rest hs x hx y hy
  have hb : b.Ok := hblock b (by simp [hs])
  have hb' : b'.Ok := hblock b' (by simp [hs])
  have hdisjoint : b.region.Disjoint b'.region := by
    apply h.disjoint
    rw [Group.regions, hs, Multiset.map_cons, Multiset.map_cons, Multiset.cons_add,
      Multiset.cons_add]
  exact Extent.apart_of_disjoint (hb.slot_within hx) (hb'.slot_within hy) hdisjoint

/-- Each of `a.slots` lies in one of `a.regions`. -/
lemma Allocator.Ok.slot_within {a : Allocator} (ha : a.Ok) {x : Extent} (hx : x ∈ a.slots) :
    ∃ r ∈ a.regions, x.Within r := by
  obtain ⟨affinity, g, hfind, hx⟩ := Allocator.mem_slots_iff.1 hx
  obtain ⟨r, hr, hwithin⟩ := (ha.group hfind).slot_within hx
  exact ⟨r, Multiset.mem_bind.2 ⟨g, Table.mem_values_iff.2 ⟨affinity, hfind⟩, hr⟩, hwithin⟩

/-- The slots of an allocator are `AllApart`. -/
lemma Allocator.Ok.slots_apart {a : Allocator} (ha : a.Ok) (h : m.Keeps (a.regions + held)) :
    AllApart a.slots := by
  have hgroup : ∀ g ∈ (a.groups.values : Multiset Group), g.Ok := by
    intro g hg
    obtain ⟨affinity, hfind⟩ := Table.mem_values_iff.1 hg
    exact ha.group hfind
  refine AllApart.bind (fun g hg => ?_) ?_
  · obtain ⟨rest, hrest⟩ := Multiset.exists_cons_of_mem hg
    rw [Allocator.regions, hrest, Multiset.cons_bind, Multiset.add_assoc] at h
    exact (hgroup g hg).slots_apart h
  · intro g g' rest hs x hx y hy
    rw [Allocator.regions, hs, Multiset.cons_bind, Multiset.cons_bind, Multiset.add_assoc,
      Multiset.add_assoc] at h
    exact h.apart_of_within ((hgroup g (by simp [hs])).slot_within hx)
      ((hgroup g' (by simp [hs])).slot_within hy)

end Slots

/-! ## The allocators of a world -/

/-- `List.zipIdx` of a list in which one member is replaced. -/
lemma exists_zipIdx_perm {α : Type} {l : List α} {i : Nat} {x : α} (h : l[i]? = some x)
    (k : Nat) : ∃ rest, (l.zipIdx k).Perm ((x, k + i) :: rest) ∧
      ∀ y, ((l.set i y).zipIdx k).Perm ((y, k + i) :: rest) := by
  induction l generalizing i k with
  | nil => exact absurd h (by simp)
  | cons z zs ih =>
    cases i with
    | zero =>
      obtain rfl : z = x := Option.some.inj h
      exact ⟨zs.zipIdx (k + 1), List.Perm.refl _, fun y => List.Perm.refl _⟩
    | succ i =>
      obtain ⟨rest, hperm, hset⟩ := ih (i := i) h (k + 1)
      have hk : k + 1 + i = k + (i + 1) := by omega
      rw [hk] at hperm hset
      refine ⟨(z, k) :: rest, ?_, fun y => ?_⟩
      · exact (hperm.cons (z, k)).trans (List.Perm.swap ..)
      · exact ((hset y).cons (z, k)).trans (List.Perm.swap ..)

namespace World

variable {σ : Type} {w : World σ}

/-- The allocators with their numbers. -/
def numbered (w : World σ) : Multiset (Allocator × Nat) := w.allocators.zipIdx

/-- The regions of all blocks: `Allocator.regions` of every allocator. -/
def regions (w : World σ) : Multiset Region := w.numbered.bind fun e => e.1.regions

/-- The slots of all blocks: `Allocator.slots` of every allocator, each with its number. -/
def slots (w : World σ) : Multiset (Nat × Extent) :=
  w.numbered.bind fun e => e.1.slots.map (Prod.mk e.2)

/-- The world with another allocator in the place of one, and another memory. -/
def update (w : World σ) (id : Nat) (a : Allocator) (m : Memory σ) : World σ :=
  { w with memory := m, allocators := w.allocators.set id a }

/-- `w.numbered` has each allocator with its number. -/
lemma mem_numbered_iff {a : Allocator} {id : Nat} :
    (a, id) ∈ w.numbered ↔ w.allocator? id = some a := by
  unfold numbered allocator?
  rw [Multiset.mem_coe, List.mem_zipIdx_iff_getElem?]

/-- `w.slots` are those of the allocators. -/
lemma mem_slots_iff {id : Nat} {x : Extent} :
    (id, x) ∈ w.slots ↔ ∃ a, w.allocator? id = some a ∧ x ∈ a.slots := by
  unfold slots
  rw [Multiset.mem_bind]
  constructor
  · rintro ⟨⟨a, i⟩, ha, hx⟩
    obtain ⟨y, hy, heq⟩ := Multiset.mem_map.1 hx
    obtain ⟨rfl, rfl⟩ := Prod.mk.inj heq
    exact ⟨a, mem_numbered_iff.1 ha, hy⟩
  · rintro ⟨a, ha, hx⟩
    exact ⟨(a, id), mem_numbered_iff.2 ha, Multiset.mem_map_of_mem _ hx⟩

lemma mem_regions_iff {r : Region} :
    r ∈ w.regions ↔ ∃ id a, w.allocator? id = some a ∧ r ∈ a.regions := by
  unfold regions
  rw [Multiset.mem_bind]
  constructor
  · rintro ⟨⟨a, id⟩, ha, hr⟩
    exact ⟨id, a, mem_numbered_iff.1 ha, hr⟩
  · rintro ⟨id, a, ha, hr⟩
    exact ⟨(a, id), mem_numbered_iff.2 ha, hr⟩

/-- A world of `Bare` allocators has no regions. -/
lemma regions_of_bare (h : ∀ a ∈ w.allocators, a.Bare) : w.regions = 0 := by
  refine Multiset.eq_zero_of_forall_notMem fun r hr => ?_
  obtain ⟨id, a, ha, hr⟩ := mem_regions_iff.1 hr
  rw [(h a (List.mem_of_getElem? ha)).regions] at hr
  exact Multiset.notMem_zero r hr

lemma slots_of_bare (h : ∀ a ∈ w.allocators, a.Bare) : w.slots = 0 := by
  refine Multiset.eq_zero_of_forall_notMem fun x hx => ?_
  obtain ⟨a, ha, hx⟩ := mem_slots_iff.1 hx
  rw [(h a (List.mem_of_getElem? ha)).slots] at hx
  exact Multiset.notMem_zero _ hx

/-- `update` replaces one of `w.numbered`. -/
lemma exists_others {id : Nat} {a : Allocator} (h : w.allocator? id = some a) :
    ∃ rest, w.numbered = (a, id) ::ₘ rest ∧
      ∀ a' m', (w.update id a' m').numbered = (a', id) ::ₘ rest := by
  obtain ⟨rest, hperm, hset⟩ := exists_zipIdx_perm h 0
  rw [Nat.zero_add] at hperm hset
  exact ⟨rest, Multiset.coe_eq_coe.2 hperm, fun a' _ => Multiset.coe_eq_coe.2 (hset a')⟩

/-- After `update`, the allocator of that number is the new one. -/
lemma allocator?_update {id j : Nat} {a' : Allocator} {m' : Memory σ} {a : Allocator}
    (h : w.allocator? id = some a) :
    (w.update id a' m').allocator? j = if j = id then some a' else w.allocator? j := by
  have hlt : id < w.allocators.length := (List.getElem?_eq_some_iff.1 h).1
  unfold update allocator?
  rw [List.getElem?_set]
  by_cases hj : id = j
  · subst hj
    simp [hlt]
  · simp [hj, Ne.symm hj]

end World

/-! ## Parcels -/

/-- Where memory in use is from. -/
inductive Home where
  /-- A slot of an allocator. -/
  | pool (id : Nat)
  /-- A region of its own. -/
  | heap (h : Heap)
deriving DecidableEq

/-- A piece of memory in use, from some `Home`. -/
structure Parcel where
  home : Home
  address : Nat
  size : Nat
deriving DecidableEq

namespace Parcel

/-- The addresses of a parcel, as `Tracker.slotSize` has them: at least one, even if nothing was
asked for. -/
def extent (x : Parcel) : Extent := ⟨x.address, Tracker.slotSize x.size⟩

/-- The slot of a parcel that is from a pool. -/
def slots (x : Parcel) : Multiset (Nat × Extent) :=
  match x.home with
  | .pool id => {(id, x.extent)}
  | .heap _ => 0

/-- The region of a parcel that is from a heap, by `Heap.regionAt`. -/
def regions (x : Parcel) : Multiset Region :=
  match x.home with
  | .pool _ => 0
  | .heap h => {h.regionAt x.address x.size}

/-- A parcel that its heap `Accepts` back. -/
def Accepted (x : Parcel) : Prop :=
  match x.home with
  | .pool _ => True
  | .heap h => h.Accepts x.size

/-- A parcel from a heap lies in `Heap.regionAt` its address. -/
lemma extent_within_region {h : Heap} {address size : Nat} :
    (Parcel.mk (.heap h) address size).extent.Within (h.regionAt address size) := by
  have hsize : (h.layoutFor size).size = Tracker.slotSize size := h.layoutFor_size size
  show address ≤ address ∧ address + Tracker.slotSize size ≤ address + (h.layoutFor size).size
  omega

section Totals

variable {parcels : Multiset Parcel} {address size : Nat}

/-- A parcel from a pool has one slot. -/
lemma bind_slots_pool {id : Nat} :
    (⟨.pool id, address, size⟩ ::ₘ parcels).bind slots =
      (id, ⟨address, Tracker.slotSize size⟩) ::ₘ parcels.bind slots :=
  Multiset.cons_bind ..

lemma bind_regions_pool {id : Nat} :
    (⟨.pool id, address, size⟩ ::ₘ parcels).bind regions = parcels.bind regions :=
  (Multiset.cons_bind ..).trans (Multiset.zero_add _)

lemma bind_slots_heap {h : Heap} :
    (⟨.heap h, address, size⟩ ::ₘ parcels).bind slots = parcels.bind slots :=
  (Multiset.cons_bind ..).trans (Multiset.zero_add _)

/-- A parcel from a heap has one region. -/
lemma bind_regions_heap {h : Heap} :
    (⟨.heap h, address, size⟩ ::ₘ parcels).bind regions =
      h.regionAt address size ::ₘ parcels.bind regions :=
  Multiset.cons_bind ..

end Totals

end Parcel

namespace World

variable {σ : Type} {w : World σ} {parcels : Multiset Parcel}

/-- The `parcels` account for all memory in use: their slots are `w.slots`, and the memory `Keeps`
their regions beside those of blocks. -/
structure Keeps (w : World σ) (parcels : Multiset Parcel) : Prop where
  ok {id : Nat} {a : Allocator} : w.allocator? id = some a → a.Ok
  memory : w.memory.Keeps (w.regions + parcels.bind Parcel.regions)
  slots : w.slots = parcels.bind Parcel.slots
  accepted : ∀ x ∈ parcels, x.Accepted

/-- What a world `Keeps` of one allocator apart from the rest, and how the world is put together
again by `update`. -/
lemma Keeps.focus (h : w.Keeps parcels) {id : Nat} {a : Allocator}
    (ha : w.allocator? id = some a) :
    ∃ (held : Multiset Region) (others : Multiset (Nat × Extent)),
      w.memory.Keeps (a.regions + held) ∧
      parcels.bind Parcel.slots = a.slots.map (Prod.mk id) + others ∧
      ∀ {a' : Allocator} {m' : Memory σ} {parcels' : Multiset Parcel}, a'.Ok →
        m'.Keeps (a'.regions + held) →
        parcels'.bind Parcel.regions = parcels.bind Parcel.regions →
        parcels'.bind Parcel.slots = a'.slots.map (Prod.mk id) + others →
        (∀ x ∈ parcels', x.Accepted) → (w.update id a' m').Keeps parcels' := by
  obtain ⟨rest, hnumbered, hupdate⟩ := exists_others ha
  refine ⟨rest.bind (fun e => e.1.regions) + parcels.bind Parcel.regions,
    rest.bind fun e => e.1.slots.map (Prod.mk e.2), ?_, ?_, ?_⟩
  · have hmemory := h.memory
    rwa [World.regions, hnumbered, Multiset.cons_bind, Multiset.add_assoc] at hmemory
  · rw [← h.slots, World.slots, hnumbered, Multiset.cons_bind]
  · intro a' m' parcels' hok hmemory hregions hslots haccepted
    refine ⟨?_, ?_, ?_, haccepted⟩
    · intro j b hb
      rw [allocator?_update ha] at hb
      split at hb
      · rwa [← Option.some.inj hb]
      · exact h.ok hb
    · rw [World.regions, hupdate a' m', Multiset.cons_bind, hregions, Multiset.add_assoc]
      exact hmemory
    · rw [World.slots, hupdate a' m', Multiset.cons_bind, hslots]

/-! ## Whose an address is -/

/-- The slot of a parcel from a pool is one of its allocator. -/
lemma Keeps.slot_mem (h : w.Keeps parcels) {x : Parcel} (hx : x ∈ parcels) {id : Nat}
    (hhome : x.home = .pool id) : ∃ a, w.allocator? id = some a ∧ x.extent ∈ a.slots := by
  apply mem_slots_iff.1
  rw [h.slots]
  refine Multiset.mem_bind.2 ⟨x, hx, ?_⟩
  unfold Parcel.slots
  rw [hhome]
  exact Multiset.mem_singleton_self _

/-- An allocator `owns` the address of a parcel only if the parcel is from its pool. -/
lemma Keeps.home_of_owns (h : w.Keeps parcels) {x : Parcel} (hx : x ∈ parcels) {id : Nat}
    {a : Allocator} (ha : w.allocator? id = some a) (howns : a.owns x.address = true) :
    x.home = .pool id := by
  obtain ⟨r, hr, hin⟩ := Allocator.exists_region_of_owns howns
  obtain ⟨rest, hnumbered, -⟩ := exists_others ha
  have hmemory := h.memory
  rw [World.regions, hnumbered, Multiset.cons_bind, Multiset.add_assoc] at hmemory
  -- if the parcel were from elsewhere, its address would be in another region as well
  suffices hother : x.home ≠ .pool id →
      ∃ r' ∈ rest.bind (fun e => e.1.regions) + parcels.bind Parcel.regions,
        r'.Contains x.address by
    by_contra hne
    obtain ⟨r', hr', hin'⟩ := hother hne
    rw [← Multiset.add_zero (_ + Multiset.bind _ Parcel.regions)] at hmemory
    exact absurd hin' ((hmemory.disjoint_of_mem hr hr').not_contains hin)
  intro hne
  have hcontains : ∀ {r' : Region}, x.extent.Within r' → r'.Contains x.address := by
    rintro r' ⟨hstart, hstop⟩
    have hpos := Tracker.slotSize_pos x.size
    exact ⟨hstart, Nat.lt_of_lt_of_le (Nat.lt_add_of_pos_right hpos) hstop⟩
  rcases hhome : x.home with j | heap
  · obtain ⟨b, hb, hslot⟩ := h.slot_mem hx hhome
    obtain ⟨r', hr', hwithin⟩ := (h.ok hb).slot_within hslot
    have hmem : (b, j) ∈ rest := by
      have := mem_numbered_iff.2 hb
      rw [hnumbered] at this
      refine (Multiset.mem_cons.1 this).resolve_left fun heq => hne ?_
      rw [hhome, (Prod.mk.inj heq).2]
    exact ⟨r', Multiset.mem_add.2 (.inl (Multiset.mem_bind.2 ⟨(b, j), hmem, hr'⟩)),
      hcontains hwithin⟩
  · refine ⟨heap.regionAt x.address x.size, ?_, hcontains ?_⟩
    · refine Multiset.mem_add.2 (.inr (Multiset.mem_bind.2 ⟨x, hx, ?_⟩))
      unfold Parcel.regions
      rw [hhome]
      exact Multiset.mem_singleton_self _
    · exact Parcel.extent_within_region

/-- An allocator `owns` the address of each parcel from its pool. -/
lemma Keeps.owns_of_home [System σ] (h : w.Keeps parcels) {x : Parcel} (hx : x ∈ parcels)
    {id : Nat} {a : Allocator} (ha : w.allocator? id = some a) (hhome : x.home = .pool id) :
    a.owns x.address = true := by
  obtain ⟨b, hb, hslot⟩ := h.slot_mem hx hhome
  rw [ha] at hb
  obtain rfl := Option.some.inj hb
  obtain ⟨held, -, hmemory, -⟩ := h.focus ha
  exact Allocator.owns_of_slot (h.ok ha) hmemory hslot

/-! ## Parcels are apart -/

/-- Any two of `w.slots` are apart, be they of the same allocator or not. -/
lemma Keeps.slots_apart (h : w.Keeps parcels) {i j : Nat} {x y : Extent}
    {rest : Multiset (Nat × Extent)} (hslots : w.slots = (i, x) ::ₘ (j, y) ::ₘ rest) :
    x.Apart y := by
  have hmemory := h.memory
  unfold World.regions at hmemory
  rcases pair_of_bind hslots with
    ⟨⟨a, k⟩, ha, others, hpair⟩ | ⟨⟨a, k⟩, ⟨b, k'⟩, others, hpair, hx, hy⟩
  · -- two slots of one allocator
    have hsame : a.slots = x ::ₘ y ::ₘ others.map Prod.snd := by
      have := congrArg (Multiset.map Prod.snd) hpair
      rwa [Multiset.map_map, Multiset.map_cons, Multiset.map_cons, Function.comp_def,
        Multiset.map_id'] at this
    obtain ⟨rest', hrest⟩ := Multiset.exists_cons_of_mem ha
    rw [hrest, Multiset.cons_bind, Multiset.add_assoc] at hmemory
    exact (h.ok (mem_numbered_iff.1 ha)).slots_apart hmemory x y _ hsame
  · -- slots of two allocators, each in regions of its own
    obtain ⟨x', hx', heq⟩ := Multiset.mem_map.1 hx
    obtain ⟨y', hy', heq'⟩ := Multiset.mem_map.1 hy
    obtain ⟨-, rfl⟩ := Prod.mk.inj heq
    obtain ⟨-, rfl⟩ := Prod.mk.inj heq'
    have hak : (a, k) ∈ w.numbered := by simp [hpair]
    have hbk : (b, k') ∈ w.numbered := by simp [hpair]
    have ha := h.ok (mem_numbered_iff.1 hak)
    have hb := h.ok (mem_numbered_iff.1 hbk)
    rw [hpair, Multiset.cons_bind, Multiset.cons_bind, Multiset.add_assoc,
      Multiset.add_assoc] at hmemory
    exact hmemory.apart_of_within (ha.slot_within hx') (hb.slot_within hy')

/-- A parcel lies in one of `w.regions`, or in its own region. -/
lemma Keeps.extent_within (h : w.Keeps parcels) {x : Parcel} (hx : x ∈ parcels) :
    match x.home with
    | .pool _ => ∃ r ∈ w.regions, x.extent.Within r
    | .heap _ => ∃ r ∈ x.regions, x.extent.Within r := by
  obtain ⟨id | heap, address, size⟩ := x
  · obtain ⟨a, ha, hslot⟩ := h.slot_mem hx rfl
    obtain ⟨r, hr, hwithin⟩ := (h.ok ha).slot_within hslot
    exact ⟨r, mem_regions_iff.2 ⟨id, a, ha, hr⟩, hwithin⟩
  · exact ⟨_, Multiset.mem_singleton_self _, Parcel.extent_within_region⟩

/-- A parcel lies in a region that is live. -/
lemma Keeps.within_live (h : w.Keeps parcels) {x : Parcel} (hx : x ∈ parcels) :
    ∃ r ∈ w.memory.live, x.extent.Within r := by
  have hwithin := h.extent_within hx
  split at hwithin
  · obtain ⟨r, hr, hwithin⟩ := hwithin
    exact ⟨r, h.memory.mem_live.2 (Multiset.mem_add.2 (.inl hr)), hwithin⟩
  · obtain ⟨r, hr, hwithin⟩ := hwithin
    have hmem : r ∈ parcels.bind Parcel.regions := Multiset.mem_bind.2 ⟨x, hx, hr⟩
    exact ⟨r, h.memory.mem_live.2 (Multiset.mem_add.2 (.inr hmem)), hwithin⟩

/-- Two parcels are apart, wherever they are from. -/
lemma Keeps.apart {x y : Parcel} {rest : Multiset Parcel} (h : w.Keeps (x ::ₘ y ::ₘ rest)) :
    x.extent.Apart y.extent := by
  have hx := h.extent_within (Multiset.mem_cons_self x _)
  have hy := h.extent_within (Multiset.mem_cons_of_mem (Multiset.mem_cons_self y rest))
  have hslots := h.slots
  have hmemory := h.memory
  rw [Multiset.cons_bind, Multiset.cons_bind] at hslots hmemory
  -- only two slots can share a region; of all others, one has a region that nothing else lies in
  rcases hhome : x.home with i | heap <;> rcases hhome' : y.home with j | heap'
  · unfold Parcel.slots at hslots
    rw [hhome, hhome'] at hslots
    exact h.slots_apart hslots
  · rw [hhome] at hx
    rw [hhome'] at hy
    rw [add_left_comm x.regions] at hmemory
    exact hmemory.apart_of_within hx hy
  · rw [hhome] at hx
    rw [hhome'] at hy
    rw [add_left_comm w.regions] at hmemory
    exact hmemory.apart_of_within hx hy
  · rw [hhome] at hx
    rw [hhome'] at hy
    rw [add_left_comm w.regions, add_left_comm w.regions] at hmemory
    exact hmemory.apart_of_within hx hy

lemma Keeps.extents_apart (h : w.Keeps parcels) : AllApart (parcels.map Parcel.extent) := by
  -- each parcel is a collection of one, so that only pairs of different parcels are left
  rw [← Multiset.bind_singleton]
  refine AllApart.bind (fun x _ => ?_) ?_
  · intro y z rest heq
    have := congrArg Multiset.card heq
    rw [Multiset.card_cons, Multiset.card_cons, Multiset.card_singleton] at this
    omega
  · rintro x y rest rfl z hz z' hz'
    rw [Multiset.mem_singleton.1 hz, Multiset.mem_singleton.1 hz']
    exact h.apart

end World

end BlockPool
