import BlockPool.Proofs.Allocator.Compaction
import BlockPool.Proofs.Usage
import Mathlib.Order.Interval.Finset.Nat

/-!
# Totals are words

`total` adds up natural numbers, and `Word.sum` words, so that a great sum wraps around. Here the
two agree: regions that are held at the same time share no address and stop within the address
space, so together they have fewer than `Word.limit` bytes, and the totals of groups, allocators and
snapshots count bytes of such regions.

Main statement: `Allocator.Ok.sumsExact`.
-/

namespace BlockPool

/-! ## Bytes of disjoint regions -/

/-- Regions that are pairwise `Region.Disjoint` have as many addresses as bytes. -/
lemma exists_addresses {regions : List Region} (h : regions.Pairwise Region.Disjoint) :
    ∃ addresses : Finset Nat, addresses.card = total (regions.map fun r => r.layout.size) ∧
      ∀ x ∈ addresses, ∃ r ∈ regions, r.Contains x := by
  induction regions with
  | nil => exact ⟨∅, rfl, fun x hx => absurd hx (Finset.notMem_empty x)⟩
  | cons r rest ih =>
    obtain ⟨hhead, htail⟩ := List.pairwise_cons.1 h
    obtain ⟨addresses, hcard, hmem⟩ := ih htail
    refine ⟨Finset.Ico r.start r.stop ∪ addresses, ?_, fun x hx => ?_⟩
    · rw [Finset.card_union_of_disjoint, hcard, Nat.card_Ico, List.map_cons, total_cons]
      · unfold Region.stop
        omega
      · refine Finset.disjoint_left.2 fun x hx hrest => ?_
        obtain ⟨s, hs, hcontains⟩ := hmem x hrest
        exact (hhead s hs).not_contains (Finset.mem_Ico.1 hx) hcontains
    · rcases Finset.mem_union.1 hx with hx | hx
      · exact ⟨r, List.mem_cons_self .., Finset.mem_Ico.1 hx⟩
      · obtain ⟨s, hs, hcontains⟩ := hmem x hx
        exact ⟨s, List.mem_cons_of_mem _ hs, hcontains⟩

/-- Disjoint regions below an address have no more bytes than lie below it. -/
lemma total_size_le {regions : List Region} (h : regions.Pairwise Region.Disjoint) {stop : Nat}
    (hstop : ∀ r ∈ regions, r.stop ≤ stop) :
    total (regions.map fun r => r.layout.size) ≤ stop := by
  obtain ⟨addresses, hcard, hmem⟩ := exists_addresses h
  have hbelow : addresses ⊆ Finset.range stop := by
    intro x hx
    obtain ⟨r, hr, hcontains⟩ := hmem x hx
    exact Finset.mem_range.2 (Nat.lt_of_lt_of_le hcontains.2 (hstop r hr))
  have hle := Finset.card_le_card hbelow
  rwa [hcard, Finset.card_range] at hle

/-- The bytes of some regions together, as the sum of the sizes of their layouts. -/
def bytes (regions : Multiset Region) : Nat := (regions.map fun r => r.layout.size).sum

lemma bytes_add (regions others : Multiset Region) :
    bytes (regions + others) = bytes regions + bytes others := by
  unfold bytes
  rw [Multiset.map_add, Multiset.sum_add]

/-- What a memory `Keeps` has fewer than `Word.limit` bytes. -/
lemma Memory.Keeps.bytes_lt {σ : Type} {m : Memory σ} {held : Multiset Region}
    (h : m.Keeps held) : bytes held < Word.limit := by
  have hstop : ∀ r ∈ m.live, r.stop ≤ Word.limit - 1 :=
    fun r hr => Nat.le_sub_one_of_lt (h.proper r (h.mem_live.1 hr)).stop_lt
  have hle := total_size_le h.apart hstop
  have hbytes : bytes held = total (m.live.map fun r => r.layout.size) := by
    unfold bytes
    rw [← h.live, Multiset.map_coe, Multiset.sum_coe]
    rfl
  have hpos : 0 < Word.limit := by decide
  omega

/-! ## Sums of parts -/

lemma total_map_le {α : Type} {parts : List α} {f whole : α → Nat}
    (hle : ∀ p ∈ parts, f p ≤ whole p) : total (parts.map f) ≤ total (parts.map whole) := by
  induction parts with
  | nil => exact Nat.le_refl _
  | cons p rest ih =>
    have hhead := hle p (List.mem_cons_self ..)
    have htail := ih fun q hq => hle q (List.mem_cons_of_mem _ hq)
    rw [List.map_cons, List.map_cons, total_cons, total_cons]
    omega

/-- `Word.sum` of parts is their `total` if the wholes that they are parts of add up to a word. -/
lemma sum_parts {α : Type} {parts : List α} {f whole : α → Nat}
    (hle : ∀ p ∈ parts, f p ≤ whole p) (h : total (parts.map whole) < Word.limit) :
    Word.sum (parts.map f) = total (parts.map f) :=
  Tracker.sum_eq_total (Nat.lt_of_le_of_lt (total_map_le hle) h)

/-- Where each whole is split in two, `Word.sum` is `total` for the one parts, for the other parts
and for the wholes. -/
lemma sums_of_split {α : Type} {parts : List α} {f g whole : α → Nat}
    (hsplit : ∀ p ∈ parts, f p + g p = whole p) (h : total (parts.map whole) < Word.limit) :
    Word.sum (parts.map f) = total (parts.map f) ∧ Word.sum (parts.map g) = total (parts.map g) ∧
      Word.sum (parts.map whole) = total (parts.map whole) := by
  refine ⟨sum_parts (fun p hp => ?_) h, sum_parts (fun p hp => ?_) h, Tracker.sum_eq_total h⟩
  · have := hsplit p hp
    omega
  · have := hsplit p hp
    omega

/-! ## Snapshots -/

/-- The totals of the snapshot of a group are what `Word.sum` makes of those of its blocks. -/
structure GroupUsage.SumsExact (u : GroupUsage) : Prop where
  available : Word.sum (u.blocks.map (·.available)) = u.available
  reserved : Word.sum (u.blocks.map (·.reserved)) = u.reserved
  memorySize : Word.sum (u.blocks.map (·.capacity)) = u.memorySize

/-- The totals of a snapshot are what `Word.sum` makes of those of its groups, which are `SumsExact`
as well. -/
structure Usage.SumsExact (u : Usage) : Prop where
  group : ∀ g ∈ u.groups, g.SumsExact
  available : Word.sum (u.groups.map (·.available)) = u.available
  reserved : Word.sum (u.groups.map (·.reserved)) = u.reserved
  memorySize : Word.sum (u.groups.map (·.memorySize)) = u.memorySize

/-! ## Groups -/

namespace Group

variable {g : Group}

/-- The totals of a group are what `Word.sum` makes of those of its blocks. -/
structure SumsExact (g : Group) : Prop where
  available : Word.sum (g.blocks.values.map (·.tracker.available)) = g.available
  reserved : Word.sum (g.blocks.values.map (·.tracker.reserved)) = g.reserved
  memorySize : Word.sum (g.blocks.values.map (·.capacity)) = g.memorySize
  /-- What `compact` answers with. -/
  emptied : Word.sum (g.emptyBlocks.map Block.capacity) = total (g.emptyBlocks.map Block.capacity)

/-- `memorySize` counts the bytes of the `regions`. -/
lemma bytes_regions (g : Group) : bytes g.regions = g.memorySize := by
  unfold bytes regions memorySize
  rw [Multiset.map_map, Multiset.map_coe, Multiset.sum_coe]
  rfl

/-- No block of a group has more bytes in slots, or in no slot, than it has. -/
lemma Ok.reserved_add_available (hg : g.Ok) {b : Block} (hb : b ∈ g.blocks.values) :
    b.tracker.reserved + b.tracker.available = b.capacity := by
  obtain ⟨key, hfind⟩ := Table.mem_values_iff.1 hb
  obtain ⟨hinOrder, hcapacity⟩ := (hg.block hfind).2
  exact hinOrder.reserved_add_available.trans hcapacity

/-- The totals of a group are exact if its `memorySize` is a word. -/
lemma Ok.sumsExact (hg : g.Ok) (h : g.memorySize < Word.limit) : g.SumsExact := by
  obtain ⟨hreserved, havailable, hmemory⟩ :=
    sums_of_split (fun b hb => hg.reserved_add_available hb) h
  have hremaining := g.memorySize_withoutEmpty
  exact ⟨havailable, hreserved, hmemory, Tracker.sum_eq_total (by omega)⟩

/-- A snapshot copies the books that the totals of a group are taken from. -/
lemma SumsExact.usage (h : g.SumsExact) (affinity : Affinity) : (g.usage affinity).SumsExact := by
  have hcopy : ∀ f : BlockUsage → Nat,
      (g.usage affinity).blocks.map f = g.blocks.values.map (f ∘ Block.usage) :=
    fun f => List.map_map
  constructor
  · unfold GroupUsage.available
    rw [hcopy]
    exact h.available
  · unfold GroupUsage.reserved
    rw [hcopy]
    exact h.reserved
  · unfold GroupUsage.memorySize
    rw [hcopy]
    exact h.memorySize

end Group

/-! ## Allocators -/

namespace Allocator

variable {a : Allocator}

/-- The totals of an allocator and of its snapshot are what `Word.sum` makes of those of its groups,
which are `SumsExact` as well. -/
structure SumsExact (a : Allocator) : Prop where
  group {affinity : Affinity} {g : Group} : a.groups.find? affinity = some g → g.SumsExact
  available : Word.sum (a.groups.values.map (·.available)) = a.available
  reserved : Word.sum (a.groups.values.map (·.reserved)) = a.reserved
  memorySize : Word.sum (a.groups.values.map (·.memorySize)) = a.memorySize
  usage : a.usage.SumsExact
  /-- `compact` answers with the sum of what the groups give back. -/
  compact {σ : Type} [System σ] (m : Memory σ) : (a.compact m).1.1 =
    Word.sum (a.groups.values.map fun g => Word.sum (g.emptyBlocks.map Block.capacity))

/-- `memorySize` counts the bytes of the `regions`. -/
lemma bytes_regions (a : Allocator) : bytes a.regions = a.memorySize := by
  unfold bytes regions memorySize
  rw [Multiset.map_bind, Multiset.sum_bind, Multiset.map_coe, Multiset.sum_coe]
  exact congrArg total (List.map_congr_left fun g _ => g.bytes_regions)

/-- A group has no more bytes than its allocator. -/
lemma memorySize_le {affinity : Affinity} {g : Group} (hfind : a.groups.find? affinity = some g) :
    g.memorySize ≤ a.memorySize := by
  obtain ⟨others, -, hregions, -⟩ := exists_others hfind
  rw [← g.bytes_regions, ← a.bytes_regions, hregions, bytes_add]
  exact Nat.le_add_right ..

/-- The groups of a snapshot are snapshots of the groups. -/
lemma mem_usage_groups {u : GroupUsage} (hu : u ∈ a.usage.groups) :
    ∃ affinity g, a.groups.find? affinity = some g ∧ u = g.usage affinity := by
  obtain ⟨e, he, rfl⟩ := List.mem_map.1 hu
  exact ⟨e.1, e.2, Table.find?_eq_some_iff.2 he, rfl⟩

/-- The totals of the snapshot are exact if those of the groups are, and `memorySize` is a word. -/
lemma Ok.sumsExact_usage (ha : a.Ok) (hgroup : ∀ {affinity : Affinity} {g : Group},
    a.groups.find? affinity = some g → g.SumsExact) (h : a.memorySize < Word.limit) :
    a.usage.SumsExact := by
  have hparts : ∀ u ∈ a.usage.groups, u.available + u.reserved = u.memorySize := by
    intro u hu
    obtain ⟨affinity, g, hfind, rfl⟩ := mem_usage_groups hu
    have hsum := (ha.group hfind).available_add_reserved
    obtain ⟨havailable, hreserved, hmemory⟩ := Totals.mk.inj (g.usage_totals affinity)
    rwa [← havailable, ← hreserved, ← hmemory] at hsum
  have hwhole : total (a.usage.groups.map (·.memorySize)) < Word.limit := by
    rwa [← (Totals.mk.inj a.usage_totals).2.2] at h
  obtain ⟨havailable, hreserved, hmemory⟩ := sums_of_split hparts hwhole
  refine ⟨fun u hu => ?_, havailable, hreserved, hmemory⟩
  obtain ⟨affinity, g, hfind, rfl⟩ := mem_usage_groups hu
  exact (hgroup hfind).usage affinity

/-- What `compact` answers with is exact if the totals of the groups are, and `memorySize` is a
word. -/
lemma Ok.sumsExact_compact (ha : a.Ok) (hgroup : ∀ {affinity : Affinity} {g : Group},
    a.groups.find? affinity = some g → g.SumsExact) (h : a.memorySize < Word.limit) {σ : Type}
    [System σ] (m : Memory σ) : (a.compact m).1.1 =
      Word.sum (a.groups.values.map fun g => Word.sum (g.emptyBlocks.map Block.capacity)) := by
  have hemptied : a.groups.values.map (fun g => Word.sum (g.emptyBlocks.map Block.capacity)) =
      a.groups.values.map fun g => total (g.emptyBlocks.map Block.capacity) := by
    refine List.map_congr_left fun g hg => ?_
    obtain ⟨affinity, hfind⟩ := Table.mem_values_iff.1 hg
    exact (hgroup hfind).emptied
  have hle : ∀ g ∈ a.groups.values, total (g.emptyBlocks.map Block.capacity) ≤ g.memorySize :=
    fun g _ => Nat.le.intro ((Nat.add_comm ..).trans g.memorySize_withoutEmpty)
  obtain ⟨hanswer, -⟩ := ha.ends_compact m
  rw [hanswer, hemptied, sum_parts hle h, ← ha.slotless_eq, total_map_flatMap]

/-- The totals of an allocator whose regions a memory keeps do not wrap around: what `total` says is
what `Word.sum` says, for the allocator, its groups, its snapshot and its compaction. -/
theorem Ok.sumsExact (ha : a.Ok) {σ : Type} {m : Memory σ} {held : Multiset Region}
    (hm : m.Keeps (a.regions + held)) : a.SumsExact := by
  have h : a.memorySize < Word.limit := by
    have hlt := hm.bytes_lt
    rw [bytes_add, a.bytes_regions] at hlt
    omega
  have hgroup : ∀ {affinity : Affinity} {g : Group}, a.groups.find? affinity = some g →
      g.SumsExact :=
    fun hfind => (ha.group hfind).sumsExact (Nat.lt_of_le_of_lt (memorySize_le hfind) h)
  have hparts : ∀ g ∈ a.groups.values, g.available + g.reserved = g.memorySize := by
    intro g hg
    obtain ⟨affinity, hfind⟩ := Table.mem_values_iff.1 hg
    exact (ha.group hfind).available_add_reserved
  obtain ⟨havailable, hreserved, hmemory⟩ := sums_of_split hparts h
  exact ⟨hgroup, havailable, hreserved, hmemory, ha.sumsExact_usage hgroup h,
    fun m => ha.sumsExact_compact hgroup h m⟩

end Allocator

end BlockPool
