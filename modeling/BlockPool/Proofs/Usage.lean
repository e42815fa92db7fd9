import BlockPool.Proofs.Allocator
import Mathlib.Algebra.BigOperators.Group.Multiset.Basic

/-!
# Totals and snapshots add up

The totals of an allocator are sums over the books of its blocks. Books in order count what their
slots are, so the totals are sums over slots. A snapshot takes the same sums a second time, from
the books that it has copied.
-/

namespace BlockPool

/-! ## Sums -/

/-- What some extents weigh together, as the sum of `weight` over them. -/
def weigh (weight : Extent → Nat) (extents : Multiset Extent) : Nat := (extents.map weight).sum

/-- What `weigh` says of a list of extents is the `total` over the list. -/
lemma weigh_coe (weight : Extent → Nat) (extents : List Extent) :
    weigh weight (extents : Multiset Extent) = total (extents.map weight) := by
  unfold weigh
  rw [Multiset.map_coe, Multiset.sum_coe]
  rfl

/-- Extents that weigh one each are counted. -/
lemma weigh_one (extents : Multiset Extent) : weigh (fun _ => 1) extents = extents.card := by
  unfold weigh
  simp

/-- A union of collections weighs what its members weigh. -/
lemma weigh_bind {α : Type} (weight : Extent → Nat) (parts : List α)
    (f : α → Multiset Extent) :
    weigh weight ((parts : Multiset α).bind f) = total (parts.map fun p => weigh weight (f p)) := by
  unfold weigh
  rw [Multiset.map_bind, Multiset.sum_bind, Multiset.map_coe, Multiset.sum_coe]
  rfl

/-- If two numbers add up to a third one for each part, so do their totals. -/
lemma total_map_add {α : Type} {parts : List α} {f g h : α → Nat}
    (hadd : ∀ p ∈ parts, f p + g p = h p) :
    total (parts.map f) + total (parts.map g) = total (parts.map h) := by
  induction parts with
  | nil => rfl
  | cons p rest ih =>
    have hhead := hadd p (List.mem_cons_self ..)
    have htail := ih fun q hq => hadd q (List.mem_cons_of_mem _ hq)
    rw [List.map_cons, List.map_cons, List.map_cons, total_cons, total_cons, total_cons]
    omega

/-- A `total` over all members of all parts is the `total` of the totals of the parts. -/
lemma total_map_flatMap {α β : Type} (parts : List α) (f : α → List β) (g : β → Nat) :
    total ((parts.flatMap f).map g) = total (parts.map fun p => total ((f p).map g)) := by
  induction parts with
  | nil => rfl
  | cons p rest ih =>
    rw [List.flatMap_cons, List.map_append, total_append, List.map_cons, total_cons, ih]

/-! ## Blocks -/

/-- What the tracker of a block counts as `reserved` are the bytes of the block's `slots`. -/
lemma Block.Ok.reserved_eq {b : Block} (hb : b.Ok) :
    weigh Extent.length (b.slots : Multiset Extent) = b.tracker.reserved := by
  rw [weigh_coe, hb.inOrder.counted]
  unfold Block.slots Table.values
  rw [List.map_map]
  rfl

/-- What the tracker of a block counts in `slotCount` are the block's `slots`. -/
lemma Block.slotCount_eq (b : Block) :
    weigh (fun _ => 1) (b.slots : Multiset Extent) = b.tracker.slotCount := by
  rw [weigh_one, Multiset.coe_card]
  exact List.length_map ..

/-! ## Groups -/

namespace Group

variable {g : Group}

/-- The `slots` of a group weigh what the books of its blocks say. -/
lemma Ok.weigh_slots (hg : g.Ok) {weight : Extent → Nat} {count : Block → Nat}
    (hcount : ∀ b : Block, b.Ok → weigh weight (b.slots : Multiset Extent) = count b) :
    weigh weight g.slots = total (g.blocks.values.map count) := by
  unfold slots
  rw [weigh_bind]
  refine congrArg total (List.map_congr_left fun b hb => hcount b ?_)
  obtain ⟨key, hfind⟩ := Table.mem_values_iff.1 hb
  exact (hg.block hfind).2

/-- What is `available` and what is `reserved` in a group add up to its `memorySize`. -/
lemma Ok.available_add_reserved (hg : g.Ok) : g.available + g.reserved = g.memorySize := by
  refine total_map_add fun b hb => ?_
  obtain ⟨key, hfind⟩ := Table.mem_values_iff.1 hb
  obtain ⟨hinOrder, hcapacity⟩ := (hg.block hfind).2
  exact (Nat.add_comm ..).trans (hinOrder.reserved_add_available.trans hcapacity)

/-- A snapshot of a group has the totals of the group. -/
lemma usage_totals (g : Group) (affinity : Affinity) :
    (g.usage affinity).totals = ⟨g.available, g.reserved, g.memorySize⟩ := by
  unfold GroupUsage.totals GroupUsage.available GroupUsage.reserved GroupUsage.memorySize usage
  simp only [List.map_map]
  rfl

end Group

/-! ## Allocators -/

namespace Allocator

variable {a : Allocator}

/-- The `slots` of an allocator weigh what the books of its blocks say. -/
lemma Ok.weigh_slots (ha : a.Ok) {weight : Extent → Nat} {count : Block → Nat}
    (hcount : ∀ b : Block, b.Ok → weigh weight (b.slots : Multiset Extent) = count b) :
    weigh weight a.slots =
      total (a.groups.values.map fun g => total (g.blocks.values.map count)) := by
  unfold slots
  rw [weigh_bind]
  refine congrArg total (List.map_congr_left fun g hg => ?_)
  obtain ⟨affinity, hfind⟩ := Table.mem_values_iff.1 hg
  exact (ha.group hfind).weigh_slots hcount

/-- What is `reserved` in an allocator are the bytes of its `slots`. -/
lemma Ok.reserved_eq (ha : a.Ok) : a.reserved = weigh Extent.length a.slots :=
  (ha.weigh_slots fun _ hb => hb.reserved_eq).symm

/-- What is `available` and what is `reserved` in an allocator add up to its `memorySize`. -/
lemma Ok.available_add_reserved (ha : a.Ok) : a.available + a.reserved = a.memorySize := by
  refine total_map_add fun g hg => ?_
  obtain ⟨affinity, hfind⟩ := Table.mem_values_iff.1 hg
  exact (ha.group hfind).available_add_reserved

/-- The snapshot `usage` has the `totals` of the allocator. -/
lemma usage_totals (a : Allocator) : a.usage.totals = a.totals := by
  have hgroups : ∀ f : Totals → Nat,
      a.usage.groups.map (fun u => f u.totals) =
        a.groups.values.map fun g => f ⟨g.available, g.reserved, g.memorySize⟩ := by
    intro f
    unfold usage Table.values
    rw [List.map_map, List.map_map]
    refine List.map_congr_left fun e _ => ?_
    exact congrArg f (e.2.usage_totals e.1)
  have havailable := congrArg total (hgroups Totals.available)
  have hreserved := congrArg total (hgroups Totals.reserved)
  have hmemory := congrArg total (hgroups Totals.memory)
  unfold Usage.totals totals
  rw [Totals.mk.injEq]
  exact ⟨havailable, hreserved, hmemory⟩

/-- The snapshot `usage` has what `groupUsage?` says of each of the groups. -/
lemma filterMap_groupUsage? (a : Allocator) :
    a.groups.keys.filterMap a.groupUsage? = a.usage.groups := by
  unfold usage Table.keys
  rw [List.filterMap_map, ← List.filterMap_eq_map]
  refine List.filterMap_congr fun e he => ?_
  have hfind : a.groups.find? e.1 = some e.2 := Table.find?_eq_some_iff.2 he
  show a.groupUsage? e.1 = some (e.2.usage e.1)
  rw [groupUsage?, hfind]
  rfl

/-- The slots counted in the snapshot `usage` are the `slots` of the allocator. -/
lemma Ok.slotCount_eq (ha : a.Ok) :
    total ((a.usage.groups.flatMap (·.blocks)).map (·.slotCount)) = a.slots.card := by
  rw [total_map_flatMap, ← weigh_one, ha.weigh_slots fun b _ => b.slotCount_eq]
  unfold usage Table.values
  rw [List.map_map, List.map_map]
  refine congrArg total (List.map_congr_left fun e _ => ?_)
  show total ((e.2.blocks.values.map Block.usage).map BlockUsage.slotCount) = _
  rw [List.map_map]
  rfl

end Allocator

end BlockPool
