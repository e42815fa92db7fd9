import BlockPool.Block
import BlockPool.Proofs.Memory
import BlockPool.Proofs.Tracker.Slots
import Mathlib.Data.Multiset.Bind

/-!
# The slots of a block

A block turns the offsets of its tracker into addresses. Its slots are ranges of addresses in its
region, and the books of the tracker keep them apart. Requests and returns change the slots by
one and leave the region alone.
-/

namespace BlockPool

/-! ## Extents -/

/-- A range of `length` addresses from `start`. -/
structure Extent where
  start : Nat
  length : Nat
deriving DecidableEq

namespace Extent

/-- Whether two extents have no address in common. -/
def Apart (x y : Extent) : Prop := x.start + x.length ≤ y.start ∨ y.start + y.length ≤ x.start

/-- Whether an extent lies in a region, from `r.start` up to `r.stop`. -/
def Within (x : Extent) (r : Region) : Prop := r.start ≤ x.start ∧ x.start + x.length ≤ r.stop

lemma apart_comm {x y : Extent} : x.Apart y ↔ y.Apart x := or_comm

/-- Extents within regions that are `Disjoint` are apart. -/
lemma apart_of_disjoint {x y : Extent} {r s : Region} (hx : x.Within r) (hy : y.Within s)
    (h : r.Disjoint s) : x.Apart y := by
  unfold Within at hx hy
  unfold Region.Disjoint at h
  unfold Apart
  omega

end Extent

/-- What a request for `size` bytes gains: a slot at the address that it is answered with. -/
def gained (size : Nat) : Option Nat → Multiset Extent
  | some address => {⟨address, Tracker.slotSize size⟩}
  | none => 0

namespace Block

variable {b : Block}

/-- The slots of a block as extents: those of its tracker, moved to `b.base`. -/
def slots (b : Block) : List Extent :=
  b.tracker.slots.entries.map fun (offset, length) => ⟨b.base + offset, length⟩

/-- The books of a block: its tracker is `InOrder` and has the capacity of `b.layout`. -/
structure Ok (b : Block) : Prop where
  inOrder : b.tracker.InOrder
  capacity : b.tracker.capacity = b.layout.size

/-- The memory of a block starts where a slot of it may start: `b.alignment` divides the alignment
of `b.layout`, and that divides `b.base`. -/
structure Aligned (b : Block) : Prop where
  power : b.alignment.isPowerOfTwo
  minimum : minimumAlignment ≤ b.layout.alignment
  layout : b.alignment ∣ b.layout.alignment
  base : b.layout.alignment ∣ b.base

/-- The `slots` of a block are those of its tracker, moved to the base of the block. -/
lemma mem_slots_iff {x : Extent} :
    x ∈ b.slots ↔ ∃ offset, x.start = b.base + offset ∧ b.tracker.Holds false offset x.length := by
  unfold slots
  rw [List.mem_map]
  constructor
  · rintro ⟨⟨offset, length⟩, hmem, rfl⟩
    exact ⟨offset, rfl, Table.find?_eq_some_iff.2 hmem⟩
  · rintro ⟨offset, hstart, hold⟩
    refine ⟨(offset, x.length), Table.find?_eq_some_iff.1 hold, ?_⟩
    show Extent.mk (b.base + offset) x.length = x
    rw [← hstart]

lemma Ok.slot_pos (hb : b.Ok) {x : Extent} (hx : x ∈ b.slots) : 0 < x.length := by
  obtain ⟨offset, -, hold⟩ := mem_slots_iff.1 hx
  exact hb.inOrder.nonempty hold

/-- A slot lies in the `region` of its block. -/
lemma Ok.slot_within (hb : b.Ok) {x : Extent} (hx : x ∈ b.slots) : x.Within b.region := by
  obtain ⟨offset, hstart, hold⟩ := mem_slots_iff.1 hx
  have hinside := hb.inOrder.inside hold
  rw [hb.capacity] at hinside
  show b.base ≤ x.start ∧ x.start + x.length ≤ b.base + b.layout.size
  omega

/-- A block `contains` the addresses of its slots. -/
lemma Ok.contains_slot (hb : b.Ok) {x : Extent} (hx : x ∈ b.slots) :
    b.contains x.start = true := by
  have hpos := hb.slot_pos hx
  obtain ⟨hstart, hstop⟩ := hb.slot_within hx
  unfold contains
  rw [decide_eq_true_eq]
  exact ⟨hstart, by omega⟩

/-- Different `slots` are apart. -/
lemma Ok.slots_apart (hb : b.Ok) : b.slots.Pairwise Extent.Apart := by
  unfold slots
  rw [List.pairwise_map]
  refine List.Pairwise.imp_of_mem ?_ b.tracker.slots.ordered
  rintro ⟨o, l⟩ ⟨o', l'⟩ hmem hmem' hlt
  have hold : b.tracker.Holds false o l := Table.find?_eq_some_iff.2 hmem
  have hold' : b.tracker.Holds false o' l' := Table.find?_eq_some_iff.2 hmem'
  -- slots are listed by offset, so the two have different offsets
  have hne : (false, o) ≠ (false, o') := by
    intro heq
    exact absurd (Prod.mk.inj heq).2 (Nat.ne_of_lt hlt)
  have := hb.inOrder.apart hold hold' hne
  show b.base + o + l ≤ b.base + o' ∨ b.base + o' + l' ≤ b.base + o
  omega

/-- A block that `isEmpty` has no slots. -/
lemma Ok.slots_eq_nil (hb : b.Ok) (hempty : b.isEmpty = true) : b.slots = [] := by
  have hcount := hb.inOrder.isEmpty_iff.1 hempty
  unfold slots
  rw [List.map_eq_nil_iff]
  exact List.length_eq_zero_iff.1 hcount

/-! ## Switches -/

lemma Ok.setTracking (hb : b.Ok) (tracking : Tracking) : (b.setTracking tracking).Ok :=
  ⟨Tracker.inOrder_setTracking hb.inOrder tracking, hb.capacity⟩

/-! ## Requests and returns -/

/-- `allocate` adds the slot that it is answered with, if any, and leaves the region alone. -/
theorem allocate_spec (hb : b.Ok) (size : Nat) :
    (b.allocate size).state.Ok ∧ (b.allocate size).state.region = b.region ∧
      ((b.allocate size).state.slots : Multiset Extent) =
        gained size (b.allocate size).answer + b.slots := by
  refine ⟨⟨Tracker.inOrder_reserve hb.inOrder size b.alignment, ?_⟩, rfl, ?_⟩
  · exact (Tracker.capacity_step hb.inOrder (.reserve size b.alignment)).trans hb.capacity
  · rcases Tracker.reserve_slots hb.inOrder size b.alignment with
      ⟨hanswer, hstate⟩ | ⟨offset, hanswer, hperm⟩
    · unfold allocate slots
      simp only [hanswer, hstate]
      exact (Multiset.zero_add _).symm
    · unfold allocate slots
      simp only [hanswer]
      exact Multiset.coe_eq_coe.2 (hperm.map _)

/-- Different slots of a tracker are different slots of its block. -/
lemma slot_injective (base : Nat) :
    Function.Injective fun e : Nat × Nat => Extent.mk (base + e.1) e.2 := by
  rintro ⟨o, l⟩ ⟨o', l'⟩ h
  simp only [Extent.mk.injEq] at h
  simp only [Prod.mk.injEq]
  omega

/-- `deallocate` takes out the slot that it names, if there is one, and leaves the region alone. -/
theorem deallocate_spec (hb : b.Ok) (address size : Nat) :
    (b.deallocate address size).state.Ok ∧ (b.deallocate address size).state.region = b.region ∧
      ((b.deallocate address size).state.slots : Multiset Extent) =
        (b.slots : Multiset Extent).erase ⟨address, Tracker.slotSize size⟩ := by
  unfold deallocate
  by_cases hcontains : b.contains address = true
  · have hbase : b.base ≤ address := (of_decide_eq_true hcontains).1
    have hslot : (⟨address, Tracker.slotSize size⟩ : Extent) =
        ⟨b.base + (address - b.base), Tracker.slotSize size⟩ := by
      rw [Nat.add_sub_cancel' hbase]
    rw [if_pos hcontains]
    refine ⟨⟨Tracker.inOrder_release hb.inOrder _ size, ?_⟩, rfl, ?_⟩
    · exact (Tracker.capacity_step hb.inOrder (.release _ size)).trans hb.capacity
    · rw [hslot, Multiset.coe_erase, Multiset.coe_eq_coe]
      refine ((Tracker.release_slots hb.inOrder _ size).map _).trans (List.Perm.of_eq ?_)
      exact List.map_erase (slot_injective b.base) _
  · -- an address outside of the block is the address of no slot
    rw [if_neg hcontains]
    refine ⟨hb, rfl, (Multiset.erase_of_notMem fun hmem => hcontains ?_).symm⟩
    exact hb.contains_slot (Multiset.mem_coe.1 hmem)

/-! ## Memory -/

section Memory

variable {σ : Type} {m : Memory σ} {held : Multiset Region}

/-- The alignment of the memory of a block is a multiple of that of its slots. -/
lemma dvd_max_minimumAlignment {alignment : Nat} (h : alignment.isPowerOfTwo) :
    alignment ∣ max alignment minimumAlignment := by
  obtain ⟨k, rfl⟩ := h
  show 2 ^ k ∣ max (2 ^ k) (2 ^ 4)
  -- of two powers of two, the smaller one divides the greater one
  rcases Nat.le_total 4 k with hk | hk
  · rw [Nat.max_eq_left (Nat.pow_le_pow_right (by decide) hk)]
  · rw [Nat.max_eq_right (Nat.pow_le_pow_right (by decide) hk)]
    exact Nat.pow_dvd_pow 2 hk

/-- `obtain` answers with a block that has memory of its own and no slots, or the memory keeps what
it had. -/
theorem obtain_spec [System σ] [LawfulSystem σ] (h : m.Keeps held) (capacity alignment : Nat)
    (tracking : Tracking) :
    Ends (obtain capacity alignment tracking) m fun answer m' => match answer with
      | .error _ => m'.Keeps held
      | .ok fresh =>
        m'.Keeps (fresh.region ::ₘ held) ∧ fresh.Ok ∧ fresh.Aligned ∧ fresh.slots = [] := by
  unfold Block.obtain
  simp only
  split
  · exact h
  · rename_i hpower
    split
    · exact h
    · rename_i hvalid
      have hsize : 0 < (layoutFor capacity (max alignment 1)).size := by
        show 0 < max capacity 1
        omega
      refine (Memory.keeps_request h .sized hsize).bind ?_
      rintro (_ | base) m' h'
      · exact h'
      · refine (Memory.keeps_noteIf h'.1 ..).bind fun _ m'' h'' => ?_
        have hword := (not_not.1 hvalid).size_lt
        refine ⟨h'', ⟨Tracker.inOrder_new hword tracking, Tracker.capacity_new ..⟩,
          ⟨not_not.1 hpower, Nat.le_max_right .., dvd_max_minimumAlignment (not_not.1 hpower),
            Nat.dvd_of_mod_eq_zero h'.2⟩, ?_⟩
        show (Tracker.new _ tracking).slots.entries.map _ = []
        rw [Tracker.new, Tracker.addRun_slots]
        rfl

/-- `giveBack` gives the region of a block back. -/
theorem giveBack_spec (h : m.Keeps (b.region ::ₘ held)) :
    Ends b.giveBack m fun _ m' => m'.Keeps held := by
  unfold giveBack
  exact (Memory.keeps_noteIf h ..).bind fun _ _ h' => Memory.keeps_release h'

end Memory

end Block

end BlockPool
