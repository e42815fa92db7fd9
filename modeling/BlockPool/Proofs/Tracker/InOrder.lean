import BlockPool.Proofs.Table
import BlockPool.Total
import BlockPool.Tracker.Step

/-!
# Books in order

The books of a tracker are in order if its free runs and its slots are what they are meant to be:
non-empty pieces of the region that lie side by side without a gap or an overlap, no two free ones
next to each other, with both collections of free runs alike and the reserved bytes counted right.

An action replaces the pieces of one stretch of the region by others that fill the same stretch.
`InOrder.replace` says what has to be checked for that; reserving splits a run, releasing joins
up to three pieces to one.
-/

namespace BlockPool.Tracker

/-- Whether a tracker has a free run (`true`) or a slot (`false`) of some length at some offset. -/
def Holds (t : Tracker) : Bool → Nat → Nat → Prop
  | true, offset, length => t.free.find? offset = some length
  | false, offset, length => t.slots.find? offset = some length

/-- The books are in order: what a tracker `Holds` are pieces that fill the region, and the other
tables and the counter agree with them. -/
structure InOrder (t : Tracker) : Prop where
  /-- Offsets and lengths are words. -/
  word : t.capacity < Word.limit
  /-- No piece is empty. -/
  nonempty {k : Bool} {o l : Nat} : t.Holds k o l → 0 < l
  /-- Every piece lies in the region. -/
  inside {k : Bool} {o l : Nat} : t.Holds k o l → o + l ≤ t.capacity
  /-- Different pieces have no byte in common. -/
  apart {k k' : Bool} {o o' l l' : Nat} : t.Holds k o l → t.Holds k' o' l' →
    (k, o) ≠ (k', o') → o + l ≤ o' ∨ o' + l' ≤ o
  /-- Every byte of the region lies in a piece. -/
  covered {x : Nat} : x < t.capacity → ∃ k o l, t.Holds k o l ∧ o ≤ x ∧ x < o + l
  /-- No free run starts where another one ends. -/
  merged {o l l' : Nat} : t.Holds true o l → ¬ t.Holds true (o + l) l'
  /-- The runs ordered by length are the runs ordered by offset. -/
  indexed {run : Run} : t.bySize.find? run = some () ↔ t.Holds true run.offset run.length
  /-- The reserved bytes are the bytes of the slots. -/
  counted : t.reserved = total t.slots.values

/-- What a tracker `Holds` of one kind at an offset has one length. -/
lemma Holds.length_unique {t : Tracker} {k : Bool} {o l l' : Nat} (h : t.Holds k o l)
    (h' : t.Holds k o l') : l = l' := by
  cases k <;> exact Option.some.inj (h.symm.trans h')

/-! ## Replacing the pieces of a stretch -/

/-- Books stay `InOrder` if the pieces that go and the pieces that come fill the same stretch, which
no other piece meets. -/
lemma InOrder.replace {t t' : Tracker} (ht : t.InOrder) {lo hi : Nat}
    {goes comes : Bool → Nat → Nat → Prop}
    (hcapacity : t'.capacity = t.capacity) (hhi : hi ≤ t.capacity)
    (hholds : ∀ {k o l}, t'.Holds k o l ↔ comes k o l ∨ t.Holds k o l ∧ ¬ goes k o l)
    (houtside : ∀ {k o l}, t.Holds k o l → goes k o l ∧ lo ≤ o ∧ o + l ≤ hi ∨
      ¬ goes k o l ∧ (o + l ≤ lo ∨ hi ≤ o))
    (hcome : ∀ {k o l}, comes k o l → 0 < l ∧ lo ≤ o ∧ o + l ≤ hi)
    (hapart : ∀ {k k' o o' l l'}, comes k o l → comes k' o' l' → (k, o) ≠ (k', o') →
      o + l ≤ o' ∨ o' + l' ≤ o)
    (hcovered : ∀ {x}, lo ≤ x → x < hi → ∃ k o l, comes k o l ∧ o ≤ x ∧ x < o + l)
    (hmerged : ∀ {o l l'}, t'.Holds true o l → ¬ t'.Holds true (o + l) l')
    (hindexed : ∀ {run}, t'.bySize.find? run = some () ↔ t'.Holds true run.offset run.length)
    (hcounted : t'.reserved = total t'.slots.values) : t'.InOrder where
  word := hcapacity ▸ ht.word
  nonempty := by
    intro k o l h
    rcases hholds.1 h with h | ⟨h, -⟩
    · exact (hcome h).1
    · exact ht.nonempty h
  inside := by
    intro k o l h
    rw [hcapacity]
    rcases hholds.1 h with h | ⟨h, -⟩
    · have := hcome h
      omega
    · exact ht.inside h
  apart := by
    intro k k' o o' l l' h h' hne
    rcases hholds.1 h with h | ⟨h, hstay⟩ <;> rcases hholds.1 h' with h' | ⟨h', hstay'⟩
    · exact hapart h h' hne
    -- a piece that stays lies outside the stretch that those to come fill
    · have := hcome h
      have := houtside h'
      simp only [hstay', false_and, not_false_eq_true, true_and, false_or] at this
      omega
    · have := hcome h'
      have := houtside h
      simp only [hstay, false_and, not_false_eq_true, true_and, false_or] at this
      omega
    · exact ht.apart h h' hne
  covered := by
    intro x hx
    -- the new pieces cover the stretch, and what covered a byte outside of it is still there
    by_cases hin : lo ≤ x ∧ x < hi
    · obtain ⟨k, o, l, h, hox⟩ := hcovered hin.1 hin.2
      exact ⟨k, o, l, hholds.2 (.inl h), hox⟩
    · obtain ⟨k, o, l, h, hox⟩ := ht.covered (hcapacity ▸ hx)
      rcases houtside h with ⟨-, hlo, hhi⟩ | ⟨hstay, -⟩
      · omega
      · exact ⟨k, o, l, hholds.2 (.inr ⟨h, hstay⟩), hox⟩
  merged := hmerged
  indexed := hindexed
  counted := hcounted

/-! ## Adding and removing a run -/

section Runs

variable (t : Tracker) (offset length : Nat)

@[simp] lemma addRun_capacity : (t.addRun offset length).capacity = t.capacity := by
  unfold addRun
  split <;> rfl

@[simp] lemma addRun_reserved : (t.addRun offset length).reserved = t.reserved := by
  unfold addRun
  split <;> rfl

/-- Free runs may be added without a change of the `slots`, of what is `reserved`, of the capacity
or of the switches. -/
@[simp] lemma addRun_slots : (t.addRun offset length).slots = t.slots := by
  unfold addRun
  split <;> rfl

@[simp] lemma addRun_tracking : (t.addRun offset length).tracking = t.tracking := by
  unfold addRun
  split <;> rfl

@[simp] lemma removeRun_capacity : (t.removeRun offset length).capacity = t.capacity := rfl

@[simp] lemma removeRun_reserved : (t.removeRun offset length).reserved = t.reserved := rfl

/-- Free runs may be removed without a change of the `slots`, of what is `reserved`, of the capacity
or of the switches. -/
@[simp] lemma removeRun_slots : (t.removeRun offset length).slots = t.slots := rfl

/-- `addRun` enters a run under its offset, unless the run has no bytes. -/
lemma find?_free_addRun (o : Nat) : (t.addRun offset length).free.find? o =
    if o = offset ∧ 0 < length then some length else t.free.find? o := by
  unfold addRun
  by_cases h : length = 0
  · simp [h]
  · have : 0 < length := by omega
    simp [h, this, Table.find?_insert]

/-- `addRun` enters a run under its length as well, unless it has no bytes. -/
lemma find?_bySize_addRun (run : Run) : (t.addRun offset length).bySize.find? run =
    if run = ⟨offset, length⟩ ∧ 0 < length then some () else t.bySize.find? run := by
  unfold addRun
  by_cases h : length = 0
  · simp [h]
  · have : 0 < length := by omega
    simp [h, this, Table.find?_insert]

lemma find?_free_removeRun (o : Nat) : (t.removeRun offset length).free.find? o =
    if o = offset then none else t.free.find? o :=
  Table.find?_erase ..

lemma find?_bySize_removeRun (run : Run) : (t.removeRun offset length).bySize.find? run =
    if run = ⟨offset, length⟩ then none else t.bySize.find? run :=
  Table.find?_erase ..

end Runs

@[simp] lemma capacity_new (capacity : Nat) (tracking : Tracking) :
    (new capacity tracking).capacity = capacity :=
  addRun_capacity ..

@[simp] lemma tracking_new (capacity : Nat) (tracking : Tracking) :
    (new capacity tracking).tracking = tracking :=
  addRun_tracking ..

/-- The books of a region that is one free run are `InOrder`. -/
lemma inOrder_new {capacity : Nat} (h : capacity < Word.limit) (tracking : Tracking) :
    (new capacity tracking).InOrder := by
  -- the only piece is a free run of the whole region, if the region has any bytes
  have hfree : ∀ o l, (new capacity tracking).Holds true o l ↔ o = 0 ∧ l = capacity ∧ 0 < l := by
    intro o l
    show (new capacity tracking).free.find? o = some l ↔ _
    rw [new, find?_free_addRun]
    split
    · rename_i ho
      rw [Option.some.injEq]
      omega
    · simp only [Table.find?_empty, reduceCtorEq, false_iff]
      omega
  have hslots : ∀ o l, ¬ (new capacity tracking).Holds false o l := by
    intro o l
    show ¬ (new capacity tracking).slots.find? o = some l
    simp [new]
  have hcapacity := capacity_new capacity tracking
  exact {
    word := by
      rw [hcapacity]
      exact h
    nonempty := by
      intro k o l hk
      cases k
      · exact absurd hk (hslots o l)
      · exact ((hfree o l).1 hk).2.2
    inside := by
      intro k o l hk
      cases k
      · exact absurd hk (hslots o l)
      · rw [hcapacity]
        have := (hfree o l).1 hk
        omega
    apart := by
      intro k k' o o' l l' hk hk' hne
      cases k <;> cases k'
      · exact absurd hk (hslots o l)
      · exact absurd hk (hslots o l)
      · exact absurd hk' (hslots o' l')
      · have := (hfree o l).1 hk
        have := (hfree o' l').1 hk'
        exact absurd (by simp [*]) hne
    covered := by
      intro x hx
      rw [hcapacity] at hx
      exact ⟨true, 0, capacity, (hfree _ _).2 ⟨rfl, rfl, by omega⟩, by omega, by omega⟩
    merged := by
      intro o l l' hk hk'
      have := (hfree o l).1 hk
      have := (hfree _ l').1 hk'
      omega
    indexed := by
      intro run
      rw [hfree, new, find?_bySize_addRun]
      obtain ⟨o, l⟩ := run
      simp only [Run.mk.injEq, Table.find?_empty, ite_eq_left_iff, reduceCtorEq, imp_false,
        not_not]
      omega
    counted := by simp [new, Table.values, Table.empty] }

end BlockPool.Tracker
