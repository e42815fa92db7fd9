import BlockPool.Proofs.Tracker.SelfCheck
import Mathlib.Data.List.Basic

/-!
# What actions do to the slots

A reservation that is served adds one slot. A release takes out the slot that it names, or nothing
if there is no such slot, so releases are deletions from a list, whatever they name.
-/

namespace BlockPool.Tracker

variable {t : Tracker}

/-! ## Slots as entries -/

/-- `reserve` adds one slot if it has an answer, and changes nothing if it has none. -/
lemma reserve_slots (ht : t.InOrder) (size alignment : Nat) :
    (t.reserve size alignment).answer = none ∧ (t.reserve size alignment).state = t ∨
      ∃ offset, (t.reserve size alignment).answer = some offset ∧
        (t.reserve size alignment).state.slots.entries.Perm
          ((offset, slotSize size) :: t.slots.entries) := by
  rcases t.reserve_cases size alignment with hmiss | ⟨fit, hfit, hanswer, hstate⟩
  · exact .inl hmiss
  · have hfits := fits_of_bestFit? ht (by omega) hfit
    have hnone := hfits.find?_slots ht (slotSize_pos size)
    refine .inr ⟨fit.offset, hanswer, ?_⟩
    rw [hstate, occupy_slots]
    have hperm := Table.entries_insert_perm t.slots fit.offset (slotSize size)
    rwa [Table.erase_eq_self hnone] at hperm

/-- `release` takes out the slot that it names, if there is one. -/
lemma release_slots (ht : t.InOrder) (offset size : Nat) :
    (t.release offset size).state.slots.entries.Perm
      (t.slots.entries.erase (offset, slotSize size)) := by
  rcases t.release_cases offset size with ⟨-, hstate, hnot⟩ | ⟨-, hstate, hslot⟩
  · have hnotMem : (offset, slotSize size) ∉ t.slots.entries :=
      fun hmem => hnot (Table.find?_eq_some_iff.2 hmem)
    rw [hstate, List.erase_of_not_mem hnotMem]
  · have hperm := (Table.entries_perm_of_find? hslot).erase (offset, slotSize size)
    rw [List.erase_cons_head] at hperm
    rw [hstate, (vacates_vacate ht hslot).slots]
    exact hperm.symm

/-! ## Slots as spans -/

/-- The span of an entry of a table of lengths. -/
def spanOf (e : Nat × Nat) : Span := ⟨e.1, e.1 + e.2⟩

/-- The span of a slot for `size` bytes at an offset. -/
def slotFor (offset size : Nat) : Span := spanOf (offset, slotSize size)

lemma spanOf_injective : Function.Injective spanOf := by
  rintro ⟨o, l⟩ ⟨o', l'⟩ h
  simp only [spanOf, Span.mk.injEq] at h
  simp only [Prod.mk.injEq]
  omega

/-- The `slotSpans` of books in order are their entries: no end wraps around. -/
lemma InOrder.slotSpans_eq (ht : t.InOrder) : t.slotSpans = t.slots.entries.map spanOf := by
  unfold slotSpans spans
  refine List.map_congr_left fun e he => ?_
  have hslot : t.Holds false e.1 e.2 := Table.find?_eq_some_iff.2 he
  show Span.mk e.1 (Word.add e.1 e.2) = ⟨e.1, e.1 + e.2⟩
  rw [Word.add_eq (ht.stop_lt hslot)]

/-- `reserve` adds the span `slotFor` what is asked to the `slotSpans`. -/
lemma slotSpans_reserve (ht : t.InOrder) {size alignment offset : Nat}
    (h : (t.reserve size alignment).answer = some offset) :
    (t.reserve size alignment).state.slotSpans.Perm (slotFor offset size :: t.slotSpans) := by
  rw [(inOrder_reserve ht size alignment).slotSpans_eq, ht.slotSpans_eq]
  rcases reserve_slots ht size alignment with ⟨hnone, -⟩ | ⟨offset', hanswer, hperm⟩
  · rw [hnone] at h
    exact absurd h (by simp)
  · obtain rfl := Option.some.inj (hanswer.symm.trans h)
    exact hperm.map spanOf

/-- `release` takes the span `slotFor` what is named out of the `slotSpans`. -/
lemma slotSpans_release (ht : t.InOrder) (offset size : Nat) :
    (t.release offset size).state.slotSpans.Perm (t.slotSpans.erase (slotFor offset size)) := by
  rw [(inOrder_release ht offset size).slotSpans_eq, ht.slotSpans_eq, slotFor,
    ← List.map_erase spanOf_injective]
  exact (release_slots ht offset size).map spanOf

/-- `release` answers whether there is the slot that it names. -/
theorem release_answer_iff (ht : t.InOrder) (offset size : Nat) :
    (t.release offset size).answer = true ↔ slotFor offset size ∈ t.slotSpans := by
  have hmem : slotFor offset size ∈ t.slotSpans ↔ t.Holds false offset (slotSize size) := by
    rw [ht.slotSpans_eq, slotFor, List.mem_map_of_injective spanOf_injective]
    exact Table.find?_eq_some_iff.symm
  rw [hmem]
  rcases t.release_cases offset size with ⟨hanswer, -, hnot⟩ | ⟨hanswer, -, hslot⟩
  · simp [hanswer, hnot]
  · simp [hanswer, hslot]

end BlockPool.Tracker
