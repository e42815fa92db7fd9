import BlockPool.Proofs.Tracker.Gaps

/-!
# The ledger of a tracker

A ledger knows the history of a tracker and nothing else: a slot is entered when a reservation is
answered with an offset, and struck out when a release is accepted. The tracker keeps the same
slots in books of its own, and whatever it answers is right about the ledger.

Main statement: after any sequence of actions the tracker lists the ledger and the gaps in it. A
reservation that is answered lies in a gap, a release is accepted exactly if the ledger has the
slot, and an action that is refused changes nothing.
-/

namespace BlockPool.Tracker

variable {t : Tracker}

/-! ## Entries -/

/-- The ledger after a `Step` and its `Answer`: with the slot of a reservation, and without the one
of a release. -/
def enter (ledger : List Span) : Step → Answer → List Span
  | .reserve size _, .reserved (some offset) => slotFor offset size :: ledger
  | .release offset size, .released true => ledger.erase (slotFor offset size)
  | _, _ => ledger

/-- The ledger after a sequence of steps, each of which does `enter`. -/
def ledgerFrom (t : Tracker) (ledger : List Span) : List Step → List Span
  | [] => ledger
  | s :: rest => (t.step s).state.ledgerFrom (enter ledger s (t.step s).answer) rest

/-! ## Answers -/

/-- If `reserve` answers with an offset, it is for a slot in the region, at a multiple of the
alignment, that meets no other slot. -/
lemma reserve_place (ht : t.InOrder) {size alignment offset : Nat}
    (h : (t.reserve size alignment).answer = some offset) :
    offset + slotSize size ≤ t.capacity ∧ max alignment 1 ∣ offset ∧
      ∀ r ∈ t.slotSpans, r.Apart (slotFor offset size) := by
  rcases t.reserve_cases size alignment with ⟨hanswer, -⟩ | ⟨fit, hfit, hanswer, -⟩
  · rw [hanswer] at h
    exact absurd h (by simp)
  · obtain rfl : fit.offset = offset := Option.some.inj (hanswer.symm.trans h)
    have hfits := fits_of_bestFit? ht (by omega) hfit
    have hstarts := hfits.starts
    have hroom := hfits.room
    have hinside := ht.inside hfits.free
    refine ⟨by omega, Nat.dvd_of_mod_eq_zero hfits.aligned, fun r hr => ?_⟩
    -- the run that the slot is put into is apart from every other piece
    obtain ⟨l, hslot, hstop⟩ := ht.mem_slotSpans_iff.1 hr
    have hapart := ht.apart hfits.free hslot (by simp)
    show r.stop ≤ fit.offset ∨ fit.offset + slotSize size ≤ r.start
    omega

/-- A `reserve` without an answer changes nothing. -/
lemma reserve_refused {size alignment : Nat} (h : (t.reserve size alignment).answer = none) :
    (t.reserve size alignment).state = t := by
  rcases t.reserve_cases size alignment with ⟨-, hstate⟩ | ⟨fit, -, hanswer, -⟩
  · exact hstate
  · rw [hanswer] at h
    exact absurd h (by simp)

lemma release_refused {offset size : Nat} (h : (t.release offset size).answer = false) :
    (t.release offset size).state = t := by
  rcases t.release_cases offset size with ⟨-, hstate, -⟩ | ⟨hanswer, -, -⟩
  · exact hstate
  · rw [hanswer] at h
    exact absurd h (by simp)

/-! ## Refinement -/

/-- The tracker is `InOrder`, and its `slotSpans` are those of the ledger. -/
structure Refines (t : Tracker) (ledger : List Span) : Prop where
  inOrder : t.InOrder
  slots : t.slotSpans.Perm ledger

/-- A `new` tracker `Refines` the empty ledger. -/
lemma refines_new {capacity : Nat} (hword : capacity < Word.limit) (tracking : Tracking) :
    (new capacity tracking).Refines [] := by
  refine ⟨inOrder_new hword tracking, List.Perm.of_eq ?_⟩
  rw [slotSpans, new, addRun_slots]
  rfl

/-- Tracker and ledger take a `step` side by side. -/
theorem Refines.step {ledger : List Span} (h : t.Refines ledger) (s : Step) :
    (t.step s).state.Refines (enter ledger s (t.step s).answer) := by
  refine ⟨inOrder_step h.inOrder s, ?_⟩
  cases s with
  | reserve size alignment =>
    show (t.reserve size alignment).state.slotSpans.Perm
      (enter ledger _ (.reserved (t.reserve size alignment).answer))
    rcases hanswer : (t.reserve size alignment).answer with _ | offset
    · rw [reserve_refused hanswer]
      exact h.slots
    · exact (slotSpans_reserve h.inOrder hanswer).trans (h.slots.cons _)
  | release offset size =>
    show (t.release offset size).state.slotSpans.Perm
      (enter ledger _ (.released (t.release offset size).answer))
    cases hanswer : (t.release offset size).answer with
    | false =>
      rw [release_refused hanswer]
      exact h.slots
    | true => exact (slotSpans_release h.inOrder offset size).trans (h.slots.erase _)
  | setTracking tracking => exact h.slots

/-- Tracker and ledger take any steps side by side, by induction on the steps. -/
theorem Refines.run {ledger : List Span} (h : t.Refines ledger) (steps : List Step) :
    (t.run steps).Refines (t.ledgerFrom ledger steps) := by
  induction steps generalizing t ledger with
  | nil => exact h
  | cons s rest ih => exact ih (h.step s)

/-- Whatever is done to a `new` tracker, it lists the ledger of what was done and the gaps that the
ledger leaves, both in the order of their offsets, and it answers the next action in the sense of
the ledger. -/
theorem refines_ledger {capacity : Nat} (hword : capacity < Word.limit) (tracking : Tracking)
    (steps : List Step) :
    let t := (new capacity tracking).run steps
    let ledger := (new capacity tracking).ledgerFrom [] steps
    (t.slotSpans.Perm ledger ∧ t.slotSpans.Pairwise fun r s => r.start < s.start) ∧
    ((∀ s, s ∈ t.freeSpans ↔ IsMaximalGap capacity ledger s) ∧
      t.freeSpans.Pairwise fun r s => r.start < s.start) ∧
    (∀ size alignment offset, (t.reserve size alignment).answer = some offset →
      offset + slotSize size ≤ capacity ∧ max alignment 1 ∣ offset ∧
        ∀ r ∈ ledger, r.Apart (slotFor offset size)) ∧
    (∀ size alignment, (t.reserve size alignment).answer = none →
      (t.reserve size alignment).state = t) ∧
    (∀ offset size, (t.release offset size).answer = true ↔ slotFor offset size ∈ ledger) ∧
    ∀ offset size, (t.release offset size).answer = false → (t.release offset size).state = t := by
  intro t ledger
  have hnew := refines_new hword tracking
  obtain ⟨ht, hslots⟩ : t.Refines ledger := hnew.run steps
  have hcapacity : t.capacity = capacity :=
    (capacity_run hnew.inOrder steps).trans (capacity_new ..)
  refine ⟨⟨hslots, pairwise_spans _⟩, ⟨fun s => ?_, pairwise_spans _⟩, ?_,
    fun _ _ => reserve_refused, fun offset size => ?_, fun _ _ => release_refused⟩
  · rw [ht.mem_freeSpans_iff_isMaximalGap, hcapacity]
    exact isMaximalGap_congr fun r => hslots.mem_iff
  · intro size alignment offset h
    obtain ⟨hinside, halign, hapart⟩ := reserve_place ht h
    exact ⟨hcapacity ▸ hinside, halign, fun r hr => hapart r (hslots.mem_iff.2 hr)⟩
  · rw [release_answer_iff ht, hslots.mem_iff]

/-- Releases with a wrong size, inside a slot, and of a slot that is gone are refused, and a slot of
no bytes comes back as one of one byte. -/
theorem refines_ledger_refusals :
    let steps := [.reserve 16 16, .reserve 0 8, .release 0 8, .release 4 4, .release 0 16,
      .release 0 16, .reserve 8 8, .release 16 1]
    let t := (new 64 {}).run steps
    64 < Word.limit ∧ (new 64 {}).ledgerFrom [] steps = [⟨0, 8⟩] ∧ t.slotSpans = [⟨0, 8⟩] ∧
      IsMaximalGap 64 [⟨0, 8⟩] ⟨8, 64⟩ ∧ (t.reserve 100 1).state = t ∧
      (t.release 0 7).state = t ∧ (t.release 0 8).answer = true := by
  intro steps t
  have hledger : (new 64 {}).ledgerFrom [] steps = [⟨0, 8⟩] := by decide
  obtain ⟨⟨hslots, -⟩, ⟨hfree, -⟩, -, hmissed, hknown, hunknown⟩ :=
    refines_ledger (by decide : 64 < Word.limit) {} steps
  rw [hledger] at hslots hfree hknown
  exact ⟨by decide, hledger, List.perm_singleton.1 hslots, (hfree _).1 (by decide),
    hmissed 100 1 (by decide), hunknown 0 7 (by decide), (hknown 0 8).2 (by decide)⟩

end BlockPool.Tracker
