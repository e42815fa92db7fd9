import BlockPool.Proofs.Usage
import BlockPool.Proofs.World.Course
import BlockPool.Proofs.World.Widening

/-!
# Requests that fail

A request that nobody serves leaves the slots of all allocators as they were. So every block that
was there is what it was, and all memory that came is gone again, but for the memory of empty
blocks.
-/

namespace BlockPool.World

variable {σ : Type} {w w' : World σ} {inner : Nat → Prop} {size : Nat} {affinity : Affinity}
  {events events' : List Event} {parcels : Multiset Parcel}

/-! ## The same slots in the end -/

/-- Every allocator of a world that `Keeps` its parcels is `Routed`. -/
lemma Keeps.routed (h : w.Keeps parcels) {id : Nat} {a : Allocator}
    (ha : w.allocator? id = some a) : a.Routed := by
  obtain ⟨held, -, hmemory, -, -⟩ := h.focus ha
  have hblock : ∀ {affinity key b}, a.block? affinity key = some b → b.base = key ∧ b.Ok := by
    intro affinity key b hb
    obtain ⟨g, hg, hfind⟩ := Option.bind_eq_some_iff.1 hb
    exact ((h.ok ha).group hg).block hfind
  have hpair : (a.regions + held).Pairwise Region.Disjoint := by
    rw [← hmemory.live]
    exact ⟨w.memory.live, rfl, hmemory.apart⟩
  exact ⟨⟨fun hb => (hblock hb).1, Region.pairwise_of_add hpair⟩, fun hb => (hblock hb).2⟩

/-- No slot is counted twice in a world that `Keeps` its parcels. -/
lemma Keeps.slots_nodup (h : w.Keeps parcels) {id : Nat} {a : Allocator}
    (ha : w.allocator? id = some a) : a.slots.Nodup := by
  obtain ⟨held, -, hmemory, -, -⟩ := h.focus ha
  refine Multiset.nodup_iff_ne_cons_cons.2 fun x rest heq => ?_
  -- a slot that is there twice would be apart from itself
  have happart := (h.ok ha).slots_apart hmemory x x rest heq
  have hmem : x ∈ a.slots := heq ▸ Multiset.mem_cons_self ..
  obtain ⟨affinity, key, b, hb, hx⟩ := Allocator.mem_slots_iff_block?.1 hmem
  have hpos := ((h.routed ha).ok hb).slot_pos hx
  unfold Extent.Apart at happart
  omega

/-- No region is counted twice in a world that `Keeps` its parcels. -/
lemma Keeps.regions_nodup (h : w.Keeps parcels) : w.regions.Nodup := by
  refine Multiset.nodup_iff_ne_cons_cons.2 fun r rest heq => ?_
  have hmemory := h.memory
  rw [heq, Multiset.cons_add, Multiset.cons_add] at hmemory
  have hdisjoint := hmemory.disjoint rfl
  have hpos := (hmemory.proper r (Multiset.mem_cons_self ..)).size_pos
  unfold Region.Disjoint Region.stop at hdisjoint
  omega

/-- The parcels determine `a.slots` of every allocator. -/
lemma Keeps.slots_eq (h : w.Keeps parcels) (h' : w'.Keeps parcels) {id : Nat} {a a' : Allocator}
    (ha : w.allocator? id = some a) (ha' : w'.allocator? id = some a') : a'.slots = a.slots := by
  refine ((h'.slots_nodup ha').ext (h.slots_nodup ha)).2 fun x => ?_
  have hslots : w'.slots = w.slots := h'.slots.trans h.slots.symm
  have hmem : (id, x) ∈ w'.slots ↔ (id, x) ∈ w.slots := by rw [hslots]
  rw [mem_slots_iff, mem_slots_iff, ha, ha'] at hmem
  simpa using hmem

/-- `w.regions` are the regions of the blocks that `block?` finds. -/
lemma mem_regions_iff_block? {r : Region} :
    r ∈ w.regions ↔ ∃ id a affinity key b,
      w.allocator? id = some a ∧ a.block? affinity key = some b ∧ b.region = r := by
  rw [mem_regions_iff]
  constructor
  · rintro ⟨id, a, ha, hr⟩
    obtain ⟨g, hg, hr⟩ := Multiset.mem_bind.1 hr
    obtain ⟨affinity, hg⟩ := Table.mem_values_iff.1 hg
    obtain ⟨b, hb, hregion⟩ := Multiset.mem_map.1 hr
    obtain ⟨key, hfind⟩ := Table.mem_values_iff.1 hb
    exact ⟨id, a, affinity, key, b, ha, (Allocator.block?_of_find? hg key).trans hfind, hregion⟩
  · rintro ⟨id, a, affinity, key, b, ha, hb, rfl⟩
    obtain ⟨g, hg, hfind⟩ := Option.bind_eq_some_iff.1 hb
    exact ⟨id, a, ha, Multiset.mem_bind.2
      ⟨g, Table.mem_values_iff.2 ⟨affinity, hg⟩, Group.region_mem hfind⟩⟩

/-! ## Failures -/

/-- What `World.allocate` does if it fails with a `reason`, and `events` are all that is logged
meanwhile. -/
structure Failure (w : World σ) [System σ] (id size : Nat) (affinity : Affinity)
    (reason : AllocationError) (events : List Event) (w' : World σ) : Prop where
  log : w'.memory.log = events ++ w.memory.log
  /-- The error is the one with which the group of the allocator could not grow. -/
  refused : ∃ a, w.allocator? id = some a ∧ a.Refuses size affinity reason w.memory
  /-- All blocks that were there are what they were. The allocator itself may have an empty group
  more, allocators nested in it may have empty blocks more as well, and the others are the same. -/
  allocator {j : Nat} {a : Allocator} : w.allocator? j = some a →
    ∃ a', w'.allocator? j = some a' ∧ a'.reserved = a.reserved ∧
      (∀ other key b, a.block? other key = some b → a'.block? other key = some b) ∧
      (a' = a ∨ j = id ∧ a' = a.setGroup affinity (a.groupFor affinity) ∨
        Relation.TransGen w.plan.Nests id j ∧ a.Widens size affinity (SentBack events) a')
  length : w'.allocators.length = w.allocators.length
  boxes : w'.boxes = w.boxes
  /-- Whatever came from the system went back the right way, but for the memory of new blocks. -/
  memory : ∃ new, w'.regions = w.regions + new ∧ obtained events = returned events + new ∧
    (w'.memory.live : Multiset Region) = w.memory.live + new ∧
    ∀ named status, .released named status ∈ events → status = .ok

/-- If the parcels are the same before and after, what was `obtained` is what was `returned` and the
regions of new blocks. -/
lemma Keeps.balanced_between (h : w.Keeps parcels) (h' : w'.Keeps parcels)
    (hlog : w'.memory.log = events ++ w.memory.log) (hregions : w.regions ⊆ w'.regions) :
    ∃ new, w'.regions = w.regions + new ∧ obtained events = returned events + new ∧
      (w'.memory.live : Multiset Region) = w.memory.live + new ∧
      ∀ named status, .released named status ∈ events → status = .ok := by
  obtain ⟨new, hnew⟩ :=
    Multiset.le_iff_exists_add.1 ((Multiset.le_iff_subset h.regions_nodup).2 hregions)
  refine ⟨new, hnew, ?_, ?_, fun named status hmem => ?_⟩
  · -- both logs add up to what is in use, and the parcels among it are the same
    have hbefore := h.memory.balanced
    have hafter := h'.memory.balanced
    rw [hlog, obtained_append, returned_append, hbefore, hnew] at hafter
    ext r
    have hcount := congrArg (Multiset.count r) hafter
    simp only [Multiset.count_add] at hcount ⊢
    omega
  · rw [h'.memory.live, h.memory.live, hnew]
    exact add_right_comm ..
  · exact h'.memory.received named status (hlog ▸ List.mem_append_left _ hmem)

/-- After a request that failed, an allocator is the same or `Widens` by blocks at addresses that
were `SentBack`. -/
lemma Widened.allocator_eq_or (h : w.Widened inner size affinity none events w')
    (hkeeps : w.Keeps parcels) (hkeeps' : w'.Keeps parcels) {id : Nat} {a : Allocator}
    (ha : w.allocator? id = some a) :
    ∃ a', w'.allocator? id = some a' ∧
      (a' = a ∨ inner id ∧ a.Widens size affinity (SentBack events) a') := by
  obtain ⟨a', ha', hend⟩ := h.allocator ha
  have hsame := hkeeps.slots_eq hkeeps' ha ha'
  have hslots : ∀ x, x ∈ a'.slots ↔ x ∈ a.slots := fun x => by rw [hsame]
  refine ⟨a', ha', ?_⟩
  rcases hend with hblank | ⟨hinner, hwidens⟩
  · exact .inl (Allocator.eq_of_blank (hkeeps.routed ha) (hkeeps'.routed ha') hslots hblank)
  · have hwidens' := hwidens.of_blank (hkeeps.routed ha) (hkeeps'.routed ha') hslots
    exact .inr ⟨hinner, hwidens'.mono fun base h => h.resolve_right (by simp)⟩

section System

variable [System σ]

/-- A request is a `Failure` if the group `Refuses` it and the fallbacks are `Widened` with nothing
served. -/
lemma failure_of_widened (h : w.Keeps parcels) (h' : w'.Keeps parcels) {id : Nat} {a : Allocator}
    (ha : w.allocator? id = some a) {reason : AllocationError}
    (hrefuses : a.Refuses size affinity reason w.memory) {m₁ : Memory σ}
    (hlog : m₁.log = events ++ w.memory.log)
    (h₁ : (w.update id (a.setGroup affinity (a.groupFor affinity)) m₁).Keeps parcels)
    (hwidened : (w.update id (a.setGroup affinity (a.groupFor affinity)) m₁).Widened
      (Relation.TransGen w.plan.Nests id) size affinity none events' w')
    (hlength : w'.allocators.length = w.allocators.length) (hboxes : w'.boxes = w.boxes) :
    w.Failure id size affinity reason (events' ++ events) w' := by
  have hlog' : w'.memory.log = (events' ++ events) ++ w.memory.log := by
    rw [hwidened.log, List.append_assoc, ← hlog]
    rfl
  have hback : ∀ base, SentBack events' base → SentBack (events' ++ events) base :=
    fun _ hback => hback.mono (List.subset_append_left ..)
  have hallocator : ∀ {j b}, w.allocator? j = some b → ∃ b', w'.allocator? j = some b' ∧
      (∀ other key c, b.block? other key = some c → b'.block? other key = some c) ∧
      (b' = b ∨ j = id ∧ b' = b.setGroup affinity (b.groupFor affinity) ∨
        Relation.TransGen w.plan.Nests id j ∧
          b.Widens size affinity (SentBack (events' ++ events)) b') := by
    intro j b hb
    -- first its own group may be made, and then the chain is asked
    obtain ⟨b₁, hb₁, hfirst⟩ : ∃ b₁,
        (w.update id (a.setGroup affinity (a.groupFor affinity)) m₁).allocator? j = some b₁ ∧
          (b₁ = b ∨ j = id ∧ b₁ = b.setGroup affinity (b.groupFor affinity)) := by
      rw [allocator?_update ha]
      split
      · rename_i hj
        subst hj
        obtain rfl := Option.some.inj (ha.symm.trans hb)
        exact ⟨_, rfl, .inr ⟨rfl, rfl⟩⟩
      · exact ⟨b, hb, .inl rfl⟩
    have hmade : b.Widens size affinity (SentBack (events' ++ events)) b₁ := by
      rcases hfirst with rfl | ⟨-, rfl⟩
      · exact .inl rfl
      · exact b.widens_groupFor ..
    obtain ⟨b', hb', hlast⟩ := hwidened.allocator_eq_or h₁ h' hb₁
    refine ⟨b', hb', ?_⟩
    rcases hlast with rfl | ⟨hinner, hwidens⟩
    · exact ⟨fun _ _ _ hc => hmade.block?_eq_some hc, hfirst.imp_right .inl⟩
    · have hwidens := hmade.trans (hwidens.mono hback)
      exact ⟨fun _ _ _ hc => hwidens.block?_eq_some hc, .inr (.inr ⟨hinner, hwidens⟩)⟩
  have hregions : w.regions ⊆ w'.regions := by
    intro r hr
    obtain ⟨j, b, other, key, c, hb, hc, hregion⟩ := mem_regions_iff_block?.1 hr
    obtain ⟨b', hb', hkept, -⟩ := hallocator hb
    exact mem_regions_iff_block?.2 ⟨j, b', other, key, c, hb', hkept other key c hc, hregion⟩
  refine ⟨hlog', ⟨a, ha, hrefuses⟩, fun {j b} hb => ?_, hlength, hboxes,
    h.balanced_between h' hlog' hregions⟩
  obtain ⟨b', hb', hkept, hend⟩ := hallocator hb
  refine ⟨b', hb', ?_, hkept, hend⟩
  rw [(h'.ok hb').reserved_eq, (h.ok hb).reserved_eq, h.slots_eq h' hb hb']

lemma pooling_boxes : Pooling fun w w' : World σ => w'.boxes = w.boxes where
  refl _ := rfl
  trans h h' := h'.trans h
  memory _ _ _ := rfl
  allocatePooled _ _ _ := Ends.trivial.mono fun _ _ _ => rfl
  deallocatePooled _ _ _ := Ends.trivial.mono fun _ _ _ => rfl

/-- A request that fails is a `Failure`, in a world that `Keeps` its parcels. -/
lemma Keeps.failure [LawfulSystem σ] (h : w.Keeps parcels) (hclosed : w.plan.Closed) (id : Nat)
    (chain : Chain) (size : Nat) (affinity : Affinity) :
    Ends (World.allocate id chain size affinity) w fun answer w' => ∀ reason,
      answer = some (.error reason) → ∃ events, w.Failure id size affinity reason events w' := by
  refine ends_allocate (fun _ _ hnone => absurd hnone (by simp)) fun a ha => ?_
  refine ((pooling_boxes.allocateWith ha _ chain size affinity).and
    (((sound_upTo _).allocateWith h hclosed ha chain size affinity).and
      ((widening_upTo _).allocateWith h hclosed ha chain size affinity))).mono ?_
  rintro answer w' ⟨hboxes, ⟨hplan, hgains⟩, hend⟩ reason hreason
  obtain rfl := Option.some.inj hreason
  obtain ⟨hrefuses, m₁, events, events', hlog, h₁, hwidened⟩ := hend
  have hlength : w'.allocators.length = w.allocators.length := by
    rw [← plan_length, ← plan_length, hplan]
  exact ⟨_, failure_of_widened h hgains ha hrefuses hlog h₁ hwidened hlength hboxes⟩

/-! ## Failures in a course -/

/-- `Failure` does not depend on the past. -/
lemma Failure.of_recalling {id : Nat} {reason : AllocationError} {past : List Event}
    (h : (w.recalling past).Failure id size affinity reason events
      (w'.recalling (events' ++ past)))
    (hlog : w'.memory.log = events' ++ w.memory.log) :
    w.Failure id size affinity reason events' w' := by
  obtain rfl : events' = events := List.append_cancel_right h.log
  obtain ⟨a, ha, hrefuses⟩ := h.refused
  have hsystem : (w.recalling past).memory.system = w.memory.system := rfl
  exact ⟨hlog, ⟨a, ha, (Allocator.refuses_congr hsystem rfl).1 hrefuses⟩, h.allocator, h.length,
    h.boxes, h.memory⟩

/-- At any point of a `Course`, a request that fails is a `Failure`: it has the error of its own
group, whatever the fallbacks did, and leaves every block that was there as it was, in any
allocator. The reserved bytes of all allocators are the same, and all memory that came has gone back
with its own layout. What is left is an empty group in the place of one that was missing, new empty
blocks in nested allocators at addresses that were sent back, and their choice of where to search
first. -/
theorem Course.failed_request [LawfulSystem σ] {ledger : List Grant} (h : Course w ledger)
    (id : Nat) (chain : Chain) (size : Nat) (affinity : Affinity) :
    Ends (allocate id chain size affinity) w fun answer w' => ∀ reason,
      answer = some (.error reason) → ∃ events, w.Failure id size affinity reason events w' := by
  obtain ⟨past, homes, lost, hstock⟩ := h.stocked
  obtain ⟨events, hlog, hsame⟩ := (oblivious_allocate id chain size affinity).exists_events w
  have hfailure := hstock.keeps.failure hstock.closed id chain size affinity
  have hend := hfailure.apply (hsame past)
  show ∀ reason, (allocate id chain size affinity w).1 = some (.error reason) → _
  intro reason hreason
  obtain ⟨events', hfailure⟩ := hend reason hreason
  exact ⟨events, hfailure.of_recalling hlog⟩

end System

/-- Two allocators, the second nested in the first and with a smaller alignment. -/
def uneven : World Arena where
  memory := { system := .new 256 .low }
  allocators :=
    [.ofSettings { defaultAlignment := 64, defaultBlockSize := 200 } [.allocator 1 true],
      .ofSettings { defaultAlignment := 16, defaultBlockSize := 32 } []]

/-- The world `uneven` is the start of a `Course`. -/
lemma course_uneven : Course uneven [] := by
  refine .start _ fun a ha => ?_
  rcases List.mem_cons.1 ha with rfl | ha
  · exact ⟨_, _, rfl, fun s hs => ⟨1, true, List.mem_singleton.1 hs⟩⟩
  · rw [List.mem_singleton.1 ha]
    exact ⟨_, _, rfl, fun s hs => absurd hs List.not_mem_nil⟩

/-- `uneven` after a request to the nested allocator. -/
def strained : World Arena := (step (.allocate 1 .full 16 .objects) uneven).2

/-- `strained` after a request that nobody can serve. -/
def refused : World Arena := (allocate 0 .full 100 .objects strained).2

/-- The nested allocator offers a new block, which is sent back and stays. -/
theorem failed_request_sent_back : ∃ (ledger : List Grant) (events : List Event),
    Course strained ledger ∧ ledger.map (·.address - Arena.base) = [0] ∧
      (allocate 0 .full 100 .objects strained).1 = some (.error (.systemRefused 200 64)) ∧
      strained.Failure 0 100 .objects (.systemRefused 200 64) events refused ∧
      (strained.allocators.map fun a => (a.block? .objects (Arena.base + 32)).isSome) =
        [false, false] ∧
      (refused.allocators.map fun a => (a.block? .objects (Arena.base + 32)).isSome) =
        [false, true] := by
  have hcourse := course_uneven.step (.allocate 1 .full 16 .objects) trivial Prod.mk.eta.symm
  have hanswer : (allocate 0 .full 100 .objects strained).1 =
      some (.error (.systemRefused 200 64)) := by decide +kernel
  obtain ⟨events, hfailure⟩ := hcourse.failed_request 0 .full 100 .objects _ hanswer
  exact ⟨_, events, hcourse, by decide +kernel, hanswer, hfailure, by decide +kernel,
    by decide +kernel⟩

end BlockPool.World
