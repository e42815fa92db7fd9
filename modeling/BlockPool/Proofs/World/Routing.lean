import BlockPool.Memory.Arena
import BlockPool.Proofs.Allocator.Routing
import BlockPool.Proofs.World.Descent

/-!
# Where a return ends

A return may name any address and any size: one of a slot, one inside of a slot, one that is gone
already, or one that was never handed out. An allocator takes it if the address lies in one of its
blocks, and nobody else is asked then. Its groups change only if the return names a slot, and then
by this slot alone.

Main statement: after any run, if the blocks of an allocator have no address in common, every return
to it ends that way.
-/

namespace BlockPool.World

variable {σ : Type} {w : World σ} {id : Nat} {a : Allocator} {address size : Nat}

/-! ## Addresses in no block -/

/-- `update` with the allocator that is there changes the memory only. -/
lemma update_self (ha : w.allocator? id = some a) (m' : Memory σ) :
    w.update id a m' = { w with memory := m' } := by
  have hset := congrArg (fun out => { out.2 with memory := m' }) (setAllocator_self ha)
  exact hset

/-- Of two allocators put in the same place by `update`, the second one stays. -/
lemma update_update (w : World σ) (id : Nat) (a a' : Allocator) (m m' : Memory σ) :
    (w.update id a m).update id a' m' = w.update id a' m' := by
  unfold update
  rw [List.set_set]

/-- Whether an allocator is left as it is. -/
def Spares (id : Nat) (a : Allocator) (w w' : World σ) : Prop :=
  w.allocator? id = some a → w'.allocator? id = some a

/-- `Spares` holds of nothing and of one thing after another, as `Passage` says. -/
lemma passage_spares (id : Nat) (a : Allocator) : Passage (Spares (σ := σ) id a) where
  refl _ := fun ha => ha
  trans h h' := fun ha => h' (h ha)
  memory _ _ _ := fun ha => ha

section System

variable [System σ]

/-- An allocator is spared by a return of an address in none of its blocks, whoever is shown the
address. -/
lemma spares_deallocatePooled (howns : a.owns address = false) {j : Nat} {b : Allocator}
    (hb : w.allocator? j = some b) :
    Ends (b.deallocatePooled address size) w.memory fun out m' =>
      Spares id a w (w.update j out.2 m') := by
  by_cases hid : id = j
  · subst hid
    by_cases ha : w.allocator? id = some a
    · obtain rfl := Option.some.inj (ha.symm.trans hb)
      rw [Allocator.deallocatePooled_of_not_owns howns]
      exact fun _ => (allocator?_update ha).trans (if_pos rfl)
    · exact Ends.trivial.mono fun _ _ _ ha' => absurd ha' ha
  · refine Ends.trivial.mono fun out m' _ ha => ?_
    rw [allocator?_update hb, if_neg hid]
    exact ha

/-- A return of an address in none of its blocks leaves an allocator as it is, even if
`deallocateWith` gets to it on the way. -/
lemma ends_deallocateWith_elsewhere (howns : a.owns address = false)
    (ha : w.allocator? id = some a) (depth : Nat) (chain : Chain) :
    Ends (deallocateWith (.upTo depth) id a chain address size) w fun _ w' =>
      w'.allocator? id = some a := by
  have hspares := passage_spares (σ := σ) id a
  have hlinks : (Links.upTo depth : Links σ).ReturnsAlong (Spares id a) address size :=
    returnsAlong_upTo hspares (spares_deallocatePooled howns) depth
  exact (hlinks.deallocateWith hspares (spares_deallocatePooled howns ha) chain).mono
    fun _ _ h => h ha

/-! ## Addresses in a block -/

/-- `deallocateWith` at an address in a block is `afterRelease` of that block, and nobody else has a
part in it. -/
lemma deallocateWith_contained (ha : a.Routed) {affinity : Affinity} {g : Group} {key : Nat}
    {b : Block} (hg : a.groups.find? affinity = some g) (hb : g.blocks.find? key = some b)
    (hcontains : b.contains address = true) (links : Links σ) (id : Nat) (chain : Chain)
    (size : Nat) (w : World σ) :
    deallocateWith links id a chain address size w =
      (true, w.update id (a.setBlock affinity g key (b.afterRelease address size))
        (a.deallocatePooled address size w.memory).2) := by
  have hout := (ha.deallocatePooled hg hb hcontains size w.memory).1
  have hpool : onMemory (a.deallocatePooled address size) w =
      ((true, a.setBlock affinity g key (b.afterRelease address size)),
        { w with memory := (a.deallocatePooled address size w.memory).2 }) := by
    rw [← hout]
    rfl
  unfold deallocateWith
  rw [bind_apply_eq hpool]
  rfl

omit [System σ] in
/-- `deallocatePooled` makes no use of the `wiring`. -/
lemma deallocatePooled_withWiring (a : Allocator) (x : Allocator.Wiring) (address size : Nat)
    (m : Memory σ) :
    ((a.withWiring x).deallocatePooled address size m).2 =
      (a.deallocatePooled address size m).2 := by
  have howner : (a.withWiring x).owner? address = a.owner? address := rfl
  unfold Allocator.deallocatePooled
  rw [howner]
  cases a.owner? address <;> rfl

/-! ## Returns -/

/-- How `World.deallocate` of an allocator ends. -/
structure Returns (w : World σ) (id : Nat) (a : Allocator) (chain : Chain)
    (address size : Nat) : Prop where
  /-- The groups change if and only if the return names a slot. -/
  changed_iff : Ends (deallocate id chain address size) w fun _ w' =>
    ∃ a', w'.allocator? id = some a' ∧
      (a'.groups ≠ a.groups ↔ ⟨address, Tracker.slotSize size⟩ ∈ a.slots)
  /-- A slot is released in the books of its block, and nothing else changes. -/
  released : ⟨address, Tracker.slotSize size⟩ ∈ a.slots → ∃ affinity g key b m',
    a.groups.find? affinity = some g ∧ g.blocks.find? key = some b ∧
      (b.tracker.release (address - b.base) size).answer = true ∧ w.memory.Quiet m' ∧
      deallocate id chain address size w =
        (some true, w.update id (a.setBlock affinity g key (b.afterRelease address size)) m')
  /-- An address in a block without such a slot is taken, and nothing changes. It would be so
  whatever fallbacks the allocator had, and whatever these would do. -/
  claimed : (∃ affinity key b, a.block? affinity key = some b ∧ b.contains address = true) →
    ⟨address, Tracker.slotSize size⟩ ∉ a.slots → ∃ m', w.memory.Quiet m' ∧
      deallocate id chain address size w = (some true, { w with memory := m' }) ∧
      ∀ links x, deallocateWith links id (a.withWiring x) chain address size w =
        (true, w.update id (a.withWiring x) m')

/-- `World.deallocate` is `deallocateWith` of an allocator that is there. -/
lemma deallocate_there {chain : Chain} (ha : w.allocator? id = some a) {known : Bool}
    {w' : World σ} (h : deallocateWith (.upTo w.allocators.length) id a chain address size w =
      (known, w')) :
    deallocate id chain address size w = (some known, w') := by
  have hends : Ends (deallocate id chain address size) w fun answer w'' =>
      (answer, w'') = (some known, w') := by
    refine ends_deallocate_there ha ?_
    unfold Ends
    rw [h]
  exact hends

/-- A return to a `Routed` allocator ends as `Returns` says. -/
lemma returns_of_routed (ha : w.allocator? id = some a) (hrouted : a.Routed) (chain : Chain)
    (address size : Nat) : w.Returns id a chain address size := by
  -- what is known if the address lies in a block
  have hcontained : ∀ {affinity key b}, a.block? affinity key = some b →
      b.contains address = true → ∃ g m', a.groups.find? affinity = some g ∧
        g.blocks.find? key = some b ∧ w.memory.Quiet m' ∧
        deallocate id chain address size w =
          (some true, w.update id (a.setBlock affinity g key (b.afterRelease address size)) m') ∧
        ∀ links x, deallocateWith links id (a.withWiring x) chain address size w =
          (true, w.update id
            ((a.withWiring x).setBlock affinity g key (b.afterRelease address size)) m') := by
    intro affinity key b hb hcontains
    obtain ⟨g, hg, hfind⟩ := Option.bind_eq_some_iff.1 hb
    refine ⟨g, _, hg, hfind, (hrouted.deallocatePooled hg hfind hcontains size w.memory).2,
      deallocate_there ha (deallocateWith_contained hrouted hg hfind hcontains ..),
      fun links x => ?_⟩
    have hrewired : (a.withWiring x).Routed := ⟨⟨hrouted.keyed, hrouted.apart⟩, hrouted.ok⟩
    rw [deallocateWith_contained hrewired hg hfind hcontains, deallocatePooled_withWiring]
  refine ⟨?_, ?_, ?_⟩
  · by_cases howns : ∃ affinity key b, a.block? affinity key = some b ∧ b.contains address = true
    · obtain ⟨affinity, key, b, hb, hcontains⟩ := howns
      obtain ⟨g, m', hg, hfind, -, hend, -⟩ := hcontained hb hcontains
      rw [hrouted.mem_slots_iff_release hb hcontains]
      unfold Ends
      rw [hend]
      refine ⟨_, (allocator?_update ha).trans (if_pos rfl), ?_⟩
      constructor
      · intro hne
        by_contra hanswer
        have hsame := Block.afterRelease_self (Bool.eq_false_iff.2 hanswer)
        rw [hsame, Allocator.setBlock_self hg hfind] at hne
        exact hne rfl
      · intro hanswer
        exact Allocator.setBlock_groups_ne hg hfind
          (Block.afterRelease_ne (hrouted.ok hb) hanswer)
    · have hunowned : a.owns address = false :=
        Bool.eq_false_iff.2 fun htrue => howns (hrouted.owns_iff.1 htrue)
      have hslot : (⟨address, Tracker.slotSize size⟩ : Extent) ∉ a.slots :=
        fun hx => howns (hrouted.owns_of_slot hx)
      refine ends_deallocate_there ha ?_
      refine (ends_deallocateWith_elsewhere hunowned ha _ chain).mono ?_
      intro _ w' ha'
      exact ⟨a, ha', fun hne => absurd rfl hne, fun hx => absurd hx hslot⟩
  · intro hx
    obtain ⟨affinity, key, b, hb, hcontains⟩ := hrouted.owns_of_slot hx
    obtain ⟨g, m', hg, hfind, hquiet, hend, -⟩ := hcontained hb hcontains
    exact ⟨affinity, g, key, b, m', hg, hfind,
      (hrouted.mem_slots_iff_release hb hcontains size).1 hx, hquiet, hend⟩
  · rintro ⟨affinity, key, b, hb, hcontains⟩ hx
    obtain ⟨g, m', hg, hfind, hquiet, hend, hall⟩ := hcontained hb hcontains
    have hsame : b.afterRelease address size = b := by
      refine Block.afterRelease_self (Bool.eq_false_iff.2 fun hanswer => hx ?_)
      exact (hrouted.mem_slots_iff_release hb hcontains size).2 hanswer
    refine ⟨m', hquiet, ?_, fun links x => ?_⟩
    · rw [hend, hsame, Allocator.setBlock_self hg hfind, update_self ha]
    · rw [hall, hsame, Allocator.setBlock_self (a := a.withWiring x) hg hfind]

/-! ## Runs -/

/-- After any run of an `Unused` world, an allocator whose regions are disjoint is `Routed`. -/
theorem Unused.routed_run (h : w.Unused) (steps : List Step) :
    Ends (run steps) w fun _ w' => ∀ id a, w'.allocator? id = some a →
      a.regions.Pairwise Region.Disjoint → a.Routed := by
  refine (h.made_run (promises_true σ) steps).mono fun _ w' hmade id a ha hapart => ?_
  refine ⟨⟨fun hb => (hmade id a ha _ _ _ hb).1, hapart⟩, fun hb => ?_⟩
  obtain ⟨-, _, _, _, -, -, hmade⟩ := hmade id a ha _ _ _ hb
  exact hmade.ok

/-- After any run, if the blocks of an allocator have no address in common, then for every address
and size: the address lies in one block at most, `owner?` finds what a walk through the blocks of a
group finds, and a return to the allocator changes its groups if and only if it names a slot, and
then by releasing this slot alone. An address in a block is taken even if there is no such slot;
then nothing changes, and no fallback is asked. -/
theorem Unused.returns_routed (h : w.Unused) (steps : List Step) (id : Nat) :
    Ends (run steps) w fun _ w' => ∀ a, w'.allocator? id = some a →
      a.regions.Pairwise Region.Disjoint → ∀ address size chain,
        (∀ affinity key b affinity' key' b', a.block? affinity key = some b →
          b.contains address = true → a.block? affinity' key' = some b' →
            b'.contains address = true → affinity = affinity' ∧ key = key') ∧
        (∀ affinity g, a.groups.find? affinity = some g →
          g.owner? address = g.blocks.entries.find? fun e => e.2.contains address) ∧
        w'.Returns id a chain address size := by
  refine (h.routed_run steps).mono fun _ w' hrouted a ha hapart address size chain => ?_
  have hrouted := hrouted id a ha hapart
  refine ⟨fun _ _ _ _ _ _ hb hin hb' hin' => hrouted.place_unique hb hin hb' hin',
    fun _ _ hg => (hrouted.group hg).owner?_eq_find? address, ?_⟩
  exact returns_of_routed ha hrouted chain address size

end System

/-- An allocator without blocks. -/
def smallBlocks : World Arena := .ofSettings (.new 4096 .low) [({ defaultBlockSize := 64 }, [])]

lemma unused_smallBlocks : smallBlocks.Unused := by
  intro a ha
  have ha : a ∈ [Allocator.ofSettings { defaultBlockSize := 64 } []] := ha
  exact ⟨_, _, List.mem_singleton.1 ha⟩

/-- One block for each of two affinities, one right behind the other. -/
def twoAffinities : List Step := [.allocate 0 .full 64 .objects, .allocate 0 .full 100 .data]

/-- An address inside the slot of the second block is taken, and nothing changes; its start with its
size is released, and the groups change. -/
theorem returns_routed_two_affinities :
    smallBlocks.Unused ∧ Ends (run twoAffinities) smallBlocks fun _ w => ∃ a,
      w.allocator? 0 = some a ∧ a.regions.Pairwise Region.Disjoint ∧
      (∃ m', deallocate 0 .full (Arena.base + 70) 94 w = (some true, { w with memory := m' })) ∧
      Ends (deallocate 0 .full (Arena.base + 64) 100) w fun _ w' =>
        ∃ a', w'.allocator? 0 = some a' ∧ a'.groups ≠ a.groups := by
  have hrouted := unused_smallBlocks.returns_routed twoAffinities 0
  refine ⟨unused_smallBlocks, ?_⟩
  let w : World Arena := (run twoAffinities smallBlocks).2
  let a : Allocator := (w.allocator? 0).getD default
  have ha : w.allocator? 0 = some a := rfl
  have hapart : a.regions.Pairwise Region.Disjoint :=
    ⟨[⟨.sized, Arena.base, ⟨64, 16⟩⟩, ⟨.sized, Arena.base + 64, ⟨100, 16⟩⟩],
      by decide +kernel, by decide⟩
  refine ⟨a, ha, hapart, ?_, ?_⟩
  · have hclaimed := (hrouted a ha hapart (Arena.base + 70) 94 .full).2.2.claimed
    have hin : ∃ b ∈ a.block? .data (Arena.base + 64), b.contains (Arena.base + 70) = true := by
      decide +kernel
    obtain ⟨b, hb, hcontains⟩ := hin
    obtain ⟨m', -, hend, -⟩ := hclaimed ⟨_, _, b, hb, hcontains⟩ (by decide +kernel)
    exact ⟨m', hend⟩
  · have hchanged := (hrouted a ha hapart (Arena.base + 64) 100 .full).2.2.changed_iff
    obtain ⟨a', ha', hiff⟩ := hchanged
    exact ⟨a', ha', hiff.2 (by decide +kernel)⟩

end BlockPool.World
