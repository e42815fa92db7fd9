import BlockPool.Memory.Arena
import BlockPool.Proofs.Allocator.Growth
import BlockPool.Proofs.Allocator.Routing
import BlockPool.Proofs.World.Descent
import BlockPool.Proofs.World.Owner
import BlockPool.Proofs.World.View

/-!
# Nested allocators

An allocator that serves as a strategy of another one uses its groups and the allocators nested in
it, and leaves the heap at the end of its chain alone. So does every allocator of its tree, at any
depth: the heaps could be taken away, and nothing would be different.

Main statement: after any run, an allocator used as a strategy asks the system for new blocks of the
groups in its tree and for nothing else. It takes an address back if and only if the address lies in
a block of its tree, gives no memory back then, and changes nothing if it does not take the address.
-/

namespace BlockPool

/-! ## Allocators without their heaps -/

namespace Allocator

variable {σ : Type} (m : Memory σ)

/-- An allocator without the heap at the end of its chain. -/
def withoutBackstop (a : Allocator) : Allocator := { a with backstop := none }

/-- `ensureGroup` makes no use of the heap of an allocator. -/
lemma ensureGroup_withoutBackstop (a : Allocator) (affinity : Affinity) :
    Mirrors (fun m => m) (fun out => (out.1, out.2.withoutBackstop)) (a.ensureGroup affinity)
      (a.withoutBackstop.ensureGroup affinity) m fun _ _ => True := by
  have hgroups : a.withoutBackstop.groups = a.groups := rfl
  unfold ensureGroup
  rw [hgroups]
  cases a.groups.find? affinity <;> exact ⟨rfl, trivial⟩

/-- `allocatePooled` makes no use of the heap of an allocator. -/
lemma allocatePooled_withoutBackstop [System σ] (a : Allocator) (size : Nat)
    (affinity : Affinity) :
    Mirrors (fun m => m) (fun out => (out.1, out.2.withoutBackstop))
      (a.allocatePooled size affinity) (a.withoutBackstop.allocatePooled size affinity) m
      fun _ _ => True := by
  unfold allocatePooled
  refine (a.ensureGroup_withoutBackstop m affinity).bind fun out m₁ _ => ?_
  refine (Mirrors.self (out.1.allocate size out.2.tracking) m₁).bind fun out' m₂ _ => ?_
  rcases out' with ⟨_ | _, _⟩ <;> exact ⟨rfl, trivial⟩

/-- `deallocatePooled` makes no use of the heap of an allocator. -/
lemma deallocatePooled_withoutBackstop [System σ] (a : Allocator) (address size : Nat) :
    Mirrors (fun m => m) (fun out => (out.1, out.2.withoutBackstop))
      (a.deallocatePooled address size) (a.withoutBackstop.deallocatePooled address size) m
      fun _ _ => True := by
  have howner : a.withoutBackstop.owner? address = a.owner? address := rfl
  unfold deallocatePooled
  rw [howner]
  cases a.owner? address <;> exact ⟨rfl, trivial⟩

end Allocator

/-! ## Trees -/

namespace World

variable {σ : Type} {w₀ w : World σ} {id size : Nat} {affinity : Affinity}

/-- A world with each of its allocators `withoutBackstop`. -/
def withoutBackstops (w : World σ) : World σ :=
  { w with allocators := w.allocators.map Allocator.withoutBackstop }

/-- `Group.Keyed` holds of every group: blocks are stored under their `base`. -/
def Keyed (w : World σ) : Prop :=
  ∀ k a, w.allocator? k = some a → ∀ affinity, (a.groupFor affinity).Keyed

/-- An event that `IsGrowth` of a group of some allocator `InTree`. -/
def GrowsTree (w : World σ) (id size : Nat) (affinity : Affinity) (w' : World σ) (event : Event) :
    Prop :=
  ∃ k a a', w.plan.InTree id k ∧ w.allocator? k = some a ∧ w'.allocator? k = some a' ∧
    (a.groupFor affinity).IsGrowth size (a'.groupFor affinity) event

/-- A world after requests of one size and any returns that went along a tree: each group `Feeds`
on, and all that was done to the system `IsGrowth`. -/
structure Feeds (w₀ : World σ) (id size : Nat) (affinity : Affinity) (w : World σ) : Prop where
  plan : w.plan = w₀.plan
  groups {k : Nat} {a a' : Allocator} : w₀.allocator? k = some a → w.allocator? k = some a' →
    (a.groupFor affinity).Feeds size (a'.groupFor affinity)
  does : w₀.memory.Does (w₀.GrowsTree id size affinity w) w.memory

lemma Feeds.refl (w : World σ) (id size : Nat) (affinity : Affinity) :
    w.Feeds id size affinity w := by
  refine ⟨rfl, fun ha ha' => ?_, .refl _ w.memory⟩
  rw [Option.some.inj (ha.symm.trans ha')]
  exact .refl _ size

/-- `Feeds` survives a `Quiet` action. -/
lemma Feeds.quiet (h : w₀.Feeds id size affinity w) {m' : Memory σ} (hquiet : w.memory.Quiet m') :
    w₀.Feeds id size affinity { w with memory := m' } :=
  ⟨h.plan, h.groups, h.does.trans (hquiet.does _)⟩

/-- `Feeds` survives `update` of an allocator in the tree, if its group `Feeds` on and all that it
does `IsGrowth`. -/
lemma Feeds.update (h : w₀.Feeds id size affinity w) {k : Nat} {a a' : Allocator}
    (hk : w₀.plan.InTree id k) (ha : w.allocator? k = some a) (hwiring : a'.wiring = a.wiring)
    {m' : Memory σ} (hfeeds : (a.groupFor affinity).Feeds size (a'.groupFor affinity))
    (hdoes : w.memory.Does ((a.groupFor affinity).IsGrowth size (a'.groupFor affinity)) m') :
    w₀.Feeds id size affinity (w.update k a' m') := by
  obtain ⟨a₀, ha₀, -⟩ := exists_allocator_of_plan_eq h.plan.symm ha
  have hself : (w.update k a' m').allocator? k = some a' := by
    rw [allocator?_update ha, if_pos rfl]
  refine ⟨(plan_update ha hwiring).trans h.plan, fun {j b₀ b} hb₀ hb => ?_, ?_⟩
  · rw [allocator?_update ha] at hb
    split at hb
    · rename_i hj
      rw [hj] at hb₀
      rw [← Option.some.inj hb]
      exact (h.groups hb₀ ha).trans hfeeds
    · exact h.groups hb₀ hb
  · refine (h.does.mono fun event => ?_).trans (hdoes.mono fun event hgrowth => ?_)
    · -- blocks made before are still there
      rintro ⟨j, b₀, b, hj, hb₀, hb, hgrowth⟩
      by_cases hjk : j = k
      · subst hjk
        obtain rfl := Option.some.inj (ha.symm.trans hb)
        exact ⟨j, b₀, a', hj, hb₀, hself, hgrowth.feeds (h.groups hb₀ ha).layout hfeeds⟩
      · refine ⟨j, b₀, b, hj, hb₀, ?_, hgrowth⟩
        rwa [allocator?_update ha, if_neg hjk]
    · exact ⟨k, a₀, a', hk, ha₀, hself, (h.groups ha₀ ha).isGrowth hgrowth⟩

/-- The `View` of worlds without heaps at the ends of their chains. -/
def heapless (σ : Type) : View σ := ⟨fun m => m, Allocator.withoutBackstop⟩

/-- `heapless` respects what requests and returns do with groups. -/
lemma respects_heapless : (heapless σ).Respects (w₀.Feeds id size affinity) where
  alignment _ _ := rfl
  nested _ := rfl
  note notice _ := fun w h => ⟨rfl, h.quiet (Memory.quiet_note notice w.memory)⟩
  noteIf _ notice _ := fun w h => ⟨rfl, h.quiet (Memory.quiet_noteIf _ notice w.memory)⟩

variable [System σ]

/-- What the allocators of a tree do with their groups makes no use of a heap, and goes to the
system only as `Feeds` says. -/
lemma family_heapless (hkeyed : w₀.Keyed) (honly : w₀.plan.OnlyAllocators id) :
    (heapless σ).Family (w₀.Feeds id size affinity) size affinity (w₀.plan.InTree id) where
  allocatePooled {w k a} h hk ha := by
    obtain ⟨a₀, ha₀, -⟩ := exists_allocator_of_plan_eq h.plan.symm ha
    have hgrowth := a.allocatePooled_growth ((h.groups ha₀ ha).keyed (hkeyed k a₀ ha₀ affinity))
      size w.memory
    refine ((a.allocatePooled_withoutBackstop w.memory size affinity).and
      (hgrowth.and (a.allocatePooled_frame size affinity w.memory))).mono ?_
    rintro out m' ⟨-, ⟨hfeeds, hdoes⟩, hwiring, -⟩
    exact h.update hk ha hwiring hfeeds hdoes
  deallocatePooled {w k a} h hk ha address := by
    have hfeeds := a.deallocatePooled_feeds address size size affinity w.memory
    have howns := a.deallocatePooled_owns address size w.memory
    refine ((a.deallocatePooled_withoutBackstop w.memory address size).and
      ((hfeeds.and howns).and (a.deallocatePooled_frame address size w.memory))).mono ?_
    rintro out m' ⟨-, ⟨hfeeds, -, hquiet⟩, hwiring, -⟩
    exact h.update hk ha hwiring hfeeds (hquiet.does _)
  nested {w k a} h hk ha s hs := by
    have hplan : w₀.plan[k]? = some a.wiring := by rw [← h.plan, plan_getElem? ha]
    obtain ⟨j, owned, rfl⟩ := honly k a.wiring hk hplan s hs
    exact .inl ⟨j, owned, rfl, hk.tail ⟨a.wiring, owned, hplan, hs⟩⟩

/-! ## Blocks of a tree -/

/-- All of `w.regions` are `Disjoint`. -/
def BlocksApart (w : World σ) : Prop := w.regions.Pairwise Region.Disjoint

omit [System σ] in
/-- If blocks are `Keyed` and `BlocksApart`, each allocator is `Spread`. -/
lemma BlocksApart.spread (h : w.BlocksApart) (hkeyed : w.Keyed) {k : Nat} {a : Allocator}
    (ha : w.allocator? k = some a) : a.Spread := by
  obtain ⟨others, hnumbered, -⟩ := exists_others ha
  refine ⟨fun hb => hkeyed k a ha _ _ _ ((a.block?_eq _ _).symm.trans hb), ?_⟩
  unfold BlocksApart World.regions at h
  rw [hnumbered, Multiset.cons_bind] at h
  exact Region.pairwise_of_add h

/-- Some allocator `InTree` has a block that contains an address. -/
def TreeContains (w : World σ) (id address : Nat) : Prop :=
  ∃ k a affinity key b, w.plan.InTree id k ∧ w.allocator? k = some a ∧
    a.block? affinity key = some b ∧ b.contains address = true

omit [System σ] in
/-- Followed as many links as there are allocators, `OwnedWithin` is `TreeContains`. -/
lemma BlocksApart.ownedWithin_iff (h : w.BlocksApart) (hkeyed : w.Keyed) {depth address : Nat}
    (hdepth : w.plan.length ≤ depth) :
    w.OwnedWithin depth id address ↔ w.TreeContains id address := by
  constructor
  · rintro ⟨k, a, hleads, ha, howns⟩
    obtain ⟨affinity, key, b, hb, hcontains⟩ := (h.spread hkeyed ha).owns_iff.1 howns
    exact ⟨k, a, affinity, key, b, Plan.inTree_of_leads hleads, ha, hb, hcontains⟩
  · rintro ⟨k, a, affinity, key, b, htree, ha, hb, hcontains⟩
    have hlt := (List.getElem?_eq_some_iff.1 (plan_getElem? ha)).1
    refine ⟨k, a, Plan.leads_of_inTree htree hlt hdepth, ha, ?_⟩
    exact (h.spread hkeyed ha).owns_iff.2 ⟨affinity, key, b, hb, hcontains⟩

/-! ## Allocators used as strategies -/

lemma owned_ne_full : Chain.owned ≠ .full := Chain.noConfusion

/-- A request to an allocator as a strategy is the same `withoutBackstops`, and all it does to the
system is `GrowsTree`. -/
lemma allocate_owned (hkeyed : w.Keyed) (honly : w.plan.OnlyAllocators id) (size : Nat)
    (affinity : Affinity) :
    Ends (allocate id .owned size affinity) w fun answer w' =>
      allocate id .owned size affinity w.withoutBackstops = (answer, w'.withoutBackstops) ∧
        w.memory.Does (w.GrowsTree id size affinity w') w'.memory := by
  have hagree := View.agree_allocate respects_heapless (family_heapless hkeyed honly) .refl
    (fun _ => rfl) (fun hfull => absurd hfull owned_ne_full) w (Feeds.refl w id size affinity)
  exact hagree.ends.mono fun _ _ h => ⟨h.1, h.2.does⟩

/-- A return to an allocator as a strategy is the same `withoutBackstops`, and ends as `Finds`
says. -/
lemma deallocate_owned (hkeyed : w.Keyed) (honly : w.plan.OnlyAllocators id)
    (address size : Nat) :
    Ends (deallocate id .owned address size) w fun answer w' =>
      deallocate id .owned address size w.withoutBackstops = (answer, w'.withoutBackstops) ∧
        w.Finds (w.OwnedWithin (w.plan.length + 1) id address) (answer = some true) w' := by
  have hfamily : (heapless σ).Family (w.Feeds id size default) size default (w.plan.InTree id) :=
    family_heapless hkeyed honly
  have hagree := View.agree_deallocate respects_heapless hfamily .refl (fun _ => rfl)
    (fun hfull => absurd hfull owned_ne_full) address w (Feeds.refl w id size default)
  refine (hagree.ends.mono fun _ _ h => h.1).and ?_
  refine ends_deallocate (fun hnone => finds_false ?_) fun a ha => ?_
  · rintro ⟨k, a, rfl | ⟨x, hx, -⟩, ha, -⟩
    · exact absurd (hnone.symm.trans ha) (by simp)
    · obtain ⟨b, hb, -⟩ := exists_allocator_of_plan hx
      exact absurd (hnone.symm.trans hb) (by simp)
  · rw [plan_length]
    refine ((finds_upTo _).deallocateWith ha honly address size).mono fun taken w' h => ?_
    cases taken <;> exact h

/-- After any run of an `Unused` world every block is `Keyed`. -/
theorem Unused.keyed_run (h : w.Unused) (steps : List Step) :
    Ends (run steps) w fun _ w' => w'.Keyed := by
  refine (h.made_run (promises_true σ) steps).mono fun _ w' hmade k a ha affinity key b hb => ?_
  rw [← Allocator.block?_eq] at hb
  exact (hmade k a ha affinity key b hb).1

/-- After any run, an allocator with a tree of allocators below it makes no use of a heap when it is
used as a strategy. A request goes to the system for new blocks of the tree only, as `GrowsTree`
says. If blocks are apart, a return is taken if and only if the tree contains the address, it gives
nothing back to the system, and it changes nothing if it is not taken. -/
theorem Unused.tree_as_strategy (h : w.Unused) (steps : List Step) (id : Nat) :
    Ends (run steps) w fun _ w' => w'.plan.OnlyAllocators id → w'.BlocksApart →
      (∀ size affinity, Ends (allocate id .owned size affinity) w' fun answer w'' =>
        allocate id .owned size affinity w'.withoutBackstops = (answer, w''.withoutBackstops) ∧
          w'.memory.Does (w'.GrowsTree id size affinity w'') w''.memory) ∧
      ∀ address size, Ends (deallocate id .owned address size) w' fun answer w'' =>
        deallocate id .owned address size w'.withoutBackstops = (answer, w''.withoutBackstops) ∧
          (answer = some true ↔ w'.TreeContains id address) ∧
          w'.memory.Quiet w''.memory ∧ (answer ≠ some true → w'' = w') := by
  refine (h.keyed_run steps).mono fun _ w' hkeyed honly hapart => ⟨?_, ?_⟩
  · exact fun size affinity => allocate_owned hkeyed honly size affinity
  · intro address size
    refine (deallocate_owned hkeyed honly address size).mono ?_
    rintro answer w'' ⟨hheapless, hfinds⟩
    have howned : w'.OwnedWithin (w'.plan.length + 1) id address ↔ w'.TreeContains id address :=
      hapart.ownedWithin_iff hkeyed (Nat.le_add_right w'.plan.length 1)
    refine ⟨hheapless, ?_, hfinds.quiet, fun hnot => hfinds.unchanged (decide_eq_false hnot)⟩
    rw [← howned, ← hfinds.taken_iff, decide_eq_true_iff]

/-- Three allocators, each of them nested in the one before. -/
def threeLevels : World Arena :=
  .ofSettings (.new 65536 .low)
    [({ defaultBlockSize := 4096 }, [{ defaultBlockSize := 4096 }, { defaultBlockSize := 4096 }])]

lemma unused_threeLevels : threeLevels.Unused := by
  intro a ha
  have ha : a ∈ [Allocator.ofSettings { defaultBlockSize := 4096 } [.allocator 1 true],
      .ofSettings { defaultBlockSize := 4096 } [.allocator 2 true],
      .ofSettings { defaultBlockSize := 4096 } []] := ha
  simp only [List.mem_cons, List.not_mem_nil, or_false] at ha
  rcases ha with rfl | rfl | rfl <;> exact ⟨_, _, rfl⟩

/-- One block for the outermost and one for the innermost allocator. -/
def twoBlocks : List Step := [.allocate 0 .full 8 .objects, .allocate 2 .full 8 .objects]

/-- The outermost allocator has its own block and that of the innermost one in its tree, and nothing
behind them. -/
theorem tree_as_strategy_two_blocks :
    threeLevels.Unused ∧ Ends (run twoBlocks) threeLevels fun _ w =>
      w.plan.OnlyAllocators 0 ∧ w.BlocksApart ∧ w.TreeContains 0 Arena.base ∧
        w.TreeContains 0 (Arena.base + 4096) ∧ ¬ w.TreeContains 0 (Arena.base + 8192) := by
  have hclosed : (run twoBlocks threeLevels).2.plan.Closed := by
    have hplan : (run twoBlocks threeLevels).2.plan = [⟨[.allocator 1 true], some ⟨.sized, 8⟩⟩,
      ⟨[.allocator 2 true], some ⟨.sized, 8⟩⟩, ⟨[], some ⟨.sized, 8⟩⟩] := rfl
    rw [hplan]
    intro x hx s hs
    simp only [List.mem_cons, List.not_mem_nil, or_false] at hx
    rcases hx with rfl | rfl | rfl
    · exact ⟨_, _, List.mem_singleton.1 hs⟩
    · exact ⟨_, _, List.mem_singleton.1 hs⟩
    · exact absurd hs List.not_mem_nil
  have hapart : (run twoBlocks threeLevels).2.BlocksApart :=
    ⟨[⟨.sized, Arena.base, ⟨4096, 16⟩⟩, ⟨.sized, Arena.base + 4096, ⟨4096, 16⟩⟩], rfl, by decide⟩
  have h := unused_threeLevels.tree_as_strategy twoBlocks 0 (hclosed.onlyAllocators 0) hapart
  refine ⟨unused_threeLevels, hclosed.onlyAllocators 0, hapart, ?_, ?_, ?_⟩
  · exact (h.2 Arena.base 8).2.1.1 rfl
  · exact (h.2 (Arena.base + 4096) 8).2.1.1 rfl
  · exact fun hin => absurd ((h.2 (Arena.base + 8192) 8).2.1.2 hin) (by decide)

end World

end BlockPool
