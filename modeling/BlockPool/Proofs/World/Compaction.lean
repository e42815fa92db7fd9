import BlockPool.Proofs.Allocator.Compaction
import BlockPool.Proofs.World.Routing

/-!
# Compaction after any run

Main statement: after any run, if the blocks of an allocator have no address in common, compaction
takes exactly the blocks without slots out of it and gives each of them back once, leaves every slot
where a return finds it, and has nothing to do a second time.
-/

namespace BlockPool.World

variable {σ : Type} [System σ] {w : World σ} {id : Nat} {a : Allocator}

/-- `compact` of an allocator in order answers the bytes of `a.slotless`, gives back their regions
and leaves `a.withoutEmpty`. -/
lemma step_compact (ha : w.allocator? id = some a) (hok : a.Ok) :
    ∃ events m', Memory.GivesBack (a.slotless.map Block.region) events w.memory m' ∧
      step (.compact id) w = (.freed (total (a.slotless.map Block.capacity)),
        w.update id a.withoutEmpty m') := by
  have hends : Ends (step (.compact id)) w fun answer w' => ∃ events m',
      Memory.GivesBack (a.slotless.map Block.region) events w.memory m' ∧
        (answer, w') = (.freed (total (a.slotless.map Block.capacity)),
          w.update id a.withoutEmpty m') := by
    refine Ends.map (ends_onAllocator_there ha ((hok.ends_compact w.memory).mono ?_))
    rintro ⟨bytes, a'⟩ m' ⟨hout, events, h⟩
    obtain ⟨rfl, rfl⟩ := Prod.mk.inj hout
    exact ⟨events, m', h, rfl⟩
  exact hends

/-- After any run, if the blocks of an allocator have no address in common: `compact` leaves the
blocks with slots as they are, in all structures of their groups, and answers how many bytes the
others have, by which the bytes of all blocks become fewer, as `Compacted` says. The others go back
to the system, each of them once and with its own layout, and are received as they should be if they
were live. The slots and the reserved bytes stay, and every return ends as it should: it is taken
where it names a slot. Compaction at once after that frees nothing, and changes neither the
allocator nor the system. -/
theorem Unused.compact_exact (h : w.Unused) (steps : List Step) (id : Nat) :
    Ends (run steps) w fun _ w' => ∀ a, w'.allocator? id = some a →
      a.regions.Pairwise Region.Disjoint → ∃ bytes a' events m',
        step (.compact id) w' = (.freed bytes, w'.update id a' m') ∧
        a.Compacted a' bytes ∧
        Memory.GivesBack (a.slotless.map Block.region) events w'.memory m' ∧
        (∀ chain address size, (w'.update id a' m').Returns id a' chain address size) ∧
        ∃ m'', step (.compact id) (w'.update id a' m') = (.freed 0, w'.update id a' m'') ∧
          m'.Quiet m'' := by
  refine (h.routed_run steps).mono fun _ w' hrouted a ha hapart => ?_
  have hrouted := hrouted id a ha hapart
  have hok := hrouted.books
  obtain ⟨events, m', hgives, hstep⟩ := step_compact ha hok
  have ha' : (w'.update id a.withoutEmpty m').allocator? id = some a.withoutEmpty :=
    (allocator?_update ha).trans (if_pos rfl)
  refine ⟨_, a.withoutEmpty, events, m', hstep, hok.compacted, hgives, fun chain address size =>
    returns_of_routed ha' (hrouted.withoutEmpty hok) chain address size, ?_⟩
  obtain ⟨events', m'', hgives', hstep'⟩ := step_compact ha' hok.withoutEmpty.1
  rw [hok.slotless_withoutEmpty] at hgives' hstep'
  rw [a.withoutEmpty_withoutEmpty, update_update] at hstep'
  exact ⟨m'', hstep', hgives'.quiet⟩

/-- A slot for no bytes in one block, and another block with nothing in it any more. -/
def emptied : List Step :=
  [.allocate 0 .full 0 .objects, .allocate 0 .full 100 .data,
    .deallocate 0 .full (Arena.base + 64) 100]

/-- The block with the slot for no bytes stays, and the other one goes. -/
theorem compact_exact_emptied :
    smallBlocks.Unused ∧ Ends (run emptied) smallBlocks fun _ w => ∃ a,
      w.allocator? 0 = some a ∧ a.regions.Pairwise Region.Disjoint ∧
      ∃ a' m', step (.compact 0) w = (.freed 100, w.update 0 a' m') ∧ a.Compacted a' 100 := by
  have hcompact := unused_smallBlocks.compact_exact emptied 0
  refine ⟨unused_smallBlocks, ?_⟩
  let w : World Arena := (run emptied smallBlocks).2
  let a : Allocator := (w.allocator? 0).getD default
  have ha : w.allocator? 0 = some a := by decide +kernel
  have hapart : a.regions.Pairwise Region.Disjoint :=
    ⟨[⟨.sized, Arena.base, ⟨64, 16⟩⟩, ⟨.sized, Arena.base + 64, ⟨100, 16⟩⟩],
      by decide +kernel, by decide⟩
  have hbytes : total (a.slotless.map Block.capacity) = 100 := by decide +kernel
  obtain ⟨bytes, a', events, m', hstep, hcompacted, -⟩ := hcompact a ha hapart
  rw [hcompacted.freed.trans hbytes] at hstep hcompacted
  exact ⟨a, ha, hapart, a', m', hstep, hcompacted⟩

end BlockPool.World
