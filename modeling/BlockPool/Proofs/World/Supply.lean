import BlockPool.Proofs.Allocator.Supply
import BlockPool.Proofs.World.Past
import BlockPool.Proofs.World.Steady

/-!
# Blocks since an allocator started anew

An allocator that starts anew has no block. Whatever is done from then on, and whoever does it, all
memory of its blocks was handed out since. So an address that the system does not hand out again
stays out of its blocks.

Nothing is assumed about the system or about what was done with the allocator before.
-/

namespace BlockPool

/-- The region `obtained?` with an event, if there is one, does not contain an address. -/
def Event.Spares (address : Nat) (event : Event) : Prop :=
  ∀ r ∈ event.obtained?, ¬ r.Contains address

instance (address : Nat) : DecidablePred (Event.Spares address) :=
  fun _ => inferInstanceAs (Decidable (∀ _ ∈ _, _))

/-- What the system `Supplies` while it spares an address does not contain the address. -/
lemma Memory.Supplies.not_contains {σ : Type} {m m' : Memory σ} {r : Region} {address : Nat}
    (h : m.Supplies m' r) (hspares : m.Writes (Event.Spares address) m') :
    ¬ r.Contains address := by
  obtain ⟨events, hlog, event, hevent, hr⟩ := h
  obtain ⟨events', hlog', hspared⟩ := hspares
  obtain rfl : events' = events := List.append_cancel_right (hlog'.symm.trans hlog)
  exact hspared event hevent r hr

namespace World

variable {σ : Type} {w w' : World σ} {id : Nat} {m₀ : Memory σ}

/-- The log goes on from that of `m₀`, and the system `Supplies` the memory of every block of an
allocator since. -/
structure SuppliedSince (w : World σ) (m₀ : Memory σ) (id : Nat) : Prop where
  writes : m₀.Writes (fun _ => True) w.memory
  block {a : Allocator} {affinity : Affinity} {key : Nat} {b : Block} :
    w.allocator? id = some a → a.block? affinity key = some b → m₀.Supplies w.memory b.region

/-- An allocator `SuppliedSince` does not own an address that was spared. -/
lemma SuppliedSince.owns_eq_false (h : w.SuppliedSince m₀ id) {a : Allocator}
    (ha : w.allocator? id = some a) {address : Nat}
    (hspares : m₀.Writes (Event.Spares address) w.memory) : a.owns address = false := by
  refine Bool.eq_false_iff.2 fun howns => ?_
  obtain ⟨affinity, key, b, hb, hcontains⟩ := Allocator.exists_block_of_owns howns
  exact (h.block ha hb).not_contains hspares hcontains

/-- A `Bare` allocator is `SuppliedSince` now. -/
lemma suppliedSince_bare {a : Allocator} (ha : w.allocator? id = some a) (hbare : a.Bare) :
    w.SuppliedSince w.memory id := by
  refine ⟨.refl _ _, fun {b affinity key c} hb hc => ?_⟩
  obtain rfl : b = a := Option.some.inj (hb.symm.trans ha)
  rw [hbare.block?_eq_none] at hc
  exact absurd hc (by simp)

/-! ## Actions -/

/-- `SuppliedSince` survives `update` if new blocks are in memory that the system `Supplies`. -/
lemma SuppliedSince.update (h : w.SuppliedSince m₀ id) {j : Nat} {a a' : Allocator}
    (ha : w.allocator? j = some a) {m' : Memory σ}
    (hwrites : w.memory.Writes (fun _ => True) m') (hinherits : a.Inherits (m₀.Supplies m') a') :
    (w.update j a' m').SuppliedSince m₀ id := by
  refine ⟨h.writes.trans hwrites, fun {c affinity key b'} hc hb' => ?_⟩
  rw [allocator?_update ha] at hc
  split at hc
  · rename_i hj
    obtain rfl := Option.some.inj hc
    -- its own blocks were there before or are new
    rcases hinherits affinity key b' hb' with ⟨b, hb, hbecomes⟩ | ⟨-, hmade⟩
    · rw [hbecomes.region]
      exact (h.block (hj ▸ ha) hb).later hwrites
    · exact hmade.placed
  · exact (h.block hc hb').later hwrites

/-- `SuppliedSince` survives `update` if there are no new blocks. -/
lemma SuppliedSince.unsupplied (h : w.SuppliedSince m₀ id) {j : Nat} {a a' : Allocator}
    (ha : w.allocator? j = some a) {m' : Memory σ}
    (hwrites : w.memory.Writes (fun _ => True) m')
    (hinherits : a.Inherits (fun _ => False) a') : (w.update j a' m').SuppliedSince m₀ id :=
  h.update ha hwrites (hinherits.mono fun _ => False.elim)

/-- `SuppliedSince` survives `World.change` if there are no new blocks. -/
lemma SuppliedSince.change (h : w.SuppliedSince m₀ id) (j : Nat)
    {action : Allocator → MemoryM σ Allocator} (hlog : ∀ a, Memory.Oblivious (action a))
    (haction : ∀ a m, Ends (action a) m fun a' _ => a.Inherits (fun _ => False) a') :
    Ends (World.change j action) w fun _ w' => w'.SuppliedSince m₀ id :=
  ends_change (fun _ => h) fun a ha =>
    ((haction a w.memory).and ((hlog a).writes w.memory)).mono fun _ _ h' =>
      h.unsupplied ha h'.2 h'.1

variable [System σ]

/-- `SuppliedSince` survives requests and returns, as `Requesting` says. -/
lemma requesting_suppliedSince (m₀ : Memory σ) (id : Nat) :
    Requesting fun w w' : World σ => w.SuppliedSince m₀ id → w'.SuppliedSince m₀ id := by
  refine Pooling.requesting ⟨⟨fun _ h => h, fun h h' hw => h' (h hw), fun w m' hwrites h => ?_⟩,
    fun {w j a} ha size affinity => ?_, fun {w j a} ha address size => ?_⟩
    fun _ _ h => ⟨h.writes, h.block⟩
  · exact ⟨h.writes.trans hwrites, fun ha hb => (h.block ha hb).later hwrites⟩
  · have hwrites := (a.plain_allocatePooled size affinity).oblivious.writes w.memory
    refine ((a.allocatePooled_supplied size affinity w.memory).and hwrites).mono ?_
    exact fun _ m' h' h => h.update ha h'.2 (h'.1.mono fun _ hr => hr.earlier h.writes)
  · have hwrites := (a.plain_deallocatePooled address size).oblivious.writes w.memory
    have hinherits : Ends (a.deallocatePooled address size) w.memory fun out _ =>
        a.Inherits (fun _ => False) out.2 :=
      (Allocator.continues_deallocatePooled _ a address size).mono fun _ _ h' => h'.blocks
    exact (hinherits.and hwrites).mono fun _ _ h' h => h.unsupplied ha h'.2 h'.1

/-- `SuppliedSince` is preserved by every step. -/
theorem SuppliedSince.step (h : w.SuppliedSince m₀ id) (s : Step) :
    Ends (World.step s) w fun _ w' => w'.SuppliedSince m₀ id := by
  cases s with
  | compact j =>
    refine Ends.map (ends_onAllocator (fun _ => h) fun a ha => ?_)
    exact ((Allocator.inherits_compact w.memory a).and
      (a.plain_compact.oblivious.writes w.memory)).mono fun _ _ h' =>
        h.unsupplied ha h'.2 h'.1
  | setBlockSize j affinity blockSize =>
    exact h.change j (fun a => (a.plain_setBlockSize affinity blockSize).oblivious)
      fun a m => a.inherits_setBlockSize m affinity blockSize
  | configureGroup j g =>
    exact h.change j (fun a => (a.plain_configureGroup g).oblivious)
      fun a m => a.inherits_configureGroup m g
  | setTracking j tracking =>
    exact h.change j (fun _ => .pure _) fun a _ =>
      Allocator.inherits_mapValues rfl fun g => g.inherits_setTracking tracking
  | addStrategy j s =>
    exact h.change j (fun _ => .pure _) fun a _ => Allocator.inherits_of_groups_eq rfl
  | reset j settings =>
    exact h.change j (fun a => (a.plain_reset settings).oblivious)
      fun a m => a.inherits_reset settings m
  | _ =>
    refine ((requesting_suppliedSince m₀ id).step ?_ w).mono fun _ _ hends => hends h
    exact trivial

/-- `SuppliedSince` is preserved by every run, by induction on `steps`. -/
theorem SuppliedSince.run (h : w.SuppliedSince m₀ id) (steps : List Step) :
    Ends (World.run steps) w fun _ w' => w'.SuppliedSince m₀ id := by
  induction steps generalizing w with
  | nil => exact h
  | cons s rest ih =>
    unfold World.run
    refine (h.step s).bind fun _ w₁ h₁ => ?_
    exact (ih h₁).bind fun _ _ h₂ => h₂

end World

end BlockPool
