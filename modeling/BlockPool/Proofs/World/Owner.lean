import BlockPool.Proofs.Allocator
import BlockPool.Proofs.Log
import BlockPool.Proofs.World.Tree
import BlockPool.World.Chain

/-!
# Who takes an address back

An allocator that is nested in another one takes an address back if it lies in one of its blocks, or
in a block of an allocator of its tree. It asks its own groups first and then one nested allocator
after another. Those that do not have the address leave everything as it is, so the return ends with
the first that has it, or without a trace.

Nothing is assumed about the blocks or about the system.
-/

namespace BlockPool

/-- `deallocatePooled` answers whether `a.owns` the address, and asks the system for nothing. -/
lemma Allocator.deallocatePooled_owns {σ : Type} [System σ] (a : Allocator)
    (address size : Nat) (m : Memory σ) :
    Ends (a.deallocatePooled address size) m fun out m' =>
      out.1 = a.owns address ∧ m.Quiet m' := by
  unfold deallocatePooled owns
  split
  · rename_i howner
    rw [howner]
    exact ⟨rfl, .refl m⟩
  · rename_i howner
    rw [howner]
    refine (Memory.quiet_settle _ m).bind fun out m₁ h₁ => ?_
    exact (Memory.quiet_noteIf _ _ m₁).bind fun _ _ h₂ => ⟨rfl, h₁.2.trans h₂⟩

namespace World

variable {σ : Type} {w w' : World σ}

/-! ## Rules for walks -/

/-- `setAllocator` with the allocator that is there changes nothing. -/
lemma setAllocator_self {id : Nat} {a : Allocator} (ha : w.allocator? id = some a) :
    setAllocator id a w = ((), w) := by
  have hset : w.allocators.set id a = w.allocators := by
    obtain ⟨hlt, hget⟩ := List.getElem?_eq_some_iff.1 ha
    rw [← hget]
    exact List.set_getElem_self hlt
  unfold setAllocator
  rw [hset]

lemma ends_onMemory {α : Type} {x : MemoryM σ α} {post : α → World σ → Prop}
    (h : Ends x w.memory fun a m' => post a { w with memory := m' }) :
    Ends (onMemory x) w post := h

section System

variable [System σ]

/-- `Links.upTo` sends a request to the allocator of that number, if there is one. -/
lemma ends_upTo_allocate {id depth size : Nat} {affinity : Affinity}
    {post : Option Nat → World σ → Prop} (hnone : w.allocator? id = none → post none w)
    (hsome : ∀ a, w.allocator? id = some a →
      Ends (allocateWith (.upTo depth) id a .owned size affinity) w fun answer w' =>
        post answer.toOption w') :
    Ends ((Links.upTo (depth + 1)).allocate id size affinity) w post := by
  unfold Links.upTo
  apply Ends.get_bind
  split
  · rename_i hid
    exact hnone hid
  · rename_i a ha
    exact (hsome a ha).bind fun _ _ h => h

/-- `Links.upTo` sends a return to the allocator of that number, if there is one. -/
lemma ends_upTo_deallocate {id depth address size : Nat} {post : Bool → World σ → Prop}
    (hnone : w.allocator? id = none → post false w)
    (hsome : ∀ a, w.allocator? id = some a →
      Ends (deallocateWith (.upTo depth) id a .owned address size) w post) :
    Ends ((Links.upTo (depth + 1)).deallocate id address size) w post := by
  unfold Links.upTo
  apply Ends.get_bind
  split
  · rename_i hid
    exact hnone hid
  · rename_i a ha
    exact hsome a ha

/-- `World.allocate` is `allocateWith` of the allocator of that number, if there is one. -/
lemma ends_allocate {id : Nat} {chain : Chain} {size : Nat} {affinity : Affinity}
    {post : Option (Except AllocationError Nat) → World σ → Prop}
    (hnone : w.allocator? id = none → post none w)
    (hsome : ∀ a, w.allocator? id = some a →
      Ends (allocateWith (.upTo w.allocators.length) id a chain size affinity) w
        fun answer w' => post (some answer) w') :
    Ends (allocate id chain size affinity) w post := by
  unfold allocate
  apply Ends.get_bind
  split
  · rename_i hid
    exact hnone hid
  · rename_i a ha
    exact Ends.map (hsome a ha)

/-- `World.deallocate` is `deallocateWith` of the allocator of that number, if there is one. -/
lemma ends_deallocate {id : Nat} {chain : Chain} {address size : Nat}
    {post : Option Bool → World σ → Prop} (hnone : w.allocator? id = none → post none w)
    (hsome : ∀ a, w.allocator? id = some a →
      Ends (deallocateWith (.upTo w.allocators.length) id a chain address size) w
        fun known w' => post (some known) w') :
    Ends (deallocate id chain address size) w post := by
  unfold deallocate
  apply Ends.get_bind
  split
  · rename_i hid
    exact hnone hid
  · rename_i a ha
    exact Ends.map (hsome a ha)

lemma ends_allocate_there {id : Nat} {a : Allocator} {chain : Chain} {size : Nat}
    {affinity : Affinity} {post : Option (Except AllocationError Nat) → World σ → Prop}
    (ha : w.allocator? id = some a)
    (h : Ends (allocateWith (.upTo w.allocators.length) id a chain size affinity) w
      fun answer w' => post (some answer) w') :
    Ends (allocate id chain size affinity) w post := by
  refine ends_allocate (fun hnone => absurd (hnone.symm.trans ha) (by simp)) fun b hb => ?_
  obtain rfl : b = a := Option.some.inj (hb.symm.trans ha)
  exact h

lemma ends_deallocate_there {id : Nat} {a : Allocator} {chain : Chain} {address size : Nat}
    {post : Option Bool → World σ → Prop} (ha : w.allocator? id = some a)
    (h : Ends (deallocateWith (.upTo w.allocators.length) id a chain address size) w
      fun known w' => post (some known) w') :
    Ends (deallocate id chain address size) w post := by
  refine ends_deallocate (fun hnone => absurd (hnone.symm.trans ha) (by simp)) fun b hb => ?_
  obtain rfl : b = a := Option.some.inj (hb.symm.trans ha)
  exact h

/-- `deallocateWith` at an address in no block is `returnTo` along the chain, and nothing else but
notices. -/
lemma ends_deallocateWith_unowned {id : Nat} {a : Allocator} {address : Nat}
    (ha : w.allocator? id = some a) (howns : a.owns address = false) {links : Links σ}
    {chain : Chain} {size : Nat} {post : Bool → World σ → Prop}
    (h : Ends (returnTo links address size (a.strategies chain)) w fun taker w₁ =>
      ∀ m', w₁.memory.Quiet m' → (chain = .owned → taker = none → m' = w₁.memory) →
        post taker.isSome { w₁ with memory := m' }) :
    Ends (deallocateWith links id a chain address size) w post := by
  unfold deallocateWith
  have hpool : onMemory (a.deallocatePooled address size) w = ((false, a), w) := by
    rw [Allocator.deallocatePooled_of_not_owns howns]
    rfl
  refine Ends.congr (bind_apply_eq hpool) (Ends.congr (bind_apply_eq (setAllocator_self ha)) ?_)
  rw [if_neg Bool.false_ne_true]
  refine h.bind fun taker w₁ h₁ => ?_
  cases taker with
  | some s =>
    have hnote : Ends (onMemory (Memory.noteIf a.tracking.report
        (.returnedToFallback address size s.name))) w₁ fun _ w₂ => post true w₂ :=
      ends_onMemory ((Memory.quiet_noteIf _ _ w₁.memory).mono fun _ m' hquiet =>
        h₁ m' hquiet fun _ hnone => absurd hnone (by simp))
    exact hnote.bind fun _ _ hend => hend
  | none =>
    cases chain with
    | full =>
      have hnote : Ends (onMemory (Memory.note (.addressUnowned address size))) w₁
          fun _ w₂ => post false w₂ :=
        ends_onMemory ((Memory.quiet_note _ w₁.memory).mono fun _ m' hquiet =>
          h₁ m' hquiet fun howned => Chain.noConfusion howned)
      exact hnote.bind fun _ _ hend => hend
    | owned => exact h₁ w₁.memory (.refl w₁.memory) fun _ _ => rfl

end System

/-! ## Finding the owner -/

/-- An allocator that `id` `Leads` to over fewer than `depth` links `owns` the address. -/
def OwnedWithin (w : World σ) (depth id address : Nat) : Prop :=
  ∃ k a, w.plan.Leads depth id k ∧ w.allocator? k = some a ∧ a.owns address = true

/-- What a return ends with if only owners take the address: it is taken if there is one, nothing
happens if there is none, and nothing goes to the system. -/
structure Finds (w : World σ) (owned : Prop) (taken : Bool) (w' : World σ) : Prop where
  taken_iff : taken = true ↔ owned
  unchanged : taken = false → w' = w
  quiet : w.memory.Quiet w'.memory

/-- An owner was found, and nothing went to the system. -/
lemma finds_true {owned : Prop} (h : owned) (hquiet : w.memory.Quiet w'.memory) :
    w.Finds owned true w' :=
  ⟨⟨fun _ => h, fun _ => rfl⟩, fun hfalse => Bool.noConfusion hfalse, hquiet⟩

lemma finds_false {owned : Prop} (h : ¬ owned) : w.Finds owned false w :=
  ⟨⟨fun htrue => Bool.noConfusion htrue, fun howned => absurd howned h⟩, fun _ => rfl, .refl _⟩

/-- `Finds` for an equivalent condition. -/
lemma Finds.congr {owned owned' : Prop} {taken : Bool} (h : w.Finds owned taken w')
    (howned : owned ↔ owned') : w.Finds owned' taken w' :=
  ⟨h.taken_iff.trans howned, h.unchanged, h.quiet⟩

/-- An action that `Finds` no owner does nothing. -/
lemma Finds.pass {owned : Prop} {x : WorldM σ Bool} (h : Ends x w (w.Finds owned))
    (hnot : ¬ owned) : x w = (false, w) := by
  have hfalse : (x w).1 = false := Bool.eq_false_iff.2 fun htrue => hnot (h.taken_iff.1 htrue)
  exact Prod.ext hfalse (h.unchanged hfalse)

/-- Links over which a return `Finds` the owners only. -/
structure Links.Finds (links : Links σ) (depth : Nat) : Prop where
  deallocate {w : World σ} {id : Nat} (h : w.plan.OnlyAllocators id) (address size : Nat) :
    Ends (links.deallocate id address size) w (w.Finds (w.OwnedWithin depth id address))

variable [System σ] {links : Links σ} {depth id : Nat} {a : Allocator}

/-- Of nested allocators, `returnTo` ends with the first that leads to an owner. -/
lemma Links.Finds.returnTo (hlinks : links.Finds depth) (address size : Nat)
    {strategies : List Strategy}
    (hs : ∀ s ∈ strategies, ∃ j owned, s = .allocator j owned ∧ w.plan.OnlyAllocators j) :
    Ends (returnTo links address size strategies) w fun taker w' =>
      w.Finds (∃ j owned, .allocator j owned ∈ strategies ∧ w.OwnedWithin depth j address)
        taker.isSome w' := by
  induction strategies with
  | nil =>
    refine finds_false ?_
    rintro ⟨j, owned, hmem, -⟩
    exact List.not_mem_nil hmem
  | cons s rest ih =>
    obtain ⟨j, owned, rfl, hj⟩ := hs s (List.mem_cons_self ..)
    have hfinds := hlinks.deallocate hj address size
    have hrest := ih fun s' hs' => hs s' (List.mem_cons_of_mem _ hs')
    unfold World.returnTo
    by_cases howned : w.OwnedWithin depth j address
    · refine Ends.bind hfinds fun taken w₁ h₁ => ?_
      rw [h₁.taken_iff.2 howned]
      exact finds_true ⟨j, owned, List.mem_cons_self .., howned⟩ h₁.quiet
    · have hpass : World.offerBack links address size (.allocator j owned) w = (false, w) :=
        Finds.pass hfinds howned
      have hgoes : Ends (World.returnTo links address size rest) w fun taker w' =>
          w.Finds (∃ i owned', .allocator i owned' ∈ Strategy.allocator j owned :: rest ∧
            w.OwnedWithin depth i address) taker.isSome w' := by
        refine hrest.mono fun taker w' h => h.congr ⟨?_, ?_⟩
        · rintro ⟨i, owned', hmem, hi⟩
          exact ⟨i, owned', List.mem_cons_of_mem _ hmem, hi⟩
        · rintro ⟨i, owned', hmem, hi⟩
          rcases List.mem_cons.1 hmem with heq | hmem
          · exact absurd ((Strategy.allocator.inj heq).1 ▸ hi) howned
          · exact ⟨i, owned', hmem, hi⟩
      unfold Ends
      rw [bind_apply_eq hpass, if_neg Bool.false_ne_true]
      exact hgoes

/-- `deallocateWith` over the owned chain takes an address that is `OwnedWithin` one link more. -/
lemma Links.Finds.deallocateWith (hlinks : links.Finds depth) (ha : w.allocator? id = some a)
    (honly : w.plan.OnlyAllocators id) (address size : Nat) :
    Ends (deallocateWith links id a .owned address size) w
      (w.Finds (w.OwnedWithin (depth + 1) id address)) := by
  unfold World.deallocateWith
  by_cases howns : a.owns address = true
  · have hpool : Ends (onMemory (a.deallocatePooled address size)) w fun out w₁ =>
        out.1 = true ∧ w.memory.Quiet w₁.memory := by
      refine ends_onMemory ((a.deallocatePooled_owns address size w.memory).mono fun _ _ h => ?_)
      exact ⟨h.1.trans howns, h.2⟩
    refine hpool.bind ?_
    rintro ⟨known, a'⟩ w₁ ⟨rfl, hquiet⟩
    exact finds_true ⟨id, a, .inl rfl, ha, howns⟩ hquiet
  · have hs : ∀ s ∈ a.nested, ∃ j owned, s = .allocator j owned ∧ w.plan.OnlyAllocators j := by
      intro s hs
      obtain ⟨j, owned, rfl⟩ := honly id a.wiring .refl (plan_getElem? ha) s hs
      exact ⟨j, owned, rfl, honly.of_nests ⟨a.wiring, owned, plan_getElem? ha, hs⟩⟩
    have hiff : (∃ j owned, .allocator j owned ∈ a.nested ∧ w.OwnedWithin depth j address) ↔
        w.OwnedWithin (depth + 1) id address := by
      constructor
      · rintro ⟨j, owned, hmem, k, b, hleads, hb, hbowns⟩
        exact ⟨k, b, .inr ⟨a.wiring, plan_getElem? ha, j, owned, hmem, hleads⟩, hb, hbowns⟩
      · rintro ⟨k, b, rfl | ⟨x, hx, j, owned, hmem, hleads⟩, hb, hbowns⟩
        · rw [Option.some.inj (hb.symm.trans ha)] at hbowns
          exact absurd hbowns howns
        · rw [plan_getElem? ha] at hx
          obtain rfl := Option.some.inj hx
          exact ⟨j, owned, hmem, k, b, hleads, hb, hbowns⟩
    refine ends_deallocateWith_unowned ha (Bool.eq_false_iff.2 howns) ?_
    refine (hlinks.returnTo address size hs).mono fun taker w' h m' hquiet hsame => ?_
    refine Finds.congr ?_ hiff
    cases taker with
    | some s => exact finds_true (h.taken_iff.1 rfl) (h.quiet.trans hquiet)
    | none =>
      rw [hsame rfl rfl]
      exact h

/-- However many links `Links.upTo` follows, only owners take an address. -/
theorem finds_upTo (depth : Nat) : (Links.upTo depth : Links σ).Finds depth := by
  induction depth with
  | zero =>
    refine ⟨fun _ _ _ => finds_false ?_⟩
    rintro ⟨k, a, hleads, -⟩
    exact False.elim hleads
  | succ depth ih =>
    refine ⟨fun honly address size => ?_⟩
    refine ends_upTo_deallocate (fun hnone => ?_)
      fun a ha => ih.deallocateWith ha honly address size
    refine finds_false ?_
    rintro ⟨k, a, rfl | ⟨x, hx, -⟩, ha, -⟩
    · exact absurd (hnone.symm.trans ha) (by simp)
    · obtain ⟨b, hb, -⟩ := exists_allocator_of_plan hx
      exact absurd (hnone.symm.trans hb) (by simp)

end World

end BlockPool
