import BlockPool.Proofs.Allocator.Blank
import BlockPool.Proofs.World.Steady

/-!
# What a request leaves behind, slots apart

A request may get to many allocators before somebody serves it, and what does not meet an alignment
goes back on the way. All that stays of it, apart from slots, is an empty group here and there, the
block that serves, and blocks whose memory was offered and sent back.
-/

namespace BlockPool

/-- An address was sent back with `fallbackMisaligned`, because it did not meet an alignment. -/
def SentBack (events : List Event) (address : Nat) : Prop :=
  ∃ name alignment, .noted (.fallbackMisaligned name address alignment) ∈ events ∧
    alignment.isPowerOfTwo ∧ address % alignment ≠ 0

/-- What was `SentBack` in some events was so in more of them. -/
lemma SentBack.mono {events events' : List Event} {address : Nat} (h : SentBack events address)
    (hsub : events ⊆ events') : SentBack events' address := by
  obtain ⟨name, alignment, hmem, hnot⟩ := h
  exact ⟨name, alignment, hsub hmem, hnot⟩

namespace World

variable {σ : Type} {w w' w'' : World σ} {inner inner' : Nat → Prop} {size : Nat}
  {affinity : Affinity} {offered : Option Nat} {events events' : List Event}
  {parcels : Multiset Parcel}

/-- A world after requests for one affinity, the last of which was `offered` an address or none.
Apart from slots, only `inner` allocators have changed, and their new blocks are at the address
offered or at addresses that were `SentBack`. -/
structure Widened (w : World σ) (inner : Nat → Prop) (size : Nat) (affinity : Affinity)
    (offered : Option Nat) (events : List Event) (w' : World σ) : Prop where
  log : w'.memory.log = events ++ w.memory.log
  allocator {id : Nat} {a : Allocator} : w.allocator? id = some a →
    ∃ a', w'.allocator? id = some a' ∧ (a'.blank = a.blank ∨
      inner id ∧ a.blank.Widens size affinity
        (fun base => SentBack events base ∨ offered = some base) a'.blank)

lemma Widened.refl (w : World σ) (inner : Nat → Prop) (size : Nat) (affinity : Affinity) :
    w.Widened inner size affinity none [] w :=
  ⟨rfl, fun ha => ⟨_, ha, .inl rfl⟩⟩

lemma Widened.mono (h : w.Widened inner size affinity offered events w')
    (hinner : ∀ id, inner id → inner' id) :
    w.Widened inner' size affinity offered events w' := by
  refine ⟨h.log, fun ha => ?_⟩
  obtain ⟨a', ha', hsame | ⟨hid, hwidens⟩⟩ := h.allocator ha
  · exact ⟨a', ha', .inl hsame⟩
  · exact ⟨a', ha', .inr ⟨hinner _ hid, hwidens⟩⟩

/-- `Widened` composes if the first request was offered nothing. -/
lemma Widened.trans (h : w.Widened inner size affinity none events w')
    (h' : w'.Widened inner size affinity offered events' w'') :
    w.Widened inner size affinity offered (events' ++ events) w'' := by
  have hearly : ∀ base, SentBack events base ∨ none = some base →
      SentBack (events' ++ events) base ∨ offered = some base := by
    rintro base (hback | hnone)
    · exact .inl (hback.mono (List.subset_append_right ..))
    · exact absurd hnone (by simp)
  have hlate : ∀ base, SentBack events' base ∨ offered = some base →
      SentBack (events' ++ events) base ∨ offered = some base :=
    fun base => Or.imp_left fun hback => hback.mono (List.subset_append_left ..)
  refine ⟨by rw [h'.log, h.log, List.append_assoc], fun ha => ?_⟩
  obtain ⟨a', ha', hfirst⟩ := h.allocator ha
  obtain ⟨a'', ha'', hlast⟩ := h'.allocator ha'
  refine ⟨a'', ha'', ?_⟩
  rcases hfirst with hsame | ⟨hid, hwidens⟩
  · rw [hsame] at hlast
    exact hlast.imp_right fun hlast => ⟨hlast.1, hlast.2.mono hlate⟩
  · rcases hlast with hsame | ⟨-, hwidens'⟩
    · exact .inr ⟨hid, hsame ▸ hwidens.mono hearly⟩
    · exact .inr ⟨hid, (hwidens.mono hearly).trans (hwidens'.mono hlate)⟩

/-- What happens to the memory alone leaves a world `Widened` by nothing. -/
lemma widened_memory {m : Memory σ} (hlog : m.log = events ++ w.memory.log) :
    w.Widened inner size affinity none events { w with memory := m } :=
  ⟨hlog, fun ha => ⟨_, ha, .inl rfl⟩⟩

/-- `update` of one allocator leaves a world `Widened`, if it changes in its slots only or is an
inner one that `Widens`. -/
lemma widened_update {id : Nat} {a a' : Allocator} {m' : Memory σ} (ha : w.allocator? id = some a)
    (hlog : m'.log = events ++ w.memory.log)
    (h : a'.blank = a.blank ∨ inner id ∧
      a.blank.Widens size affinity (fun base => SentBack events base ∨ offered = some base)
        a'.blank) :
    w.Widened inner size affinity offered events (w.update id a' m') := by
  refine ⟨hlog, fun {j b} hb => ?_⟩
  rw [allocator?_update ha]
  split
  · rename_i hj
    subst hj
    obtain rfl := Option.some.inj (ha.symm.trans hb)
    exact ⟨a', rfl, h⟩
  · exact ⟨b, hb, .inl rfl⟩

/-- An allocator whose group cannot serve may store that group, and its chain is `Widened`. -/
lemma Widened.of_update {id : Nat} {a : Allocator} {m' : Memory σ}
    (h : (w.update id (a.setGroup affinity (a.groupFor affinity)) m').Widened
      (Relation.TransGen w.plan.Nests id) size affinity offered events' w')
    (ha : w.allocator? id = some a) (hlog : m'.log = events ++ w.memory.log) :
    w.Widened (w.plan.InTree id) size affinity offered (events' ++ events) w' := by
  have hgroup : a.blank.Widens size affinity
      (fun base => SentBack events base ∨ (none : Option Nat) = some base)
      (a.setGroup affinity (a.groupFor affinity)).blank := by
    rw [Allocator.blank_setGroup, ← Allocator.groupFor_blank]
    exact Allocator.widens_groupFor ..
  exact (widened_update ha hlog (.inr ⟨.refl, hgroup⟩)).trans
    (h.mono fun _ hj => hj.to_reflTransGen)

/-- With the notice that an address offered was `SentBack`, a world is `Widened` with nothing
offered. -/
lemma Widened.note_sentBack {address alignment : Nat}
    (h : w.Widened inner size affinity (some address) events w') (name : String)
    (hnot : alignment.isPowerOfTwo ∧ address % alignment ≠ 0) :
    Ends (onMemory (Memory.note (.fallbackMisaligned name address alignment))) w' fun _ w'' =>
      ∃ events', w.Widened inner size affinity none events' w'' := by
  refine ⟨.noted (.fallbackMisaligned name address alignment) :: events, ?_, fun ha => ?_⟩
  · exact congrArg (List.cons _) h.log
  · obtain ⟨a', ha', hwidens⟩ := h.allocator ha
    refine ⟨a', ha', hwidens.imp_right fun hwidens => ⟨hwidens.1, hwidens.2.mono ?_⟩⟩
    rintro base (hback | hoffered)
    · exact .inl (hback.mono (List.subset_cons_self ..))
    · obtain rfl := Option.some.inj hoffered
      exact .inl ⟨name, alignment, List.mem_cons_self .., hnot⟩

/-- Any notice leaves a world `Widened` with the same offer. -/
lemma Widened.note (h : w.Widened inner size affinity offered events w') (notice : Notice) :
    Ends (onMemory (Memory.note notice)) w' fun _ w'' =>
      ∃ events', w.Widened inner size affinity offered events' w'' := by
  refine ⟨.noted notice :: events, congrArg (List.cons _) h.log, fun ha => ?_⟩
  obtain ⟨a', ha', hwidens⟩ := h.allocator ha
  refine ⟨a', ha', hwidens.imp_right fun hwidens => ⟨hwidens.1, hwidens.2.mono fun base => ?_⟩⟩
  exact Or.imp_left fun hback => hback.mono (List.subset_cons_self ..)

/-- A world that is `Widened` by requests for one affinity that were offered nothing. -/
def Widens (inner : Nat → Prop) (size : Nat) (affinity : Affinity) (w w' : World σ) : Prop :=
  ∃ events, w.Widened inner size affinity none events w'

/-- `Widens` holds of nothing and of one thing after another, as `Passage` says. -/
lemma passage_widens (inner : Nat → Prop) (size : Nat) (affinity : Affinity) :
    Passage (Widens (σ := σ) inner size affinity) where
  refl w := ⟨[], .refl w inner size affinity⟩
  trans := by
    rintro w w' w'' ⟨events, h⟩ ⟨events', h'⟩
    exact ⟨events' ++ events, h.trans h'⟩
  memory w m h := by
    obtain ⟨events, hlog, -⟩ := h
    exact ⟨events, widened_memory hlog⟩

section System

variable [System σ] {links : Links σ} {depth : Nat}

/-- Returns over `Links.upTo` change nothing but slots. -/
lemma returnsAlong_widens (inner : Nat → Prop) (size : Nat) (affinity : Affinity)
    (address size' depth : Nat) :
    (Links.upTo depth : Links σ).ReturnsAlong (Widens inner size affinity) address size' := by
  refine returnsAlong_upTo (passage_widens inner size affinity) (fun {w id a} ha => ?_) depth
  have hlog := (a.plain_deallocatePooled address size').oblivious.writes w.memory
  refine ((a.blank_deallocatePooled address size' w.memory).and hlog).mono ?_
  rintro out m' ⟨hblank, events, hlog, -⟩
  exact ⟨events, widened_update ha hlog (.inl hblank)⟩

/-- Links that are `Sound` and widen no allocators but those of the tree that they lead to. -/
structure Links.Widening (links : Links σ) (depth : Nat) : Prop where
  sound : links.Sound depth
  allocate {w : World σ} {parcels : Multiset Parcel} (h : w.Keeps parcels)
    (hclosed : w.plan.Closed) (id size : Nat) (affinity : Affinity) :
    Ends (links.allocate id size affinity) w fun answer w' =>
      ∃ events, w.Widened (w.plan.InTree id) size affinity answer events w'
  deallocate (inner : Nat → Prop) (size : Nat) (affinity : Affinity) (address size' : Nat) :
    links.ReturnsAlong (Widens inner size affinity) address size'

/-- Strategies that are `inner` allocators, with all that is in their trees, or heaps. -/
def Inner (plan : Plan) (inner : Nat → Prop) (s : Strategy) : Prop :=
  (∃ id owned, s = .allocator id owned ∧ ∀ j, plan.InTree id j → inner j) ∨ ∃ heap, s = .heap heap

/-- `offer` by a strategy that is `Inner` leaves a world `Widened`. -/
lemma Links.Widening.offer (hlinks : links.Widening depth) (h : w.Keeps parcels)
    (hclosed : w.plan.Closed) (size : Nat) (affinity : Affinity) {s : Strategy}
    (hs : Inner w.plan inner s) :
    Ends (offer links size affinity s) w fun answer w' =>
      ∃ events, w.Widened inner size affinity answer events w' := by
  rcases hs with ⟨id, owned, rfl, hinner⟩ | ⟨heap, rfl⟩
  · refine (hlinks.allocate h hclosed id size affinity).mono ?_
    rintro answer w' ⟨events, hwidened⟩
    exact ⟨events, hwidened.mono hinner⟩
  · refine ends_onMemory (((heap.plain_allocate size).oblivious.writes w.memory).mono ?_)
    rintro answer m' ⟨events, hlog, -⟩
    exact ⟨events, hlog, fun ha => ⟨_, ha, .inl rfl⟩⟩

/-- `serveFrom` by strategies that are `Inner` leaves a world `Widened`, by induction on them. -/
lemma Links.Widening.serveFrom [LawfulSystem σ] (hlinks : links.Widening depth)
    (h : w.Keeps parcels) (hclosed : w.plan.Closed) (size : Nat) (affinity : Affinity)
    (alignment : Nat) {strategies : List Strategy}
    (hs : ∀ s ∈ strategies, Inner w.plan inner s) :
    Ends (World.serveFrom links size affinity alignment strategies) w fun answer w' =>
      ∃ events, w.Widened inner size affinity answer events w' := by
  induction strategies generalizing w with
  | nil => exact ⟨[], .refl w inner size affinity⟩
  | cons s rest ih =>
    -- the rest of the chain may be asked from any world with the same plan and parcels
    have hrest : ∀ {w₁ : World σ}, w₁.plan = w.plan → w₁.Keeps parcels →
        Widens inner size affinity w w₁ →
        Ends (World.serveFrom links size affinity alignment rest) w₁ fun answer w' =>
          ∃ events, w.Widened inner size affinity answer events w' := by
      rintro w₁ hplan h₁ ⟨events, hwidened⟩
      have hinner : ∀ s' ∈ rest, Inner w₁.plan inner s' := by
        rw [hplan]
        exact fun s' hs' => hs s' (List.mem_cons_of_mem _ hs')
      refine (ih h₁ (hplan ▸ hclosed) hinner).mono ?_
      rintro answer w' ⟨events', hwidened'⟩
      exact ⟨events' ++ events, hwidened.trans hwidened'⟩
    have hhead := hs s (List.mem_cons_self ..)
    have hkind : s.IsAllocator ∨ ∃ heap, s = .heap heap :=
      hhead.imp_left fun ⟨id, owned, heq, _⟩ => ⟨id, owned, heq⟩
    unfold World.serveFrom
    refine ((hlinks.sound.offer h hclosed size affinity hkind).and
      (hlinks.offer h hclosed size affinity hhead)).bind ?_
    rintro (_ | address) w₁ ⟨⟨hplan, h₁⟩, events, hwidened⟩
    · exact hrest hplan h₁ ⟨events, hwidened⟩
    · obtain ⟨home, hprovides, h₁⟩ := h₁
      simp only
      split
      · -- the address goes back, which leaves all but slots as it is, and the next one is asked
        rename_i hnot
        refine ((h₁.note _).and (hwidened.note_sentBack s.name hnot)).bind ?_
        rintro - w₂ ⟨⟨hplan₂, h₂⟩, events₂, hwidened₂⟩
        have hplan₂ := hplan₂.trans hplan
        have hback := (hlinks.deallocate inner size affinity address size).offerBack
          (passage_widens inner size affinity) s w₂
        refine ((hlinks.sound.offerBack h₂ (hplan₂ ▸ hclosed) (hplan₂ ▸ hprovides)).and
          hback).bind ?_
        rintro taken w₃ ⟨⟨-, hplan₃, h₃⟩, hwidens₃⟩
        exact hrest (hplan₃.trans hplan₂) h₃
          ((passage_widens inner size affinity).trans ⟨events₂, hwidened₂⟩ hwidens₃)
      · exact (hwidened.note _).bind fun _ _ hend => hend

omit [System σ] in
/-- The strategies of an allocator are `Inner` to what is nested in it. -/
lemma inner_strategies (hclosed : w.plan.Closed) {id : Nat} {a : Allocator}
    (ha : w.allocator? id = some a) (chain : Chain) :
    ∀ s ∈ a.strategies chain, Inner w.plan (Relation.TransGen w.plan.Nests id) s := by
  intro s hs
  rcases strategies_closed hclosed ha chain s hs with ⟨j, owned, rfl⟩ | hheap
  · have hmem : .allocator j owned ∈ a.nested := by
      cases chain with
      | owned => exact hs
      | full =>
        refine (List.mem_append.1 hs).resolve_right fun hback => ?_
        obtain ⟨heap, -, heq⟩ := List.mem_map.1 (Option.toList_map .. ▸ hback)
        exact Strategy.noConfusion heq
    have hnests : w.plan.Nests id j := ⟨a.wiring, owned, plan_getElem? ha, hmem⟩
    exact .inl ⟨j, owned, rfl, fun k hk => .head' hnests hk⟩
  · exact .inr hheap

/-- `allocateWith` leaves a world `Widened`: with an address that the allocator or one nested in it
has, or with the error of the group, after which only allocators nested in it were asked. -/
lemma Links.Widening.allocateWith [LawfulSystem σ] (hlinks : links.Widening depth)
    (h : w.Keeps parcels) (hclosed : w.plan.Closed) {id : Nat} {a : Allocator}
    (ha : w.allocator? id = some a) (chain : Chain) (size : Nat) (affinity : Affinity) :
    Ends (World.allocateWith links id a chain size affinity) w fun answer w' => match answer with
      | .ok address => ∃ events, w.Widened (w.plan.InTree id) size affinity (some address) events w'
      | .error reason => a.Refuses size affinity reason w.memory ∧ ∃ m₁ events events',
          m₁.log = events ++ w.memory.log ∧
            (w.update id (a.setGroup affinity (a.groupFor affinity)) m₁).Keeps parcels ∧
            (w.update id (a.setGroup affinity (a.groupFor affinity)) m₁).Widened
              (Relation.TransGen w.plan.Nests id) size affinity none events' w' := by
  obtain ⟨held, -, hmemory, -, -⟩ := h.focus ha
  have hpool : Ends (onMemory (a.allocatePooled size affinity)) w fun out w₁ =>
      (out.2.wiring = a.wiring ∧ w.Gains parcels size (· = .pool id) out.1.toOption
        (w.update id out.2 w₁.memory)) ∧
      (∀ address, out.1 = .ok address → a.blank.Widens size affinity (· = address) out.2.blank) ∧
      (∀ reason, out.1 = .error reason →
        out.2 = a.setGroup affinity (a.groupFor affinity) ∧
          a.Refuses size affinity reason w.memory) ∧
      w.memory.Writes (fun _ => True) w₁.memory ∧ w₁ = { w with memory := w₁.memory } :=
    ends_onMemory (((h.allocatePooled ha size affinity).and
      ((Allocator.allocatePooled_widens (h.ok ha) hmemory size affinity).and
        ((a.allocatePooled_failed size affinity w.memory).and
          ((a.plain_allocatePooled size affinity).oblivious.writes w.memory)))).mono
      fun _ _ ⟨hgains, hwidens, hfailed, hwrites⟩ => ⟨hgains, hwidens, hfailed, hwrites, rfl⟩)
  unfold World.allocateWith
  refine hpool.bind ?_
  rintro ⟨answer, a'⟩ w₁ ⟨⟨hwiring, hgains⟩, hwidens, hfailed, ⟨events, hlog, -⟩, hw₁⟩
  have hset : Ends (setAllocator id a') w₁ fun _ w₂ => w₂ = w.update id a' w₁.memory := by
    rw [hw₁]
    rfl
  refine hset.bind ?_
  rintro - w₂ rfl
  cases answer with
  | ok address =>
    refine ⟨events, widened_update ha hlog (.inr ⟨.refl, (hwidens address rfl).mono ?_⟩)⟩
    rintro base rfl
    exact .inr rfl
  | error reason =>
    obtain ⟨rfl, hrefuses⟩ := hfailed reason rfl
    obtain ⟨hplan, h₂⟩ := hgains
    have hinner : ∀ s ∈ (a.setGroup affinity (a.groupFor affinity)).strategies chain,
        Inner (w.update id (a.setGroup affinity (a.groupFor affinity)) w₁.memory).plan
          (Relation.TransGen w.plan.Nests id) s := by
      rw [Allocator.strategies_congr hwiring, hplan]
      exact inner_strategies hclosed ha chain
    refine (hlinks.serveFrom h₂ (hplan ▸ hclosed) size affinity _ hinner).bind ?_
    rintro (_ | address) w₃ ⟨events', hwidened⟩
    · refine (hwidened.note _).bind fun _ w₄ ⟨events'', hend⟩ => ?_
      exact ⟨hrefuses, w₁.memory, events, events'', hlog, h₂, hend⟩
    · exact ⟨events' ++ events, hwidened.of_update ha hlog⟩

/-- `Links.upTo` is `Widening` for every depth, by induction on it. -/
lemma widening_upTo [LawfulSystem σ] (depth : Nat) :
    (Links.upTo depth : Links σ).Widening depth := by
  induction depth with
  | zero =>
    refine ⟨sound_upTo 0, fun {w _} _ _ id size affinity => ?_, fun inner size affinity => ?_⟩
    · exact ⟨[], .refl w _ size affinity⟩
    · exact fun address size' => returnsAlong_widens inner size affinity address size' 0
  | succ depth ih =>
    refine ⟨sound_upTo _, fun {w _} h hclosed id size affinity => ?_,
      fun inner size affinity address size' =>
        returnsAlong_widens inner size affinity address size' _⟩
    refine ends_upTo_allocate (fun _ => ⟨[], .refl w _ size affinity⟩) fun a ha => ?_
    refine (ih.allocateWith h hclosed ha .owned size affinity).mono ?_
    rintro (reason | address) w' hend
    · obtain ⟨-, m₁, events, events', hlog, -, hwidened⟩ := hend
      exact ⟨events' ++ events, hwidened.of_update ha hlog⟩
    · exact hend

end System

end World

end BlockPool
