import BlockPool.Proofs.World.Owner

/-!
# Parcels along chains of fallbacks

Where a parcel is from is written down nowhere. A return walks the chain of fallbacks and relies on
each strategy to know its own: an allocator takes an address only if one of its blocks contains it,
and then the parcel is from there, since no other block does. So the walk ends at the home of the
parcel if it gets there, and leaves the world as it is up to that point.

The links that may be followed are counted down, so every statement on a chain is proved by
induction on that count, and within one chain by induction on its strategies.
-/

namespace BlockPool

/-- `Memory.Keeps` survives a `Quiet` action. -/
lemma Memory.Keeps.quiet {σ : Type} {m m' : Memory σ} {held : Multiset Region} (h : m.Keeps held)
    (hquiet : m.Quiet m') : m'.Keeps held := by
  obtain ⟨-, hlive, events, hlog, hnotices⟩ := hquiet
  have hobtained : obtained events = 0 := by
    refine (Multiset.coe_eq_zero _).2 (List.filterMap_eq_nil_iff.2 fun event hmem => ?_)
    obtain ⟨notice, rfl⟩ := hnotices event hmem
    rfl
  have hreturned : returned events = 0 := by
    refine (Multiset.coe_eq_zero _).2 (List.filterMap_eq_nil_iff.2 fun event hmem => ?_)
    obtain ⟨notice, rfl⟩ := hnotices event hmem
    rfl
  refine ⟨by rw [hlive, h.live], by rw [hlive]; exact h.apart, h.proper, ?_, ?_⟩
  · intro named status hmem
    rw [hlog] at hmem
    rcases List.mem_append.1 hmem with hmem | hmem
    · obtain ⟨notice, heq⟩ := hnotices _ hmem
      exact Event.noConfusion heq
    · exact h.received named status hmem
  · rw [hlog, obtained_append, returned_append, hobtained, hreturned, Multiset.zero_add,
      Multiset.zero_add, h.balanced]

namespace World

variable {σ : Type} {w w' : World σ} {parcels : Multiset Parcel}

/-! ## What happens to parcels -/

/-- What a request ends with: a world that `Keeps` a parcel more, from a home of which `source`
holds, if it is answered. -/
def Gains (w : World σ) (parcels : Multiset Parcel) (size : Nat) (source : Home → Prop)
    (answer : Option Nat) (w' : World σ) : Prop :=
  w'.plan = w.plan ∧ match answer with
    | none => w'.Keeps parcels
    | some address => ∃ home, source home ∧ w'.Keeps (⟨home, address, size⟩ ::ₘ parcels)

/-- What a return ends with: it is taken, and the world `Keeps` the parcels that are left. -/
def Loses (w : World σ) (parcels : Multiset Parcel) (answer : Bool) (w' : World σ) : Prop :=
  answer = true ∧ w'.plan = w.plan ∧ w'.Keeps parcels

/-- `Gains` from more homes. -/
lemma Gains.mono {size : Nat} {source source' : Home → Prop} {answer : Option Nat}
    (h : w.Gains parcels size source answer w') (hsource : ∀ home, source home → source' home) :
    w.Gains parcels size source' answer w' := by
  refine ⟨h.1, ?_⟩
  have hanswer := h.2
  split
  · exact hanswer
  · obtain ⟨home, hhome, hkeeps⟩ := hanswer
    exact ⟨home, hsource home hhome, hkeeps⟩

lemma Gains.trans {w'' : World σ} {size : Nat} {source : Home → Prop} {answer : Option Nat}
    (hplan : w'.plan = w.plan) (h : w'.Gains parcels size source answer w'') :
    w.Gains parcels size source answer w'' :=
  ⟨h.1.trans hplan, h.2⟩

/-- `Keeps` for another memory, if only the regions beside the blocks are different. -/
lemma Keeps.withMemory {parcels' : Multiset Parcel} {m' : Memory σ} (h : w.Keeps parcels)
    (hmemory : m'.Keeps (w.regions + parcels'.bind Parcel.regions))
    (hslots : parcels'.bind Parcel.slots = parcels.bind Parcel.slots)
    (haccepted : ∀ x ∈ parcels', x.Accepted) :
    ({ w with memory := m' } : World σ).Keeps parcels' where
  ok := h.ok
  memory := hmemory
  slots := h.slots.trans hslots.symm
  accepted := haccepted

/-- `Keeps` survives a `Quiet` action. -/
lemma Keeps.quiet (h : w.Keeps parcels) {m' : Memory σ} (hquiet : w.memory.Quiet m') :
    ({ w with memory := m' } : World σ).Keeps parcels :=
  h.withMemory (h.memory.quiet hquiet) rfl h.accepted

lemma Keeps.note [System σ] (h : w.Keeps parcels) (notice : Notice) :
    Ends (onMemory (Memory.note notice)) w fun _ w' => w'.plan = w.plan ∧ w'.Keeps parcels :=
  ends_onMemory ((Memory.quiet_note notice w.memory).mono fun _ _ hquiet =>
    ⟨rfl, h.quiet hquiet⟩)

section Pool

variable {id : Nat} {a : Allocator}

/-- `allocatePooled` gains a parcel from the pool of the allocator. -/
lemma Keeps.allocatePooled [System σ] [LawfulSystem σ] (h : w.Keeps parcels)
    (ha : w.allocator? id = some a) (size : Nat) (affinity : Affinity) :
    Ends (a.allocatePooled size affinity) w.memory fun out m' =>
      out.2.wiring = a.wiring ∧
        w.Gains parcels size (· = .pool id) out.1.toOption (w.update id out.2 m') := by
  obtain ⟨held, others, hmemory, hslots, hupdate⟩ := h.focus ha
  refine (Allocator.allocatePooled_spec (h.ok ha) hmemory size affinity).mono ?_
  rintro ⟨answer, a'⟩ m' ⟨hok, hkeeps, hgained, hwiring⟩
  refine ⟨hwiring, plan_update ha hwiring, ?_⟩
  simp only at *
  split
  · rename_i hanswer
    rw [hanswer] at hgained
    refine hupdate hok hkeeps rfl ?_ h.accepted
    rw [hgained, hslots]
    exact congrArg (fun s => Multiset.map (Prod.mk id) s + others) (Multiset.zero_add _).symm
  · rename_i address hanswer
    rw [hanswer] at hgained
    refine ⟨.pool id, rfl, hupdate hok hkeeps ?_ ?_ ?_⟩
    · exact Parcel.bind_regions_pool
    · rw [Parcel.bind_slots_pool, hgained, Multiset.map_add, hslots, Multiset.add_assoc]
      rfl
    · intro x hx
      rcases Multiset.mem_cons.1 hx with rfl | hx
      · exact trivial
      · exact h.accepted x hx

/-- `deallocatePooled` takes back a parcel from the pool of the allocator. -/
lemma Keeps.deallocatePooled [System σ] {address size : Nat}
    (h : w.Keeps (⟨.pool id, address, size⟩ ::ₘ parcels)) (ha : w.allocator? id = some a) :
    Ends (a.deallocatePooled address size) w.memory fun out m' =>
      w.Loses parcels out.1 (w.update id out.2 m') := by
  obtain ⟨held, others, hmemory, hslots, hupdate⟩ := h.focus ha
  have hslot : (⟨address, Tracker.slotSize size⟩ : Extent) ∈ a.slots := by
    obtain ⟨b, hb, hslot⟩ := h.slot_mem (Multiset.mem_cons_self ..) rfl
    rw [ha] at hb
    rwa [Option.some.inj hb]
  refine (Allocator.deallocatePooled_spec (h.ok ha) hmemory address size).mono ?_
  rintro ⟨taken, a'⟩ m' ⟨htaken, hok, hkeeps, hslots', hwiring⟩
  have howns : a.owns address = true := Allocator.owns_of_slot (h.ok ha) hmemory hslot
  have hlost : a.slots = ⟨address, Tracker.slotSize size⟩ ::ₘ a'.slots := by
    rw [hslots', Multiset.cons_erase hslot]
  refine ⟨htaken.trans howns, plan_update ha hwiring, hupdate hok hkeeps ?_ ?_ ?_⟩
  · exact Parcel.bind_regions_pool.symm
  · rw [hlost, Parcel.bind_slots_pool, Multiset.map_cons, Multiset.cons_add] at hslots
    exact (Multiset.cons_inj_right _).1 hslots
  · exact fun x hx => h.accepted x (Multiset.mem_cons_of_mem hx)

end Pool

/-- `Heap.allocate` gains a parcel with a region of its own. -/
lemma Keeps.allocateHeap [System σ] [LawfulSystem σ] (h : w.Keeps parcels) (heap : Heap)
    (size : Nat) :
    Ends (onMemory (heap.allocate size)) w (w.Gains parcels size (· = .heap heap)) := by
  refine ends_onMemory ((Heap.allocate_spec h.memory heap size).mono ?_)
  rintro (_ | address) m' h'
  · exact ⟨rfl, h.withMemory h' rfl h.accepted⟩
  · refine ⟨rfl, .heap heap, rfl, h.withMemory ?_ ?_ ?_⟩
    · rw [Parcel.bind_regions_heap, Multiset.add_cons]
      exact h'.1
    · exact Parcel.bind_slots_heap
    · intro x hx
      rcases Multiset.mem_cons.1 hx with rfl | hx
      · exact h'.2
      · exact h.accepted x hx

/-- `Heap.deallocate` takes back a parcel with a region of its own. -/
lemma Keeps.deallocateHeap [System σ] {heap : Heap} {address size : Nat}
    (h : w.Keeps (⟨.heap heap, address, size⟩ ::ₘ parcels)) :
    Ends (onMemory (heap.deallocate address size)) w (w.Loses parcels) := by
  have hmemory : w.memory.Keeps (heap.regionAt address size ::ₘ
      (w.regions + parcels.bind Parcel.regions)) := by
    have hmemory := h.memory
    rwa [Parcel.bind_regions_heap, Multiset.add_cons] at hmemory
  have haccepts : heap.Accepts size := h.accepted _ (Multiset.mem_cons_self ..)
  refine ends_onMemory ((Heap.deallocate_spec hmemory haccepts).mono ?_)
  rintro taken m' ⟨htaken, h'⟩
  refine ⟨htaken, rfl, h.withMemory h' Parcel.bind_slots_heap.symm ?_⟩
  exact fun x hx => h.accepted x (Multiset.mem_cons_of_mem hx)

/-! ## Links -/

/-- Links that keep parcels: a request `Gains` a parcel from a pool that the links get to, a return
of such a parcel `Loses` it, and an address in no such pool is left alone. -/
structure Links.Sound [System σ] (links : Links σ) (depth : Nat) : Prop where
  allocate {w : World σ} {parcels : Multiset Parcel} (h : w.Keeps parcels)
    (hclosed : w.plan.Closed) (id size : Nat) (affinity : Affinity) :
    Ends (links.allocate id size affinity) w
      (w.Gains parcels size fun home => ∃ k, home = .pool k ∧ w.plan.Leads depth id k)
  deallocate {w : World σ} {parcels : Multiset Parcel} {id k address size : Nat}
    (h : w.Keeps (⟨.pool k, address, size⟩ ::ₘ parcels)) (hclosed : w.plan.Closed)
    (hleads : w.plan.Leads depth id k) :
    Ends (links.deallocate id address size) w (w.Loses parcels)
  finds : links.Finds depth

section Walk

variable [System σ] {links : Links σ} {depth : Nat}

/-- `offer` gains a parcel that the strategy `Provides`. -/
lemma Links.Sound.offer [LawfulSystem σ] (hlinks : links.Sound depth) (h : w.Keeps parcels)
    (hclosed : w.plan.Closed) (size : Nat) (affinity : Affinity) {s : Strategy}
    (hs : s.IsAllocator ∨ ∃ heap, s = .heap heap) :
    Ends (offer links size affinity s) w
      (w.Gains parcels size (w.plan.Provides depth s)) := by
  rcases hs with ⟨id, owned, rfl⟩ | ⟨heap, rfl⟩
  · refine (hlinks.allocate h hclosed id size affinity).mono fun _ _ hgains => hgains.mono ?_
    rintro home ⟨k, rfl, hleads⟩
    exact hleads
  · refine (h.allocateHeap heap size).mono fun _ _ hgains => hgains.mono ?_
    rintro home rfl
    exact rfl

/-- `offerBack` takes back a parcel that the strategy `Provides`. -/
lemma Links.Sound.offerBack (hlinks : links.Sound depth) {home : Home} {address size : Nat}
    (h : w.Keeps (⟨home, address, size⟩ ::ₘ parcels)) (hclosed : w.plan.Closed) {s : Strategy}
    (hs : w.plan.Provides depth s home) :
    Ends (offerBack links address size s) w (w.Loses parcels) := by
  cases s with
  | allocator id owned =>
    cases home with
    | pool k => exact hlinks.deallocate h hclosed hs
    | heap h' => exact False.elim hs
  | heap heap =>
    cases home with
    | pool k => exact False.elim hs
    | heap heap' =>
      obtain rfl : heap = heap' := hs
      exact h.deallocateHeap
  | foreign id name => exact False.elim hs

/-- `offerBack` answers `false` and does nothing with a parcel that the allocator does not
provide. -/
lemma Links.Sound.offerBack_eq (hlinks : links.Sound depth) (h : w.Keeps parcels)
    {x : Parcel} (hx : x ∈ parcels) (hclosed : w.plan.Closed) {s : Strategy}
    (hs : s.IsAllocator) (hnot : ¬ w.plan.Provides depth s x.home) (size : Nat) :
    World.offerBack links x.address size s w = (false, w) := by
  obtain ⟨id, owned, rfl⟩ := hs
  have hfinds := hlinks.finds.deallocate (hclosed.onlyAllocators id) x.address size
  refine Finds.pass hfinds ?_
  rintro ⟨k, a, hleads, ha, howns⟩
  apply hnot
  rw [h.home_of_owns hx ha howns]
  exact hleads

/-- `serveFrom` gains a parcel that some strategy `Provides`. What does not meet the alignment has
gone back before. -/
lemma Links.Sound.serveFrom [LawfulSystem σ] (hlinks : links.Sound depth)
    (h : w.Keeps parcels) (hclosed : w.plan.Closed) (size : Nat) (affinity : Affinity)
    (alignment : Nat) {strategies : List Strategy}
    (hs : ∀ s ∈ strategies, s.IsAllocator ∨ ∃ heap, s = .heap heap) :
    Ends (World.serveFrom links size affinity alignment strategies) w
      (w.Gains parcels size fun home => ∃ s ∈ strategies, w.plan.Provides depth s home) := by
  induction strategies generalizing w with
  | nil => exact ⟨rfl, h⟩
  | cons s rest ih =>
    -- the rest of the chain may be asked from any world with the same plan and parcels
    have hrest : ∀ {w₁ : World σ}, w₁.plan = w.plan → w₁.Keeps parcels →
        Ends (World.serveFrom links size affinity alignment rest) w₁
          (w.Gains parcels size fun home => ∃ s' ∈ s :: rest, w.plan.Provides depth s' home) := by
      intro w₁ hplan h₁
      refine (ih h₁ (hplan ▸ hclosed) fun s' hs' => hs s' (List.mem_cons_of_mem _ hs')).mono ?_
      rintro answer w₂ hgains
      refine (hgains.trans hplan).mono ?_
      rintro home ⟨s', hs', hprovides⟩
      exact ⟨s', List.mem_cons_of_mem _ hs', hplan ▸ hprovides⟩
    unfold World.serveFrom
    refine (hlinks.offer h hclosed size affinity (hs s (List.mem_cons_self ..))).bind ?_
    rintro (_ | address) w₁ ⟨hplan, h₁⟩
    · exact hrest hplan h₁
    · obtain ⟨home, hprovides, h₁⟩ := h₁
      simp only
      split
      · refine (h₁.note _).bind fun _ w₂ h₂ => ?_
        have hplan₂ := h₂.1.trans hplan
        refine (hlinks.offerBack h₂.2 (hplan₂ ▸ hclosed) (hplan₂ ▸ hprovides)).bind ?_
        rintro taken w₃ ⟨-, hplan₃, h₃⟩
        exact hrest (hplan₃.trans hplan₂) h₃
      · refine (h₁.note _).bind fun _ w₂ h₂ => ⟨h₂.1.trans hplan, home, ?_, h₂.2⟩
        exact ⟨s, List.mem_cons_self .., hprovides⟩

/-- `returnTo` passes allocators that do not provide the parcel. -/
lemma Links.Sound.returnTo_append (hlinks : links.Sound depth) (h : w.Keeps parcels)
    {x : Parcel} (hx : x ∈ parcels) (hclosed : w.plan.Closed) (size : Nat)
    {front : List Strategy} (rest : List Strategy) (hfront : ∀ s ∈ front, s.IsAllocator)
    (hnot : ∀ s ∈ front, ¬ w.plan.Provides depth s x.home) :
    World.returnTo links x.address size (front ++ rest) w =
      World.returnTo links x.address size rest w := by
  induction front with
  | nil => rfl
  | cons s front ih =>
    have hpass := hlinks.offerBack_eq h hx hclosed (hfront s (List.mem_cons_self ..))
      (hnot s (List.mem_cons_self ..)) size
    rw [List.cons_append, World.returnTo, bind_apply_eq hpass]
    exact ih (fun s' hs' => hfront s' (List.mem_cons_of_mem _ hs'))
      fun s' hs' => hnot s' (List.mem_cons_of_mem _ hs')

/-- `returnTo` gives a parcel back to the first strategy that `Provides` it. -/
lemma Links.Sound.returnTo (hlinks : links.Sound depth) {home : Home} {address size : Nat}
    (h : w.Keeps (⟨home, address, size⟩ ::ₘ parcels)) (hclosed : w.plan.Closed)
    {front : List Strategy} {s : Strategy} (rest : List Strategy)
    (hfront : ∀ s ∈ front, s.IsAllocator)
    (hnot : ∀ s ∈ front, ¬ w.plan.Provides depth s home) (hs : w.plan.Provides depth s home) :
    Ends (World.returnTo links address size (front ++ s :: rest)) w fun answer w' =>
      answer = some s ∧ w'.plan = w.plan ∧ w'.Keeps parcels := by
  have hpass := hlinks.returnTo_append h (Multiset.mem_cons_self ..) hclosed size (s :: rest)
    hfront hnot
  refine Ends.congr hpass ?_
  unfold World.returnTo
  refine (hlinks.offerBack h hclosed hs).bind ?_
  rintro taken w₁ ⟨rfl, hplan, h₁⟩
  exact ⟨rfl, hplan, h₁⟩

/-- `allocateWith` gains a parcel from the pool of the allocator or from one of its strategies. -/
lemma Links.Sound.allocateWith [LawfulSystem σ] (hlinks : links.Sound depth)
    (h : w.Keeps parcels) (hclosed : w.plan.Closed) {id : Nat} {a : Allocator}
    (ha : w.allocator? id = some a) (chain : Chain) (size : Nat) (affinity : Affinity) :
    Ends (World.allocateWith links id a chain size affinity) w fun answer w' =>
      w.Gains parcels size (fun home => home = .pool id ∨
        ∃ s ∈ a.strategies chain, w.plan.Provides depth s home) answer.toOption w' := by
  have hpool : Ends (onMemory (a.allocatePooled size affinity)) w fun out w₁ =>
      out.2.wiring = a.wiring ∧ w.Gains parcels size (· = .pool id) out.1.toOption
        { w₁ with allocators := w₁.allocators.set id out.2 } := h.allocatePooled ha size affinity
  unfold World.allocateWith
  refine hpool.bind ?_
  rintro ⟨answer, a'⟩ w₁ ⟨hwiring, hgains⟩
  have hset : Ends (setAllocator id a') w₁ fun _ w₂ =>
      w.Gains parcels size (· = .pool id) answer.toOption w₂ := hgains
  refine hset.bind ?_
  intro _ w₂ hgains
  cases answer with
  | ok address => exact hgains.mono fun _ hhome => .inl hhome
  | error reason =>
    obtain ⟨hplan, h₂⟩ := hgains
    have hs : ∀ s ∈ a'.strategies chain, s.IsAllocator ∨ ∃ heap, s = .heap heap := by
      rw [Allocator.strategies_congr hwiring]
      exact strategies_closed hclosed ha chain
    refine (hlinks.serveFrom h₂ (hplan ▸ hclosed) size affinity _ hs).bind ?_
    rintro (_ | address) w₃ hgains
    · refine (hgains.2.note _).bind fun _ w₄ h₄ => ?_
      exact ⟨(h₄.1.trans hgains.1).trans hplan, h₄.2⟩
    · refine (hgains.trans hplan).mono ?_
      rintro home ⟨s, hs, hprovides⟩
      rw [Allocator.strategies_congr hwiring] at hs
      exact .inr ⟨s, hs, hplan ▸ hprovides⟩

/-- `deallocateWith` takes back a parcel from the pool of the allocator or from one of its
strategies. -/
lemma Links.Sound.deallocateWith (hlinks : links.Sound depth) {home : Home}
    {address size : Nat} (h : w.Keeps (⟨home, address, size⟩ ::ₘ parcels))
    (hclosed : w.plan.Closed) {id : Nat} {a : Allocator} (ha : w.allocator? id = some a)
    {chain : Chain} (hhome : home = .pool id ∨
      ∃ s ∈ a.strategies chain, w.plan.Provides depth s home) :
    Ends (World.deallocateWith links id a chain address size) w (w.Loses parcels) := by
  unfold World.deallocateWith
  -- the allocator looks into its own blocks first, and what it finds there is its own parcel
  by_cases howns : a.owns address = true
  · obtain rfl : home = .pool id := h.home_of_owns (Multiset.mem_cons_self ..) ha howns
    have hpool : Ends (onMemory (a.deallocatePooled address size)) w fun out w₁ =>
        w.Loses parcels out.1 { w₁ with allocators := w₁.allocators.set id out.2 } :=
      h.deallocatePooled ha
    refine hpool.bind ?_
    rintro ⟨taken, a'⟩ w₁ ⟨rfl, hloses⟩
    exact ⟨rfl, hloses⟩
  · have hnot : home ≠ .pool id := by
      rintro rfl
      exact howns (h.owns_of_home (Multiset.mem_cons_self ..) ha rfl)
    obtain ⟨front, s, rest, hsplit, hfront, hbefore, hs⟩ :=
      Plan.exists_first_provider (hclosed a.wiring (List.mem_of_getElem? (plan_getElem? ha)))
        (a.strategies_eq chain ▸ hhome.resolve_left hnot)
    have hreturn := hlinks.returnTo h hclosed rest hfront hbefore hs
    rw [← hsplit, ← a.strategies_eq] at hreturn
    refine ends_deallocateWith_unowned ha (Bool.eq_false_iff.2 howns) (hreturn.mono ?_)
    rintro _ w₁ ⟨rfl, hplan, h₁⟩ m' hquiet -
    exact ⟨rfl, hplan, h₁.quiet hquiet⟩

end Walk

/-! ## The links of a world -/

section UpTo

variable [System σ]

/-- `Links.upTo` is `Sound` for every depth, by induction on it. -/
theorem sound_upTo [LawfulSystem σ] (depth : Nat) : (Links.upTo depth : Links σ).Sound depth := by
  induction depth with
  | zero =>
    exact {
      allocate := fun h _ _ _ _ => ⟨rfl, h⟩
      deallocate := fun _ _ hleads => False.elim hleads
      finds := finds_upTo 0 }
  | succ depth ih =>
    refine ⟨?_, ?_, finds_upTo (depth + 1)⟩
    · intro w parcels h hclosed id size affinity
      refine ends_upTo_allocate (fun _ => ⟨rfl, h⟩) fun a ha => ?_
      refine (ih.allocateWith h hclosed ha .owned size affinity).mono fun _ _ hgains => ?_
      refine hgains.mono ?_
      rintro home (rfl | ⟨s, hs, hprovides⟩)
      · exact ⟨id, rfl, .inl rfl⟩
      · -- a nested allocator never uses its heap, so its parcels are all from pools
        obtain ⟨i, owned, rfl⟩ :=
          hclosed a.wiring (List.mem_of_getElem? (plan_getElem? ha)) s hs
        cases home with
        | pool k => exact ⟨k, rfl, leads_of_provides hclosed ha hs hprovides⟩
        | heap heap => exact False.elim hprovides
    · intro w parcels id k address size h hclosed hleads
      -- if there were no allocator, nothing could be reached from it but its own number
      obtain ⟨a, ha⟩ : ∃ a, w.allocator? id = some a := by
        rcases hleads with rfl | ⟨x, hx, -⟩
        · obtain ⟨a, ha, -⟩ := h.slot_mem (Multiset.mem_cons_self ..) rfl
          exact ⟨a, ha⟩
        · obtain ⟨a, ha, -⟩ := exists_allocator_of_plan hx
          exact ⟨a, ha⟩
      refine ends_upTo_deallocate (fun hid => absurd (hid.symm.trans ha) (by simp)) fun b hb => ?_
      obtain rfl := Option.some.inj (ha.symm.trans hb)
      refine ih.deallocateWith h hclosed ha ?_
      rcases hleads with rfl | ⟨x, hx, i, owned, hs, hleads⟩
      · exact .inl rfl
      · rw [plan_getElem? ha] at hx
        obtain rfl := Option.some.inj hx
        exact .inr ⟨.allocator i owned, hs, hleads⟩

/-- `World.allocate` gains a parcel from a home that the allocator `Reaches`, if it is answered. -/
lemma Keeps.allocate [LawfulSystem σ] (h : w.Keeps parcels) (hclosed : w.plan.Closed)
    (id : Nat) (chain : Chain) (size : Nat) (affinity : Affinity) :
    Ends (World.allocate id chain size affinity) w fun answer w' =>
      w.Gains parcels size (w.plan.Reaches id chain) (answer.bind Except.toOption) w' := by
  refine ends_allocate (fun _ => ⟨rfl, h⟩) fun a ha => ?_
  refine ((sound_upTo _).allocateWith h hclosed ha chain size affinity).mono ?_
  refine fun _ _ hgains => hgains.mono ?_
  rintro home (rfl | ⟨s, hs, hprovides⟩)
  · exact .inl rfl
  · rw [a.strategies_eq] at hs
    rw [← plan_length] at hprovides
    exact .inr ⟨a.wiring, plan_getElem? ha, s, hs, hprovides⟩

/-- `World.deallocate` takes back a parcel from a home that the allocator `Reaches`. -/
lemma Keeps.deallocate [LawfulSystem σ] {home : Home} {address size : Nat}
    (h : w.Keeps (⟨home, address, size⟩ ::ₘ parcels)) (hclosed : w.plan.Closed) {id : Nat}
    {chain : Chain} (hreach : w.plan.Reaches id chain home) :
    Ends (World.deallocate id chain address size) w fun answer w' =>
      answer = some true ∧ w'.plan = w.plan ∧ w'.Keeps parcels := by
  obtain ⟨a, ha⟩ : ∃ a, w.allocator? id = some a := by
    rcases hreach with rfl | ⟨x, hx, -⟩
    · obtain ⟨a, ha, -⟩ := h.slot_mem (Multiset.mem_cons_self ..) rfl
      exact ⟨a, ha⟩
    · obtain ⟨a, ha, -⟩ := exists_allocator_of_plan hx
      exact ⟨a, ha⟩
  refine ends_deallocate (fun hid => absurd (hid.symm.trans ha) (by simp)) fun b hb => ?_
  obtain rfl := Option.some.inj (ha.symm.trans hb)
  refine ((sound_upTo _).deallocateWith h hclosed ha ?_).mono ?_
  · rcases hreach with rfl | ⟨x, hx, s, hs, hprovides⟩
    · exact .inl rfl
    · rw [plan_getElem? ha] at hx
      obtain rfl := Option.some.inj hx
      rw [← a.strategies_eq] at hs
      rw [plan_length] at hprovides
      exact .inr ⟨s, hs, hprovides⟩
  · rintro taken w' ⟨rfl, hplan, hkeeps⟩
    exact ⟨rfl, hplan, hkeeps⟩

end UpTo

end World

end BlockPool
