import BlockPool.Proofs.World.Steady

/-!
# Settings, compaction and starting anew

What is done with one allocator apart from requests and returns leaves all parcels where they are,
unless it starts anew: then the parcels from its pool are gone.
-/

namespace BlockPool.World

variable {σ : Type} {w : World σ} {parcels : Multiset Parcel} {id : Nat} {a : Allocator}

/-- Each number occurs once in `w.numbered`. -/
lemma ne_of_numbered {rest : Multiset (Allocator × Nat)} (h : w.numbered = (a, id) ::ₘ rest) :
    ∀ e ∈ rest, e.2 ≠ id := by
  have hnumbers : w.numbered.map Prod.snd = ((List.range' 0 w.allocators.length : List Nat) :) := by
    unfold numbered
    rw [Multiset.map_coe, List.zipIdx_map_snd]
  have hnodup : (w.numbered.map Prod.snd).Nodup := by
    rw [hnumbers]
    exact Multiset.coe_nodup.2 List.nodup_range'
  rw [h, Multiset.map_cons, Multiset.nodup_cons] at hnodup
  exact fun e he heq => hnodup.1 (Multiset.mem_map.2 ⟨e, he, heq⟩)

/-- `Keeps` survives an action that leaves an allocator `Alike`. -/
lemma Keeps.alike (h : w.Keeps parcels) (ha : w.allocator? id = some a)
    {action : MemoryM σ Allocator}
    (haction : ∀ held, w.memory.Keeps held →
      Ends action w.memory fun a' m' => a.Alike a' ∧ m'.Keeps held) :
    Ends action w.memory fun a' m' =>
      (w.update id a' m').plan = w.plan ∧ (w.update id a' m').Keeps parcels := by
  obtain ⟨held, others, hmemory, hslots, hupdate⟩ := h.focus ha
  refine (haction _ hmemory).mono ?_
  rintro a' m' ⟨halike, hkeeps⟩
  refine ⟨plan_update ha halike.wiring, hupdate halike.ok ?_ rfl ?_ h.accepted⟩
  · rwa [halike.regions]
  · rwa [halike.slots]

/-- `setTracking` leaves all parcels and the plan. -/
lemma Keeps.setTracking (h : w.Keeps parcels) (id : Nat) (tracking : Tracking) :
    Ends (change id fun a => pure (a.setTracking tracking)) w fun _ w' =>
      w'.plan = w.plan ∧ w'.Keeps parcels :=
  ends_change (fun _ => ⟨rfl, h⟩) fun _ ha => h.alike ha fun _ hm =>
    ⟨Allocator.alike_setTracking (h.ok ha) tracking, hm⟩

/-- `addStrategy` leaves all parcels. -/
lemma Keeps.addStrategy (h : w.Keeps parcels) (ha : w.allocator? id = some a) (s : Strategy) :
    (w.update id (a.addStrategy s) w.memory).Keeps parcels := by
  obtain ⟨held, others, hmemory, hslots, hupdate⟩ := h.focus ha
  exact hupdate ⟨(h.ok ha).group⟩ hmemory rfl hslots h.accepted

section System

variable [System σ]

lemma Keeps.setBlockSize (h : w.Keeps parcels) (id : Nat) (affinity : Affinity)
    (blockSize : Nat) :
    Ends (change id fun a => a.setBlockSize affinity blockSize) w fun _ w' =>
      w'.plan = w.plan ∧ w'.Keeps parcels :=
  ends_change (fun _ => ⟨rfl, h⟩) fun _ ha => h.alike ha fun _ hm =>
    Allocator.setBlockSize_spec (h.ok ha) hm affinity blockSize

lemma Keeps.configureGroup (h : w.Keeps parcels) (id : Nat) (group : GroupSettings) :
    Ends (change id fun a => a.configureGroup group) w fun _ w' =>
      w'.plan = w.plan ∧ w'.Keeps parcels :=
  ends_change (fun _ => ⟨rfl, h⟩) fun _ ha => h.alike ha fun _ hm =>
    Allocator.configureGroup_spec (h.ok ha) hm group

lemma Keeps.compact (h : w.Keeps parcels) (id : Nat) :
    Ends (onAllocator id Allocator.compact) w fun _ w' =>
      w'.plan = w.plan ∧ w'.Keeps parcels := by
  refine ends_onAllocator (fun _ => ⟨rfl, h⟩) fun a ha => ?_
  obtain ⟨held, others, hmemory, hslots, hupdate⟩ := h.focus ha
  refine (Allocator.compact_spec (h.ok ha) hmemory).mono ?_
  rintro ⟨bytes, a'⟩ m' ⟨hok, hkeeps, hsame, hwiring⟩
  refine ⟨plan_update ha hwiring, hupdate hok hkeeps rfl ?_ h.accepted⟩
  rwa [hsame]

/-! ## Starting anew -/

/-- The parcels with another `home` than the pool of an allocator. -/
def elsewhere (id : Nat) (parcels : Multiset Parcel) : Multiset Parcel :=
  parcels.filter fun x => x.home ≠ .pool id

/-- `elsewhere` strikes out the slots of one allocator. -/
lemma elsewhere_slots (id : Nat) (parcels : Multiset Parcel) :
    (elsewhere id parcels).bind Parcel.slots =
      (parcels.bind Parcel.slots).filter fun e => e.1 ≠ id := by
  unfold elsewhere
  induction parcels using Multiset.induction with
  | empty => rfl
  | cons x rest ih =>
    rw [Multiset.cons_bind, Multiset.filter_add, ← ih]
    obtain ⟨k | heap, address, size⟩ := x
    · by_cases hk : k = id
      · simp [Parcel.slots, hk]
      · simp [Parcel.slots, hk, Multiset.filter_singleton]
    · simp [Parcel.slots]

/-- `elsewhere` leaves the regions of all parcels, since those from pools have none. -/
lemma elsewhere_regions (id : Nat) (parcels : Multiset Parcel) :
    (elsewhere id parcels).bind Parcel.regions = parcels.bind Parcel.regions := by
  unfold elsewhere
  induction parcels using Multiset.induction with
  | empty => rfl
  | cons x rest ih =>
    rw [Multiset.cons_bind, ← ih]
    obtain ⟨k | heap, address, size⟩ := x
    · by_cases hk : k = id <;> simp [Parcel.regions, hk]
    · simp [Parcel.regions]

/-- `reset` gives all memory of an allocator back, and leaves the parcels from `elsewhere`. -/
lemma Keeps.reset (h : w.Keeps parcels) (ha : w.allocator? id = some a) (settings : Settings) :
    Ends (a.reset settings) w.memory fun a' m' =>
      a' = .ofSettings settings a.nested ∧ (w.update id a' m').Keeps (elsewhere id parcels) := by
  obtain ⟨rest, hnumbered, hupdate⟩ := exists_others ha
  have hmemory := h.memory
  have hslots := h.slots
  unfold World.regions at hmemory
  unfold World.slots at hslots
  rw [hnumbered, Multiset.cons_bind] at hmemory hslots
  rw [Multiset.add_assoc] at hmemory
  refine (Allocator.reset_spec hmemory settings).mono ?_
  rintro a' m' ⟨hnew, hkeeps⟩
  have hbare : a'.Bare := hnew ▸ Allocator.bare_ofSettings settings a.nested
  refine ⟨hnew, fun {j b} hb => ?_, ?_, ?_, fun x hx => h.accepted x (Multiset.mem_filter.1 hx).1⟩
  · rw [allocator?_update ha] at hb
    split at hb
    · rw [← Option.some.inj hb]
      exact hbare.ok
    · exact h.ok hb
  · rw [World.regions, hupdate a' m', Multiset.cons_bind, hbare.regions, Multiset.zero_add,
      elsewhere_regions]
    exact hkeeps
  · -- the slots of the others are those that have another number
    rw [World.slots, hupdate a' m', Multiset.cons_bind, hbare.slots, elsewhere_slots, ← hslots,
      Multiset.filter_add]
    have hown : (a.slots.map (Prod.mk id)).filter (fun e => e.1 ≠ id) = 0 := by
      refine Multiset.filter_eq_nil.2 fun e he => ?_
      obtain ⟨x, -, rfl⟩ := Multiset.mem_map.1 he
      exact fun hne => hne rfl
    have hothers : (rest.bind fun e => e.1.slots.map (Prod.mk e.2)).filter (fun e => e.1 ≠ id) =
        rest.bind fun e => e.1.slots.map (Prod.mk e.2) := by
      refine Multiset.filter_eq_self.2 fun e he => ?_
      obtain ⟨e', he', he⟩ := Multiset.mem_bind.1 he
      obtain ⟨x, -, rfl⟩ := Multiset.mem_map.1 he
      exact ne_of_numbered hnumbered e' he'
    rw [hown, hothers, Multiset.map_zero]

end System

end BlockPool.World
