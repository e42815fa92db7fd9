import BlockPool.Proofs.Allocator.Apart
import BlockPool.Proofs.World.Steady

/-!
# Calls and leases

A return that is a call names the request it is for by number, so that calls mean the same in runs
with different addresses. The ledger of a run has what each request was served, until it is
returned.

A run in which the group of every request can serve it keeps the slots of every group those of the
outstanding leases (`Serving.call`), and a call does to the group of an affinity only what
`Call.Acts` says.
-/

namespace BlockPool.World

variable {σ : Type}

/-! ## Calls -/

/-- A call to an allocator. A return is for the request of some `number` for its affinity. -/
inductive Call where
  | allocate (affinity : Affinity) (size : Nat)
  | deallocate (affinity : Affinity) (number : Nat)
  | compact
  | setBlockSize (affinity : Affinity) (blockSize : Nat)
  | configureGroup (group : GroupSettings)
  | setTracking (tracking : Tracking)
  | addStrategy (strategy : Strategy)
deriving DecidableEq

/-- What a request was served: an address, for the size that was asked for. -/
structure Lease where
  address : Nat
  size : Nat
deriving DecidableEq

/-- The slot of a lease, as `Tracker.slotSize` has it. -/
def Lease.slot (x : Lease) : Extent := ⟨x.address, Tracker.slotSize x.size⟩

/-- The leases of the requests for each affinity, with `none` in the place of what was returned. -/
def Ledger := Affinity → List (Option Lease)

namespace Ledger

/-- What the request of some number was served, if it is outstanding. -/
def lease? (ledger : Ledger) (affinity : Affinity) (number : Nat) : Option Lease :=
  ((ledger affinity)[number]?).join

/-- Replaces what is known of the requests for an affinity. -/
def set (ledger : Ledger) (affinity : Affinity) (leases : List (Option Lease)) : Ledger :=
  fun other => if other = affinity then leases else ledger other

/-- The ledger after a call with its answer: with a further lease, or without the one returned. -/
def after (ledger : Ledger) : Call → Answer → Ledger
  | .allocate affinity size, .served (.ok address) =>
    ledger.set affinity (ledger affinity ++ [some ⟨address, size⟩])
  | .deallocate affinity number, _ => ledger.set affinity ((ledger affinity).set number none)
  | _, _ => ledger

end Ledger

namespace Call

/-- The `Step` that a call is, if it is not for something that was returned. -/
def step? (id : Nat) (ledger : Ledger) : Call → Option Step
  | allocate affinity size => some (.allocate id .full size affinity)
  | deallocate affinity number =>
    (ledger.lease? affinity number).map fun x => .deallocate id .full x.address x.size
  | compact => some (.compact id)
  | setBlockSize affinity blockSize => some (.setBlockSize id affinity blockSize)
  | configureGroup group => some (.configureGroup id group)
  | setTracking tracking => some (.setTracking id tracking)
  | addStrategy strategy => some (.addStrategy id strategy)

/-- Whether a call is for an affinity or for all of them. -/
def Concerns (affinity : Affinity) : Call → Prop
  | allocate other _ | deallocate other _ | setBlockSize other _ => affinity = other
  | configureGroup group => affinity = group.affinity
  | compact => True
  | setTracking _ | addStrategy _ => False

end Call

/-- A request that `allocatePooled` serves, from a block that is there or from a new one. -/
def Grows [System σ] (w : World σ) (id : Nat) : Call → Prop
  | .allocate affinity size => ∃ a address, w.allocator? id = some a ∧
      (a.allocatePooled size affinity w.memory).1.1 = .ok address
  | _ => True

/-- A call is made as its `step?` and answered; a request is one that `Grows`. -/
structure Happens [System σ] (id : Nat) (w : World σ) (ledger : Ledger) (c : Call)
    (answer : Answer) (w' : World σ) : Prop where
  step : ∃ s, c.step? id ledger = some s ∧ World.step s w = (answer, w')
  grows : w.Grows id c

/-! ## Leases -/

/-- The slots of the leases that are still there. -/
def leased (leases : List (Option Lease)) : Multiset Extent :=
  (leases.filterMap fun x => x.map Lease.slot : List Extent)

/-- A further lease adds its slot to `leased`. -/
lemma leased_append (leases : List (Option Lease)) (x : Lease) :
    leased (leases ++ [some x]) = x.slot ::ₘ leased leases := by
  unfold leased
  rw [List.filterMap_append]
  exact Multiset.coe_eq_coe.2 (List.perm_append_singleton ..)

/-- A lease that is returned takes its slot out of `leased`. -/
lemma leased_set {leases : List (Option Lease)} {number : Nat} {x : Lease}
    (h : leases[number]? = some (some x)) :
    leased leases = x.slot ::ₘ leased (leases.set number none) := by
  induction leases generalizing number with
  | nil => exact absurd h (by simp)
  | cons y rest ih =>
    have hcons : ∀ l : List (Option Lease),
        leased (y :: l) = ((y.map Lease.slot).toList : Multiset Extent) + leased l := by
      intro l
      cases y <;> rfl
    cases number with
    | zero =>
      obtain rfl : y = some x := by simpa using h
      rfl
    | succ number =>
      rw [hcons, ih (by simpa using h), List.set_cons_succ, hcons, Multiset.add_cons]

/-- What `lease?` finds is an entry of the ledger. -/
lemma lease?_eq_some_iff {ledger : Ledger} {affinity : Affinity} {number : Nat} {x : Lease} :
    ledger.lease? affinity number = some x ↔ (ledger affinity)[number]? = some (some x) := by
  unfold Ledger.lease?
  exact Option.join_eq_some_iff

lemma Ledger.set_self (ledger : Ledger) (affinity : Affinity) (leases : List (Option Lease)) :
    ledger.set affinity leases affinity = leases := if_pos rfl

lemma Ledger.set_of_ne (ledger : Ledger) {affinity other : Affinity} (h : other ≠ affinity)
    (leases : List (Option Lease)) : ledger.set affinity leases other = ledger other := if_neg h

/-- A request that is served appends a lease to its affinity. -/
lemma Ledger.after_allocate (ledger : Ledger) (affinity : Affinity) (size address : Nat) :
    ledger.after (.allocate affinity size) (.served (.ok address)) affinity =
      ledger affinity ++ [some ⟨address, size⟩] :=
  ledger.set_self affinity _

/-- A return empties the place of its lease. -/
lemma Ledger.after_deallocate (ledger : Ledger) (affinity : Affinity) (number : Nat)
    (answer : Answer) : ledger.after (.deallocate affinity number) answer affinity =
      (ledger affinity).set number none :=
  ledger.set_self affinity _

/-! ## One run -/

section Run

variable {w w' : World σ} {id : Nat} {a a' : Allocator} {held : Multiset Region}
  {ledger : Ledger} {affinity : Affinity}

/-- An allocator that `Stands` in a run: the slots of each `groupFor` are those `leased`. -/
structure Serving (id : Nat) (held : Multiset Region) (w : World σ) (ledger : Ledger)
    (a : Allocator) : Prop where
  there : w.allocator? id = some a
  stands : a.Stands held w.memory
  slots (affinity : Affinity) : leased (ledger affinity) = (a.groupFor affinity).slots

/-- What a call with its answer does to the group of an affinity. Calls that do not concern it may
change the switches. -/
inductive Call.Acts (affinity : Affinity) (ledger : Ledger) (defaultAlignment : Nat) (g : Group) :
    Call → Answer → Group → Prop where
  | allocate {size address : Nat} {g' : Group} (h : g.Yields size address g') :
      Acts affinity ledger defaultAlignment g (.allocate affinity size) (.served (.ok address)) g'
  | deallocate {number : Nat} {x : Lease} (h : (ledger affinity)[number]? = some (some x)) :
      Acts affinity ledger defaultAlignment g (.deallocate affinity number) (.claimed true)
        (g.deallocate x.address x.size).state
  | compact (bytes : Nat) :
      Acts affinity ledger defaultAlignment g .compact (.freed bytes) g.withoutEmpty
  | setBlockSize (blockSize : Nat) :
      Acts affinity ledger defaultAlignment g (.setBlockSize affinity blockSize) .done
        (g.setBlockSize blockSize)
  | configureGroup (s : GroupSettings) (h : affinity = s.affinity) :
      Acts affinity ledger defaultAlignment g (.configureGroup s) .done
        (g.configure s.name s.blockSize (s.alignment.getD defaultAlignment))
  | other {c : Call} {answer : Answer} {g' : Group} (hc : ¬ c.Concerns affinity)
      (h : g' = g ∨ ∃ tracking, g' = g.setTracking tracking) :
      Acts affinity ledger defaultAlignment g c answer g'

/-- A call that concerns one affinity, and leaves an allocator that `DiffersIn` it only, `Acts` on
every affinity. -/
lemma acts_of_differsIn {c : Call} {answer : Answer} {defaultAlignment : Nat}
    (hc : ∀ other, c.Concerns other → other = affinity) (hdiffers : a.DiffersIn affinity a')
    (hself : c.Acts affinity ledger defaultAlignment (a.groupFor affinity) answer
      (a'.groupFor affinity)) (other : Affinity) :
    c.Acts other ledger defaultAlignment (a.groupFor other) answer (a'.groupFor other) := by
  by_cases heq : other = affinity
  · rwa [heq]
  · exact .other (fun hconcerns => heq (hc other hconcerns)) (.inl (hdiffers.others heq))

variable [System σ]

/-- A request that `allocatePooled` can serve is served by it. -/
lemma ends_allocate_pooled {chain : Chain} {size : Nat} (ha : w.allocator? id = some a)
    (post : Nat → World σ → Prop)
    (hpool : Ends (a.allocatePooled size affinity) w.memory fun out m' =>
      ∃ address, out.1 = .ok address ∧ post address (w.update id out.2 m')) :
    Ends (step (.allocate id chain size affinity)) w fun answer w' =>
      ∃ address, answer = .served (.ok address) ∧ post address w' := by
  refine Ends.map (ends_allocate_there ha ?_)
  unfold allocateWith
  refine (ends_onPool (fun answer w' => ∃ address, answer = .ok address ∧ post address w')
    hpool).bind ?_
  rintro ⟨answer, a'⟩ w₁ hset
  refine hset.bind fun _ w₂ h₂ => ?_
  obtain ⟨address, hanswer, hpost⟩ := h₂
  obtain rfl : answer = .ok address := hanswer
  exact ⟨address, rfl, hpost⟩

/-- A return that `deallocatePooled` takes goes no further. -/
lemma ends_deallocate_pooled {chain : Chain} {address size : Nat}
    (ha : w.allocator? id = some a) (post : World σ → Prop)
    (hpool : Ends (a.deallocatePooled address size) w.memory fun out m' =>
      out.1 = true ∧ post (w.update id out.2 m')) :
    Ends (step (.deallocate id chain address size)) w fun answer w' =>
      answer = .claimed true ∧ post w' := by
  refine Ends.map (ends_deallocate_there ha ?_)
  unfold deallocateWith
  refine (ends_onPool (fun known w' => known = true ∧ post w') hpool).bind ?_
  rintro ⟨known, a'⟩ w₁ hset
  refine hset.bind fun _ w₂ h₂ => ?_
  obtain ⟨hknown, hpost⟩ := h₂
  obtain rfl : known = true := hknown
  exact ⟨rfl, hpost⟩

/-- What a call with its answer ends with: an allocator that is `Serving`, in which it `Acts` on
every group. -/
def Answered (id : Nat) (held : Multiset Region) (ledger : Ledger) (a : Allocator) (c : Call)
    (answer : Answer) (w' : World σ) : Prop :=
  ∃ a', Serving id held w' (ledger.after c answer) a' ∧
    a'.defaultAlignment = a.defaultAlignment ∧ ∀ affinity,
      c.Acts affinity ledger a.defaultAlignment (a.groupFor affinity) answer
        (a'.groupFor affinity)

omit [System σ] in
/-- `Serving` survives `update` with an allocator whose slots are those of the leases. -/
lemma Serving.update (h : Serving id held w ledger a) {m' : Memory σ} {after : Ledger}
    (hstands : a'.Stands held m')
    (hslots : ∀ affinity, leased (after affinity) = (a'.groupFor affinity).slots) :
    Serving id held (w.update id a' m') after a' := by
  refine ⟨?_, hstands, hslots⟩
  rw [allocator?_update h.there, if_pos rfl]

omit [System σ] in
/-- `Serving` survives a call for one affinity that `DiffersIn` it only. -/
lemma Serving.change (h : Serving id held w ledger a) {m' : Memory σ}
    (hstands : a'.Stands held m') (hdiffers : a.DiffersIn affinity a')
    {leases : List (Option Lease)} (hleases : leased leases = (a'.groupFor affinity).slots) :
    Serving id held (w.update id a' m') (ledger.set affinity leases) a' := by
  refine h.update hstands fun other => ?_
  by_cases heq : other = affinity
  · rw [heq, ledger.set_self, hleases]
  · rw [ledger.set_of_ne heq, h.slots, hdiffers.others heq]

/-- A request that its group serves is `Answered`. -/
lemma Serving.allocate [LawfulSystem σ] (h : Serving id held w ledger a) {size : Nat}
    (hgrows : ∃ address, (a.allocatePooled size affinity w.memory).1.1 = .ok address) :
    Ends (step (.allocate id .full size affinity)) w fun answer w' =>
      Answered id held ledger a (.allocate affinity size) answer w' := by
  obtain ⟨address, hgrows⟩ := hgrows
  have hanswer : Ends (a.allocatePooled size affinity) w.memory fun out _ =>
      out.1 = .ok address := hgrows
  refine (ends_allocate_pooled h.there (fun address w' => Answered id held ledger a
    (.allocate affinity size) (.served (.ok address)) w') ?_).mono ?_
  · refine ((h.stands.allocatePooled size affinity).and hanswer).mono ?_
    rintro ⟨_, a'⟩ m' ⟨⟨hstands, hdiffers, hslots, hyields⟩, rfl⟩
    refine ⟨address, rfl, a', h.change hstands hdiffers ?_, hdiffers.defaultAlignment, ?_⟩
    · rw [leased_append, h.slots, hslots]
      rfl
    · refine acts_of_differsIn (fun _ hother => hother) hdiffers ?_
      exact .allocate (hyields address rfl)
  · rintro answer w' ⟨address, rfl, hanswered⟩
    exact hanswered

/-- A return of a lease is `Answered`. -/
lemma Serving.deallocate (h : Serving id held w ledger a) {number : Nat} {x : Lease}
    (hx : (ledger affinity)[number]? = some (some x)) :
    Ends (step (.deallocate id .full x.address x.size)) w fun answer w' =>
      Answered id held ledger a (.deallocate affinity number) answer w' := by
  have hleased := leased_set hx
  have hslot : x.slot ∈ (a.groupFor affinity).slots := by
    rw [← h.slots, hleased]
    exact Multiset.mem_cons_self ..
  refine (ends_deallocate_pooled h.there (fun w' => Answered id held ledger a
    (.deallocate affinity number) (.claimed true) w') ?_).mono ?_
  · refine (h.stands.deallocatePooled hslot).mono ?_
    rintro ⟨known, a'⟩ m' ⟨hknown, hstands, hdiffers, hgroup, hslots⟩
    refine ⟨hknown, a', h.change hstands hdiffers ?_, hdiffers.defaultAlignment, ?_⟩
    · rw [hslots, ← h.slots, hleased]
      exact (Multiset.erase_cons_head ..).symm
    · refine acts_of_differsIn (fun _ hother => hother) hdiffers ?_
      rw [hgroup]
      exact .deallocate hx
  · rintro answer w' ⟨rfl, hanswered⟩
    exact hanswered

/-- `compact` is `Answered`, and keeps all leases. -/
lemma Serving.compact (h : Serving id held w ledger a) :
    Ends (step (.compact id)) w fun answer w' =>
      Answered id held ledger a .compact answer w' := by
  refine Ends.map (ends_onAllocator_there h.there ?_)
  refine h.stands.compact.mono ?_
  rintro ⟨bytes, a'⟩ m' ⟨hstands, hdefault, hgroup⟩
  refine ⟨a', h.update hstands fun affinity => ?_, hdefault, fun affinity => ?_⟩
  · rw [hgroup, (Group.withoutEmpty_spec (h.stands.tidy affinity).ok).2.2]
    exact h.slots affinity
  · rw [hgroup]
    exact .compact bytes

omit [System σ] in
/-- A `World.change` that keeps the slots of every affinity is `Answered`. -/
lemma Serving.changed (h : Serving id held w ledger a) {c : Call}
    {action : Allocator → MemoryM σ Allocator} (hledger : ledger.after c .done = ledger)
    (haction : Ends (action a) w.memory fun a' m' => a'.Stands held m' ∧
      a'.defaultAlignment = a.defaultAlignment ∧ ∀ affinity,
        (a'.groupFor affinity).slots = (a.groupFor affinity).slots ∧
          c.Acts affinity ledger a.defaultAlignment (a.groupFor affinity) .done
            (a'.groupFor affinity)) :
    Ends (World.change id action) w fun answer w' => Answered id held ledger a c answer w' := by
  have hon : Ends (onAllocator id fun a => do
      let a ← action a
      pure ((), a)) w fun result w' => Answered id held ledger a c
        (answerWith (fun _ => .done) result) w' := by
    refine ends_onAllocator_there h.there ?_
    refine haction.bind fun a' m' ⟨hstands, hdefault, hgroup⟩ => ?_
    have hslots : ∀ affinity, leased (ledger affinity) = (a'.groupFor affinity).slots :=
      fun affinity => (h.slots affinity).trans (hgroup affinity).1.symm
    have hafter : Serving id held (w.update id a' m') (ledger.after c .done) a' :=
      hledger.symm ▸ h.update hstands hslots
    exact ⟨a', hafter, hdefault, fun affinity => (hgroup affinity).2⟩
  exact hon.bind fun _ _ hanswered => hanswered

omit [System σ] in
/-- A `World.change` of the settings of one group is `Answered`. -/
lemma Serving.configured (h : Serving id held w ledger a) (c : Call)
    {action : Allocator → MemoryM σ Allocator} (hledger : ledger.after c .done = ledger)
    (hc : ∀ other, c.Concerns other → other = affinity) {g : Group}
    (hacts : c.Acts affinity ledger a.defaultAlignment (a.groupFor affinity) .done g)
    (haction : Ends (action a) w.memory fun a' m' =>
      a'.Stands held m' ∧ a.DiffersIn affinity a' ∧ a'.groupFor affinity = g)
    (hblocks : g.blocks = (a.groupFor affinity).blocks) :
    Ends (World.change id action) w fun answer w' => Answered id held ledger a c answer w' := by
  refine h.changed hledger (haction.mono ?_)
  rintro a' m' ⟨hstands, hdiffers, rfl⟩
  refine ⟨hstands, hdiffers.defaultAlignment, fun other =>
    ⟨?_, acts_of_differsIn hc hdiffers hacts other⟩⟩
  by_cases heq : other = affinity
  · rw [heq]
    unfold Group.slots
    rw [hblocks]
  · rw [hdiffers.others heq]

/-- Whatever call `Happens` is `Answered`: the allocator is `Serving` on, and the call `Acts` on the
group of each affinity. -/
lemma Serving.call [LawfulSystem σ] (h : Serving id held w ledger a) {c : Call} {answer : Answer}
    (hcall : Happens id w ledger c answer w') : Answered id held ledger a c answer w' := by
  obtain ⟨⟨s, hs, hstep⟩, hgrows⟩ := hcall
  cases c with
  | allocate affinity size =>
    obtain rfl : Step.allocate id .full size affinity = s := Option.some.inj hs
    obtain ⟨b, address, hb, hgrows⟩ := hgrows
    obtain rfl : b = a := Option.some.inj (hb.symm.trans h.there)
    exact (h.allocate ⟨address, hgrows⟩).apply hstep
  | deallocate affinity number =>
    obtain ⟨x, hx, rfl⟩ := Option.map_eq_some_iff.1 hs
    exact (h.deallocate (lease?_eq_some_iff.1 hx)).apply hstep
  | compact =>
    obtain rfl : Step.compact id = s := Option.some.inj hs
    exact h.compact.apply hstep
  | setBlockSize affinity blockSize =>
    obtain rfl : Step.setBlockSize id affinity blockSize = s := Option.some.inj hs
    exact (h.configured (.setBlockSize affinity blockSize) rfl (fun _ hother => hother)
      (.setBlockSize blockSize) (h.stands.setBlockSize affinity blockSize) rfl).apply hstep
  | configureGroup group =>
    obtain rfl : Step.configureGroup id group = s := Option.some.inj hs
    exact (h.configured (.configureGroup group) rfl (fun _ hother => hother)
      (.configureGroup group rfl) (h.stands.configureGroup group) rfl).apply hstep
  | setTracking tracking =>
    obtain rfl : Step.setTracking id tracking = s := Option.some.inj hs
    refine Ends.apply (h.changed rfl ?_) hstep
    refine ⟨h.stands.setTracking tracking, rfl, fun affinity => ?_⟩
    have hgroup := a.groupFor_setTracking tracking affinity
    refine ⟨?_, .other (fun hc => hc) (.inr ⟨tracking, hgroup⟩)⟩
    exact hgroup ▸ (Group.setTracking_spec (h.stands.tidy affinity).ok tracking).2.2
  | addStrategy strategy =>
    obtain rfl : Step.addStrategy id strategy = s := Option.some.inj hs
    refine Ends.apply (h.changed rfl ?_) hstep
    exact ⟨h.stands.addStrategy strategy, rfl, fun affinity =>
      ⟨rfl, .other (fun hc => hc) (.inl rfl)⟩⟩

omit [System σ] in
/-- An allocator that was just made is `Serving` nobody. -/
lemma serving_start {s : Settings} {nested : List Strategy}
    (hthere : w.allocator? id = some (.ofSettings s nested)) (hkeeps : w.memory.Keeps held) :
    Serving id held w (fun _ => []) (.ofSettings s nested) := by
  refine ⟨hthere, Allocator.stands_ofSettings hkeeps s nested, fun affinity => ?_⟩
  unfold Group.slots
  rw [(Allocator.groupFor_ofSettings s nested affinity).1]
  rfl

end Run

/-! ## Calls for other affinities -/

/-- A call that does not concern an affinity leaves its leases as they are. -/
lemma after_of_not_concerns {c : Call} {affinity : Affinity} (hc : ¬ c.Concerns affinity)
    (ledger : Ledger) (answer : Answer) : ledger.after c answer affinity = ledger affinity := by
  unfold Ledger.after
  split
  · exact ledger.set_of_ne hc _
  · exact ledger.set_of_ne hc _
  · rfl

/-- A call that does not concern an affinity leaves its group as it is, but for the switches. -/
lemma Call.Acts.of_not_concerns {affinity : Affinity} {ledger : Ledger} {n : Nat} {c : Call}
    {answer : Answer} {g after : Group} (h : c.Acts affinity ledger n g answer after)
    (hc : ¬ c.Concerns affinity) :
    after = g ∨ ∃ tracking, after = g.setTracking tracking := by
  cases h with
  | other _ hgroup => exact hgroup
  | allocate _ => exact absurd rfl hc
  | deallocate _ => exact absurd rfl hc
  | compact _ => exact absurd trivial hc
  | setBlockSize _ => exact absurd rfl hc
  | configureGroup _ hs => exact absurd hs hc

end BlockPool.World
