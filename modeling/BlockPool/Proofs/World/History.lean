import BlockPool.Memory.Arena
import BlockPool.Proofs.Totals
import BlockPool.Proofs.World.Tuning

/-!
# Histories of a world

A history is a run of actions by users who keep to the rules: an address goes back once, with the
size it was requested with, to the allocator that it was requested from; only allocators are nested
in allocators; and an allocator starts anew only when nobody holds memory that it served.

Main statement: the allocations outstanding at any point of a history never overlap and lie in live
regions.
-/

namespace BlockPool

/-- An allocation: what was asked for, of whom, and the address that was answered. -/
structure Grant where
  allocator : Nat
  chain : Chain
  address : Nat
  size : Nat
deriving DecidableEq

/-- The addresses of an allocation: at least one, even if nothing was asked for. -/
def Grant.extent (g : Grant) : Extent := ⟨g.address, max g.size 1⟩

namespace World

variable {σ : Type}

/-! ## Histories -/

/-- Whether an allocator `owns` an address. -/
def InPool (w : World σ) (id address : Nat) : Prop :=
  (w.allocator? id).any (·.owns address) = true

instance (w : World σ) (id address : Nat) : Decidable (w.InPool id address) :=
  inferInstanceAs (Decidable (_ = true))

/-- Whether an allocation was served by an allocator itself: it is `InPool` there, or it is from the
heap at the end of the chain, whose memory is in no pool. -/
def ServedBy (w : World σ) (g : Grant) (id : Nat) : Prop :=
  w.InPool id g.address ∨
    g.allocator = id ∧ ∀ j < w.allocators.length, ¬ w.InPool j g.address

instance (w : World σ) (g : Grant) (id : Nat) : Decidable (w.ServedBy g id) :=
  inferInstanceAs (Decidable (_ ∨ _))

/-- The allocations outstanding after a step with its answer: with a request that was served, and
without what was returned. -/
def outstanding (ledger : List Grant) : Step → Answer → List Grant
  | .allocate id chain size _, .served (.ok address) => ⟨id, chain, address, size⟩ :: ledger
  | .deallocate id chain address size, _ => ledger.erase ⟨id, chain, address, size⟩
  | _, _ => ledger

/-- The allocations outstanding after a request with its answer. -/
def granted (ledger : List Grant) (id : Nat) (chain : Chain) (size : Nat) :
    Option (Except AllocationError Nat) → List Grant
  | some (.ok address) => ⟨id, chain, address, size⟩ :: ledger
  | _ => ledger

/-- Whether the rules permit a step while the allocations on a ledger are outstanding. -/
def Permitted (w : World σ) (ledger : List Grant) : Step → Prop
  | .allocate .. | .compact _ | .setBlockSize .. | .configureGroup .. | .setTracking .. => True
  | .deallocate id chain address size => ⟨id, chain, address, size⟩ ∈ ledger
  | .addStrategy _ (.allocator ..) => True
  | .reset id _ => ∀ g ∈ ledger, ¬ w.ServedBy g id
  | _ => False

instance (w : World σ) (ledger : List Grant) : DecidablePred (w.Permitted ledger)
  | .allocate .. | .compact _ | .setBlockSize .. | .configureGroup .. | .setTracking ..
  | .addStrategy _ (.allocator ..) => inferInstanceAs (Decidable True)
  | .deallocate .. => inferInstanceAs (Decidable (_ ∈ _))
  | .reset .. => inferInstanceAs (Decidable (∀ _ ∈ _, _))
  | .addStrategy _ (.heap _) | .addStrategy _ (.foreign ..) | .newBoxed .. | .replaceBoxed ..
  | .dropBoxed _ | .unbox _ => inferInstanceAs (Decidable False)

/-- An allocator that `ofSettings` made, nested in which there are only allocators. -/
def IsNew (a : Allocator) : Prop :=
  ∃ settings nested, a = .ofSettings settings nested ∧ ∀ s ∈ nested, s.IsAllocator

/-- The worlds that come of new allocators through steps that are `Permitted`, each with the
allocations that are `outstanding` in it. -/
inductive History [System σ] : World σ → List Grant → Prop where
  | start (system : σ) {allocators : List Allocator} (hnew : ∀ a ∈ allocators, IsNew a) :
      History { memory := { system }, allocators } []
  | step {w w' : World σ} {ledger : List Grant} (s : Step) {answer : Answer}
      (h : History w ledger) (hs : w.Permitted ledger s) (hstep : World.step s w = (answer, w')) :
      History w' (outstanding ledger s answer)

end World

namespace World

variable {σ : Type} {w w' : World σ} {ledger : List Grant}

/-! ## The account of a history -/

/-- A `Grant` as a piece of memory in use, from its home. -/
def parcelOf (e : Grant × Home) : Parcel := ⟨e.2, e.1.address, e.1.size⟩

/-- Every allocation has a home that its allocator `Reaches`, and the world `Keeps` just the parcels
of them all. -/
structure Accounts (w : World σ) (ledger : List Grant) (homes : Multiset (Grant × Home)) :
    Prop where
  ledger_eq : homes.map Prod.fst = (ledger : Multiset Grant)
  keeps : w.Keeps (homes.map parcelOf)
  closed : w.plan.Closed
  reaches : ∀ e ∈ homes, w.plan.Reaches e.1.allocator e.1.chain e.2

section Steps

variable {homes : Multiset (Grant × Home)}

/-- The extents of the parcels are those of the ledger. -/
lemma Accounts.extents_eq (h : w.Accounts ledger homes) :
    (homes.map parcelOf).map Parcel.extent =
      ((ledger.map Grant.extent : List Extent) : Multiset Extent) := by
  rw [Multiset.map_map, ← Multiset.map_coe, ← h.ledger_eq, Multiset.map_map]
  rfl

/-- `Accounts` survives an action that `Keeps` all parcels and the plan. -/
lemma Accounts.of_keeps (h : w.Accounts ledger homes) (hplan : w'.plan = w.plan)
    (hkeeps : w'.Keeps (homes.map parcelOf)) : w'.Accounts ledger homes :=
  ⟨h.ledger_eq, hkeeps, hplan ▸ h.closed, hplan ▸ h.reaches⟩

/-- `Accounts` survives a request that `Gains` a parcel if it is served, with the ledger as
`granted`. -/
lemma Accounts.gains (h : w.Accounts ledger homes) {id : Nat} {chain : Chain} {size : Nat}
    {answer : Option (Except AllocationError Nat)}
    (hgains : w.Gains (homes.map parcelOf) size (w.plan.Reaches id chain)
      (answer.bind Except.toOption) w') :
    ∃ homes', w'.Accounts (granted ledger id chain size answer) homes' := by
  obtain ⟨hplan, hanswer⟩ := hgains
  rcases answer with _ | _ | address
  · exact ⟨homes, h.of_keeps hplan hanswer⟩
  · exact ⟨homes, h.of_keeps hplan hanswer⟩
  · obtain ⟨home, hreach, hkeeps⟩ := hanswer
    refine ⟨(⟨id, chain, address, size⟩, home) ::ₘ homes, ?_, ?_, hplan ▸ h.closed, ?_⟩
    · rw [Multiset.map_cons, h.ledger_eq]
      rfl
    · rwa [Multiset.map_cons]
    · intro e he
      rw [hplan]
      rcases Multiset.mem_cons.1 he with rfl | he
      · exact hreach
      · exact h.reaches e he

/-- Any two grants of a ledger that `Accounts` for its memory are apart. -/
lemma Accounts.apart (h : w.Accounts ledger homes) :
    ledger.Pairwise fun g g' => g.extent.Apart g'.extent := by
  have happart := h.keeps.extents_apart
  rw [h.extents_eq, allApart_coe_iff] at happart
  exact List.pairwise_map.1 happart

/-- Each grant of a ledger that `Accounts` for its memory lies in a live region. -/
lemma Accounts.within_live (h : w.Accounts ledger homes) :
    ∀ g ∈ ledger, ∃ r ∈ w.memory.live, g.extent.Within r := by
  intro g hg
  have hmem : g ∈ homes.map Prod.fst := by
    rw [h.ledger_eq]
    exact hg
  obtain ⟨e, he, rfl⟩ := Multiset.mem_map.1 hmem
  exact h.keeps.within_live (Multiset.mem_map_of_mem parcelOf he)

/-- With `Accounts` of all memory in use, the totals of every allocator are words: `total` and
`Word.sum` say the same. -/
theorem Accounts.sumsExact (h : w.Accounts ledger homes) {id : Nat} {a : Allocator}
    (ha : w.allocator? id = some a) : a.SumsExact := by
  obtain ⟨held, -, hmemory, -, -⟩ := h.keeps.focus ha
  exact (h.keeps.ok ha).sumsExact hmemory

/-- `addStrategy` leaves all homes in reach that were. -/
lemma Accounts.addStrategy (h : w.Accounts ledger homes) (id nested : Nat) (owned : Bool) :
    Ends (change id fun a => pure (a.addStrategy (.allocator nested owned))) w fun _ w' =>
      w'.Accounts ledger homes := by
  refine ends_change (fun _ => h) fun a ha => ?_
  have hclosed : (w.update id (a.addStrategy (.allocator nested owned)) w.memory).plan.Closed := by
    refine closed_update h.closed ha (fun s hs => ?_) w.memory
    rcases List.mem_append.1 hs with hs | hs
    · exact .inl hs
    · exact .inr ⟨nested, owned, List.mem_singleton.1 hs⟩
  refine ⟨h.ledger_eq, h.keeps.addStrategy ha _, hclosed, fun e he => ?_⟩
  have hreach := h.reaches e he
  rcases hhome : e.2 with k | heap
  · rw [hhome] at hreach
    refine Plan.Extends.reaches_pool (extends_update ha (fun s hs => ?_) w.memory) hreach
    exact List.mem_append_left _ hs
  · rw [hhome, Plan.reaches_heap_iff h.closed] at hreach
    refine (Plan.reaches_heap_iff hclosed).2 ⟨hreach.1, ?_⟩
    obtain ⟨x, hx, hheap⟩ := hreach.2
    obtain ⟨b, hb, rfl⟩ := exists_allocator_of_plan hx
    by_cases heq : e.1.allocator = id
    · rw [heq, ha] at hb
      obtain rfl := Option.some.inj hb
      refine ⟨(a.addStrategy (.allocator nested owned)).wiring, plan_getElem? ?_, hheap⟩
      rw [allocator?_update ha, if_pos heq]
    · refine ⟨b.wiring, plan_getElem? ?_, hheap⟩
      rw [allocator?_update ha, if_neg heq, hb]

section System

variable [System σ]

/-- `reset` keeps the account if nothing in the ledger was `ServedBy` the allocator: all parcels are
still there, and its heap has nothing to take back. -/
lemma Accounts.reset (h : w.Accounts ledger homes) {id : Nat} (settings : Settings)
    (hfree : ∀ g ∈ ledger, ¬ w.ServedBy g id) :
    Ends (change id fun a => a.reset settings) w fun _ w' => w'.Accounts ledger homes := by
  refine ends_change (fun _ => h) fun a ha => ?_
  have hnot : ∀ e ∈ homes, ¬ w.ServedBy e.1 id := by
    intro e he
    have hmem : e.1 ∈ (ledger : Multiset Grant) := h.ledger_eq ▸ Multiset.mem_map_of_mem _ he
    exact hfree e.1 hmem
  -- a parcel of the pool would be an allocation that the allocator served
  have hstay : elsewhere id (homes.map parcelOf) = homes.map parcelOf := by
    refine Multiset.filter_eq_self.2 fun y hy hhome => ?_
    obtain ⟨e, he, rfl⟩ := Multiset.mem_map.1 hy
    refine hnot e he (.inl ?_)
    unfold InPool
    rw [ha]
    exact h.keeps.owns_of_home hy ha hhome
  refine (h.keeps.reset ha settings).mono ?_
  rintro a' m' ⟨hnew, hkeeps⟩
  rw [hstay] at hkeeps
  have hnested : a'.nested = a.nested := hnew ▸ rfl
  have hclosed : (w.update id a' m').plan.Closed := by
    refine closed_update h.closed ha (fun s hs => .inl ?_) m'
    rwa [← hnested]
  refine ⟨h.ledger_eq, hkeeps, hclosed, fun e he => ?_⟩
  have hreach := h.reaches e he
  rcases hhome : e.2 with k | heap
  · rw [hhome] at hreach
    -- memory of other pools is still reached, since the nested strategies stay
    refine Plan.Extends.reaches_pool (extends_update ha (fun s hs => ?_) m') hreach
    rwa [hnested]
  · rw [hhome, Plan.reaches_heap_iff h.closed] at hreach
    refine (Plan.reaches_heap_iff hclosed).2 ⟨hreach.1, ?_⟩
    obtain ⟨x, hx, hheap⟩ := hreach.2
    obtain ⟨b, hb, rfl⟩ := exists_allocator_of_plan hx
    -- memory of its own heap is in no block, so it would be memory that it served
    have hother : e.1.allocator ≠ id := by
      refine fun heq => hnot e he (.inr ⟨heq, fun j _ hpool => ?_⟩)
      obtain ⟨c, hc, howns⟩ := (Option.any_eq_true _ _).1 hpool
      have hmem : parcelOf e ∈ homes.map parcelOf := Multiset.mem_map_of_mem _ he
      have hpool := h.keeps.home_of_owns hmem hc howns
      exact Home.noConfusion (hhome.symm.trans hpool)
    refine ⟨b.wiring, plan_getElem? ?_, hheap⟩
    rw [allocator?_update ha, if_neg hother, hb]

/-- A request keeps the account, with the ledger as `outstanding`. -/
lemma Accounts.allocate [LawfulSystem σ] (h : w.Accounts ledger homes) (id : Nat)
    (chain : Chain) (size : Nat) (affinity : Affinity) :
    Ends (World.step (.allocate id chain size affinity)) w fun answer w' => ∃ homes',
      w'.Accounts (outstanding ledger (.allocate id chain size affinity) answer) homes' := by
  refine Ends.map ((h.keeps.allocate h.closed id chain size affinity).mono ?_)
  intro answer w' hgains
  have hgained := h.gains hgains
  rcases answer with _ | _ | address <;> exact hgained

/-- A grant of the ledger can be returned, and is then no longer accounted for. -/
lemma Accounts.returns [LawfulSystem σ] (h : w.Accounts ledger homes) {g : Grant}
    (hg : g ∈ ledger) :
    Ends (World.deallocate g.allocator g.chain g.address g.size) w fun answer w' =>
      answer = some true ∧ ∃ homes', w'.Accounts (ledger.erase g) homes' := by
  have hmem : g ∈ homes.map Prod.fst := by
    rw [h.ledger_eq]
    exact hg
  -- the allocation has a home within reach, and there its parcel goes
  obtain ⟨e, he, rfl⟩ := Multiset.mem_map.1 hmem
  obtain ⟨rest, rfl⟩ := Multiset.exists_cons_of_mem he
  have hkeeps := h.keeps
  rw [Multiset.map_cons] at hkeeps
  refine (hkeeps.deallocate h.closed (h.reaches e he)).mono ?_
  rintro answer w' ⟨hanswer, hplan, hkeeps'⟩
  refine ⟨hanswer, rest, ?_, hkeeps', hplan ▸ h.closed, fun e' he' => ?_⟩
  · have hledger := h.ledger_eq
    rw [Multiset.map_cons] at hledger
    rw [← Multiset.coe_erase, ← hledger, Multiset.erase_cons_head]
  · rw [hplan]
    exact h.reaches e' (Multiset.mem_cons_of_mem he')

/-- A return keeps the account, with the ledger as `outstanding`. -/
lemma Accounts.deallocate [LawfulSystem σ] (h : w.Accounts ledger homes) {g : Grant}
    (hg : g ∈ ledger) :
    Ends (World.step (.deallocate g.allocator g.chain g.address g.size)) w fun answer w' =>
      ∃ homes', w'.Accounts
        (outstanding ledger (.deallocate g.allocator g.chain g.address g.size) answer) homes' :=
  Ends.map ((h.returns hg).mono fun _ _ h' => h'.2)

/-- `Accounts` is preserved by every step that is `Permitted`. -/
theorem Accounts.step [LawfulSystem σ] (h : w.Accounts ledger homes) {s : Step}
    (hs : w.Permitted ledger s) :
    Ends (World.step s) w fun answer w' =>
      ∃ homes', w'.Accounts (outstanding ledger s answer) homes' := by
  have hsame : ∀ {α : Type} (_ : α) (w' : World σ),
      w'.plan = w.plan ∧ w'.Keeps (homes.map parcelOf) → ∃ homes', w'.Accounts ledger homes' :=
    fun _ _ ⟨hplan, hkeeps⟩ => ⟨homes, h.of_keeps hplan hkeeps⟩
  cases s with
  | allocate id chain size affinity => exact h.allocate id chain size affinity
  | deallocate id chain address size => exact h.deallocate hs
  | compact id => exact Ends.map ((h.keeps.compact id).mono hsame)
  | setBlockSize id affinity blockSize =>
    exact (h.keeps.setBlockSize id affinity blockSize).mono hsame
  | configureGroup id group => exact (h.keeps.configureGroup id group).mono hsame
  | setTracking id tracking => exact (h.keeps.setTracking id tracking).mono hsame
  | addStrategy id strategy =>
    cases strategy with
    | allocator nested owned =>
      exact (h.addStrategy id nested owned).mono fun _ _ h' => ⟨homes, h'⟩
    | heap heap => exact False.elim hs
    | foreign nested name => exact False.elim hs
  | reset id settings => exact (h.reset settings hs).mono fun _ _ h' => ⟨homes, h'⟩
  | newBoxed id layout value affinity => exact False.elim hs
  | replaceBoxed index value => exact False.elim hs
  | dropBoxed index => exact False.elim hs
  | unbox index => exact False.elim hs

omit [System σ] in
/-- A world of new allocators `Accounts` for no memory. -/
lemma accounts_start (system : σ) {allocators : List Allocator}
    (hnew : ∀ a ∈ allocators, IsNew a) :
    ({ memory := { system }, allocators } : World σ).Accounts [] 0 := by
  have hbare : ∀ a ∈ allocators, a.Bare := by
    intro a ha
    obtain ⟨settings, nested, rfl, -⟩ := hnew a ha
    exact Allocator.bare_ofSettings settings nested
  refine ⟨rfl, ⟨fun ha => (hbare _ (List.mem_of_getElem? ha)).ok, ?_, slots_of_bare hbare, ?_⟩,
    ?_, ?_⟩
  · rw [regions_of_bare hbare]
    exact Memory.keeps_new system
  · exact fun x hx => absurd hx (Multiset.notMem_zero x)
  · intro x hx s hs
    obtain ⟨a, ha, rfl⟩ := List.mem_map.1 hx
    obtain ⟨settings, nested, rfl, hnested⟩ := hnew a ha
    exact hnested s hs
  · exact fun e he => absurd he (Multiset.notMem_zero e)

/-- Every world of a `History` has an account of its memory. -/
theorem History.accounts [LawfulSystem σ] (h : History w ledger) :
    ∃ homes, w.Accounts ledger homes := by
  induction h with
  | start system hnew => exact ⟨0, accounts_start system hnew⟩
  | step s _ hs hstep ih =>
    obtain ⟨homes, hhomes⟩ := ih
    exact (hhomes.step hs).apply hstep

/-- The totals of every allocator of a `History` are words, as `SumsExact` says. -/
theorem History.sumsExact [LawfulSystem σ] (h : History w ledger) {id : Nat} {a : Allocator}
    (ha : w.allocator? id = some a) : a.SumsExact := by
  obtain ⟨homes, hhomes⟩ := h.accounts
  exact hhomes.sumsExact ha

/-- Two allocators, the second nested in the first, over a system with little memory. -/
def cramped : World Arena where
  memory := { system := .new 256 .low }
  allocators :=
    [.ofSettings { defaultBlockSize := 200 } [.allocator 1 true],
      .ofSettings { defaultBlockSize := 32 } []]

lemma isNew_cramped : ∀ a ∈ cramped.allocators, IsNew a := by
  intro a ha
  rcases List.mem_cons.1 ha with rfl | ha
  · exact ⟨_, _, rfl, fun s hs => ⟨1, true, List.mem_singleton.1 hs⟩⟩
  · rw [List.mem_singleton.1 ha]
    exact ⟨_, _, rfl, fun s hs => absurd hs List.not_mem_nil⟩

/-- The world `cramped` is the start of a `History`. -/
lemma history_cramped : History cramped [] := .start _ isNew_cramped

/-! ## No overlap -/

/-- The allocations outstanding at any point of a `History` have no address in common, and each of
them lies in one live region. -/
theorem grants_apart [LawfulSystem σ] (h : History w ledger) :
    ledger.Pairwise (fun g g' => g.extent.Apart g'.extent) ∧
      ∀ g ∈ ledger, ∃ r ∈ w.memory.live, g.extent.Within r := by
  obtain ⟨homes, hhomes⟩ := h.accounts
  exact ⟨hhomes.apart, hhomes.within_live⟩

/-- Allocations from a new block, from a block that is there, from a nested allocator, and from the
heap at the end of the chain. -/
theorem grants_apart_four_sources : ∃ (w : World Arena) (ledger : List Grant),
    History w ledger ∧ ledger.map (·.address - Arena.base) = [240, 208, 16, 0] ∧
      ledger.Pairwise (fun g g' => g.extent.Apart g'.extent) := by
  have h₁ := history_cramped.step (.allocate 0 .full 16 .objects) trivial Prod.mk.eta.symm
  have h₂ := h₁.step (.allocate 0 .full 0 .objects) trivial Prod.mk.eta.symm
  have h₃ := h₂.step (.allocate 0 .full 30 .data) trivial Prod.mk.eta.symm
  have h₄ := h₃.step (.allocate 0 .full 16 .data) trivial Prod.mk.eta.symm
  exact ⟨_, _, h₄, by decide +kernel, (grants_apart h₄).1⟩

end System

end Steps

end World

end BlockPool
