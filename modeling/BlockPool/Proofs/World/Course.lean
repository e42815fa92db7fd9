import BlockPool.Proofs.World.History
import BlockPool.Proofs.World.Past

/-!
# Courses

A course is a run of any actions in which only outstanding allocations are returned, each with its
size. Unlike a history it has boxes, which are allocations that return themselves, and an allocator
may start anew at any time: what it handed out of its blocks is not outstanding then, and what its
heap handed out may go back through another heap, or nowhere.

So the log of a course need not add up. But nothing that is done depends on the log, and with
another past (`Stocked`) there is an account of all memory in use.
-/

namespace BlockPool.World

variable {σ : Type} {w w' : World σ} {ledger : List Grant}

/-- A box as a `Grant`. -/
def grantOf (b : Boxed) : Grant := ⟨b.allocator, .full, b.address, b.layout.size⟩

/-- The allocations `outstanding` after a step with its answer, be it on a box or not. What was
handed out of the blocks of an allocator is gone after its `reset`. -/
def remaining (w : World σ) (ledger : List Grant) : Step → Answer → List Grant
  | .newBoxed id layout _ _, .served (.ok address) => ⟨id, .full, address, layout.size⟩ :: ledger
  | .dropBoxed index, _ | .unbox index, _ =>
    (w.boxed? index).elim ledger fun b => ledger.erase (grantOf b)
  | .reset id _, _ => ledger.filter fun g => ¬ w.InPool id g.address
  | s, answer => outstanding ledger s answer

/-- Whether a step returns only what is on the ledger, and nests nothing but allocators. -/
def Orderly (w : World σ) (ledger : List Grant) : Step → Prop
  | .deallocate id chain address size => ⟨id, chain, address, size⟩ ∈ ledger
  | .dropBoxed index | .unbox index => ∀ b, w.boxed? index = some b → grantOf b ∈ ledger
  | .addStrategy _ s => s.IsAllocator
  | _ => True

/-- The worlds that come of new allocators through steps that are `Orderly`, each with the
allocations that are `remaining` in it. -/
inductive Course [System σ] : World σ → List Grant → Prop where
  | start (system : σ) {allocators : List Allocator} (hnew : ∀ a ∈ allocators, IsNew a) :
      Course { memory := { system }, allocators } []
  | step {w w' : World σ} {ledger : List Grant} (s : Step) {answer : Answer}
      (h : Course w ledger) (hs : w.Orderly ledger s) (hstep : World.step s w = (answer, w')) :
      Course w' (w.remaining ledger s answer)

/-! ## The account of a course -/

/-- Every allocation has a home, which its allocator `Reaches` if it is a pool. There may be memory
`lost` that nobody returns any more. -/
structure Stock (w : World σ) (ledger : List Grant) (homes : Multiset (Grant × Home))
    (lost : Multiset Parcel) : Prop where
  ledger_eq : homes.map Prod.fst = (ledger : Multiset Grant)
  keeps : w.Keeps (homes.map parcelOf + lost)
  closed : w.plan.Closed
  reaches : ∀ e ∈ homes, ∀ k, e.2 = .pool k → w.plan.Reaches e.1.allocator e.1.chain (.pool k)

/-- With another past, there is a `Stock` of all memory in use. -/
def Stocked (w : World σ) (ledger : List Grant) : Prop :=
  ∃ past homes lost, (w.recalling past).Stock ledger homes lost

variable {homes : Multiset (Grant × Home)} {lost : Multiset Parcel}

theorem Stock.stocked (h : w.Stock ledger homes lost) : w.Stocked ledger :=
  ⟨w.memory.log, homes, lost, h⟩

/-- `Stocked` looks at the allocators and the live regions only. -/
lemma Stocked.congr (h : w.Stocked ledger) (hallocators : w'.allocators = w.allocators)
    (hlive : w'.memory.live = w.memory.live) : w'.Stocked ledger := by
  obtain ⟨past, homes, lost, h⟩ := h
  obtain ⟨⟨system, live, log⟩, allocators, boxes⟩ := w
  obtain ⟨⟨system', live', log'⟩, allocators', boxes'⟩ := w'
  subst hallocators hlive
  have hmemory := h.keeps.memory
  refine ⟨past, homes, lost, h.ledger_eq, ⟨h.keeps.ok, ?_, h.keeps.slots, h.keeps.accepted⟩,
    h.closed, h.reaches⟩
  exact ⟨hmemory.live, hmemory.apart, hmemory.proper, hmemory.received, hmemory.balanced⟩

/-- An `Oblivious` action leaves a world `Stocked` if it does so with every past. -/
lemma Oblivious.ends_stocked {α : Type} {x : WorldM σ α} (hx : Oblivious x)
    {after : α → List Grant} (h : w.Stocked ledger)
    (hstock : ∀ past homes lost, (w.recalling past).Stock ledger homes lost →
      Ends x (w.recalling past) fun a w' => w'.Stocked (after a)) :
    Ends x w fun a w' => w'.Stocked (after a) := by
  obtain ⟨past, homes, lost, h⟩ := h
  obtain ⟨events, -, hsame⟩ := hx.exists_events w
  have hend := hstock past homes lost h
  unfold Ends at hend
  rw [hsame past] at hend
  exact hend.congr rfl rfl

/-- `Stock` survives an action that `Keeps` all parcels and the plan. -/
lemma Stock.of_keeps (h : w.Stock ledger homes lost)
    (hend : w'.plan = w.plan ∧ w'.Keeps (homes.map parcelOf + lost)) :
    w'.Stock ledger homes lost :=
  ⟨h.ledger_eq, hend.2, hend.1 ▸ h.closed, hend.1 ▸ h.reaches⟩

/-- `Stock` survives an action that `Keeps` all parcels and `Extends` the plan. -/
lemma Stock.of_extends (h : w.Stock ledger homes lost) (hextends : w.plan.Extends w'.plan)
    (hclosed : w'.plan.Closed) (hkeeps : w'.Keeps (homes.map parcelOf + lost)) :
    w'.Stock ledger homes lost :=
  ⟨h.ledger_eq, hkeeps, hclosed, fun e he k hk => hextends.reaches_pool (h.reaches e he k hk)⟩

/-- `addStrategy` of an allocator leaves a world `Stocked`. -/
lemma Stock.addStrategy (h : w.Stock ledger homes lost) (id : Nat) {s : Strategy}
    (hs : s.IsAllocator) :
    Ends (change id fun a => pure (a.addStrategy s)) w fun _ w' => w'.Stocked ledger := by
  refine ends_change (fun _ => h.stocked) fun a ha => Stock.stocked (h.of_extends ?_ ?_ ?_)
  · exact extends_update ha (fun s' hs' => List.mem_append_left _ hs') _
  · refine closed_update h.closed ha (fun s' hs' => ?_) _
    rcases List.mem_append.1 hs' with hs' | hs'
    · exact .inl hs'
    · exact .inr (List.mem_singleton.1 hs' ▸ hs)
  · exact h.keeps.addStrategy ha s

/-- `Stocked` does not depend on the boxes. -/
lemma Stocked.setBoxed (h : w.Stocked ledger) (index : Nat) (b : Option Boxed) :
    Ends (World.setBoxed index b) w fun _ w' => w'.Stocked ledger := h.congr rfl rfl

/-- `Stocked` does not depend on the log. -/
lemma Stocked.record (h : w.Stocked ledger) (event : Event) :
    Ends (onMemory (Memory.record event)) w fun _ w' => w'.Stocked ledger := h.congr rfl rfl

section System

variable [System σ]

/-- `reset` takes what is `InPool` of the allocator out of the ledger. Memory from elsewhere
stays. -/
lemma Stock.reset (h : w.Stock ledger homes lost) (id : Nat) (settings : Settings) :
    Ends (change id fun a => a.reset settings) w fun _ w' =>
      w'.Stocked (ledger.filter fun g => ¬ w.InPool id g.address) := by
  refine ends_change (fun hid => ?_) fun a ha => ?_
  · have hnot : ∀ g : Grant, ¬ w.InPool id g.address := by
      intro g
      unfold InPool
      rw [hid]
      exact Bool.false_ne_true
    rw [List.filter_eq_self.2 fun g _ => decide_eq_true (hnot g)]
    exact h.stocked
  refine (h.keeps.reset ha settings).mono ?_
  rintro a' m' ⟨hnew, hkeeps⟩
  have hnested : a'.nested = a.nested := hnew ▸ rfl
  have hextends : w.plan.Extends (w.update id a' m').plan :=
    extends_update ha (fun s hs => hnested ▸ hs) m'
  refine ⟨m'.log, homes.filter fun e => e.2 ≠ .pool id, elsewhere id lost,
    ⟨?_, ?_, ?_, fun e he k hk => ?_⟩⟩
  · -- the pool is the home of an allocation exactly if one of its blocks has the address
    rw [← Multiset.filter_coe, ← h.ledger_eq, Multiset.filter_map]
    refine congrArg _ (Multiset.filter_congr fun e he => not_congr ?_)
    have hmem : parcelOf e ∈ homes.map parcelOf + lost :=
      Multiset.mem_add.2 (.inl (Multiset.mem_map_of_mem _ he))
    unfold InPool
    rw [ha]
    exact ⟨fun hhome => h.keeps.owns_of_home hmem ha hhome,
      fun howns => h.keeps.home_of_owns hmem ha howns⟩
  · have hsplit : elsewhere id (homes.map parcelOf + lost) =
        (homes.filter fun e => e.2 ≠ .pool id).map parcelOf + elsewhere id lost := by
      unfold elsewhere
      rw [Multiset.filter_add, Multiset.filter_map]
      rfl
    rwa [← hsplit]
  · exact closed_update h.closed ha (fun s hs => .inl (hnested ▸ hs)) m'
  · exact hextends.reaches_pool (h.reaches e (Multiset.mem_filter.1 he).1 k hk)

/-! ### Memory of heaps

The heap at the end of a chain may not be the one that an address is from. It may then reject the
address, or give it back with another layout.
-/

/-- A return of memory that is from no pool: with another past, the world `Keeps` the parcels
without it or still with it. -/
def Strays (w : World σ) (x : Parcel) (parcels : Multiset Parcel) (w' : World σ) : Prop :=
  w'.plan = w.plan ∧
    ∃ past, (w'.recalling past).Keeps parcels ∨ (w'.recalling past).Keeps (x ::ₘ parcels)

omit [System σ] in
/-- `Strays` survives a `Quiet` action. -/
lemma Strays.quiet {x : Parcel} {parcels : Multiset Parcel} (h : w.Strays x parcels w')
    {m' : Memory σ} (hquiet : w'.memory.Quiet m') :
    w.Strays x parcels { w' with memory := m' } := by
  obtain ⟨hplan, past, hkeeps⟩ := h
  have hsame : ({ w' with memory := m' } : World σ).recalling past = w'.recalling past := by
    obtain ⟨system, live, log⟩ := m'
    obtain ⟨hsystem, hlive, -⟩ := hquiet
    subst hsystem hlive
    rfl
  exact ⟨hplan, past, hsame ▸ hkeeps⟩

variable {parcels : Multiset Parcel} {heap : Heap} {address size : Nat}

omit [System σ] in
/-- Any heap takes memory from another heap, or leaves everything as it is. -/
lemma Keeps.strays_heap (h : w.Keeps (⟨.heap heap, address, size⟩ ::ₘ parcels))
    (other : Heap) :
    Ends (onMemory (other.deallocate address size)) w fun _ w' =>
      w.Strays ⟨.heap heap, address, size⟩ parcels w' := by
  have hstay : w.Strays ⟨.heap heap, address, size⟩ parcels w := ⟨rfl, w.memory.log, .inr h⟩
  have hmemory : w.memory.Keeps (heap.regionAt address size ::ₘ
      (w.regions + parcels.bind Parcel.regions)) := by
    have hmemory := h.memory
    rwa [Parcel.bind_regions_heap, Multiset.add_cons] at hmemory
  unfold Heap.deallocate
  split
  · refine ends_onMemory ((Memory.quiet_note _ w.memory).bind fun _ m' hquiet => ?_)
    exact hstay.quiet hquiet
  · have hstart : (other.regionAt address size).start = (heap.regionAt address size).start := rfl
    have hrelease := Memory.keeps_release_at hmemory hstart
    refine ends_onMemory (hrelease.bind fun _ m' ⟨past, hkeeps⟩ => ?_)
    refine ⟨rfl, past, .inl (h.withMemory hkeeps Parcel.bind_slots_heap.symm ?_)⟩
    exact fun x hx => h.accepted x (Multiset.mem_cons_of_mem hx)

/-- `World.deallocate` of memory from a heap takes it or leaves it, whatever heap ends the chain. -/
lemma Keeps.deallocate_stray [LawfulSystem σ]
    (h : w.Keeps (⟨.heap heap, address, size⟩ ::ₘ parcels)) (hclosed : w.plan.Closed) (id : Nat)
    (chain : Chain) :
    Ends (World.deallocate id chain address size) w fun _ w' =>
      w.Strays ⟨.heap heap, address, size⟩ parcels w' := by
  have hstay : w.Strays ⟨.heap heap, address, size⟩ parcels w := ⟨rfl, w.memory.log, .inr h⟩
  have hmem := Multiset.mem_cons_self (⟨.heap heap, address, size⟩ : Parcel) parcels
  refine ends_deallocate (fun _ => hstay) fun a ha => ?_
  -- no allocator has the address, so the chain is walked up to its end
  have howns : a.owns address = false :=
    Bool.eq_false_iff.2 fun howns => Home.noConfusion (h.home_of_owns hmem ha howns)
  have hnested : ∀ s ∈ a.nested, s.IsAllocator :=
    hclosed a.wiring (List.mem_of_getElem? (plan_getElem? ha))
  have hnot : ∀ s ∈ a.nested, ¬ w.plan.Provides w.allocators.length s (.heap heap) := by
    intro s hs hprovides
    obtain ⟨j, owned, rfl⟩ := hnested s hs
    exact hprovides
  have hend : ∃ rest, a.strategies chain = a.nested ++ rest ∧
      (rest = [] ∨ ∃ other, rest = [.heap other]) := by
    cases chain with
    | owned => exact ⟨[], (List.append_nil _).symm, .inl rfl⟩
    | full =>
      refine ⟨_, rfl, ?_⟩
      cases a.backstop with
      | none => exact .inl rfl
      | some other => exact .inr ⟨other, rfl⟩
  obtain ⟨rest, hstrategies, hrest⟩ := hend
  refine ends_deallocateWith_unowned ha howns ?_
  rw [hstrategies]
  refine Ends.congr ((sound_upTo _).returnTo_append h hmem hclosed size rest hnested hnot) ?_
  rcases hrest with rfl | ⟨other, rfl⟩
  · exact fun m' hquiet _ => hstay.quiet hquiet
  · unfold returnTo
    refine (h.strays_heap other).bind fun taken w₁ h₁ => ?_
    cases taken <;> exact fun m' hquiet _ => h₁.quiet hquiet

/-! ### Requests and returns -/

variable [LawfulSystem σ]

/-- `World.allocate` leaves a world `Stocked` with the ledger as `granted`. -/
lemma Stocked.allocate (h : w.Stocked ledger) (id : Nat) (chain : Chain) (size : Nat)
    (affinity : Affinity) :
    Ends (World.allocate id chain size affinity) w fun answer w' =>
      w'.Stocked (granted ledger id chain size answer) := by
  refine (oblivious_allocate id chain size affinity).ends_stocked h fun past homes lost h => ?_
  refine (h.keeps.allocate h.closed id chain size affinity).mono ?_
  rintro (_ | _ | address) w' ⟨hplan, hanswer⟩
  · exact (h.of_keeps ⟨hplan, hanswer⟩).stocked
  · exact (h.of_keeps ⟨hplan, hanswer⟩).stocked
  · obtain ⟨home, hreach, hkeeps⟩ := hanswer
    refine ⟨w'.memory.log, (⟨id, chain, address, size⟩, home) ::ₘ homes, lost, ?_, ?_,
      hplan ▸ h.closed, ?_⟩
    · rw [Multiset.map_cons, h.ledger_eq]
      rfl
    · rw [Multiset.map_cons, Multiset.cons_add]
      exact hkeeps
    · intro e he k hk
      show w'.plan.Reaches _ _ _
      rw [hplan]
      rcases Multiset.mem_cons.1 he with rfl | he
      · exact hk ▸ hreach
      · exact h.reaches e he k hk

/-- `World.deallocate` of a grant leaves a world `Stocked` without it. -/
lemma Stocked.deallocate (h : w.Stocked ledger) {g : Grant} (hg : g ∈ ledger) :
    Ends (World.deallocate g.allocator g.chain g.address g.size) w fun _ w' =>
      w'.Stocked (ledger.erase g) := by
  refine (oblivious_deallocate g.allocator g.chain g.address g.size).ends_stocked h
    fun past homes lost h => ?_
  have hmem : g ∈ homes.map Prod.fst := by
    rw [h.ledger_eq]
    exact hg
  obtain ⟨e, he, rfl⟩ := Multiset.mem_map.1 hmem
  obtain ⟨others, rfl⟩ := Multiset.exists_cons_of_mem he
  have hledger : others.map Prod.fst = ((ledger.erase e.1 : List Grant) : Multiset Grant) := by
    have hledger := h.ledger_eq
    rw [Multiset.map_cons] at hledger
    rw [← Multiset.coe_erase, ← hledger, Multiset.erase_cons_head]
  have hkeeps := h.keeps
  rw [Multiset.map_cons, Multiset.cons_add] at hkeeps
  have hend : ∀ {w' : World σ} (past' lost'), w'.plan = w.plan →
      (w'.recalling past').Keeps (others.map parcelOf + lost') → w'.Stocked (ledger.erase e.1) :=
    fun past' lost' hplan hkeeps' => ⟨past', others, lost', hledger, hkeeps', hplan ▸ h.closed,
      fun e' he' => hplan ▸ h.reaches e' (Multiset.mem_cons_of_mem he')⟩
  obtain ⟨g, k | heap⟩ := e
  · refine (hkeeps.deallocate h.closed (h.reaches _ he k rfl)).mono ?_
    exact fun _ w' ⟨_, hplan, hkeeps'⟩ => hend w'.memory.log lost hplan hkeeps'
  · refine (hkeeps.deallocate_stray h.closed g.allocator g.chain).mono ?_
    rintro answer w' ⟨hplan, past', hkeeps' | hkeeps'⟩
    · exact hend past' lost hplan hkeeps'
    · -- nobody took the memory, and nobody returns it a second time
      refine hend past' (parcelOf (g, .heap heap) ::ₘ lost) hplan ?_
      rwa [Multiset.add_cons]

/-! ### Boxes -/

lemma Stocked.boxMemory (h : w.Stocked ledger) (id : Nat) (a : Allocator) (layout : Layout)
    (affinity : Affinity) :
    Ends (World.boxMemory id a layout affinity) w fun answer w' =>
      w'.Stocked (granted ledger id .full layout.size (some answer)) := by
  unfold World.boxMemory
  simp only
  split
  · exact h
  · refine (h.allocate id .full layout.size affinity).bind fun answer w₁ h₁ => ?_
    rcases answer with _ | reason | address
    · exact h₁
    · exact h₁
    · simp only
      split
      · exact h₁
      · have hmem : (⟨id, .full, address, layout.size⟩ : Grant) ∈
            granted ledger id .full layout.size (some (.ok address)) := List.mem_cons_self ..
        refine (h₁.deallocate hmem).bind fun _ w₂ h₂ => ?_
        have hledger : (granted ledger id .full layout.size (some (.ok address))).erase
            ⟨id, .full, address, layout.size⟩ = ledger := List.erase_cons_head ..
        rw [hledger] at h₂
        exact h₂

/-- `newBoxed` leaves a world `Stocked` with the ledger as `granted`. -/
lemma Stocked.newBoxed (h : w.Stocked ledger) (id : Nat) (layout : Layout) (value : Value)
    (affinity : Affinity) :
    Ends (World.newBoxed id layout value affinity) w fun answer w' =>
      w'.Stocked (granted ledger id .full layout.size answer) := by
  unfold World.newBoxed
  apply Ends.get_bind
  split
  · exact h
  · rename_i a ha
    refine (h.boxMemory id a layout affinity).bind fun answer w₁ h₁ => ?_
    have hpush : ∀ (b : Option Boxed) {w₂ : World σ} {ledger' : List Grant}, w₂.Stocked ledger' →
        Ends (pushBoxed b) w₂ fun _ w₃ => w₃.Stocked ledger' := fun b _ _ h₂ => h₂.congr rfl rfl
    cases answer with
    | ok address => exact (hpush _ h₁).bind fun _ _ h₂ => h₂
    | error reason =>
      have hdestroy : Ends (destroy value) w₁ fun _ w₂ => w₂.Stocked ledger := h₁.congr rfl rfl
      exact hdestroy.bind fun _ _ h₂ => (hpush none h₂).bind fun _ _ h₃ => h₃

/-- `returnBoxed` leaves a world `Stocked` without the grant of the box. -/
lemma Stocked.returnBoxed (h : w.Stocked ledger) {b : Boxed} (hb : grantOf b ∈ ledger) :
    Ends (World.returnBoxed b) w fun _ w' => w'.Stocked (ledger.erase (grantOf b)) := by
  unfold World.returnBoxed
  exact (h.deallocate hb).bind fun _ _ h' => h'

omit [System σ] [LawfulSystem σ] in
lemma Stocked.replaceBoxed (h : w.Stocked ledger) (index : Nat) (value : Value) :
    Ends (World.replaceBoxed index value) w fun _ w' => w'.Stocked ledger := by
  unfold World.replaceBoxed
  apply Ends.get_bind
  split
  · exact h
  · exact (h.record _).bind fun _ _ h₁ => (h₁.setBoxed index _).bind fun _ _ h₂ => h₂

/-- `dropBoxed` leaves a world `Stocked` without the grant of the box, if there is one of that
number. -/
lemma Stocked.dropBoxed (h : w.Stocked ledger) (index : Nat)
    (hs : ∀ b, w.boxed? index = some b → grantOf b ∈ ledger) :
    Ends (World.dropBoxed index) w fun _ w' =>
      w'.Stocked ((w.boxed? index).elim ledger fun b => ledger.erase (grantOf b)) := by
  unfold World.dropBoxed
  apply Ends.get_bind
  split
  · rename_i hnone
    rw [hnone]
    exact h
  · rename_i b hb
    rw [hb]
    refine (h.setBoxed index none).bind fun _ _ h₁ => (h₁.record _).bind fun _ _ h₂ => ?_
    exact (h₂.returnBoxed (hs b hb)).bind fun _ _ h₃ => h₃

lemma Stocked.unbox (h : w.Stocked ledger) (index : Nat)
    (hs : ∀ b, w.boxed? index = some b → grantOf b ∈ ledger) :
    Ends (World.unbox index) w fun _ w' =>
      w'.Stocked ((w.boxed? index).elim ledger fun b => ledger.erase (grantOf b)) := by
  unfold World.unbox
  apply Ends.get_bind
  split
  · rename_i hnone
    rw [hnone]
    exact h
  · rename_i b hb
    rw [hb]
    refine (h.setBoxed index none).bind fun _ _ h₁ => ?_
    refine (h₁.returnBoxed (hs b hb)).bind fun _ _ h₂ => ?_
    exact (h₂.record _).bind fun _ _ h₃ => (h₃.record _).bind fun _ _ h₄ => h₄

/-! ### Steps -/

/-- `Stocked` is preserved by every step that is `Orderly`. -/
theorem Stocked.step (h : w.Stocked ledger) {s : Step} (hs : w.Orderly ledger s) :
    Ends (World.step s) w fun answer w' => w'.Stocked (w.remaining ledger s answer) := by
  have hsame : ∀ {homes lost} {α : Type} (w : World σ), w.Stock ledger homes lost →
      ∀ (_ : α) (w' : World σ), w'.plan = w.plan ∧ w'.Keeps (homes.map parcelOf + lost) →
        w'.Stocked ledger := fun _ hstock _ _ hend => (hstock.of_keeps hend).stocked
  cases s with
  | allocate id chain size affinity =>
    refine Ends.map ((h.allocate id chain size affinity).mono ?_)
    rintro (_ | _ | address) w' h' <;> exact h'
  | deallocate id chain address size => exact Ends.map (h.deallocate hs)
  | compact id =>
    refine (oblivious_step _).ends_stocked h fun past homes lost hstock => ?_
    exact Ends.map ((hstock.keeps.compact id).mono (hsame _ hstock))
  | setBlockSize id affinity blockSize =>
    refine (oblivious_step _).ends_stocked h fun past homes lost hstock => ?_
    exact (hstock.keeps.setBlockSize id affinity blockSize).mono (hsame _ hstock)
  | configureGroup id group =>
    refine (oblivious_step _).ends_stocked h fun past homes lost hstock => ?_
    exact (hstock.keeps.configureGroup id group).mono (hsame _ hstock)
  | setTracking id tracking =>
    refine (oblivious_step _).ends_stocked h fun past homes lost hstock => ?_
    exact (hstock.keeps.setTracking id tracking).mono (hsame _ hstock)
  | addStrategy id strategy =>
    refine (oblivious_step _).ends_stocked h fun past homes lost hstock => ?_
    exact hstock.addStrategy id hs
  | reset id settings =>
    refine (oblivious_step _).ends_stocked h fun past homes lost hstock => ?_
    exact hstock.reset id settings
  | newBoxed id layout value affinity =>
    refine Ends.map ((h.newBoxed id layout value affinity).mono ?_)
    rintro (_ | _ | address) w' h' <;> exact h'
  | replaceBoxed index value => exact Ends.map (h.replaceBoxed index value)
  | dropBoxed index =>
    refine (h.dropBoxed index hs).bind fun found w' h' => ?_
    cases found <;> exact h'
  | unbox index => exact Ends.map (h.unbox index hs)

/-- Every world of a `Course` is `Stocked`: another past could account for all memory in use. -/
theorem Course.stocked (h : Course w ledger) : w.Stocked ledger := by
  induction h with
  | start system hnew =>
    have haccounts := accounts_start system hnew
    refine ⟨[], 0, 0, haccounts.ledger_eq, ?_, haccounts.closed, ?_⟩
    · exact haccounts.keeps
    · exact fun e he => absurd he (Multiset.notMem_zero e)
  | step s _ hs hstep ih => exact (ih.step hs).apply hstep

end System

end BlockPool.World
