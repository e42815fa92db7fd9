import BlockPool.Proofs.World.Fallbacks
import BlockPool.Proofs.World.Setup
import BlockPool.Proofs.World.Supply

/-!
# Memory on loan when an allocator starts anew

What the groups of an allocator served is gone when the allocator starts anew; what a fallback
served is still in use. The nested strategies stay, so whichever of them handed it out is there to
take it back. The heap at the end of the chain is made from the new settings. It takes any address,
and gives it back to its own source and with its own alignment, whichever heap it is from.

Main statement: if the heap in the end asks for memory as the one before did, then whatever a
fallback served goes back to where it is from, whatever happens in between.
-/

namespace BlockPool

/-- Between `m` and `m'`, a region goes back to the system, as `Event.returned?` says. -/
abbrev Memory.Recovers {σ : Type} (m m' : Memory σ) (r : Region) : Prop :=
  m.Logs (r ∈ ·.returned?) m'

/-! ## One heap in the place of another -/

namespace Heap

variable {σ : Type} {h h' : Heap} {size : Nat}

/-- A heap asks for memory as another one does. Only sized memory is asked for with the alignment
of the heap. -/
def Pairs (h h' : Heap) : Prop :=
  h'.source = h.source ∧ (h.source = .sized → h'.alignment = h.alignment)

instance (h h' : Heap) : Decidable (h.Pairs h') := inferInstanceAs (Decidable (_ ∧ _))

/-- `Heap.regionAt` is the same for two heaps exactly if they are `Pairs`. -/
lemma regionAt_eq_iff (address : Nat) :
    h'.regionAt address size = h.regionAt address size ↔ h.Pairs h' := by
  obtain ⟨source, alignment⟩ := h
  obtain ⟨source', alignment'⟩ := h'
  unfold regionAt layoutFor Pairs
  cases source <;> cases source' <;> simp

/-- What a heap `Accepts` one that it pairs with does too. -/
lemma Pairs.accepts (hpairs : h.Pairs h') (haccepts : h.Accepts size) : h'.Accepts size := by
  have hlayout : h'.layoutFor size = h.layoutFor size :=
    congrArg Region.layout ((regionAt_eq_iff 0).2 hpairs)
  unfold Accepts
  rw [hpairs.1, hlayout]
  exact haccepts

/-- The system `Supplies` the memory that `Heap.allocate` answers. -/
lemma allocate_supplied [System σ] (h : Heap) (size : Nat) (m : Memory σ) :
    Ends (h.allocate size) m fun answer m' =>
      ∀ address, answer = some address → m.Supplies m' (h.regionAt address size) := by
  unfold allocate regionAt
  split
  · rename_i hsource
    rw [hsource]
    split
    · exact Memory.supplies_request .sized _ m
    · exact fun address hanswer => absurd hanswer (Option.some_ne_none address).symm
  · rename_i hsource
    rw [hsource]
    refine (Memory.supplies_request .unsized _ m).bind ?_
    rintro (_ | start) m₁ h₁
    · exact fun address hanswer => absurd hanswer (Option.some_ne_none address).symm
    · simp only
      split
      · exact h₁
      · exact Ends.trivial.bind fun _ _ _ => Ends.trivial.bind fun _ _ _ =>
          fun address hanswer => absurd hanswer (Option.some_ne_none address).symm

/-- The system `Recovers` the memory that a heap `Accepts`. -/
lemma deallocate_recovered (haccepts : h.Accepts size) (address : Nat) (m : Memory σ) :
    Ends (h.deallocate address size) m fun taken m' =>
      taken = true ∧ m.Recovers m' (h.regionAt address size) := by
  have hvalid : ¬ (h.source = .sized ∧ ¬ (h.layoutFor size).IsValid) :=
    fun hnot => hnot.2 (haccepts hnot.1)
  unfold deallocate
  rw [if_neg hvalid]
  exact ⟨rfl, [_], rfl, _, List.mem_singleton_self _, rfl⟩

end Heap

/-- A nested strategy is a member of every chain. -/
lemma Allocator.Wiring.nested_mem_places (x : Wiring) {chain : Chain} {s : Strategy} :
    .nested s ∈ x.places chain ↔ s ∈ x.nested := by
  unfold places
  cases chain <;> cases x.backstop <;> simp

namespace World

variable {σ : Type} [System σ] {w w' : World σ} {id size address : Nat} {affinity : Affinity}
  {place : Place} {a : Allocator} {links : Links σ}

/-- Requests and returns only ever write to the log, as `Pooling` says. -/
lemma pooling_writes :
    Pooling fun w w' : World σ => w.memory.Writes (fun _ => True) w'.memory where
  refl w := .refl _ w.memory
  trans h h' := h.trans h'
  memory _ _ h := h
  allocatePooled {w _ a} _ size affinity :=
    (a.plain_allocatePooled size affinity).oblivious.writes w.memory
  deallocatePooled {w _ a} _ address size :=
    (a.plain_deallocatePooled address size).oblivious.writes w.memory

/-! ## Requests -/

/-- A member of a chain is the last one `asked`, and it serves. If it is a heap, then the system
`Supplies` the memory for that. -/
structure Lends (before after : World σ × List Entry) (size : Nat) (affinity : Affinity)
    (place : Place) (address : Nat) : Prop where
  asked : ∃ record, after.2 = .asked place size affinity (some address) :: record
  heap {h : Heap} : place = .backstop h →
    h.Accepts size ∧ before.1.memory.Supplies after.1.memory (h.regionAt address size)

variable {before before' after after' : World σ × List Entry}

omit [System σ] in
/-- What a member `Lends` it does as seen from before. -/
lemma Lends.earlier (h : Lends before' after size affinity place address)
    (hwrites : before.1.memory.Writes (fun _ => True) before'.1.memory) :
    Lends before after size affinity place address :=
  ⟨h.asked, fun hplace => ⟨(h.heap hplace).1, (h.heap hplace).2.earlier hwrites⟩⟩

omit [System σ] in
/-- What a member `Lends` it still does after further writes. -/
lemma Lends.later (h : Lends before after size affinity place address)
    (hwrites : after.1.memory.Writes (fun _ => True) after'.1.memory)
    (hrecord : after'.2 = after.2) : Lends before after' size affinity place address :=
  ⟨hrecord ▸ h.asked, fun hplace => ⟨(h.heap hplace).1, (h.heap hplace).2.later hwrites⟩⟩

/-- A member that offers an address `Lends` it. -/
lemma ask_lends (links : Links σ) (size : Nat) (affinity : Affinity) (place : Place)
    (before : World σ × List Entry) :
    Ends (ask links size affinity place) before fun answer after =>
      ∀ address, answer = some address → Lends before after size affinity place address := by
  intro address hanswer
  refine ⟨⟨before.2, congrArg (Entry.asked place size affinity · :: before.2) hanswer⟩, ?_⟩
  rintro heap rfl
  exact ⟨heap.accepts_of_allocate size before.1.memory address hanswer,
    heap.allocate_supplied size before.1.memory address hanswer⟩

/-- The address that `serveRecorded` answers is lent by one of the members. -/
lemma serveRecorded_lends
    (hlinks : links.Along fun w w' : World σ => w.memory.Writes (fun _ => True) w'.memory)
    (size : Nat) (affinity : Affinity) (alignment : Nat) (places : List Place)
    (before : World σ × List Entry) :
    Ends (serveRecorded links size affinity alignment places) before fun answer after =>
      ∀ address, answer = some address →
        ∃ place ∈ places, Lends before after size affinity place address := by
  induction places generalizing before with
  | nil => exact fun address hanswer => absurd hanswer (Option.some_ne_none address).symm
  | cons place rest ih =>
    have hR := (pooling_writes (σ := σ)).toPassage
    -- whatever was written before, the rest of the chain serves later
    have hrest : ∀ before' : World σ × List Entry,
        before.1.memory.Writes (fun _ => True) before'.1.memory →
        Ends (serveRecorded links size affinity alignment rest) before' fun answer after =>
          ∀ address, answer = some address →
            ∃ place' ∈ place :: rest, Lends before after size affinity place' address := by
      intro before' hwrites
      refine (ih before').mono fun answer after h address hanswer => ?_
      obtain ⟨place', hmem, hlends⟩ := h address hanswer
      exact ⟨place', List.mem_cons_of_mem _ hmem, hlends.earlier hwrites⟩
    have hask : Ends (ask links size affinity place) before fun _ after =>
        before.1.memory.Writes (fun _ => True) after.1.memory :=
      hlinks.offer hR size affinity place.strategy before.1
    unfold serveRecorded
    refine ((ask_lends links size affinity place before).and hask).bind ?_
    rintro (_ | address) after₁ ⟨hlends, hwrites⟩
    · exact hrest after₁ hwrites
    · simp only
      split
      · have hnote : Ends (unrecorded (onMemory (Memory.note
            (.fallbackMisaligned place.strategy.name address alignment)))) after₁
            fun _ after₂ => after₁.1.memory.Writes (fun _ => True) after₂.1.memory :=
          hR.note _ after₁.1
        refine hnote.bind fun _ after₂ h₂ => ?_
        have hshow : Ends (showTo links address size place) after₂ fun _ after₃ =>
            after₂.1.memory.Writes (fun _ => True) after₃.1.memory :=
          (hlinks.returnsAlong address size).offerBack hR place.strategy after₂.1
        exact hshow.bind fun _ after₃ h₃ => hrest after₃ ((hwrites.trans h₂).trans h₃)
      · rintro address' ⟨⟩
        exact ⟨place, List.mem_cons_self, (hlends address rfl).later (hR.note _ after₁.1) rfl⟩

/-- If the group fails, the address that `allocateRecorded` answers is lent by a member of the
chain. -/
lemma allocateRecorded_lends {reason : AllocationError} {record : List Entry}
    (hfail : (a.allocatePooled size affinity w.memory).1.1 = .error reason) (depth id : Nat)
    (chain : Chain) :
    Ends (allocateRecorded (.upTo depth) id a chain size affinity) (w, record) fun answer after =>
      ∀ address, answer = .ok address →
        ∃ place ∈ a.wiring.places chain, Lends (w, record) after size affinity place address := by
  have hframe := a.allocatePooled_frame size affinity w.memory
  have hpool : Ends (unrecorded (onMemory (a.allocatePooled size affinity))) (w, record)
      fun out after => out.1 = .error reason ∧ out.2.wiring = a.wiring ∧
        w.memory.Writes (fun _ => True) after.1.memory :=
    ⟨hfail, hframe.1, (a.plain_allocatePooled size affinity).oblivious.writes w.memory⟩
  unfold allocateRecorded
  refine hpool.bind ?_
  rintro ⟨answer, a'⟩ after₁ ⟨rfl, hwiring, hwrites⟩
  have hput : Ends (unrecorded (setAllocator id a')) after₁ fun _ after₂ =>
      w.memory.Writes (fun _ => True) after₂.1.memory := hwrites
  refine hput.bind fun _ after₂ hwrites => ?_
  simp only
  rw [hwiring]
  refine (serveRecorded_lends (pooling_writes.upTo depth) size affinity _ _ after₂).bind ?_
  rintro (_ | offered) after₃ h₃
  · exact Ends.trivial.bind fun _ _ _ address (hanswer : Except.error reason = .ok address) =>
      absurd hanswer (by simp)
  · rintro address ⟨⟩
    obtain ⟨place, hplace, hlends⟩ := h₃ offered rfl
    exact ⟨place, hplace, hlends.earlier hwrites⟩

/-! ## Returns -/

/-- An address that is on loan from a heap passes the nested strategies of an `Honest` record, and
the system `Recovers` it from the heap at the end of the chain, whichever heap that is. -/
lemma returnRecorded_to_heap
    (hlinks : links.Along fun w w' : World σ => w.memory.Writes (fun _ => True) w'.memory)
    {heap lender : Heap} (haccepts : heap.Accepts size) (nested : List Strategy)
    (before : World σ × List Entry) (hloan : ⟨.backstop lender, address, size⟩ ∈ loans before.2) :
    Ends (returnRecorded links address size (nested.map .nested ++ [.backstop heap])) before
      fun taker after => Honest after.2 →
        taker.isSome ∧ before.1.memory.Recovers after.1.memory (heap.regionAt address size) := by
  induction nested generalizing before with
  | nil =>
    have hshow : Ends (showTo links address size (.backstop heap)) before fun taken after =>
        taken = true ∧ before.1.memory.Recovers after.1.memory (heap.regionAt address size) :=
      heap.deallocate_recovered haccepts address before.1.memory
    show Ends (returnRecorded links address size [.backstop heap]) before _
    unfold returnRecorded
    refine hshow.bind ?_
    rintro _ after ⟨rfl, hrecovers⟩ -
    exact ⟨rfl, hrecovers⟩
  | cons s rest ih =>
    have hR := (pooling_writes (σ := σ)).toPassage
    have hshow : Ends (showTo links address size (.nested s)) before fun taken after =>
        after.2 = .shown (.nested s) address size taken :: before.2 ∧
          before.1.memory.Writes (fun _ => True) after.1.memory :=
      ⟨rfl, (hlinks.returnsAlong address size).offerBack hR s before.1⟩
    show Ends (returnRecorded links address size
      (.nested s :: (rest.map .nested ++ [.backstop heap]))) before _
    unfold returnRecorded
    refine hshow.bind ?_
    rintro (_ | _) after₁ ⟨h₁, hwrites⟩
    · refine (ih after₁ (h₁ ▸ hloan)).mono fun taker after h hhonest => ?_
      exact ⟨(h hhonest).1, (h hhonest).2.earlier hwrites⟩
    · -- a strategy that takes what it did not hand out does not know what it has on loan
      intro hhonest
      have hfair := (h₁ ▸ hhonest : Honest (_ :: before.2)).1
      exact Place.noConfusion ((hfair _ hloan rfl).1 rfl)

/-- `deallocateRecorded` of an address in no block that is on loan from a heap ends with `Recovers`,
by the heap at the end of the chain. -/
lemma deallocateRecorded_to_heap (ha : w.allocator? id = some a)
    (howns : a.owns address = false) {heap lender : Heap} (hheap : a.backstop = some heap)
    (haccepts : heap.Accepts size) {record : List Entry}
    (hloan : ⟨.backstop lender, address, size⟩ ∈ loans record) (depth : Nat) :
    Ends (deallocateRecorded (.upTo depth) id a .full address size) (w, record)
      fun answer after => Honest after.2 →
        answer = true ∧ w.memory.Recovers after.1.memory (heap.regionAt address size) := by
  have hpool : Ends (unrecorded (onMemory (a.deallocatePooled address size))) (w, record)
      fun out after => out = (false, a) ∧ after = (w, record) := by
    unfold Ends unrecorded onMemory
    rw [Allocator.deallocatePooled_of_not_owns howns]
    exact ⟨rfl, rfl⟩
  have hplaces : a.wiring.places .full = a.nested.map .nested ++ [.backstop heap] := by
    simp [Allocator.Wiring.places, Allocator.wiring, hheap]
  unfold deallocateRecorded
  refine hpool.bind ?_
  rintro _ _ ⟨rfl, rfl⟩
  have hput : Ends (unrecorded (setAllocator id a)) (w, record) fun _ after =>
      after = (w, record) := by
    unfold Ends unrecorded
    rw [setAllocator_self ha]
  refine hput.bind ?_
  rintro _ _ rfl
  rw [if_neg Bool.false_ne_true, hplaces]
  refine (returnRecorded_to_heap (pooling_writes.upTo depth) haccepts a.nested (w, record)
    hloan).bind ?_
  rintro (_ | s) after₁ h₁
  · refine (ends_unrecorded _ after₁).bind fun _ after₂ h₂ hhonest => ?_
    exact absurd (h₁ (h₂ ▸ hhonest)).1 Bool.false_ne_true
  · have hnote : Ends (unrecorded (onMemory (Memory.noteIf a.tracking.report
        (.returnedToFallback address size s.name)))) after₁ fun _ after₂ =>
        after₂.2 = after₁.2 ∧ after₁.1.memory.Writes (fun _ => True) after₂.1.memory :=
      ⟨rfl, (Memory.oblivious_noteIf _ _).writes after₁.1.memory⟩
    refine hnote.bind fun _ after₂ h₂ hhonest => ⟨rfl, ?_⟩
    exact (h₁ (h₂.1 ▸ hhonest)).2.later h₂.2

/-- Where a return of memory on loan ends: with the nested strategy that it is `TakenBy`, or with
the system, which `Recovers` it as it was asked for, if it is from a heap. -/
def Repays (before after : World σ × List Entry) (places : List Place) (x : Loan) : Prop :=
  match x.place with
  | .nested s => TakenBy places (.nested s) x.address x.size before.2 after.2
  | .backstop heap => before.1.memory.Recovers after.1.memory (heap.regionAt x.address x.size)

/-- An allocator still has the nested strategies that it had, and a heap that `Pairs` with the one
that it had. -/
def Retains (w : World σ) (id : Nat) : Place → Prop
  | .nested s => ∃ a, w.allocator? id = some a ∧ s ∈ a.nested
  | .backstop heap =>
    ∃ a heap', w.allocator? id = some a ∧ a.backstop = some heap' ∧ heap.Pairs heap'

/-- A return to an allocator is answered with `true` and ends with whom the memory is on loan from,
if all nested strategies know what they have on loan. -/
def Returnable (w : World σ) (id : Nat) (x : Loan) : Prop :=
  ∃ a, w.allocator? id = some a ∧ ∀ record, x ∈ loans record →
    let last := (deallocateRecorded (.upTo w.allocators.length) id a .full x.address x.size
      (w, record)).2
    Honest last.2 →
      deallocate id .full x.address x.size w = (some true, last.1) ∧
      Repays (w, record) last (a.wiring.places .full) x

/-- A loan is `Returnable` while its allocator `Retains` the member that it is from, and has no
block with the address. -/
lemma Retains.returnable {x : Loan} (h : w.Retains id x.place)
    (haccepts : ∀ heap, x.place = .backstop heap → heap.Accepts x.size)
    (howns : ∀ a, w.allocator? id = some a → a.owns x.address = false) : w.Returnable id x := by
  -- what the recorded return answers is what the return answers
  have hreturns : ∀ {a}, w.allocator? id = some a → (∀ record, x ∈ loans record →
      Ends (deallocateRecorded (.upTo w.allocators.length) id a .full x.address x.size) (w, record)
        fun answer after => Honest after.2 →
          answer = true ∧ Repays (w, record) after (a.wiring.places .full) x) →
      w.Returnable id x := by
    refine fun {a} ha hrecorded => ⟨a, ha, fun record hloan => ?_⟩
    intro last hhonest
    obtain ⟨htrue, hrepays⟩ := hrecorded record hloan hhonest
    refine ⟨?_, hrepays⟩
    have hends : Ends (deallocate id .full x.address x.size) w fun answer w' =>
        answer = some true ∧ w' = last.1 := by
      refine ends_deallocate_there ha ?_
      unfold Ends
      rw [erases_deallocateRecorded _ id a .full x.address x.size w record]
      exact ⟨congrArg some htrue, rfl⟩
    exact Prod.ext hends.1 hends.2
  obtain ⟨place, address, size⟩ := x
  cases place with
  | nested s =>
    obtain ⟨a, ha, hmem⟩ := h
    refine hreturns ha fun record hloan => ?_
    exact taken_by_lender (howns a ha) hloan (a.wiring.nested_mem_places.2 hmem) haccepts _ id w
  | backstop heap =>
    obtain ⟨a, heap', ha, hheap, hpairs⟩ := h
    refine hreturns ha fun record hloan => ?_
    refine (deallocateRecorded_to_heap ha (howns a ha) hheap
      (hpairs.accepts (haccepts heap rfl)) hloan _).mono fun answer after hend hhonest => ?_
    show answer = true ∧ w.memory.Recovers after.1.memory (heap.regionAt address size)
    rw [← (Heap.regionAt_eq_iff address).2 hpairs]
    exact hend hhonest

/-! ## Starting anew -/

/-- An allocator that has just started anew is `SuppliedSince` then. -/
lemma suppliedSince_reset (w : World σ) (id : Nat) (settings : Settings) :
    Ends (step (.reset id settings)) w fun _ w' => w'.SuppliedSince w'.memory id := by
  refine ends_change (fun hnone => ?_) fun a ha => ?_
  · refine ⟨.refl _ _, fun ha _ => absurd (hnone.symm.trans ha) (by simp)⟩
  · unfold Allocator.reset
    refine Ends.trivial.bind fun _ m' _ => ?_
    exact suppliedSince_bare ((allocator?_update ha).trans (if_pos rfl))
      (Allocator.bare_ofSettings settings a.nested)

/-- Whatever a fallback served after any run is `Returnable` at any time after the allocator starts
anew, with any settings, while the system does not hand out the address again: always if a nested
strategy served it, and if the heap did, then as long as the heap that is there in the end asks for
memory as that one did. The answer is `true`, and the memory goes to the strategy, or to the system
with the source, the size and the alignment that it was requested with. -/
theorem returnable_after_reset {settings : Settings} {nested : List Strategy}
    (hfresh : w.allocator? id = some (.ofSettings settings nested)) (before : List Step) :
    Ends (run before) w fun _ w₀ => ∃ a, w₀.allocator? id = some a ∧ ∀ size affinity reason,
      (a.allocatePooled size affinity w₀.memory).1.1 = .error reason →
      let served :=
        allocateRecorded (.upTo w₀.allocators.length) id a .full size affinity (w₀, [])
      allocate id .full size affinity w₀ = (some served.1, served.2.1) ∧
      ∀ address, served.1 = .ok address → ∃ place,
        Lends (w₀, []) served.2 size affinity place address ∧
        ∀ early settings' late, Ends (run early) served.2.1 fun _ w₁ =>
          Ends (step (.reset id settings')) w₁ fun _ w₂ => Ends (run late) w₂ fun _ w₃ =>
            w₂.memory.Writes (Event.Spares address) w₃.memory →
              (∀ heap, place = .backstop heap → w₃.Retains id place) →
                w₃.Returnable id ⟨place, address, size⟩ := by
  refine ((hasSetup_fresh hfresh).run before).mono fun _ w₀ hsetup => ?_
  obtain ⟨a, ha, hx⟩ := hsetup
  refine ⟨a, ha, ?_⟩
  intro size affinity reason hfail served
  have hserved : Ends (allocate id .full size affinity) w₀ fun answer w' =>
      answer = some served.1 ∧ w' = served.2.1 := by
    refine ends_allocate_there ha ?_
    unfold Ends
    rw [erases_allocateRecorded _ id a .full size affinity w₀ []]
    exact ⟨rfl, rfl⟩
  refine ⟨Prod.ext hserved.1 hserved.2, fun address hanswer => ?_⟩
  obtain ⟨place, hplace, hlends⟩ :=
    allocateRecorded_lends hfail w₀.allocators.length id .full address hanswer
  refine ⟨place, hlends, fun early settings' late => ?_⟩
  have hsetup : served.2.1.HasSetup id _ :=
    hserved.2 ▸ (requesting_setup id).allocate w₀ id .full size affinity _ ⟨a, ha, hx⟩
  refine (hsetup.run early).mono fun _ w₁ h₁ => ?_
  refine ((h₁.step (.reset id settings')).and (suppliedSince_reset w₁ id settings')).mono ?_
  rintro _ w₂ ⟨h₂, hsupplied⟩
  refine ((h₂.run late).and (hsupplied.run late)).mono ?_
  rintro _ w₃ ⟨⟨a', ha', hx'⟩, hsupplied⟩ hspares hretains
  -- the nested strategies are still there, and the heap is there by assumption
  have hretains : w₃.Retains id place := by
    cases place with
    | backstop heap => exact hretains heap rfl
    | nested s =>
      have hs : s ∈ a.nested := a.wiring.nested_mem_places.1 hplace
      rw [hx.nested_eq] at hs
      refine ⟨a', ha', ?_⟩
      rw [hx'.nested_eq]
      apply Setup.nested_subset_foldl
      apply Setup.nested_subset_after
      exact Setup.nested_subset_foldl _ _ _ hs
  -- all blocks are in memory that came after the reset, which does not have the address in it
  refine hretains.returnable (fun heap hheap => (hlends.heap hheap).1) fun b hb => ?_
  exact hsupplied.owns_eq_false hb hspares

/-- An allocator with a nested strategy that offers nothing, over a system that refuses the next
request. -/
def declined : World Arena where
  memory := { system := { Arena.new 65536 .low with failures := 1, scripts := [⟨none, false⟩] } }
  allocators := [.ofSettings { } [.foreign 0 "other"]]

/-- `declined` after a request that the heap serves. -/
def onLoan : World Arena := (allocate 0 .full 8 .objects declined).2

/-- `onLoan` after its allocator has started anew. -/
def renewed : World Arena := (step (.reset 0 { defaultBlockSize := 4096 }) onLoan).2

/-- Memory of the heap goes back to the system as it came after the allocator has started anew. -/
theorem returnable_after_reset_heap :
    (allocate 0 .full 8 .objects declined).1 = some (.ok Arena.base) ∧
      ∃ w, deallocate 0 .full Arena.base 8 renewed = (some true, w) ∧
        renewed.memory.Recovers w.memory ⟨.sized, Arena.base, ⟨8, 8⟩⟩ := by
  have hfresh : declined.allocator? 0 = some (.ofSettings { } [.foreign 0 "other"]) := rfl
  obtain ⟨a, ha, hrequest⟩ := returnable_after_reset hfresh []
  obtain rfl := Option.some.inj ha
  obtain ⟨hserved, hloan⟩ := hrequest 8 .objects (.systemRefused 1048576 16) (by decide +kernel)
  obtain ⟨place, hlends, hreturn⟩ := hloan Arena.base (by decide +kernel)
  -- who served is seen from what is written last
  obtain ⟨record, hasked⟩ := hlends.asked
  have hrecord : (allocateRecorded (.upTo 1) 0 (.ofSettings { } [.foreign 0 "other"]) .full 8
      .objects (declined, [])).2.2 = [.asked (.backstop ⟨.sized, 8⟩) 8 .objects (some Arena.base),
        .asked (.nested (.foreign 0 "other")) 8 .objects none] := by
    decide +kernel
  obtain ⟨hhead, -⟩ := List.cons.inj (hrecord.symm.trans hasked)
  obtain rfl := (Entry.asked.inj hhead).1
  have hretains : renewed.Retains 0 (.backstop ⟨.sized, 8⟩) :=
    ⟨firstAllocator renewed, ⟨.sized, 8⟩, by decide +kernel, by decide +kernel, by decide⟩
  have hreturnable : renewed.Returnable 0 ⟨.backstop ⟨.sized, 8⟩, Arena.base, 8⟩ := by
    have hreset := hreturn [] { defaultBlockSize := 4096 } []
    have hworld := (congrArg Prod.snd hserved).symm
    dsimp only at hworld
    rw [hworld] at hreset
    exact hreset (.refl _ _) fun _ _ => hretains
  obtain ⟨a, ha, hreturned⟩ := hreturnable
  obtain rfl : a = firstAllocator renewed := Option.some.inj (ha.symm.trans (by decide +kernel))
  obtain ⟨hanswer, hrepays⟩ :=
    hreturned [.asked (.backstop ⟨.sized, 8⟩) 8 .objects (some Arena.base)] (by decide)
      (by decide +kernel)
  exact ⟨congrArg Prod.fst hserved, _, hanswer, hrepays⟩

/-- With another heap in the end, the memory goes to a side of the system that it is not from. -/
example : (deallocate 0 .full Arena.base 8
    (step (.reset 0 { backing := .unsized }) onLoan).2).2.memory.log.head? =
      some (.released ⟨.unsized, Arena.base, ⟨8, 16⟩⟩ .mismatch) := by
  decide +kernel

end World

end BlockPool
