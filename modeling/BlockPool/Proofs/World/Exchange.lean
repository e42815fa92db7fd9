import BlockPool.Proofs.World.Record

/-!
# Walks along a chain

A request walks along a chain of fallbacks: one exchange with each member that is asked, up to the
first that offers an address with the alignment needed. A return walks along the same chain up to
the first member that takes the address. If all strategies know what they have on loan, that is the
member that the address is on loan from.
-/

namespace BlockPool

/-- Whether an address is a multiple of `alignment`, where that is a power of two. -/
def Meets (alignment address : Nat) : Prop := alignment.isPowerOfTwo → address % alignment = 0

instance (alignment : Nat) : DecidablePred (Meets alignment) :=
  fun _ => inferInstanceAs (Decidable (_ → _))

/-- What `Meets` excludes: an address that is no multiple of an alignment which is a power of
two. -/
lemma not_meets_iff {alignment address : Nat} :
    ¬ Meets alignment address ↔ alignment.isPowerOfTwo ∧ address % alignment ≠ 0 := by
  unfold Meets
  rw [Classical.not_imp]

/-- What passes between an allocator and a member of a chain that it asks for memory. -/
inductive Exchange where
  | declined (place : Place)
  /-- The address offered was given back, and taken or not. -/
  | sentBack (place : Place) (address : Nat) (taken : Bool)
  | served (place : Place) (address : Nat)
deriving DecidableEq

namespace Exchange

/-- The `Place` of the member that is asked. -/
def place : Exchange → Place
  | declined place | sentBack place _ _ | served place _ => place

/-- What the member offers. -/
def offered : Exchange → Option Nat
  | declined _ => none
  | sentBack _ address _ | served _ address => some address

/-- The entries of an exchange, the latest first. What is `sentBack` goes to the member that offered
it, with the size that was asked for. -/
def entries (size : Nat) (affinity : Affinity) : Exchange → List Entry
  | declined place => [.asked place size affinity none]
  | sentBack place address taken =>
    [.shown place address size taken, .asked place size affinity (some address)]
  | served place address => [.asked place size affinity (some address)]

/-- Whether the next member is asked after an exchange: nothing was offered, or nothing that `Meets`
the alignment. -/
def Passes (alignment : Nat) : Exchange → Prop
  | declined _ => True
  | sentBack _ address _ => ¬ Meets alignment address
  | served .. => False

/-- Whether the heap at the end of a chain, if it is the one asked, `Accepts` what it offered. -/
def Covered (size : Nat) : Exchange → Prop
  | sentBack (.backstop _) _ taken => taken = true
  | served (.backstop heap) _ => heap.Accepts size
  | _ => True

end Exchange

/-- The `entries` of some exchanges, the latest first. -/
def written (size : Nat) (affinity : Affinity) : List Exchange → List Entry
  | [] => []
  | x :: later => written size affinity later ++ x.entries size affinity

/-- The exchanges of a walk along some `places`, with the answer that it ends with. -/
structure Walks (alignment : Nat) (places : List Place) (exchanges : List Exchange)
    (answer : Option Nat) : Prop where
  /-- The members are asked in order, each of them once, and none is left out. -/
  inOrder : exchanges.map Exchange.place <+: places
  /-- The answer is the first address offered that is aligned. -/
  first : answer = (exchanges.filterMap Exchange.offered).find? (Meets alignment ·)
  /-- What is offered goes back at once if it is not aligned, and only then. -/
  back : ∀ x ∈ exchanges, ∀ address, x.offered = some address →
    (¬ Meets alignment address ↔ ∃ taken, x = .sentBack x.place address taken)
  /-- Nobody is asked after the one who serves. -/
  last : ∀ address, answer = some address →
    ∃ before place, exchanges = before ++ [.served place address]
  /-- Without an answer, everybody was asked. -/
  exhausted : answer = none → exchanges.map Exchange.place = places

variable {alignment size : Nat} {affinity : Affinity} {places : List Place}
  {exchanges : List Exchange} {answer : Option Nat} {record : List Entry}

lemma written_cons_append (x : Exchange) (later : List Exchange) :
    written size affinity (x :: later) ++ record =
      written size affinity later ++ (x.entries size affinity ++ record) :=
  List.append_assoc ..

lemma Walks.nil : Walks alignment [] [] none where
  inOrder := List.nil_prefix
  first := rfl
  back := by simp
  last := by simp
  exhausted _ := rfl

/-- `Walks` goes on after an exchange that `Passes`. -/
lemma Walks.cons (h : Walks alignment places exchanges answer) {x : Exchange}
    (hx : x.Passes alignment) : Walks alignment (x.place :: places) (x :: exchanges) answer where
  inOrder := List.cons_prefix_cons.2 ⟨rfl, h.inOrder⟩
  first := by
    cases x with
    | declined place => exact h.first
    | sentBack place address taken =>
      have hnot : decide (Meets alignment address) = false := decide_eq_false hx
      show answer = (address :: exchanges.filterMap Exchange.offered).find? _
      rw [List.find?_cons, hnot]
      exact h.first
    | served place address => exact False.elim hx
  back := by
    intro y hy address hoffered
    rcases List.mem_cons.1 hy with rfl | hy
    · cases y with
      | declined place => exact absurd hoffered (Option.some_ne_none address).symm
      | sentBack place offer taken =>
        obtain rfl := Option.some.inj hoffered
        exact ⟨fun _ => ⟨taken, rfl⟩, fun _ => hx⟩
      | served place offer => exact False.elim hx
    · exact h.back y hy address hoffered
  last := by
    intro address hanswer
    obtain ⟨before, place, hsplit⟩ := h.last address hanswer
    exact ⟨x :: before, place, by rw [hsplit, List.cons_append]⟩
  exhausted hnone := by rw [List.map_cons, h.exhausted hnone]

/-- `Walks` ends with the first member that serves. -/
lemma Walks.served (place : Place) {address : Nat} (h : Meets alignment address) :
    Walks alignment (place :: places) [.served place address] (some address) where
  inOrder := List.cons_prefix_cons.2 ⟨rfl, List.nil_prefix⟩
  first := by
    show some address = List.find? _ [address]
    rw [List.find?_cons, decide_eq_true h]
  back := by
    intro x hx offer hoffered
    obtain rfl := List.mem_singleton.1 hx
    obtain rfl := Option.some.inj hoffered
    refine ⟨fun hnot => absurd h hnot, ?_⟩
    rintro ⟨taken, heq⟩
    exact Exchange.noConfusion heq
  last offer hoffer := ⟨[], place, by rw [Option.some.inj hoffer]; rfl⟩
  exhausted hnone := absurd hnone (Option.some_ne_none address)

/-! ## What a walk does to loans -/

/-- Loans that are open stay open during a walk, since nobody who is `Honest` hands out what is on
loan. -/
lemma mem_loans_written (hhonest : Honest (written size affinity exchanges ++ record)) {x : Loan}
    (hx : x ∈ loans record) : x ∈ loans (written size affinity exchanges ++ record) := by
  induction exchanges generalizing record with
  | nil => exact hx
  | cons e later ih =>
    rw [written_cons_append] at hhonest ⊢
    apply ih hhonest
    have hentries := hhonest.of_append
    cases e with
    | declined place => exact hx
    | served place address => exact List.mem_cons_of_mem _ hx
    | sentBack place address taken =>
      -- the address given back was offered just before, so it is not the one on loan
      exact mem_loans_shown (hentries.2.1 x hx) (List.mem_cons_of_mem _ hx)

/-- The address that a member serves with is one of the `loans` from it. -/
lemma served_mem_loans (hhonest : Honest (written size affinity exchanges ++ record))
    {place : Place} {address : Nat} (hserved : .served place address ∈ exchanges) :
    ⟨place, address, size⟩ ∈ loans (written size affinity exchanges ++ record) := by
  induction exchanges generalizing record with
  | nil => exact absurd hserved List.not_mem_nil
  | cons e later ih =>
    rw [written_cons_append] at hhonest ⊢
    rcases List.mem_cons.1 hserved with rfl | hserved
    · exact mem_loans_written hhonest (List.mem_cons_self ..)
    · exact ih hhonest hserved

/-- What is `sentBack` on the way is taken by the member that offered it. -/
lemma taken_of_sentBack (hhonest : Honest (written size affinity exchanges ++ record))
    (hcovered : ∀ x ∈ exchanges, x.Covered size) {place : Place} {address : Nat} {taken : Bool}
    (hback : .sentBack place address taken ∈ exchanges) : taken = true := by
  induction exchanges generalizing record with
  | nil => exact absurd hback List.not_mem_nil
  | cons e later ih =>
    rw [written_cons_append] at hhonest
    rcases List.mem_cons.1 hback with rfl | hback
    · cases place with
      | backstop heap => exact hcovered _ (List.mem_cons_self ..)
      | nested s =>
        have hfair := hhonest.of_append.1
        exact (hfair _ (List.mem_cons_self ..) rfl).2 rfl
    · exact ih hhonest (fun x hx => hcovered x (List.mem_cons_of_mem _ hx)) hback

lemma added_written (exchanges : List Exchange) :
    added (written size affinity exchanges) = [] := by
  induction exchanges with
  | nil => rfl
  | cons e later ih =>
    show added (written size affinity later ++ e.entries size affinity) = []
    rw [added_append, ih, List.append_nil]
    cases e <;> rfl

/-! ## Returns -/

/-- The entries of members that were `shown` an address and did not take it, the latest first. -/
def refusals (address size : Nat) : List Place → List Entry
  | [] => []
  | place :: later => refusals address size later ++ [.shown place address size false]

/-- A member of a chain takes an address, after `refusals` by those in front of it. -/
def TakenBy (places : List Place) (place : Place) (address size : Nat)
    (before after : List Entry) : Prop :=
  ∃ front rest, places = front ++ place :: rest ∧
    after = .shown place address size true :: (refusals address size front ++ before)

variable {address : Nat}

lemma refusals_cons_append (place : Place) (later : List Place) :
    refusals address size (place :: later) ++ record =
      refusals address size later ++ (.shown place address size false :: record) :=
  List.append_assoc ..

lemma added_refusals (front : List Place) : added (refusals address size front) = [] := by
  induction front with
  | nil => rfl
  | cons place later ih =>
    show added (refusals address size later ++ [.shown place address size false]) = []
    rw [added_append, ih, List.append_nil]
    rfl

/-- `refusals` close no loan. -/
lemma loans_refusals (front : List Place) :
    loans (refusals address size front ++ record) = loans record := by
  induction front generalizing record with
  | nil => rfl
  | cons place later ih =>
    rw [refusals_cons_append, ih]
    rfl

/-- In an `Honest` record, a strategy that refuses an address does not have it on loan. -/
lemma not_mem_of_refusals {front : List Place}
    (hhonest : Honest (refusals address size front ++ record)) {x : Loan} (hx : x ∈ loans record)
    (haddress : x.address = address) {s : Strategy} (hs : x.place = .nested s) :
    x.place ∉ front := by
  induction front generalizing record with
  | nil => exact List.not_mem_nil
  | cons place later ih =>
    rw [refusals_cons_append] at hhonest
    intro hmem
    rcases List.mem_cons.1 hmem with heq | hmem
    · have hfair := hhonest.of_append.1
      rw [← heq, hs] at hfair
      exact Bool.false_ne_true ((hfair x hx haddress).2 hs)
    · exact ih hhonest hx hmem

/-- In an `Honest` record, the address goes to the member that it is on loan from. -/
lemma TakenBy.eq_lender {wiring : Allocator.Wiring} {chain : Chain} {taker : Place}
    {after : List Entry} (h : TakenBy (wiring.places chain) taker address size record after)
    (hhonest : Honest after) {x : Loan} (hx : x ∈ loans record) (haddress : x.address = address)
    (hplace : x.place ∈ wiring.places chain) : taker = x.place := by
  obtain ⟨front, rest, hsplit, rfl⟩ := h
  cases taker with
  | nested s =>
    have hloan : x ∈ loans (refusals address size front ++ record) := by
      rwa [loans_refusals]
    have hfair := hhonest.1
    exact ((hfair x hloan haddress).1 rfl).symm
  | backstop heap =>
    -- the heap takes anything, but whoever is in front of it has refused
    rw [hsplit] at hplace
    rcases List.mem_append.1 hplace with hfront | hplace
    · obtain ⟨s, hs⟩ := Allocator.Wiring.nested_of_places hsplit _ hfront
      exact absurd hfront (not_mem_of_refusals hhonest.2 hx haddress hs)
    · rcases List.mem_cons.1 hplace with heq | hrest
      · exact heq.symm
      · -- a heap has nobody behind it
        obtain ⟨between, behind, rfl⟩ := List.append_of_mem hrest
        rw [← List.cons_append, ← List.append_assoc] at hsplit
        obtain ⟨s, hs⟩ := Allocator.Wiring.nested_of_places hsplit (.backstop heap)
          (List.mem_append_right _ (List.mem_cons_self ..))
        exact Place.noConfusion hs

/-! ## Walks of recorded actions -/

namespace World

variable {σ : Type} [System σ]

/-- `ask` writes down whom it asks, and a heap offers only what it `Accepts`. -/
theorem ask_spec (links : Links σ) (size : Nat) (affinity : Affinity) (place : Place)
    (before : World σ × List Entry) :
    Ends (ask links size affinity place) before fun answer after =>
      after.2 = .asked place size affinity answer :: before.2 ∧
        ∀ address, answer = some address → ∀ heap, place = .backstop heap →
          heap.Accepts size := by
  refine ⟨rfl, fun address hanswer heap hplace => ?_⟩
  subst hplace
  exact heap.accepts_of_allocate size before.1.memory address hanswer

/-- `showTo` writes down to whom it shows an address, and a heap takes what it `Accepts`. -/
theorem showTo_spec (links : Links σ) (address size : Nat) (place : Place)
    (before : World σ × List Entry) :
    Ends (showTo links address size place) before fun taken after =>
      after.2 = .shown place address size taken :: before.2 ∧
        ∀ heap, place = .backstop heap → heap.Accepts size → taken = true := by
  refine ⟨rfl, fun heap hplace haccepts => ?_⟩
  subst hplace
  exact Heap.deallocate_taken haccepts address before.1.memory

/-- `serveRecorded` writes down exchanges that are `Walks` along the members of a chain. -/
theorem serveRecorded_spec (links : Links σ) (size : Nat) (affinity : Affinity) (alignment : Nat)
    (places : List Place) (before : World σ × List Entry) :
    Ends (serveRecorded links size affinity alignment places) before fun answer after =>
      ∃ exchanges, after.2 = written size affinity exchanges ++ before.2 ∧
        Walks alignment places exchanges answer ∧ ∀ x ∈ exchanges, x.Covered size := by
  induction places generalizing before with
  | nil => exact ⟨[], rfl, .nil, by simp⟩
  | cons place rest ih =>
    -- an exchange that the walk passes, and then what comes of the rest
    have hrest : ∀ (x : Exchange) (after : World σ × List Entry), x.place = place →
        after.2 = x.entries size affinity ++ before.2 → x.Passes alignment → x.Covered size →
        Ends (serveRecorded links size affinity alignment rest) after fun answer last =>
          ∃ exchanges, last.2 = written size affinity exchanges ++ before.2 ∧
            Walks alignment (place :: rest) exchanges answer ∧ ∀ x ∈ exchanges, x.Covered size := by
      intro x after hplace hafter hpasses hcovers
      refine (ih after).mono ?_
      rintro answer last ⟨exchanges, hlast, hwalks, hcovered⟩
      refine ⟨x :: exchanges, ?_, hplace ▸ hwalks.cons hpasses, ?_⟩
      · rw [written_cons_append, ← hafter, hlast]
      · exact List.forall_mem_cons.2 ⟨hcovers, hcovered⟩
    unfold serveRecorded
    refine (ask_spec links size affinity place before).bind ?_
    rintro (_ | address) after₁ ⟨h₁, haccepts⟩
    · exact hrest (.declined place) after₁ rfl h₁ trivial trivial
    · simp only
      split
      · rename_i hnot
        refine (ends_unrecorded _ after₁).bind fun _ after₂ h₂ => ?_
        refine (showTo_spec links address size place after₂).bind fun taken after₃ h₃ => ?_
        refine hrest (.sentBack place address taken) after₃ rfl ?_ (not_meets_iff.2 hnot) ?_
        · rw [h₃.1, h₂, h₁]
          rfl
        · cases place with
          | nested s => exact trivial
          | backstop heap => exact h₃.2 heap rfl (haccepts address rfl heap rfl)
      · rename_i hmeets
        have hmeets : Meets alignment address :=
          not_not.1 fun hnot => hmeets (not_meets_iff.1 hnot)
        refine (ends_unrecorded _ after₁).bind fun _ after₂ h₂ => ?_
        refine ⟨[.served place address], ?_, .served place hmeets, ?_⟩
        · show after₂.2 = _
          rw [h₂, h₁]
          rfl
        · intro x hx
          rw [List.mem_singleton.1 hx]
          cases place with
          | nested s => exact trivial
          | backstop heap => exact haccepts address rfl heap rfl

/-- `returnRecorded` writes down `refusals` up to the member that takes the address. -/
theorem returnRecorded_spec (links : Links σ) (address size : Nat) (places : List Place)
    (before : World σ × List Entry) :
    Ends (returnRecorded links address size places) before fun answer after =>
      match answer with
      | some _ => ∃ place, TakenBy places place address size before.2 after.2
      | none => after.2 = refusals address size places ++ before.2 ∧
          ∀ heap, .backstop heap ∈ places → ¬ heap.Accepts size := by
  induction places generalizing before with
  | nil => exact ⟨rfl, by simp⟩
  | cons place rest ih =>
    unfold returnRecorded
    refine (showTo_spec links address size place before).bind ?_
    rintro taken after₁ ⟨h₁, htakes⟩
    cases taken with
    | true => exact ⟨place, [], rest, rfl, h₁⟩
    | false =>
      refine (ih after₁).mono ?_
      rintro (_ | s) after h
      · obtain ⟨hafter, hnone⟩ := h
        refine ⟨?_, fun heap hheap haccepts => ?_⟩
        · rw [refusals_cons_append, hafter, h₁]
        · rcases List.mem_cons.1 hheap with heq | hheap
          · exact Bool.false_ne_true (htakes heap heq.symm haccepts)
          · exact hnone heap hheap haccepts
      · obtain ⟨taker, front, behind, hsplit, hafter⟩ := h
        refine ⟨taker, place :: front, behind, by rw [hsplit, List.cons_append], ?_⟩
        rw [refusals_cons_append, ← h₁, hafter]

/-- `allocateRecorded` writes nothing if the group serves, and `Walks` along the chain otherwise. -/
theorem allocateRecorded_spec (links : Links σ) (id : Nat) (a : Allocator) (chain : Chain)
    (size : Nat) (affinity : Affinity) (before : World σ × List Entry) :
    Ends (allocateRecorded links id a chain size affinity) before fun answer after =>
      match (a.allocatePooled size affinity before.1.memory).1.1 with
      | .ok _ => after.2 = before.2
      | .error reason => ∃ exchanges offered,
          answer = offered.elim (.error reason) .ok ∧
            after.2 = written size affinity exchanges ++ before.2 ∧
            Walks (a.alignmentFor affinity) (a.wiring.places chain) exchanges offered ∧
            ∀ x ∈ exchanges, x.Covered size := by
  have hframe := a.allocatePooled_frame size affinity before.1.memory
  have hpool : Ends (unrecorded (onMemory (a.allocatePooled size affinity))) before
      fun out after => out = (a.allocatePooled size affinity before.1.memory).1 ∧
        out.2.wiring = a.wiring ∧ out.2.alignmentFor affinity = a.alignmentFor affinity ∧
        after.2 = before.2 := ⟨rfl, hframe.1, hframe.2, rfl⟩
  unfold allocateRecorded
  refine hpool.bind ?_
  rintro ⟨answer, a'⟩ after₁ ⟨hout, hwiring, halignment, h₁⟩
  refine (ends_unrecorded _ after₁).bind fun _ after₂ h₂ => ?_
  rw [← hout]
  cases answer with
  | ok address => exact h₂.trans h₁
  | error reason =>
    simp only
    rw [hwiring, halignment]
    refine (serveRecorded_spec links size affinity _ _ after₂).bind ?_
    rintro offered after₃ ⟨exchanges, h₃, hwalks, hcovered⟩
    rw [h₂, h₁] at h₃
    cases offered with
    | some address => exact ⟨exchanges, some address, rfl, h₃, hwalks, hcovered⟩
    | none => exact ⟨exchanges, none, rfl, h₃, hwalks, hcovered⟩

/-- `deallocateRecorded` writes nothing if a block contains the address, and otherwise who it is
`TakenBy`. -/
theorem deallocateRecorded_spec (links : Links σ) (id : Nat) (a : Allocator) (chain : Chain)
    (address size : Nat) (before : World σ × List Entry) :
    Ends (deallocateRecorded links id a chain address size) before fun answer after =>
      (a.owns address = true ∧ after.2 = before.2) ∨
        (answer = true ∧
          ∃ place, TakenBy (a.wiring.places chain) place address size before.2 after.2) ∨
        (after.2 = refusals address size (a.wiring.places chain) ++ before.2 ∧
          ∀ heap, .backstop heap ∈ a.wiring.places chain → ¬ heap.Accepts size) := by
  have hframe := a.deallocatePooled_frame address size before.1.memory
  have hpool : Ends (unrecorded (onMemory (a.deallocatePooled address size))) before
      fun out after => out.2.wiring = a.wiring ∧ (out.1 = true → a.owns address = true) ∧
        after.2 = before.2 := ⟨hframe.1, hframe.2, rfl⟩
  unfold deallocateRecorded
  refine hpool.bind ?_
  rintro ⟨known, a'⟩ after₁ ⟨hwiring, howns, h₁⟩
  refine (ends_unrecorded _ after₁).bind fun _ after₂ h₂ => ?_
  cases known with
  | true => exact .inl ⟨howns rfl, h₂.trans h₁⟩
  | false =>
    simp only
    rw [hwiring]
    refine (returnRecorded_spec links address size _ after₂).bind ?_
    rw [h₂, h₁]
    rintro (_ | s) after₃ h₃
    · cases chain with
      | owned => exact .inr (.inr h₃)
      | full =>
        refine (ends_unrecorded _ after₃).bind fun _ _ h₄ => ?_
        exact .inr (.inr ⟨h₄.trans h₃.1, h₃.2⟩)
    · obtain ⟨place, h₃⟩ := h₃
      refine (ends_unrecorded _ after₃).bind fun _ after₄ h₄ => .inr (.inl ⟨rfl, place, ?_⟩)
      rwa [← h₄] at h₃

end World

end BlockPool
