import BlockPool.Proofs.World.Steady

/-!
# Records of what fallbacks are asked

An allocator writes down nowhere whom it asked and what it was answered. Here that is a record kept
beside the world: an entry for each time that a strategy is asked for memory or shown an address,
and for each strategy that is added. The recorded actions do to the world what the actions do, and
the record tells which memory is on loan from which strategy.
-/

namespace BlockPool

/-- A member of a chain. -/
inductive Place where
  | nested (s : Strategy)
  | backstop (h : Heap)
deriving DecidableEq

/-- The strategy at a place. -/
def Place.strategy : Place → Strategy
  | nested s => s
  | backstop h => .heap h

namespace Allocator.Wiring

/-- The members of a chain as `Place`s, in the order in which they are asked. -/
def places (x : Wiring) : Chain → List Place
  | .full => x.nested.map .nested ++ (x.backstop.map Place.backstop).toList
  | .owned => x.nested.map .nested

/-- The fallbacks with further strategies behind those that are nested. -/
def extend (x : Wiring) (more : List Strategy) : Wiring := ⟨x.nested ++ more, x.backstop⟩

/-- The `strategies` of a chain are those at its `places`. -/
lemma strategies_eq_map_places (x : Wiring) (chain : Chain) :
    x.strategies chain = (x.places chain).map Place.strategy := by
  have hnested : (x.nested.map Place.nested).map Place.strategy = x.nested := by
    rw [List.map_map]
    exact List.map_id _
  cases chain with
  | owned => exact hnested.symm
  | full =>
    unfold places strategies
    rw [List.map_append, hnested]
    cases x.backstop <;> rfl

/-- Only a nested strategy has others behind it among the `places`. -/
lemma nested_of_places {x : Wiring} {chain : Chain} {front rest : List Place} {last : Place}
    (h : x.places chain = front ++ last :: rest) : ∀ place ∈ front, ∃ s, place = .nested s := by
  have hmap : ∀ l : List Strategy, ∀ place ∈ l.map Place.nested, ∃ s, place = .nested s := by
    intro l place hplace
    obtain ⟨s, -, rfl⟩ := List.mem_map.1 hplace
    exact ⟨s, rfl⟩
  intro place hplace
  cases chain with
  | owned =>
    apply hmap x.nested
    show place ∈ x.places .owned
    rw [h]
    exact List.mem_append_left _ hplace
  | full =>
    apply hmap x.nested
    cases hback : x.backstop with
    | none =>
      have hplaces : x.places .full = x.nested.map .nested := by
        unfold places
        rw [hback]
        exact List.append_nil _
      rw [← hplaces, h]
      exact List.mem_append_left _ hplace
    | some heap =>
      -- the heap is the last member, so nothing but nested strategies is in front of a member
      have hplaces : x.nested.map .nested ++ [.backstop heap] = front ++ last :: rest := by
        rw [← h]
        unfold places
        rw [hback]
        rfl
      have hdrop := congrArg List.dropLast hplaces
      rw [List.dropLast_concat, List.dropLast_append_of_ne_nil (List.cons_ne_nil _ _)] at hdrop
      rw [hdrop]
      exact List.mem_append_left _ hplace

/-- `extend` takes no member from a chain. -/
lemma places_subset_extend (x : Wiring) (more : List Strategy) (chain : Chain) :
    x.places chain ⊆ (x.extend more).places chain := by
  intro place hplace
  cases chain with
  | owned =>
    show place ∈ (x.nested ++ more).map Place.nested
    rw [List.map_append]
    exact List.mem_append_left _ hplace
  | full =>
    show place ∈ (x.nested ++ more).map Place.nested ++ (x.backstop.map Place.backstop).toList
    rw [List.map_append, List.append_assoc]
    rcases List.mem_append.1 hplace with hplace | hplace
    · exact List.mem_append_left _ hplace
    · exact List.mem_append_right _ (List.mem_append_right _ hplace)

lemma extend_nil (x : Wiring) : x.extend [] = x := by
  unfold extend
  rw [List.append_nil]

lemma extend_extend (x : Wiring) (more more' : List Strategy) :
    (x.extend more).extend more' = x.extend (more ++ more') := by
  unfold extend
  rw [List.append_assoc]

end Allocator.Wiring

/-! ## Records -/

/-- What happens between an allocator and its fallbacks. -/
inductive Entry where
  | added (s : Strategy)
  | asked (place : Place) (size : Nat) (affinity : Affinity) (answer : Option Nat)
  | shown (place : Place) (address size : Nat) (taken : Bool)
deriving DecidableEq

/-- Memory that a member of a chain handed out and has not taken back. -/
structure Loan where
  place : Place
  address : Nat
  size : Nat
deriving DecidableEq

/-- The strategies `added` in a record, in the order in which they were. The latest entry of a
record is the first. -/
def added : List Entry → List Strategy
  | [] => []
  | .added s :: earlier => added earlier ++ [s]
  | _ :: earlier => added earlier

/-- The loans that are open at the end of a record: what was `asked` for and answered, but for what
was `shown` and taken since. -/
def loans : List Entry → List Loan
  | [] => []
  | .asked place size _ (some address) :: earlier => ⟨place, address, size⟩ :: loans earlier
  | .shown place address _ true :: earlier =>
    (loans earlier).filter fun x => ¬ (x.place = place ∧ x.address = address)
  | _ :: earlier => loans earlier

/-- What may be relied on in an entry after earlier ones: memory on loan is not handed out again,
and of the memory on loan a nested strategy takes back its own and no other. What it does with an
address that is not on loan is left open, since it may serve others too. -/
def Entry.Fair (earlier : List Entry) : Entry → Prop
  | .asked _ _ _ (some address) => ∀ x ∈ loans earlier, x.address ≠ address
  | .shown (.nested s) address _ taken =>
    ∀ x ∈ loans earlier, x.address = address → (taken = true ↔ x.place = .nested s)
  | _ => True

instance (earlier : List Entry) : DecidablePred (Entry.Fair earlier)
  | .asked _ _ _ (some _) => inferInstanceAs (Decidable (∀ _ ∈ _, _))
  | .shown (.nested _) _ _ _ => inferInstanceAs (Decidable (∀ _ ∈ _, _ → (_ ↔ _)))
  | .added _ | .asked _ _ _ none | .shown (.backstop _) _ _ _ => inferInstanceAs (Decidable True)

/-- Every entry of a record is `Fair`: all strategies know what they have on loan. -/
def Honest : List Entry → Prop
  | [] => True
  | e :: earlier => e.Fair earlier ∧ Honest earlier

instance decideHonest : DecidablePred Honest
  | [] => inferInstanceAs (Decidable True)
  | _ :: earlier =>
    let _ := decideHonest earlier
    inferInstanceAs (Decidable (_ ∧ _))

variable {record more : List Entry}

/-- What was `added` in two records, one after the other. -/
lemma added_append (more record : List Entry) :
    added (more ++ record) = added record ++ added more := by
  induction more with
  | nil => exact (List.append_nil _).symm
  | cons e more ih =>
    cases e with
    | added s =>
      show added (more ++ record) ++ [s] = added record ++ (added more ++ [s])
      rw [ih, List.append_assoc]
    | asked place size affinity answer => exact ih
    | shown place address size taken => exact ih

/-- The earlier part of an `Honest` record is `Honest`. -/
lemma Honest.of_append (h : Honest (more ++ record)) : Honest record := by
  induction more with
  | nil => exact h
  | cons e more ih => exact ih h.2

/-- A loan stays open while its address is not shown to anybody. -/
lemma mem_loans_shown {x : Loan} {place : Place} {address size : Nat} {taken : Bool}
    (hne : x.address ≠ address) (hx : x ∈ loans record) :
    x ∈ loans (.shown place address size taken :: record) := by
  cases taken with
  | false => exact hx
  | true =>
    refine List.mem_filter.2 ⟨hx, ?_⟩
    exact decide_eq_true fun h => hne h.2

/-! ## Recorded actions -/

/-- An action on a `World` and the record beside it. -/
abbrev RecordedM (σ : Type) := StateM (World σ × List Entry)

namespace World

variable {σ : Type} {w : World σ} {α β : Type}

/-- An action of which nothing is written down. -/
def unrecorded (x : WorldM σ α) : RecordedM σ α := fun before =>
  ((x before.1).1, ((x before.1).2, before.2))

/-- An action of which an entry is written down. -/
def recorded (x : WorldM σ α) (entry : α → Entry) : RecordedM σ α := fun before =>
  ((x before.1).1, ((x before.1).2, entry (x before.1).1 :: before.2))

lemma ends_unrecorded (x : WorldM σ α) (before : World σ × List Entry) :
    Ends (unrecorded x) before fun _ after => after.2 = before.2 := rfl

section Actions

variable [System σ]

/-- `offer` of a member of a chain, of which an entry `asked` is written down. -/
def ask (links : Links σ) (size : Nat) (affinity : Affinity) (place : Place) :
    RecordedM σ (Option Nat) :=
  recorded (offer links size affinity place.strategy) (.asked place size affinity)

/-- `offerBack` to a member of a chain, of which an entry `shown` is written down. -/
def showTo (links : Links σ) (address size : Nat) (place : Place) : RecordedM σ Bool :=
  recorded (offerBack links address size place.strategy) (.shown place address size)

/-- `serveFrom` some members, with a record. -/
def serveRecorded (links : Links σ) (size : Nat) (affinity : Affinity) (alignment : Nat) :
    List Place → RecordedM σ (Option Nat)
  | [] => pure none
  | place :: rest => do
    match ← ask links size affinity place with
    | none => serveRecorded links size affinity alignment rest
    | some address =>
      if alignment.isPowerOfTwo ∧ address % alignment ≠ 0 then do
        unrecorded (onMemory
          (Memory.note (.fallbackMisaligned place.strategy.name address alignment)))
        let _ ← showTo links address size place
        serveRecorded links size affinity alignment rest
      else do
        unrecorded (onMemory
          (Memory.note (.servedByFallback address size affinity place.strategy.name)))
        pure (some address)

/-- `returnTo` some members, with a record. -/
def returnRecorded (links : Links σ) (address size : Nat) :
    List Place → RecordedM σ (Option Strategy)
  | [] => pure none
  | place :: rest => do
    if ← showTo links address size place then pure (some place.strategy)
    else returnRecorded links address size rest

/-- `allocateWith`, with a record. -/
def allocateRecorded (links : Links σ) (id : Nat) (a : Allocator) (chain : Chain) (size : Nat)
    (affinity : Affinity) : RecordedM σ (Except AllocationError Nat) := do
  let (answer, a) ← unrecorded (onMemory (a.allocatePooled size affinity))
  unrecorded (setAllocator id a)
  match answer with
  | .ok address => pure (.ok address)
  | .error reason =>
    match ← serveRecorded links size affinity (a.alignmentFor affinity)
      (a.wiring.places chain) with
    | some address => pure (.ok address)
    | none =>
      unrecorded (onMemory (Memory.note (.exhausted size affinity)))
      pure (.error reason)

/-- `deallocateWith`, with a record. -/
def deallocateRecorded (links : Links σ) (id : Nat) (a : Allocator) (chain : Chain)
    (address size : Nat) : RecordedM σ Bool := do
  let (known, a) ← unrecorded (onMemory (a.deallocatePooled address size))
  unrecorded (setAllocator id a)
  if known then pure true
  else
    match ← returnRecorded links address size (a.wiring.places chain) with
    | some s =>
      unrecorded (onMemory
        (Memory.noteIf a.tracking.report (.returnedToFallback address size s.name)))
      pure true
    | none =>
      match chain with
      | .full => unrecorded (onMemory (Memory.note (.addressUnowned address size)))
      | .owned => pure ()
      pure false

end Actions

/-! ## The record has no part in what happens -/

/-- Without the record, the action `x` is `y`. -/
def Erases (x : RecordedM σ α) (y : WorldM σ α) : Prop :=
  ∀ w record, y w = ((x (w, record)).1, (x (w, record)).2.1)

namespace Erases

lemma unrecorded (x : WorldM σ α) : Erases (World.unrecorded x) x := fun _ _ => rfl

/-- Without the record, `World.recorded` is the action itself. -/
lemma recorded (x : WorldM σ α) (entry : α → Entry) : Erases (World.recorded x entry) x :=
  fun _ _ => rfl

lemma pure (a : α) : Erases (Pure.pure a : RecordedM σ α) (Pure.pure a) := fun _ _ => rfl

/-- `Erases` composes along `>>=`. -/
lemma bind {x : RecordedM σ α} {y : WorldM σ α} {f : α → RecordedM σ β} {g : α → WorldM σ β}
    (hx : Erases x y) (hf : ∀ a, Erases (f a) (g a)) : Erases (x >>= f) (y >>= g) := by
  intro w record
  rw [bind_apply_eq (hx w record)]
  exact hf _ _ _

end Erases

section Actions

variable [System σ] (links : Links σ)

/-- `serveRecorded` is `serveFrom` with a record. -/
lemma erases_serveRecorded (size : Nat) (affinity : Affinity) (alignment : Nat)
    (places : List Place) :
    Erases (serveRecorded links size affinity alignment places)
      (serveFrom links size affinity alignment (places.map Place.strategy)) := by
  induction places with
  | nil => exact .pure none
  | cons place rest ih =>
    rw [List.map_cons]
    unfold serveRecorded serveFrom
    refine (Erases.recorded _ _).bind fun answer => ?_
    cases answer with
    | none => exact ih
    | some address =>
      simp only
      split
      · exact (Erases.unrecorded _).bind fun _ => (Erases.recorded _ _).bind fun _ => ih
      · exact (Erases.unrecorded _).bind fun _ => .pure _

lemma erases_returnRecorded (address size : Nat) (places : List Place) :
    Erases (returnRecorded links address size places)
      (returnTo links address size (places.map Place.strategy)) := by
  induction places with
  | nil => exact .pure none
  | cons place rest ih =>
    rw [List.map_cons]
    unfold returnRecorded returnTo
    refine (Erases.recorded _ _).bind fun taken => ?_
    cases taken with
    | true => exact .pure _
    | false => exact ih

/-- `allocateRecorded` is `allocateWith` with a record. -/
lemma erases_allocateRecorded (id : Nat) (a : Allocator) (chain : Chain) (size : Nat)
    (affinity : Affinity) :
    Erases (allocateRecorded links id a chain size affinity)
      (allocateWith links id a chain size affinity) := by
  unfold allocateRecorded allocateWith
  refine (Erases.unrecorded _).bind fun ⟨answer, a'⟩ => (Erases.unrecorded _).bind fun _ => ?_
  cases answer with
  | ok address => exact .pure _
  | error reason =>
    simp only
    rw [a'.strategies_eq, a'.wiring.strategies_eq_map_places]
    refine (erases_serveRecorded links size affinity _ _).bind fun answer => ?_
    cases answer with
    | some address => exact .pure _
    | none => exact (Erases.unrecorded _).bind fun _ => .pure _

lemma erases_deallocateRecorded (id : Nat) (a : Allocator) (chain : Chain)
    (address size : Nat) :
    Erases (deallocateRecorded links id a chain address size)
      (deallocateWith links id a chain address size) := by
  unfold deallocateRecorded deallocateWith
  refine (Erases.unrecorded _).bind fun ⟨known, a'⟩ => (Erases.unrecorded _).bind fun _ => ?_
  cases known with
  | true => exact .pure _
  | false =>
    simp only
    rw [a'.strategies_eq, a'.wiring.strategies_eq_map_places]
    refine (erases_returnRecorded links address size _).bind fun answer => ?_
    cases answer with
    | some s => exact (Erases.unrecorded _).bind fun _ => .pure _
    | none =>
      cases chain with
      | full => exact (Erases.unrecorded _).bind fun _ => .pure _
      | owned => exact .pure _

end Actions

end World

end BlockPool
