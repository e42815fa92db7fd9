import BlockPool.Proofs.World.Exchange

/-!
# What may happen to an allocator

The life of one allocator in a world, with the record of what it asks its fallbacks: requests and
returns, whoever makes them, changes of its settings, further strategies, and anything that happens
elsewhere. Every sequence of actions on a world is such a run for each allocator that does not
start anew in it.
-/

namespace BlockPool.World

variable {σ : Type} [System σ] {w w' : World σ} {record : List Entry}

/-! ## Moves -/

/-- Whether an action compacts an allocator or changes its settings. -/
def Tunes (id : Nat) : Step → Prop
  | .compact j | .setBlockSize j .. | .configureGroup j _ | .setTracking j _ => j = id
  | _ => False

/-- What may happen next to an allocator: a request, a return, a step that `Tunes` it, a further
strategy, and anything that leaves it alone. An address may be `kept`, which is then not
returned. -/
inductive Move (id : Nat) (kept : Option Nat) :
    World σ × List Entry → World σ × List Entry → Prop where
  | allocate {w : World σ} {record : List Entry} {a : Allocator} (ha : w.allocator? id = some a)
      (depth : Nat) (chain : Chain) (size : Nat) (affinity : Affinity) :
      Move id kept (w, record)
        (allocateRecorded (.upTo depth) id a chain size affinity (w, record)).2
  | deallocate {w : World σ} {record : List Entry} {a : Allocator} (ha : w.allocator? id = some a)
      (depth : Nat) (chain : Chain) {address : Nat} (size : Nat) (hkept : kept ≠ some address) :
      Move id kept (w, record)
        (deallocateRecorded (.upTo depth) id a chain address size (w, record)).2
  | tune {w : World σ} {record : List Entry} {s : Step} (hs : Tunes id s) :
      Move id kept (w, record) ((step s w).2, record)
  | add {w : World σ} {record : List Entry} (s : Strategy) :
      Move id kept (w, record) ((step (.addStrategy id s) w).2, .added s :: record)
  | elsewhere {w w' : World σ} {record : List Entry} (h : w'.allocator? id = w.allocator? id) :
      Move id kept (w, record) (w', record)

/-- What may happen to an allocator over time, `Move` after `Move`. -/
abbrev Run (id : Nat) (kept : Option Nat) :
    World σ × List Entry → World σ × List Entry → Prop :=
  Relation.ReflTransGen (Move id kept)

variable {id : Nat} {before after : World σ × List Entry} {kept : Option Nat}

/-- `allocateRecorded` writes down a walk and keeps the `wiring`. -/
lemma allocateRecorded_frame {a : Allocator} (ha : w.allocator? id = some a)
    (record : List Entry) (depth : Nat) (chain : Chain) (size : Nat) (affinity : Affinity) :
    Ends (allocateRecorded (.upTo depth) id a chain size affinity) (w, record) fun _ after =>
      (∃ exchanges, after.2 = written size affinity exchanges ++ record) ∧
        ∃ a', after.1.allocator? id = some a' ∧ a'.wiring = a.wiring := by
  have hplan := (plan_allocateWith ha depth chain size affinity).apply
    (erases_allocateRecorded (.upTo depth) id a chain size affinity w record)
  have hspec := allocateRecorded_spec (.upTo depth) id a chain size affinity (w, record)
  refine ⟨?_, exists_allocator_of_plan_eq hplan ha⟩
  unfold Ends at hspec
  split at hspec
  · exact ⟨[], hspec⟩
  · obtain ⟨exchanges, offered, -, hafter, -⟩ := hspec
    exact ⟨exchanges, hafter⟩

/-- `deallocateRecorded` closes no loan of another address and keeps the `wiring`. -/
lemma deallocateRecorded_frame {a : Allocator} (ha : w.allocator? id = some a)
    (record : List Entry) (depth : Nat) (chain : Chain) (address size : Nat) :
    Ends (deallocateRecorded (.upTo depth) id a chain address size) (w, record) fun _ after =>
      (∃ more, after.2 = more ++ record ∧ added more = []) ∧
        (∀ x ∈ loans record, x.address ≠ address → x ∈ loans after.2) ∧
        ∃ a', after.1.allocator? id = some a' ∧ a'.wiring = a.wiring := by
  have hplan := (plan_deallocateWith ha depth chain address size).apply
    (erases_deallocateRecorded (.upTo depth) id a chain address size w record)
  have hspec := deallocateRecorded_spec (.upTo depth) id a chain address size (w, record)
  refine ⟨?_, fun x hx hne => ?_, exists_allocator_of_plan_eq hplan ha⟩
  · rcases hspec with ⟨-, hafter⟩ | ⟨-, place, front, rest, -, hafter⟩ | ⟨hafter, -⟩
    · exact ⟨[], hafter, rfl⟩
    · exact ⟨.shown place address size true :: refusals address size front, hafter,
        added_refusals front⟩
    · exact ⟨refusals address size (a.wiring.places chain), hafter, added_refusals _⟩
  · rcases hspec with ⟨-, hafter⟩ | ⟨-, place, front, rest, -, hafter⟩ | ⟨hafter, -⟩
    · rwa [hafter]
    · rw [hafter]
      apply mem_loans_shown hne
      rwa [loans_refusals]
    · rwa [hafter, loans_refusals]

/-- A step that `Tunes` an allocator keeps its `wiring`. -/
lemma tune_frame {a : Allocator} (ha : w.allocator? id = some a) {s : Step} (hs : Tunes id s) :
    Ends (step s) w fun _ w' => ∃ a', w'.allocator? id = some a' ∧ a'.wiring = a.wiring := by
  have hnone : w.allocator? id = none → ∃ a', w.allocator? id = some a' ∧ a'.wiring = a.wiring :=
    fun _ => ⟨a, ha, rfl⟩
  -- an action on the allocator that is there need only leave its fallbacks alone
  have hchange : ∀ action : Allocator → MemoryM σ Allocator,
      (∀ b m, Ends (action b) m fun a' _ => a'.wiring = b.wiring) →
        Ends (change id action) w fun _ w' =>
          ∃ a', w'.allocator? id = some a' ∧ a'.wiring = a.wiring := by
    intro action haction
    refine ends_change hnone fun b hb => (haction b _).mono fun a' m' hwiring => ?_
    obtain rfl : b = a := Option.some.inj (hb.symm.trans ha)
    exact exists_after_update ha m' hwiring
  cases s with
  | compact j =>
    obtain rfl : j = id := hs
    refine Ends.map (ends_onAllocator hnone fun b hb => (b.compact_frame _).mono ?_)
    rintro ⟨bytes, a'⟩ m' hwiring
    obtain rfl : b = a := Option.some.inj (hb.symm.trans ha)
    exact exists_after_update ha m' hwiring
  | setBlockSize j affinity blockSize =>
    obtain rfl : j = id := hs
    exact hchange _ fun b m => b.setBlockSize_frame affinity blockSize m
  | configureGroup j group =>
    obtain rfl : j = id := hs
    exact hchange _ fun b m => b.configureGroup_frame group m
  | setTracking j tracking =>
    obtain rfl : j = id := hs
    exact hchange _ fun b m => rfl
  | _ => exact False.elim hs

/-- `addStrategy` puts a strategy behind the others of the `wiring`. -/
lemma addStrategy_frame {a : Allocator} (ha : w.allocator? id = some a) (s : Strategy) :
    Ends (step (.addStrategy id s)) w fun _ w' =>
      ∃ a', w'.allocator? id = some a' ∧ a'.wiring = a.wiring.extend [s] := by
  refine ends_change (fun hnone => ?_) fun b hb => ?_
  · rw [ha] at hnone
    exact absurd hnone (Option.some_ne_none a)
  · obtain rfl : b = a := Option.some.inj (hb.symm.trans ha)
    exact exists_after_update ha w.memory rfl

/-- A `Move` extends the `wiring` by the strategies that it adds. -/
lemma Move.extends (h : Move id kept before after) {a : Allocator}
    (ha : before.1.allocator? id = some a) :
    ∃ more a', after.2 = more ++ before.2 ∧ after.1.allocator? id = some a' ∧
      a'.wiring = a.wiring.extend (added more) := by
  cases h with
  | @allocate w record b hb depth chain size affinity =>
    obtain rfl : b = a := Option.some.inj (hb.symm.trans ha)
    obtain ⟨⟨exchanges, hafter⟩, a', ha', hwiring⟩ :=
      allocateRecorded_frame hb record depth chain size affinity
    refine ⟨written size affinity exchanges, a', hafter, ha', ?_⟩
    rw [added_written, b.wiring.extend_nil, hwiring]
  | @deallocate w record b hb depth chain address size hkept =>
    obtain rfl : b = a := Option.some.inj (hb.symm.trans ha)
    obtain ⟨⟨more, hafter, hnone⟩, -, a', ha', hwiring⟩ :=
      deallocateRecorded_frame hb record depth chain address size
    refine ⟨more, a', hafter, ha', ?_⟩
    rw [hnone, b.wiring.extend_nil, hwiring]
  | tune hs =>
    obtain ⟨a', ha', hwiring⟩ := tune_frame ha hs
    exact ⟨[], a', rfl, ha', hwiring.trans a.wiring.extend_nil.symm⟩
  | add s =>
    obtain ⟨a', ha', hwiring⟩ := addStrategy_frame ha s
    exact ⟨[.added s], a', rfl, ha', hwiring⟩
  | elsewhere hsame =>
    refine ⟨[], a, rfl, hsame.trans ha, ?_⟩
    exact a.wiring.extend_nil.symm

/-- A `Run` extends the `wiring` by the strategies added in it, in the order in which they were. -/
lemma Run.extends (h : Run id kept before after) {a : Allocator}
    (ha : before.1.allocator? id = some a) :
    ∃ more a', after.2 = more ++ before.2 ∧ after.1.allocator? id = some a' ∧
      a'.wiring = a.wiring.extend (added more) := by
  induction h with
  | refl => exact ⟨[], a, rfl, ha, a.wiring.extend_nil.symm⟩
  | tail _ hmove ih =>
    obtain ⟨more, b, hmiddle, hb, hwiring⟩ := ih
    obtain ⟨more', b', hafter, hb', hwiring'⟩ := hmove.extends hb
    refine ⟨more' ++ more, b', ?_, hb', ?_⟩
    · rw [hafter, hmiddle, List.append_assoc]
    · rw [hwiring', hwiring, Allocator.Wiring.extend_extend, added_append]

/-- In an `Honest` record, a `Move` leaves on loan what is at the address kept. -/
lemma Move.mem_loans {address : Nat} (h : Move id (some address) before after)
    (hhonest : Honest after.2) {x : Loan} (hx : x ∈ loans before.2)
    (haddress : x.address = address) : x ∈ loans after.2 := by
  cases h with
  | @allocate w record b hb depth chain size affinity =>
    obtain ⟨⟨exchanges, hafter⟩, -⟩ := allocateRecorded_frame hb record depth chain size affinity
    rw [hafter] at hhonest ⊢
    exact mem_loans_written hhonest hx
  | @deallocate w record b hb depth chain returned size hkept =>
    obtain ⟨-, hloans, -⟩ := deallocateRecorded_frame hb record depth chain returned size
    apply hloans x hx
    rintro rfl
    exact hkept (congrArg some haddress.symm)
  | tune hs => exact hx
  | add s => exact hx
  | elsewhere hsame => exact hx

/-- In an `Honest` record, a `Run` leaves on loan what is at the address kept, by induction on its
moves. -/
lemma Run.mem_loans {address : Nat} (h : Run id (some address) before after)
    {a : Allocator} (ha : before.1.allocator? id = some a) (hhonest : Honest after.2) {x : Loan}
    (hx : x ∈ loans before.2) (haddress : x.address = address) : x ∈ loans after.2 := by
  induction h with
  | refl => exact hx
  | @tail middle last hrun hmove ih =>
    obtain ⟨-, b, -, hb, -⟩ := Run.extends hrun ha
    obtain ⟨more, -, hlast, -⟩ := hmove.extends hb
    -- what is written only grows, so an honest record was honest all along
    have hmiddle : Honest middle.2 := by
      rw [hlast] at hhonest
      exact hhonest.of_append
    exact hmove.mem_loans hhonest (ih hmiddle) haddress

/-! ## Every sequence of actions is a run -/

/-- Whatever the record is, `w'` comes after `w` in a `Run` of an allocator. -/
def Follows (id : Nat) (w w' : World σ) : Prop :=
  ∀ record, ∃ record', Run id none (w, record) (w', record')

/-- What leaves the allocator as it is `Follows`. -/
lemma follows_elsewhere (h : w'.allocator? id = w.allocator? id) : Follows id w w' :=
  fun record => ⟨record, .single (.elsewhere h)⟩

/-- `Follows` holds of nothing and of one thing after another, as `Passage` says. -/
lemma passage_follows (id : Nat) : Passage (Follows (σ := σ) id) where
  refl w record := ⟨record, .refl⟩
  trans h h' record := by
    obtain ⟨record₁, h₁⟩ := h record
    obtain ⟨record₂, h₂⟩ := h' record₁
    exact ⟨record₂, h₁.trans h₂⟩
  memory _ _ _ := follows_elsewhere rfl

/-- `update` of another allocator `Follows`. -/
lemma follows_update {j : Nat} {a : Allocator} (ha : w.allocator? j = some a) (hj : j ≠ id)
    (a' : Allocator) (m' : Memory σ) : Follows id w (w.update j a' m') := by
  apply follows_elsewhere
  rw [allocator?_update ha, if_neg (Ne.symm hj)]

/-- An action `Follows` if the recorded action is a `Move`. -/
lemma follows_of_erases {α : Type} {x : RecordedM σ α} {y : WorldM σ α} (hxy : Erases x y)
    (hmove : ∀ record, Move id none (w, record) (x (w, record)).2) :
    Ends y w fun _ w' => Follows id w w' := by
  intro record
  rw [hxy w record]
  exact ⟨(x (w, record)).2.2, .single (hmove record)⟩

/-- A request to an allocator is a `Move`, and for any other allocator a `Run` if its links are. -/
lemma follows_allocateWith {depth : Nat} (hlinks : (Links.upTo depth).Along (Follows (σ := σ) id))
    {j : Nat} {a : Allocator} (ha : w.allocator? j = some a) (chain : Chain) (size : Nat)
    (affinity : Affinity) :
    Ends (allocateWith (.upTo depth) j a chain size affinity) w fun _ w' => Follows id w w' := by
  by_cases hj : j = id
  · subst hj
    exact follows_of_erases (erases_allocateRecorded _ j a chain size affinity) fun record =>
      .allocate ha depth chain size affinity
  · refine hlinks.allocateWith (passage_follows id) ?_ chain
    exact Ends.trivial.mono fun _ m' _ => follows_update ha hj _ m'

/-- A return to an allocator is a `Move`, and for any other allocator a `Run` if its links are. -/
lemma follows_deallocateWith {depth : Nat}
    (hlinks : (Links.upTo depth).Along (Follows (σ := σ) id)) {j : Nat} {a : Allocator}
    (ha : w.allocator? j = some a) (chain : Chain) (address size : Nat) :
    Ends (deallocateWith (.upTo depth) j a chain address size) w fun _ w' => Follows id w w' := by
  by_cases hj : j = id
  · subst hj
    exact follows_of_erases (erases_deallocateRecorded _ j a chain address size) fun record =>
      .deallocate ha depth chain size (Option.some_ne_none address).symm
  · refine (hlinks.returnsAlong address size).deallocateWith (passage_follows id) ?_ chain
    exact Ends.trivial.mono fun _ m' _ => follows_update ha hj _ m'

lemma follows_upTo (id depth : Nat) : (Links.upTo depth : Links σ).Along (Follows id) :=
  along_upTo (passage_follows id)
    (fun _ ih _ _ _ ha => follows_allocateWith ih ha .owned)
    (fun _ ih _ _ _ ha => follows_deallocateWith ih ha .owned) depth

/-- Requests, returns and boxes are a `Run` for every allocator. -/
lemma requesting_follows (id : Nat) : Requesting (Follows (σ := σ) id) where
  toPassage := passage_follows id
  boxes _ _ := follows_elsewhere rfl
  allocate w _ chain size affinity :=
    ends_allocate (fun _ => (passage_follows id).refl w) fun _ ha =>
      follows_allocateWith (follows_upTo id _) ha chain size affinity
  deallocate w _ chain address size :=
    ends_deallocate (fun _ => (passage_follows id).refl w) fun _ ha =>
      follows_deallocateWith (follows_upTo id _) ha chain address size

/-- What is done with another allocator is done elsewhere, so it `Follows`. -/
lemma follows_onAllocator {α : Type} {j : Nat} (hj : j ≠ id)
    (action : Allocator → MemoryM σ (α × Allocator)) (w : World σ) :
    Ends (onAllocator j action) w fun _ w' => Follows id w w' :=
  ends_onAllocator (fun _ => (passage_follows id).refl w) fun _ ha =>
    Ends.trivial.mono fun _ _ _ => follows_update ha hj _ _

lemma follows_change {j : Nat} (hj : j ≠ id) (action : Allocator → MemoryM σ Allocator)
    (w : World σ) : Ends (change j action) w fun _ w' => Follows id w w' :=
  ends_change (fun _ => (passage_follows id).refl w) fun _ ha =>
    Ends.trivial.mono fun _ _ _ => follows_update ha hj _ _

/-! ## Steps -/

/-- A step is a `Run` for every allocator that it does not reset. -/
theorem follows_step {s : Step} (hs : ∀ settings, s ≠ .reset id settings) (w : World σ) :
    Ends (step s) w fun _ w' => Follows id w w' := by
  have hR : Requesting (Follows (σ := σ) id) := requesting_follows id
  have htune : Tunes id s → Follows id w (step s w).2 :=
    fun htunes record => ⟨record, .single (.tune htunes)⟩
  cases s with
  | allocate j chain size affinity => exact Ends.map (hR.allocate w j chain size affinity)
  | deallocate j chain address size => exact Ends.map (hR.deallocate w j chain address size)
  | compact j =>
    by_cases hj : j = id
    · exact htune hj
    · exact Ends.map (follows_onAllocator hj Allocator.compact w)
  | setBlockSize j affinity blockSize =>
    by_cases hj : j = id
    · exact htune hj
    · exact follows_change hj _ w
  | configureGroup j group =>
    by_cases hj : j = id
    · exact htune hj
    · exact follows_change hj _ w
  | setTracking j tracking =>
    by_cases hj : j = id
    · exact htune hj
    · exact follows_change hj _ w
  | addStrategy j strategy =>
    by_cases hj : j = id
    · subst hj
      exact fun record => ⟨_, .single (.add strategy)⟩
    · exact follows_change hj _ w
  | reset j settings =>
    have hj : j ≠ id := fun heq => hs settings (congrArg (Step.reset · settings) heq)
    exact follows_change hj _ w
  | newBoxed j layout value affinity =>
    exact Ends.map (hR.newBoxed j layout value affinity w)
  | replaceBoxed index value => exact Ends.map (hR.replaceBoxed index value w)
  | dropBoxed index =>
    refine (hR.dropBoxed index w).bind fun found w₁ h₁ => ?_
    cases found <;> exact h₁
  | unbox index => exact Ends.map (hR.unbox index w)

/-- Whatever is done with a world is a `Run` for every allocator that does not start anew. -/
theorem exists_run (id : Nat) (steps : List Step)
    (hsteps : ∀ s ∈ steps, ∀ settings, s ≠ .reset id settings) (w : World σ) :
    Ends (run steps) w fun _ w' => ∃ record, Run id none (w, []) (w', record) := by
  -- later steps start with what earlier ones wrote, so the induction leaves the record open
  have hfollows : ∀ w : World σ, Ends (run steps) w fun _ w' => Follows id w w' := by
    induction steps with
    | nil => exact (passage_follows id).refl
    | cons s rest ih =>
      intro w
      unfold run
      refine (follows_step (hsteps s (List.mem_cons_self ..)) w).bind fun answer w₁ h₁ => ?_
      refine (ih (fun s' hs' => hsteps s' (List.mem_cons_of_mem _ hs')) w₁).bind fun _ w₂ h₂ => ?_
      exact (passage_follows id).trans h₁ h₂
  exact (hfollows w).mono fun _ _ h => h []

end BlockPool.World
