import BlockPool.Proofs.Allocator.Steady
import BlockPool.Proofs.Past
import BlockPool.Proofs.World.Chain
import BlockPool.World.Step

/-!
# What can be said of every request and return

A request goes from one allocator to others along chains of fallbacks, and so does a return. What
can be said of the groups of each of them, and of anything that happens to the memory, can be said
of the whole walk. The first thing to say is that no walk changes a list of fallbacks, whatever the
state of the blocks is and whatever the system answers.
-/

namespace BlockPool

/-! ## Chains -/

namespace World

variable {σ : Type} {w w' : World σ}

/-- What `onAllocator` does is done with an allocator that is there, or not at all. -/
lemma ends_onAllocator {α : Type} {id : Nat} {action : Allocator → MemoryM σ (α × Allocator)}
    {post : Option α → World σ → Prop} (hnone : w.allocator? id = none → post none w)
    (hsome : ∀ a, w.allocator? id = some a →
      Ends (action a) w.memory fun out m' => post (some out.1) (w.update id out.2 m')) :
    Ends (onAllocator id action) w post := by
  unfold onAllocator
  apply Ends.get_bind
  split
  · rename_i hid
    exact hnone hid
  · rename_i a ha
    exact (ends_onMemory (hsome a ha)).bind fun _ _ h => h

lemma ends_onAllocator_there {α : Type} {id : Nat} {a : Allocator}
    {action : Allocator → MemoryM σ (α × Allocator)} {post : Option α → World σ → Prop}
    (ha : w.allocator? id = some a)
    (h : Ends (action a) w.memory fun out m' => post (some out.1) (w.update id out.2 m')) :
    Ends (onAllocator id action) w post := by
  refine ends_onAllocator (fun hnone => absurd (hnone.symm.trans ha) (by simp)) fun b hb => ?_
  obtain rfl : b = a := Option.some.inj (hb.symm.trans ha)
  exact h

/-- `ends_onAllocator` for `World.change`. -/
lemma ends_change {id : Nat} {action : Allocator → MemoryM σ Allocator}
    {post : World σ → Prop} (hnone : w.allocator? id = none → post w)
    (hsome : ∀ a, w.allocator? id = some a →
      Ends (action a) w.memory fun a' m' => post (w.update id a' m')) :
    Ends (change id action) w fun _ w' => post w' := by
  unfold change
  have hon : Ends (onAllocator id fun a => do
      let a ← action a
      pure ((), a)) w fun _ w' => post w' := by
    refine ends_onAllocator hnone fun a ha => ?_
    exact (hsome a ha).bind fun _ _ h => h
  exact hon.bind fun _ _ h => h

/-- There is an allocator of a number, and `p` holds of it. -/
def Has (w : World σ) (id : Nat) (p : Allocator → Prop) : Prop :=
  ∃ a, w.allocator? id = some a ∧ p a

section Has

variable {id j : Nat} {a a' : Allocator} {p q : Allocator → Prop}

lemma Has.holds (h : w.Has id p) (ha : w.allocator? id = some a) : p a := by
  obtain ⟨b, hb, hp⟩ := h
  rwa [Option.some.inj (ha.symm.trans hb)]

/-- `Has` survives `update`: what holds of the other allocators still does. -/
lemma Has.update (h : w.Has id p) (ha : w.allocator? j = some a)
    (hother : j ≠ id → ∀ b, p b → q b) (hself : j = id → p a → q a') (m : Memory σ) :
    (w.update j a' m).Has id q := by
  by_cases hj : j = id
  · subst hj
    exact ⟨a', (allocator?_update ha).trans (if_pos rfl), hself rfl (h.holds ha)⟩
  · obtain ⟨b, hb, hp⟩ := h
    exact ⟨b, by rw [allocator?_update ha, if_neg (Ne.symm hj), hb], hother hj b hp⟩

/-- `Has` survives where there is no allocator to be changed. -/
lemma Has.elsewhere (h : w.Has id p) (hnone : w.allocator? j = none)
    (hother : j ≠ id → ∀ b, p b → q b) : w.Has id q := by
  obtain ⟨a, ha, hp⟩ := h
  exact ⟨a, ha, hother (fun hj => absurd ((hj ▸ hnone).symm.trans ha) (by simp)) a hp⟩

/-- `Has` survives `World.change`: what holds of the other allocators still does. -/
lemma Has.change (h : w.Has id p) {action : Allocator → MemoryM σ Allocator}
    (hother : j ≠ id → ∀ b, p b → q b)
    (haction : ∀ a, j = id → p a → Ends (action a) w.memory fun a' _ => q a') :
    Ends (World.change j action) w fun _ w' => w'.Has id q := by
  refine ends_change (fun hnone => h.elsewhere hnone hother) fun a ha => ?_
  by_cases hj : j = id
  · refine (haction a hj (h.holds (hj ▸ ha))).mono fun a' m' hq => ?_
    exact h.update ha hother (fun _ _ => hq) m'
  · exact Ends.trivial.mono fun a' m' _ => h.update ha hother (fun heq => absurd heq hj) m'

end Has

/-- What may be said of a world before and after: that nothing happened, one thing after another,
and anything that happens to the memory alone and leaves its past as it is. -/
structure Passage (R : World σ → World σ → Prop) : Prop where
  refl (w : World σ) : R w w
  trans {w w' w'' : World σ} : R w w' → R w' w'' → R w w''
  memory (w : World σ) {m : Memory σ} :
    w.memory.Writes (fun _ => True) m → R w { w with memory := m }

/-- Links that only ever lead along `R`, whatever is asked. -/
structure Links.Along (links : Links σ) (R : World σ → World σ → Prop) : Prop where
  allocate (w : World σ) (id size : Nat) (affinity : Affinity) :
    Ends (links.allocate id size affinity) w fun _ w' => R w w'
  deallocate (w : World σ) (id address size : Nat) :
    Ends (links.deallocate id address size) w fun _ w' => R w w'

/-- Links that only ever lead along `R` when `address` is returned. -/
def Links.ReturnsAlong (links : Links σ) (R : World σ → World σ → Prop) (address size : Nat) :
    Prop :=
  ∀ w id, Ends (links.deallocate id address size) w fun _ w' => R w w'

section Walk

variable {R : World σ → World σ → Prop} {links : Links σ}

/-- A `Passage` allows what happens to the memory by an `Oblivious` action. -/
lemma Passage.onMemory {α : Type} (hR : Passage R) {x : MemoryM σ α}
    (hx : Memory.Oblivious x) (w : World σ) : Ends (World.onMemory x) w fun _ w' => R w w' :=
  hR.memory w (hx.writes w.memory)

lemma Passage.note (hR : Passage R) (notice : Notice) (w : World σ) :
    Ends (World.onMemory (Memory.note notice)) w fun _ w' => R w w' :=
  hR.onMemory (Memory.oblivious_note notice) w

/-- The groups of an allocator answer first, and only after that does `setAllocator` put it back. -/
lemma ends_onPool {α : Type} {id : Nat} {x : MemoryM σ (α × Allocator)}
    (post : α → World σ → Prop)
    (hx : Ends x w.memory fun out m' => post out.1 (w.update id out.2 m')) :
    Ends (onMemory x) w fun out w₁ => Ends (setAllocator id out.2) w₁ fun _ w₂ => post out.1 w₂ :=
  hx

variable [System σ]

/-! ### Returns -/

/-- `offerBack` is along a `Passage` if the links are. -/
lemma Links.ReturnsAlong.offerBack {address size : Nat}
    (hlinks : links.ReturnsAlong R address size) (hR : Passage R) (s : Strategy) (w : World σ) :
    Ends (World.offerBack links address size s) w fun _ w' => R w w' := by
  cases s with
  | allocator id owned => exact hlinks w id
  | heap heap => exact hR.onMemory (heap.plain_deallocate address size).oblivious w
  | foreign id name => exact hR.onMemory (Memory.Plain.returnForeign ..).oblivious w

/-- `returnTo` is along a `Passage` if the links are, by induction on the strategies. -/
lemma Links.ReturnsAlong.returnTo {address size : Nat}
    (hlinks : links.ReturnsAlong R address size) (hR : Passage R) (strategies : List Strategy)
    (w : World σ) :
    Ends (World.returnTo links address size strategies) w fun _ w' => R w w' := by
  induction strategies generalizing w with
  | nil => exact hR.refl w
  | cons s rest ih =>
    unfold World.returnTo
    refine (hlinks.offerBack hR s w).bind fun taken w₁ h₁ => ?_
    cases taken with
    | true => exact h₁
    | false => exact (ih w₁).mono fun _ _ h => hR.trans h₁ h

/-- `deallocateWith` is along a `Passage` if `deallocatePooled` and the links are. -/
lemma Links.ReturnsAlong.deallocateWith {address size : Nat}
    (hlinks : links.ReturnsAlong R address size) (hR : Passage R) {id : Nat} {a : Allocator}
    (hpool : Ends (a.deallocatePooled address size) w.memory fun out m' =>
      R w (w.update id out.2 m')) (chain : Chain) :
    Ends (World.deallocateWith links id a chain address size) w fun _ w' => R w w' := by
  unfold World.deallocateWith
  refine (ends_onPool (fun _ => R w) hpool).bind fun ⟨known, a'⟩ w₁ hset => ?_
  refine hset.bind fun _ w₂ h₂ => ?_
  cases known with
  | true => exact h₂
  | false =>
    refine (hlinks.returnTo hR _ w₂).bind fun answer w₃ h₃ => ?_
    cases answer with
    | some s =>
      refine (hR.onMemory (Memory.oblivious_noteIf ..) w₃).bind fun _ _ h₄ => ?_
      exact hR.trans h₂ (hR.trans h₃ h₄)
    | none =>
      cases chain with
      | full => exact (hR.note _ w₃).bind fun _ _ h₄ => hR.trans h₂ (hR.trans h₃ h₄)
      | owned => exact hR.trans h₂ h₃

/-- `Links.upTo` is along a `Passage` if `deallocatePooled` always is, by induction on the depth. -/
lemma returnsAlong_upTo (hR : Passage R) {address size : Nat}
    (hpool : ∀ {w id a}, w.allocator? id = some a → Ends (a.deallocatePooled address size) w.memory
      fun out m' => R w (w.update id out.2 m')) (depth : Nat) :
    (Links.upTo depth : Links σ).ReturnsAlong R address size := by
  induction depth with
  | zero => exact fun w _ => hR.refl w
  | succ depth ih =>
    intro w id
    exact ends_upTo_deallocate (fun _ => hR.refl w) fun _ ha =>
      ih.deallocateWith hR (hpool ha) .owned

/-! ### Requests -/

omit [System σ] in
lemma Links.Along.returnsAlong (hlinks : links.Along R) (address size : Nat) :
    links.ReturnsAlong R address size := fun w id => hlinks.deallocate w id address size

/-- `offer` is along a `Passage` if the links are. -/
lemma Links.Along.offer (hlinks : links.Along R) (hR : Passage R) (size : Nat)
    (affinity : Affinity) (s : Strategy) (w : World σ) :
    Ends (World.offer links size affinity s) w fun _ w' => R w w' := by
  cases s with
  | allocator id owned => exact hlinks.allocate w id size affinity
  | heap heap => exact hR.onMemory (heap.plain_allocate size).oblivious w
  | foreign id name => exact hR.onMemory (Memory.Plain.askForeign ..).oblivious w

/-- `serveFrom` is along a `Passage` if the links are, by induction on the strategies. -/
lemma Links.Along.serveFrom (hlinks : links.Along R) (hR : Passage R) (size : Nat)
    (affinity : Affinity) (alignment : Nat) (strategies : List Strategy) (w : World σ) :
    Ends (World.serveFrom links size affinity alignment strategies) w fun _ w' => R w w' := by
  induction strategies generalizing w with
  | nil => exact hR.refl w
  | cons s rest ih =>
    unfold World.serveFrom
    refine (hlinks.offer hR size affinity s w).bind fun answer w₁ h₁ => ?_
    cases answer with
    | none => exact (ih w₁).mono fun _ _ h => hR.trans h₁ h
    | some address =>
      simp only
      split
      · refine (hR.note _ w₁).bind fun _ w₂ h₂ => ?_
        refine ((hlinks.returnsAlong address size).offerBack hR s w₂).bind fun _ w₃ h₃ => ?_
        exact (ih w₃).mono fun _ _ h => hR.trans h₁ (hR.trans h₂ (hR.trans h₃ h))
      · exact (hR.note _ w₁).bind fun _ _ h₂ => hR.trans h₁ h₂

/-- `allocateWith` is along a `Passage` if `allocatePooled` and the links are. -/
lemma Links.Along.allocateWith (hlinks : links.Along R) (hR : Passage R) {id : Nat}
    {a : Allocator} {size : Nat} {affinity : Affinity}
    (hpool : Ends (a.allocatePooled size affinity) w.memory fun out m' =>
      R w (w.update id out.2 m')) (chain : Chain) :
    Ends (World.allocateWith links id a chain size affinity) w fun _ w' => R w w' := by
  unfold World.allocateWith
  refine (ends_onPool (fun _ => R w) hpool).bind fun ⟨answer, a'⟩ w₁ hset => ?_
  refine hset.bind fun _ w₂ h₂ => ?_
  cases answer with
  | ok address => exact h₂
  | error reason =>
    refine (hlinks.serveFrom hR size affinity _ _ w₂).bind fun answer w₃ h₃ => ?_
    cases answer with
    | some address => exact hR.trans h₂ h₃
    | none => exact (hR.note _ w₃).bind fun _ _ h₄ => hR.trans h₂ (hR.trans h₃ h₄)

/-- `Links.upTo` is along a `Passage` if `allocateWith` and `deallocateWith` are over fewer links,
by induction on the depth. -/
lemma along_upTo (hR : Passage R)
    (hallocate : ∀ depth, (Links.upTo depth : Links σ).Along R → ∀ {w id a},
      w.allocator? id = some a → ∀ size affinity,
        Ends (allocateWith (.upTo depth) id a .owned size affinity) w fun _ w' => R w w')
    (hdeallocate : ∀ depth, (Links.upTo depth : Links σ).Along R → ∀ {w id a},
      w.allocator? id = some a → ∀ address size,
        Ends (deallocateWith (.upTo depth) id a .owned address size) w fun _ w' => R w w')
    (depth : Nat) : (Links.upTo depth : Links σ).Along R := by
  induction depth with
  | zero => exact ⟨fun w _ _ _ => hR.refl w, fun w _ _ _ => hR.refl w⟩
  | succ depth ih =>
    refine ⟨fun w id size affinity => ?_, fun w id address size => ?_⟩
    · exact ends_upTo_allocate (fun _ => hR.refl w) fun _ ha => hallocate depth ih ha size affinity
    · exact ends_upTo_deallocate (fun _ => hR.refl w) fun _ ha =>
        hdeallocate depth ih ha address size

/-- A `Passage` along which the groups of an allocator lead, whoever it is and whatever is asked. -/
structure Pooling (R : World σ → World σ → Prop) : Prop extends Passage R where
  allocatePooled {w : World σ} {id : Nat} {a : Allocator} (ha : w.allocator? id = some a)
    (size : Nat) (affinity : Affinity) :
    Ends (a.allocatePooled size affinity) w.memory fun out m' => R w (w.update id out.2 m')
  deallocatePooled {w : World σ} {id : Nat} {a : Allocator} (ha : w.allocator? id = some a)
    (address size : Nat) :
    Ends (a.deallocatePooled address size) w.memory fun out m' => R w (w.update id out.2 m')

/-- `Links.upTo` is along whatever is `Pooling`. -/
lemma Pooling.upTo (hR : Pooling R) (depth : Nat) : (Links.upTo depth : Links σ).Along R :=
  along_upTo hR.toPassage
    (fun _ ih _ _ _ ha size affinity =>
      ih.allocateWith hR.toPassage (hR.allocatePooled ha size affinity) .owned)
    (fun _ ih _ _ _ ha address size =>
      (ih.returnsAlong address size).deallocateWith hR.toPassage
        (hR.deallocatePooled ha address size) .owned) depth

/-- `allocateWith` is along whatever is `Pooling`. -/
lemma Pooling.allocateWith (hR : Pooling R) {id : Nat} {a : Allocator}
    (ha : w.allocator? id = some a) (depth : Nat) (chain : Chain) (size : Nat)
    (affinity : Affinity) :
    Ends (World.allocateWith (.upTo depth) id a chain size affinity) w fun _ w' => R w w' :=
  (hR.upTo depth).allocateWith hR.toPassage (hR.allocatePooled ha size affinity) chain

/-- `deallocateWith` is along whatever is `Pooling`. -/
lemma Pooling.deallocateWith (hR : Pooling R) {id : Nat} {a : Allocator}
    (ha : w.allocator? id = some a) (depth : Nat) (chain : Chain) (address size : Nat) :
    Ends (World.deallocateWith (.upTo depth) id a chain address size) w fun _ w' => R w w' :=
  ((hR.upTo depth).returnsAlong address size).deallocateWith hR.toPassage
    (hR.deallocatePooled ha address size) chain

end Walk

/-! ## Fallbacks -/

section Plan

variable [System σ]

lemma pooling_plan : Pooling fun w w' : World σ => w'.plan = w.plan where
  refl _ := rfl
  trans h h' := h'.trans h
  memory _ _ _ := rfl
  allocatePooled ha size affinity :=
    (Allocator.allocatePooled_frame _ size affinity _).mono fun _ _ h => plan_update ha h.1
  deallocatePooled ha address size :=
    (Allocator.deallocatePooled_frame _ address size _).mono fun _ _ h => plan_update ha h.1

/-- `allocateWith` keeps `w.plan`. -/
lemma plan_allocateWith {id : Nat} {a : Allocator} (ha : w.allocator? id = some a) (depth : Nat)
    (chain : Chain) (size : Nat) (affinity : Affinity) :
    Ends (allocateWith (.upTo depth) id a chain size affinity) w fun _ w' => w'.plan = w.plan :=
  pooling_plan.allocateWith ha depth chain size affinity

/-- `deallocateWith` keeps `w.plan`. -/
lemma plan_deallocateWith {id : Nat} {a : Allocator} (ha : w.allocator? id = some a)
    (depth : Nat) (chain : Chain) (address size : Nat) :
    Ends (deallocateWith (.upTo depth) id a chain address size) w fun _ w' => w'.plan = w.plan :=
  pooling_plan.deallocateWith ha depth chain address size

end Plan

/-! ## Boxes -/

/-- A `Passage` along which every request leads, every return, and whatever happens to the boxes. -/
structure Requesting [System σ] (R : World σ → World σ → Prop) : Prop extends Passage R where
  boxes (w : World σ) (boxes : List (Option Boxed)) : R w { w with boxes }
  allocate (w : World σ) (id : Nat) (chain : Chain) (size : Nat) (affinity : Affinity) :
    Ends (World.allocate id chain size affinity) w fun _ w' => R w w'
  deallocate (w : World σ) (id : Nat) (chain : Chain) (address size : Nat) :
    Ends (World.deallocate id chain address size) w fun _ w' => R w w'

section Boxes

variable [System σ] {R : World σ → World σ → Prop}

/-- What is `Pooling` and does not look at the boxes is `Requesting`. -/
lemma Pooling.requesting (hR : Pooling R)
    (hboxes : ∀ (w : World σ) (boxes : List (Option Boxed)), R w { w with boxes }) :
    Requesting R where
  toPassage := hR.toPassage
  boxes := hboxes
  allocate w _ chain size affinity :=
    ends_allocate (fun _ => hR.refl w) fun _ ha => hR.allocateWith ha _ chain size affinity
  deallocate w _ chain address size :=
    ends_deallocate (fun _ => hR.refl w) fun _ ha => hR.deallocateWith ha _ chain address size

lemma Requesting.destroy (hR : Requesting R) (value : Value) (w : World σ) :
    Ends (World.destroy value) w fun _ w' => R w w' :=
  hR.onMemory (Memory.oblivious_record _) w

/-- `boxMemory` is along whatever is `Requesting`. -/
lemma Requesting.boxMemory (hR : Requesting R) (id : Nat) (a : Allocator) (layout : Layout)
    (affinity : Affinity) (w : World σ) :
    Ends (World.boxMemory id a layout affinity) w fun _ w' => R w w' := by
  unfold World.boxMemory
  simp only
  split
  · exact hR.refl w
  · refine (hR.allocate w id .full layout.size affinity).bind fun answer w₁ h₁ => ?_
    rcases answer with _ | reason | address
    · exact h₁
    · exact h₁
    · simp only
      split
      · exact h₁
      · refine (hR.deallocate w₁ id .full address layout.size).bind fun _ w₂ h₂ => ?_
        exact hR.trans h₁ h₂

lemma Requesting.newBoxed (hR : Requesting R) (id : Nat) (layout : Layout) (value : Value)
    (affinity : Affinity) (w : World σ) :
    Ends (World.newBoxed id layout value affinity) w fun _ w' => R w w' := by
  unfold World.newBoxed
  apply Ends.get_bind
  split
  · exact hR.refl _
  · rename_i a ha
    refine (hR.boxMemory id a layout affinity _).bind fun answer w₁ h₁ => ?_
    have hpush : ∀ (b : Option Boxed) (w₂ : World σ),
        Ends (pushBoxed b) w₂ fun _ w₃ => R w₂ w₃ := fun b w₂ => hR.boxes w₂ _
    cases answer with
    | ok address => exact (hpush _ w₁).bind fun _ _ h₂ => hR.trans h₁ h₂
    | error reason =>
      refine (hR.destroy value w₁).bind fun _ w₂ h₂ => ?_
      exact (hpush _ w₂).bind fun _ _ h₃ => hR.trans h₁ (hR.trans h₂ h₃)

lemma Requesting.replaceBoxed (hR : Requesting R) (index : Nat) (value : Value) (w : World σ) :
    Ends (World.replaceBoxed index value) w fun _ w' => R w w' := by
  unfold World.replaceBoxed
  apply Ends.get_bind
  split
  · exact hR.refl w
  · refine (hR.destroy _ w).bind fun _ w₁ h₁ => ?_
    have hset : ∀ b : Option Boxed, Ends (setBoxed index b) w₁ fun _ w₂ => R w₁ w₂ :=
      fun _ => hR.boxes w₁ _
    exact (hset _).bind fun _ _ h₂ => hR.trans h₁ h₂

lemma Requesting.returnBoxed (hR : Requesting R) (b : Boxed) (w : World σ) :
    Ends (World.returnBoxed b) w fun _ w' => R w w' := by
  unfold World.returnBoxed
  exact (hR.deallocate w b.allocator .full b.address b.layout.size).bind fun _ _ h => h

lemma Requesting.dropBoxed (hR : Requesting R) (index : Nat) (w : World σ) :
    Ends (World.dropBoxed index) w fun _ w' => R w w' := by
  unfold World.dropBoxed
  apply Ends.get_bind
  split
  · exact hR.refl w
  · rename_i b hb
    have hset : Ends (setBoxed index none) w fun _ w₁ => R w w₁ := hR.boxes w _
    refine hset.bind fun _ w₁ h₁ => (hR.destroy _ w₁).bind fun _ w₂ h₂ => ?_
    refine (hR.returnBoxed b w₂).bind fun _ w₃ h₃ => ?_
    exact hR.trans h₁ (hR.trans h₂ h₃)

lemma Requesting.unbox (hR : Requesting R) (index : Nat) (w : World σ) :
    Ends (World.unbox index) w fun _ w' => R w w' := by
  unfold World.unbox
  apply Ends.get_bind
  split
  · exact hR.refl w
  · rename_i b hb
    have hset : Ends (setBoxed index none) w fun _ w₁ => R w w₁ := hR.boxes w _
    refine hset.bind fun _ w₁ h₁ => (hR.returnBoxed b w₁).bind fun _ w₂ h₂ => ?_
    refine (hR.onMemory (Memory.oblivious_record _) w₂).bind fun _ w₃ h₃ => ?_
    refine (hR.destroy _ w₃).bind fun _ w₄ h₄ => ?_
    exact hR.trans h₁ (hR.trans h₂ (hR.trans h₃ h₄))

/-- Whether an action consists of requests, returns and what happens to boxes. -/
def Step.Requests : Step → Prop
  | .allocate .. | .deallocate ..
  | .newBoxed .. | .replaceBoxed .. | .dropBoxed _ | .unbox _ => True
  | _ => False

/-- Every step that `Requests` is along whatever is `Requesting`. -/
theorem Requesting.step (hR : Requesting R) {s : Step} (hs : s.Requests) (w : World σ) :
    Ends (World.step s) w fun _ w' => R w w' := by
  cases s with
  | allocate id chain size affinity => exact Ends.map (hR.allocate w id chain size affinity)
  | deallocate id chain address size => exact Ends.map (hR.deallocate w id chain address size)
  | newBoxed id layout value affinity => exact Ends.map (hR.newBoxed id layout value affinity w)
  | replaceBoxed index value => exact Ends.map (hR.replaceBoxed index value w)
  | dropBoxed index =>
    refine (hR.dropBoxed index w).bind fun found w₁ h₁ => ?_
    cases found <;> exact h₁
  | unbox index => exact Ends.map (hR.unbox index w)
  | _ => exact False.elim hs

end Boxes

end World

end BlockPool
