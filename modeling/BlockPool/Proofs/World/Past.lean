import BlockPool.Proofs.Past
import BlockPool.Proofs.World.View

/-!
# Worlds with a past

Nothing that is done with a world depends on what its log says already. So a world may be given
another past, as if all that its allocators have and hold had come about in another way, and what is
done with it from then on is the same.
-/

namespace BlockPool.World

variable {σ α : Type} {past : List Event} {w : World σ}

/-- A world with `past` behind all events in its log. -/
def after (past : List Event) (w : World σ) : World σ := { w with memory := w.memory.after past }

/-- A world with `past` in the place of its log. -/
def recalling (past : List Event) (w : World σ) : World σ :=
  { w with memory := { w.memory with log := past } }

/-- A world with further `events` in its log, the latest first. -/
def logging (events : List Event) (w : World σ) : World σ :=
  w.recalling (events ++ w.memory.log)

/-- An action does the same from `w.after past` as from `w`, whatever the past is. -/
structure Oblivious (x : WorldM σ α) : Prop where
  eq (past : List Event) (w : World σ) : x (w.after past) = ((x w).1, (x w).2.after past)

/-- What an `Oblivious` action adds to the log is the same with every past. -/
lemma Oblivious.exists_events {x : WorldM σ α} (hx : Oblivious x) (w : World σ) :
    ∃ events, (x w).2.memory.log = events ++ w.memory.log ∧ ∀ past,
      x (w.recalling past) = ((x w).1, (x w).2.recalling (events ++ past)) := by
  have hself : x w = _ := hx.eq w.memory.log (w.recalling [])
  refine ⟨(x (w.recalling [])).2.memory.log, congrArg (·.2.memory.log) hself, fun past => ?_⟩
  rw [hself]
  exact hx.eq past (w.recalling [])

/-! ## The view of a past -/

/-- The `View` of worlds with a past. -/
def withPast (σ : Type) (past : List Event) : View σ := ⟨Memory.after past, fun a => a⟩

lemma world_withPast (w : World σ) : (withPast σ past).world w = w.after past := by
  unfold View.world withPast after
  rw [List.map_id']

/-- An action is `Oblivious` if it agrees with itself in every view `withPast`. -/
lemma oblivious_of_agree {x : WorldM σ α}
    (h : ∀ past, (withPast σ past).Agree (fun _ => True) x x) : Oblivious x := by
  refine ⟨fun past w => ?_⟩
  have hx := (h past w trivial).1
  rwa [world_withPast, world_withPast] at hx

/-- `onMemory` does the same with every past if its action is `Oblivious`. -/
lemma agree_onMemory {x : MemoryM σ α} (h : Memory.Oblivious x) :
    (withPast σ past).Agree (fun _ => True) (onMemory x) (onMemory x) := by
  intro w _
  refine ⟨?_, trivial⟩
  show ((x (w.memory.after past)).1, ({ (withPast σ past).world w with
    memory := (x (w.memory.after past)).2 } : World σ)) = _
  rw [h.eq]
  rfl

/-- `onAllocator` does the same with every past if its action is `Oblivious`. -/
lemma agree_onAllocator {id : Nat} {x : Allocator → MemoryM σ (α × Allocator)}
    (h : ∀ a, Memory.Oblivious (x a)) :
    (withPast σ past).Agree (fun _ => True) (onAllocator id x) (onAllocator id x) :=
  View.agree_onAllocator fun {w a} _ _ => ⟨(h a).eq past w.memory, trivial⟩

lemma agree_change {id : Nat} {x : Allocator → MemoryM σ Allocator}
    (h : ∀ a, Memory.Oblivious (x a)) :
    (withPast σ past).Agree (fun _ => True) (change id x) (change id x) :=
  (agree_onAllocator fun a => (h a).bind fun _ => .pure _).bind fun _ => View.Agree.pure _

/-- `withPast` respects what requests and returns do with groups. -/
lemma respects_withPast : (withPast σ past).Respects fun _ => True where
  alignment _ _ := rfl
  nested _ := rfl
  note notice _ := agree_onMemory (Memory.oblivious_note notice)
  noteIf a notice _ := agree_onMemory (Memory.oblivious_noteIf a.tracking.report notice)

variable [System σ]

lemma agreeOn_heap (heap : Heap) (size : Nat) (affinity : Affinity) (links : Links σ) :
    (withPast σ past).AgreeOn (fun _ => True) size affinity links (.heap heap) :=
  ⟨agree_onMemory (heap.plain_allocate size).oblivious,
    fun address => agree_onMemory (heap.plain_deallocate address size).oblivious⟩

/-- Whatever strategies there are, walks along chains do the same with every past. -/
lemma family_withPast (size : Nat) (affinity : Affinity) :
    (withPast σ past).Family (fun _ => True) size affinity fun _ => True where
  allocatePooled {w _ a} _ _ _ :=
    ⟨(a.plain_allocatePooled size affinity).oblivious.eq past w.memory, trivial⟩
  deallocatePooled {w _ a} _ _ _ address :=
    ⟨(a.plain_deallocatePooled address size).oblivious.eq past w.memory, trivial⟩
  nested _ _ _ s _ := by
    cases s with
    | allocator j owned => exact .inl ⟨j, owned, rfl, trivial⟩
    | heap heap => exact .inr fun links => agreeOn_heap heap size affinity links
    | foreign id name =>
      exact .inr fun links =>
        ⟨agree_onMemory (Memory.Plain.askForeign id name size affinity).oblivious,
          fun address => agree_onMemory (Memory.Plain.returnForeign id name address size).oblivious⟩

lemma agree_allocate (id : Nat) (chain : Chain) (size : Nat) (affinity : Affinity) :
    (withPast σ past).Agree (fun _ => True) (allocate id chain size affinity)
      (allocate id chain size affinity) :=
  View.agree_allocate respects_withPast (family_withPast size affinity) trivial (fun _ => rfl)
    fun _ heap links => agreeOn_heap heap size affinity links

lemma agree_deallocate (id : Nat) (chain : Chain) (address size : Nat) :
    (withPast σ past).Agree (fun _ => True) (deallocate id chain address size)
      (deallocate id chain address size) :=
  View.agree_deallocate respects_withPast (family_withPast size default) trivial (fun _ => rfl)
    (fun _ heap links => agreeOn_heap heap size default links) address

/-- `World.allocate` does the same with every past. -/
lemma oblivious_allocate (id : Nat) (chain : Chain) (size : Nat) (affinity : Affinity) :
    Oblivious (allocate id chain size affinity : WorldM σ _) :=
  oblivious_of_agree fun _ => agree_allocate id chain size affinity

lemma oblivious_deallocate (id : Nat) (chain : Chain) (address size : Nat) :
    Oblivious (deallocate id chain address size : WorldM σ _) :=
  oblivious_of_agree fun _ => agree_deallocate id chain address size

/-- `withPast` respects what is done with boxes. -/
lemma boxing_withPast : (withPast σ past).Boxing fun _ => True where
  toRespects := respects_withPast
  boxes _ _ := trivial
  record event _ := agree_onMemory (Memory.oblivious_record event)
  allocate id size affinity := agree_allocate id .full size affinity
  deallocate id address size := agree_deallocate id .full address size

/-- Every `Step` is `Oblivious`: the log has no part in what it does. -/
theorem oblivious_step (s : Step) : Oblivious (step s : WorldM σ Answer) := by
  refine oblivious_of_agree fun past => ?_
  cases s with
  | allocate id chain size affinity => exact (agree_allocate id chain size affinity).map _
  | deallocate id chain address size => exact (agree_deallocate id chain address size).map _
  | compact id => exact (agree_onAllocator fun a => a.plain_compact.oblivious).map _
  | setBlockSize id affinity blockSize =>
    exact agree_change fun a => (a.plain_setBlockSize affinity blockSize).oblivious
  | configureGroup id group => exact agree_change fun a => (a.plain_configureGroup group).oblivious
  | setTracking id tracking => exact agree_change fun _ => .pure _
  | addStrategy id strategy => exact agree_change fun _ => .pure _
  | reset id settings => exact agree_change fun a => (a.plain_reset settings).oblivious
  | newBoxed id layout value affinity =>
    exact (boxing_withPast.newBoxed id layout value affinity).map _
  | replaceBoxed index value => exact (boxing_withPast.replaceBoxed index value).map _
  | dropBoxed index =>
    refine (boxing_withPast.dropBoxed index).bind fun found => ?_
    cases found <;> exact View.Agree.pure _
  | unbox index => exact (boxing_withPast.unbox index).map _

end BlockPool.World
