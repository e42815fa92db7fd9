import BlockPool.Allocator.Basic
import BlockPool.Proofs.Log

/-!
# What happened before

The log of a memory is written to and never read. So whatever it says already, an action answers the
same, leaves the same behind and adds the same to it. What is known of actions on a memory with one
log can be said of actions on the same memory with another one.
-/

namespace BlockPool

namespace Memory

variable {σ α β : Type}

/-- A memory with `past` behind all events in its log. -/
def after (past : List Event) (m : Memory σ) : Memory σ := { m with log := m.log ++ past }

/-- An action does the same from `m.after past` as from `m`, whatever the past is. -/
structure Oblivious (x : MemoryM σ α) : Prop where
  eq (past : List Event) (m : Memory σ) : x (m.after past) = ((x m).1, (x m).2.after past)

lemma Oblivious.pure (a : α) : Oblivious (Pure.pure a : MemoryM σ α) := ⟨fun _ _ => rfl⟩

/-- A `bind` of oblivious actions is `Oblivious`. -/
lemma Oblivious.bind {x : MemoryM σ α} {f : α → MemoryM σ β} (hx : Oblivious x)
    (hf : ∀ a, Oblivious (f a)) : Oblivious (x >>= f) := by
  refine ⟨fun past m => ?_⟩
  rw [bind_apply_eq (hx.eq past m)]
  exact (hf _).eq past _

/-- What is `Oblivious` adds to any log what it would write to an empty one. -/
lemma Oblivious.log_eq {x : MemoryM σ α} (hx : Oblivious x) (m : Memory σ) :
    (x m).2.log = (x { m with log := [] }).2.log ++ m.log :=
  congrArg (fun out => out.2.log) (hx.eq m.log { m with log := [] })

/-- What is `Oblivious` leaves the log that it finds at the end of the one that it leaves. -/
lemma Oblivious.writes {x : MemoryM σ α} (hx : Oblivious x) (m : Memory σ) :
    Ends x m fun _ m' => m.Writes (fun _ => True) m' := ⟨_, hx.log_eq m, fun _ _ => trivial⟩

/-- The answer of what is `Oblivious` depends on the system and on the live regions alone. -/
lemma Oblivious.answer_eq {x : MemoryM σ α} (hx : Oblivious x) {m m' : Memory σ}
    (hsystem : m'.system = m.system) (hlive : m'.live = m.live) : (x m').1 = (x m).1 := by
  have hanswer : ∀ n : Memory σ, (x n).1 = (x { n with log := [] }).1 := by
    intro n
    have heq : x n = _ := hx.eq n.log { n with log := [] }
    rw [heq]
  rw [hanswer m', hanswer m, hsystem, hlive]

/-! ## Single events -/

/-- `record` puts its event in front of any log. -/
lemma oblivious_record (event : Event) : Oblivious (record event : MemoryM σ Unit) :=
  ⟨fun _ _ => rfl⟩

lemma oblivious_note (notice : Notice) : Oblivious (note notice : MemoryM σ Unit) :=
  oblivious_record _

lemma oblivious_noteIf (report : Bool) (notice : Notice) :
    Oblivious (noteIf report notice : MemoryM σ Unit) := by
  unfold noteIf
  split
  · exact oblivious_note notice
  · exact .pure ()

/-! ## Plain actions -/

section System

variable [System σ]

/-- Actions made up of `note`, `request` and `release`, one after another. Nothing that a pool does
to the world around it is more than that. -/
inductive Plain : {α : Type} → MemoryM σ α → Prop where
  | pure {α : Type} (a : α) : Plain (Pure.pure a)
  | bind {α β : Type} {x : MemoryM σ α} {f : α → MemoryM σ β} (hx : Plain x)
      (hf : ∀ a, Plain (f a)) : Plain (x >>= f)
  | note (notice : Notice) : Plain (note notice)
  | request (source : Source) (layout : Layout) : Plain (request source layout)
  | release (named : Region) : Plain (release named)
  | askForeign (strategy : Nat) (name : String) (size : Nat) (affinity : Affinity) :
      Plain (askForeign strategy name size affinity)
  | returnForeign (strategy : Nat) (name : String) (address size : Nat) :
      Plain (returnForeign strategy name address size)

/-- Whatever is `Plain` is `Oblivious`, by induction on how the action is built. -/
lemma Plain.oblivious {x : MemoryM σ α} (hx : Plain x) : Oblivious x := by
  induction hx with
  | pure a => exact .pure a
  | bind _ _ hx hf => exact hx.bind hf
  | note notice => exact oblivious_note notice
  | request source layout => exact ⟨fun _ _ => rfl⟩
  | release named => exact ⟨fun _ _ => rfl⟩
  | askForeign strategy name size affinity => exact ⟨fun _ _ => rfl⟩
  | returnForeign strategy name address size => exact ⟨fun _ _ => rfl⟩

lemma plain_noteAll (notices : List Notice) : Plain (noteAll notices : MemoryM σ Unit) := by
  induction notices with
  | nil => exact .pure ()
  | cons notice rest ih => exact (Plain.note notice).bind fun _ => ih

lemma plain_noteIf (report : Bool) (notice : Notice) :
    Plain (noteIf report notice : MemoryM σ Unit) := by
  unfold noteIf
  split
  · exact .note notice
  · exact .pure ()

/-- `settle` reports and does nothing else. -/
lemma plain_settle {state answer : Type} (o : Outcome state answer) :
    Plain (settle o : MemoryM σ (answer × state)) :=
  (plain_noteAll o.notices).bind fun _ => .pure _

end System

end Memory

open Memory (Plain)

/-! ## Heaps -/

namespace Heap

variable {σ : Type} [System σ]

/-- A heap asks the system once, and may give an unsuitable region back. -/
lemma plain_allocate (h : Heap) (size : Nat) :
    Plain (h.allocate size : MemoryM σ (Option Nat)) := by
  unfold allocate
  cases h.source with
  | sized =>
    simp only
    split
    · exact Plain.request ..
    · exact .pure none
  | unsized =>
    refine (Plain.request ..).bind fun answer => ?_
    cases answer with
    | none => exact .pure none
    | some address =>
      simp only
      split
      · exact .pure (some address)
      · refine (Plain.note _).bind fun _ => ?_
        exact (Plain.release _).bind fun _ => .pure none

/-- A heap gives one region back, or reports. -/
lemma plain_deallocate (h : Heap) (address size : Nat) :
    Plain (h.deallocate address size : MemoryM σ Bool) := by
  unfold deallocate
  split
  · exact (Plain.note _).bind fun _ => .pure false
  · exact (Plain.release _).bind fun _ => .pure true

end Heap

/-! ## Blocks -/

namespace Block

variable {σ : Type} [System σ]

/-- A block is obtained with one request. -/
lemma plain_obtain (capacity alignment : Nat) (tracking : Tracking) :
    Plain (obtain capacity alignment tracking : MemoryM σ (Except AllocationError Block)) := by
  unfold obtain
  simp only
  split
  · exact .pure _
  · split
    · exact .pure _
    · refine (Plain.request ..).bind fun answer => ?_
      cases answer with
      | none => exact .pure _
      | some base => exact (Memory.plain_noteIf ..).bind fun _ => .pure _

/-- A block goes back with one release. -/
lemma plain_giveBack (b : Block) : Plain (b.giveBack : MemoryM σ Unit) :=
  (Memory.plain_noteIf ..).bind fun _ => Plain.release b.region

end Block

/-! ## Groups -/

namespace Group

variable {σ : Type} [System σ]

lemma plain_displace (g : Group) (base : Nat) :
    Plain (g.displace base : MemoryM σ Unit) := by
  unfold displace
  split
  · exact .pure ()
  · exact Block.plain_giveBack _

/-- `Group.grow` obtains a block and may give it or another one back. -/
lemma plain_grow (g : Group) (size : Nat) (tracking : Tracking) :
    Plain (g.grow size tracking : MemoryM σ (Except AllocationError Nat × Group)) := by
  unfold grow
  refine (Block.plain_obtain ..).bind fun answer => ?_
  cases answer with
  | error reason => exact .pure _
  | ok fresh =>
    refine (Memory.plain_settle _).bind ?_
    rintro ⟨_ | address, b⟩
    · exact b.plain_giveBack.bind fun _ => .pure _
    · refine (Memory.plain_noteIf ..).bind fun _ => ?_
      exact (g.plain_displace b.base).bind fun _ => .pure _

lemma plain_allocate (g : Group) (size : Nat) (tracking : Tracking) :
    Plain (g.allocate size tracking : MemoryM σ (Except AllocationError Nat × Group)) := by
  refine (Memory.plain_settle _).bind ?_
  rintro ⟨_ | address, g'⟩
  · exact g'.plain_grow size tracking
  · exact .pure _

/-- Blocks are removed one after another. -/
lemma plain_removeAll (name : String) (tracking : Tracking) (blocks : List Block) :
    Plain (removeAll name tracking blocks : MemoryM σ Unit) := by
  induction blocks with
  | nil => exact .pure ()
  | cons b rest ih =>
    exact (Memory.plain_noteIf ..).bind fun _ => b.plain_giveBack.bind fun _ => ih

lemma plain_compact (g : Group) (tracking : Tracking) :
    Plain (g.compact tracking : MemoryM σ (Nat × Group)) :=
  (plain_removeAll ..).bind fun _ => .pure _

lemma plain_giveBackAll (blocks : List Block) :
    Plain (giveBackAll blocks : MemoryM σ Unit) := by
  induction blocks with
  | nil => exact .pure ()
  | cons b rest ih => exact b.plain_giveBack.bind fun _ => ih

end Group

/-! ## Allocators -/

namespace Allocator

variable {σ : Type} [System σ]

/-- Making a group reports and does nothing else. -/
lemma plain_ensureGroup (a : Allocator) (affinity : Affinity) :
    Plain (a.ensureGroup affinity : MemoryM σ (Group × Allocator)) := by
  unfold ensureGroup
  split
  · exact .pure _
  · exact (Memory.plain_noteIf ..).bind fun _ => .pure _

lemma plain_setBlockSize (a : Allocator) (affinity : Affinity) (blockSize : Nat) :
    Plain (a.setBlockSize affinity blockSize : MemoryM σ Allocator) :=
  (a.plain_ensureGroup affinity).bind fun _ => .pure _

lemma plain_configureGroup (a : Allocator) (s : GroupSettings) :
    Plain (a.configureGroup s : MemoryM σ Allocator) :=
  (a.plain_ensureGroup s.affinity).bind fun _ => .pure _

/-- `allocatePooled` is `Plain`: what it does to the memory is what its group does. -/
lemma plain_allocatePooled (a : Allocator) (size : Nat) (affinity : Affinity) :
    Plain
      (a.allocatePooled size affinity : MemoryM σ (Except AllocationError Nat × Allocator)) := by
  unfold allocatePooled
  refine (a.plain_ensureGroup affinity).bind fun out => ?_
  refine (out.1.plain_allocate size out.2.tracking).bind ?_
  rintro ⟨_ | _, g⟩
  · exact (Plain.note _).bind fun _ => .pure _
  · exact (Memory.plain_noteIf ..).bind fun _ => .pure _

/-- `deallocatePooled` is `Plain`: it reports and does nothing else. -/
lemma plain_deallocatePooled (a : Allocator) (address size : Nat) :
    Plain (a.deallocatePooled address size : MemoryM σ (Bool × Allocator)) := by
  unfold deallocatePooled
  split
  · exact .pure _
  · refine (Memory.plain_settle _).bind fun _ => ?_
    exact (Memory.plain_noteIf ..).bind fun _ => .pure _

lemma plain_compactAll (tracking : Tracking) (entries : List (Affinity × Group)) :
    Plain (compactAll tracking entries : MemoryM σ Nat) := by
  induction entries with
  | nil => exact .pure 0
  | cons e rest ih =>
    exact (e.2.plain_compact tracking).bind fun _ => ih.bind fun _ => .pure _

/-- `Allocator.compact` compacts one group after another. -/
lemma plain_compact (a : Allocator) : Plain (a.compact : MemoryM σ (Nat × Allocator)) :=
  (plain_compactAll ..).bind fun _ => (Memory.plain_noteIf ..).bind fun _ => .pure _

lemma plain_giveBackAll (groups : List Group) :
    Plain (giveBackAll groups : MemoryM σ Unit) := by
  induction groups with
  | nil => exact .pure ()
  | cons g rest ih => exact (Group.plain_giveBackAll g.blocks.values).bind fun _ => ih

/-- `reset` gives the memory of one group after another back. -/
lemma plain_reset (a : Allocator) (s : Settings) :
    Plain (a.reset s : MemoryM σ Allocator) := by
  have hback : Plain (a.giveBack : MemoryM σ Allocator) :=
    (plain_giveBackAll a.groups.values).bind fun _ => .pure _
  exact hback.bind fun _ => .pure _

end Allocator

end BlockPool
