import BlockPool.Memory.Arena
import BlockPool.Proofs.Totals
import BlockPool.Proofs.World.Steady

/-!
# Tallies

A tally is kept by somebody who only sees what is asked of allocators and what they answer. Every
slot handed out is put on it. A return strikes out the slot that it names, and a return of anything
else strikes out nothing: of what was returned before, was handed out with another size or by
another allocator, lies inside a slot or was never handed out.

Main statement: if allocators have nothing to fall back on, their totals and their snapshots are
those of the tally, whatever is returned to them, and all memory goes back to the system the way it
came.
-/

namespace BlockPool

/-- An allocator without a `wiring` to fall back on: it serves from its groups alone. -/
def Allocator.SelfContained (a : Allocator) : Prop := a.wiring = ⟨[], none⟩

lemma Allocator.SelfContained.strategies {a : Allocator} (h : a.SelfContained) (chain : Chain) :
    a.strategies chain = [] := by
  rw [a.strategies_eq, h]
  cases chain <;> rfl

/-- An allocator made without a backing and without nested strategies is `SelfContained`. -/
lemma Allocator.selfContained_ofSettings {s : Settings} (h : s.backing = .absent) :
    (Allocator.ofSettings s []).SelfContained := by
  unfold Allocator.SelfContained Allocator.wiring Allocator.ofSettings
  rw [h]
  rfl

namespace World

variable {σ : Type} {w w' : World σ} {tally : List (Nat × Extent)}

/-! ## Slots on a tally -/

/-- The slots of an allocator on a tally. -/
def slotsOf (id : Nat) (tally : List (Nat × Extent)) : List Extent :=
  (tally.filter (·.1 = id)).map (·.2)

lemma slotsOf_cons_self (id : Nat) (x : Extent) (tally : List (Nat × Extent)) :
    slotsOf id ((id, x) :: tally) = x :: slotsOf id tally := by
  simp [slotsOf]

lemma slotsOf_cons_of_ne {id j : Nat} (h : j ≠ id) (x : Extent) (tally : List (Nat × Extent)) :
    slotsOf j ((id, x) :: tally) = slotsOf j tally := by
  simp [slotsOf, h.symm]

/-- Erasing a slot of an allocator from a tally erases it from `slotsOf` that allocator. -/
lemma slotsOf_erase_self (id : Nat) (x : Extent) (tally : List (Nat × Extent)) :
    slotsOf id (tally.erase (id, x)) = (slotsOf id tally).erase x := by
  induction tally with
  | nil => rfl
  | cons e rest ih =>
    obtain ⟨j, y⟩ := e
    by_cases hj : j = id
    · subst hj
      by_cases hy : y = x
      · rw [hy, List.erase_cons_head, slotsOf_cons_self, List.erase_cons_head]
      · rw [List.erase_cons_tail (by simpa using hy), slotsOf_cons_self, slotsOf_cons_self,
          List.erase_cons_tail (by simpa using hy), ih]
    · rw [List.erase_cons_tail (by simp [hj]), slotsOf_cons_of_ne (Ne.symm hj),
        slotsOf_cons_of_ne (Ne.symm hj), ih]

/-- Erasing a slot of an allocator from a tally is nothing to `slotsOf` another one. -/
lemma slotsOf_erase_of_ne {id j : Nat} (h : j ≠ id) (x : Extent) (tally : List (Nat × Extent)) :
    slotsOf j (tally.erase (id, x)) = slotsOf j tally := by
  induction tally with
  | nil => rfl
  | cons e rest ih =>
    obtain ⟨k, y⟩ := e
    by_cases he : (k, y) = (id, x)
    · obtain ⟨rfl, rfl⟩ := Prod.mk.inj he
      rw [List.erase_cons_head, slotsOf_cons_of_ne h]
    · rw [List.erase_cons_tail (by simpa using he)]
      unfold slotsOf at ih ⊢
      rw [List.filter_cons, List.filter_cons]
      split
      · rw [List.map_cons, List.map_cons, ih]
      · exact ih

/-- Striking out all slots of an allocator leaves it none. -/
lemma slotsOf_filter_self (id : Nat) (tally : List (Nat × Extent)) :
    slotsOf id (tally.filter (·.1 ≠ id)) = [] := by
  simp [slotsOf]

/-- Striking out all slots of an allocator is nothing to `slotsOf` another one. -/
lemma slotsOf_filter_of_ne {id j : Nat} (h : j ≠ id) (tally : List (Nat × Extent)) :
    slotsOf j (tally.filter (·.1 ≠ id)) = slotsOf j tally := by
  unfold slotsOf
  rw [List.filter_filter]
  refine congrArg _ (List.filter_congr fun e _ => ?_)
  by_cases he : e.1 = j
  · simp [he, h]
  · simp [he]

/-! ## Tallies of runs -/

/-- The tally after a step with its answer. -/
def tallied (tally : List (Nat × Extent)) : Step → Answer → List (Nat × Extent)
  | .allocate id _ size _, .served (.ok address) => (id, ⟨address, max size 1⟩) :: tally
  | .deallocate id _ address size, _ => tally.erase (id, ⟨address, max size 1⟩)
  | .reset id _, _ => tally.filter (·.1 ≠ id)
  | _, _ => tally

/-- A step that gives an allocator nothing to fall back on. -/
def WithoutFallbacks : Step → Prop
  | .allocate .. | .deallocate .. | .compact _ | .setBlockSize .. | .configureGroup ..
  | .setTracking .. => True
  | .reset _ settings => settings.backing = .absent
  | _ => False

/-- The worlds that come of new allocators without fallbacks through any steps `WithoutFallbacks`,
each with the tally of what was done. -/
inductive Tallied [System σ] : World σ → List (Nat × Extent) → Prop where
  | start (system : σ) {allocators : List Allocator}
      (hnew : ∀ a ∈ allocators, ∃ settings, settings.backing = .absent ∧
        a = .ofSettings settings []) :
      Tallied { memory := { system }, allocators } []
  | step {w w' : World σ} {tally : List (Nat × Extent)} (s : Step) {answer : Answer}
      (h : Tallied w tally) (hs : WithoutFallbacks s) (hstep : World.step s w = (answer, w')) :
      Tallied w' (tallied tally s answer)

/-! ## Books that agree with a tally -/

/-- The allocators have the `slotsOf` a tally and are `SelfContained`, and the live regions are
those of their blocks. -/
structure Books (w : World σ) (tally : List (Nat × Extent)) : Prop where
  ok {id : Nat} {a : Allocator} : w.allocator? id = some a → a.Ok
  alone {id : Nat} {a : Allocator} : w.allocator? id = some a → a.SelfContained
  slots {id : Nat} {a : Allocator} :
    w.allocator? id = some a → a.slots = (slotsOf id tally : Multiset Extent)
  memory : w.memory.Keeps w.regions

/-- What `Books` say of one allocator apart from the rest, and how the world is put together again
by `update`. -/
lemma Books.focus (h : w.Books tally) {id : Nat} {a : Allocator}
    (ha : w.allocator? id = some a) :
    ∃ held : Multiset Region, w.memory.Keeps (a.regions + held) ∧
      ∀ {a' : Allocator} {m' : Memory σ} {tally' : List (Nat × Extent)}, a'.Ok →
        a'.SelfContained → m'.Keeps (a'.regions + held) →
        a'.slots = (slotsOf id tally' : Multiset Extent) →
        (∀ j ≠ id, slotsOf j tally' = slotsOf j tally) → (w.update id a' m').Books tally' := by
  obtain ⟨rest, hnumbered, hupdate⟩ := exists_others ha
  refine ⟨rest.bind fun e => e.1.regions, ?_, ?_⟩
  · have hmemory := h.memory
    rwa [World.regions, hnumbered, Multiset.cons_bind] at hmemory
  · intro a' m' tally' hok halone hmemory hslots hothers
    -- whatever is asked of an allocator, it is the new one or one that stays
    have hcases : ∀ {j : Nat} {b : Allocator}, (w.update id a' m').allocator? j = some b →
        j = id ∧ b = a' ∨ j ≠ id ∧ w.allocator? j = some b := by
      intro j b hb
      rw [allocator?_update ha] at hb
      split at hb
      · rename_i hj
        exact .inl ⟨hj, (Option.some.inj hb).symm⟩
      · rename_i hj
        exact .inr ⟨hj, hb⟩
    refine ⟨fun hb => ?_, fun hb => ?_, fun hb => ?_, ?_⟩
    · rcases hcases hb with ⟨-, rfl⟩ | ⟨-, hb⟩
      · exact hok
      · exact h.ok hb
    · rcases hcases hb with ⟨-, rfl⟩ | ⟨-, hb⟩
      · exact halone
      · exact h.alone hb
    · rcases hcases hb with ⟨rfl, rfl⟩ | ⟨hj, hb⟩
      · exact hslots
      · rw [hothers _ hj]
        exact h.slots hb
    · rw [World.regions, hupdate a' m', Multiset.cons_bind]
      exact hmemory

/-- `Books` do not depend on what is on the tally for an allocator that is not there. -/
lemma Books.of_absent (h : w.Books tally) {id : Nat} (ha : w.allocator? id = none)
    {tally' : List (Nat × Extent)} (hothers : ∀ j ≠ id, slotsOf j tally' = slotsOf j tally) :
    w.Books tally' := by
  refine ⟨h.ok, h.alone, fun {j b} hb => ?_, h.memory⟩
  have hj : j ≠ id := by
    rintro rfl
    exact absurd (ha.symm.trans hb) (by simp)
  rw [hothers j hj]
  exact h.slots hb

/-- `Books` survive `World.change` by an action that leaves the allocator `Alike`. -/
lemma Books.change (h : w.Books tally) (id : Nat) {action : Allocator → MemoryM σ Allocator}
    (haction : ∀ a held, a.Ok → w.memory.Keeps held →
      Ends (action a) w.memory fun a' m' => a.Alike a' ∧ m'.Keeps held) :
    Ends (World.change id action) w fun _ w' => w'.Books tally := by
  refine ends_change (fun _ => h) fun a ha => ?_
  obtain ⟨held, hmemory, hupdate⟩ := h.focus ha
  refine (haction a _ (h.ok ha) hmemory).mono ?_
  rintro a' m' ⟨halike, hkeeps⟩
  refine hupdate halike.ok (halike.wiring.trans (h.alone ha)) ?_ ?_ fun _ _ => rfl
  · rwa [halike.regions]
  · rw [halike.slots, h.slots ha]

/-- `Books` do not depend on what is reported. -/
lemma Books.note (h : w.Books tally) (notice : Notice) :
    Ends (onMemory (Memory.note notice)) w fun _ w' => w'.Books tally :=
  ends_onMemory ((Memory.keeps_note h.memory notice).mono fun _ _ h' =>
    ⟨h.ok, h.alone, h.slots, h'⟩)

section System

variable [System σ]

/-- `allocateWith` keeps `Books`, and puts the slot that it answers on the tally. -/
lemma Books.allocateWith [LawfulSystem σ] (h : w.Books tally) (links : Links σ) {id : Nat}
    {a : Allocator} (ha : w.allocator? id = some a) (chain : Chain) (size : Nat)
    (affinity : Affinity) :
    Ends (World.allocateWith links id a chain size affinity) w fun answer w' =>
      w'.Books (tallied tally (.allocate id chain size affinity) (.served answer)) := by
  obtain ⟨held, hmemory, hupdate⟩ := h.focus ha
  have hpool : Ends (onMemory (a.allocatePooled size affinity)) w fun out w₁ =>
      out.2.SelfContained ∧ Ends (setAllocator id out.2) w₁ fun _ w₂ =>
        w₂.Books (tallied tally (.allocate id chain size affinity) (.served out.1)) := by
    refine ends_onMemory ((Allocator.allocatePooled_spec (h.ok ha) hmemory size affinity).mono ?_)
    rintro ⟨answer, a'⟩ m' ⟨hok, hkeeps, hslots, hwiring⟩
    have halone : a'.SelfContained := hwiring.trans (h.alone ha)
    refine ⟨halone, hupdate hok halone hkeeps ?_ ?_⟩
    · rw [hslots, h.slots ha]
      cases answer with
      | error reason => exact Multiset.zero_add _
      | ok address => exact (congrArg _ (slotsOf_cons_self ..)).symm
    · intro j hj
      cases answer with
      | error reason => rfl
      | ok address => exact slotsOf_cons_of_ne hj ..
  unfold World.allocateWith
  refine hpool.bind fun ⟨answer, a'⟩ w₁ ⟨halone, hset⟩ => hset.bind fun _ w₂ h₂ => ?_
  cases answer with
  | ok address => exact h₂
  | error reason =>
    have hnone : Ends (serveFrom links size affinity (a'.alignmentFor affinity)
        (a'.strategies chain)) w₂ fun offer w₃ => offer = none ∧ w₃ = w₂ := by
      rw [halone.strategies chain]
      exact ⟨rfl, rfl⟩
    refine hnone.bind ?_
    rintro _ w₃ ⟨rfl, rfl⟩
    exact (h₂.note _).bind fun _ _ h₃ => h₃

/-- `deallocateWith` keeps `Books`, and takes the slot that it names off the tally, if it is
there. -/
lemma Books.deallocateWith (h : w.Books tally) (links : Links σ) {id : Nat} {a : Allocator}
    (ha : w.allocator? id = some a) (chain : Chain) (address size : Nat) :
    Ends (World.deallocateWith links id a chain address size) w fun _ w' =>
      w'.Books (tally.erase (id, ⟨address, max size 1⟩)) := by
  obtain ⟨held, hmemory, hupdate⟩ := h.focus ha
  have hpool : Ends (onMemory (a.deallocatePooled address size)) w fun out w₁ =>
      out.2.SelfContained ∧ Ends (setAllocator id out.2) w₁ fun _ w₂ =>
        w₂.Books (tally.erase (id, ⟨address, max size 1⟩)) := by
    refine ends_onMemory
      ((Allocator.deallocatePooled_spec (h.ok ha) hmemory address size).mono ?_)
    rintro ⟨taken, a'⟩ m' ⟨-, hok, hkeeps, hslots, hwiring⟩
    have halone : a'.SelfContained := hwiring.trans (h.alone ha)
    refine ⟨halone, hupdate hok halone hkeeps ?_ fun j hj => slotsOf_erase_of_ne hj ..⟩
    rw [hslots, h.slots ha, slotsOf_erase_self, Multiset.coe_erase]
    rfl
  unfold World.deallocateWith
  refine hpool.bind fun ⟨taken, a'⟩ w₁ ⟨halone, hset⟩ => hset.bind fun _ w₂ h₂ => ?_
  cases taken with
  | true => exact h₂
  | false =>
    have hnone : Ends (returnTo links address size (a'.strategies chain)) w₂ fun taker w₃ =>
        taker = none ∧ w₃ = w₂ := by
      rw [halone.strategies chain]
      exact ⟨rfl, rfl⟩
    refine hnone.bind ?_
    rintro _ w₃ ⟨rfl, rfl⟩
    cases chain with
    | full => exact (h₂.note _).bind fun _ _ h₃ => h₃
    | owned => exact h₂

/-- `compact` keeps `Books` with the same tally. -/
lemma Books.compact (h : w.Books tally) (id : Nat) :
    Ends (onAllocator id Allocator.compact) w fun _ w' => w'.Books tally := by
  refine ends_onAllocator (fun _ => h) fun a ha => ?_
  obtain ⟨held, hmemory, hupdate⟩ := h.focus ha
  refine (Allocator.compact_spec (h.ok ha) hmemory).mono ?_
  rintro ⟨bytes, a'⟩ m' ⟨hok, hkeeps, hslots, hwiring⟩
  exact hupdate hok (hwiring.trans (h.alone ha)) hkeeps (hslots.trans (h.slots ha)) fun _ _ => rfl

/-- `reset` keeps `Books`, and takes everything of the allocator off the tally. -/
lemma Books.reset (h : w.Books tally) (id : Nat) {settings : Settings}
    (hsettings : settings.backing = .absent) :
    Ends (World.change id fun a => a.reset settings) w fun _ w' =>
      w'.Books (tally.filter (·.1 ≠ id)) := by
  have hothers : ∀ j ≠ id, slotsOf j (tally.filter (·.1 ≠ id)) = slotsOf j tally :=
    fun j hj => slotsOf_filter_of_ne hj tally
  refine ends_change (fun ha => h.of_absent ha hothers) fun a ha => ?_
  obtain ⟨held, hmemory, hupdate⟩ := h.focus ha
  have hnested : a.nested = [] := congrArg Allocator.Wiring.nested (h.alone ha)
  refine (Allocator.reset_spec hmemory settings).mono ?_
  rintro a' m' ⟨rfl, hkeeps⟩
  rw [hnested]
  have hbare := Allocator.bare_ofSettings settings []
  refine hupdate hbare.ok (Allocator.selfContained_ofSettings hsettings) ?_ ?_ hothers
  · rwa [hbare.regions, Multiset.zero_add]
  · rw [hbare.slots, slotsOf_filter_self]
    rfl

/-- `Books` are preserved by every step `WithoutFallbacks`. -/
theorem Books.step [LawfulSystem σ] (h : w.Books tally) {s : Step} (hs : WithoutFallbacks s) :
    Ends (World.step s) w fun answer w' => w'.Books (tallied tally s answer) := by
  cases s with
  | allocate id chain size affinity =>
    exact Ends.map (ends_allocate (fun _ => h) fun _ ha =>
      h.allocateWith _ ha chain size affinity)
  | deallocate id chain address size =>
    exact Ends.map (ends_deallocate
      (fun ha => h.of_absent ha fun j hj => slotsOf_erase_of_ne hj ..)
      fun _ ha => h.deallocateWith _ ha chain address size)
  | compact id => exact Ends.map (h.compact id)
  | setBlockSize id affinity blockSize =>
    exact h.change id fun _ _ ha hm => Allocator.setBlockSize_spec ha hm affinity blockSize
  | configureGroup id group =>
    exact h.change id fun _ _ ha hm => Allocator.configureGroup_spec ha hm group
  | setTracking id tracking =>
    exact h.change id fun _ _ ha hm => ⟨Allocator.alike_setTracking ha tracking, hm⟩
  | reset id settings => exact h.reset id hs
  | addStrategy id strategy => exact False.elim hs
  | newBoxed id layout value affinity => exact False.elim hs
  | replaceBoxed index value => exact False.elim hs
  | dropBoxed index => exact False.elim hs
  | unbox index => exact False.elim hs

omit [System σ] in
/-- A world of new allocators has `Books` with an empty tally. -/
lemma books_start (system : σ) {allocators : List Allocator}
    (hnew : ∀ a ∈ allocators, ∃ settings, settings.backing = .absent ∧
      a = .ofSettings settings []) :
    ({ memory := { system }, allocators } : World σ).Books [] := by
  have hbare : ∀ a ∈ allocators, a.Bare := by
    intro a ha
    obtain ⟨settings, -, rfl⟩ := hnew a ha
    exact Allocator.bare_ofSettings settings []
  refine ⟨fun ha => (hbare _ (List.mem_of_getElem? ha)).ok, fun ha => ?_,
    fun ha => (hbare _ (List.mem_of_getElem? ha)).slots, ?_⟩
  · obtain ⟨settings, hsettings, rfl⟩ := hnew _ (List.mem_of_getElem? ha)
    exact Allocator.selfContained_ofSettings hsettings
  · rw [regions_of_bare hbare]
    exact Memory.keeps_new system

/-- Every world that is `Tallied` has `Books`. -/
theorem Tallied.books [LawfulSystem σ] (h : Tallied w tally) : w.Books tally := by
  induction h with
  | start system hnew => exact books_start system hnew
  | step s _ hs hstep ih => exact (ih.step hs).apply hstep

/-- The totals of every allocator in a world that is `Tallied` are words: `total` and `Word.sum` say
the same. -/
theorem Tallied.sumsExact [LawfulSystem σ] (h : Tallied w tally) {id : Nat} {a : Allocator}
    (ha : w.allocator? id = some a) : a.SumsExact := by
  obtain ⟨held, hmemory, -⟩ := h.books.focus ha
  exact (h.books.ok ha).sumsExact hmemory

/-! ## Exact accounts -/

/-- The totals of an allocator are those of some slots, and its `usage` has the same totals. -/
structure Accounted (a : Allocator) (slots : List Extent) : Prop where
  reserved : a.reserved = total (slots.map Extent.length)
  slotCount : total ((a.usage.groups.flatMap (·.blocks)).map (·.slotCount)) = slots.length
  memory : a.available + a.reserved = a.memorySize
  usage : a.usage.totals = a.totals
  /-- The snapshots of single groups make up the snapshot of the allocator. -/
  groups : a.groups.keys.filterMap a.groupUsage? = a.usage.groups
  group {affinity : Affinity} {g : Group} : a.groups.find? affinity = some g →
    (a.groupUsage? affinity).map (·.totals) = some ⟨g.available, g.reserved, g.memorySize⟩

omit [System σ] in
/-- The totals and snapshots of an allocator are those of its slots on the tally, as `Accounted`
says. -/
lemma Books.accounted (h : w.Books tally) {id : Nat} {a : Allocator}
    (ha : w.allocator? id = some a) : Accounted a (slotsOf id tally) where
  reserved := by
    rw [(h.ok ha).reserved_eq, h.slots ha, weigh_coe]
  slotCount := by
    rw [(h.ok ha).slotCount_eq, h.slots ha, Multiset.coe_card]
  memory := (h.ok ha).available_add_reserved
  usage := a.usage_totals
  groups := a.filterMap_groupUsage?
  group {affinity g} hfind := by
    unfold Allocator.groupUsage?
    rw [hfind]
    exact congrArg some (g.usage_totals affinity)

/-- If allocators have nothing to fall back on, their totals and their snapshots are those of the
tally, whatever is returned to them, as `Accounted` says. The system has just the memory of their
blocks live, and all other memory went back to it once, the way it came. -/
theorem tally_exact [LawfulSystem σ] (h : Tallied w tally) :
    (∀ id a, w.allocator? id = some a → Accounted a (slotsOf id tally)) ∧
      (w.memory.live : Multiset Region) = w.regions ∧
      obtained w.memory.log = returned w.memory.log + w.memory.live ∧
      ∀ named status, .released named status ∈ w.memory.log → status = .ok := by
  have hbooks := h.books
  refine ⟨fun _ _ ha => hbooks.accounted ha, hbooks.memory.live, ?_, hbooks.memory.received⟩
  rw [hbooks.memory.live]
  exact hbooks.memory.balanced

/-- Returns of a part of a slot, with a wrong size, to another allocator, and a second time strike
out nothing. A slot of no bytes counts as one byte, and a new start strikes out what is left. -/
theorem tally_exact_misuse : ∃ (w : World Arena) (tally : List (Nat × Extent)),
    Tallied w tally ∧ tally = [(0, ⟨Arena.base + 208, 1⟩)] ∧
      (w.allocator? 0).map (·.reserved) = some 1 ∧ (returned w.memory.log).card = 2 ∧
      ∀ a, w.allocator? 0 = some a → Accounted a (slotsOf 0 tally) := by
  let settings : Settings := { backing := .absent, defaultBlockSize := 200 }
  have h₀ : Tallied
      { memory := { system := Arena.new 4096 .low }
        allocators := List.replicate 2 (.ofSettings settings []) } [] :=
    .start _ fun a ha => ⟨settings, rfl, List.eq_of_mem_replicate ha⟩
  have h₁ := h₀.step (.allocate 0 .full 16 .objects) trivial Prod.mk.eta.symm
  have h₂ := h₁.step (.allocate 0 .full 0 .data) trivial Prod.mk.eta.symm
  have h₃ := h₂.step (.deallocate 0 .full (Arena.base + 4) 4) trivial Prod.mk.eta.symm
  have h₄ := h₃.step (.deallocate 0 .full (Arena.base + 208) 2) trivial Prod.mk.eta.symm
  have h₅ := h₄.step (.deallocate 1 .full (Arena.base + 208) 1) trivial Prod.mk.eta.symm
  have h₆ := h₅.step (.deallocate 0 .full Arena.base 16) trivial Prod.mk.eta.symm
  have h₇ := h₆.step (.deallocate 0 .full Arena.base 16) trivial Prod.mk.eta.symm
  have h₈ := h₇.step (.compact 0) trivial Prod.mk.eta.symm
  have h₉ := h₈.step (.allocate 1 .full 30 .objects) trivial Prod.mk.eta.symm
  have h := h₉.step (.reset 1 settings) rfl Prod.mk.eta.symm
  refine ⟨_, _, h, by decide +kernel, by decide +kernel, by decide +kernel, ?_⟩
  exact (tally_exact h).1 0

end System

end World

end BlockPool
