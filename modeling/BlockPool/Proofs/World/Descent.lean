import BlockPool.Proofs.Allocator.Descent
import BlockPool.Proofs.World.Steady

/-!
# Where the blocks of a world come from

Whatever is done with a world, every block that an allocator has afterwards was there before, or it
is new and has the alignment that its affinity had at that time. Over a run of actions, every block
goes back to the start or to the action that made it.
-/

namespace BlockPool.World

variable {σ : Type} {w w' w'' : World σ} {places : Region → Prop}

/-- Every allocator of `w'` is one that `Inherits` its blocks from `w`. -/
def Inherits (places : Region → Prop) (w w' : World σ) : Prop :=
  ∀ id a', w'.allocator? id = some a' → ∃ a, w.allocator? id = some a ∧ a.Inherits places a'

/-- Every allocator of `w'` is one that `Continues` from `w`, with the alignments that it had. -/
def Continues (places : Region → Prop) (w w' : World σ) : Prop :=
  ∀ id a', w'.allocator? id = some a' → ∃ a, w.allocator? id = some a ∧ a.Continues places a'

lemma Continues.inherits (h : w.Continues places w') : w.Inherits places w' := by
  intro id a' ha'
  obtain ⟨a, ha, hcontinues⟩ := h id a' ha'
  exact ⟨a, ha, hcontinues.blocks⟩

/-- A world with the same `allocators` inherits all their blocks. -/
lemma inherits_of_allocators_eq (h : w'.allocators = w.allocators) : w.Inherits places w' := by
  intro id a' ha'
  refine ⟨a', ?_, Allocator.inherits_of_groups_eq rfl⟩
  unfold allocator? at ha' ⊢
  rwa [← h]

/-- A reflexive relation that holds across `update` for the one allocator holds for all of them. -/
lemma exists_before_update {R : Allocator → Allocator → Prop} (hrefl : ∀ a, R a a) {id : Nat}
    {a a' : Allocator} (ha : w.allocator? id = some a) (h : R a a') (m : Memory σ) :
    ∀ j b', (w.update id a' m).allocator? j = some b' → ∃ b, w.allocator? j = some b ∧ R b b' := by
  intro j b' hb'
  rw [allocator?_update ha] at hb'
  split at hb'
  · rename_i hj
    rw [hj, ← Option.some.inj hb']
    exact ⟨a, ha, h⟩
  · exact ⟨b', hb', hrefl b'⟩

/-- `update` makes blocks as the one allocator does. -/
lemma inherits_update {id : Nat} {a a' : Allocator} (ha : w.allocator? id = some a)
    (h : a.Inherits places a') (m : Memory σ) : w.Inherits places (w.update id a' m) :=
  exists_before_update (fun _ => Allocator.inherits_of_groups_eq rfl) ha h m

/-- `update` is `Continues` if the one allocator is. -/
lemma continues_update {id : Nat} {a a' : Allocator} (ha : w.allocator? id = some a)
    (h : a.Continues places a') (m : Memory σ) : w.Continues places (w.update id a' m) :=
  exists_before_update Allocator.Continues.refl ha h m

section System

variable [System σ]

/-- `Continues` is preserved by the actions that `Pooling` names. -/
lemma pooling_continues (hplaces : Promises σ places) :
    Pooling (Continues (σ := σ) places) where
  refl w id a ha := ⟨a, ha, .refl a⟩
  trans h h' id a'' ha'' := by
    obtain ⟨a', ha', hlast⟩ := h' id a'' ha''
    obtain ⟨a, ha, hfirst⟩ := h id a' ha'
    exact ⟨a, ha, hfirst.trans hlast⟩
  memory _ _ _ _ a ha := ⟨a, ha, .refl a⟩
  allocatePooled ha size affinity :=
    (Allocator.continues_allocatePooled _ hplaces _ size affinity).mono fun _ m' h =>
      continues_update ha h m'
  deallocatePooled ha address size :=
    (Allocator.continues_deallocatePooled _ _ address size).mono fun _ m' h =>
      continues_update ha h m'

/-- `Continues` is preserved by whole requests and returns, as `Requesting` says. -/
lemma requesting_continues (hplaces : Promises σ places) :
    Requesting (Continues (σ := σ) places) :=
  (pooling_continues hplaces).requesting fun _ _ _ a ha => ⟨a, ha, .refl a⟩

omit [System σ] in
/-- `World.change` makes blocks as its action does. -/
lemma inherits_change (id : Nat) {action : Allocator → MemoryM σ Allocator}
    (haction : ∀ a m, Ends (action a) m fun a' _ => a.Inherits places a') (w : World σ) :
    Ends (change id action) w fun _ w' => w.Inherits places w' :=
  ends_change (fun _ => inherits_of_allocators_eq rfl) fun a ha =>
    (haction a w.memory).mono fun _ m' h => inherits_update ha h m'

/-- Whatever a `Step` does, each block afterwards comes from one before or is new. -/
theorem inherits_step (hplaces : Promises σ places) (s : Step) (w : World σ) :
    Ends (step s) w fun _ w' => w.Inherits places w' := by
  have hR : Requesting (Continues (σ := σ) places) := requesting_continues hplaces
  have hsame : ∀ {α : Type} {x : WorldM σ α}, Ends x w (fun _ w' => w.Continues places w') →
      Ends x w fun _ w' => w.Inherits places w' := fun hx => hx.mono fun _ _ h => h.inherits
  cases s with
  | allocate id chain size affinity =>
    exact Ends.map (hsame (hR.allocate w id chain size affinity))
  | deallocate id chain address size =>
    exact Ends.map (hsame (hR.deallocate w id chain address size))
  | compact id =>
    refine Ends.map (ends_onAllocator (fun _ => inherits_of_allocators_eq rfl) fun a ha => ?_)
    exact (Allocator.inherits_compact w.memory a).mono fun _ m' h => inherits_update ha h m'
  | setBlockSize id affinity blockSize =>
    exact inherits_change id (fun a m => a.inherits_setBlockSize m affinity blockSize) w
  | configureGroup id group =>
    exact inherits_change id (fun a m => a.inherits_configureGroup m group) w
  | setTracking id tracking =>
    exact inherits_change id (fun a _ => Allocator.inherits_mapValues rfl fun g =>
      g.inherits_setTracking tracking) w
  | addStrategy id strategy =>
    exact inherits_change id (fun _ _ => Allocator.inherits_of_groups_eq rfl) w
  | reset id settings => exact inherits_change id (fun a m => a.inherits_reset settings m) w
  | newBoxed id layout value affinity =>
    exact Ends.map (hsame (hR.newBoxed id layout value affinity w))
  | replaceBoxed index value => exact Ends.map (hsame (hR.replaceBoxed index value w))
  | dropBoxed index =>
    refine (hsame (hR.dropBoxed index w)).bind fun found w₁ h₁ => ?_
    cases found <;> exact h₁
  | unbox index => exact Ends.map (hsame (hR.unbox index w))

/-! ## Runs -/

/-- Every block after a run was there at the start, or it was `Made` in between, with the alignment
that its affinity had then. -/
theorem inherits_run (hplaces : Promises σ places) (steps : List Step) (w : World σ) :
    Ends (run steps) w fun _ w' => ∀ id a', w'.allocator? id = some a' →
      ∀ affinity key b', a'.block? affinity key = some b' →
        (∃ a b, w.allocator? id = some a ∧ a.block? affinity key = some b ∧ b.Becomes b') ∨
          b'.base = key ∧ ∃ early late a, steps = early ++ late ∧
            (run early w).2.allocator? id = some a ∧
              b'.Made places (a.alignmentFor affinity) := by
  induction steps generalizing w with
  | nil =>
    intro id a' ha' affinity key b' hb'
    exact .inl ⟨a', b', ha', hb', .refl b'⟩
  | cons s rest ih =>
    have hstate : Ends (step s) w fun _ w₁ => w₁ = (step s w).2 := rfl
    unfold run
    refine (Ends.and (inherits_step hplaces s w) hstate).bind fun answer w₁ h₁ => ?_
    obtain ⟨hstep, rfl⟩ := h₁
    refine (ih (step s w).2).bind ?_
    intro answers w' hrest id a' ha' affinity key b' hb'
    rcases hrest id a' ha' affinity key b' hb' with ⟨a₁, b₁, ha₁, hb₁, hbecomes⟩ |
      ⟨hkey, early, late, a₁, hsplit, ha₁, hmade⟩
    · -- the block was there after the first action, which may have made it
      obtain ⟨a, ha, hinherits⟩ := hstep id a₁ ha₁
      rcases hinherits affinity key b₁ hb₁ with ⟨b, hb, hfirst⟩ | ⟨hkey, hmade⟩
      · exact .inl ⟨a, b, ha, hb, hfirst.trans hbecomes⟩
      · refine .inr ⟨hbecomes.base.trans hkey, [], s :: rest, a, rfl, ha, ?_⟩
        exact hmade.becomes hbecomes
    · exact .inr ⟨hkey, s :: early, late, a₁, congrArg (s :: ·) hsplit, ha₁, hmade⟩

/-- All allocators are as `ofSettings` made them: nothing has been asked of them yet. -/
def Unused (w : World σ) : Prop :=
  ∀ a ∈ w.allocators, ∃ settings nested, a = .ofSettings settings nested

omit [System σ] in
/-- The allocators of an `Unused` world are `Bare`. -/
lemma Unused.bare (h : w.Unused) {id : Nat} {a : Allocator} (ha : w.allocator? id = some a) :
    a.Bare := by
  obtain ⟨settings, nested, rfl⟩ := h a (List.mem_of_getElem? ha)
  exact Allocator.bare_ofSettings settings nested

/-- Every block after a run of an `Unused` world was `Made` in the run. -/
theorem Unused.made_run (h : w.Unused) (hplaces : Promises σ places) (steps : List Step) :
    Ends (run steps) w fun _ w' => ∀ id a', w'.allocator? id = some a' →
      ∀ affinity key b, a'.block? affinity key = some b →
        b.base = key ∧ ∃ early late a, steps = early ++ late ∧
          (run early w).2.allocator? id = some a ∧ b.Made places (a.alignmentFor affinity) := by
  refine (inherits_run hplaces steps w).mono fun _ w' hrun id a' ha' affinity key b hb => ?_
  rcases hrun id a' ha' affinity key b hb with ⟨a, c, ha, hc, -⟩ | hmade
  · rw [(h.bare ha).block?_eq_none] at hc
    exact absurd hc (by simp)
  · exact hmade

end System

end BlockPool.World
