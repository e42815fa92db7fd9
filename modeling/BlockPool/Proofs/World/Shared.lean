import BlockPool.Proofs.World.Past
import BlockPool.World.Shared

/-!
# The allocator of a process, over all its uses

A process installs its allocator with some settings or just uses it, in any order and as often as
it likes. The first use makes the allocator, and no other does: installing it later answers `false`
and leaves nothing but the notice `alreadyInstalled`. So a process is a run on a world with one
allocator, made with the settings of the first use.

Main statement: `useAll_founded`.
-/

namespace BlockPool.World

variable {σ : Type} {w w' : World σ}

/-! ## Uses -/

/-- What a process does with its shared allocator. -/
inductive Use where
  /-- It is installed with some settings. -/
  | install (settings : Settings)
  /-- An action is taken, and whatever the action is, the allocator is there for it. -/
  | act (s : Step)

/-- The settings that an allocator is made with by its first use. -/
def Use.settings : Use → Settings
  | .install settings => settings
  | .act _ => .standard

/-- The action of a use, if it is one. -/
def Use.step? : Use → Option Step
  | .install _ => none
  | .act s => some s

/-- A world with the one allocator of a process, as `ofSettings` makes it. -/
def founded (w : World σ) (settings : Settings) : World σ :=
  { w with allocators := [.ofSettings settings []] }

/-- A world where somebody tried to install an allocator that was there, with `alreadyInstalled` in
its log. -/
def warned (w : World σ) : World σ := w.logging [.noted .alreadyInstalled]

/-- A world without the notices that are `alreadyInstalled`. -/
def disregarding (w : World σ) : World σ :=
  w.recalling (w.memory.log.filter (· ≠ .noted .alreadyInstalled))

lemma disregarding_warned (w : World σ) : w.warned.disregarding = w.disregarding := by
  unfold disregarding warned logging recalling
  simp

/-! ## Making and installing -/

/-- `installShared` makes the allocator if there is none. -/
lemma installShared_of_new (hnew : w.allocators = []) (settings : Settings) :
    installShared settings w = (true, w.founded settings) := by
  have hempty : w.allocators.isEmpty = true := List.isEmpty_iff.2 hnew
  unfold installShared
  show (if w.allocators.isEmpty then _ else _ : WorldM σ Bool) w = _
  rw [if_pos hempty]
  rfl

/-- `installShared` answers `false` if the allocator is there, and leaves nothing but a warning. -/
lemma installShared_of_there (hthere : w.allocators ≠ []) (settings : Settings) :
    installShared settings w = (false, w.warned) := by
  have hempty : ¬ w.allocators.isEmpty = true := fun h => hthere (List.isEmpty_iff.1 h)
  unfold installShared
  show (if w.allocators.isEmpty then _ else _ : WorldM σ Bool) w = _
  rw [if_neg hempty]
  rfl

/-- `ensureShared` makes the allocator with the standard settings if there is none. -/
lemma ensureShared_of_new (hnew : w.allocators = []) :
    ensureShared w = ((), w.founded .standard) := by
  unfold ensureShared
  rw [hnew]
  rfl

/-- `ensureShared` does nothing if the allocator is there. -/
lemma ensureShared_of_there (hthere : w.allocators ≠ []) : ensureShared w = ((), w) := by
  unfold ensureShared
  rw [if_neg fun h => hthere (List.isEmpty_iff.1 h)]

section System

variable [System σ]

/-! ## Runs of uses -/

/-- Uses the allocator of a process. `installShared` answers whether this made it, and a step comes
after `ensureShared`. -/
def use : Use → WorldM σ (Bool ⊕ Answer)
  | .install settings => Sum.inl <$> installShared settings
  | .act s => ensureShared >>= fun _ => Sum.inr <$> step s

/-- The answers to a sequence of uses. -/
def useAll : List Use → WorldM σ (List (Bool ⊕ Answer))
  | [] => pure []
  | u :: rest => do
    let answer ← use u
    let answers ← useAll rest
    pure (answer :: answers)

/-- Installing an allocator that is there is in vain. -/
lemma use_install_of_there (hthere : w.allocators ≠ []) (settings : Settings) :
    use (.install settings) w = (.inl false, w.warned) := by
  show Prod.map Sum.inl id (installShared settings w) = _
  rw [installShared_of_there hthere]
  rfl

/-- An action on an allocator that is there is that action and no more. -/
lemma use_act_of_there (hthere : w.allocators ≠ []) (s : Step) :
    use (.act s) w = (.inr (step s w).1, (step s w).2) := by
  unfold use
  exact bind_apply_eq (ensureShared_of_there hthere)

/-- The first use makes the allocator with the settings that it names, or with the standard ones. -/
lemma use_of_new (hnew : w.allocators = []) (u : Use) :
    use u w = match u with
      | .install settings => (.inl true, w.founded settings)
      | .act s => (.inr (step s (w.founded .standard)).1, (step s (w.founded .standard)).2) := by
  cases u with
  | install settings =>
    show Prod.map Sum.inl id (installShared settings w) = _
    rw [installShared_of_new hnew]
    rfl
  | act s => exact bind_apply_eq (ensureShared_of_new hnew)

/-! ## How many allocators there are -/

lemma pooling_length :
    Pooling fun w w' : World σ => w'.allocators.length = w.allocators.length where
  refl _ := rfl
  trans h h' := h'.trans h
  memory _ _ _ := rfl
  allocatePooled _ _ _ := Ends.trivial.mono fun _ _ _ => List.length_set
  deallocatePooled _ _ _ := Ends.trivial.mono fun _ _ _ => List.length_set

/-- No action makes an allocator or takes one away. -/
lemma length_step (s : Step) (w : World σ) :
    Ends (step s) w fun _ w' => w'.allocators.length = w.allocators.length := by
  have hchange : ∀ (id : Nat) (action : Allocator → MemoryM σ Allocator),
      Ends (change id action) w fun _ w' => w'.allocators.length = w.allocators.length :=
    fun id action => ends_change (fun _ => rfl) fun _ _ =>
      Ends.trivial.mono fun _ _ _ => List.length_set
  have hrequests : ∀ s : Step, s.Requests →
      Ends (step s) w fun _ w' => w'.allocators.length = w.allocators.length :=
    fun s hs => (pooling_length.requesting fun _ _ => rfl).step hs w
  cases s with
  | compact id =>
    exact Ends.map (ends_onAllocator (fun _ => rfl) fun _ _ =>
      Ends.trivial.mono fun _ _ _ => List.length_set)
  | setBlockSize id affinity blockSize => exact hchange ..
  | configureGroup id group => exact hchange ..
  | setTracking id tracking => exact hchange ..
  | addStrategy id strategy => exact hchange ..
  | reset id settings => exact hchange ..
  | _ => exact hrequests _ True.intro

/-- An allocator that is there stays there. -/
lemma there_step (hthere : w.allocators ≠ []) (s : Step) : (step s w).2.allocators ≠ [] := by
  have hlength : (step s w).2.allocators.length = w.allocators.length := length_step s w
  rw [← List.length_pos_iff, hlength]
  exact List.length_pos_iff.2 hthere

/-! ## Installing without effect -/

/-- Worlds that are the same but for notices of allocators that were there already answer an action
the same, and are then again the same but for such notices. -/
lemma step_disregarding (hsame : w.disregarding = w'.disregarding) (s : Step) :
    (step s w).1 = (step s w').1 ∧
      (step s w).2.disregarding = (step s w').2.disregarding := by
  have hrecalling : w.disregarding.recalling w'.memory.log =
      w'.disregarding.recalling w'.memory.log := by
    rw [hsame]
  have hlog : w.memory.log.filter (· ≠ .noted .alreadyInstalled) =
      w'.memory.log.filter (· ≠ .noted .alreadyInstalled) :=
    congrArg (fun w => w.memory.log) hsame
  obtain ⟨events, hevents, hafter⟩ := (oblivious_step s).exists_events w
  have hother : step s w' = ((step s w).1, (step s w).2.recalling (events ++ w'.memory.log)) := by
    rw [← hafter w'.memory.log]
    exact congrArg (step s) hrecalling.symm
  rw [hother]
  refine ⟨rfl, ?_⟩
  unfold disregarding
  rw [hevents, List.filter_append, hlog, ← List.filter_append]
  rfl

/-- Once the allocator is there, installing it has no part in what a process does: its uses are a
`run` of their actions, and no installation makes an allocator. -/
lemma useAll_of_there (hthere : w.allocators ≠ []) (hsame : w.disregarding = w'.disregarding)
    (uses : List Use) :
    Ends (useAll uses) w fun answers w₁ =>
      Ends (run (uses.filterMap Use.step?)) w' fun answers' w₂ =>
        answers.filterMap Sum.getRight? = answers' ∧ w₁.disregarding = w₂.disregarding ∧
          w₁.allocators.length = w.allocators.length ∧ .inl true ∉ answers := by
  induction uses generalizing w w' with
  | nil => exact ⟨rfl, hsame, rfl, List.not_mem_nil⟩
  | cons u rest ih =>
    cases u with
    | install settings =>
      have hwarned : w.warned.allocators ≠ [] := hthere
      obtain ⟨hanswers, hworld, hlength, hmade⟩ :=
        ih hwarned ((disregarding_warned w).trans hsame)
      unfold Ends useAll
      rw [bind_apply_eq (use_install_of_there hthere settings)]
      exact ⟨hanswers, hworld, hlength, List.not_mem_cons_of_ne_of_not_mem (by simp) hmade⟩
    | act s =>
      obtain ⟨hanswer, hsame'⟩ := step_disregarding hsame s
      obtain ⟨hanswers, hworld, hlength, hmade⟩ := ih (there_step hthere s) hsame'
      unfold Ends useAll
      rw [bind_apply_eq (use_act_of_there hthere s)]
      refine ⟨congrArg₂ List.cons hanswer hanswers, hworld,
        hlength.trans (length_step s w), ?_⟩
      exact List.not_mem_cons_of_ne_of_not_mem (by simp) hmade

/-! ## All uses of a process -/

/-- However a process uses its allocator, this is made once, by the first use and with the settings
of that use. The uses are then a `run` of their actions on it: they answer the same, and what is
left differs by notices `alreadyInstalled` alone. Of all answers only the first can be that the
allocator was made, and is if the first use installs it. -/
theorem useAll_founded (hnew : w.allocators = []) (first : Use) (rest : List Use) :
    Ends (useAll (first :: rest)) w fun answers w₁ =>
      Ends (run ((first :: rest).filterMap Use.step?)) (w.founded first.settings)
        fun answers' w₂ => answers.filterMap Sum.getRight? = answers' ∧
          w₁.disregarding = w₂.disregarding ∧ w₁.allocators.length = 1 ∧
          .inl true ∉ answers.tail ∧
          ((∃ settings, first = .install settings) ↔ answers.head? = some (.inl true)) := by
  have hthere : ∀ settings, (w.founded settings).allocators ≠ [] :=
    fun settings h => List.cons_ne_nil _ _ h
  cases first with
  | install settings =>
    obtain ⟨hanswers, hworld, hlength, hmade⟩ := useAll_of_there (hthere settings) rfl rest
    unfold Ends useAll
    rw [bind_apply_eq (use_of_new hnew (.install settings))]
    exact ⟨hanswers, hworld, hlength, hmade, ⟨fun _ => rfl, fun _ => ⟨settings, rfl⟩⟩⟩
  | act s =>
    obtain ⟨hanswers, hworld, hlength, hmade⟩ :=
      useAll_of_there (there_step (hthere .standard) s) rfl rest
    unfold Ends useAll
    rw [bind_apply_eq (use_of_new hnew (.act s))]
    refine ⟨congrArg (List.cons _) hanswers, hworld,
      hlength.trans (length_step s (w.founded .standard)), hmade, ?_⟩
    constructor
    · rintro ⟨settings, heq⟩
      exact Use.noConfusion heq
    · intro heq
      have hanswer : (.inr (step s (w.founded .standard)).1 : Bool ⊕ Answer) = .inl true :=
        Option.some.inj heq
      exact absurd hanswer Sum.inr_ne_inl

end System

end BlockPool.World
