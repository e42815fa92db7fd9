import BlockPool.Memory.Arena
import BlockPool.Proofs.Allocator.Muted
import BlockPool.Proofs.World.Descent
import BlockPool.Proofs.World.View
import BlockPool.World.Teardown

/-!
# Worlds without their switches

Muting a world takes its switches away, and out of its log the notices that depend on them. A run of
the muted world, with the muted actions, is the muted run. So two runs that differ in their switches
alone have the same image: they answer the same, and nothing but informative notices and the
switches themselves can tell them apart.

The self-checks are what makes this more than bookkeeping. They report errors, and these stay in the
log; no check ever has anything to report.

Main statement: runs of unused worlds that differ only in their switches have equal answers and
end, up to the switches and the informative notices, in equal worlds. Where reporting is never
switched on, no informative notice is given.
-/

namespace BlockPool

/-! ## Heaps -/

namespace Heap

variable {σ : Type} [System σ] {loud : Bool} (m : Memory σ)

/-- `Heap.allocate` has nothing to do with what is heard. -/
lemma mutes_allocate (h : Heap) (size : Nat) :
    Memory.Mutes loud (fun answer => answer) (h.allocate size) (h.allocate size) m := by
  unfold allocate
  cases h.source with
  | sized =>
    simp only
    split
    · exact Memory.mutes_request _ _ m
    · exact .pure none m
  | unsized =>
    refine (Memory.mutes_request _ _ m).bind fun answer m₁ => ?_
    cases answer with
    | none => exact .pure none m₁
    | some address =>
      simp only
      split
      · exact .pure _ m₁
      · have hwarning : (Notice.unsizedMisaligned address h.alignment).severity ≠ .info :=
          Severity.noConfusion
        refine (Memory.mutes_note (Notice.isHeard_of_severity hwarning loud) m₁).bind fun _ m₂ => ?_
        exact (Memory.mutes_release _ m₂).bind fun _ m₃ => .pure none m₃

omit [System σ] in
lemma mutes_deallocate (h : Heap) (address size : Nat) :
    Memory.Mutes loud (fun answer => answer) (h.deallocate address size)
      (h.deallocate address size) m := by
  unfold deallocate
  split
  · have herror : (Notice.layoutRejected address size).severity ≠ .info := Severity.noConfusion
    refine (Memory.mutes_note (Notice.isHeard_of_severity herror loud) m).bind fun _ m₁ => ?_
    exact .pure false m₁
  · exact (Memory.mutes_release _ m).bind fun _ m₁ => .pure true m₁

end Heap

namespace World

variable {σ : Type} {α β : Type} {loud : Bool} {w w' : World σ} {places : Region → Prop}

/-- A world with each of its allocators `muted`, and only the events in its log that are
`isHeard`. -/
def muted (loud : Bool) (w : World σ) : World σ :=
  { memory := w.memory.muted loud
    allocators := w.allocators.map (Allocator.muted loud)
    boxes := w.boxes }

/-- The `View` of muted worlds. -/
def muting (σ : Type) (loud : Bool) : View σ := ⟨Memory.muted loud, Allocator.muted loud⟩

/-- `Block.Ok` holds of every block. -/
def BlocksOk (w : World σ) : Prop := ∀ id a, w.allocator? id = some a → a.BlocksOk

/-- `BlocksOk` survives `Inherits`. -/
lemma Inherits.blocksOk (h : w.Inherits places w') (hw : w.BlocksOk) : w'.BlocksOk := by
  intro id a' ha'
  obtain ⟨a, ha, hinherits⟩ := h id a' ha'
  exact hinherits.blocksOk (hw id a ha)

/-- `BlocksOk` holds of an `Unused` world. -/
lemma Unused.blocksOk (h : w.Unused) : w.BlocksOk := fun _ _ ha => (h.bare ha).blocksOk

/-- What `x` does to worlds `y` does to the muted worlds. -/
def Mutes (loud : Bool) (x y : WorldM σ α) : Prop := (muting σ loud).Agree BlocksOk x y

lemma Mutes.pure (a : α) : Mutes loud (Pure.pure a : WorldM σ α) (Pure.pure a) :=
  View.Agree.pure a

/-- `Mutes` composes along `>>=`. -/
lemma Mutes.bind {x y : WorldM σ α} {f g : α → WorldM σ β} (hx : Mutes loud x y)
    (hf : ∀ a, Mutes loud (f a) (g a)) : Mutes loud (x >>= f) (y >>= g) := View.Agree.bind hx hf

lemma Mutes.map {x y : WorldM σ α} (f : α → β) (hx : Mutes loud x y) :
    Mutes loud (f <$> x) (f <$> y) := View.Agree.map f hx

/-- `onMemory` does the same to muted worlds if its action does to muted memory. -/
lemma mutes_onMemory {x y : MemoryM σ α} (h : ∀ m, Memory.Mutes loud (fun a => a) x y m) :
    Mutes loud (onMemory x) (onMemory y) := by
  intro w hw
  have hxy : y (w.memory.muted loud) = ((x w.memory).1, (x w.memory).2.muted loud) :=
    (h w.memory).eq
  refine ⟨?_, hw⟩
  show ((y (w.memory.muted loud)).1,
    ({ w.muted loud with memory := (y (w.memory.muted loud)).2 } : World σ)) = _
  rw [hxy]
  rfl

/-- `onAllocator` does the same to muted worlds if its action does to a muted allocator, and
inherits its blocks. -/
lemma mutes_onAllocator (id : Nat) {x y : Allocator → MemoryM σ (α × Allocator)}
    (h : ∀ a m, Memory.Mutes loud (fun out => (out.1, out.2.muted loud)) (x a)
      (y (a.muted loud)) m)
    (hinherits : ∀ a m, Ends (x a) m fun out _ => a.Inherits (fun _ => True) out.2) :
    Mutes loud (onAllocator id x) (onAllocator id y) :=
  View.agree_onAllocator fun {w a} hw ha =>
    ((h a w.memory).and (hinherits a w.memory)).mono fun _ m' hpost =>
      (inherits_update ha hpost.2 m').blocksOk hw

/-- `World.change` does the same to muted worlds if its action does to a muted allocator, and
inherits its blocks. -/
lemma mutes_change (id : Nat) {x y : Allocator → MemoryM σ Allocator}
    (h : ∀ a m, Memory.Mutes loud (Allocator.muted loud) (x a) (y (a.muted loud)) m)
    (hinherits : ∀ a m, Ends (x a) m fun a' _ => a.Inherits (fun _ => True) a') :
    Mutes loud (change id x) (change id y) := by
  unfold change
  refine (mutes_onAllocator id (fun a m => ?_) fun a m => ?_).bind fun result => .pure _
  · exact (h a m).bind fun a' m' => .pure ((), a') m'
  · exact (hinherits a m).bind fun _ _ hpost => hpost

/-! ## Requests and returns -/

/-- `muting` respects what requests and returns do with groups. -/
lemma respects_muting : (muting σ loud).Respects BlocksOk where
  alignment a affinity := a.alignmentFor_muted affinity
  nested _ := rfl
  note _ h := mutes_onMemory fun m => Memory.mutes_note (Notice.isHeard_of_severity h loud) m
  noteIf _ _ h := mutes_onMemory fun m => Memory.mutes_noteIf h _ m

variable [System σ]

lemma mutes_heap (heap : Heap) (size : Nat) (affinity : Affinity) (links : Links σ) :
    (muting σ loud).AgreeOn BlocksOk size affinity links (.heap heap) :=
  ⟨mutes_onMemory fun m => heap.mutes_allocate m size,
    fun address => mutes_onMemory fun m => heap.mutes_deallocate m address size⟩

lemma mutes_foreign (id : Nat) (name : String) (size : Nat) (affinity : Affinity)
    (links : Links σ) :
    (muting σ loud).AgreeOn BlocksOk size affinity links (.foreign id name) :=
  ⟨mutes_onMemory fun m => Memory.mutes_askForeign id name size affinity m,
    fun address => mutes_onMemory fun m => Memory.mutes_returnForeign id name address size m⟩

/-- Whatever strategies there are, walks along chains do the same to muted worlds. -/
lemma family_muting (size : Nat) (affinity : Affinity) :
    (muting σ loud).Family BlocksOk size affinity fun _ => True where
  allocatePooled {w id a} hw _ ha := by
    have hcontinues := Allocator.continues_allocatePooled w.memory (promises_true σ) a size affinity
    refine ((a.mutes_allocatePooled w.memory (hw id a ha) size affinity).and hcontinues).mono ?_
    exact fun _ m' hpost => (continues_update ha hpost.2 m').inherits.blocksOk hw
  deallocatePooled {w id a} hw _ ha address := by
    have hcontinues : Ends (a.deallocatePooled address size) w.memory fun out _ =>
        a.Continues (fun _ => True) out.2 := Allocator.continues_deallocatePooled ..
    refine ((a.mutes_deallocatePooled w.memory (hw id a ha) address size).and hcontinues).mono ?_
    exact fun _ m' hpost => (continues_update ha hpost.2 m').inherits.blocksOk hw
  nested _ _ _ s _ := by
    cases s with
    | allocator j owned => exact .inl ⟨j, owned, rfl, trivial⟩
    | heap heap => exact .inr fun links => mutes_heap heap size affinity links
    | foreign id name => exact .inr fun links => mutes_foreign id name size affinity links

lemma mutes_strategies (a : Allocator) (chain : Chain) :
    (a.muted loud).strategies chain = a.strategies chain := by cases chain <;> rfl

/-- `World.allocate` does the same to muted worlds. -/
lemma mutes_allocate (id : Nat) (chain : Chain) (size : Nat) (affinity : Affinity) :
    Mutes loud (allocate id chain size affinity : WorldM σ _) (allocate id chain size affinity) :=
  View.agree_allocate respects_muting (family_muting size affinity) trivial
    (fun a => mutes_strategies a chain) fun _ heap links => mutes_heap heap size affinity links

lemma mutes_deallocate (id : Nat) (chain : Chain) (address size : Nat) :
    Mutes loud (deallocate id chain address size : WorldM σ _)
      (deallocate id chain address size) :=
  View.agree_deallocate respects_muting (family_muting size default) trivial
    (fun a => mutes_strategies a chain) (fun _ heap links => mutes_heap heap size default links)
    address

/-! ## Boxes -/

/-- `muting` respects what is done with boxes. -/
lemma boxing_muting : (muting σ loud).Boxing BlocksOk where
  toRespects := respects_muting
  boxes hw _ := hw
  record event h := mutes_onMemory fun m => Memory.mutes_record (by
    cases event with
    | noted notice => exact absurd rfl (h notice)
    | _ => rfl) m
  allocate id size affinity := mutes_allocate id .full size affinity
  deallocate id address size := mutes_deallocate id .full address size

lemma mutes_dropBoxed (index : Nat) :
    Mutes loud (dropBoxed index : WorldM σ Bool) (dropBoxed index) := boxing_muting.dropBoxed index

/-! ## Runs -/

/-- A step with the switches in it `muted`. -/
def Step.muted (loud : Bool) : Step → Step
  | .setTracking id tracking => .setTracking id (tracking.muted loud)
  | .reset id settings => .reset id (settings.muted loud)
  | s => s

/-- A `Step` on a world is mirrored by `Step.muted` on the muted world. -/
theorem mutes_step (s : Step) :
    Mutes loud (step s : WorldM σ Answer) (step (s.muted loud)) := by
  cases s with
  | allocate id chain size affinity => exact (mutes_allocate id chain size affinity).map _
  | deallocate id chain address size => exact (mutes_deallocate id chain address size).map _
  | compact id =>
    refine (mutes_onAllocator id (fun a m => a.mutes_compact m) fun a m => ?_).map _
    exact Allocator.inherits_compact m a
  | setBlockSize id affinity blockSize =>
    exact mutes_change id (fun a m => a.mutes_setBlockSize m affinity blockSize)
      fun a m => a.inherits_setBlockSize m affinity blockSize
  | configureGroup id group =>
    exact mutes_change id (fun a m => a.mutes_configureGroup m group)
      fun a m => a.inherits_configureGroup m group
  | setTracking id tracking =>
    refine mutes_change id (fun a m => ?_) fun a m => ?_
    · rw [← a.muted_setTracking]
      exact .pure _ m
    · exact Allocator.inherits_mapValues rfl fun g => g.inherits_setTracking tracking
  | addStrategy id strategy =>
    exact mutes_change id (fun a m => .pure _ m)
      fun a m => Allocator.inherits_of_groups_eq rfl
  | reset id settings =>
    exact mutes_change id (fun a m => a.mutes_reset m settings)
      fun a m => a.inherits_reset settings m
  | newBoxed id layout value affinity =>
    exact Mutes.map _ (boxing_muting.newBoxed id layout value affinity)
  | replaceBoxed index value => exact Mutes.map _ (boxing_muting.replaceBoxed index value)
  | dropBoxed index =>
    refine (mutes_dropBoxed index).bind fun found => ?_
    cases found <;> exact .pure _
  | unbox index => exact Mutes.map _ (boxing_muting.unbox index)

/-- A run of a world is mirrored by the run of the muted steps on the muted world, by induction on
`steps`. -/
theorem mutes_run (steps : List Step) :
    Mutes loud (run steps : WorldM σ _) (run (steps.map (Step.muted loud))) := by
  induction steps with
  | nil => exact .pure []
  | cons s rest ih =>
    rw [List.map_cons]
    unfold run
    exact (mutes_step s).bind fun answer => ih.bind fun answers => .pure _

/-! ## The end -/

lemma mutes_dropAllBoxed (indices : List Nat) :
    Mutes loud (dropAllBoxed indices : WorldM σ Unit) (dropAllBoxed indices) := by
  induction indices with
  | nil => exact .pure ()
  | cons index rest ih => exact (mutes_dropBoxed index).bind fun _ => ih

omit [System σ] in
/-- `goingWith` has nothing to do with the switches. -/
lemma goingWith_muted (allocators : List Allocator) (depth id : Nat) :
    goingWith (allocators.map (Allocator.muted loud)) depth id = goingWith allocators depth id := by
  induction depth generalizing id with
  | zero => rfl
  | succ depth ih =>
    have howned : ((allocators.map (Allocator.muted loud))[id]?).map ownedBy =
        (allocators[id]?).map ownedBy := by
      rw [List.getElem?_map, Option.map_map]
      rfl
    unfold goingWith
    rw [howned, funext ih]

omit [System σ] in
lemma goingOrder_muted (allocators : List Allocator) :
    goingOrder (allocators.map (Allocator.muted loud)) = goingOrder allocators := by
  have howned : (allocators.map (Allocator.muted loud)).flatMap ownedBy =
      allocators.flatMap ownedBy := List.flatMap_map ..
  unfold goingOrder
  rw [howned, List.length_map, funext (goingWith_muted allocators allocators.length)]

omit [System σ] in
lemma mutes_giveBackAll (order : List Nat) :
    Mutes loud (giveBackAll order : WorldM σ Unit) (giveBackAll order) := by
  induction order with
  | nil => exact .pure ()
  | cons id rest ih =>
    refine (mutes_onAllocator id (fun a m => ?_) fun a m => ?_).bind fun _ => ih
    · exact (a.mutes_giveBack m).bind fun a' m' => .pure ((), a') m'
    · have hbare : Allocator.Bare { a with groups := .empty } := fun _ _ hfind => by
        simp at hfind
      exact hbare.inherits

/-- Everything goes: `dropBoxes`, and then `dropAllocators`. -/
def dropAll : WorldM σ Unit := do
  dropBoxes
  dropAllocators

/-- `dropAll` does the same to muted worlds. -/
lemma mutes_dropAll : Mutes loud (dropAll : WorldM σ Unit) dropAll := by
  have hboxes : Mutes loud (dropBoxes : WorldM σ Unit) dropBoxes :=
    fun w hw => Mirrors.get_bind (mutes_dropAllBoxed _ w hw)
  refine hboxes.bind fun _ w hw => ?_
  apply Mirrors.get_bind
  rw [show ((muting σ loud).world w).allocators = w.allocators.map (Allocator.muted loud) from rfl,
    goingOrder_muted]
  exact mutes_giveBackAll _ w hw

/-! ## Two runs -/

section Runs

variable {x x' y : WorldM σ α}

omit [System σ] in
lemma Mutes.eq (h : Mutes loud x y) (hw : w.BlocksOk) :
    y (w.muted loud) = ((x w).1, (x w).2.muted loud) := Mirrors.eq (h w hw)

omit [System σ] in
lemma Mutes.blocksOk (h : Mutes loud x y) (hw : w.BlocksOk) : (x w).2.BlocksOk :=
  Mirrors.ends (h w hw)

omit [System σ] in
/-- Two actions that `Mutes` relates to the same one cannot be told apart where muted worlds
cannot. -/
lemma Mutes.unobserved (h : Mutes loud x y) (h' : Mutes loud x' y) (hw : w.BlocksOk)
    (hw' : w'.BlocksOk) (hworlds : w.muted loud = w'.muted loud) :
    (x w).1 = (x' w').1 ∧ (x w).2.muted loud = (x' w').2.muted loud := by
  have hboth : ((x w).1, (x w).2.muted loud) = ((x' w').1, (x' w').2.muted loud) := by
    rw [← h.eq hw, ← h'.eq hw', hworlds]
  exact Prod.mk.inj hboth

/-- No notice in the log has the severity `info`. -/
def Silent (w : World σ) : Prop :=
  ∀ notice, .noted notice ∈ w.memory.log → notice.severity ≠ .info

omit [System σ] in
/-- A world is `Silent` if being loud makes no difference to it. -/
lemma silent_of_muted_eq (h : w.muted true = w.muted false) : w.Silent := by
  intro notice hmem hinfo
  have hlog : w.memory.log.filter (·.isHeard true) = w.memory.log.filter (·.isHeard false) :=
    congrArg (·.memory.log) h
  have hheard : .noted notice ∈ w.memory.log.filter (·.isHeard false) := by
    rw [← hlog]
    exact List.mem_filter.2 ⟨hmem, rfl⟩
  have hsilent := (List.mem_filter.1 hheard).2
  simp [Event.isHeard, Notice.isHeard, hinfo] at hsilent

omit [System σ] in
/-- An `Unused` world that is `Silent` and does not report is the same, loud or not. -/
lemma Unused.muted_eq (h : w.Unused) (hsilent : w.Silent)
    (hreport : ∀ a ∈ w.allocators, a.tracking.report = false) :
    w.muted true = w.muted false := by
  have hlog : w.memory.log.filter (·.isHeard true) = w.memory.log.filter (·.isHeard false) := by
    refine List.filter_congr fun event hmem => ?_
    cases event with
    | noted notice =>
      have hheard := Notice.isHeard_of_severity (hsilent notice hmem)
      exact (hheard true).trans (hheard false).symm
    | _ => rfl
  have hallocators : w.allocators.map (Allocator.muted true) =
      w.allocators.map (Allocator.muted false) := by
    refine List.map_congr_left fun a ha => ?_
    have hreport := hreport a ha
    obtain ⟨settings, nested, rfl⟩ := h a ha
    have hsettings : settings.muted true = settings.muted false := by
      have htracking : settings.tracking.report = false := hreport
      unfold Settings.muted Tracking.muted
      rw [htracking]
      rfl
    rw [Allocator.muted_ofSettings, Allocator.muted_ofSettings, hsettings]
  unfold muted Memory.muted
  rw [hlog, hallocators]

/-- Whether a step switches `report` on. -/
def Step.reports : Step → Bool
  | .setTracking _ tracking => tracking.report
  | .reset _ settings => settings.tracking.report
  | _ => false

omit [System σ] in
/-- A step that does not switch reporting on is the same, loud or not. -/
lemma Step.muted_eq {s : Step} (h : s.reports = false) : s.muted true = s.muted false := by
  have hquiet : ∀ tracking : Tracking, tracking.report = false →
      tracking.muted true = tracking.muted false := by
    intro tracking hreport
    unfold Tracking.muted
    rw [hreport]
    rfl
  cases s with
  | setTracking id tracking => exact congrArg (setTracking id) (hquiet tracking h)
  | reset id settings =>
    have htracking := hquiet settings.tracking h
    unfold Step.muted Settings.muted
    simp only [htracking]
  | _ => rfl

/-- No allocator reports at the start, and no step `reports`. -/
structure NeverReports (w : World σ) (steps : List Step) : Prop where
  allocators : ∀ a ∈ w.allocators, a.tracking.report = false
  steps : ∀ s ∈ steps, s.reports = false

/-- Runs of `Unused` worlds that differ only in their switches answer the same, and they end in
worlds that differ only in switches and informative notices: the system was asked for the same and
got the same back, strategies were asked the same, warnings and errors are the same, and so is every
block. This is still so when everything has gone. Where reporting is never switched on there are no
informative notices. -/
theorem Unused.run_unobserved (h : w.Unused) (h' : w'.Unused)
    (hworlds : w.muted false = w'.muted false) {steps steps' : List Step}
    (hsteps : steps.map (Step.muted false) = steps'.map (Step.muted false)) :
    Ends (run steps) w fun answers w₁ => Ends (run steps') w' fun answers' w₁' =>
      answers = answers' ∧ w₁.muted false = w₁'.muted false ∧
        (dropAll w₁).2.muted false = (dropAll w₁').2.muted false ∧
        (w.Silent → w.NeverReports steps → w₁.Silent ∧ (dropAll w₁).2.Silent) := by
  have hrun : Mutes false (run steps : WorldM σ _) (run (steps.map (Step.muted false))) :=
    mutes_run steps
  have hrun' : Mutes false (run steps' : WorldM σ _) (run (steps.map (Step.muted false))) :=
    hsteps ▸ mutes_run steps'
  have hok := hrun.blocksOk h.blocksOk
  obtain ⟨hanswers, hends⟩ := hrun.unobserved hrun' h.blocksOk h'.blocksOk hworlds
  have hgone := mutes_dropAll.unobserved mutes_dropAll hok (hrun'.blocksOk h'.blocksOk) hends
  refine ⟨hanswers, hends, hgone.2, fun hsilent hnever => ?_⟩
  -- a run that never reports has the same loud and silent mirror
  have hloud : Mutes true (run steps : WorldM σ _) (run (steps.map (Step.muted false))) := by
    have hquiet : steps.map (Step.muted true) = steps.map (Step.muted false) :=
      List.map_congr_left fun s hs => Step.muted_eq (hnever.steps s hs)
    exact hquiet ▸ mutes_run steps
  have hsame : (run steps w).2.muted true = (run steps w).2.muted false := by
    have hstart := h.muted_eq hsilent hnever.allocators
    have hboth := (hloud.eq h.blocksOk).symm.trans ((congrArg _ hstart).trans (hrun.eq h.blocksOk))
    exact (Prod.mk.inj hboth).2
  refine ⟨silent_of_muted_eq hsame, silent_of_muted_eq ?_⟩
  have hboth := (mutes_dropAll.eq hok).symm.trans ((congrArg _ hsame).trans (mutes_dropAll.eq hok))
  exact (Prod.mk.inj hboth).2

end Runs

/-- An allocator with another one nested in it, and with some switches. -/
def switched (tracking : Tracking) : World Arena :=
  .ofSettings (.new 4096 .low)
    [({ defaultBlockSize := 256, tracking }, [{ defaultBlockSize := 256, tracking }])]

/-- A slot and a box, a return to nobody, and everything anew, with some switches. -/
def useSwitched (tracking : Tracking) : List Step :=
  [.allocate 0 .full 24 .objects, .setTracking 0 tracking,
    .newBoxed 0 ⟨8, 8⟩ ⟨"7", none⟩ .data, .deallocate 0 .full 5 8, .dropBoxed 0, .compact 0,
    .reset 0 { tracking }]

lemma unused_switched (tracking : Tracking) : (switched tracking).Unused := by
  intro a ha
  have ha : a ∈ [Allocator.ofSettings { defaultBlockSize := 256, tracking } [.allocator 1 true],
      .ofSettings { defaultBlockSize := 256, tracking } []] := ha
  simp only [List.mem_cons, List.not_mem_nil, or_false] at ha
  rcases ha with rfl | rfl <;> exact ⟨_, _, rfl⟩

/-- With all switches on there is more in the log, and that is all. -/
theorem run_unobserved_all_switches :
    (switched ⟨true, true⟩).Unused ∧ (switched {}).Unused ∧
      Ends (run (useSwitched {})) (switched {}) fun answers w₁ =>
        Ends (run (useSwitched ⟨true, true⟩)) (switched ⟨true, true⟩) fun answers' w₁' =>
          answers = answers' ∧ w₁.muted false = w₁'.muted false ∧ w₁.Silent ∧
            w₁.memory.log.length < w₁'.memory.log.length := by
  have hsilent : (switched {}).Silent := fun _ hmem => absurd hmem List.not_mem_nil
  have hnever : (switched {}).NeverReports (useSwitched {}) := ⟨by decide, by decide⟩
  have h := (unused_switched {}).run_unobserved (unused_switched ⟨true, true⟩) rfl
    (show (useSwitched {}).map (Step.muted false) =
      (useSwitched ⟨true, true⟩).map (Step.muted false) from rfl)
  exact ⟨unused_switched _, unused_switched _, h.1, h.2.1, (h.2.2.2 hsilent hnever).1,
    by decide +kernel⟩

end World

end BlockPool
