import BlockPool.Proofs.Allocator.Tracking
import BlockPool.Proofs.World.Alignment

/-!
# The switches of an allocator

The switches of an allocator are those that were set last, by an action that sets them or by one
that starts the allocator anew. No other action has a part in that, whoever it is done with.

Main statement: after any run, every block of an allocator has the switches that were set last for
the allocator, whether it was made before or after that.

Nothing is assumed about the blocks or about the system.
-/

namespace BlockPool

/-- The switches of an allocator after a step. -/
def Tracking.after (id : Nat) (tracking : Tracking) : World.Step → Tracking
  | .setTracking j tracking' => if j = id then tracking' else tracking
  | .reset j settings => if j = id then settings.tracking else tracking
  | _ => tracking

namespace World

variable {σ : Type} {w : World σ} {id : Nat} {tracking tracking' : Tracking}

/-- There is an allocator of a number that `Tracks` some switches. -/
def HasTracking (w : World σ) (id : Nat) (tracking : Tracking) : Prop :=
  w.Has id (·.Tracks tracking)

/-! ## Actions -/

/-- `HasTracking` survives `World.change`, with other switches for the one allocator. -/
lemma HasTracking.change (h : w.HasTracking id tracking) {j : Nat}
    {action : Allocator → MemoryM σ Allocator} (hother : j ≠ id → tracking' = tracking)
    (haction : ∀ a, j = id → a.Tracks tracking →
      Ends (action a) w.memory fun a' _ => a'.Tracks tracking') :
    Ends (World.change j action) w fun _ w' => w'.HasTracking id tracking' :=
  Has.change h (fun hj _ htracks => hother hj ▸ htracks) haction

/-- `HasTracking` survives `update` by an allocator that keeps its switches. -/
lemma HasTracking.update (h : w.HasTracking id tracking) {j : Nat} {a a' : Allocator}
    (ha : w.allocator? j = some a) (hkeeps : a.Tracks tracking → a'.Tracks tracking)
    (m : Memory σ) : (w.update j a' m).HasTracking id tracking :=
  Has.update h ha (fun _ _ hb => hb) (fun _ => hkeeps) m

variable [System σ]

/-- Requests and returns leave all switches as they are, as `Requesting` says. -/
lemma requesting_tracking (id : Nat) :
    Requesting fun w w' : World σ =>
      ∀ tracking, w.HasTracking id tracking → w'.HasTracking id tracking := by
  refine Pooling.requesting ⟨⟨fun _ _ h => h, fun h h' _ hw => h' _ (h _ hw), fun _ _ _ _ h => h⟩,
    fun {w j a} ha size affinity => ?_, fun {w j a} ha address size => ?_⟩ fun _ _ _ h => h
  · exact fun tracking h => h.update ha (fun htracks =>
      htracks.allocatePooled w.memory size affinity) _
  · exact fun tracking h => h.update ha (fun htracks =>
      htracks.deallocatePooled w.memory address size) _

/-- `Tracking.after` says what a step makes of the switches of an allocator. -/
theorem HasTracking.step (h : w.HasTracking id tracking) (s : Step) :
    Ends (World.step s) w fun _ w' => w'.HasTracking id (tracking.after id s) := by
  cases s with
  | compact j =>
    refine Ends.map (ends_onAllocator (fun _ => h) fun a ha => ?_)
    exact h.update ha (fun htracks => htracks.compact w.memory) _
  | setBlockSize j affinity blockSize =>
    exact h.change (fun _ => rfl) fun _ _ htracks =>
      htracks.setBlockSize w.memory affinity blockSize
  | configureGroup j g =>
    exact h.change (fun _ => rfl) fun _ _ htracks => htracks.configureGroup w.memory g
  | setTracking j tracking' =>
    refine h.change (fun hj => if_neg hj) fun a hj htracks => ?_
    simp only [Tracking.after, if_pos hj]
    exact htracks.setTracking tracking'
  | addStrategy j s =>
    exact h.change (fun _ => rfl) fun _ _ htracks => htracks.addStrategy s
  | reset j settings =>
    refine h.change (fun hj => if_neg hj) fun a hj _ => ?_
    simp only [Tracking.after, if_pos hj]
    unfold Allocator.reset
    exact Ends.trivial.bind fun _ _ _ => Allocator.tracks_ofSettings settings a.nested
  | _ =>
    refine ((requesting_tracking id).step ?_ w).mono fun _ _ hends => hends tracking h
    exact trivial

/-! ## Runs -/

/-- After a run, an allocator has the switches that the steps make of them, by induction on
`steps`. -/
theorem HasTracking.run (h : w.HasTracking id tracking) (steps : List Step) :
    Ends (World.run steps) w fun _ w' =>
      w'.HasTracking id (steps.foldl (Tracking.after id) tracking) := by
  induction steps generalizing w tracking with
  | nil => exact h
  | cons s rest ih =>
    unfold World.run
    refine (h.step s).bind fun _ w₁ h₁ => ?_
    exact (ih h₁).bind fun _ _ h₂ => h₂

/-- After any run from an allocator as it was made, the allocator has the switches that were set
last, and so has every block of every group of it. -/
theorem blocks_have_tracking {settings : Settings} {nested : List Strategy}
    (h : w.allocator? id = some (.ofSettings settings nested)) (steps : List Step) :
    Ends (World.run steps) w fun _ w' => ∃ a, w'.allocator? id = some a ∧
      a.tracking = steps.foldl (Tracking.after id) settings.tracking ∧
        ∀ affinity key b, a.block? affinity key = some b → b.tracker.tracking = a.tracking := by
  have hstart : w.HasTracking id settings.tracking :=
    ⟨_, h, Allocator.tracks_ofSettings settings nested⟩
  refine (hstart.run steps).mono fun _ w' ⟨a, ha, htracks⟩ => ?_
  refine ⟨a, ha, htracks.own, fun affinity key b hb => ?_⟩
  rw [htracks.block hb, htracks.own]

/-- A block before the switches are set, and two behind that, one of them in a group that was not
there before. -/
def switchedOn : List Step :=
  [.allocate 0 .full 1 .objects, .setTracking 0 ⟨true, true⟩, .allocate 0 .full 4096 .objects,
    .allocate 0 .full 1 .nodes]

/-- The switches reach the old block and the new ones. -/
theorem blocks_have_tracking_switched_on :
    Ends (World.run switchedOn) small fun _ w' => ∃ a, w'.allocator? 0 = some a ∧
      a.tracking = ⟨true, true⟩ ∧
        ∀ place ∈ [(Affinity.objects, Arena.base), (Affinity.objects, Arena.base + 4096),
            (Affinity.nodes, Arena.base + 8192)],
          ∃ b, a.block? place.1 place.2 = some b ∧ b.tracker.tracking = ⟨true, true⟩ := by
  obtain ⟨a, ha, htracking, hblocks⟩ := blocks_have_tracking
    (rfl : small.allocator? 0 = some (.ofSettings { defaultBlockSize := 4096 } [])) switchedOn
  refine ⟨a, ha, htracking, fun place hplace => ?_⟩
  have hthere : ∀ place ∈ [(Affinity.objects, Arena.base), (Affinity.objects, Arena.base + 4096),
      (Affinity.nodes, Arena.base + 8192)],
      (((run switchedOn small).2.allocator? 0).bind (·.block? place.1 place.2)).isSome := by
    decide +kernel
  have hthere := hthere place hplace
  rw [ha, Option.bind_some] at hthere
  obtain ⟨b, hb⟩ := Option.isSome_iff_exists.1 hthere
  exact ⟨b, hb, (hblocks _ _ b hb).trans htracking⟩

end World

end BlockPool
