import BlockPool.Proofs.Allocator.Regrouped
import BlockPool.Proofs.World.Steady

/-!
# How an allocator is set up

After any run of actions, an allocator is what its latest settings and its nested strategies make
of it, but for its groups. Each action does to the setup of an allocator what it says: starting anew
replaces the settings, adding a strategy adds one, setting a group is remembered, and everything
else, whoever it is done with, leaves the setup as it is.

Nothing is assumed about the blocks or about the system.
-/

namespace BlockPool

/-- What an allocator is made with, and the affinities for which a group was `configured` since. -/
structure Setup where
  settings : Settings
  nested : List Strategy
  configured : List Affinity := []

namespace Setup

/-- The allocator that is made with a setup. -/
def fresh (x : Setup) : Allocator := .ofSettings x.settings x.nested

/-- What becomes of the setup of an allocator with a step. -/
def after (id : Nat) (x : Setup) : World.Step → Setup
  | .configureGroup j g => if j = id then { x with configured := g.affinity :: x.configured } else x
  | .addStrategy j s => if j = id then { x with nested := x.nested ++ [s] } else x
  | .reset j settings => if j = id then { settings, nested := x.nested } else x
  | _ => x

/-- An allocator with this setup is `Regrouped` from a `fresh` one: alignments have changed only for
those affinities for which a group was set. -/
def Describes (x : Setup) (a : Allocator) : Prop := x.fresh.Regrouped (· ∉ x.configured) a

variable {x : Setup} {a a' : Allocator}

/-- A setup `Describes` the allocator that is made with it. -/
lemma describes_fresh (x : Setup) : x.Describes x.fresh := .refl _ x.fresh

/-- A setup knows the nested strategies of the allocator that it `Describes`. -/
lemma Describes.nested_eq (h : x.Describes a) : a.nested = x.nested :=
  congrArg Allocator.Wiring.nested h.wiring

/-- The heap at the end of the chain is that of the allocator as it was made. -/
lemma Describes.backstop_eq (h : x.Describes a) : a.backstop = x.fresh.backstop :=
  congrArg Allocator.Wiring.backstop h.wiring

/-- After `configureGroup`, the setup with its affinity `configured` describes the allocator. -/
lemma Describes.configured (h : x.Describes a) {g : GroupSettings}
    (hset : a.Regrouped (· ∉ g.affinity :: x.configured) a') :
    ({ x with configured := g.affinity :: x.configured } : Setup).Describes a' :=
  Allocator.Regrouped.trans (h.mono fun _ hnot hmem => hnot (List.mem_cons_of_mem _ hmem)) hset

/-- After `addStrategy`, the setup with the strategy nested describes the allocator. -/
lemma Describes.addStrategy (h : x.Describes a) (s : Strategy) :
    ({ x with nested := x.nested ++ [s] } : Setup).Describes (a.addStrategy s) :=
  Allocator.Regrouped.addStrategy h s

/-- No step takes a nested strategy from a setup, not even `reset`. -/
lemma nested_subset_after (id : Nat) (x : Setup) (s : World.Step) :
    x.nested ⊆ (x.after id s).nested := by
  cases s with
  | configureGroup j g =>
    simp only [after]
    split <;> exact List.Subset.refl _
  | addStrategy j s =>
    simp only [after]
    split
    · exact List.subset_append_left _ _
    · exact List.Subset.refl _
  | reset j settings =>
    simp only [after]
    split <;> exact List.Subset.refl _
  | _ => exact List.Subset.refl _

lemma nested_subset_foldl (id : Nat) (x : Setup) (steps : List World.Step) :
    x.nested ⊆ (steps.foldl (after id) x).nested := by
  induction steps generalizing x with
  | nil => exact List.Subset.refl _
  | cons s rest ih => exact List.Subset.trans (nested_subset_after id x s) (ih _)

/-- After `reset`, the setup with the new settings and the nested strategies of before describes the
allocator. -/
lemma Describes.reset (h : x.Describes a) (settings : Settings) :
    ({ settings, nested := x.nested } : Setup).Describes (.ofSettings settings a.nested) := by
  rw [h.nested_eq]
  exact describes_fresh _

end Setup

namespace World

variable {σ : Type} {w w' : World σ} {id : Nat} {x x' : Setup}

/-- There is an allocator of a number, which a setup `Describes`. -/
def HasSetup (w : World σ) (id : Nat) (x : Setup) : Prop :=
  ∃ a, w.allocator? id = some a ∧ x.Describes a

/-! ## Actions -/

/-- `HasSetup` survives `update` by a `Regrouped` allocator. -/
lemma HasSetup.regrouped (h : w.HasSetup id x) {j : Nat} {a a' : Allocator}
    (ha : w.allocator? j = some a) (hr : a.Regrouped (· ∉ x.configured) a') (m : Memory σ) :
    (w.update j a' m).HasSetup id x :=
  Has.update h ha (fun _ _ hb => hb) (fun _ hdescribes => hdescribes.trans hr) m

/-- `HasSetup` survives `World.change`, with another setup for the one allocator. -/
lemma HasSetup.change (h : w.HasSetup id x) {j : Nat} {action : Allocator → MemoryM σ Allocator}
    (hother : j ≠ id → x' = x)
    (haction : ∀ a, j = id → x.Describes a →
      Ends (action a) w.memory fun a' _ => x'.Describes a') :
    Ends (World.change j action) w fun _ w' => w'.HasSetup id x' :=
  Has.change h (fun hj _ hdescribes => hother hj ▸ hdescribes) haction

variable [System σ]

/-- Requests and returns leave every setup as it is, as `Requesting` says. -/
lemma requesting_setup (id : Nat) :
    Requesting fun w w' : World σ => ∀ x, w.HasSetup id x → w'.HasSetup id x := by
  refine Pooling.requesting ⟨⟨fun _ _ h => h, fun h h' x hx => h' x (h x hx), fun _ _ _ _ h => h⟩,
    fun {w j a} ha size affinity x hx => ?_, fun {w j a} ha address size x hx => ?_⟩
    fun _ _ _ h => h
  · exact hx.regrouped ha (a.regrouped_allocatePooled w.memory _ size affinity) _
  · exact hx.regrouped ha (a.regrouped_deallocatePooled w.memory _ address size) _

/-- `Setup.after` says what a step makes of the setup of an allocator. -/
theorem HasSetup.step (h : w.HasSetup id x) (s : Step) :
    Ends (World.step s) w fun _ w' => w'.HasSetup id (x.after id s) := by
  cases s with
  | compact j =>
    refine Ends.map (ends_onAllocator (fun _ => h) fun a ha => ?_)
    exact h.regrouped ha (a.regrouped_compact w.memory _) _
  | setBlockSize j affinity blockSize =>
    refine h.change (fun _ => rfl) fun a _ hdescribes => ?_
    exact (a.regrouped_setBlockSize w.memory _ affinity blockSize).mono fun _ _ hr =>
      hdescribes.trans hr
  | configureGroup j g =>
    refine h.change (fun hj => if_neg hj) fun a hj hdescribes => ?_
    simp only [Setup.after, if_pos hj]
    have hset := a.regrouped_configureGroup w.memory (· ∉ g.affinity :: x.configured) g
      (fun hnot => hnot List.mem_cons_self)
    exact hset.mono fun _ _ hr => hdescribes.configured hr
  | setTracking j tracking =>
    refine h.change (fun _ => rfl) fun a _ hdescribes => ?_
    exact hdescribes.trans
      (Allocator.regrouped_mapValues (f := (·.setTracking tracking)) (fun _ => rfl) tracking)
  | addStrategy j s =>
    refine h.change (fun hj => if_neg hj) fun a hj hdescribes => ?_
    simp only [Setup.after, if_pos hj]
    exact hdescribes.addStrategy s
  | reset j settings =>
    refine h.change (fun hj => if_neg hj) fun a hj hdescribes => ?_
    simp only [Setup.after, if_pos hj]
    unfold Allocator.reset
    exact Ends.trivial.bind fun _ _ _ => hdescribes.reset settings
  | _ =>
    refine ((requesting_setup id).step ?_ w).mono fun _ _ hends => hends x h
    exact trivial

/-! ## Runs -/

/-- After a run, an allocator has the setup that the steps make of it, by induction on `steps`. -/
theorem HasSetup.run (h : w.HasSetup id x) (steps : List Step) :
    Ends (World.run steps) w fun _ w' => w'.HasSetup id (steps.foldl (Setup.after id) x) := by
  induction steps generalizing w x with
  | nil => exact h
  | cons s rest ih =>
    unfold World.run
    refine (h.step s).bind fun _ w₁ h₁ => ?_
    exact (ih h₁).bind fun _ _ h₂ => h₂

omit [System σ] in
/-- An allocator as it was made has the setup that it was made with. -/
lemma hasSetup_fresh {settings : Settings} {nested : List Strategy}
    (h : w.allocator? id = some (.ofSettings settings nested)) :
    w.HasSetup id { settings, nested } :=
  ⟨_, h, Setup.describes_fresh _⟩

end World

end BlockPool
