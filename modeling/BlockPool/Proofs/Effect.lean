import Mathlib.Tactic.Lemma

/-!
# What an action ends with

Everything beyond trackers is an action that changes a state. A statement on such an action says
what holds of its answer and of the state it leaves behind. Statements on the parts of an action
are put together with the rules below, one for each way in which actions are built.

A statement on two actions says that one does to the image of a state what the other does to the
state. There is a rule for each way in which both are built alike.
-/

namespace BlockPool

/-- The action `x` from `m` ends with an answer and a state of which `post` holds. -/
def Ends {s α : Type} (x : StateM s α) (m : s) (post : α → s → Prop) : Prop :=
  let out : α × s := x m
  post out.1 out.2

namespace Ends

variable {s α β : Type} {x : StateM s α} {m : s} {post : α → s → Prop}

/-- Of what an action `Ends` with, nothing is said. -/
lemma trivial : Ends x m fun _ _ => True := True.intro

/-- `pure` ends where it starts. -/
lemma pure {a : α} (h : post a m) : Ends (Pure.pure a : StateM s α) m post := h

/-- The second action of a `bind` goes on where the first one ended. -/
lemma bind {f : α → StateM s β} {goal : β → s → Prop} (hx : Ends x m post)
    (hf : ∀ a m', post a m' → Ends (f a) m' goal) : Ends (x >>= f) m goal :=
  hf _ _ hx

/-- `f <$> x` ends where `x` does, with the image of its answer. -/
lemma map {f : α → β} {goal : β → s → Prop} (hx : Ends x m fun a m' => goal (f a) m') :
    Ends (f <$> x) m goal := hx

/-- `Ends` says less with a weaker statement. -/
lemma mono {goal : α → s → Prop} (hx : Ends x m post)
    (h : ∀ a m', post a m' → goal a m') : Ends x m goal :=
  h _ _ hx

lemma and {post' : α → s → Prop} (hx : Ends x m post) (hx' : Ends x m post') :
    Ends x m fun a m' => post a m' ∧ post' a m' := ⟨hx, hx'⟩

/-- After `get`, an action may look at the state from which it starts. -/
lemma get_bind {f : s → StateM s β} {goal : β → s → Prop} (h : Ends (f m) m goal) :
    Ends (MonadState.get >>= f) m goal := h

/-- Actions that do the same from a state `Ends` with the same there. -/
lemma congr {y : StateM s α} (hxy : x m = y m) (hy : Ends y m post) : Ends x m post := by
  unfold Ends
  rw [hxy]
  exact hy

/-- What an action `Ends` with holds of any outcome that it is known to have. -/
lemma apply {a : α} {m' : s} (hx : Ends x m post) (h : x m = (a, m')) : post a m' := by
  unfold Ends at hx
  rwa [h] at hx

end Ends

/-- If the outcome of the first action of a `bind` is known, the second one goes on from it. -/
lemma bind_apply_eq {s α β : Type} {x : StateM s α} {f : α → StateM s β} {m m' : s} {a : α}
    (hx : x m = (a, m')) : (x >>= f) m = f a m' := by
  show f (x m).1 (x m).2 = f a m'
  rw [hx]

/-! ## Two actions -/

/-- The action `x` from `m` is mirrored by `y` from `φ m`: answer and state of `y` are the images of
those of `x` under `ψ` and `φ`. -/
def Mirrors {s t α β : Type} (φ : s → t) (ψ : α → β) (x : StateM s α) (y : StateM t β) (m : s)
    (post : α → s → Prop) : Prop :=
  Ends x m fun a m' => y (φ m) = (ψ a, φ m') ∧ post a m'

namespace Mirrors

variable {s t α β γ δ : Type} {φ : s → t} {ψ : α → β} {χ : γ → δ} {x : StateM s α}
  {y : StateM t β} {m : s} {post : α → s → Prop}

/-- `pure` is mirrored by `pure` of the image. -/
lemma pure {a : α} (h : post a m) :
    Mirrors φ ψ (Pure.pure a : StateM s α) (Pure.pure (ψ a)) m post := ⟨rfl, h⟩

/-- A `bind` of actions that are mirrored is mirrored. -/
lemma bind {f : α → StateM s γ} {g : β → StateM t δ} {goal : γ → s → Prop}
    (hx : Mirrors φ ψ x y m post)
    (hf : ∀ a m', post a m' → Mirrors φ χ (f a) (g (ψ a)) m' goal) :
    Mirrors φ χ (x >>= f) (y >>= g) m goal := by
  refine Ends.bind hx fun a m' h => ?_
  rw [bind_apply_eq h.1]
  exact hf a m' h.2

/-- `f <$> x` is mirrored by `g <$> y` if `g` does to the images what `f` does. -/
lemma map {f : α → γ} {g : β → δ} {goal : γ → s → Prop}
    (hx : Mirrors φ ψ x y m fun a m' => goal (f a) m') (hfg : ∀ a, g (ψ a) = χ (f a)) :
    Mirrors φ χ (f <$> x) (g <$> y) m goal := by
  refine Ends.map (Ends.mono hx fun a m' h => ⟨?_, h.2⟩)
  show (g (y (φ m)).1, (y (φ m)).2) = (χ (f a), φ m')
  rw [h.1, hfg]

lemma mono {goal : α → s → Prop} (hx : Mirrors φ ψ x y m post)
    (h : ∀ a m', post a m' → goal a m') : Mirrors φ ψ x y m goal :=
  Ends.mono hx fun a m' hmirrors => ⟨hmirrors.1, h a m' hmirrors.2⟩

/-- Actions that `Mirrors` relates after a `get` may both look at the states from which they
start. -/
lemma get_bind {f : s → StateM s α} {g : t → StateM t β}
    (h : Mirrors φ ψ (f m) (g (φ m)) m post) :
    Mirrors φ ψ (MonadState.get >>= f) (MonadState.get >>= g) m post := h

/-- Spelled out, `Mirrors` says what the second action answers and leaves. -/
lemma eq (h : Mirrors φ ψ x y m post) : y (φ m) = (ψ (x m).1, φ (x m).2) := h.1

lemma ends (h : Mirrors φ ψ x y m post) : Ends x m post := h.2

/-- An action `Mirrors` itself. -/
lemma self (x : StateM s α) (m : s) :
    Mirrors (fun m => m) (fun a => a) x x m fun _ _ => True := ⟨rfl, trivial⟩

/-- What is known of an action may be said of it where it `Mirrors` another one. -/
lemma and {post' : α → s → Prop} (h : Mirrors φ ψ x y m post) (h' : Ends x m post') :
    Mirrors φ ψ x y m fun a m' => post a m' ∧ post' a m' := ⟨h.1, h.2, h'⟩

end Mirrors

end BlockPool
