import BlockPool.Tracker.Basic

/-!
# Runs of a tracker

The actions on a tracker as data, so that a statement can speak of every sequence of them.
-/

namespace BlockPool.Tracker

/-- An action on a tracker. -/
inductive Step where
  | reserve (size alignment : Nat)
  | release (offset size : Nat)
  | setTracking (tracking : Tracking)
deriving DecidableEq, Inhabited

/-- What an action answers. -/
inductive Answer where
  | reserved (offset : Option Nat)
  | released (known : Bool)
  | done
deriving DecidableEq, Inhabited

/-- Takes an action. -/
def step (t : Tracker) : Step → Outcome Tracker Answer
  | .reserve size alignment =>
    let o := t.reserve size alignment
    { answer := .reserved o.answer, state := o.state, notices := o.notices }
  | .release offset size =>
    let o := t.release offset size
    { answer := .released o.answer, state := o.state, notices := o.notices }
  | .setTracking tracking => { answer := .done, state := t.setTracking tracking }

/-- The tracker after a sequence of steps. -/
def run (t : Tracker) (steps : List Step) : Tracker :=
  steps.foldl (fun t s => (t.step s).state) t

end BlockPool.Tracker
