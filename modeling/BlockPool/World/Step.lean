import BlockPool.World.Boxes

/-!
# Runs of a world

The actions on a world as data, so that a statement can speak of every sequence of them. An action
on an allocator or a box that is not there answers `absent` and changes nothing.
-/

namespace BlockPool.World

variable {σ : Type} [System σ]

/-- An action on a world. The first number names an allocator or, for the last three, a box. -/
inductive Step where
  | allocate (id : Nat) (chain : Chain) (size : Nat) (affinity : Affinity)
  | deallocate (id : Nat) (chain : Chain) (address size : Nat)
  | compact (id : Nat)
  | setBlockSize (id : Nat) (affinity : Affinity) (blockSize : Nat)
  | configureGroup (id : Nat) (group : GroupSettings)
  | setTracking (id : Nat) (tracking : Tracking)
  | addStrategy (id : Nat) (strategy : Strategy)
  | reset (id : Nat) (settings : Settings)
  | newBoxed (id : Nat) (layout : Layout) (value : Value) (affinity : Affinity)
  | replaceBoxed (index : Nat) (value : Value)
  | dropBoxed (index : Nat)
  | unbox (index : Nat)
deriving DecidableEq, Inhabited

/-- What a `Step` answers. -/
inductive Answer where
  | served (result : Except AllocationError Nat)
  | claimed (known : Bool)
  | freed (bytes : Nat)
  | text (content : String)
  | done
  | absent

/-- An answer, or that there is none. -/
def answerWith {α : Type} (wrap : α → Answer) (x : Option α) : Answer := (x.map wrap).getD .absent

/-- Changes an allocator, if there is one of that number. -/
def change (id : Nat) (action : Allocator → MemoryM σ Allocator) : WorldM σ Answer := do
  let result ← onAllocator id fun a => do
    let a ← action a
    pure ((), a)
  pure (answerWith (fun _ => .done) result)

/-- Takes an action. -/
def step : Step → WorldM σ Answer
  | .allocate id chain size affinity => answerWith .served <$> allocate id chain size affinity
  | .deallocate id chain address size => answerWith .claimed <$> deallocate id chain address size
  | .compact id => answerWith .freed <$> onAllocator id Allocator.compact
  | .setBlockSize id affinity blockSize => change id fun a => a.setBlockSize affinity blockSize
  | .configureGroup id group => change id fun a => a.configureGroup group
  | .setTracking id tracking => change id fun a => pure (a.setTracking tracking)
  | .addStrategy id strategy => change id fun a => pure (a.addStrategy strategy)
  | .reset id settings => change id fun a => a.reset settings
  | .newBoxed id layout value affinity =>
    answerWith .served <$> newBoxed id layout value affinity
  | .replaceBoxed index value => answerWith .text <$> replaceBoxed index value
  | .dropBoxed index => do
    if ← dropBoxed index then pure .done else pure .absent
  | .unbox index => answerWith .text <$> unbox index

/-- The answers to a sequence of steps. -/
def run : List Step → WorldM σ (List Answer)
  | [] => pure []
  | s :: rest => do
    let answer ← step s
    let answers ← run rest
    pure (answer :: answers)

end BlockPool.World
