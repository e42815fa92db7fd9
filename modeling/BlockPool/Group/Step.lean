import BlockPool.Group.Basic

/-!
# Runs of a group

The actions on a group as data, so that a statement can speak of every sequence of them.
-/

namespace BlockPool.Group

variable {σ : Type} [System σ]

/-- An action on a group. -/
inductive Step where
  | allocate (size : Nat) (tracking : Tracking)
  | deallocate (address size : Nat)
  | compact (tracking : Tracking)
  | setBlockSize (blockSize : Nat)
  | configure (name : String) (blockSize alignment : Nat)
  | setTracking (tracking : Tracking)
deriving DecidableEq, Inhabited

/-- What an action answers. -/
inductive Answer where
  | served (result : Except AllocationError Nat)
  | claimed (known : Bool)
  | freed (bytes : Nat)
  | done

/-- Takes an action. -/
def step (g : Group) : Step → MemoryM σ (Answer × Group)
  | .allocate size tracking => do
    let (result, g) ← g.allocate size tracking
    pure (.served result, g)
  | .deallocate address size => do
    let (known, g) ← Memory.settle (g.deallocate address size)
    pure (.claimed known, g)
  | .compact tracking => do
    let (bytes, g) ← g.compact tracking
    pure (.freed bytes, g)
  | .setBlockSize blockSize => pure (.done, g.setBlockSize blockSize)
  | .configure name blockSize alignment => pure (.done, g.configure name blockSize alignment)
  | .setTracking tracking => pure (.done, g.setTracking tracking)

/-- The group after a sequence of actions. -/
def run (g : Group) : List Step → MemoryM σ Group
  | [] => pure g
  | s :: rest => do
    let (_, g) ← g.step s
    g.run rest

end BlockPool.Group
