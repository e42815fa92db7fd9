import BlockPool.World.Boxes

/-!
# The end of a world

Allocators go in the order of their numbers, and an allocator that another one owns goes together
with it, after its groups.
-/

namespace BlockPool.World

variable {σ : Type} [System σ]

/-- The numbers of the allocators that an allocator owns. -/
def ownedBy (a : Allocator) : List Nat :=
  a.nested.filterMap fun
    | .allocator id true => some id
    | _ => none

/-- The numbers of the allocators that go with an allocator, in the order in which they go. What is
`ownedBy` is followed a number of times. -/
def goingWith (allocators : List Allocator) : Nat → Nat → List Nat
  | 0, id => [id]
  | depth + 1, id =>
    id :: (((allocators[id]?).map ownedBy).getD []).flatMap (goingWith allocators depth)

/-- The numbers of all allocators in the order in which they go. -/
def goingOrder (allocators : List Allocator) : List Nat :=
  let owned := allocators.flatMap ownedBy
  ((List.range allocators.length).filter fun id => !owned.contains id).flatMap
    (goingWith allocators allocators.length)

/-- Gives back the memory of some allocators, by `Allocator.giveBack`. -/
def giveBackAll : List Nat → WorldM σ Unit
  | [] => pure ()
  | id :: rest => do
    let _ ← onAllocator id fun a => do
      let a ← a.giveBack
      pure ((), a)
    giveBackAll rest

/-- Gives back the memory of all allocators, in `goingOrder`. -/
def dropAllocators : WorldM σ Unit := do
  giveBackAll (goingOrder (← get).allocators)

end BlockPool.World
