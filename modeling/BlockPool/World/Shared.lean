import BlockPool.World.Basic

/-!
# The allocator of a process

A process has one allocator, allocator 0 of a world. It is made with the standard settings when it
is first used, unless it was installed with others before. Every use of it starts with
`ensureShared`.
-/

namespace BlockPool.World

variable {σ : Type} [System σ]

/-- Makes the allocator of a process with the standard settings if there is none. -/
def ensureShared : WorldM σ Unit := fun w =>
  ((), if w.allocators.isEmpty then { w with allocators := [.ofSettings .standard []] } else w)

/-- Makes the allocator of a process with some settings. Answers whether it was made; one that is
there stays as it is. -/
def installShared (s : Settings) : WorldM σ Bool := do
  if (← get).allocators.isEmpty then
    modify fun w => { w with allocators := [.ofSettings s []] }
    pure true
  else
    onMemory (Memory.note .alreadyInstalled)
    pure false

end BlockPool.World
