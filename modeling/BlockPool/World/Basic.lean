import BlockPool.Allocator.Basic

/-!
# Worlds

A world is a number of allocators over one system, together with the boxes that hold values in
their memory. Allocators and boxes are named by their positions.
-/

namespace BlockPool

/-- A value in pooled memory. -/
structure Boxed where
  /-- The allocator that the memory is from. -/
  allocator : Nat
  address : Nat
  /-- The layout of the type of the value. -/
  layout : Layout
  value : Value
deriving DecidableEq, Inhabited

/-- Allocators and boxes over one `Memory`. -/
structure World (σ : Type) where
  memory : Memory σ
  allocators : List Allocator := []
  /-- The boxes. There is nothing in the place of one that could not be made or is gone. -/
  boxes : List (Option Boxed) := []

/-- An action with effects on a world. -/
abbrev WorldM (σ : Type) := StateM (World σ)

namespace World

variable {σ : Type} [System σ] {α : Type}

/-- An action on the memory of a world. -/
def onMemory (action : MemoryM σ α) : WorldM σ α := fun w =>
  let (x, memory) := action w.memory
  (x, { w with memory })

instance : MonadLift (MemoryM σ) (WorldM σ) := ⟨onMemory⟩

/-- Replaces an allocator. -/
def setAllocator (id : Nat) (a : Allocator) : WorldM σ Unit :=
  fun w => ((), { w with allocators := w.allocators.set id a })

/-- Replaces a box, or empties its place. -/
def setBoxed (index : Nat) (b : Option Boxed) : WorldM σ Unit :=
  fun w => ((), { w with boxes := w.boxes.set index b })

/-- Puts a box, or its empty place, behind those that are there. -/
def pushBoxed (b : Option Boxed) : WorldM σ Unit :=
  fun w => ((), { w with boxes := w.boxes ++ [b] })

/-- The allocator of a number. -/
def allocator? (w : World σ) (id : Nat) : Option Allocator := w.allocators[id]?

/-- The box of a number. -/
def boxed? (w : World σ) (index : Nat) : Option Boxed := (w.boxes[index]?).join

/-- Does something with an allocator and puts it back by `setAllocator`, if there is one of that
number. -/
def onAllocator (id : Nat) (action : Allocator → MemoryM σ (α × Allocator)) :
    WorldM σ (Option α) := do
  match (← get).allocator? id with
  | none => pure none
  | some a =>
    let (x, a) ← onMemory (action a)
    setAllocator id a
    pure (some x)

/-! ## Making -/

/-- Allocators with consecutive numbers, each of them nested in the one before. -/
def nestedChain (id : Nat) : List Settings → List Allocator
  | [] => []
  | [s] => [.ofSettings s []]
  | s :: rest => .ofSettings s [.allocator (id + 1) true] :: nestedChain (id + 1) rest

/-- Allocators with consecutive numbers for the outermost settings, where the settings nested in
them are for allocators that start at another number; and these nested allocators. -/
def outermost (nestedId : Nat) : List (Settings × List Settings) → List Allocator × List Allocator
  | [] => ([], [])
  | (s, inner) :: rest =>
    let (outer, nested) := outermost (nestedId + inner.length) rest
    let links : List Strategy := if inner.isEmpty then [] else [.allocator nestedId true]
    (.ofSettings s links :: outer, nestedChain nestedId inner ++ nested)

/-- A world with an allocator for each of some settings. The settings listed with them are for
allocators nested in one another, the first of them in the allocator itself; they have numbers
behind all others. -/
def ofSettings (system : σ) (settings : List (Settings × List Settings)) : World σ :=
  let (outer, nested) := outermost settings.length settings
  { memory := { system }, allocators := outer ++ nested }

end World

end BlockPool
