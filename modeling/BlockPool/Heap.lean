import BlockPool.Memory.Basic

/-!
# Heaps

A heap is a source of system memory that serves requests one by one. It cannot tell which
addresses it handed out, so it takes back every address that it is shown.
-/

namespace BlockPool

/-- A `Source` of system memory, with the alignment that it has to meet. -/
structure Heap where
  source : Source
  alignment : Nat
deriving DecidableEq, Inhabited

namespace Heap

variable {σ : Type} [System σ]

/-- A heap for an alignment. An alignment of zero counts as one. -/
def new (source : Source) (alignment : Nat) : Heap := ⟨source, max alignment 1⟩

/-- The name of a heap in messages. -/
def name (h : Heap) : String :=
  match h.source with
  | .sized => "system-new-delete"
  | .unsized => "malloc-free"

/-- The layout that a heap asks for. Unsized memory has `unsizedAlignment`, whatever the heap has to
meet. -/
def layoutFor (h : Heap) (size : Nat) : Layout :=
  match h.source with
  | .sized => ⟨max size 1, h.alignment⟩
  | .unsized => ⟨max size 1, unsizedAlignment⟩

/-- The region at an address that a heap gives back, with `layoutFor` the size. -/
def regionAt (h : Heap) (address size : Nat) : Region := ⟨h.source, address, h.layoutFor size⟩

/-- Asks for memory. Unsized memory that does not meet the alignment goes back at once. -/
def allocate (h : Heap) (size : Nat) : MemoryM σ (Option Nat) :=
  match h.source with
  | .sized =>
    if (h.layoutFor size).IsValid then Memory.request .sized (h.layoutFor size) else pure none
  | .unsized => do
    match ← Memory.request .unsized (h.layoutFor size) with
    | none => pure none
    | some address =>
      if address % h.alignment = 0 then pure (some address)
      else do
        Memory.note (.unsizedMisaligned address h.alignment)
        Memory.release (h.regionAt address size)
        pure none

/-- Gives memory back. Answers whether it could be. -/
def deallocate (h : Heap) (address size : Nat) : MemoryM σ Bool :=
  if h.source = .sized ∧ ¬ (h.layoutFor size).IsValid then do
    Memory.note (.layoutRejected address size)
    pure false
  else do
    Memory.release (h.regionAt address size)
    pure true

end Heap

end BlockPool
