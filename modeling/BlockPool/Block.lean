import BlockPool.Memory.Basic
import BlockPool.Tracker.Basic

/-!
# Blocks

A block is a region of sized memory that is given out in slots. Its tracker only knows offsets;
the block turns them into addresses and back. The memory goes back with the layout that it was
requested with.
-/

namespace BlockPool

/-- A region of memory together with the books of its slots, as a `Tracker`. -/
structure Block where
  base : Nat
  /-- The layout that the memory was requested with. -/
  layout : Layout
  /-- The alignment of every slot. -/
  alignment : Nat
  tracker : Tracker
deriving DecidableEq, Inhabited

namespace Block

variable {σ : Type} [System σ]

/-- The least alignment of the memory of a block. -/
def minimumAlignment : Nat := 16

/-- The memory of a block as a `Region`. -/
def region (b : Block) : Region := ⟨.sized, b.base, b.layout⟩

/-- The number of bytes of a block. -/
def capacity (b : Block) : Nat := b.layout.size

/-- Whether no byte of a block is in a slot. -/
def isEmpty (b : Block) : Bool := b.tracker.isEmpty

/-- Whether an address lies in a block. -/
def contains (b : Block) (address : Nat) : Bool := b.region.Contains address

/-- Changes the switches. -/
def setTracking (b : Block) (tracking : Tracking) : Block :=
  { b with tracker := b.tracker.setTracking tracking }

/-- The layout of the memory for a block of some `capacity` with slots of some `alignment`: at least
one byte, at `minimumAlignment`. -/
def layoutFor (capacity alignment : Nat) : Layout :=
  ⟨max capacity 1, max alignment minimumAlignment⟩

/-- Gets the memory for a block. A capacity or an alignment of zero counts as one. -/
def obtain (capacity alignment : Nat) (tracking : Tracking) :
    MemoryM σ (Except AllocationError Block) :=
  let alignment := max alignment 1
  let layout := layoutFor capacity alignment
  if ¬ alignment.isPowerOfTwo then pure (.error (.invalidAlignment alignment))
  else if ¬ layout.IsValid then pure (.error .invalidLayout)
  else do
    match ← Memory.request .sized layout with
    | none => pure (.error (.systemRefused layout.size layout.alignment))
    | some base =>
      Memory.noteIf tracking.report (.blockObtained base layout.size layout.alignment)
      pure (.ok { base, layout, alignment, tracker := .new layout.size tracking })

/-- Gives the `region` of a block back. -/
def giveBack (b : Block) : MemoryM σ Unit := do
  Memory.noteIf b.tracker.tracking.report (.blockReturned b.base b.capacity)
  Memory.release b.region

/-- Reserves a slot, and answers its address. -/
def allocate (b : Block) (size : Nat) : Outcome Block (Option Nat) :=
  let o := b.tracker.reserve size b.alignment
  { answer := o.answer.map (b.base + ·)
    state := { b with tracker := o.state }
    notices := o.notices }

/-- Releases the slot of `size` bytes at an address. Answers whether there is one. -/
def deallocate (b : Block) (address size : Nat) : Outcome Block Bool :=
  if b.contains address then
    let o := b.tracker.release (address - b.base) size
    { answer := o.answer
      state := { b with tracker := o.state }
      notices :=
        o.notices ++ if o.answer then [] else [.blockKeptSlot b.base address size] }
  else { answer := false, state := b }

end Block

end BlockPool
