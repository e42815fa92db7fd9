import BlockPool.Group.Basic

/-!
# Usage

Snapshots of the books of blocks, groups and allocators.
-/

namespace BlockPool

/-- The books of a `Block`. -/
structure BlockUsage where
  base : Nat
  capacity : Nat
  reserved : Nat
  available : Nat
  /-- The length of the longest free run. -/
  largestRun : Nat
  slotCount : Nat
deriving DecidableEq, Inhabited

/-- The books of a `Group`, with its blocks in the order of their addresses. -/
structure GroupUsage where
  affinity : Affinity
  name : String
  blockSize : Nat
  alignment : Nat
  blocks : List BlockUsage
deriving DecidableEq, Inhabited

/-- The books of an `Allocator`, with its groups in the order of their affinities. -/
structure Usage where
  groups : List GroupUsage
deriving DecidableEq, Inhabited

/-- Bytes in no slot, bytes in slots, and all bytes. -/
structure Totals where
  available : Nat
  reserved : Nat
  memory : Nat
deriving DecidableEq, Inhabited

namespace GroupUsage

/-- The number of bytes in no slot, over all blocks. -/
def available (u : GroupUsage) : Nat := total (u.blocks.map (·.available))

/-- The number of bytes in slots, over all blocks. -/
def reserved (u : GroupUsage) : Nat := total (u.blocks.map (·.reserved))

/-- The number of bytes of all blocks. -/
def memorySize (u : GroupUsage) : Nat := total (u.blocks.map (·.capacity))

/-- The totals of a group. -/
def totals (u : GroupUsage) : Totals := ⟨u.available, u.reserved, u.memorySize⟩

end GroupUsage

namespace Usage

/-- The number of bytes in no slot, over all groups. -/
def available (u : Usage) : Nat := total (u.groups.map (·.available))

/-- The number of bytes in slots, over all groups. -/
def reserved (u : Usage) : Nat := total (u.groups.map (·.reserved))

/-- The number of bytes of the blocks of all groups. -/
def memorySize (u : Usage) : Nat := total (u.groups.map (·.memorySize))

/-- The totals of an allocator. -/
def totals (u : Usage) : Totals := ⟨u.available, u.reserved, u.memorySize⟩

end Usage

/-- The books of a block. -/
def Block.usage (b : Block) : BlockUsage :=
  { base := b.base
    capacity := b.capacity
    reserved := b.tracker.reserved
    available := b.tracker.available
    largestRun := b.tracker.largestRun
    slotCount := b.tracker.slotCount }

/-- The books of a group that serves an affinity. -/
def Group.usage (g : Group) (affinity : Affinity) : GroupUsage :=
  { affinity
    name := g.name
    blockSize := g.blockSize
    alignment := g.alignment
    blocks := g.blocks.values.map (·.usage) }

end BlockPool
