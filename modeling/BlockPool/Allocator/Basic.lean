import BlockPool.Settings
import BlockPool.Strategy
import BlockPool.Usage

/-!
# Allocators

An allocator has one group for each affinity, made when it is first needed, and a chain of
fallbacks: nested strategies in the order in which they were added, and a heap at the end. This
module has everything that an allocator does with its groups alone.
-/

namespace BlockPool

/-- The groups and the fallbacks of an allocator, with the defaults for groups that are made
later. -/
structure Allocator where
  groups : Table Affinity Group
  defaultAlignment : Nat
  defaultBlockSize : Nat
  tracking : Tracking
  backing : Backing
  /-- The nested strategies in the order in which they are asked. -/
  nested : List Strategy
  /-- The heap at the end of the chain. -/
  backstop : Option Heap
deriving DecidableEq, Inhabited

namespace Allocator

variable {σ : Type} [System σ]

/-! ## Making -/

/-- A group without blocks, as its settings have it. -/
def groupOf (g : GroupSettings) (defaultAlignment : Nat) : Group :=
  { name := g.name, blockSize := g.blockSize, alignment := g.alignment.getD defaultAlignment }

/-- The alignment of the heap at the end: the greatest among the default alignment and those
alignments of groups that are powers of two. -/
def backstopAlignment (defaultAlignment : Nat) (groups : List Group) : Nat :=
  ((groups.map (·.alignment)).filter (·.isPowerOfTwo)).foldl max defaultAlignment

/-- An allocator as it is made with some settings and nested strategies. -/
def ofSettings (s : Settings) (nested : List Strategy) : Allocator :=
  let groups := Table.ofList (s.groups.map fun g => (g.affinity, groupOf g s.defaultAlignment))
  { groups
    defaultAlignment := s.defaultAlignment
    defaultBlockSize := s.defaultBlockSize
    tracking := s.tracking
    backing := s.backing
    nested
    backstop := s.backing.heap? (backstopAlignment s.defaultAlignment groups.values) }

/-! ## Settings and totals -/

/-- The strategies of a chain, in the order in which they are asked. -/
def strategies (a : Allocator) : Chain → List Strategy
  | .full => a.nested ++ (a.backstop.map Strategy.heap).toList
  | .owned => a.nested

/-- Adds a nested strategy behind those that are there. -/
def addStrategy (a : Allocator) (s : Strategy) : Allocator := { a with nested := a.nested ++ [s] }

/-- The alignment of the slots of an affinity: that of its group, or `defaultAlignment` if there is
none. -/
def alignmentFor (a : Allocator) (affinity : Affinity) : Nat :=
  ((a.groups.find? affinity).map (·.alignment)).getD a.defaultAlignment

/-- Changes the switches of the allocator and of every block. -/
def setTracking (a : Allocator) (tracking : Tracking) : Allocator :=
  { a with tracking, groups := a.groups.mapValues (·.setTracking tracking) }

/-- The number of bytes in no slot. -/
def available (a : Allocator) : Nat := total (a.groups.values.map (·.available))

/-- The number of bytes in slots. -/
def reserved (a : Allocator) : Nat := total (a.groups.values.map (·.reserved))

/-- The number of bytes of all blocks. -/
def memorySize (a : Allocator) : Nat := total (a.groups.values.map (·.memorySize))

/-- The totals of an allocator. -/
def totals (a : Allocator) : Totals := ⟨a.available, a.reserved, a.memorySize⟩

/-- The books of the group of an affinity. -/
def groupUsage? (a : Allocator) (affinity : Affinity) : Option GroupUsage :=
  (a.groups.find? affinity).map (·.usage affinity)

/-- The books of an allocator, with `Group.usage` of every group. -/
def usage (a : Allocator) : Usage :=
  ⟨a.groups.entries.map fun (affinity, group) => group.usage affinity⟩

/-! ## Groups -/

/-- The group of an affinity, which is made if there is none, and the allocator that has it. -/
def ensureGroup (a : Allocator) (affinity : Affinity) : MemoryM σ (Group × Allocator) :=
  match a.groups.find? affinity with
  | some group => pure (group, a)
  | none => do
    Memory.noteIf a.tracking.report (.groupCreated affinity a.defaultBlockSize)
    let group : Group :=
      { name := affinity.name, blockSize := a.defaultBlockSize, alignment := a.defaultAlignment }
    pure (group, { a with groups := a.groups.insert affinity group })

/-- Replaces the group of an affinity. -/
def setGroup (a : Allocator) (affinity : Affinity) (group : Group) : Allocator :=
  { a with groups := a.groups.insert affinity group }

/-- Changes the least capacity of new blocks of an affinity. -/
def setBlockSize (a : Allocator) (affinity : Affinity) (blockSize : Nat) :
    MemoryM σ Allocator := do
  let (group, a) ← a.ensureGroup affinity
  pure (a.setGroup affinity (group.setBlockSize blockSize))

/-- Changes the settings of a group, which is made if there is none. -/
def configureGroup (a : Allocator) (s : GroupSettings) : MemoryM σ Allocator := do
  let (group, a) ← a.ensureGroup s.affinity
  pure (a.setGroup s.affinity
    (group.configure s.name s.blockSize (s.alignment.getD a.defaultAlignment)))

/-! ## Requests and returns -/

/-- Serves a request from the group of its affinity, by `Group.allocate`. -/
def allocatePooled (a : Allocator) (size : Nat) (affinity : Affinity) :
    MemoryM σ (Except AllocationError Nat × Allocator) := do
  let (group, a) ← a.ensureGroup affinity
  let (answer, group) ← group.allocate size a.tracking
  match answer with
  | .ok address =>
    Memory.noteIf a.tracking.report (.servedByGroup address size affinity group.name)
  | .error reason => Memory.note (.groupFailed size affinity reason)
  pure (answer, a.setGroup affinity group)

/-- The first group, in the order of the affinities, that `owns` an address. -/
def owner? (a : Allocator) (address : Nat) : Option (Affinity × Group) :=
  a.groups.entries.find? (·.2.owns address)

/-- Takes an address back if it lies in a block of some group, its `owner?`. -/
def deallocatePooled (a : Allocator) (address size : Nat) : MemoryM σ (Bool × Allocator) :=
  match a.owner? address with
  | none => pure (false, a)
  | some (affinity, group) => do
    let (_, group) ← Memory.settle (group.deallocate address size)
    Memory.noteIf a.tracking.report (.returnedToGroup address size group.name)
    pure (true, a.setGroup affinity group)

/-! ## Giving memory back -/

/-- Gives back the memory of the empty blocks of some groups, by `Group.compact`. -/
def compactAll (tracking : Tracking) : List (Affinity × Group) → MemoryM σ Nat
  | [] => pure 0
  | (_, group) :: rest => do
    let (bytes, _) ← group.compact tracking
    let more ← compactAll tracking rest
    pure (bytes + more)

/-- Gives back the memory of all empty blocks, and answers how many bytes these are. -/
def compact (a : Allocator) : MemoryM σ (Nat × Allocator) := do
  let bytes ← compactAll a.tracking a.groups.entries
  Memory.noteIf a.tracking.report (.compacted bytes)
  pure (bytes, { a with groups := a.groups.mapValues Group.withoutEmpty })

/-- Gives back the memory of some groups. -/
def giveBackAll : List Group → MemoryM σ Unit
  | [] => pure ()
  | group :: rest => do
    group.giveBack
    giveBackAll rest

/-- Gives back the memory of all groups, by `Group.giveBack`. What is left has none. -/
def giveBack (a : Allocator) : MemoryM σ Allocator := do
  giveBackAll a.groups.values
  pure { a with groups := .empty }

/-- Starts anew with other settings, as `ofSettings` makes an allocator. The nested strategies
stay. -/
def reset (a : Allocator) (s : Settings) : MemoryM σ Allocator := do
  let _ ← a.giveBack
  pure (ofSettings s a.nested)

end Allocator

end BlockPool
