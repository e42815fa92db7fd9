import BlockPool.AllocationError
import BlockPool.Text.Hexadecimal

/-!
# Notices

What a pool reports about its work. A notice is data, one constructor for each thing that can be
reported; its severity and its wording are functions of it.

Informative notices are given only where reporting is switched on. Warnings and errors are always
given.
-/

namespace BlockPool

/-- How serious a notice is. -/
inductive Severity where
  | info
  | warn
  | error
deriving DecidableEq, Inhabited

/-- Which action of a `Tracker` is checked. -/
inductive Action where
  | reserve
  | release
deriving DecidableEq, Inhabited

/-- The name of an action. -/
def Action.name : Action → String
  | reserve => "reserve"
  | release => "release"

/-- What is reported, with all that its `text` tells. -/
inductive Notice where
  /-- A slot was asked for with an alignment that is no power of two. -/
  | slotAlignmentRejected (alignment : Nat)
  /-- No free run has room for a slot. -/
  | slotMissed (size alignment largest : Nat)
  /-- A slot is reserved. -/
  | slotReserved (size alignment offset : Nat)
  /-- A slot was to be released with another size than it has. -/
  | slotSizeRejected (offset size held : Nat)
  /-- No slot starts at the offset that was to be released. -/
  | slotUnknown (offset size : Nat)
  /-- A slot is released, and its bytes are part of the free run from `start` to `stop`. -/
  | slotReleased (offset size start stop : Nat)
  /-- The self-check of a tracker failed. -/
  | trackerInconsistent (action : Action) (capacity reserved : Nat) (freeRuns : List (Nat × Nat))
  /-- A block got its memory. -/
  | blockObtained (base capacity alignment : Nat)
  /-- A block gives its memory back. -/
  | blockReturned (base capacity : Nat)
  /-- A block could not release what starts at an address inside it. -/
  | blockKeptSlot (base address size : Nat)
  /-- A group has a further block. -/
  | blockAdded (group : String) (size capacity base : Nat)
  /-- An empty block of a group goes. -/
  | blockRemoved (group : String) (base capacity : Nat)
  /-- A group is made for an affinity that had none. -/
  | groupCreated (affinity : Affinity) (blockSize : Nat)
  /-- A request was served from its group. -/
  | servedByGroup (address size : Nat) (affinity : Affinity) (group : String)
  /-- The group of a request could not serve it. -/
  | groupFailed (size : Nat) (affinity : Affinity) (reason : AllocationError)
  /-- A fallback offered an address without the alignment needed. -/
  | fallbackMisaligned (fallback : String) (address alignment : Nat)
  /-- A request was served by a fallback. -/
  | servedByFallback (address size : Nat) (affinity : Affinity) (fallback : String)
  /-- Neither the group nor a fallback could serve a request. -/
  | exhausted (size : Nat) (affinity : Affinity)
  /-- An address went back to a group. -/
  | returnedToGroup (address size : Nat) (group : String)
  /-- An address went back to a fallback. -/
  | returnedToFallback (address size : Nat) (fallback : String)
  /-- Nobody knows an address that was to be returned. -/
  | addressUnowned (address size : Nat)
  /-- The empty blocks of an allocator are gone. -/
  | compacted (bytes : Nat)
  /-- Sized memory was to be returned with a size and alignment that cannot be. -/
  | layoutRejected (address size : Nat)
  /-- Unsized memory came without the alignment needed and goes back. -/
  | unsizedMisaligned (address alignment : Nat)
  /-- The process already has its allocator. -/
  | alreadyInstalled
deriving DecidableEq, Inhabited

namespace Notice

/-- How serious a notice is. -/
def severity : Notice → Severity
  | slotMissed .. | slotReserved .. | slotReleased .. | blockObtained .. | blockReturned ..
  | blockAdded .. | blockRemoved .. | groupCreated .. | servedByGroup .. | returnedToGroup ..
  | returnedToFallback .. | compacted .. => .info
  | slotAlignmentRejected .. | slotSizeRejected .. | slotUnknown .. | blockKeptSlot ..
  | groupFailed .. | fallbackMisaligned .. | servedByFallback .. | unsizedMisaligned ..
  | alreadyInstalled => .warn
  | trackerInconsistent .. | exhausted .. | addressUnowned .. | layoutRejected .. => .error

/-- Free runs as `offset: length` in braces. -/
def runsText (runs : List (Nat × Nat)) : String :=
  "\x7b" ++ ", ".intercalate (runs.map fun (offset, length) => s!"{offset}: {length}") ++ "\x7d"

/-- The wording of a notice. -/
def text : Notice → String
  | slotAlignmentRejected alignment =>
    s!"slot reserve rejected: alignment {alignment} is not a power of two"
  | slotMissed size alignment largest =>
    s!"slot reserve({size}, {alignment}) missed: largest free run is {largest} bytes"
  | slotReserved size alignment offset =>
    s!"slot reserve({size}, {alignment}) -> offset {offset}"
  | slotSizeRejected offset size held =>
    s!"slot release({offset}, {size}) rejected: slot at offset {offset} holds {held} bytes"
  | slotUnknown offset size =>
    s!"slot release({offset}, {size}) rejected: no slot reserved at offset {offset}"
  | slotReleased offset size start stop =>
    s!"slot release({offset}, {size}) -> free run {start}..{stop}"
  | trackerInconsistent action capacity reserved freeRuns =>
    let name := action.name
    let runs := runsText freeRuns
    s!"slot tracker inconsistent after {name}: capacity = {capacity}, reserved = {reserved}, " ++
      s!"free runs = {runs}"
  | blockObtained base capacity alignment =>
    let base := Text.address base
    s!"memory block {base}: allocated {capacity} bytes aligned to {alignment}"
  | blockReturned base capacity =>
    let base := Text.address base
    s!"memory block {base}: freed {capacity} bytes"
  | blockKeptSlot base address size =>
    let base := Text.address base
    let address := Text.address address
    s!"memory block {base}: could not release {address} ({size} bytes)"
  | blockAdded group size capacity base =>
    let base := Text.address base
    s!"{group}: allocate({size}) needed a new memory block of {capacity} bytes at {base}"
  | blockRemoved group base capacity =>
    let base := Text.address base
    s!"{group}: removing empty memory block {base} ({capacity} bytes)"
  | groupCreated affinity blockSize =>
    let affinity := affinity.name
    s!"creating memory block group for {affinity} ({blockSize} byte blocks)"
  | servedByGroup address size affinity group =>
    let address := Text.address address
    let affinity := affinity.name
    s!"allocated {address} ({size} bytes, {affinity}) from {group}"
  | groupFailed size affinity reason =>
    let affinity := affinity.name
    let reason := reason.message
    s!"allocate({size}, {affinity}) could not use its memory block group: {reason}"
  | fallbackMisaligned fallback address alignment =>
    let address := Text.address address
    s!"fallback {fallback} returned {address}, which is not aligned to {alignment}"
  | servedByFallback address size affinity fallback =>
    let address := Text.address address
    let affinity := affinity.name
    s!"allocated {address} ({size} bytes, {affinity}) from fallback {fallback}"
  | exhausted size affinity =>
    let affinity := affinity.name
    s!"allocate({size}, {affinity}) failed: every fallback is exhausted"
  | returnedToGroup address size group =>
    let address := Text.address address
    s!"deallocated {address} ({size} bytes) from {group}"
  | returnedToFallback address size fallback =>
    let address := Text.address address
    s!"deallocated {address} ({size} bytes) through fallback {fallback}"
  | addressUnowned address size =>
    let address := Text.address address
    s!"deallocate({address}, {size}): pointer is not owned by this allocator"
  | compacted bytes => s!"delete_empty_memory_blocks() freed {bytes} bytes"
  | layoutRejected address size =>
    let address := Text.address address
    s!"system-new-delete: no valid layout for {address} ({size} bytes)"
  | unsizedMisaligned address alignment =>
    let address := Text.address address
    s!"malloc-free: {address} does not meet alignment {alignment}, releasing it"
  | alreadyInstalled =>
    "global allocator is already initialized, ignoring the new configuration"

end Notice

end BlockPool
