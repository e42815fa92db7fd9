import BlockPool.Block
import BlockPool.Total

/-!
# Groups

A group holds the blocks that serve one affinity. A request goes to the block that served the
latest one, then to the other blocks from the newest to the oldest, and only then to a new block.
An address goes back to the block with the greatest base that is not above it. Empty blocks stay
until the group is compacted.
-/

namespace BlockPool

/-- The blocks of one affinity, and what holds for new ones. -/
structure Group where
  name : String
  /-- The least capacity of a new block. -/
  blockSize : Nat
  /-- The alignment of the slots of a new block. -/
  alignment : Nat
  /-- The blocks by base address. -/
  blocks : Table Nat Block := .empty
  /-- The base addresses in the order in which the blocks were made. -/
  order : List Nat := []
  /-- The base address of the block that served the latest request. -/
  latest : Option Nat := none
deriving DecidableEq, Inhabited

namespace Group

variable {σ : Type} [System σ]

/-! ## Settings and totals -/

/-- Changes `blockSize`, the least capacity of new blocks. -/
def setBlockSize (g : Group) (blockSize : Nat) : Group := { g with blockSize }

/-- Changes what holds for new blocks. -/
def configure (g : Group) (name : String) (blockSize alignment : Nat) : Group :=
  { g with name, blockSize, alignment }

/-- Changes the switches of every block. -/
def setTracking (g : Group) (tracking : Tracking) : Group :=
  { g with blocks := g.blocks.mapValues (·.setTracking tracking) }

/-- The number of blocks. -/
def blockCount (g : Group) : Nat := g.blocks.size

/-- The number of bytes in no slot. -/
def available (g : Group) : Nat := total (g.blocks.values.map (·.tracker.available))

/-- The number of bytes in slots. -/
def reserved (g : Group) : Nat := total (g.blocks.values.map (·.tracker.reserved))

/-- The number of bytes of all blocks. -/
def memorySize (g : Group) : Nat := total (g.blocks.values.map (·.capacity))

/-! ## Requests -/

/-- The base addresses in the order in which the blocks are tried: `latest`, and then the others
from the newest to the oldest. -/
def searchOrder (g : Group) : List Nat :=
  g.latest.toList ++ g.order.reverse.filter fun base => some base ≠ g.latest

/-- Serves a request from the first of some blocks whose tracker has room. -/
def serveFrom (g : Group) (size : Nat) : List Nat → Outcome Group (Option Nat)
  | [] => { answer := none, state := g }
  | base :: rest =>
    match g.blocks.find? base with
    | none => g.serveFrom size rest
    | some block =>
      let o := block.allocate size
      match o.answer with
      | some address =>
        { answer := some address
          state := { g with blocks := g.blocks.insert base o.state, latest := some base }
          notices := o.notices }
      | none =>
        let next := g.serveFrom size rest
        { next with notices := o.notices ++ next.notices }

/-- Serves a request from the blocks that are there, in `searchOrder`. -/
def serve (g : Group) (size : Nat) : Outcome Group (Option Nat) :=
  g.serveFrom size g.searchOrder

/-- Puts a new block into a group, in the place of one at the same address, and makes it
`latest`. -/
def addBlock (g : Group) (block : Block) : Group :=
  { g with
    blocks := g.blocks.insert block.base block
    order := g.order ++ [block.base]
    latest := some block.base }

/-- Gives back the memory of the block at an address. Only a system that hands out live memory a
second time makes a new block meet one there. -/
def displace (g : Group) (base : Nat) : MemoryM σ Unit :=
  match g.blocks.find? base with
  | none => pure ()
  | some block => block.giveBack

/-- Serves a request from a new block, which `Block.obtain` gets and `addBlock` puts into the
group. -/
def grow (g : Group) (size : Nat) (tracking : Tracking) :
    MemoryM σ (Except AllocationError Nat × Group) := do
  let capacity := max size g.blockSize
  match ← Block.obtain capacity g.alignment tracking with
  | .error reason => pure (.error reason, g)
  | .ok fresh =>
    let (answer, block) ← Memory.settle (fresh.allocate size)
    match answer with
    | none =>
      block.giveBack
      pure (.error (.systemRefused capacity g.alignment), g)
    | some address =>
      Memory.noteIf tracking.report (.blockAdded g.name size block.capacity block.base)
      g.displace block.base
      pure (.ok address, g.addBlock block)

/-- Serves a request by `serve`, or by `grow` if no block has room. -/
def allocate (g : Group) (size : Nat) (tracking : Tracking) :
    MemoryM σ (Except AllocationError Nat × Group) := do
  let (answer, g) ← Memory.settle (g.serve size)
  match answer with
  | some address => pure (.ok address, g)
  | none => g.grow size tracking

/-! ## Returns -/

/-- The block that contains an address, with its key: it is the one with the greatest base not above
the address. -/
def owner? (g : Group) (address : Nat) : Option (Nat × Block) :=
  (g.blocks.lastUpTo? address).filter (·.2.contains address)

/-- Whether an address lies in a block of the group, its `owner?`. -/
def owns (g : Group) (address : Nat) : Bool := (g.owner? address).isSome

/-- Takes an address back if it lies in a block of the group. It is then taken even if the block
has no slot to release for it, so that nobody else gets it. -/
def deallocate (g : Group) (address size : Nat) : Outcome Group Bool :=
  match g.owner? address with
  | none => { answer := false, state := g }
  | some (base, block) =>
    let o := block.deallocate address size
    { answer := true
      state := { g with blocks := g.blocks.insert base o.state }
      notices := o.notices }

/-! ## Compaction -/

/-- The blocks that are `isEmpty`, in the order of their addresses. -/
def emptyBlocks (g : Group) : List Block := g.blocks.values.filter (·.isEmpty)

/-- The group without its `emptyBlocks`, neither in `order` nor as `latest`. -/
def withoutEmpty (g : Group) : Group :=
  let blocks := g.blocks.filter fun _ block => !block.isEmpty
  { g with
    blocks
    order := g.order.filter (blocks.contains ·)
    latest := g.latest.filter (blocks.contains ·) }

/-- Gives back the memory of blocks that leave their group. -/
def removeAll (name : String) (tracking : Tracking) : List Block → MemoryM σ Unit
  | [] => pure ()
  | block :: rest => do
    Memory.noteIf tracking.report (.blockRemoved name block.base block.capacity)
    block.giveBack
    removeAll name tracking rest

/-- Gives back the memory of `emptyBlocks`, and answers how many bytes these are. -/
def compact (g : Group) (tracking : Tracking) : MemoryM σ (Nat × Group) := do
  removeAll g.name tracking g.emptyBlocks
  pure (total (g.emptyBlocks.map (·.capacity)), g.withoutEmpty)

/-- Gives back the memory of some blocks. -/
def giveBackAll : List Block → MemoryM σ Unit
  | [] => pure ()
  | block :: rest => do
    block.giveBack
    giveBackAll rest

/-- Gives back all memory of a group. -/
def giveBack (g : Group) : MemoryM σ Unit := giveBackAll g.blocks.values

end Group

end BlockPool
