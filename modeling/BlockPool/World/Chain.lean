import BlockPool.World.Basic

/-!
# Chains of fallbacks

A request that its group cannot serve goes to one fallback after another, and an address goes back
the same way, so that it returns to the strategy it came from.

A fallback may be another allocator, whose own fallbacks may be allocators again. Such links lead
from one allocator to another at most as often as there are allocators, so a number of links that
may still be followed bounds the way.
-/

namespace BlockPool.World

variable {σ : Type} [System σ]

/-- How another allocator is asked for memory and shown an address. -/
structure Links (σ : Type) where
  allocate (id size : Nat) (affinity : Affinity) : WorldM σ (Option Nat)
  deallocate (id address size : Nat) : WorldM σ Bool

/-- What a `Strategy` offers for a request. -/
def offer (links : Links σ) (size : Nat) (affinity : Affinity) :
    Strategy → WorldM σ (Option Nat)
  | .allocator id _ => links.allocate id size affinity
  | .heap h => onMemory (h.allocate size)
  | .foreign id name => onMemory (Memory.askForeign id name size affinity)

/-- Shows an address to a `Strategy`, which takes it back if it owns it. -/
def offerBack (links : Links σ) (address size : Nat) : Strategy → WorldM σ Bool
  | .allocator id _ => links.deallocate id address size
  | .heap h => onMemory (h.deallocate address size)
  | .foreign id name => onMemory (Memory.returnForeign id name address size)

/-- Serves a request by `offer` from the first of some strategies whose address has the alignment
needed. An address without it goes back where it came from, by `offerBack`. An alignment that is no
power of two does not count. -/
def serveFrom (links : Links σ) (size : Nat) (affinity : Affinity) (alignment : Nat) :
    List Strategy → WorldM σ (Option Nat)
  | [] => pure none
  | s :: rest => do
    match ← offer links size affinity s with
    | none => serveFrom links size affinity alignment rest
    | some address =>
      if alignment.isPowerOfTwo ∧ address % alignment ≠ 0 then do
        onMemory (Memory.note (.fallbackMisaligned s.name address alignment))
        let _ ← offerBack links address size s
        serveFrom links size affinity alignment rest
      else do
        onMemory (Memory.note (.servedByFallback address size affinity s.name))
        pure (some address)

/-- Returns an address by `offerBack` to the first of some strategies that takes it, and answers
which. -/
def returnTo (links : Links σ) (address size : Nat) :
    List Strategy → WorldM σ (Option Strategy)
  | [] => pure none
  | s :: rest => do
    if ← offerBack links address size s then pure (some s)
    else returnTo links address size rest

/-- Serves a request to an allocator, by `allocatePooled` and then by `serveFrom` the strategies of
a chain. -/
def allocateWith (links : Links σ) (id : Nat) (a : Allocator) (chain : Chain) (size : Nat)
    (affinity : Affinity) : WorldM σ (Except AllocationError Nat) := do
  let (answer, a) ← onMemory (a.allocatePooled size affinity)
  setAllocator id a
  match answer with
  | .ok address => pure (.ok address)
  | .error reason =>
    match ← serveFrom links size affinity (a.alignmentFor affinity) (a.strategies chain) with
    | some address => pure (.ok address)
    | none =>
      onMemory (Memory.note (.exhausted size affinity))
      pure (.error reason)

/-- Takes an address back, by `deallocatePooled` and then by `returnTo` the strategies of a
chain. -/
def deallocateWith (links : Links σ) (id : Nat) (a : Allocator) (chain : Chain)
    (address size : Nat) : WorldM σ Bool := do
  let (known, a) ← onMemory (a.deallocatePooled address size)
  setAllocator id a
  if known then pure true
  else
    match ← returnTo links address size (a.strategies chain) with
    | some s =>
      onMemory (Memory.noteIf a.tracking.report (.returnedToFallback address size s.name))
      pure true
    | none =>
      match chain with
      | .full => onMemory (Memory.note (.addressUnowned address size))
      | .owned => pure ()
      pure false

/-- Links that may be followed a number of times, each by `allocateWith` or `deallocateWith` of an
allocator that uses no heap at the end of its own chain. -/
def Links.upTo : Nat → Links σ
  | 0 =>
    { allocate := fun _ _ _ => pure none
      deallocate := fun _ _ _ => pure false }
  | depth + 1 =>
    { allocate := fun id size affinity => do
        match (← get).allocator? id with
        | none => pure none
        | some a =>
          let answer ← allocateWith (upTo depth) id a .owned size affinity
          pure answer.toOption
      deallocate := fun id address size => do
        match (← get).allocator? id with
        | none => pure false
        | some a => deallocateWith (upTo depth) id a .owned address size }

/-- Serves a request by `allocateWith`, if there is an allocator of that number. -/
def allocate (id : Nat) (chain : Chain) (size : Nat) (affinity : Affinity) :
    WorldM σ (Option (Except AllocationError Nat)) := do
  let w ← get
  match w.allocator? id with
  | none => pure none
  | some a => some <$> allocateWith (.upTo w.allocators.length) id a chain size affinity

/-- Returns an address by `deallocateWith`, if there is an allocator of that number. -/
def deallocate (id : Nat) (chain : Chain) (address size : Nat) : WorldM σ (Option Bool) := do
  let w ← get
  match w.allocator? id with
  | none => pure none
  | some a => some <$> deallocateWith (.upTo w.allocators.length) id a chain address size

end BlockPool.World
