import BlockPool.Memory.Event
import BlockPool.Memory.System
import BlockPool.Outcome

/-!
# Memory

The state of the system side: the system, the regions that are live, and a log of what happened.
Everything that a pool does to the world around it is an action on this state.
-/

namespace BlockPool

/-- The system side of a pool: a `System`, what it has handed out, and a log. -/
structure Memory (σ : Type) where
  system : σ
  /-- The regions handed out and not returned. -/
  live : List Region := []
  /-- What happened, the latest event first. -/
  log : List Event := []

/-- An action with effects on memory. -/
abbrev MemoryM (σ : Type) := StateM (Memory σ)

namespace Memory

variable {σ : Type} [System σ]

/-- Writes an event to the log. -/
def record (event : Event) : MemoryM σ Unit :=
  fun m => ((), { m with log := event :: m.log })

/-- Writes a `Notice` to the log. -/
def note (notice : Notice) : MemoryM σ Unit := record (.noted notice)

/-- Reports one thing after another. -/
def noteAll : List Notice → MemoryM σ Unit
  | [] => pure ()
  | notice :: rest => do
    note notice
    noteAll rest

/-- A `note` if reporting is switched on. -/
def noteIf (report : Bool) (notice : Notice) : MemoryM σ Unit :=
  if report then note notice else pure ()

/-- Reports what an `Outcome` reports, and goes on with its answer and state. -/
def settle {state answer : Type} (outcome : Outcome state answer) :
    MemoryM σ (answer × state) := do
  noteAll outcome.notices
  pure (outcome.answer, outcome.state)

/-- Asks the system for memory, by `System.place`. -/
def request (source : Source) (layout : Layout) : MemoryM σ (Option Nat) := fun m =>
  let (answer, system) := System.place m.system m.live source layout
  let live :=
    match answer with
    | some start => ⟨source, start, layout⟩ :: m.live
    | none => m.live
  (answer, { system, live, log := .requested source layout answer :: m.log })

/-- How the return of a region is received: by the live region that starts there, which `Matches` it
or not. -/
def statusOf (live : List Region) (named : Region) : ReturnStatus :=
  match live.find? (·.start = named.start) with
  | none => .unknown
  | some held => if held.Matches named then .ok else .mismatch

/-- Gives a region back to the system. The live region that starts there goes, whatever its
layout. -/
def release (named : Region) : MemoryM σ Unit := fun m =>
  ((), { m with
    live := m.live.eraseP (·.start = named.start)
    log := .released named (statusOf m.live named) :: m.log })

/-- Asks a foreign strategy for memory, by `System.offer`. -/
def askForeign (strategy : Nat) (name : String) (size : Nat) (affinity : Affinity) :
    MemoryM σ (Option Nat) := fun m =>
  let (answer, system) := System.offer m.system strategy size affinity
  (answer, { m with system, log := .asked strategy name size affinity :: m.log })

/-- Shows an address to a foreign strategy, which claims it or not, by `System.claim`. -/
def returnForeign (strategy : Nat) (name : String) (address size : Nat) : MemoryM σ Bool :=
  fun m =>
    let (answer, system) := System.claim m.system strategy address size
    (answer, { m with system, log := .offeredBack strategy name address size :: m.log })

end Memory

end BlockPool
