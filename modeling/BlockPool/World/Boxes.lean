import BlockPool.World.Chain

/-!
# Boxes

A box holds a value in a slot of an allocator. It gives the slot back when it goes. A value is
destroyed once: by its box, by the box that another value is put into, or by whoever took it out
of its box; and a value for which no box can be made is destroyed at once.
-/

namespace BlockPool.World

variable {σ : Type} [System σ]

/-- Destroys a value, which is an event in the log. -/
def destroy (value : Value) : WorldM σ Unit := onMemory (Memory.record (.destroyed value))

/-- Gets memory for a value of some layout. The group of the affinity has to promise the
alignment, and the address has to have it: a fallback may not keep the promise of a group. -/
def boxMemory (id : Nat) (a : Allocator) (layout : Layout) (affinity : Affinity) :
    WorldM σ (Except AllocationError Nat) := do
  let promised := a.alignmentFor affinity
  let unsupported : AllocationError := .unsupportedAlignment affinity layout.alignment promised
  if promised < layout.alignment then pure (.error unsupported)
  else
    match ← allocate id .full layout.size affinity with
    | none => pure (.error unsupported)
    | some (.error reason) => pure (.error reason)
    | some (.ok address) =>
      if address % layout.alignment = 0 then pure (.ok address)
      else do
        let _ ← deallocate id .full address layout.size
        pure (.error unsupported)

/-- Makes a box in `boxMemory`, if there is an allocator of that number, and answers its address.
The box takes the next number even if it cannot be made. -/
def newBoxed (id : Nat) (layout : Layout) (value : Value) (affinity : Affinity) :
    WorldM σ (Option (Except AllocationError Nat)) := do
  match (← get).allocator? id with
  | none => pure none
  | some a =>
    let answer ← boxMemory id a layout affinity
    match answer with
    | .ok address => pushBoxed (some { allocator := id, address, layout, value })
    | .error _ => do
      destroy value
      pushBoxed none
    pure (some answer)

/-- Puts another value of the same type into a box, and answers its text. -/
def replaceBoxed (index : Nat) (value : Value) : WorldM σ (Option String) := do
  match (← get).boxed? index with
  | none => pure none
  | some b =>
    destroy b.value
    setBoxed index (some { b with value })
    pure (some value.text)

/-- Gives back the memory of a box, by `deallocate`. -/
def returnBoxed (b : Boxed) : WorldM σ Unit := do
  let _ ← deallocate b.allocator .full b.address b.layout.size
  pure ()

/-- Destroys the value of a box and gives its memory back, by `returnBoxed`. Answers whether there
is such a box. -/
def dropBoxed (index : Nat) : WorldM σ Bool := do
  match (← get).boxed? index with
  | none => pure false
  | some b =>
    setBoxed index none
    destroy b.value
    returnBoxed b
    pure true

/-- Takes the value out of a box, gives the memory of the box back, and destroys the value after
that. Answers the text of the value. -/
def unbox (index : Nat) : WorldM σ (Option String) := do
  match (← get).boxed? index with
  | none => pure none
  | some b =>
    setBoxed index none
    returnBoxed b
    onMemory (Memory.record .movedOut)
    destroy b.value
    pure (some b.value.text)

/-- Drops the boxes of some numbers. -/
def dropAllBoxed : List Nat → WorldM σ Unit
  | [] => pure ()
  | index :: rest => do
    let _ ← dropBoxed index
    dropAllBoxed rest

/-- Drops all boxes that are left, in the order of their numbers. -/
def dropBoxes : WorldM σ Unit := do
  dropAllBoxed (List.range (← get).boxes.length)

end BlockPool.World
