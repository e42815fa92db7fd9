import BlockPool.Outcome
import BlockPool.Table.Basic
import BlockPool.Tracking
import BlockPool.Word

/-!
# Slot trackers

A tracker keeps the books of a region of `capacity` bytes without touching it. It hands out slots,
which are ranges of offsets, and takes them back. Every byte is either in a slot or in a free run,
and neighbouring free runs are one run.

Free runs are kept twice: by offset, to merge them when a slot comes back, and by length, to find
the smallest run with room for a slot.
-/

namespace BlockPool

/-- A range of free bytes. -/
structure Run where
  offset : Nat
  length : Nat
deriving DecidableEq, Inhabited

/-- Runs are ordered by length, those of one length by offset. -/
instance : KeyOrder Run where
  before a b := a.length < b.length ∨ a.length = b.length ∧ a.offset < b.offset
  decideBefore a b :=
    inferInstanceAs (Decidable (a.length < b.length ∨ a.length = b.length ∧ a.offset < b.offset))
  irrefl a := by omega
  trans := by omega
  trichotomy {a b} h h' := by
    cases a
    cases b
    simp only [Run.mk.injEq] at *
    omega

/-- The free runs and the slots of a region. -/
structure Tracker where
  capacity : Nat
  /-- The number of bytes in slots. -/
  reserved : Nat
  /-- The length of the free run at each offset where one starts. -/
  free : Table Nat Nat
  /-- The free runs in the order in which they are tried. -/
  bySize : Table Run Unit
  /-- The length of the slot at each offset where one starts. -/
  slots : Table Nat Nat
  tracking : Tracking
deriving DecidableEq, Inhabited

namespace Tracker

/-! ## Free runs -/

/-- Adds a free run, unless it has no bytes. -/
def addRun (t : Tracker) (offset length : Nat) : Tracker :=
  if length = 0 then t
  else { t with
    free := t.free.insert offset length
    bySize := t.bySize.insert ⟨offset, length⟩ () }

/-- Removes a free run. -/
def removeRun (t : Tracker) (offset length : Nat) : Tracker :=
  { t with
    free := t.free.erase offset
    bySize := t.bySize.erase ⟨offset, length⟩ }

/-- A tracker of a region that is one free run of `capacity` bytes. -/
def new (capacity : Nat) (tracking : Tracking) : Tracker :=
  addRun ⟨capacity, 0, .empty, .empty, .empty, tracking⟩ 0 capacity

/-! ## Totals -/

/-- The number of bytes in no slot: what `reserved` leaves of `capacity`. -/
def available (t : Tracker) : Nat := Word.sub t.capacity t.reserved

/-- The length of the longest free run, the last one of `bySize`. -/
def largestRun (t : Tracker) : Nat := (t.bySize.keys.getLast?.map (·.length)).getD 0

/-- Whether no byte is in a slot, as `reserved` says. -/
def isEmpty (t : Tracker) : Bool := t.reserved = 0

/-- The number of slots. -/
def slotCount (t : Tracker) : Nat := t.slots.size

/-- A range of offsets, from its first one to the one behind its last one. -/
structure Span where
  start : Nat
  stop : Nat
deriving DecidableEq, Inhabited

/-- The spans of a table of lengths, each from its offset on. -/
def spans (lengths : Table Nat Nat) : List Span :=
  lengths.entries.map fun (offset, length) => ⟨offset, Word.add offset length⟩

/-- The free runs as `spans`, in the order of their offsets. -/
def freeSpans (t : Tracker) : List Span := spans t.free

/-- The slots as `spans`, in the order of their offsets. -/
def slotSpans (t : Tracker) : List Span := spans t.slots

/-! ## Self-check -/

/-- A `Span` together with what it is: free or a slot. -/
structure Piece where
  span : Span
  isFree : Bool
deriving DecidableEq, Inhabited

/-- Puts a piece before the first one that does not start below it. -/
def insertPiece (p : Piece) : List Piece → List Piece
  | [] => [p]
  | q :: rest => if p.span.start ≤ q.span.start then p :: q :: rest else q :: insertPiece p rest

/-- The `freeSpans` and the `slotSpans` together in the order of their offsets. -/
def pieces (t : Tracker) : List Piece :=
  (t.freeSpans.map (⟨·, true⟩)).foldr insertPiece (t.slotSpans.map (⟨·, false⟩))

/-- Whether pieces follow one another without a gap from `cursor` to `limit`, none of them empty
and no two free ones next to each other. -/
def follow (limit cursor : Nat) (afterFree : Bool) : List Piece → Bool
  | [] => cursor = limit
  | p :: rest =>
    p.span.start = cursor && p.span.start < p.span.stop && !(p.isFree && afterFree) &&
      follow limit p.span.stop p.isFree rest

/-- Whether the books are in order: the `pieces` fill the region, as `follow` finds, the two
collections of free runs agree, and `reserved` is the sum over the slots. -/
def isConsistent (t : Tracker) : Bool :=
  follow t.capacity 0 false t.pieces &&
    t.bySize.size = t.free.size &&
    t.free.entries.all (fun (offset, length) => t.bySize.contains ⟨offset, length⟩) &&
    Word.sum t.slots.values = t.reserved

/-- The notice of a self-check by `isConsistent` that failed, if checking is switched on. -/
def checkNotices (t : Tracker) (action : Action) : List Notice :=
  if t.tracking.check && !t.isConsistent then
    [.trackerInconsistent action t.capacity t.reserved t.free.entries]
  else []

/-- A notice that is given only if reporting is switched on. -/
def reportNotices (t : Tracker) (notice : Notice) : List Notice :=
  if t.tracking.report then [notice] else []

/-- Changes the switches. -/
def setTracking (t : Tracker) (tracking : Tracking) : Tracker := { t with tracking }

/-! ## Reserving -/

/-- A place for a slot: the free `Run` it is in, and its offset. -/
structure Fit where
  run : Run
  offset : Nat
deriving DecidableEq, Inhabited

/-- The lowest place for a slot in a free run: at the next multiple of `alignment`. -/
def fitIn? (size alignment : Nat) (run : Run) : Option Fit := do
  let offset ← Word.nextMultiple? run.offset alignment
  let needed ← Word.checkedAdd? (Word.sub offset run.offset) size
  if needed ≤ run.length then some ⟨run, offset⟩ else none

/-- The place for a slot in the first free run that has one, in the order of `bySize`: by length and
then by offset. -/
def bestFit? (t : Tracker) (size alignment : Nat) : Option Fit :=
  (t.bySize.keys.filter fun run => size ≤ run.length).findSome? (fitIn? size alignment)

/-- Puts a slot into its place. What is left of the free run before and behind it is added by
`addRun`. -/
def occupy (t : Tracker) (fit : Fit) (size : Nat) : Tracker :=
  let run := fit.run
  let stop := Word.add fit.offset size
  let t := t.removeRun run.offset run.length
  let t := t.addRun run.offset (Word.sub fit.offset run.offset)
  let t := t.addRun stop (Word.sub (Word.add run.offset run.length) stop)
  { t with
    slots := t.slots.insert fit.offset size
    reserved := Word.add t.reserved size }

/-- The number of bytes that a slot for `size` bytes has: every slot has an offset of its own, so
it has at least one byte. -/
def slotSize (size : Nat) : Nat := max size 1

theorem slotSize_pos (size : Nat) : 0 < slotSize size := by
  simp only [slotSize]
  omega

/-- Reserves a slot of `size` bytes at a multiple of `alignment`, and answers its offset. An
alignment of zero counts as one. -/
def reserve (t : Tracker) (size alignment : Nat) : Outcome Tracker (Option Nat) :=
  let size := slotSize size
  let alignment := max alignment 1
  if alignment.isPowerOfTwo then
    match t.bestFit? size alignment with
    | none =>
      { answer := none
        state := t
        notices := t.reportNotices (.slotMissed size alignment t.largestRun) }
    | some fit =>
      let after := t.occupy fit size
      { answer := some fit.offset
        state := after
        notices :=
          after.reportNotices (.slotReserved size alignment fit.offset) ++
            after.checkNotices .reserve }
  else { answer := none, state := t, notices := [.slotAlignmentRejected alignment] }

/-! ## Releasing -/

/-- The free run that ends where a slot starts. -/
def runBefore? (t : Tracker) (offset : Nat) : Option Run :=
  match t.free.lastBefore? offset with
  | some (start, length) => if Word.add start length = offset then some ⟨start, length⟩ else none
  | none => none

/-- Takes the free run before an offset out, and answers where free bytes then start. -/
def mergeBefore (t : Tracker) (offset : Nat) : Tracker × Nat :=
  match t.runBefore? offset with
  | some run => (t.removeRun run.offset run.length, run.offset)
  | none => (t, offset)

/-- Takes the free run at an offset out, and answers where free bytes then stop. -/
def mergeBehind (t : Tracker) (offset : Nat) : Tracker × Nat :=
  match t.free.find? offset with
  | some length => (t.removeRun offset length, Word.add offset length)
  | none => (t, offset)

/-- Turns a slot into free bytes, together with the free runs around it by `mergeBefore` and
`mergeBehind`, and answers the span of the free run that they form. -/
def vacate (t : Tracker) (offset size : Nat) : Tracker × Span :=
  let t := { t with
    slots := t.slots.erase offset
    reserved := Word.sub t.reserved size }
  let (t, start) := t.mergeBefore offset
  let (t, stop) := t.mergeBehind (Word.add offset size)
  (t.addRun start (Word.sub stop start), ⟨start, stop⟩)

/-- Releases the slot of `size` bytes at an offset. Answers whether there is one; if not, nothing
changes. -/
def release (t : Tracker) (offset size : Nat) : Outcome Tracker Bool :=
  let size := slotSize size
  match t.slots.find? offset with
  | some held =>
    if held = size then
      let (after, span) := t.vacate offset size
      { answer := true
        state := after
        notices :=
          after.reportNotices (.slotReleased offset size span.start span.stop) ++
            after.checkNotices .release }
    else { answer := false, state := t, notices := [.slotSizeRejected offset size held] }
  | none => { answer := false, state := t, notices := [.slotUnknown offset size] }

end Tracker

end BlockPool
