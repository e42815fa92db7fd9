import BlockPool.Proofs.Tracker.SelfCheck
import Mathlib.Data.List.Induction

/-!
# Exact sums and differences

A tracker forms sums and differences of words, which may wrap around at `2 ^ 64`. Here the actions
and the queries are written over any arithmetic, which may also have no answer for two numbers.
Over words that wrap around they are those of the tracker. Over checked words, an action has no
answer as soon as one of its sums or differences is not the exact one.

Main statement: whatever is done to a new tracker, over checked words every action and every query
has an answer, and it is the answer of the tracker.
-/

namespace BlockPool

/-- `a - b`, or nothing if that is below zero. -/
def Word.checkedSub? (a b : Nat) : Option Nat :=
  if b ≤ a then some (a - b) else none

namespace Tracker

/-- A way to form sums and differences of words, each of which may be nothing. -/
structure Arithmetic where
  add : Nat → Nat → Option Nat
  sub : Nat → Nat → Option Nat

namespace Arithmetic

/-- Words that wrap around at `2 ^ 64`. -/
def wrapping : Arithmetic where
  add a b := some (Word.add a b)
  sub a b := some (Word.sub a b)

/-- Words that are the exact results, or nothing. -/
def checked : Arithmetic where
  add := Word.checkedAdd?
  sub := Word.checkedSub?

/-! ## The actions and the queries over an arithmetic -/

section Program

variable (A : Arithmetic)

/-- `Tracker.available` in an arithmetic. -/
def available (t : Tracker) : Option Nat := A.sub t.capacity t.reserved

/-- The spans of a table of lengths, with `A.add` for where they stop. -/
def spans (lengths : Table Nat Nat) : Option (List Span) :=
  lengths.entries.mapM fun (offset, length) => return ⟨offset, ← A.add offset length⟩

/-- `Word.sum` in an arithmetic. -/
def sum (words : List Nat) : Option Nat := words.foldlM A.add 0

/-- `Tracker.isConsistent` in an arithmetic. The slots are summed up only if all else is right. -/
def isConsistent (t : Tracker) : Option Bool := do
  let free ← A.spans t.free
  let slots ← A.spans t.slots
  let pieces := (free.map (⟨·, true⟩)).foldr insertPiece (slots.map (⟨·, false⟩))
  if follow t.capacity 0 false pieces && t.bySize.size = t.free.size &&
      t.free.entries.all fun (offset, length) => t.bySize.contains ⟨offset, length⟩ then
    let bytes ← A.sum t.slots.values
    return bytes = t.reserved
  else return false

/-- The notice of a failed self-check. The check is made only if checking is switched on. -/
def checkNotices (t : Tracker) (action : Action) : Option (List Notice) := do
  if t.tracking.check then
    if ← A.isConsistent t then return []
    else return [.trackerInconsistent action t.capacity t.reserved t.free.entries]
  else return []

/-- The lowest place for a slot in a free run, if there is one. -/
def fitIn (size alignment : Nat) (run : Run) : Option (Option Fit) :=
  match Word.nextMultiple? run.offset alignment with
  | none => return none
  | some offset => do
    let padding ← A.sub offset run.offset
    match Word.checkedAdd? padding size with
    | none => return none
    | some needed => return if needed ≤ run.length then some ⟨run, offset⟩ else none

/-- The place for a slot in the first free run that has one. The runs behind are not tried. -/
def bestFit (t : Tracker) (size alignment : Nat) : Option (Option Fit) :=
  (t.bySize.keys.filter fun run => size ≤ run.length).findSomeM? (A.fitIn size alignment)

/-- Puts a slot into its place. -/
def occupy (t : Tracker) (fit : Fit) (size : Nat) : Option Tracker := do
  let run := fit.run
  let padding ← A.sub fit.offset run.offset
  let stop ← A.add fit.offset size
  let behind ← A.sub (← A.add run.offset run.length) stop
  let reserved ← A.add t.reserved size
  let t := t.removeRun run.offset run.length
  let t := t.addRun run.offset padding
  let t := t.addRun stop behind
  return { t with slots := t.slots.insert fit.offset size, reserved }

/-- Reserves a slot. -/
def reserve (t : Tracker) (size alignment : Nat) :
    Option (Outcome Tracker (Option Nat)) := do
  let size := slotSize size
  let alignment := max alignment 1
  if alignment.isPowerOfTwo then
    match ← A.bestFit t size alignment with
    | none =>
      return {
        answer := none
        state := t
        notices := t.reportNotices (.slotMissed size alignment t.largestRun) }
    | some fit =>
      let after ← A.occupy t fit size
      let failures ← A.checkNotices after .reserve
      return {
        answer := some fit.offset
        state := after
        notices :=
          after.reportNotices (.slotReserved size alignment fit.offset) ++ failures }
  else return { answer := none, state := t, notices := [.slotAlignmentRejected alignment] }

/-- The free run that ends where a slot starts, if there is one. -/
def runBefore (t : Tracker) (offset : Nat) : Option (Option Run) :=
  match t.free.lastBefore? offset with
  | some (start, length) => do
    let stop ← A.add start length
    return if stop = offset then some ⟨start, length⟩ else none
  | none => return none

/-- `Tracker.mergeBefore` in an arithmetic. -/
def mergeBefore (t : Tracker) (offset : Nat) : Option (Tracker × Nat) := do
  match ← A.runBefore t offset with
  | some run => return (t.removeRun run.offset run.length, run.offset)
  | none => return (t, offset)

/-- `Tracker.mergeBehind` in an arithmetic. -/
def mergeBehind (t : Tracker) (offset : Nat) : Option (Tracker × Nat) :=
  match t.free.find? offset with
  | some length => return (t.removeRun offset length, ← A.add offset length)
  | none => return (t, offset)

/-- `Tracker.vacate` in an arithmetic. -/
def vacate (t : Tracker) (offset size : Nat) : Option (Tracker × Span) := do
  let reserved ← A.sub t.reserved size
  let stop ← A.add offset size
  let (t, start) ← A.mergeBefore { t with slots := t.slots.erase offset, reserved } offset
  let (t, stop) ← A.mergeBehind t stop
  return (t.addRun start (← A.sub stop start), ⟨start, stop⟩)

/-- `Tracker.release` in an arithmetic. -/
def release (t : Tracker) (offset size : Nat) : Option (Outcome Tracker Bool) :=
  let size := slotSize size
  match t.slots.find? offset with
  | some held =>
    if held = size then do
      let (after, span) ← A.vacate t offset size
      let failures ← A.checkNotices after .release
      return {
        answer := true
        state := after
        notices :=
          after.reportNotices (.slotReleased offset size span.start span.stop) ++ failures }
    else return { answer := false, state := t, notices := [.slotSizeRejected offset size held] }
  | none => return { answer := false, state := t, notices := [.slotUnknown offset size] }

/-- `Tracker.step` in an arithmetic. -/
def step (t : Tracker) : Step → Option (Outcome Tracker Answer)
  | .reserve size alignment => do
    let o ← A.reserve t size alignment
    return { answer := .reserved o.answer, state := o.state, notices := o.notices }
  | .release offset size => do
    let o ← A.release t offset size
    return { answer := .released o.answer, state := o.state, notices := o.notices }
  | .setTracking tracking => return { answer := .done, state := t.setTracking tracking }

/-- `Tracker.run` in an arithmetic. -/
def run (t : Tracker) (steps : List Step) : Option Tracker :=
  steps.foldlM (fun t s => do return (← A.step t s).state) t

end Program

/-- Over `A`, every query and every action on a tracker has an answer, and it is that of the tracker
itself. -/
structure Computes (A : Arithmetic) (t : Tracker) : Prop where
  available : A.available t = some t.available
  freeSpans : A.spans t.free = some t.freeSpans
  slotSpans : A.spans t.slots = some t.slotSpans
  isConsistent : A.isConsistent t = some t.isConsistent
  step (s : Step) : A.step t s = some (t.step s)

/-! ## The sums and differences that are formed -/

variable {A : Arithmetic} {t : Tracker}

/-- `A.add` forms the sum of two numbers as `Word.add` does. -/
def Adds (A : Arithmetic) (a b : Nat) : Prop := A.add a b = some (Word.add a b)

/-- `A.sub` forms the difference of two numbers as `Word.sub` does. -/
def Subs (A : Arithmetic) (a b : Nat) : Prop := A.sub a b = some (Word.sub a b)

/-- The sums and differences that put a slot into its place are `Adds` and `Subs`. -/
structure Cuts (A : Arithmetic) (t : Tracker) (fit : Fit) (size : Nat) : Prop where
  padding : A.Subs fit.offset fit.run.offset
  stop : A.Adds fit.offset size
  run : A.Adds fit.run.offset fit.run.length
  behind : A.Subs (Word.add fit.run.offset fit.run.length) (Word.add fit.offset size)
  reserved : A.Adds t.reserved size

/-- The differences that turn a slot into free bytes are `Subs`. -/
structure Merges (A : Arithmetic) (t : Tracker) (offset size : Nat) : Prop where
  reserved : A.Subs t.reserved size
  length : A.Subs (t.vacate offset size).2.stop (t.vacate offset size).2.start

/-- All sums and differences that queries and actions form on the books of a tracker are `Adds` and
`Subs`. -/
structure Suits (A : Arithmetic) (t : Tracker) : Prop where
  available : A.Subs t.capacity t.reserved
  free {o l : Nat} : t.Holds true o l → A.Adds o l
  slots {o l : Nat} : t.Holds false o l → A.Adds o l
  /-- The sum over the slots so far and the next slot. -/
  sum {front back : List Nat} {n : Nat} :
    t.slots.values = front ++ n :: back → A.Adds (Word.sum front) n
  /-- The gap in front of a place that is tried, whether the slot fits there or not. -/
  padding {run : Run} {alignment offset : Nat} : run ∈ t.bySize.keys → 0 < alignment →
    Word.nextMultiple? run.offset alignment = some offset → A.Subs offset run.offset
  cuts {fit : Fit} {size alignment : Nat} : 0 < size → 0 < alignment →
    t.bestFit? size alignment = some fit → A.Cuts t fit size
  merges {offset size : Nat} : t.Holds false offset size → A.Merges t offset size

lemma mapM_eq {α β : Type} {f : α → Option β} {g : α → β} {xs : List α}
    (h : ∀ x ∈ xs, f x = some (g x)) : xs.mapM f = some (xs.map g) := by
  induction xs with
  | nil => rfl
  | cons x rest ih =>
    rw [List.mapM_cons, h x List.mem_cons_self, ih fun y hy => h y (List.mem_cons_of_mem x hy)]
    rfl

lemma findSomeM?_eq {α β : Type} {f : α → Option (Option β)} {g : α → Option β} {xs : List α}
    (h : ∀ x ∈ xs, f x = some (g x)) : xs.findSomeM? f = some (xs.findSome? g) := by
  induction xs with
  | nil => rfl
  | cons x rest ih =>
    rw [List.findSomeM?, h x List.mem_cons_self, List.findSome?]
    cases g x with
    | none => exact ih fun y hy => h y (List.mem_cons_of_mem x hy)
    | some y => rfl

/-- The spans of a table have an answer, and it is `Tracker.spans`, if every entry `Adds` up. -/
lemma spans_eq {lengths : Table Nat Nat}
    (h : ∀ o l, lengths.find? o = some l → A.Adds o l) :
    A.spans lengths = some (Tracker.spans lengths) := by
  apply mapM_eq
  rintro ⟨o, l⟩ he
  have hstop : A.add o l = some (Word.add o l) := h o l (Table.find?_eq_some_iff.2 he)
  simp only [hstop]
  rfl

/-- A sum has an answer, and it is `Word.sum`, if every sum of a part in front `Adds` to the next
word. -/
lemma sum_eq {words : List Nat}
    (h : ∀ front n back, words = front ++ n :: back → A.Adds (Word.sum front) n) :
    A.sum words = some (Word.sum words) := by
  -- from the back, so that the sum so far is that of the words in front
  induction words using List.reverseRecOn with
  | nil => rfl
  | append_singleton front n ih =>
    have hfront : A.sum front = some (Word.sum front) := by
      apply ih
      rintro front' n' back rfl
      exact h front' n' (back ++ [n]) (by simp)
    have hlast : A.add (Word.sum front) n = some (Word.add (Word.sum front) n) := h front n [] rfl
    unfold sum Word.sum at *
    rw [List.foldlM_append, List.foldl_append, hfront]
    simpa using hlast

/-- An arithmetic that `Suits` a tracker computes `isConsistent`. -/
lemma Suits.isConsistent_eq (h : A.Suits t) : A.isConsistent t = some t.isConsistent := by
  have hfree : A.spans t.free = some t.freeSpans := spans_eq fun _ _ => h.free
  have hslots : A.spans t.slots = some t.slotSpans := spans_eq fun _ _ => h.slots
  have hsum : A.sum t.slots.values = some (Word.sum t.slots.values) := sum_eq fun _ _ _ => h.sum
  unfold isConsistent Tracker.isConsistent pieces
  simp only [hfree, hslots, hsum, Option.bind_eq_bind, Option.bind_some]
  -- the sum is formed only if all else is right
  split
  · rename_i hall
    rw [hall, Bool.true_and]
    rfl
  · rename_i hall
    rw [Bool.not_eq_true] at hall
    rw [hall, Bool.false_and]
    rfl

lemma Suits.checkNotices_eq (h : A.Suits t) (action : Action) :
    A.checkNotices t action = some (t.checkNotices action) := by
  unfold checkNotices Tracker.checkNotices
  rw [h.isConsistent_eq]
  cases t.tracking.check <;> cases t.isConsistent <;> rfl

/-! ## Reserving -/

/-- A place in a run has an answer, and it is `fitIn?`, if the multiple found `Subs` the offset. -/
lemma fitIn_eq {size alignment : Nat} {run : Run}
    (h : ∀ offset, Word.nextMultiple? run.offset alignment = some offset →
      A.Subs offset run.offset) :
    A.fitIn size alignment run = some (fitIn? size alignment run) := by
  unfold fitIn fitIn?
  rcases hoffset : Word.nextMultiple? run.offset alignment with _ | offset
  · rfl
  · have hpadding : A.sub offset run.offset = some (Word.sub offset run.offset) := h offset hoffset
    simp only [hpadding, Option.bind_eq_bind, Option.bind_some]
    cases Word.checkedAdd? (Word.sub offset run.offset) size <;> rfl

/-- An arithmetic that `Suits` a tracker computes `bestFit?`: every run that is tried has an
answer. -/
lemma Suits.bestFit_eq (h : A.Suits t) {size alignment : Nat} (halign : 0 < alignment) :
    A.bestFit t size alignment = some (t.bestFit? size alignment) := by
  apply findSomeM?_eq
  intro run hrun
  exact fitIn_eq fun offset => h.padding (List.mem_filter.1 hrun).1 halign

/-- An arithmetic that `Cuts` a run computes `occupy`. -/
lemma Cuts.occupy_eq {fit : Fit} {size : Nat} (h : A.Cuts t fit size) :
    A.occupy t fit size = some (t.occupy fit size) := by
  obtain ⟨hpadding, hstop, hrun, hbehind, hreserved⟩ := h
  unfold Adds Subs at *
  unfold occupy Tracker.occupy
  simp only [hpadding, hstop, hrun, hbehind, hreserved, Option.bind_eq_bind, Option.bind_some]
  simp

/-- An arithmetic that `Suits` a tracker before and after computes `reserve`. -/
lemma Suits.reserve_eq (h : A.Suits t) (size alignment : Nat)
    (hafter : A.Suits (t.reserve size alignment).state) :
    A.reserve t size alignment = some (t.reserve size alignment) := by
  -- a state after the action is only checked if there was a place
  revert hafter
  unfold reserve Tracker.reserve
  simp only
  split
  · rw [h.bestFit_eq (by omega)]
    rcases hfit : t.bestFit? (slotSize size) (max alignment 1) with _ | fit
    · intro _
      rfl
    · intro hafter
      have hcuts := h.cuts (slotSize_pos size) (by omega) hfit
      simp only [Option.bind_eq_bind, Option.bind_some, hcuts.occupy_eq, hafter.checkNotices_eq]
      rfl
  · intro _
    rfl

/-! ## Releasing -/

/-- `mergeBefore` has an answer where every free run `Adds` up. -/
lemma mergeBefore_eq {offset : Nat} (h : ∀ o l, t.free.find? o = some l → A.Adds o l) :
    A.mergeBefore t offset = some (t.mergeBefore offset) := by
  have hrun : A.runBefore t offset = some (t.runBefore? offset) := by
    unfold runBefore runBefore?
    rcases hlast : t.free.lastBefore? offset with _ | ⟨start, length⟩
    · rfl
    · obtain ⟨hfind, -, -⟩ := Table.lastBefore?_eq_some_iff.1 hlast
      have hstop : A.add start length = some (Word.add start length) := h start length hfind
      simp only [hstop, Option.bind_eq_bind, Option.bind_some]
      rfl
  unfold mergeBefore Tracker.mergeBefore
  rw [hrun]
  cases t.runBefore? offset <;> rfl

lemma mergeBehind_eq {offset : Nat} (h : ∀ o l, t.free.find? o = some l → A.Adds o l) :
    A.mergeBehind t offset = some (t.mergeBehind offset) := by
  unfold mergeBehind Tracker.mergeBehind
  rcases hfind : t.free.find? offset with _ | length
  · rfl
  · have hstop : A.add offset length = some (Word.add offset length) := h offset length hfind
    simp only [hstop, Option.bind_eq_bind, Option.bind_some]
    rfl

/-- `mergeBefore` leaves none but free runs that were there. -/
lemma find?_free_of_mergeBefore {offset o l : Nat}
    (h : (t.mergeBefore offset).1.free.find? o = some l) : t.free.find? o = some l := by
  unfold Tracker.mergeBefore at h
  split at h
  · rw [find?_free_removeRun] at h
    split at h
    · exact absurd h (by simp)
    · exact h
  · exact h

/-- An arithmetic that `Suits` a tracker computes `vacate` of a slot that is there. -/
lemma Suits.vacate_eq (h : A.Suits t) {offset size : Nat} (hslot : t.Holds false offset size) :
    A.vacate t offset size = some (t.vacate offset size) := by
  obtain ⟨hreserved, hlength⟩ := h.merges hslot
  have hstop : A.Adds offset size := h.slots hslot
  unfold Adds Subs at *
  unfold vacate
  unfold Tracker.vacate at hlength ⊢
  simp only [hreserved, hstop, Option.bind_eq_bind, Option.bind_some]
  -- the slot goes out of a table of its own, so all runs found are free runs of the books before
  obtain ⟨u, hu⟩ : ∃ u : Tracker, u =
    { t with slots := t.slots.erase offset, reserved := Word.sub t.reserved size } := ⟨_, rfl⟩
  have hfree : ∀ o l, u.free.find? o = some l → A.Adds o l := by
    rw [hu]
    exact fun _ _ hfind => h.free hfind
  have hbefore : A.mergeBefore u offset = some (u.mergeBefore offset) := mergeBefore_eq hfree
  have hbehind : A.mergeBehind (u.mergeBefore offset).1 (Word.add offset size) =
      some ((u.mergeBefore offset).1.mergeBehind (Word.add offset size)) :=
    mergeBehind_eq fun o l hfind => hfree o l (find?_free_of_mergeBefore hfind)
  simp only [← hu] at hlength ⊢
  simp only [hbefore, hbehind, hlength, Option.bind_some]
  rfl

/-- An arithmetic that `Suits` a tracker before and after computes `release`. -/
lemma Suits.release_eq (h : A.Suits t) (offset size : Nat)
    (hafter : A.Suits (t.release offset size).state) :
    A.release t offset size = some (t.release offset size) := by
  revert hafter
  unfold release Tracker.release
  simp only
  rcases hfind : t.slots.find? offset with _ | held
  · intro _
    rfl
  · by_cases hheld : held = slotSize size
    · subst hheld
      simp only [if_true]
      intro hafter
      rw [h.vacate_eq hfind]
      simp only [Option.bind_eq_bind, Option.bind_some, hafter.checkNotices_eq]
      rfl
    · intro _
      simp only [if_neg hheld]
      rfl

/-! ## Runs -/

/-- An arithmetic that `Suits` a tracker before and after computes every `step`. -/
lemma Suits.step_eq (h : A.Suits t) (s : Step) (hafter : A.Suits (t.step s).state) :
    A.step t s = some (t.step s) := by
  cases s with
  | reserve size alignment =>
    have hreserve := h.reserve_eq size alignment hafter
    unfold step
    simp only [hreserve, Option.bind_eq_bind, Option.bind_some]
    rfl
  | release offset size =>
    have hrelease := h.release_eq offset size hafter
    unfold step
    simp only [hrelease, Option.bind_eq_bind, Option.bind_some]
    rfl
  | setTracking tracking => rfl

/-- An arithmetic that `Suits` a tracker, and what each step leaves of it, `Computes` on it. -/
lemma Suits.computes (h : A.Suits t) (hafter : ∀ s, A.Suits (t.step s).state) :
    A.Computes t where
  available := h.available
  freeSpans := spans_eq fun _ _ => h.free
  slotSpans := spans_eq fun _ _ => h.slots
  isConsistent := h.isConsistent_eq
  step s := h.step_eq s (hafter s)

/-- The `wrapping` arithmetic `Suits` every tracker, since its sums are those of words. -/
lemma suits_wrapping (t : Tracker) : wrapping.Suits t where
  available := rfl
  free _ := rfl
  slots _ := rfl
  sum _ := rfl
  padding _ _ _ := rfl
  cuts _ _ _ := ⟨rfl, rfl, rfl, rfl, rfl⟩
  merges _ := ⟨rfl, rfl⟩

/-- Over words that wrap around, the actions and the queries are those of the tracker. -/
lemma computes_wrapping (t : Tracker) : wrapping.Computes t :=
  (suits_wrapping t).computes fun s => suits_wrapping (t.step s).state

/-! ## Books in order -/

/-- A `checked` sum below `Word.limit` is the exact one. -/
lemma adds_checked {a b : Nat} (h : a + b < Word.limit) : checked.Adds a b := by
  show Word.checkedAdd? a b = some (Word.add a b)
  rw [Word.checkedAdd?, if_pos h, Word.add_eq h]

/-- A `checked` difference of words that is not below zero is the exact one. -/
lemma subs_checked {a b : Nat} (hba : b ≤ a) (ha : a < Word.limit) : checked.Subs a b := by
  show Word.checkedSub? a b = some (Word.sub a b)
  rw [Word.checkedSub?, if_pos hba, Word.sub_eq hba ha]

/-- Where a slot `Fits`, the `checked` arithmetic cuts its run. -/
lemma cuts_checked (ht : t.InOrder) {fit : Fit} {size alignment : Nat} (hsize : 0 < size)
    (h : t.Fits fit size alignment) : checked.Cuts t fit size := by
  have hword := ht.word
  have hinside := ht.inside h.free
  have hstarts := h.starts
  have hroom := h.room
  have hstop : Word.add fit.offset size = fit.offset + size := (h.cuts ht).1
  have hrun : Word.add fit.run.offset fit.run.length = fit.run.offset + fit.run.length :=
    Word.add_eq (by omega)
  -- with the slot in its place, the slots still lie in the region
  have htotal : t.reserved + size ≤ t.capacity := by
    have hle := (inOrder_occupy ht h hsize).total_slots_le
    rw [occupy_capacity, total_slots_occupy ht h hsize, ← ht.counted] at hle
    omega
  exact {
    padding := subs_checked hstarts (by omega)
    stop := adds_checked (by omega)
    run := adds_checked (by omega)
    behind := by
      rw [hstop, hrun]
      exact subs_checked hroom (by omega)
    reserved := adds_checked (by omega) }

/-- Where there is a slot, the `checked` arithmetic merges it with the runs around it. -/
lemma merges_checked (ht : t.InOrder) {offset size : Nat} (hslot : t.Holds false offset size) :
    checked.Merges t offset size := by
  have hword := ht.word
  have hjoins := (vacates_vacate ht hslot).joins
  have hstart := hjoins.start_le
  have hstop := hjoins.le_stop
  have hstop_le := hjoins.stop_le ht hslot
  have hsplit := reserved_split ht hslot
  have hreserved := ht.reserved_le
  exact ⟨subs_checked (by omega) (by omega), subs_checked (by omega) (by omega)⟩

/-- On books `InOrder`, every sum and every difference is exact. -/
lemma suits_checked (ht : t.InOrder) : checked.Suits t where
  available := subs_checked ht.reserved_le ht.word
  free h := adds_checked (ht.stop_lt h)
  slots h := adds_checked (ht.stop_lt h)
  sum {front back n} h := by
    -- the slots in front and the next one have no more bytes than all of them
    have hle := ht.total_slots_le
    have hword := ht.word
    rw [h, total_append, total_cons] at hle
    rw [sum_eq_total (by omega)]
    exact adds_checked (by omega)
  padding {run alignment offset} hrun halign h := by
    obtain ⟨_, hfind⟩ := Table.mem_keys_iff.1 hrun
    have hlt := ht.stop_lt (ht.indexed.1 hfind)
    obtain ⟨hle, -, -⟩ := Word.nextMultiple?_eq_some halign h
    exact subs_checked hle (nextMultiple?_lt (by omega) h)
  cuts hsize halign h := cuts_checked ht hsize (fits_of_bestFit? ht halign h)
  merges h := merges_checked ht h

/-- The `checked` arithmetic `Computes` on books in order, and each step leaves books in order. -/
lemma computes_checked (ht : t.InOrder) : checked.Computes t :=
  (suits_checked ht).computes fun s => suits_checked (inOrder_step ht s)

/-- A `checked` run from books in order has an answer, by induction on the steps. -/
lemma run_checked (ht : t.InOrder) (steps : List Step) :
    checked.run t steps = some (t.run steps) := by
  induction steps generalizing t with
  | nil => rfl
  | cons s rest ih =>
    have hstep := (computes_checked ht).step s
    have hrest := ih (inOrder_step ht s)
    unfold run at hrest ⊢
    rw [List.foldlM_cons, hstep]
    exact hrest

end Arithmetic

/-- Over `wrapping` words, the actions and the queries are those of the tracker. Over `checked`
words, they have the same answers whatever was done to a `new` tracker, the capacity of which may be
any word: no action and no query forms a sum or a difference that is not the exact one. -/
theorem sums_and_differences_exact {capacity : Nat} (hword : capacity < Word.limit)
    (tracking : Tracking) (steps : List Step) :
    (∀ t, Arithmetic.wrapping.Computes t) ∧
      Arithmetic.checked.run (new capacity tracking) steps =
        some ((new capacity tracking).run steps) ∧
      Arithmetic.checked.Computes ((new capacity tracking).run steps) := by
  have hnew := inOrder_new hword tracking
  refine ⟨Arithmetic.computes_wrapping, Arithmetic.run_checked hnew steps, ?_⟩
  exact Arithmetic.computes_checked (inOrder_run hnew steps)

/-- In the largest region, a slot in front, one in the middle and one up to the end, and a request
that is too long for any place. -/
theorem sums_and_differences_exact_full :
    let top := Word.limit - 1
    let half := Word.limit / 2
    let steps : List Step :=
      [.reserve 1 half, .reserve 1 half, .reserve (half - 2) 1, .reserve top 1]
    let t := (new top {}).run steps
    top < Word.limit ∧ Arithmetic.checked.run (new top {}) steps = some t ∧
      t.slotSpans = [⟨0, 1⟩, ⟨half, half + 1⟩, ⟨half + 1, top⟩] :=
  ⟨by decide, (sums_and_differences_exact (by decide) {} _).2.1, by decide⟩

end Tracker

end BlockPool
