import BlockPool.Memory.System

/-!
# Arenas

A system that can be run: one range of addresses, with a rule for where a request is placed. The
next requests can be made to fail, and each foreign strategy always gives the same answers.

Main statement: an arena is lawful.
-/

namespace BlockPool

/-- Where a request is placed. -/
inductive Placement where
  /-- Behind everything placed before. -/
  | bump
  /-- As low as possible. -/
  | low
  /-- As high as possible. -/
  | high
deriving DecidableEq, Inhabited

/-- The fixed answers of a foreign strategy. -/
structure Script where
  offer : Option Nat
  claims : Bool
deriving DecidableEq, Inhabited

/-- A range of addresses from which requests are served. -/
structure Arena where
  limit : Nat
  placement : Placement
  /-- The first address behind everything placed so far. -/
  cursor : Nat
  /-- How many of the next requests fail. -/
  failures : Nat := 0
  /-- The foreign strategies, by number. -/
  scripts : List Script := []
deriving DecidableEq, Inhabited

namespace Arena

/-- The lowest address of an arena, `2 ^ 44`. -/
def base : Nat := 17592186044416

/-- The greatest number of bytes that an arena may have, `2 ^ 40`. -/
def maximumSize : Nat := 1099511627776

/-- An arena of a number of bytes. -/
def new (size : Nat) (placement : Placement) : Arena :=
  { limit := base + min size maximumSize, placement, cursor := base }

/-- The least multiple of an alignment not below an address. -/
def alignUp (address alignment : Nat) : Nat := (address + (alignment - 1)) / alignment * alignment

/-- The greatest multiple of an alignment not above an address. -/
def alignDown (address alignment : Nat) : Nat := address / alignment * alignment

/-- Whether a request can be placed at `start`: aligned, within the arena, and `Disjoint` from all
regions that are live. -/
def Fits (a : Arena) (live : List Region) (source : Source) (layout : Layout) (start : Nat) :
    Prop :=
  base ≤ start ∧ start % layout.alignment = 0 ∧
    (start + layout.size ≤ a.limit ∧ start + layout.size < Word.limit) ∧
    ∀ r ∈ live, Region.Disjoint ⟨source, start, layout⟩ r

instance (a : Arena) (live : List Region) (source : Source) (layout : Layout) (start : Nat) :
    Decidable (a.Fits live source layout start) :=
  inferInstanceAs (Decidable (_ ∧ _ ∧ _ ∧ _))

/-- The addresses that come into question. With `bump` placement, that is the first one behind
everything placed so far; with `low`, the lowest free place starts the arena or follows a live
region; with `high`, the highest one ends the arena or precedes a live region. -/
def candidates (a : Arena) (live : List Region) (layout : Layout) : List Nat :=
  match a.placement with
  | .bump => [alignUp a.cursor layout.alignment]
  | .low => (base :: live.map Region.stop).map (alignUp · layout.alignment)
  | .high =>
    (a.limit :: live.map Region.start).map fun stop =>
      alignDown (stop - layout.size) layout.alignment

/-- Where a request is placed, if anywhere: at the least of the `candidates` that `Fits`, or at the
greatest with `high` placement. -/
def choose (a : Arena) (live : List Region) (source : Source) (layout : Layout) : Option Nat :=
  let fitting := (a.candidates live layout).filter (a.Fits live source layout ·)
  match a.placement with
  | .bump | .low => fitting.min?
  | .high => fitting.max?

instance : System Arena where
  place a live source layout :=
    if a.failures = 0 then
      match a.choose live source layout with
      | some start => (some start, { a with cursor := start + layout.size })
      | none => (none, a)
    else (none, { a with failures := a.failures - 1 })
  offer a strategy _ _ := ((a.scripts[strategy]?).bind (·.offer), a)
  claim a strategy _ _ := (((a.scripts[strategy]?).map (·.claims)).getD false, a)

theorem fits_of_choose_eq_some {a : Arena} {live : List Region} {source : Source} {layout : Layout}
    {start : Nat} (h : a.choose live source layout = some start) :
    a.Fits live source layout start := by
  have hmem : start ∈ (a.candidates live layout).filter (a.Fits live source layout ·) := by
    simp only [choose] at h
    split at h
    · exact List.min?_mem h
    · exact List.min?_mem h
    · exact List.max?_mem h
  simpa using (List.mem_filter.1 hmem).2

instance : LawfulSystem Arena where
  place_lawful {s s' live source layout start} h := by
    simp only [System.place] at h
    split at h
    · split at h
      · rename_i start' hchoose
        obtain ⟨hbase, halign, hlimit, hlive⟩ := fits_of_choose_eq_some hchoose
        simp only [Prod.mk.injEq, Option.some.injEq] at h
        obtain ⟨rfl, -⟩ := h
        have : 0 < base := by decide
        exact ⟨by omega, halign, hlimit.2, hlive⟩
      · simp at h
    · simp at h

end Arena

end BlockPool
