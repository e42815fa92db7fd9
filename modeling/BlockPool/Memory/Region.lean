/-!
# Regions

Memory comes in regions: ranges of addresses that the system hands out for a layout, which is a
size and an alignment. There are two sources. Sized memory goes back with the layout it was
requested with, unsized memory with its address alone.
-/

namespace BlockPool

/-- The size and the alignment of a piece of memory. -/
structure Layout where
  size : Nat
  alignment : Nat
deriving DecidableEq, Inhabited

/-- The bound on rounded sizes of sized memory, `2 ^ 63`. -/
def Layout.sizeLimit : Nat := 9223372036854775808

/-- Whether sized memory can be asked for: the alignment is a power of two, and the size rounded
up to it is below `2 ^ 63`. -/
def Layout.IsValid (l : Layout) : Prop :=
  l.alignment.isPowerOfTwo ∧ l.size + l.alignment ≤ sizeLimit

instance (l : Layout) : Decidable l.IsValid :=
  inferInstanceAs (Decidable (_ ∧ _))

/-- Where the system takes memory from. -/
inductive Source where
  | sized
  | unsized
deriving DecidableEq, Inhabited

/-- The alignment that unsized memory is placed with. -/
def unsizedAlignment : Nat := 16

/-- A range of addresses that belongs together. -/
structure Region where
  source : Source
  start : Nat
  layout : Layout
deriving DecidableEq, Inhabited

namespace Region

/-- The first address behind a region: `start` and the size of the `layout`. -/
def stop (r : Region) : Nat := r.start + r.layout.size

/-- Whether an address lies in a region, at `start` or behind it and before `stop`. -/
def Contains (r : Region) (address : Nat) : Prop := r.start ≤ address ∧ address < r.stop

instance (r : Region) (address : Nat) : Decidable (r.Contains address) :=
  inferInstanceAs (Decidable (_ ∧ _))

/-- Whether two regions have no address in common. -/
def Disjoint (r s : Region) : Prop := r.stop ≤ s.start ∨ s.stop ≤ r.start

instance (r s : Region) : Decidable (r.Disjoint s) := inferInstanceAs (Decidable (_ ∨ _))

/-- Whether memory that is held goes back the right way: to the source it came from, and sized
memory with its own layout. -/
def Matches (held named : Region) : Prop :=
  held.source = named.source ∧ (held.source = .unsized ∨ held.layout = named.layout)

instance (held named : Region) : Decidable (held.Matches named) :=
  inferInstanceAs (Decidable (_ ∧ _))

theorem disjoint_comm {r s : Region} : r.Disjoint s ↔ s.Disjoint r := or_comm

theorem Disjoint.not_contains {r s : Region} (h : r.Disjoint s) {address : Nat}
    (hr : r.Contains address) : ¬ s.Contains address := by
  simp only [Disjoint, Contains, stop] at *
  omega

end Region

end BlockPool
