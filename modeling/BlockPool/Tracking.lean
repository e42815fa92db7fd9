/-!
# Tracking switches

Two switches say how much a pool reports about its work. They never change which memory is
handed out.
-/

namespace BlockPool

/-- What is reported: with `report` every action, and with `check` the outcome of the self-check
after every action. -/
structure Tracking where
  report : Bool := false
  check : Bool := false
deriving DecidableEq, Inhabited

namespace Tracking

/-- The switches of a bit set: bit 0 reports, bit 1 checks, other bits have no meaning. -/
def ofBits (bits : Nat) : Tracking := ⟨bits.testBit 0, bits.testBit 1⟩

/-- The bit set of the switches, as `ofBits` reads it. -/
def bits (t : Tracking) : Nat := t.report.toNat + 2 * t.check.toNat

theorem ofBits_bits (t : Tracking) : ofBits t.bits = t := by
  rcases t with ⟨_ | _, _ | _⟩ <;> decide

end Tracking

end BlockPool
