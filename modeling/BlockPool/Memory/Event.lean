import BlockPool.Memory.Region
import BlockPool.Notice
import BlockPool.Value

/-!
# Events

What happens between a pool and the world around it, in the order in which it happens.
-/

namespace BlockPool

/-- Whether memory that went back was known. -/
inductive ReturnStatus where
  /-- No live region starts at the address. -/
  | unknown
  /-- It went back the right way. -/
  | ok
  /-- It went back to another source or with another layout. -/
  | mismatch
deriving DecidableEq, Inhabited

/-- Something that happened, as it stands in the log of a `Memory`. -/
inductive Event where
  /-- The system was asked for memory. -/
  | requested (source : Source) (layout : Layout) (answer : Option Nat)
  /-- Memory went back to the system as the region named. -/
  | released (named : Region) (status : ReturnStatus)
  /-- Something was reported. -/
  | noted (notice : Notice)
  /-- A foreign strategy was asked for memory. -/
  | asked (strategy : Nat) (name : String) (size : Nat) (affinity : Affinity)
  /-- An address was shown to a foreign strategy that may own it. -/
  | offeredBack (strategy : Nat) (name : String) (address size : Nat)
  /-- A value was destroyed. -/
  | destroyed (value : Value)
  /-- A value left its box. -/
  | movedOut
deriving DecidableEq, Inhabited

end BlockPool
