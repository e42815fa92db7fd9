import BlockPool.Affinity
import BlockPool.Heap
import BlockPool.Tracking

/-!
# Settings

What an allocator is made from: the settings of its groups, the settings of groups that are made
later, and the source of memory when groups cannot grow.
-/

namespace BlockPool

/-- The settings of a group. -/
structure GroupSettings where
  affinity : Affinity
  name : String
  blockSize : Nat
  /-- The alignment of slots, unless it is the default one. -/
  alignment : Option Nat := none
deriving DecidableEq, Inhabited

/-- The settings of a group with the name of its affinity and the default alignment. -/
def GroupSettings.new (affinity : Affinity) (blockSize : Nat) : GroupSettings :=
  { affinity, name := affinity.name, blockSize }

/-- What an allocator falls back on when neither a group nor a nested strategy can serve. -/
inductive Backing where
  | sized
  | unsized
  /-- Nothing. -/
  | absent
deriving DecidableEq

namespace Backing

instance : Inhabited Backing := ⟨sized⟩

/-- The name of what an allocator falls back on. -/
def name : Backing → String
  | sized => "system-new-delete"
  | unsized => "malloc-free"
  | absent => "none"

/-- The `Heap` to fall back on, for an alignment. -/
def heap? (b : Backing) (alignment : Nat) : Option Heap :=
  match b with
  | sized => some (.new .sized alignment)
  | unsized => some (.new .unsized alignment)
  | absent => none

end Backing

/-- The usual size of a block. -/
def mebibyte : Nat := 1048576

/-- The settings of an allocator. -/
structure Settings where
  defaultAlignment : Nat := 8
  tracking : Tracking := {}
  backing : Backing := default
  defaultBlockSize : Nat := mebibyte
  groups : List GroupSettings := []
deriving DecidableEq, Inhabited

namespace Settings

/-- The settings without groups. -/
def empty : Settings := {}

/-- Sets a group, instead of those of the same affinity in `s.groups`. -/
def withGroup (s : Settings) (group : GroupSettings) : Settings :=
  { s with groups := s.groups.filter (·.affinity ≠ group.affinity) ++ [group] }

/-- The first entry of `s.groups` for an affinity. -/
def group? (s : Settings) (affinity : Affinity) : Option GroupSettings :=
  s.groups.find? (·.affinity = affinity)

/-- The settings with a group for each predefined affinity. -/
def standard : Settings :=
  empty
    |>.withGroup (.new .objects mebibyte)
    |>.withGroup (.new .data (16 * mebibyte))
    |>.withGroup (.new .nodes mebibyte)
    |>.withGroup { GroupSettings.new .physics mebibyte with alignment := some 16 }

end Settings

end BlockPool
