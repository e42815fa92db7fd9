import BlockPool.Table.Basic

/-!
# Affinities

An affinity names the group of blocks that serves a request. Four of them have names of their own.
-/

namespace BlockPool

/-- The kind of use that memory is requested for. -/
structure Affinity where
  index : Nat := 0
deriving DecidableEq, Inhabited

namespace Affinity

def objects : Affinity := ⟨0⟩

def data : Affinity := ⟨1⟩

def nodes : Affinity := ⟨2⟩

def physics : Affinity := ⟨3⟩

/-- The affinities with names of their own. -/
def predefined : List Affinity := [objects, data, nodes, physics]

/-- The name that a group of this affinity has unless it is given another one. -/
def name (a : Affinity) : String :=
  match a.index with
  | 0 => "objects"
  | 1 => "data"
  | 2 => "nodes"
  | 3 => "physics"
  | index => s!"affinity_{index}"

/-- Affinities are ordered by index. -/
instance : KeyOrder Affinity where
  before a b := a.index < b.index
  decideBefore a b := inferInstanceAs (Decidable (a.index < b.index))
  irrefl a := Nat.lt_irrefl a.index
  trans := Nat.lt_trans
  trichotomy {a b} h h' := by
    cases a
    cases b
    simp only [mk.injEq] at *
    omega

/-- Affinities in ascending order, repeated ones as often as they occur. -/
def sort (affinities : List Affinity) : List Affinity :=
  affinities.mergeSort fun a b => decide (a.index ≤ b.index)

end Affinity

end BlockPool
