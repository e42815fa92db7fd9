import BlockPool.Heap

/-!
# Fallback strategies

Where an allocator turns when a group cannot grow: another allocator, a heap, or a strategy from
outside of which only the answers are known. Allocators are named by number.
-/

namespace BlockPool

/-- A further source of memory. -/
inductive Strategy where
  /-- Another allocator. It goes together with this one if it is owned. -/
  | allocator (id : Nat) (owned : Bool)
  | heap (heap : Heap)
  /-- A strategy from outside. -/
  | foreign (id : Nat) (name : String)
deriving DecidableEq, Inhabited

/-- The name of a strategy in messages. -/
def Strategy.name : Strategy → String
  | allocator .. => "nested allocator"
  | heap h => h.name
  | foreign _ name => name

/-- How much of the chain of fallbacks may be used. -/
inductive Chain where
  /-- The groups, the nested strategies and the heap at the end. -/
  | full
  /-- The groups and the nested strategies. An allocator nested in another one leaves the heap to
  the outer one, since a heap takes every address it is shown. -/
  | owned
deriving DecidableEq, Inhabited

end BlockPool
