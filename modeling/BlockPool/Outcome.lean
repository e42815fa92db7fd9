import BlockPool.Notice

/-!
# Outcomes

Trackers, blocks and the blocks of a group do their work without any effect on the world around
them. What comes of such an action is a value: its answer, the state after it, and what it reports.
-/

namespace BlockPool

/-- What comes of an action without effects outside. -/
structure Outcome (state answer : Type) where
  answer : answer
  state : state
  /-- What is reported, in order. -/
  notices : List Notice := []

end BlockPool
