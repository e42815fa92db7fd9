import BlockPool.Affinity

/-!
# Reasons why a request fails

Each way in which memory cannot be provided is one constructor with what it is about, and one
function gives the wording.
-/

namespace BlockPool

/-- Why memory was not provided. -/
inductive AllocationError where
  /-- The system has no memory of this size and alignment. -/
  | systemRefused (size alignment : Nat)
  /-- A block of the size needed cannot be asked for at all. -/
  | invalidLayout
  /-- The alignment is no power of two. -/
  | invalidAlignment (alignment : Nat)
  /-- A value needs a stricter alignment than the slots of its group have. -/
  | unsupportedAlignment (affinity : Affinity) (alignment groupAlignment : Nat)
deriving DecidableEq, Inhabited

namespace AllocationError

/-- The wording of an `AllocationError`. -/
def message : AllocationError → String
  | systemRefused size alignment =>
    s!"failed to allocate a memory block of {size} bytes aligned to {alignment}"
  | invalidLayout =>
    "invalid memory block layout: invalid parameters to Layout::from_size_align"
  | invalidAlignment alignment => s!"alignment {alignment} is not a power of two"
  | unsupportedAlignment affinity alignment groupAlignment =>
    let group := affinity.name
    s!"alignment {alignment} exceeds the {groupAlignment} byte alignment of the {group} group"

end AllocationError

end BlockPool
