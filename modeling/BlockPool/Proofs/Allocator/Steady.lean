import BlockPool.Proofs.Allocator
import BlockPool.Proofs.Group.Descent
import BlockPool.Proofs.Log

/-!
# What requests to an allocator leave alone

The list of fallbacks of an allocator changes only when a strategy is added to it or when it starts
anew. Neither its groups nor its settings have a part in that, and no request changes the alignment
that a group promises.
-/

namespace BlockPool

namespace Allocator

variable {σ : Type}

/-! ## The group of an affinity -/

/-- The group of an affinity, or the one that `ensureGroup` makes when it is first needed. -/
def groupFor (a : Allocator) (affinity : Affinity) : Group :=
  (a.groups.find? affinity).getD
    { name := affinity.name, blockSize := a.defaultBlockSize, alignment := a.defaultAlignment }

/-- `groupFor` is the stored group if there is one. -/
lemma groupFor_of_find? {a : Allocator} {affinity : Affinity} {g : Group}
    (h : a.groups.find? affinity = some g) : a.groupFor affinity = g := by
  unfold groupFor
  rw [h]
  rfl

/-- After `setGroup`, `groupFor` is the new group for its affinity. -/
lemma groupFor_setGroup (a : Allocator) (affinity : Affinity) (g : Group) (other : Affinity) :
    (a.setGroup affinity g).groupFor other =
      if other = affinity then g else a.groupFor other := by
  unfold groupFor setGroup
  rw [Table.find?_insert]
  split <;> rfl

/-- `ensureGroup` answers `groupFor` and changes `groupFor` for no affinity. -/
lemma ensureGroup_groupFor (a : Allocator) (affinity : Affinity) (m : Memory σ) :
    Ends (a.ensureGroup affinity) m fun out m' =>
      out.1 = a.groupFor affinity ∧ (∀ other, out.2.groupFor other = a.groupFor other) ∧
        m.Quiet m' := by
  unfold ensureGroup
  rcases hfind : a.groups.find? affinity with _ | g
  · refine (Memory.quiet_noteIf _ _ m).bind fun _ m' hquiet => ?_
    have hmade : a.groupFor affinity =
        { name := affinity.name, blockSize := a.defaultBlockSize,
          alignment := a.defaultAlignment } := by
      unfold groupFor
      rw [hfind]
      rfl
    refine ⟨hmade.symm, fun other => ?_, hquiet⟩
    show (a.setGroup affinity _).groupFor other = a.groupFor other
    rw [groupFor_setGroup]
    split
    · rename_i heq
      rw [heq, hmade]
    · rfl
  · exact ⟨(groupFor_of_find? hfind).symm, fun _ => rfl, .refl m⟩

/-! ## Fallbacks and alignments -/

/-- `ensureGroup` keeps the `wiring`, and its group has the alignment `alignmentFor` names. -/
lemma ensureGroup_frame (a : Allocator) (affinity : Affinity) (m : Memory σ) :
    Ends (a.ensureGroup affinity) m fun out _ =>
      out.2.wiring = a.wiring ∧ out.1.alignment = a.alignmentFor affinity := by
  unfold ensureGroup alignmentFor
  split
  · rename_i g hfind
    refine ⟨rfl, ?_⟩
    rw [hfind]
    rfl
  · rename_i hnone
    refine Ends.trivial.bind fun _ _ _ => ⟨rfl, ?_⟩
    rw [hnone]
    rfl

/-- After `setGroup`, `alignmentFor` is the alignment of the new group. -/
lemma alignmentFor_setGroup (a : Allocator) (affinity : Affinity) (g : Group) :
    (a.setGroup affinity g).alignmentFor affinity = g.alignment := by
  unfold alignmentFor setGroup
  rw [Table.find?_insert, if_pos rfl]
  rfl

/-- `allocatePooled` keeps the `wiring` and the alignment of its affinity. -/
lemma allocatePooled_frame [System σ] (a : Allocator) (size : Nat) (affinity : Affinity)
    (m : Memory σ) :
    Ends (a.allocatePooled size affinity) m fun out _ =>
      out.2.wiring = a.wiring ∧ out.2.alignmentFor affinity = a.alignmentFor affinity := by
  unfold allocatePooled
  refine (a.ensureGroup_frame affinity m).bind ?_
  rintro ⟨g, a₁⟩ m₁ ⟨hwiring, halignment⟩
  refine (Group.allocate_answering (promises_true σ) g size a₁.tracking m₁).bind ?_
  rintro ⟨answer, g'⟩ m₂ hanswering
  have hend : (a₁.setGroup affinity g').wiring = a.wiring ∧
      (a₁.setGroup affinity g').alignmentFor affinity = a.alignmentFor affinity := by
    rw [alignmentFor_setGroup]
    exact ⟨hwiring, hanswering.alignment_eq.trans halignment⟩
  cases answer with
  | ok address => exact Ends.trivial.bind fun _ _ _ => hend
  | error reason => exact Ends.trivial.bind fun _ _ _ => hend

/-- `deallocatePooled` keeps the `wiring`, and answers `true` only at an address that `a.owns`. -/
lemma deallocatePooled_frame (a : Allocator) (address size : Nat) (m : Memory σ) :
    Ends (a.deallocatePooled address size) m fun out _ =>
      out.2.wiring = a.wiring ∧ (out.1 = true → a.owns address = true) := by
  unfold deallocatePooled owns
  split
  · exact ⟨rfl, fun htaken => absurd htaken Bool.false_ne_true⟩
  · rename_i howner
    refine Ends.trivial.bind fun _ _ _ => Ends.trivial.bind fun _ _ _ => ⟨rfl, fun _ => ?_⟩
    rw [howner]
    rfl

/-- `compact` keeps the `wiring`. -/
lemma compact_frame (a : Allocator) (m : Memory σ) :
    Ends a.compact m fun out _ => out.2.wiring = a.wiring := by
  unfold compact
  exact Ends.trivial.bind fun _ _ _ => Ends.trivial.bind fun _ _ _ => rfl

lemma setBlockSize_frame (a : Allocator) (affinity : Affinity) (blockSize : Nat) (m : Memory σ) :
    Ends (a.setBlockSize affinity blockSize) m fun a' _ => a'.wiring = a.wiring := by
  unfold setBlockSize
  exact (a.ensureGroup_frame affinity m).bind fun _ _ h => h.1

lemma configureGroup_frame (a : Allocator) (s : GroupSettings) (m : Memory σ) :
    Ends (a.configureGroup s) m fun a' _ => a'.wiring = a.wiring := by
  unfold configureGroup
  exact (a.ensureGroup_frame s.affinity m).bind fun _ _ h => h.1

end Allocator

end BlockPool
