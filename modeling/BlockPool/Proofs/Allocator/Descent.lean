import BlockPool.Proofs.Allocator.Steady

/-!
# Where the blocks of an allocator come from

A request makes a block for one affinity at most, with the alignment that the affinity has at that
time, and no request changes the alignment of any affinity. All other blocks were there before.
-/

namespace BlockPool

namespace Allocator

variable {a a' a'' : Allocator} {places : Region → Prop}

/-- The block under `key` in the group of an affinity. -/
def block? (a : Allocator) (affinity : Affinity) (key : Nat) : Option Block :=
  (a.groups.find? affinity).bind (·.blocks.find? key)

lemma block?_of_find? {affinity : Affinity} {g : Group} (h : a.groups.find? affinity = some g)
    (key : Nat) : a.block? affinity key = g.blocks.find? key := by
  unfold block?
  rw [h]
  rfl

/-- `block?` looks into `groupFor`. -/
lemma block?_eq (a : Allocator) (affinity : Affinity) (key : Nat) :
    a.block? affinity key = (a.groupFor affinity).blocks.find? key := by
  unfold block? groupFor
  cases a.groups.find? affinity <;> rfl

/-- `alignmentFor` is the alignment of the stored group. -/
lemma alignmentFor_of_find? {affinity : Affinity} {g : Group}
    (h : a.groups.find? affinity = some g) :
    a.alignmentFor affinity = g.alignment := by
  unfold alignmentFor
  rw [h]
  rfl

/-- Every block of `a'` is one that `ComesFrom` what `a` has at its place. -/
def Inherits (places : Region → Prop) (a a' : Allocator) : Prop :=
  ∀ affinity key b', a'.block? affinity key = some b' →
    Block.ComesFrom places (a.alignmentFor affinity) key (a.block? affinity key) b'

/-- An allocator after a request or a return: `alignmentFor` is what it was, and each block is as
`Inherits` says. -/
structure Continues (places : Region → Prop) (a a' : Allocator) : Prop where
  alignment (affinity : Affinity) : a'.alignmentFor affinity = a.alignmentFor affinity
  blocks : a.Inherits places a'

/-- An allocator with the same `groups` inherits all blocks. -/
lemma inherits_of_groups_eq (h : a'.groups = a.groups) : a.Inherits places a' := by
  intro affinity key b' hb'
  unfold block? at hb' ⊢
  rw [h] at hb'
  rw [hb']
  exact Block.comesFrom_self b'

lemma Continues.refl (a : Allocator) : a.Continues places a :=
  ⟨fun _ => rfl, inherits_of_groups_eq rfl⟩

/-- `Inherits` may be preceded by `Continues`, which keeps the alignment of every affinity. -/
lemma Continues.inherits (h : a.Continues places a') (h' : a'.Inherits places a'') :
    a.Inherits places a'' := by
  intro affinity key b'' hb''
  rcases h' affinity key b'' hb'' with ⟨b', hb', hbecomes⟩ | hmade
  · exact (h.blocks affinity key b' hb').becomes hbecomes
  · rw [h.alignment] at hmade
    exact .inr hmade

lemma Continues.trans (h : a.Continues places a') (h' : a'.Continues places a'') :
    a.Continues places a'' :=
  ⟨fun affinity => (h'.alignment affinity).trans (h.alignment affinity), h.inherits h'.blocks⟩

/-- `mapValues` makes no block if `f` makes none. -/
lemma inherits_mapValues {f : Group → Group} (hgroups : a'.groups = a.groups.mapValues f)
    (hf : ∀ g : Group, g.Inherits places (f g)) : a.Inherits places a' := by
  intro affinity key b' hb'
  unfold block? at hb'
  rw [hgroups, Table.find?_mapValues] at hb'
  obtain ⟨g', hg', hb'⟩ := Option.bind_eq_some_iff.1 hb'
  obtain ⟨g, hg, rfl⟩ := Option.map_eq_some_iff.1 hg'
  rw [alignmentFor_of_find? hg, block?_of_find? hg]
  exact hf g key b' hb'

variable {affinity : Affinity} {g g' : Group}

/-- `setGroup` makes blocks as the group that it stores does. -/
lemma inherits_setGroup (hfind : a.groups.find? affinity = some g)
    (h : g.Inherits places g') : a.Inherits places (a.setGroup affinity g') := by
  intro affinity' key b' hb'
  unfold block? setGroup at hb'
  rw [Table.find?_insert] at hb'
  split at hb'
  · rename_i heq
    rw [heq, alignmentFor_of_find? hfind, block?_of_find? hfind]
    exact h key b' hb'
  · unfold block?
    rw [hb']
    exact Block.comesFrom_self b'

/-- `setGroup` with a group of the same alignment is `Continues` if its blocks are inherited. -/
lemma continues_setGroup (hfind : a.groups.find? affinity = some g)
    (h : g.Inherits places g') (halignment : g'.alignment = g.alignment) :
    a.Continues places (a.setGroup affinity g') := by
  refine ⟨fun affinity' => ?_, inherits_setGroup hfind h⟩
  by_cases heq : affinity' = affinity
  · rw [heq, alignmentFor_of_find? hfind, alignmentFor_of_find? (g := g'), halignment]
    exact (Table.find?_insert ..).trans (if_pos rfl)
  · unfold alignmentFor setGroup
    rw [Table.find?_insert, if_neg heq]

/-- `setGroup` with a group without blocks is `Continues` if its alignment is the default. -/
lemma continues_addGroup (hnone : a.groups.find? affinity = none) (hblocks : g.blocks = .empty)
    (halignment : g.alignment = a.defaultAlignment) :
    a.Continues places (a.setGroup affinity g) := by
  refine ⟨fun affinity' => ?_, fun affinity' key b' hb' => ?_⟩
  · unfold alignmentFor setGroup
    rw [Table.find?_insert]
    split
    · rename_i heq
      rw [heq, hnone]
      exact halignment
    · rfl
  · unfold block? setGroup at hb'
    rw [Table.find?_insert] at hb'
    split at hb'
    · rw [Option.bind_some, hblocks] at hb'
      exact absurd hb' (by simp)
    · unfold block?
      rw [hb']
      exact Block.comesFrom_self b'

section Memory

variable {σ : Type} (m : Memory σ)

/-- `ensureGroup` makes no block and keeps the alignment of every affinity. -/
lemma continues_ensureGroup (places : Region → Prop) (a : Allocator) (affinity : Affinity) :
    Ends (a.ensureGroup affinity) m fun out _ =>
      a.Continues places out.2 ∧ out.2.groups.find? affinity = some out.1 := by
  unfold ensureGroup
  split
  · rename_i g hfind
    exact ⟨.refl a, hfind⟩
  · rename_i hnone
    refine Ends.trivial.bind fun _ _ _ => ⟨?_, (Table.find?_insert ..).trans (if_pos rfl)⟩
    exact continues_addGroup hnone rfl rfl

/-- The group that `ensureGroup` answers has the blocks that `block?` finds. -/
lemma ensureGroup_blocks (a : Allocator) (affinity : Affinity) :
    Ends (a.ensureGroup affinity) m fun out _ =>
      ∀ key, out.1.blocks.find? key = a.block? affinity key := by
  unfold ensureGroup block?
  split
  · rename_i g hfind
    rw [hfind]
    exact fun _ => rfl
  · rename_i hnone
    rw [hnone]
    exact Ends.trivial.bind fun _ _ _ _ => rfl

/-- `allocatePooled` keeps the alignment of every affinity, and each block afterwards `ComesFrom`
one before or is new. -/
lemma continues_allocatePooled [System σ] (hplaces : Promises σ places) (a : Allocator)
    (size : Nat) (affinity : Affinity) :
    Ends (a.allocatePooled size affinity) m fun out _ => a.Continues places out.2 := by
  unfold allocatePooled
  refine (continues_ensureGroup m places a affinity).bind ?_
  rintro ⟨g, a₁⟩ m₁ ⟨hensure, hfind⟩
  refine (Group.allocate_answering hplaces g size a₁.tracking m₁).bind ?_
  rintro ⟨answer, g'⟩ m₂ hanswering
  have hend : a.Continues places (a₁.setGroup affinity g') :=
    hensure.trans (continues_setGroup hfind hanswering.inherits hanswering.alignment_eq)
  cases answer with
  | ok address => exact Ends.trivial.bind fun _ _ _ => hend
  | error reason => exact Ends.trivial.bind fun _ _ _ => hend

/-- `deallocatePooled` makes no block and keeps the alignment of every affinity. -/
lemma continues_deallocatePooled (a : Allocator) (address size : Nat) :
    Ends (a.deallocatePooled address size) m fun out _ => a.Continues places out.2 := by
  unfold deallocatePooled
  split
  · exact Continues.refl a
  · rename_i affinity g howner
    refine (Memory.ends_settle m _).bind ?_
    rintro ⟨known, g'⟩ m₁ hout
    obtain ⟨-, rfl⟩ := Prod.mk.inj hout
    refine Ends.trivial.bind fun _ _ _ => ?_
    refine continues_setGroup (find?_of_owner? howner).1 (g.inherits_deallocate address size) ?_
    exact g.deallocate_alignment address size

/-- `compact` makes no block. -/
lemma inherits_compact [System σ] (a : Allocator) :
    Ends a.compact m fun out _ => a.Inherits places out.2 := by
  unfold compact
  refine Ends.trivial.bind fun _ _ _ => Ends.trivial.bind fun _ _ _ => ?_
  exact inherits_mapValues rfl Group.inherits_withoutEmpty

lemma inherits_setBlockSize (a : Allocator) (affinity : Affinity) (blockSize : Nat) :
    Ends (a.setBlockSize affinity blockSize) m fun a' _ => a.Inherits places a' := by
  unfold setBlockSize
  refine (continues_ensureGroup m places a affinity).bind ?_
  rintro ⟨g, a₁⟩ m₁ ⟨hensure, hfind⟩
  exact hensure.inherits (inherits_setGroup hfind (Group.inherits_of_blocks_eq rfl))

/-- `configureGroup` makes no block, though it may change the alignment of new ones. -/
lemma inherits_configureGroup (a : Allocator) (s : GroupSettings) :
    Ends (a.configureGroup s) m fun a' _ => a.Inherits places a' := by
  unfold configureGroup
  refine (continues_ensureGroup m places a s.affinity).bind ?_
  rintro ⟨g, a₁⟩ m₁ ⟨hensure, hfind⟩
  exact hensure.inherits (inherits_setGroup hfind (Group.inherits_of_blocks_eq rfl))

end Memory

/-- A `Bare` allocator has no `block?`. -/
lemma Bare.block?_eq_none (h : a.Bare) (affinity : Affinity) (key : Nat) :
    a.block? affinity key = none := by
  unfold block?
  rcases hfind : a.groups.find? affinity with _ | g
  · rfl
  · rw [Option.bind_some, h affinity g hfind, Table.find?_empty]

/-- A `Bare` allocator has inherited all its blocks, since it has none. -/
lemma Bare.inherits (h : a'.Bare) : a.Inherits places a' := by
  intro affinity key b' hb'
  rw [h.block?_eq_none] at hb'
  exact absurd hb' (by simp)

lemma inherits_reset {σ : Type} [System σ] (a : Allocator) (s : Settings) (m : Memory σ) :
    Ends (a.reset s) m fun a' _ => a.Inherits places a' := by
  unfold reset
  exact Ends.trivial.bind fun _ _ _ => (bare_ofSettings s a.nested).inherits

end Allocator

end BlockPool
