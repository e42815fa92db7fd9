import BlockPool.Proofs.Allocator.Descent

/-!
# What an allocator is made with

The default alignment of an allocator, what it falls back on and its chain of fallbacks are settled
when it is made. Whatever is done with it afterwards changes its groups alone, until a strategy is
added to it or it starts anew. No group goes, a new group has the alignment that its affinity had,
and only setting a group changes the alignment of its affinity.
-/

namespace BlockPool

namespace Allocator

variable {kept kept' : Affinity → Prop} {a a' a'' : Allocator} {affinity : Affinity} {g : Group}

/-- An allocator with other groups. No group is gone, and `alignmentFor` is what it was for the
affinities that are `kept`. -/
structure Regrouped (kept : Affinity → Prop) (a a' : Allocator) : Prop where
  defaultAlignment : a'.defaultAlignment = a.defaultAlignment
  backing : a'.backing = a.backing
  wiring : a'.wiring = a.wiring
  present {affinity : Affinity} :
    (a.groups.find? affinity).isSome → (a'.groups.find? affinity).isSome
  alignment {affinity : Affinity} :
    kept affinity → a'.alignmentFor affinity = a.alignmentFor affinity

lemma Regrouped.refl (kept : Affinity → Prop) (a : Allocator) : a.Regrouped kept a :=
  ⟨rfl, rfl, rfl, id, fun _ => rfl⟩

/-- `Regrouped` is transitive. -/
lemma Regrouped.trans (h : a.Regrouped kept a') (h' : a'.Regrouped kept a'') :
    a.Regrouped kept a'' where
  defaultAlignment := h'.defaultAlignment.trans h.defaultAlignment
  backing := h'.backing.trans h.backing
  wiring := h'.wiring.trans h.wiring
  present hsome := h'.present (h.present hsome)
  alignment hkept := (h'.alignment hkept).trans (h.alignment hkept)

/-- `Regrouped` for fewer affinities kept. -/
lemma Regrouped.mono (h : a.Regrouped kept a')
    (hkept : ∀ affinity, kept' affinity → kept affinity) : a.Regrouped kept' a' :=
  ⟨h.defaultAlignment, h.backing, h.wiring, h.present, fun h' => h.alignment (hkept _ h')⟩

/-- `addStrategy` on both sides keeps `Regrouped`. -/
lemma Regrouped.addStrategy (h : a.Regrouped kept a') (s : Strategy) :
    (a.addStrategy s).Regrouped kept (a'.addStrategy s) where
  defaultAlignment := h.defaultAlignment
  backing := h.backing
  wiring := by
    obtain ⟨hnested, hbackstop⟩ := Wiring.mk.inj h.wiring
    simp only [Allocator.wiring, Allocator.addStrategy, hnested, hbackstop]
  present := h.present
  alignment := h.alignment

/-! ## Other groups -/

/-- `setGroup` with the alignment of before, if the affinity is one of those kept. -/
lemma regrouped_setGroup (h : kept affinity → g.alignment = a.alignmentFor affinity) :
    a.Regrouped kept (a.setGroup affinity g) where
  defaultAlignment := rfl
  backing := rfl
  wiring := rfl
  present {affinity'} hsome := by
    unfold setGroup
    rw [Table.find?_insert]
    split
    · rfl
    · exact hsome
  alignment {affinity'} hkept := by
    by_cases heq : affinity' = affinity
    · subst heq
      rw [alignmentFor_setGroup, h hkept]
    · unfold alignmentFor setGroup
      rw [Table.find?_insert, if_neg heq]

/-- `Regrouped` survives `setGroup` with the alignment of before. -/
lemma Regrouped.setGroup (h : a.Regrouped kept a')
    (halignment : g.alignment = a'.alignmentFor affinity) :
    a.Regrouped kept (a'.setGroup affinity g) :=
  h.trans (regrouped_setGroup fun _ => halignment)

/-- `mapValues` with an `f` that keeps alignments keeps all of them. -/
lemma regrouped_mapValues {f : Group → Group} (hf : ∀ g, (f g).alignment = g.alignment)
    (tracking : Tracking) :
    a.Regrouped kept { a with tracking, groups := a.groups.mapValues f } where
  defaultAlignment := rfl
  backing := rfl
  wiring := rfl
  present {affinity} hsome := by
    rw [Table.find?_mapValues, Option.isSome_map]
    exact hsome
  alignment {affinity} _ := by
    unfold alignmentFor
    rw [Table.find?_mapValues, Option.map_map]
    congr 2
    exact funext hf

/-! ## Actions -/

section Memory

variable {σ : Type} (m : Memory σ) (kept : Affinity → Prop)

/-- `ensureGroup` keeps the alignment of every affinity. -/
lemma regrouped_ensureGroup (a : Allocator) (affinity : Affinity) :
    Ends (a.ensureGroup affinity) m fun out _ =>
      a.Regrouped kept out.2 ∧ out.1.alignment = out.2.alignmentFor affinity := by
  unfold ensureGroup
  split
  · rename_i g hfind
    exact ⟨.refl kept a, (alignmentFor_of_find? hfind).symm⟩
  · rename_i hnone
    refine Ends.trivial.bind fun _ _ _ => ⟨regrouped_setGroup fun _ => ?_, ?_⟩
    · unfold alignmentFor
      rw [hnone]
      rfl
    · exact (alignmentFor_setGroup a affinity _).symm

/-- `allocatePooled` keeps the alignment of every affinity. -/
lemma regrouped_allocatePooled [System σ] (a : Allocator) (size : Nat) (affinity : Affinity) :
    Ends (a.allocatePooled size affinity) m fun out _ => a.Regrouped kept out.2 := by
  unfold allocatePooled
  refine (regrouped_ensureGroup m kept a affinity).bind ?_
  rintro ⟨g, a₁⟩ m₁ ⟨hensure, halignment⟩
  refine (Group.allocate_answering (promises_true σ) g size a₁.tracking m₁).bind ?_
  rintro ⟨answer, g'⟩ m₂ hanswering
  have hend : a.Regrouped kept (a₁.setGroup affinity g') :=
    hensure.setGroup (hanswering.alignment_eq.trans halignment)
  cases answer with
  | ok address => exact Ends.trivial.bind fun _ _ _ => hend
  | error reason => exact Ends.trivial.bind fun _ _ _ => hend

lemma regrouped_deallocatePooled (a : Allocator) (address size : Nat) :
    Ends (a.deallocatePooled address size) m fun out _ => a.Regrouped kept out.2 := by
  unfold deallocatePooled
  split
  · exact Regrouped.refl kept a
  · rename_i affinity g howner
    refine (Memory.ends_settle m _).bind ?_
    rintro ⟨known, g'⟩ m₁ hout
    obtain ⟨-, rfl⟩ := Prod.mk.inj hout
    refine Ends.trivial.bind fun _ _ _ => (Regrouped.refl kept a).setGroup ?_
    rw [alignmentFor_of_find? (find?_of_owner? howner).1]
    exact g.deallocate_alignment address size

lemma regrouped_compact [System σ] (a : Allocator) :
    Ends a.compact m fun out _ => a.Regrouped kept out.2 := by
  unfold compact
  refine Ends.trivial.bind fun _ _ _ => Ends.trivial.bind fun _ _ _ => ?_
  exact regrouped_mapValues (f := Group.withoutEmpty) (fun _ => rfl) a.tracking

lemma regrouped_setBlockSize (a : Allocator) (affinity : Affinity) (blockSize : Nat) :
    Ends (a.setBlockSize affinity blockSize) m fun a' _ => a.Regrouped kept a' := by
  unfold setBlockSize
  refine (regrouped_ensureGroup m kept a affinity).bind ?_
  rintro ⟨g, a₁⟩ m₁ ⟨hensure, halignment⟩
  exact hensure.setGroup halignment

/-- `configureGroup` changes the alignment of its own affinity alone. -/
lemma regrouped_configureGroup (a : Allocator) (s : GroupSettings)
    (hkept : ¬ kept s.affinity) :
    Ends (a.configureGroup s) m fun a' _ => a.Regrouped kept a' := by
  unfold configureGroup
  refine (regrouped_ensureGroup m kept a s.affinity).bind ?_
  rintro ⟨g, a₁⟩ m₁ ⟨hensure, -⟩
  exact hensure.trans (regrouped_setGroup fun h => absurd h hkept)

end Memory

end Allocator

end BlockPool
