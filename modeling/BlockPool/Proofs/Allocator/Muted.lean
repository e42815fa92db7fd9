import BlockPool.Proofs.Allocator.Descent
import BlockPool.Proofs.Group.Muted

/-!
# Allocators without their switches

The switches of an allocator are handed to its groups and to new blocks, and decide on informative
notices. Muted switches make an allocator do the same, with fewer of these.
-/

namespace BlockPool

open Memory (Mutes)

/-- Settings with `Tracking.muted` switches. -/
def Settings.muted (loud : Bool) (s : Settings) : Settings :=
  { s with tracking := s.tracking.muted loud }

namespace Allocator

variable {σ : Type} {loud : Bool} {a : Allocator}

/-- An allocator with `Tracking.muted` switches and each of its groups `muted`. -/
def muted (loud : Bool) (a : Allocator) : Allocator :=
  { a with tracking := a.tracking.muted loud, groups := a.groups.mapValues (Group.muted loud) }

/-- `Block.Ok` holds of every block. -/
def BlocksOk (a : Allocator) : Prop := ∀ affinity key b, a.block? affinity key = some b → b.Ok

lemma BlocksOk.group (ha : a.BlocksOk) {affinity : Affinity} {g : Group}
    (hfind : a.groups.find? affinity = some g) : g.BlocksOk :=
  fun key b hb => ha affinity key b ((block?_of_find? hfind key).trans hb)

/-- `BlocksOk` survives `Inherits`: old blocks stay in order, and new ones are. -/
lemma Inherits.blocksOk {places : Region → Prop} {a' : Allocator} (h : a.Inherits places a')
    (ha : a.BlocksOk) : a'.BlocksOk := by
  intro affinity key b' hb'
  rcases h affinity key b' hb' with ⟨b, hb, hbecomes⟩ | ⟨-, hmade⟩
  · exact hbecomes.ok (ha affinity key b hb)
  · exact hmade.ok

lemma Bare.blocksOk (h : a.Bare) : a.BlocksOk := by
  intro affinity key b hb
  rw [h.block?_eq_none] at hb
  exact absurd hb (by simp)

/-! ## Settings -/

/-- Looking up a group commutes with `muted`. -/
lemma find?_muted (a : Allocator) (affinity : Affinity) :
    (a.muted loud).groups.find? affinity = (a.groups.find? affinity).map (Group.muted loud) :=
  Table.find?_mapValues ..

/-- `setGroup` commutes with `muted`. -/
lemma muted_setGroup (a : Allocator) (affinity : Affinity) (g : Group) :
    (a.setGroup affinity g).muted loud = (a.muted loud).setGroup affinity (g.muted loud) := by
  unfold setGroup muted
  simp only [Table.mapValues_insert]

lemma muted_setTracking (a : Allocator) (tracking : Tracking) :
    (a.setTracking tracking).muted loud = (a.muted loud).setTracking (tracking.muted loud) := by
  unfold setTracking muted
  simp only [Table.mapValues_mapValues, Group.muted_setTracking]

/-- `alignmentFor` has nothing to do with the switches. -/
lemma alignmentFor_muted (a : Allocator) (affinity : Affinity) :
    (a.muted loud).alignmentFor affinity = a.alignmentFor affinity := by
  unfold alignmentFor
  rw [find?_muted, Option.map_map]
  rfl

/-- `ofSettings` with muted settings makes the `muted` allocator. -/
lemma muted_ofSettings (s : Settings) (nested : List Strategy) :
    (ofSettings s nested).muted loud = ofSettings (s.muted loud) nested := by
  have hgroups : (ofSettings s nested).groups.mapValues (Group.muted loud) =
      (ofSettings s nested).groups := by
    refine Table.mapValues_eq_self fun affinity g hfind => ?_
    have hblocks := bare_ofSettings s nested affinity g hfind
    unfold Group.muted
    rw [hblocks]
    exact congrArg (fun blocks => { g with blocks }) hblocks.symm
  unfold muted
  rw [hgroups]
  rfl

section Memory

variable (m : Memory σ)

/-- A `setGroup` at the end of an action is mirrored by one of the `muted` group. -/
lemma mutes_pure_setGroup {α : Type} (answer : α) (a : Allocator) (affinity : Affinity)
    (g : Group) :
    Mutes loud (fun out : α × Allocator => (out.1, out.2.muted loud))
      (pure (answer, a.setGroup affinity g))
      (pure (answer, (a.muted loud).setGroup affinity (g.muted loud))) m := by
  rw [← a.muted_setGroup]
  exact .pure _ m

/-- `ensureGroup` does the same to a `muted` allocator. -/
lemma mutes_ensureGroup (a : Allocator) (affinity : Affinity) :
    Mutes loud (fun out => (out.1.muted loud, out.2.muted loud)) (a.ensureGroup affinity)
      ((a.muted loud).ensureGroup affinity) m := by
  unfold ensureGroup
  rw [find?_muted]
  rcases a.groups.find? affinity with _ | g
  · refine (Memory.mutes_noteIf rfl _ m).bind fun _ m' => ?_
    -- a group without blocks has no switches
    have hmade : ∀ g : Group, g.blocks = .empty → g.muted loud = g := by
      rintro g hblocks
      unfold Group.muted
      rw [hblocks]
      exact congrArg (fun blocks => { g with blocks }) hblocks.symm
    have hend : ∀ g : Group, g.blocks = .empty →
        Mutes loud (fun out : Group × Allocator => (out.1.muted loud, out.2.muted loud))
          (pure (g, a.setGroup affinity g)) (pure (g, (a.muted loud).setGroup affinity g)) m' := by
      intro g hblocks
      refine ⟨?_, trivial⟩
      show ((g, (a.muted loud).setGroup affinity g), m'.muted loud) =
        ((g.muted loud, (a.setGroup affinity g).muted loud), m'.muted loud)
      rw [muted_setGroup, hmade g hblocks]
    exact hend _ rfl
  · exact .pure _ m

lemma mutes_setBlockSize (a : Allocator) (affinity : Affinity) (blockSize : Nat) :
    Mutes loud (muted loud) (a.setBlockSize affinity blockSize)
      ((a.muted loud).setBlockSize affinity blockSize) m := by
  unfold setBlockSize
  refine (a.mutes_ensureGroup m affinity).bind ?_
  rintro ⟨g, a₁⟩ m₁
  refine ⟨?_, trivial⟩
  show ((a₁.muted loud).setGroup affinity _, m₁.muted loud) =
    ((a₁.setGroup affinity _).muted loud, m₁.muted loud)
  rw [muted_setGroup]
  rfl

lemma mutes_configureGroup (a : Allocator) (s : GroupSettings) :
    Mutes loud (muted loud) (a.configureGroup s) ((a.muted loud).configureGroup s) m := by
  unfold configureGroup
  refine (a.mutes_ensureGroup m s.affinity).bind ?_
  rintro ⟨g, a₁⟩ m₁
  refine ⟨?_, trivial⟩
  show ((a₁.muted loud).setGroup s.affinity _, m₁.muted loud) =
    ((a₁.setGroup s.affinity _).muted loud, m₁.muted loud)
  rw [muted_setGroup]
  rfl

/-! ## Requests and returns -/

/-- `allocatePooled` does the same to a `muted` allocator, whatever its switches are. -/
lemma mutes_allocatePooled [System σ] (ha : a.BlocksOk) (size : Nat) (affinity : Affinity) :
    Mutes loud (fun out => (out.1, out.2.muted loud)) (a.allocatePooled size affinity)
      ((a.muted loud).allocatePooled size affinity) m := by
  unfold allocatePooled
  refine Mirrors.bind (Mirrors.and (a.mutes_ensureGroup m affinity)
    (ensureGroup_blocks m a affinity)) ?_
  rintro ⟨g, a₁⟩ m₁ ⟨-, hblocks⟩
  have hg : g.BlocksOk := fun key b hb => ha affinity key b (hblocks key ▸ hb)
  refine (Group.mutes_allocate hg size a₁.tracking m₁).bind ?_
  rintro ⟨answer, g'⟩ m₂
  cases answer with
  | ok address =>
    exact (Memory.mutes_noteIf rfl _ m₂).bind fun _ m' => mutes_pure_setGroup m' _ a₁ affinity g'
  | error reason =>
    exact (Memory.mutes_note (Notice.isHeard_of_severity Severity.noConfusion loud) m₂).bind
      fun _ m' => mutes_pure_setGroup m' _ a₁ affinity g'

/-- `owner?` commutes with `muted`. -/
lemma owner?_muted (a : Allocator) (address : Nat) :
    (a.muted loud).owner? address = (a.owner? address).map fun e => (e.1, e.2.muted loud) := by
  unfold owner? muted Table.mapValues
  rw [List.find?_map]
  congr 2
  funext e
  exact e.2.owns_muted address

/-- `deallocatePooled` does the same to a `muted` allocator, whatever its switches are. -/
lemma mutes_deallocatePooled (ha : a.BlocksOk) (address size : Nat) :
    Mutes loud (fun out => (out.1, out.2.muted loud)) (a.deallocatePooled address size)
      ((a.muted loud).deallocatePooled address size) m := by
  unfold deallocatePooled
  rw [owner?_muted]
  rcases howner : a.owner? address with _ | ⟨affinity, g⟩
  · exact .pure _ m
  · simp only [Option.map_some]
    rw [Group.deallocate_muted (ha.group (find?_of_owner? howner).1)]
    refine Mirrors.bind (Memory.mutes_settle _ _ m) ?_
    rintro ⟨known, g'⟩ m₁ -
    exact (Memory.mutes_noteIf rfl _ m₁).bind fun _ m₂ =>
      mutes_pure_setGroup m₂ true a affinity g'

/-! ## Giving memory back -/

lemma mutes_compactAll (tracking : Tracking) (entries : List (Affinity × Group)) :
    Mutes loud (fun bytes => bytes) (compactAll tracking entries)
      (compactAll (tracking.muted loud) (entries.map fun e => (e.1, e.2.muted loud))) m := by
  induction entries generalizing m with
  | nil => exact .pure _ m
  | cons e rest ih =>
    rw [List.map_cons]
    unfold compactAll
    exact (e.2.mutes_compact tracking m).bind fun out m₁ =>
      (ih m₁).bind fun more m₂ => .pure _ m₂

lemma mutes_compact (a : Allocator) :
    Mutes loud (fun out => (out.1, out.2.muted loud)) a.compact (a.muted loud).compact m := by
  have hgroups : (a.muted loud).groups.mapValues Group.withoutEmpty =
      (a.groups.mapValues Group.withoutEmpty).mapValues (Group.muted loud) := by
    unfold muted
    simp only [Table.mapValues_mapValues, Group.withoutEmpty_muted]
  unfold compact
  rw [hgroups]
  refine (mutes_compactAll m a.tracking a.groups.entries).bind fun bytes m₁ => ?_
  exact (Memory.mutes_noteIf rfl _ m₁).bind fun _ m₂ => ⟨rfl, trivial⟩

lemma mutes_giveBackAll (groups : List Group) :
    Mutes loud (fun u => u) (giveBackAll groups)
      (giveBackAll (groups.map (Group.muted loud))) m := by
  induction groups generalizing m with
  | nil => exact .pure _ m
  | cons g rest ih =>
    rw [List.map_cons]
    unfold giveBackAll
    exact (g.mutes_giveBack m).bind fun _ m₁ => ih m₁

lemma mutes_giveBack (a : Allocator) :
    Mutes loud (muted loud) a.giveBack (a.muted loud).giveBack m := by
  have hvalues : (a.muted loud).groups.values = a.groups.values.map (Group.muted loud) :=
    Table.values_mapValues ..
  unfold giveBack
  rw [hvalues]
  exact (mutes_giveBackAll m a.groups.values).bind fun _ m' => ⟨rfl, trivial⟩

/-- `reset` does the same to a `muted` allocator, with the settings muted. -/
lemma mutes_reset (a : Allocator) (s : Settings) :
    Mutes loud (muted loud) (a.reset s) ((a.muted loud).reset (s.muted loud)) m := by
  unfold reset
  refine (a.mutes_giveBack m).bind fun _ m' => ?_
  rw [show (a.muted loud).nested = a.nested from rfl, ← muted_ofSettings]
  exact .pure _ m'

end Memory

end Allocator

end BlockPool
