import BlockPool.Proofs.Allocator.Regrouped

/-!
# The switches of blocks

A block gets its switches when it is made, and they are changed together with those of its
allocator. Nothing that is done with the slots of a block touches them, and a group that is made
later has no blocks, so at any time all blocks of an allocator have its switches.
-/

namespace BlockPool

variable {tracking tracking' : Tracking}

/-! ## Blocks and groups -/

/-- `Block.allocate` keeps the switches. -/
lemma Block.allocate_tracking (b : Block) (size : Nat) :
    (b.allocate size).state.tracker.tracking = b.tracker.tracking :=
  b.tracker.reserve_tracking size b.alignment

/-- `Block.deallocate` keeps the switches. -/
lemma Block.deallocate_tracking (b : Block) (address size : Nat) :
    (b.deallocate address size).state.tracker.tracking = b.tracker.tracking := by
  unfold Block.deallocate
  split
  · exact b.tracker.release_tracking (address - b.base) size
  · rfl

namespace Group

variable {g g' : Group}

/-- All blocks of a group have the switches `tracking`. -/
def Tracks (g : Group) (tracking : Tracking) : Prop :=
  ∀ key b, g.blocks.find? key = some b → b.tracker.tracking = tracking

lemma tracks_of_blocks_eq_empty (h : g.blocks = .empty) : g.Tracks tracking := by
  intro key b hb
  rw [h] at hb
  exact absurd hb (by simp)

lemma Tracks.of_blocks_eq (h : g.Tracks tracking) (hblocks : g'.blocks = g.blocks) :
    g'.Tracks tracking := by
  intro key b hb
  rw [hblocks] at hb
  exact h key b hb

/-- `Group.Tracks` survives storing a block with the same switches. -/
lemma Tracks.insert (h : g.Tracks tracking) {key : Nat} {b : Block}
    (hb : b.tracker.tracking = tracking) (hblocks : g'.blocks = g.blocks.insert key b) :
    g'.Tracks tracking := by
  intro key' c hc
  rw [hblocks, Table.find?_insert] at hc
  split at hc
  · rwa [← Option.some.inj hc]
  · exact h key' c hc

/-- `Group.Tracks` survives a request, since a new block has the switches that come with it. -/
lemma Tracks.answering (h : g.Tracks tracking) {places : Region → Prop} {size : Nat}
    {answer : Except AllocationError Nat} (ha : g.Answering places size tracking answer g') :
    g'.Tracks tracking := by
  cases ha with
  | old hfind hanswer =>
    exact h.insert ((Block.allocate_tracking _ size).trans (h _ _ hfind)) rfl
  | @new base hmade hanswer =>
    have hnew : (g.newBlock size base tracking).tracker.tracking = tracking :=
      Tracker.tracking_new _ tracking
    exact h.insert ((Block.allocate_tracking _ size).trans hnew) rfl
  | failed reason => exact h

lemma Tracks.deallocate (h : g.Tracks tracking) (address size : Nat) :
    (g.deallocate address size).state.Tracks tracking := by
  unfold Group.deallocate
  split
  · exact h
  · rename_i base b howner
    have hb := h base b (find?_of_owner? howner).1
    exact h.insert ((b.deallocate_tracking address size).trans hb) rfl

lemma Tracks.withoutEmpty (h : g.Tracks tracking) : g.withoutEmpty.Tracks tracking := by
  intro key b hb
  unfold Group.withoutEmpty at hb
  rw [Table.find?_filter, Option.filter_eq_some_iff] at hb
  exact h key b hb.1

/-- After `Group.setTracking` all blocks have the switches given. -/
lemma tracks_setTracking (g : Group) (tracking : Tracking) :
    (g.setTracking tracking).Tracks tracking := by
  intro key b hb
  unfold setTracking at hb
  rw [Table.find?_mapValues] at hb
  obtain ⟨c, -, rfl⟩ := Option.map_eq_some_iff.1 hb
  rfl

end Group

/-! ## Allocators -/

namespace Allocator

variable {a a' : Allocator} {affinity : Affinity} {g : Group}

/-- An allocator has the switches `tracking`, and so have all its blocks. -/
structure Tracks (a : Allocator) (tracking : Tracking) : Prop where
  own : a.tracking = tracking
  group {affinity : Affinity} {g : Group} :
    a.groups.find? affinity = some g → g.Tracks tracking

/-- A block found by `block?` has the switches of its allocator. -/
lemma Tracks.block (h : a.Tracks tracking) {key : Nat} {b : Block}
    (hb : a.block? affinity key = some b) : b.tracker.tracking = tracking := by
  obtain ⟨g, hg, hb⟩ := Option.bind_eq_some_iff.1 hb
  exact h.group hg key b hb

/-- An allocator made by `ofSettings` `Tracks` the switches of the settings, as it has no blocks. -/
lemma tracks_ofSettings (s : Settings) (nested : List Strategy) :
    (ofSettings s nested).Tracks s.tracking where
  own := rfl
  group hg := Group.tracks_of_blocks_eq_empty (bare_ofSettings s nested _ _ hg)

/-- `setGroup` keeps `Tracks` if the group has the same switches. -/
lemma Tracks.setGroup (h : a.Tracks tracking) (hg : g.Tracks tracking) :
    (a.setGroup affinity g).Tracks tracking := by
  refine ⟨h.own, fun {affinity' g'} hfind => ?_⟩
  unfold Allocator.setGroup at hfind
  rw [Table.find?_insert] at hfind
  split at hfind
  · rwa [← Option.some.inj hfind]
  · exact h.group hfind

/-- `mapValues` gives the switches that `f` gives to every group. -/
lemma Tracks.mapValues (h : a.Tracks tracking) {f : Group → Group}
    (hf : ∀ g, g.Tracks tracking → (f g).Tracks tracking') :
    { a with tracking := tracking', groups := a.groups.mapValues f }.Tracks tracking' := by
  refine ⟨rfl, fun {affinity g'} hfind => ?_⟩
  rw [Table.find?_mapValues] at hfind
  obtain ⟨g, hg, rfl⟩ := Option.map_eq_some_iff.1 hfind
  exact hf g (h.group hg)

/-- `Allocator.setTracking` reaches all blocks that are there. -/
lemma Tracks.setTracking (h : a.Tracks tracking) (tracking' : Tracking) :
    (a.setTracking tracking').Tracks tracking' :=
  h.mapValues fun g _ => g.tracks_setTracking tracking'

lemma Tracks.addStrategy (h : a.Tracks tracking) (s : Strategy) :
    (a.addStrategy s).Tracks tracking := ⟨h.own, h.group⟩

section Memory

variable {σ : Type} (m : Memory σ)

lemma Tracks.ensureGroup (h : a.Tracks tracking) (affinity : Affinity) :
    Ends (a.ensureGroup affinity) m fun out _ =>
      out.2.Tracks tracking ∧ out.1.Tracks tracking := by
  unfold Allocator.ensureGroup
  split
  · rename_i g hfind
    exact ⟨h, h.group hfind⟩
  · have hnew : Group.Tracks ⟨affinity.name, a.defaultBlockSize, a.defaultAlignment, .empty, [],
        none⟩ tracking := Group.tracks_of_blocks_eq_empty rfl
    exact Ends.trivial.bind fun _ _ _ => ⟨h.setGroup hnew, hnew⟩

/-- `allocatePooled` makes a block with the switches of the allocator. -/
lemma Tracks.allocatePooled [System σ] (h : a.Tracks tracking) (size : Nat)
    (affinity : Affinity) :
    Ends (a.allocatePooled size affinity) m fun out _ => out.2.Tracks tracking := by
  unfold Allocator.allocatePooled
  refine (h.ensureGroup m affinity).bind ?_
  rintro ⟨g, a₁⟩ m₁ ⟨h₁, hg⟩
  refine (Group.allocate_answering (promises_true σ) g size a₁.tracking m₁).bind ?_
  rintro ⟨answer, g'⟩ m₂ hanswering
  have hanswering : g.Answering (fun _ => True) size tracking answer g' := h₁.own ▸ hanswering
  have hend : (a₁.setGroup affinity g').Tracks tracking :=
    h₁.setGroup (hg.answering hanswering)
  cases answer with
  | ok address => exact Ends.trivial.bind fun _ _ _ => hend
  | error reason => exact Ends.trivial.bind fun _ _ _ => hend

lemma Tracks.deallocatePooled (h : a.Tracks tracking) (address size : Nat) :
    Ends (a.deallocatePooled address size) m fun out _ => out.2.Tracks tracking := by
  unfold Allocator.deallocatePooled
  split
  · exact h
  · rename_i affinity g howner
    have hg := h.group (find?_of_owner? howner).1
    refine (Memory.ends_settle m _).bind ?_
    rintro ⟨known, g'⟩ m₁ hout
    obtain ⟨-, rfl⟩ := Prod.mk.inj hout
    exact Ends.trivial.bind fun _ _ _ => h.setGroup (hg.deallocate address size)

lemma Tracks.compact [System σ] (h : a.Tracks tracking) :
    Ends a.compact m fun out _ => out.2.Tracks tracking := by
  obtain rfl := h.own
  unfold Allocator.compact
  exact Ends.trivial.bind fun _ _ _ => Ends.trivial.bind fun _ _ _ =>
    h.mapValues fun _ hg => hg.withoutEmpty

lemma Tracks.setBlockSize (h : a.Tracks tracking) (affinity : Affinity) (blockSize : Nat) :
    Ends (a.setBlockSize affinity blockSize) m fun a' _ => a'.Tracks tracking := by
  unfold Allocator.setBlockSize
  refine (h.ensureGroup m affinity).bind ?_
  rintro ⟨g, a₁⟩ m₁ ⟨h₁, hg⟩
  exact h₁.setGroup (hg.of_blocks_eq rfl)

/-- `configureGroup` keeps the switches. -/
lemma Tracks.configureGroup (h : a.Tracks tracking) (s : GroupSettings) :
    Ends (a.configureGroup s) m fun a' _ => a'.Tracks tracking := by
  unfold Allocator.configureGroup
  refine (h.ensureGroup m s.affinity).bind ?_
  rintro ⟨g, a₁⟩ m₁ ⟨h₁, hg⟩
  exact h₁.setGroup (hg.of_blocks_eq rfl)

end Memory

end Allocator

end BlockPool
