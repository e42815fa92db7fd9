import BlockPool.Proofs.Allocator.Steady
import BlockPool.Proofs.Group.Twins

/-!
# One affinity apart from the others

What is done for an affinity is done to its group, and the groups of other affinities stay as they
are. A return is for the affinity that has the slot. Only compaction and the switches concern all
groups, and each group by itself.
-/

namespace BlockPool

namespace Allocator

variable {σ : Type} {m : Memory σ} {held : Multiset Region} {a a' : Allocator}
  {affinity other : Affinity}

/-- An allocator that is `Ok`, with each `groupFor` an affinity `Listed`, in a memory that `Keeps`
its regions beside those `held`. -/
structure Stands (a : Allocator) (held : Multiset Region) (m : Memory σ) : Prop where
  ok : a.Ok
  listed (affinity : Affinity) : (a.groupFor affinity).Listed
  keeps : m.Keeps (a.regions + held)

/-- What another allocator has in common with `a` if it differs in `groupFor affinity` only. -/
structure DiffersIn (affinity : Affinity) (a a' : Allocator) : Prop where
  defaultAlignment : a'.defaultAlignment = a.defaultAlignment
  others {other : Affinity} : other ≠ affinity → a'.groupFor other = a.groupFor other

/-! ## Groups -/

/-- `groupFor` is a stored group, or one without blocks. -/
lemma groupFor_cases (a : Allocator) (affinity : Affinity) :
    a.groups.find? affinity = some (a.groupFor affinity) ∨ (a.groupFor affinity).blocks = .empty ∧
      (a.groupFor affinity).order = [] ∧ (a.groupFor affinity).latest = none := by
  unfold groupFor
  cases a.groups.find? affinity with
  | none => exact .inr ⟨rfl, rfl, rfl⟩
  | some g => exact .inl rfl

/-- In an allocator in order, `groupFor` is in order for every affinity. -/
lemma Ok.groupFor (ha : a.Ok) (affinity : Affinity) : (a.groupFor affinity).Ok := by
  rcases a.groupFor_cases affinity with hfind | ⟨hblocks, -⟩
  · exact ha.group hfind
  · refine ⟨fun hfind => ?_⟩
    rw [hblocks] at hfind
    exact absurd hfind (by simp)

/-- The regions of `groupFor` can be split off `a.regions`. -/
lemma exists_regions_groupFor (a : Allocator) (affinity : Affinity) :
    ∃ others, a.regions = (a.groupFor affinity).regions + others := by
  rcases a.groupFor_cases affinity with hfind | ⟨hblocks, -⟩
  · obtain ⟨others, -, hregions, -, -⟩ := exists_others hfind
    exact ⟨others, hregions⟩
  · refine ⟨a.regions, ?_⟩
    unfold Group.regions
    rw [hblocks]
    exact (Multiset.zero_add _).symm

/-- The system `Keeps` the regions of each `groupFor` of an allocator that `Stands`. -/
lemma Stands.keeps_group (h : a.Stands held m) (affinity : Affinity) :
    ∃ others, m.Keeps ((a.groupFor affinity).regions + others) := by
  obtain ⟨others, hregions⟩ := a.exists_regions_groupFor affinity
  refine ⟨others + held, ?_⟩
  rw [← Multiset.add_assoc, ← hregions]
  exact h.keeps

/-- Every `groupFor` of an allocator that `Stands` is `Tidy`. -/
lemma Stands.tidy (h : a.Stands held m) (affinity : Affinity) : (a.groupFor affinity).Tidy := by
  obtain ⟨others, hkeeps⟩ := h.keeps_group affinity
  have hok := h.ok.groupFor affinity
  exact ⟨hok, h.listed affinity, hok.spread hkeeps⟩

/-- If an allocator `DiffersIn` one group only, it still `Stands` once that group is listed. -/
lemma Stands.change (h : a.Stands held m) (hdiffers : a.DiffersIn affinity a') (hok : a'.Ok)
    (hlisted : (a'.groupFor affinity).Listed) {m' : Memory σ}
    (hkeeps : m'.Keeps (a'.regions + held)) : a'.Stands held m' := by
  refine ⟨hok, fun other => ?_, hkeeps⟩
  by_cases heq : other = affinity
  · rwa [heq]
  · rw [hdiffers.others heq]
    exact h.listed other

/-- `setGroup` makes a difference for one affinity only. -/
lemma differsIn_setGroup {a₁ : Allocator} (hdefault : a₁.defaultAlignment = a.defaultAlignment)
    (hsame : ∀ other, a₁.groupFor other = a.groupFor other) (affinity : Affinity) (g : Group) :
    a.DiffersIn affinity (a₁.setGroup affinity g) := by
  refine ⟨hdefault, fun hne => ?_⟩
  rw [groupFor_setGroup, if_neg hne, hsame]

lemma groupFor_setGroup_self (a : Allocator) (affinity : Affinity) (g : Group) :
    (a.setGroup affinity g).groupFor affinity = g := by
  rw [groupFor_setGroup, if_pos rfl]

lemma ensureGroup_defaultAlignment (a : Allocator) (affinity : Affinity) (m : Memory σ) :
    Ends (a.ensureGroup affinity) m fun out _ => out.2.defaultAlignment = a.defaultAlignment := by
  unfold ensureGroup
  split
  · exact rfl
  · exact Ends.trivial.bind fun _ _ _ => rfl

variable [System σ]

/-- `ensureGroup` answers `groupFor` and changes `groupFor` for no affinity. -/
lemma Stands.ensureGroup (h : a.Stands held m) (affinity : Affinity) :
    Ends (a.ensureGroup affinity) m fun out m' => out.1 = a.groupFor affinity ∧
      out.2.groups.find? affinity = some (a.groupFor affinity) ∧
      out.2.defaultAlignment = a.defaultAlignment ∧
      (∀ other, out.2.groupFor other = a.groupFor other) ∧ a.Alike out.2 ∧
      m'.Keeps (a.regions + held) := by
  refine ((ensureGroup_spec h.ok h.keeps affinity).and ((a.ensureGroup_groupFor affinity m).and
    (a.ensureGroup_defaultAlignment affinity m))).mono ?_
  rintro ⟨g, a₁⟩ m₁ ⟨⟨hfind, halike, hkeeps⟩, ⟨rfl, hsame, -⟩, hdefault⟩
  exact ⟨rfl, hfind, hdefault, hsame, halike, hkeeps⟩

/-! ## Requests and returns -/

/-- `allocatePooled` `DiffersIn` the affinity asked for, whose group `Yields` the address
answered. -/
lemma Stands.allocatePooled [LawfulSystem σ] (h : a.Stands held m) (size : Nat)
    (affinity : Affinity) :
    Ends (a.allocatePooled size affinity) m fun out m' =>
      out.2.Stands held m' ∧ a.DiffersIn affinity out.2 ∧
        (out.2.groupFor affinity).slots =
          gained size out.1.toOption + (a.groupFor affinity).slots ∧
        ∀ address, out.1 = .ok address →
          (a.groupFor affinity).Yields size address (out.2.groupFor affinity) := by
  have hgroup : Ends (a.allocatePooled size affinity) m fun out _ => a.DiffersIn affinity out.2 ∧
      (a.groupFor affinity).Serving size out.1 (out.2.groupFor affinity) ∧
      ∀ address, out.1 = .ok address →
        (a.groupFor affinity).Yields size address (out.2.groupFor affinity) := by
    unfold Allocator.allocatePooled
    refine (h.ensureGroup affinity).bind ?_
    rintro ⟨g, a₁⟩ m₁ ⟨rfl, hfind, hdefault, hsame, halike, hkeeps⟩
    obtain ⟨others, hregions⟩ := a.exists_regions_groupFor affinity
    rw [hregions, Multiset.add_assoc] at hkeeps
    refine ((Group.allocate_serving (h.ok.groupFor affinity) hkeeps size a₁.tracking).and
      (Group.allocate_yields _ size a₁.tracking m₁)).bind ?_
    rintro ⟨answer, g'⟩ m₂ ⟨⟨hserving, -⟩, hyields⟩
    have hend : a.DiffersIn affinity (a₁.setGroup affinity g') ∧
        (a.groupFor affinity).Serving size answer
          ((a₁.setGroup affinity g').groupFor affinity) ∧
        ∀ address, answer = .ok address →
          (a.groupFor affinity).Yields size address
            ((a₁.setGroup affinity g').groupFor affinity) := by
      rw [a₁.groupFor_setGroup_self]
      exact ⟨differsIn_setGroup hdefault hsame affinity g', hserving, hyields⟩
    cases answer with
    | ok address => exact Ends.trivial.bind fun _ _ _ => hend
    | error reason => exact Ends.trivial.bind fun _ _ _ => hend
  refine ((allocatePooled_spec h.ok h.keeps size affinity).and hgroup).mono ?_
  rintro out m' ⟨hserves, hdiffers, hserving, hyields⟩
  exact ⟨h.change hdiffers hserves.ok ((h.listed affinity).serving hserving) hserves.keeps,
    hdiffers, (hserving.spec (h.ok.groupFor affinity)).2, hyields⟩

/-- `deallocatePooled` at a slot of `groupFor affinity` is `Group.deallocate` there and nothing
else. -/
lemma Stands.deallocatePooled (h : a.Stands held m) {address size : Nat}
    (hslot : ⟨address, Tracker.slotSize size⟩ ∈ (a.groupFor affinity).slots) :
    Ends (a.deallocatePooled address size) m fun out m' => out.1 = true ∧
      out.2.Stands held m' ∧ a.DiffersIn affinity out.2 ∧
      out.2.groupFor affinity = ((a.groupFor affinity).deallocate address size).state ∧
      (out.2.groupFor affinity).slots =
        (a.groupFor affinity).slots.erase ⟨address, Tracker.slotSize size⟩ := by
  have hfind : a.groups.find? affinity = some (a.groupFor affinity) := by
    rcases a.groupFor_cases affinity with hfind | ⟨hblocks, -⟩
    · exact hfind
    · unfold Group.slots at hslot
      rw [hblocks] at hslot
      exact absurd hslot (Multiset.notMem_zero _)
  have howner := owner?_of_slot h.ok h.keeps hfind hslot
  have hgroup : Ends (a.deallocatePooled address size) m fun out _ => out.1 = true ∧
      out.2 = a.setGroup affinity ((a.groupFor affinity).deallocate address size).state := by
    unfold Allocator.deallocatePooled
    rw [howner]
    refine (Memory.ends_settle m _).bind ?_
    rintro ⟨known, g'⟩ m₁ hout
    obtain ⟨-, rfl⟩ := Prod.mk.inj hout
    exact Ends.trivial.bind fun _ _ _ => ⟨rfl, rfl⟩
  refine ((deallocatePooled_spec h.ok h.keeps address size).and hgroup).mono ?_
  rintro ⟨known, a'⟩ m' ⟨⟨-, hok, hkeeps, -, -⟩, hknown, hafter⟩
  obtain rfl : a' = _ := hafter
  have hdiffers : a.DiffersIn affinity
      (a.setGroup affinity ((a.groupFor affinity).deallocate address size).state) :=
    differsIn_setGroup rfl (fun _ => rfl) affinity _
  have hself := a.groupFor_setGroup_self affinity
    ((a.groupFor affinity).deallocate address size).state
  obtain ⟨others, hgroup⟩ := h.keeps_group affinity
  refine ⟨hknown, h.change hdiffers hok ?_ hkeeps, hdiffers, hself, ?_⟩
  · rw [hself]
    exact (h.listed affinity).deallocate address size
  · rw [hself]
    exact (Group.deallocate_spec (h.ok.groupFor affinity) hgroup address size).2.2

/-! ## Settings -/

omit [System σ] in
/-- Storing `groupFor affinity` with other settings leaves an allocator that `Stands`. -/
lemma Stands.setGroup (h : a.Stands held m) {a₁ : Allocator}
    (hfind : a₁.groups.find? affinity = some (a.groupFor affinity)) (halike : a.Alike a₁)
    (hdefault : a₁.defaultAlignment = a.defaultAlignment)
    (hsame : ∀ other, a₁.groupFor other = a.groupFor other) {g : Group}
    (hblocks : g.blocks = (a.groupFor affinity).blocks) (hlisted : g.Listed) {m' : Memory σ}
    (hkeeps : m'.Keeps (a.regions + held)) :
    (a₁.setGroup affinity g).Stands held m' ∧ a.DiffersIn affinity (a₁.setGroup affinity g) := by
  have hafter := halike.trans (halike.ok.alike_setGroup hfind hblocks)
  have hdiffers := differsIn_setGroup hdefault hsame affinity g
  refine ⟨h.change hdiffers hafter.ok ?_ ?_, hdiffers⟩
  · rwa [a₁.groupFor_setGroup_self]
  · rwa [hafter.regions]

/-- `setBlockSize` `DiffersIn` one affinity, by `Group.setBlockSize`. -/
lemma Stands.setBlockSize (h : a.Stands held m) (affinity : Affinity) (blockSize : Nat) :
    Ends (a.setBlockSize affinity blockSize) m fun a' m' =>
      a'.Stands held m' ∧ a.DiffersIn affinity a' ∧
        a'.groupFor affinity = (a.groupFor affinity).setBlockSize blockSize := by
  unfold Allocator.setBlockSize
  refine (h.ensureGroup affinity).bind ?_
  rintro ⟨g, a₁⟩ m₁ ⟨rfl, hfind, hdefault, hsame, halike, hkeeps⟩
  have hlisted := h.listed affinity
  obtain ⟨hstands, hdiffers⟩ := h.setGroup hfind halike hdefault hsame
    (g := (a.groupFor affinity).setBlockSize blockSize) rfl
    ⟨hlisted.order, hlisted.latest, hlisted.aligned⟩ hkeeps
  exact ⟨hstands, hdiffers, a₁.groupFor_setGroup_self affinity _⟩

/-- `configureGroup` `DiffersIn` one affinity, by `Group.configure`. -/
lemma Stands.configureGroup (h : a.Stands held m) (s : GroupSettings) :
    Ends (a.configureGroup s) m fun a' m' =>
      a'.Stands held m' ∧ a.DiffersIn s.affinity a' ∧ a'.groupFor s.affinity =
        (a.groupFor s.affinity).configure s.name s.blockSize
          (s.alignment.getD a.defaultAlignment) := by
  unfold Allocator.configureGroup
  refine (h.ensureGroup s.affinity).bind ?_
  rintro ⟨g, a₁⟩ m₁ ⟨rfl, hfind, hdefault, hsame, halike, hkeeps⟩
  have hlisted := h.listed s.affinity
  obtain ⟨hstands, hdiffers⟩ := h.setGroup hfind halike hdefault hsame
    (g := (a.groupFor s.affinity).configure s.name s.blockSize
      (s.alignment.getD a₁.defaultAlignment)) rfl
    ⟨hlisted.order, hlisted.latest, hlisted.aligned⟩ hkeeps
  refine ⟨hstands, hdiffers, ?_⟩
  have hdefault : a₁.defaultAlignment = a.defaultAlignment := hdefault
  rw [← hdefault]
  exact a₁.groupFor_setGroup_self s.affinity _

/-! ## All groups -/

omit [System σ] in
/-- `mapValues` commutes with `groupFor`, if `f` leaves groups without blocks as they are. -/
lemma groupFor_mapValues (a : Allocator) {f : Group → Group}
    (hf : ∀ g : Group, g.blocks = .empty → g.order = [] → g.latest = none → f g = g)
    (affinity : Affinity) :
    ({ a with groups := a.groups.mapValues f } : Allocator).groupFor affinity =
      f (a.groupFor affinity) := by
  unfold groupFor
  rw [Table.find?_mapValues]
  cases a.groups.find? affinity with
  | none => exact (hf _ rfl rfl rfl).symm
  | some g => rfl

/-- `compact` is `Group.withoutEmpty` in the group of every affinity. -/
lemma Stands.compact (h : a.Stands held m) :
    Ends a.compact m fun out m' => out.2.Stands held m' ∧
      out.2.defaultAlignment = a.defaultAlignment ∧
      ∀ affinity, out.2.groupFor affinity = (a.groupFor affinity).withoutEmpty := by
  have hempty : ∀ g : Group, g.blocks = .empty → g.order = [] → g.latest = none →
      g.withoutEmpty = g := by
    rintro ⟨name, blockSize, alignment, blocks, order, latest⟩ hblocks horder hlatest
    obtain rfl : blocks = .empty := hblocks
    obtain rfl : order = [] := horder
    obtain rfl : latest = none := hlatest
    rfl
  have hstate : Ends a.compact m fun out _ =>
      out.2 = { a with groups := a.groups.mapValues Group.withoutEmpty } := by
    unfold Allocator.compact
    exact Ends.trivial.bind fun _ _ _ => Ends.trivial.bind fun _ _ _ => rfl
  refine ((compact_spec h.ok h.keeps).and hstate).mono ?_
  rintro ⟨bytes, a'⟩ m' ⟨⟨hok, hkeeps, -, -⟩, hafter⟩
  obtain rfl : a' = _ := hafter
  have hgroup := a.groupFor_mapValues hempty
  refine ⟨⟨hok, fun affinity => ?_, hkeeps⟩, rfl, hgroup⟩
  rw [hgroup]
  exact (h.listed affinity).withoutEmpty

omit [System σ] in
/-- `setTracking` commutes with `groupFor`. -/
lemma groupFor_setTracking (a : Allocator) (tracking : Tracking) (affinity : Affinity) :
    (a.setTracking tracking).groupFor affinity =
      (a.groupFor affinity).setTracking tracking := by
  refine groupFor_mapValues a (f := (·.setTracking tracking)) (fun g hblocks _ _ => ?_) affinity
  unfold Group.setTracking
  rw [hblocks]
  exact congrArg (fun blocks => { g with blocks }) hblocks.symm

omit [System σ] in
lemma Stands.setTracking (h : a.Stands held m) (tracking : Tracking) :
    (a.setTracking tracking).Stands held m := by
  have halike := alike_setTracking h.ok tracking
  refine ⟨halike.ok, fun affinity => ?_, ?_⟩
  · rw [a.groupFor_setTracking]
    exact (h.listed affinity).setTracking tracking
  · rw [halike.regions]
    exact h.keeps

omit [System σ] in
lemma Stands.addStrategy (h : a.Stands held m) (s : Strategy) :
    (a.addStrategy s).Stands held m :=
  ⟨⟨h.ok.group⟩, h.listed, h.keeps⟩

/-! ## New allocators -/

omit [System σ] in
/-- Every `groupFor` of an allocator made by `ofSettings` has no blocks. -/
lemma groupFor_ofSettings (s : Settings) (nested : List Strategy) (affinity : Affinity) :
    ((ofSettings s nested).groupFor affinity).blocks = .empty ∧
      ((ofSettings s nested).groupFor affinity).order = [] ∧
      ((ofSettings s nested).groupFor affinity).latest = none := by
  rcases (ofSettings s nested).groupFor_cases affinity with hfind | hnew
  · obtain ⟨settings, -, heq⟩ := List.mem_map.1 (Table.mem_of_find?_ofList hfind)
    rw [← (Prod.mk.inj heq).2]
    exact ⟨rfl, rfl, rfl⟩
  · exact hnew

omit [System σ] in
/-- An allocator made by `ofSettings` `Stands`. -/
lemma stands_ofSettings (h : m.Keeps held) (s : Settings) (nested : List Strategy) :
    (ofSettings s nested).Stands held m := by
  have hbare := bare_ofSettings s nested
  refine ⟨hbare.ok, fun affinity => ?_, ?_⟩
  · obtain ⟨hblocks, horder, hlatest⟩ := groupFor_ofSettings s nested affinity
    refine ⟨?_, ?_, fun {key b} hb => ?_⟩
    · rw [hblocks, horder]
      exact List.Perm.refl []
    · rw [hlatest]
      exact fun base hbase => absurd hbase (by simp)
    · rw [hblocks] at hb
      exact absurd hb (by simp)
  · rw [hbare.regions, Multiset.zero_add]
    exact h

end Allocator

end BlockPool
