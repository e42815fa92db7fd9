import BlockPool.Proofs.Allocator.Descent
import BlockPool.Proofs.Log

/-!
# What groups ask of the system

A request to a group goes to the system only for a new block, and then for the layout that the
group's settings ask for. A block that the system grants is in the group afterwards. Memory goes
back only where a new block takes the place of another one, which no lawful system brings about.
A return asks for nothing and gives nothing back.
-/

namespace BlockPool

variable {σ : Type} [System σ]

/-! ## Blocks -/

/-- `obtain` requests memory with `layoutFor`, and answers a `fresh` block if the system grants
it. -/
lemma Block.obtain_does (capacity alignment : Nat) (tracking : Tracking) (m : Memory σ) :
    Ends (obtain capacity alignment tracking) m fun result m' =>
      m.Does (fun event => ∃ answer,
        event = .requested .sized (layoutFor capacity (max alignment 1)) answer ∧
          ∀ base, answer = some base →
            result = .ok (fresh capacity alignment base tracking)) m' := by
  unfold obtain
  simp only
  split
  · exact .refl _ m
  · split
    · exact .refl _ m
    · refine (Memory.writes_request _ _ m).bind fun answer m₁ h₁ => ?_
      cases answer with
      | none => exact h₁.does.mono fun _ h => ⟨none, h, by simp⟩
      | some base =>
        refine (Memory.quiet_noteIf _ _ m₁).bind fun _ m₂ h₂ => ?_
        refine (h₁.does.mono fun _ h => ⟨some base, h, fun base' hbase => ?_⟩).trans (h₂.does _)
        rw [← Option.some.inj hbase]
        rfl

omit [System σ] in
/-- `giveBack` releases the region of the block. -/
lemma Block.giveBack_does (b : Block) (m : Memory σ) :
    Ends b.giveBack m fun _ m' =>
      m.Does (fun event => ∃ status, event = .released b.region status) m' := by
  unfold giveBack
  refine (Memory.quiet_noteIf _ _ m).bind fun _ m₁ h₁ => ?_
  have hrelease : Ends (Memory.release b.region) m₁ fun _ m' =>
      m₁.Writes (fun event => ∃ status, event = .released b.region status) m' :=
    Memory.writes_release (fun status => ⟨status, rfl⟩) m₁
  exact hrelease.mono fun _ _ h₂ => (h₁.does _).trans h₂.does

/-! ## Groups -/

namespace Group

variable {g g' g'' : Group} {size : Nat} {event : Event}

/-- The `layoutFor` a new block that a request needs. -/
def blockLayout (g : Group) (size : Nat) : Layout :=
  Block.layoutFor (max size g.blockSize) (max g.alignment 1)

/-- Every block is stored under its `base`. -/
def Keyed (g : Group) : Prop := ∀ key b, g.blocks.find? key = some b → b.base = key

/-- An event that belongs to a new block of a group: the block is asked for with `blockLayout` and
is there if it was granted, or memory goes back in whose place it is. -/
def IsGrowth (g : Group) (size : Nat) (g' : Group) : Event → Prop
  | .requested source layout answer => source = .sized ∧ layout = g.blockLayout size ∧
      ∀ base, answer = some base → ∃ b, g'.blocks.find? base = some b ∧ b.layout = layout
  | .released named _ =>
    ∃ b, g'.blocks.find? named.start = some b ∧ b.layout = g.blockLayout size
  | _ => False

/-- A group after requests of one size, and any returns: a block is where one was, and it has the
layout that it had or `blockLayout`. -/
structure Feeds (g : Group) (size : Nat) (g' : Group) : Prop where
  layout : g'.blockLayout size = g.blockLayout size
  keyed : g.Keyed → g'.Keyed
  kept {key : Nat} {b : Block} : g.blocks.find? key = some b →
    ∃ b', g'.blocks.find? key = some b' ∧
      (b'.layout = b.layout ∨ b'.layout = g.blockLayout size)

lemma Feeds.refl (g : Group) (size : Nat) : g.Feeds size g :=
  ⟨rfl, fun h => h, fun {_ b} hfind => ⟨b, hfind, .inl rfl⟩⟩

/-- `Feeds` is transitive. -/
lemma Feeds.trans (h : g.Feeds size g') (h' : g'.Feeds size g'') : g.Feeds size g'' := by
  refine ⟨h'.layout.trans h.layout, fun hkeyed => h'.keyed (h.keyed hkeyed), fun hfind => ?_⟩
  obtain ⟨b', hfind', hlayout⟩ := h.kept hfind
  obtain ⟨b'', hfind'', hlayout'⟩ := h'.kept hfind'
  rw [h.layout] at hlayout'
  refine ⟨b'', hfind'', ?_⟩
  rcases hlayout' with hsame | hnew
  · rwa [hsame]
  · exact .inr hnew

/-- A block with the layout `g.blockLayout size` keeps it in a group that `Feeds` on. -/
lemma Feeds.kept_new (h : g.Feeds size g') {key : Nat} {layout : Layout}
    (hlayout : layout = g.blockLayout size)
    (hblock : ∃ b, g.blocks.find? key = some b ∧ b.layout = layout) :
    ∃ b, g'.blocks.find? key = some b ∧ b.layout = layout := by
  obtain ⟨b, hfind, hb⟩ := hblock
  obtain ⟨b', hfind', hb' | hb'⟩ := h.kept hfind
  · exact ⟨b', hfind', hb'.trans hb⟩
  · exact ⟨b', hfind', hb'.trans hlayout.symm⟩

/-- `IsGrowth` survives further requests of the same size. -/
lemma IsGrowth.feeds (h : g.IsGrowth size g' event)
    (hsame : g'.blockLayout size = g.blockLayout size) (h' : g'.Feeds size g'') :
    g.IsGrowth size g'' event := by
  cases event with
  | requested source layout answer =>
    obtain ⟨hsource, hlayout, hgranted⟩ := h
    exact ⟨hsource, hlayout, fun base hbase =>
      h'.kept_new (hlayout.trans hsame.symm) (hgranted base hbase)⟩
  | released named status => exact h'.kept_new hsame.symm h
  | _ => exact False.elim h

/-- `IsGrowth` of a later request holds as seen from before. -/
lemma Feeds.isGrowth (h : g.Feeds size g') (hgrowth : g'.IsGrowth size g'' event) :
    g.IsGrowth size g'' event := by
  cases event with
  | requested source layout answer => rwa [IsGrowth, h.layout] at hgrowth
  | released named status => rwa [IsGrowth, h.layout] at hgrowth
  | _ => exact False.elim hgrowth

/-- Storing what a block `Becomes` in its place keeps the layouts of all blocks. -/
lemma feeds_replace {key : Nat} {b b' : Block} (hfind : g.blocks.find? key = some b)
    (h : b.Becomes b') (hblocks : g'.blocks = g.blocks.insert key b')
    (hlayout : g'.blockLayout size = g.blockLayout size) : g.Feeds size g' := by
  refine ⟨hlayout, fun hkeyed key' c hc => ?_, fun {key' c} hc => ?_⟩
  · rw [hblocks, Table.find?_insert] at hc
    split at hc
    · rename_i hkey
      rw [← Option.some.inj hc, h.base, hkey]
      exact hkeyed key b hfind
    · exact hkeyed key' c hc
  · rw [hblocks, Table.find?_insert]
    split
    · rename_i hkey
      rw [hkey, hfind] at hc
      exact ⟨b', rfl, .inl (Option.some.inj hc ▸ h.layout)⟩
    · exact ⟨c, hc, .inl rfl⟩

/-- `addBlock` with a block of layout `g.blockLayout size` is one of the two ways of `Feeds`. -/
lemma feeds_addBlock {b : Block} (hlayout : b.layout = g.blockLayout size) :
    g.Feeds size (g.addBlock b) := by
  have hfind : ∀ key, (g.addBlock b).blocks.find? key =
      if key = b.base then some b else g.blocks.find? key := fun key => Table.find?_insert ..
  refine ⟨rfl, fun hkeyed key c hc => ?_, fun {key c} hc => ?_⟩
  · rw [hfind] at hc
    split at hc
    · rename_i hkey
      rw [← Option.some.inj hc, hkey]
    · exact hkeyed key c hc
  · rw [hfind]
    split
    · exact ⟨b, rfl, .inr hlayout⟩
    · exact ⟨c, hc, .inl rfl⟩

/-- However a request ends, the group `Feeds` on requests of that size. -/
lemma Answering.feeds {places : Region → Prop} {tracking : Tracking}
    {answer : Except AllocationError Nat} (h : g.Answering places size tracking answer g') :
    g.Feeds size g' := by
  cases h with
  | old hfind hanswer => exact feeds_replace hfind (Block.becomes_allocate _ size) rfl rfl
  | new hmade hanswer => exact feeds_addBlock rfl
  | failed reason => exact .refl g size

lemma feeds_deallocate (g : Group) (size address size' : Nat) :
    g.Feeds size (g.deallocate address size').state := by
  unfold deallocate
  rcases howner : g.owner? address with _ | ⟨base, b⟩
  · exact .refl g size
  · obtain ⟨hfind, -⟩ := find?_of_owner? howner
    exact feeds_replace hfind (b.becomes_deallocate address size') rfl rfl

/-- All that `grow` does to the system `IsGrowth`: it asks for the new block, and gives back what
was in its place. -/
lemma grow_does (hkeyed : g.Keyed) (size : Nat) (tracking : Tracking) (m : Memory σ) :
    Ends (g.grow size tracking) m fun out m' => m.Does (g.IsGrowth size out.2) m' := by
  have hmade := Block.obtain_made (promises_true σ) (max size g.blockSize) g.alignment tracking m
  unfold grow
  refine (hmade.and (Block.obtain_does _ _ _ m)).bind ?_
  rintro (reason | b) m₁ ⟨hmade, hdoes⟩
  · refine hdoes.mono fun event => ?_
    rintro ⟨answer, rfl, hgranted⟩
    exact ⟨rfl, rfl, fun base hbase => absurd (hgranted base hbase) (by simp)⟩
  · obtain ⟨hmade, base, rfl⟩ := hmade
    have hanswer := Block.allocate_fresh hmade (Nat.le_max_left size g.blockSize)
    refine (Memory.quiet_settle _ m₁).bind ?_
    rintro ⟨answer, b⟩ m₂ ⟨hout, hquiet⟩
    obtain ⟨rfl, rfl⟩ := Prod.mk.inj hout
    simp only [hanswer]
    refine (Memory.quiet_noteIf _ _ m₂).bind fun _ m₃ hquiet' => ?_
    -- whatever was asked for and given back, the block is at its address afterwards
    have hthere : ∃ b, (g.addBlock
        ((g.newBlock size base tracking).allocate size).state).blocks.find? base = some b ∧
          b.layout = g.blockLayout size :=
      ⟨_, (Table.find?_insert ..).trans (if_pos rfl), rfl⟩
    have hobtained : m.Does (g.IsGrowth size (g.addBlock
        ((g.newBlock size base tracking).allocate size).state)) m₃ := by
      refine (hdoes.mono fun event => ?_).trans ((hquiet.trans hquiet').does _)
      rintro ⟨answer, rfl, hgranted⟩
      refine ⟨rfl, rfl, fun base' hbase => ?_⟩
      have hsame : base = base' :=
        congrArg Block.base (Except.ok.inj (hgranted base' hbase))
      rw [← hsame]
      exact hthere
    unfold displace
    split
    · exact hobtained
    · rename_i c hc
      refine (Block.giveBack_does c m₃).bind fun _ m₄ hback => ?_
      refine hobtained.trans (hback.mono fun event => ?_)
      rintro ⟨status, rfl⟩
      have hbase : c.region.start = base := hkeyed base c hc
      rw [Group.IsGrowth, hbase]
      exact hthere

/-- All that `allocate` does to the system `IsGrowth`. -/
lemma allocate_does (hkeyed : g.Keyed) (size : Nat) (tracking : Tracking) (m : Memory σ) :
    Ends (g.allocate size tracking) m fun out m' => m.Does (g.IsGrowth size out.2) m' := by
  unfold allocate
  refine (Memory.quiet_settle _ m).bind ?_
  rintro ⟨answer, g'⟩ m₁ ⟨hout, hquiet⟩
  obtain ⟨rfl, rfl⟩ := Prod.mk.inj hout
  unfold serve
  rcases g.serveFrom_cases size g.searchOrder with ⟨hanswer, hstate⟩ |
    ⟨base, b, address, -, -, hanswer, hstate⟩
  · rw [hanswer, hstate]
    exact (grow_does hkeyed size tracking m₁).mono fun _ _ h => (hquiet.does _).trans h
  · rw [hanswer]
    exact hquiet.does _

end Group

/-! ## Allocators -/

namespace Allocator

variable {a : Allocator} {size : Nat} {affinity : Affinity}

/-- All that `allocatePooled` does to the system `IsGrowth` of the group of its affinity. -/
lemma allocatePooled_growth (hkeyed : (a.groupFor affinity).Keyed) (size : Nat) (m : Memory σ) :
    Ends (a.allocatePooled size affinity) m fun out m' =>
      (a.groupFor affinity).Feeds size (out.2.groupFor affinity) ∧
        m.Does ((a.groupFor affinity).IsGrowth size (out.2.groupFor affinity)) m' := by
  unfold allocatePooled
  refine (a.ensureGroup_groupFor affinity m).bind ?_
  rintro ⟨g, a₁⟩ m₁ ⟨rfl, -, hquiet⟩
  have hgroup := (Group.allocate_answering (promises_true σ) (a.groupFor affinity) size
    a₁.tracking m₁).and (Group.allocate_does hkeyed size a₁.tracking m₁)
  refine hgroup.bind ?_
  rintro ⟨answer, g'⟩ m₂ ⟨hanswering, hdoes⟩
  have hend : ∀ m', m₂.Quiet m' →
      (a.groupFor affinity).Feeds size ((a₁.setGroup affinity g').groupFor affinity) ∧
        m.Does ((a.groupFor affinity).IsGrowth size
          ((a₁.setGroup affinity g').groupFor affinity)) m' := by
    intro m' hquiet'
    rw [groupFor_setGroup, if_pos rfl]
    exact ⟨hanswering.feeds, (hquiet.does _).trans (hdoes.trans (hquiet'.does _))⟩
  cases answer with
  | ok address => exact (Memory.quiet_noteIf _ _ m₂).bind fun _ m' h => hend m' h
  | error reason => exact (Memory.quiet_note _ m₂).bind fun _ m' h => hend m' h

omit [System σ] in
/-- `deallocatePooled` leaves the blocks of every affinity where they are. -/
lemma deallocatePooled_feeds (a : Allocator) (address size' size : Nat) (affinity : Affinity)
    (m : Memory σ) :
    Ends (a.deallocatePooled address size') m fun out _ =>
      (a.groupFor affinity).Feeds size (out.2.groupFor affinity) := by
  unfold deallocatePooled
  split
  · exact Group.Feeds.refl _ size
  · rename_i owner g howner
    refine (Memory.quiet_settle _ m).bind ?_
    rintro ⟨known, g'⟩ m₁ ⟨hout, -⟩
    obtain ⟨-, rfl⟩ := Prod.mk.inj hout
    refine Ends.trivial.bind fun _ _ _ => ?_
    show (a.groupFor affinity).Feeds size ((a.setGroup owner _).groupFor affinity)
    rw [groupFor_setGroup]
    split
    · rename_i heq
      rw [heq, groupFor_of_find? (find?_of_owner? howner).1]
      exact g.feeds_deallocate size address size'
    · exact Group.Feeds.refl _ size

end Allocator

end BlockPool
