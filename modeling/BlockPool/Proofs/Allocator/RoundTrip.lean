import BlockPool.Proofs.Allocator.Blank
import BlockPool.Proofs.Allocator.Compaction
import BlockPool.Proofs.Group.Reuse

/-!
# A request and its return

The books of a block know nothing but its slots, so a return undoes a request. A group remembers
which block served last, and nothing else of a request that was returned. So after the first request
and its return the group is ready: its latest block has the place that the request got, and from
then on requests and returns of the same kind go round in a circle.

This needs no law of the system, only that a block it grants does not lie where another one is.
-/

namespace BlockPool

/-! ## Blocks -/

namespace Block

variable {b : Block} {size address : Nat}

/-- What `allocate` reserves in a block, `afterRelease` takes out again. -/
lemma Ok.release_allocate (hb : b.Ok) (h : (b.allocate size).answer = some address) :
    (b.allocate size).state.contains address = true ∧
      (b.allocate size).state.afterRelease address size = b := by
  obtain ⟨hok, hregion, hslots⟩ := allocate_spec hb size
  rw [h] at hslots
  have hmem : (⟨address, Tracker.slotSize size⟩ : Extent) ∈ (b.allocate size).state.slots := by
    rw [← Multiset.mem_coe, hslots]
    exact Multiset.mem_add.2 (.inl (Multiset.mem_singleton_self _))
  have hcontains := hok.contains_slot hmem
  have hreturn : ((b.allocate size).state.deallocate address size).state =
      (b.allocate size).state.afterRelease address size := by
    unfold deallocate
    rw [if_pos hcontains]
    rfl
  obtain ⟨hok', -, hslots'⟩ := deallocate_spec hok address size
  rw [hslots, hreturn, gained, Multiset.singleton_add, Multiset.erase_cons_head,
    Multiset.coe_eq_coe] at hslots'
  rw [hreturn] at hok'
  refine ⟨hcontains, hb.eq_of_blank hok' ?_ fun x => hslots'.mem_iff⟩
  rw [← hreturn, blank_deallocate, blank_allocate]

end Block

/-! ## Memory for new blocks -/

namespace Memory

variable {σ : Type} [System σ] {m m' : Memory σ} {layout : Layout} {regions : Multiset Region}

/-- Memory that `System.place` grants for a layout is new beside some regions: it starts where none
of them does, and is `Disjoint` from each of them. -/
def GrantsNew (m : Memory σ) (layout : Layout) (regions : Multiset Region) : Prop :=
  ∀ base, (System.place m.system m.live .sized layout).1 = some base → ∀ r ∈ regions,
    r.start ≠ base ∧ (⟨.sized, base, layout⟩ : Region).Disjoint r

/-- A lawful system `GrantsNew` memory beside regions that are live. -/
lemma grantsNew_of_live [LawfulSystem σ] (hlayout : 0 < layout.size)
    (h : ∀ r ∈ regions, r ∈ m.live ∧ 0 < r.layout.size) : m.GrantsNew layout regions := by
  intro base hbase r hr
  obtain ⟨hlive, hsize⟩ := h r hr
  obtain ⟨-, -, -, hfresh⟩ := LawfulSystem.place_lawful (Prod.ext hbase rfl)
  have hdisjoint := hfresh r hlive
  refine ⟨fun hstart => ?_, hdisjoint⟩
  -- neither region is empty, so they would overlap in their first byte
  unfold Region.Disjoint Region.stop at hdisjoint
  simp only at hdisjoint
  omega

end Memory

/-! ## Groups -/

namespace Group

variable {g h : Group} {size base address : Nat} {b : Block} {tracking : Tracking}

/-- The `latest` block of a group has a place for a request, at `address`. -/
structure Ready (h : Group) (size base : Nat) (b : Block) (address : Nat) : Prop where
  latest : h.latest = some base
  block : h.blocks.find? base = some b
  answer : (b.allocate size).answer = some address

/-- How a group comes to be `Ready` for a request, which it served at `address`: an old block is the
latest one from then on, or there is a new one, for which the system was asked. -/
inductive Readies {σ : Type} [System σ] (g : Group) (size : Nat) (tracking : Tracking)
    (m : Memory σ) (address : Nat) : Group → Memory σ → Prop where
  | old {base : Nat} {b : Block} {m' : Memory σ} (hfind : g.blocks.find? base = some b)
      (hanswer : (b.allocate size).answer = some address) (hquiet : m.Quiet m') :
      g.Readies size tracking m address { g with latest := some base } m'
  | new {m' : Memory σ}
      (hmade : (g.newBlock size address tracking).Made (fun _ => True) g.alignment)
      (hplaced : (System.place m.system m.live .sized (g.blockLayout size)).1 = some address)
      (hrequests : m'.requests =
        .requested .sized (g.blockLayout size) (some address) :: m.requests) :
      g.Readies size tracking m address (g.addBlock (g.newBlock size address tracking)) m'

/-- A group after a request and its return: all blocks are what they were, and there is at most one
more, which has no `slots`. -/
structure Restored (g h : Group) : Prop where
  ok : h.Ok
  kept {key : Nat} {b : Block} : g.blocks.find? key = some b → h.blocks.find? key = some b
  added : ∃ place, ∀ key b, h.blocks.find? key = some b →
    g.blocks.find? key = some b ∨ key = place ∧ b.slots = []
  slots : h.slots = g.slots

section Memory

variable {σ : Type} [System σ] {m m₁ m' m'' : Memory σ}

/-- A group that a request `Readies` is `Restored`, with at most the region of one new block beside
`g.regions`. -/
lemma Readies.restored (hg : g.Ok) (hnew : m.GrantsNew (g.blockLayout size) g.regions)
    (hreadies : g.Readies size tracking m address h m') :
    g.Restored h ∧ (h.regions = g.regions ∨ ∃ base,
      (System.place m.system m.live .sized (g.blockLayout size)).1 = some base ∧
        h.regions = ⟨.sized, base, g.blockLayout size⟩ ::ₘ g.regions) := by
  cases hreadies with
  | old hfind hanswer hquiet =>
    exact ⟨⟨⟨hg.block⟩, fun hb => hb, ⟨0, fun _ _ hb => .inl hb⟩, rfl⟩, .inl rfl⟩
  | new hmade hplaced hrequests =>
    have hvacant : g.blocks.find? address = none := by
      rw [Option.eq_none_iff_forall_ne_some]
      exact fun b hb => (hnew address hplaced b.region (region_mem hb)).1 (hg.block hb).1
    have hempty : (g.newBlock size address tracking).slots = [] := by
      have hblank := (g.newBlock size address tracking).blank_slots
      rwa [newBlock, Block.blank_fresh] at hblank
    obtain ⟨hregions, hslots⟩ :=
      add_spec (g.addBlock (g.newBlock size address tracking)) hvacant rfl
    refine ⟨⟨hg.insert hmade.ok rfl rfl, fun {key b} hb => ?_, ⟨address, fun key b hb => ?_⟩, ?_⟩,
      .inr ⟨address, hplaced, hregions⟩⟩
    · refine (Table.find?_insert ..).trans ((if_neg fun heq => ?_).trans hb)
      have heq : key = address := heq
      rw [heq, hvacant] at hb
      exact Option.some_ne_none _ hb.symm
    · have hb : (g.blocks.insert address (g.newBlock size address tracking)).find? key = some b :=
        hb
      rw [Table.find?_insert] at hb
      split at hb
      · rename_i hkey
        exact .inr ⟨hkey, Option.some.inj hb ▸ hempty⟩
      · exact .inl hb
    · rw [hslots, hempty, Multiset.coe_nil, Multiset.zero_add]

/-- `Readies` is not affected by `Quiet` actions before and after. -/
lemma Readies.of_quiet (hquiet : m.Quiet m₁) (hreadies : g.Readies size tracking m₁ address h m')
    (hquiet' : m'.Quiet m'') : g.Readies size tracking m address h m'' := by
  cases hreadies with
  | old hfind hanswer hsame => exact .old hfind hanswer (hquiet.trans (hsame.trans hquiet'))
  | new hmade hplaced hrequests =>
    rw [hquiet.system, hquiet.live] at hplaced
    rw [hquiet.requests] at hrequests
    exact .new hmade hplaced (hquiet'.requests.trans hrequests)

/-- What `Readies` a group asks the system once at most. -/
lemma Readies.requests (hreadies : g.Readies size tracking m address h m') :
    m'.requests = m.requests ∨
      m'.requests = .requested .sized (g.blockLayout size) (some address) :: m.requests := by
  cases hreadies with
  | old hfind hanswer hquiet => exact .inl hquiet.requests
  | new hmade hplaced hrequests => exact .inr hrequests

/-- The address that `grow` answers is where the system placed the new block. -/
lemma grow_placed (g : Group) (size : Nat) (tracking : Tracking) (m : Memory σ) :
    Ends (g.grow size tracking) m fun out _ => ∀ address, out.1 = .ok address →
      (System.place m.system m.live .sized (g.blockLayout size)).1 = some address := by
  have hplaced : Ends (Block.obtain (max size g.blockSize) g.alignment tracking) m
      fun result _ => ∀ b, result = .ok b →
        (System.place m.system m.live .sized (g.blockLayout size)).1 = some b.base := by
    unfold Block.obtain
    simp only
    split
    · exact fun _ hb => nomatch hb
    · split
      · exact fun _ hb => nomatch hb
      · have hasked : Ends (Memory.request .sized (g.blockLayout size)) m fun answer _ =>
            (System.place m.system m.live .sized (g.blockLayout size)).1 = answer := rfl
        refine hasked.bind fun answer m₁ hanswer => ?_
        cases answer with
        | none => exact fun _ hb => nomatch hb
        | some base =>
          refine Ends.trivial.bind fun _ _ _ => ?_
          intro b hb
          rw [← Except.ok.inj hb]
          exact hanswer
  unfold grow
  refine ((Block.obtain_made (promises_true σ) _ _ tracking m).and hplaced).bind ?_
  rintro (reason | b) m₁ ⟨hmade, hplaced⟩
  · exact fun _ haddress => nomatch haddress
  · obtain ⟨hmade, base, rfl⟩ := hmade
    have hanswer := Block.allocate_fresh hmade (Nat.le_max_left size g.blockSize)
    refine (Memory.ends_settle m₁ _).bind ?_
    rintro ⟨answer, b⟩ m₂ hout
    obtain ⟨rfl, rfl⟩ := Prod.mk.inj hout
    simp only [hanswer]
    refine Ends.trivial.bind fun _ _ _ => Ends.trivial.bind fun _ _ _ => ?_
    intro address haddress
    rw [← Except.ok.inj haddress]
    exact hplaced _ rfl

/-- A request that is served ends `afterServing` from the latest block of a group that it
`Readies`. -/
lemma allocate_readies (g : Group) (size : Nat) (tracking : Tracking) (m : Memory σ) :
    Ends (g.allocate size tracking) m fun out m' => ∀ address, out.1 = .ok address →
      ∃ h base b, g.Readies size tracking m address h m' ∧ h.Ready size base b address ∧
        out.2 = h.afterServing base (b.allocate size).state := by
  unfold allocate
  refine (Memory.quiet_settle _ m).bind ?_
  rintro ⟨answer, g'⟩ m₁ ⟨hout, hquiet⟩
  obtain ⟨rfl, rfl⟩ := Prod.mk.inj hout
  unfold serve
  rcases g.serveFrom_cases size g.searchOrder with ⟨hnone, hstate⟩ |
    ⟨base, b, address, hfind, hanswer, hserved, hstate⟩
  · rw [hnone, hstate]
    have hgrow := (grow_made (promises_true σ) g size tracking m₁).and
      ((grow_growth g size tracking m₁).and (grow_placed g size tracking m₁))
    refine hgrow.mono ?_
    rintro _ m' ⟨⟨reason, rfl⟩ | ⟨base, hmade, hanswer, rfl⟩, hgrowth, hplaced⟩ address haddress
    · exact absurd haddress (by simp)
    · obtain rfl : base = address := Except.ok.inj haddress
      have hready : (g.addBlock (g.newBlock size base tracking)).Ready size base
          (g.newBlock size base tracking) base :=
        ⟨rfl, (Table.find?_insert ..).trans (if_pos rfl), hanswer⟩
      refine ⟨_, base, _, ?_, hready, ?_⟩
      · cases hgrowth with
        | granted hrequests hserved =>
          exact (Readies.new hmade (hplaced base rfl) hrequests).of_quiet hquiet (.refl m')
      · show g.addBlock _ = Group.afterServing (g.addBlock _) base _
        have hblocks := Table.insert_insert g.blocks base (g.newBlock size base tracking)
          ((g.newBlock size base tracking).allocate size).state
        unfold addBlock afterServing
        exact congrArg (fun blocks => Group.mk _ _ _ blocks _ _) hblocks.symm
  · rw [hserved, hstate]
    intro address' haddress
    obtain rfl : address = address' := Except.ok.inj haddress
    exact ⟨{ g with latest := some base }, base, b, .old hfind hanswer hquiet,
      ⟨rfl, hfind, hanswer⟩, rfl⟩

omit [System σ] in
/-- A group that is `Ready` serves from its latest block. -/
lemma Ready.serve (hready : h.Ready size base b address) :
    (h.serve size).answer = some address ∧
      (h.serve size).state = h.afterServing base (b.allocate size).state := by
  have horder : ∃ rest, h.searchOrder = base :: rest := by
    unfold searchOrder
    rw [hready.latest]
    exact ⟨_, rfl⟩
  obtain ⟨rest, horder⟩ := horder
  unfold Group.serve
  rw [horder]
  unfold serveFrom
  rw [hready.block]
  simp only [hready.answer]
  exact ⟨trivial, rfl⟩

/-- `allocate` on a group that is `Ready` is answered at once, and asks the system for nothing. -/
lemma Ready.allocate (hready : h.Ready size base b address) (tracking : Tracking)
    (m : Memory σ) :
    Ends (h.allocate size tracking) m fun out m' =>
      out = (.ok address, h.afterServing base (b.allocate size).state) ∧ m.Quiet m' := by
  unfold Group.allocate
  refine (Memory.quiet_settle _ m).bind ?_
  rintro ⟨answer, g'⟩ m₁ ⟨hout, hquiet⟩
  obtain ⟨rfl, rfl⟩ := Prod.mk.inj hout
  rw [hready.serve.1, hready.serve.2]
  exact ⟨rfl, hquiet⟩

end Memory

end Group

/-! ## Allocators -/

namespace Allocator

variable {a c : Allocator} {affinity : Affinity} {g h : Group} {size base address : Nat}
  {b : Block}

/-- An allocator in order whose regions are disjoint is `Routed`. -/
lemma Ok.routed (ha : a.Ok) (hapart : a.regions.Pairwise Region.Disjoint) : a.Routed := by
  have hblock : ∀ {affinity key b}, a.block? affinity key = some b → b.base = key ∧ b.Ok := by
    intro affinity key b hb
    obtain ⟨g, hg, hfind⟩ := Option.bind_eq_some_iff.1 hb
    exact (ha.group hg).block hfind
  exact ⟨⟨fun hb => (hblock hb).1, hapart⟩, fun hb => (hblock hb).2⟩

/-! ### Round trips -/

/-- An allocator after a request that its latest block served, as `Group.afterServing` has it. -/
def afterServing (a : Allocator) (affinity : Affinity) (h : Group) (size base : Nat) (b : Block) :
    Allocator :=
  a.setGroup affinity (h.afterServing base (b.allocate size).state)

section Ready

variable (hc : c.Routed) (hfind : c.groups.find? affinity = some h)
  (hready : h.Ready size base b address)

include hc hfind hready

/-- An allocator `afterServing` is `Routed` if it was before. -/
lemma Routed.afterServing : (c.afterServing affinity h size base b).Routed := by
  have hok := hc.books.group hfind
  obtain ⟨hserved, hregions, -⟩ := Group.afterServing_spec hok hready.block size
  obtain ⟨others, others', hbefore, -, hset⟩ := exists_others hfind
  refine (hc.books.setGroup hserved).routed ?_
  rw [(hset _).1, hregions, ← hbefore]
  exact hc.apart

/-- `deallocatePooled` undoes `afterServing`. -/
lemma Routed.deallocate_afterServing {σ : Type} (m : Memory σ) :
    Ends ((c.afterServing affinity h size base b).deallocatePooled address size) m fun out m' =>
      out = (true, c) ∧ m.Quiet m' := by
  have hb : b.Ok := (hc.books.group hfind).block hready.block |>.2
  obtain ⟨hcontains, hrelease⟩ := hb.release_allocate hready.answer
  have hgroup : (c.afterServing affinity h size base b).groups.find? affinity =
      some (h.afterServing base (b.allocate size).state) :=
    (Table.find?_insert ..).trans (if_pos rfl)
  have hblock : (h.afterServing base (b.allocate size).state).blocks.find? base =
      some (b.allocate size).state := (Table.find?_insert ..).trans (if_pos rfl)
  refine ((hc.afterServing hfind hready).deallocatePooled hgroup hblock hcontains size m).mono ?_
  rintro out m' ⟨rfl, hquiet⟩
  refine ⟨?_, hquiet⟩
  -- the block is what it was, the latest block of the group is the one that it was before
  rw [hrelease]
  unfold setBlock Allocator.afterServing
  rw [setGroup_setGroup]
  have hsame : { h.afterServing base (b.allocate size).state with
      blocks := (h.blocks.insert base (b.allocate size).state).insert base b } = h := by
    rw [Table.insert_insert, Table.insert_eq_self hready.block]
    unfold Group.afterServing
    rw [← hready.latest]
  have hset : c.setGroup affinity h = c := by
    unfold setGroup
    rw [Table.insert_eq_self hfind]
  exact congrArg (Prod.mk true) ((congrArg (c.setGroup affinity) hsame).trans hset)

end Ready

section Memory

variable {σ : Type} [System σ]

/-- A request that is served ends `afterServing` from the latest block of a group that it
`Readies`. -/
lemma allocatePooled_readies (a : Allocator) (size : Nat) (affinity : Affinity)
    (m : Memory σ) :
    Ends (a.allocatePooled size affinity) m fun out m' => ∀ address, out.1 = .ok address →
      ∃ h base b, (a.groupFor affinity).Readies size a.tracking m address h m' ∧
        h.Ready size base b address ∧
        out.2 = (a.setGroup affinity h).afterServing affinity h size base b := by
  unfold allocatePooled
  refine ((a.ensureGroup_setGroup affinity m).and (a.ensureGroup_groupFor affinity m)).bind ?_
  rintro ⟨g, a₁⟩ m₁ ⟨⟨htracking, hset⟩, rfl, -, hquiet⟩
  refine (Group.allocate_readies _ size a₁.tracking m₁).bind ?_
  rintro ⟨answer, g'⟩ m₂ hreadies
  have hend : ∀ m', m₂.Quiet m' → ∀ address, answer = .ok address →
      ∃ h base b, (a.groupFor affinity).Readies size a.tracking m address h m' ∧
        h.Ready size base b address ∧
        a₁.setGroup affinity g' = (a.setGroup affinity h).afterServing affinity h size base b := by
    intro m' hquiet' address hanswer
    obtain ⟨h, base, b, hgroup, hready, rfl⟩ := hreadies address hanswer
    rw [htracking] at hgroup
    refine ⟨h, base, b, hgroup.of_quiet hquiet hquiet', hready, ?_⟩
    rw [hset, afterServing, setGroup_setGroup]
  cases answer with
  | ok address => exact (Memory.quiet_noteIf _ _ m₂).bind fun _ m' h => hend m' h
  | error reason => exact (Memory.quiet_note _ m₂).bind fun _ m' h => hend m' h

/-- `allocatePooled` with a group that is `Ready` is answered at once, and asks the system for
nothing. -/
lemma allocatePooled_ready (hfind : c.groups.find? affinity = some h)
    (hready : h.Ready size base b address) (m : Memory σ) :
    Ends (c.allocatePooled size affinity) m fun out m' =>
      out = (.ok address, c.afterServing affinity h size base b) ∧ m.Quiet m' := by
  unfold allocatePooled ensureGroup
  rw [hfind]
  have hgroup : Ends (pure (h, c) : MemoryM σ _) m fun out m' => out = (h, c) ∧ m' = m := ⟨rfl, rfl⟩
  refine hgroup.bind ?_
  rintro _ _ ⟨rfl, rfl⟩
  refine (hready.allocate c.tracking _).bind ?_
  rintro _ m₁ ⟨rfl, hquiet⟩
  exact (Memory.quiet_noteIf _ _ m₁).bind fun _ m' hquiet' => ⟨rfl, hquiet.trans hquiet'⟩

end Memory

/-! ### What is left of a request that was returned -/

/-- An allocator after a request and its return: each `block?` is what it was, and there is at most
one more, which has no `slots`. -/
structure Restored (a c : Allocator) : Prop where
  kept {affinity : Affinity} {key : Nat} {b : Block} :
    a.block? affinity key = some b → c.block? affinity key = some b
  added : ∃ place, ∀ affinity key b, c.block? affinity key = some b →
    a.block? affinity key = some b ∨ (affinity, key) = place ∧ b.slots = []
  others : { c with groups := a.groups } = a
  slots : c.slots = a.slots
  reserved : c.reserved = a.reserved

/-- Storing `groupFor affinity` leaves the allocator `Alike`. -/
lemma Ok.alike_groupFor (ha : a.Ok) (affinity : Affinity) :
    a.Alike (a.setGroup affinity (a.groupFor affinity)) := by
  unfold Allocator.groupFor
  rcases hfind : a.groups.find? affinity with _ | g
  · exact ha.alike_addGroup hfind rfl
  · exact ha.alike_setGroup hfind rfl

variable {σ : Type} [System σ] {m m' : Memory σ}

omit [System σ] in
/-- After `setGroup`, `block?` looks into the new group for its affinity. -/
lemma block?_setGroup (a : Allocator) (affinity : Affinity) (h : Group) (affinity' : Affinity)
    (key : Nat) : (a.setGroup affinity h).block? affinity' key =
      if affinity' = affinity then h.blocks.find? key else a.block? affinity' key := by
  rw [block?_eq, groupFor_setGroup, block?_eq]
  split <;> rfl

/-- Storing a group that a request `Readies` leaves a `Routed` allocator, which is `Restored`. -/
lemma Routed.restored (ha : a.Routed)
    (hnew : m.GrantsNew ((a.groupFor affinity).blockLayout size) a.regions)
    (hreadies : (a.groupFor affinity).Readies size a.tracking m address h m') :
    (a.setGroup affinity h).Routed ∧ a.Restored (a.setGroup affinity h) := by
  have halike := ha.books.alike_groupFor affinity
  have hfind : (a.setGroup affinity (a.groupFor affinity)).groups.find? affinity =
      some (a.groupFor affinity) := (Table.find?_insert ..).trans (if_pos rfl)
  obtain ⟨others, others', hregions, hslots, hset⟩ := exists_others hfind
  obtain ⟨hregions', hslots'⟩ := hset h
  rw [halike.regions] at hregions
  rw [halike.slots] at hslots
  rw [setGroup_setGroup] at hregions' hslots'
  have hnew' : m.GrantsNew ((a.groupFor affinity).blockLayout size)
      (a.groupFor affinity).regions := fun base hbase r hr =>
    hnew base hbase r (hregions ▸ Multiset.mem_add.2 (.inl hr))
  obtain ⟨hgroup, hgrown⟩ := hreadies.restored (halike.ok.group hfind) hnew'
  have hok : (a.setGroup affinity h).Ok := ha.books.setGroup hgroup.ok
  have hsame : (a.setGroup affinity h).slots = a.slots := by rw [hslots', hslots, hgroup.slots]
  refine ⟨hok.routed ?_, ?_, ?_, rfl, hsame, ?_⟩
  · rw [hregions']
    rcases hgrown with hgrown | ⟨base, hplaced, hgrown⟩
    · rw [hgrown, ← hregions]
      exact ha.apart
    · rw [hgrown, Multiset.cons_add, ← hregions]
      obtain ⟨regions, heq, hpairwise⟩ := ha.apart
      refine ⟨_ :: regions, congrArg _ heq, List.pairwise_cons.2 ⟨fun r hr => ?_, hpairwise⟩⟩
      exact (hnew base hplaced r (heq ▸ Multiset.mem_coe.2 hr)).2
  · intro affinity' key b hb
    rw [block?_setGroup]
    split
    · rename_i heq
      rw [heq, block?_eq] at hb
      exact hgroup.kept hb
    · exact hb
  · obtain ⟨place, hplace⟩ := hgroup.added
    refine ⟨(affinity, place), fun affinity' key b hb => ?_⟩
    rw [block?_setGroup] at hb
    split at hb
    · rename_i heq
      rw [heq, block?_eq]
      exact (hplace key b hb).imp_right fun hadded => ⟨by rw [hadded.1], hadded.2⟩
    · exact .inl hb
  · rw [hok.reserved_eq, ha.books.reserved_eq, hsame]

end Allocator

end BlockPool
