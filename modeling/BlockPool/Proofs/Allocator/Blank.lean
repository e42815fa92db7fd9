import BlockPool.Proofs.Allocator.Routing
import BlockPool.Proofs.Past
import BlockPool.Proofs.Tracker.Gaps

/-!
# Allocators without their slots

A block without its slots is the block as it was made. A return leaves an allocator without its
slots as it is, and a request adds a new block to one group at most. So what requests and returns
do apart from the slots is told by the blocks that came, and if the slots are the same as before in
the end, so is every block that was there.
-/

namespace BlockPool

/-! ## Blocks -/

namespace Block

variable {b b' : Block}

/-- A block as if none of its slots were there, with a tracker as `Tracker.new` makes it. -/
def blank (b : Block) : Block := { b with tracker := .new b.layout.size b.tracker.tracking }

/-- `Block.allocate` changes nothing up to `blank`. -/
lemma blank_allocate (b : Block) (size : Nat) : (b.allocate size).state.blank = b.blank := by
  unfold blank allocate
  rw [Tracker.reserve_tracking]

/-- `Block.deallocate` changes nothing up to `blank`. -/
lemma blank_deallocate (b : Block) (address size : Nat) :
    (b.deallocate address size).state.blank = b.blank := by
  unfold blank deallocate
  split
  · rw [Tracker.release_tracking]
  · rfl

lemma blank_fresh (capacity alignment base : Nat) (tracking : Tracking) :
    (fresh capacity alignment base tracking).blank = fresh capacity alignment base tracking := by
  unfold blank fresh
  simp only [Tracker.tracking_new]

lemma blank_slots (b : Block) : b.blank.slots = [] := by
  unfold blank slots
  simp only [Tracker.new, Tracker.addRun_slots]
  rfl

lemma Ok.ok_blank (hb : b.Ok) : b.blank.Ok := by
  have hword : b.layout.size < Word.limit := hb.capacity ▸ hb.inOrder.word
  exact ⟨Tracker.inOrder_new hword _, Tracker.capacity_new ..⟩

/-- Blocks in order are equal if they agree up to `blank` and in their slots. -/
lemma Ok.eq_of_blank (hb : b.Ok) (hb' : b'.Ok) (h : b'.blank = b.blank)
    (hslots : ∀ x, x ∈ b'.slots ↔ x ∈ b.slots) : b' = b := by
  have hparts := h
  simp only [blank, mk.injEq] at hparts
  obtain ⟨hbase, hlayout, halignment, hnew⟩ := hparts
  have hcapacity : b'.tracker.capacity = b.tracker.capacity := by
    rw [hb'.capacity, hb.capacity, hlayout]
  have htracking : b'.tracker.tracking = b.tracker.tracking := by
    simpa only [Tracker.tracking_new] using congrArg Tracker.tracking hnew
  have hholds : ∀ {c : Block} {o l : Nat}, c.base = b.base →
      (c.tracker.Holds false o l ↔ ⟨b.base + o, l⟩ ∈ c.slots) := by
    intro c o l hc
    rw [mem_slots_iff, hc]
    constructor
    · exact fun hold => ⟨o, rfl, hold⟩
    · rintro ⟨o', ho, hold⟩
      rwa [Nat.add_left_cancel ho]
  have htracker : b'.tracker = b.tracker := by
    refine hb'.inOrder.eq_of_slots hb.inOrder hcapacity htracking fun s => ?_
    rw [hb'.inOrder.mem_slotSpans_iff, hb.inOrder.mem_slotSpans_iff]
    refine exists_congr fun l => and_congr ?_ Iff.rfl
    rw [hholds hbase, hholds rfl, hslots]
  obtain ⟨_, _, _, _⟩ := b
  obtain ⟨_, _, _, _⟩ := b'
  simp only [mk.injEq]
  exact ⟨hbase, hlayout, halignment, htracker⟩

/-- A block in order without slots is its own `blank`. -/
lemma Ok.eq_blank (hb : b.Ok) (h : b.slots = []) : b = b.blank := by
  refine hb.ok_blank.eq_of_blank hb ?_ fun x => ?_
  · unfold blank
    simp only [Tracker.tracking_new]
  · rw [h, blank_slots]

end Block

/-! ## Groups -/

namespace Group

variable {g g' g'' : Group} {size : Nat} {tracking : Tracking} {added added' : List Nat}

/-- A group with each of its blocks `blank`. -/
def blank (g : Group) : Group := { g with blocks := g.blocks.mapValues Block.blank }

/-- Looking up a block commutes with `blank`. -/
lemma find?_blank (g : Group) (key : Nat) :
    g.blank.blocks.find? key = (g.blocks.find? key).map Block.blank :=
  Table.find?_mapValues ..

/-- Storing a block that agrees up to `blank` changes nothing up to `blank`. -/
lemma mapValues_blank_insert {key : Nat} {b b' : Block} (hfind : g.blocks.find? key = some b)
    (h : b'.blank = b.blank) :
    (g.blocks.insert key b').mapValues Block.blank = g.blocks.mapValues Block.blank := by
  rw [Table.mapValues_insert, h]
  refine Table.insert_eq_self ?_
  rw [Table.find?_mapValues, hfind]
  rfl

/-- `Group.deallocate` changes nothing up to `blank`. -/
lemma blank_deallocate (g : Group) (address size : Nat) :
    (g.deallocate address size).state.blank = g.blank := by
  unfold deallocate
  rcases howner : g.owner? address with _ | ⟨key, b⟩
  · rfl
  · obtain ⟨hfind, -⟩ := find?_of_owner? howner
    unfold blank
    simp only
    rw [mapValues_blank_insert hfind (b.blank_deallocate address size)]

/-- A group with further blocks `added`, which were made for requests of one size and are empty. All
other blocks are what they were. -/
structure Widens (g : Group) (size : Nat) (tracking : Tracking) (added : List Nat) (g' : Group) :
    Prop where
  name : g'.name = g.name
  blockSize : g'.blockSize = g.blockSize
  alignment : g'.alignment = g.alignment
  /-- The new blocks are at addresses without a block, each of them once. -/
  nodup : added.Nodup
  vacant : ∀ key ∈ added, g.blocks.find? key = none
  blocks (key : Nat) : g'.blocks.find? key =
    if key ∈ added then some (g.newBlock size key tracking) else g.blocks.find? key
  order : g'.order = g.order ++ added
  latest : g'.latest = g.latest ∨ ∃ key b, g'.latest = some key ∧ g'.blocks.find? key = some b

lemma Widens.refl (g : Group) (size : Nat) (tracking : Tracking) :
    g.Widens size tracking [] g where
  name := rfl
  blockSize := rfl
  alignment := rfl
  nodup := .nil
  vacant _ h := absurd h List.not_mem_nil
  blocks _ := rfl
  order := (List.append_nil _).symm
  latest := .inl rfl

/-- Blocks that were there before are the same in a group that `Widens`. -/
lemma Widens.kept (h : g.Widens size tracking added g') {key : Nat} {b : Block}
    (hfind : g.blocks.find? key = some b) : g'.blocks.find? key = some b := by
  have hnot : key ∉ added := fun hmem => by
    rw [h.vacant key hmem] at hfind
    exact absurd hfind (by simp)
  rw [h.blocks, if_neg hnot, hfind]

/-- `Group.Widens` composes, and the blocks added are those of both. -/
lemma Widens.trans (h : g.Widens size tracking added g')
    (h' : g'.Widens size tracking added' g'') : g.Widens size tracking (added ++ added') g'' := by
  have hnew : ∀ key, g'.newBlock size key tracking = g.newBlock size key tracking := by
    intro key
    unfold newBlock
    rw [h.blockSize, h.alignment]
  have hvacant : ∀ key ∈ added', key ∉ added ∧ g.blocks.find? key = none := by
    intro key hkey
    have hnone := h'.vacant key hkey
    rw [h.blocks] at hnone
    split at hnone
    · exact absurd hnone (by simp)
    · exact ⟨by assumption, hnone⟩
  refine ⟨h'.name.trans h.name, h'.blockSize.trans h.blockSize, h'.alignment.trans h.alignment,
    ?_, ?_, ?_, ?_, ?_⟩
  · refine List.nodup_append.2 ⟨h.nodup, h'.nodup, ?_⟩
    rintro key hkey _ hkey' rfl
    exact (hvacant key hkey').1 hkey
  · intro key hkey
    rcases List.mem_append.1 hkey with hkey | hkey
    · exact h.vacant key hkey
    · exact (hvacant key hkey).2
  · intro key
    rw [h'.blocks, h.blocks, hnew]
    simp only [List.mem_append]
    by_cases hkey : key ∈ added <;> by_cases hkey' : key ∈ added' <;> simp [hkey, hkey']
  · rw [h'.order, h.order, List.append_assoc]
  · rcases h'.latest with hsame | hchanged
    · rcases h.latest with hfirst | ⟨key, b, hkey, hfind⟩
      · exact .inl (hsame.trans hfirst)
      · exact .inr ⟨key, b, hsame.trans hkey, h'.kept hfind⟩
    · exact .inr hchanged

/-- `afterServing` adds no block to a group, up to `blank`. -/
lemma blank_afterServing {base : Nat} {b : Block} (hfind : g.blocks.find? base = some b)
    (size : Nat) (tracking : Tracking) :
    g.blank.Widens size tracking [] (g.afterServing base (b.allocate size).state).blank := by
  have hblank : (g.afterServing base (b.allocate size).state).blank =
      { g.blank with latest := some base } := by
    unfold blank afterServing
    simp only
    rw [mapValues_blank_insert hfind (b.blank_allocate size)]
  rw [hblank]
  refine { Widens.refl g.blank size tracking with latest := .inr ⟨base, b.blank, rfl, ?_⟩ }
  show g.blank.blocks.find? base = _
  rw [find?_blank, hfind]
  rfl

/-- `addBlock` with a block that served `Widens` a group by that block, up to `blank`. -/
lemma blank_addBlock {size base : Nat} {tracking : Tracking}
    (hnone : g.blocks.find? base = none) :
    g.blank.Widens size tracking [base]
      (g.addBlock ((g.newBlock size base tracking).allocate size).state).blank := by
  have hnew : ((g.newBlock size base tracking).allocate size).state.blank =
      g.newBlock size base tracking :=
    (Block.blank_allocate _ size).trans (Block.blank_fresh ..)
  have hblank : (g.addBlock ((g.newBlock size base tracking).allocate size).state).blank =
      g.blank.addBlock (g.newBlock size base tracking) := by
    unfold blank addBlock
    simp only
    rw [Table.mapValues_insert, hnew]
    rfl
  have hblocks : ∀ key, (g.blank.addBlock (g.newBlock size base tracking)).blocks.find? key =
      if key = base then some (g.newBlock size base tracking) else g.blank.blocks.find? key :=
    fun key => Table.find?_insert ..
  rw [hblank]
  refine ⟨rfl, rfl, rfl, List.nodup_singleton base, ?_, ?_, rfl,
    .inr ⟨base, g.newBlock size base tracking, rfl, ?_⟩⟩
  · intro key hkey
    rw [List.mem_singleton.1 hkey, find?_blank, hnone]
    rfl
  · intro key
    rw [hblocks]
    simp only [List.mem_singleton]
    by_cases hkey : key = base
    · rw [if_pos hkey, if_pos hkey, hkey]
      rfl
    · rw [if_neg hkey, if_neg hkey]
  · rw [hblocks, if_pos rfl]

/-- From `Widens` up to `blank` to `Widens`: the slots of old blocks must be the same, and new
blocks have none. -/
lemma Widens.of_blank (h : g.blank.Widens size tracking added g'.blank)
    (hok : ∀ key b, g.blocks.find? key = some b → b.Ok)
    (hok' : ∀ key b', g'.blocks.find? key = some b' → b'.Ok)
    (hsame : ∀ key b b', g.blocks.find? key = some b → g'.blocks.find? key = some b' →
      ∀ x, x ∈ b'.slots ↔ x ∈ b.slots)
    (hnew : ∀ key b', g.blocks.find? key = none → g'.blocks.find? key = some b' →
      b'.slots = []) :
    g.Widens size tracking added g' := by
  have hvacant : ∀ key ∈ added, g.blocks.find? key = none := by
    intro key hkey
    have hnone := h.vacant key hkey
    rwa [find?_blank, Option.map_eq_none_iff] at hnone
  refine ⟨h.name, h.blockSize, h.alignment, h.nodup, hvacant, fun key => ?_, h.order, ?_⟩
  · have hblocks := h.blocks key
    rw [find?_blank, find?_blank] at hblocks
    split at hblocks
    · rename_i hkey
      obtain ⟨b', hfind', hblank⟩ := Option.map_eq_some_iff.1 hblocks
      have hslots := hnew key b' (hvacant key hkey) hfind'
      rw [if_pos hkey, hfind', (hok' key b' hfind').eq_blank hslots, hblank]
      rfl
    · rename_i hkey
      rw [if_neg hkey]
      rcases hfind : g.blocks.find? key with _ | b
      · rw [hfind] at hblocks
        exact Option.map_eq_none_iff.1 hblocks
      · rw [hfind] at hblocks
        obtain ⟨b', hfind', hblank⟩ := Option.map_eq_some_iff.1 hblocks
        rw [hfind', (hok key b hfind).eq_of_blank (hok' key b' hfind') hblank
          (hsame key b b' hfind hfind')]
  · rcases h.latest with hlatest | ⟨key, b, hlatest, hfind⟩
    · exact .inl hlatest
    · rw [find?_blank] at hfind
      obtain ⟨b', hfind', -⟩ := Option.map_eq_some_iff.1 hfind
      exact .inr ⟨key, b', hlatest, hfind'⟩

/-- Groups in order are equal if they agree up to `blank` and in the slots of every block. -/
lemma eq_of_blank (h : g'.blank = g.blank)
    (hok : ∀ key b, g.blocks.find? key = some b → b.Ok)
    (hok' : ∀ key b', g'.blocks.find? key = some b' → b'.Ok)
    (hsame : ∀ key b b', g.blocks.find? key = some b → g'.blocks.find? key = some b' →
      ∀ x, x ∈ b'.slots ↔ x ∈ b.slots) : g' = g := by
  have hblocks : g'.blocks = g.blocks := by
    refine Table.eq_of_find?_eq fun key => ?_
    have hmap : (g'.blocks.find? key).map Block.blank = (g.blocks.find? key).map Block.blank := by
      rw [← find?_blank, h, find?_blank]
    rcases hfind : g.blocks.find? key with _ | b
    · rw [hfind] at hmap
      exact Option.map_eq_none_iff.1 hmap
    · rw [hfind] at hmap
      obtain ⟨b', hfind', hblank⟩ := Option.map_eq_some_iff.1 hmap
      rw [hfind', (hok key b hfind).eq_of_blank (hok' key b' hfind') hblank
        (hsame key b b' hfind hfind')]
  have hparts := h
  simp only [blank, mk.injEq] at hparts
  obtain ⟨hname, hblockSize, halignment, -, horder, hlatest⟩ := hparts
  obtain ⟨_, _, _, _, _, _⟩ := g
  obtain ⟨_, _, _, _, _, _⟩ := g'
  simp only [mk.injEq]
  exact ⟨hname, hblockSize, halignment, hblocks, horder, hlatest⟩

/-! ### Requests to a group -/

section Memory

variable {σ : Type} [System σ] {m : Memory σ} {held : Multiset Region}

/-- A block that `Serving` adds is at an address where none is stored. -/
lemma Serving.fresh {base : Nat} {b : Block}
    (h : g.Serving size (.ok base) (g.addBlock b)) : g.blocks.find? b.base = none := by
  generalize hafter : g.addBlock b = g' at h
  have horder : g'.order = g.order ++ [b.base] := hafter ▸ rfl
  cases h with
  | old hfind hanswer =>
    have horder : g.order = g.order ++ [b.base] := horder
    exact absurd (congrArg List.length horder) (by simp)
  | new hnone hok haligned hslots =>
    have horder : g.order ++ [_] = g.order ++ [b.base] := horder
    rwa [← List.singleton_inj.1 (List.append_cancel_left horder)]

/-- A request that is served `Widens` a group by at most one block, at the address answered, up to
`blank`. -/
lemma allocate_widens [LawfulSystem σ] (hg : g.Ok) (h : m.Keeps (g.regions + held)) (size : Nat)
    (tracking : Tracking) :
    Ends (g.allocate size tracking) m fun out _ => ∀ address, out.1 = .ok address →
      ∃ added, g.blank.Widens size tracking added out.2.blank ∧ ∀ base ∈ added, base = address := by
  have hserving := allocate_serving hg h size tracking
  refine ((allocate_answering (promises_true σ) g size tracking m).and hserving).mono ?_
  rintro ⟨answer, g'⟩ m' ⟨hanswering, hserving, -⟩ address rfl
  cases hanswering with
  | old hfind hanswer =>
    exact ⟨[], blank_afterServing hfind size tracking, fun base h => absurd h List.not_mem_nil⟩
  | new hmade hanswer =>
    exact ⟨[address], blank_addBlock hserving.fresh, fun base h => List.mem_singleton.1 h⟩

/-- A request that fails leaves a group as it is, with the error of `grow`. -/
lemma allocate_failed (g : Group) (size : Nat) (tracking : Tracking) (m : Memory σ) :
    Ends (g.allocate size tracking) m fun out _ => ∀ reason, out.1 = .error reason →
      out.2 = g ∧ (g.grow size tracking m).1 = (.error reason, g) := by
  unfold allocate
  refine (Memory.quiet_settle _ m).bind ?_
  rintro ⟨answer, g'⟩ m₁ ⟨hout, hquiet⟩
  obtain ⟨rfl, rfl⟩ := Prod.mk.inj hout
  unfold serve
  rcases g.serveFrom_cases size g.searchOrder with ⟨hanswer, hstate⟩ |
    ⟨base, b, address, -, -, hanswer, -⟩
  · rw [hanswer, hstate]
    have hmade := grow_made (promises_true σ) g size tracking m₁
    unfold Ends at hmade
    intro reason hreason
    rcases hmade with ⟨reason', hend⟩ | ⟨base, -, -, hend⟩
    · rw [hend] at hreason
      obtain rfl := Except.error.inj hreason
      have hsame := (g.plain_grow size tracking).oblivious.answer_eq hquiet.system hquiet.live
      exact ⟨congrArg Prod.snd hend, hsame.symm.trans hend⟩
    · rw [hend] at hreason
      exact absurd hreason (by simp)
  · rw [hanswer]
    intro reason hreason
    have hreason : (.ok address : Except AllocationError Nat) = .error reason := hreason
    exact absurd hreason (by simp)

end Memory

end Group

/-! ## Allocators -/

/-- Of two values stored under one key, the later one stays. -/
lemma Table.insert_insert {κ α : Type} [KeyOrder κ] [DecidableEq κ] (t : Table κ α) (key : κ)
    (value value' : α) : (t.insert key value).insert key value' = t.insert key value' := by
  refine Table.eq_of_find?_eq fun key' => ?_
  rw [Table.find?_insert, Table.find?_insert, Table.find?_insert]
  split <;> rfl

namespace Allocator

variable {a a' a'' : Allocator} {size : Nat} {affinity : Affinity} {returned returned' : Nat → Prop}

/-- An allocator with each of its groups `blank`. -/
def blank (a : Allocator) : Allocator := { a with groups := a.groups.mapValues Group.blank }

lemma blank_setGroup (a : Allocator) (affinity : Affinity) (g : Group) :
    (a.setGroup affinity g).blank = a.blank.setGroup affinity g.blank := by
  unfold blank setGroup
  simp only
  rw [Table.mapValues_insert]

/-- `groupFor` commutes with `blank`. -/
lemma groupFor_blank (a : Allocator) (affinity : Affinity) :
    a.blank.groupFor affinity = (a.groupFor affinity).blank := by
  unfold blank groupFor
  rw [Table.find?_mapValues]
  cases a.groups.find? affinity <;> rfl

lemma setGroup_setGroup (a : Allocator) (affinity : Affinity) (g g' : Group) :
    (a.setGroup affinity g).setGroup affinity g' = a.setGroup affinity g' := by
  unfold setGroup
  simp only [Table.insert_insert]

/-- `deallocatePooled` changes nothing up to `blank`. -/
lemma blank_deallocatePooled {σ : Type} (a : Allocator) (address size : Nat) (m : Memory σ) :
    Ends (a.deallocatePooled address size) m fun out _ => out.2.blank = a.blank := by
  unfold deallocatePooled
  split
  · rfl
  · rename_i affinity g howner
    refine (Memory.ends_settle m _).bind ?_
    rintro ⟨known, g'⟩ m₁ hout
    obtain ⟨-, rfl⟩ := Prod.mk.inj hout
    refine Ends.trivial.bind fun _ _ _ => ?_
    show (a.setGroup affinity (g.deallocate address size).state).blank = a.blank
    rw [blank_setGroup, Group.blank_deallocate]
    unfold setGroup
    rw [Table.insert_eq_self]
    show (a.groups.mapValues Group.blank).find? affinity = some g.blank
    rw [Table.find?_mapValues, (find?_of_owner? howner).1]
    rfl

/-- An allocator with further blocks of one affinity, as `Group.Widens` says, all of them at
addresses that are `returned`. The group of the affinity may be new. -/
def Widens (a : Allocator) (size : Nat) (affinity : Affinity) (returned : Nat → Prop)
    (a' : Allocator) : Prop :=
  a' = a ∨ ∃ added g', a' = a.setGroup affinity g' ∧
    (a.groupFor affinity).Widens size a.tracking added g' ∧ ∀ base ∈ added, returned base

lemma Widens.mono (h : a.Widens size affinity returned a')
    (hreturned : ∀ base, returned base → returned' base) :
    a.Widens size affinity returned' a' := by
  rcases h with rfl | ⟨added, g', hset, hwidens, hadded⟩
  · exact .inl rfl
  · exact .inr ⟨added, g', hset, hwidens, fun base hbase => hreturned base (hadded base hbase)⟩

/-- `Allocator.Widens` is transitive. -/
lemma Widens.trans (h : a.Widens size affinity returned a')
    (h' : a'.Widens size affinity returned a'') : a.Widens size affinity returned a'' := by
  rcases h with rfl | ⟨added, g', rfl, hwidens, hadded⟩
  · exact h'
  · rcases h' with rfl | ⟨added', g'', rfl, hwidens', hadded'⟩
    · exact .inr ⟨added, g', rfl, hwidens, hadded⟩
    · rw [groupFor_setGroup, if_pos rfl] at hwidens'
      refine .inr ⟨added ++ added', g'', setGroup_setGroup .., hwidens.trans hwidens', ?_⟩
      intro base hbase
      rcases List.mem_append.1 hbase with hbase | hbase
      · exact hadded base hbase
      · exact hadded' base hbase

/-- Storing `groupFor affinity` adds no block. -/
lemma widens_groupFor (a : Allocator) (size : Nat) (affinity : Affinity)
    (returned : Nat → Prop) :
    a.Widens size affinity returned (a.setGroup affinity (a.groupFor affinity)) :=
  .inr ⟨[], _, rfl, .refl .., fun _ h => absurd h List.not_mem_nil⟩

section Memory

variable {σ : Type} [System σ] {m : Memory σ} {held : Multiset Region}

omit [System σ] in
/-- After `ensureGroup`, `setGroup` has the result that it had before. -/
lemma ensureGroup_setGroup (a : Allocator) (affinity : Affinity) (m : Memory σ) :
    Ends (a.ensureGroup affinity) m fun out _ => out.2.tracking = a.tracking ∧
      ∀ g, out.2.setGroup affinity g = a.setGroup affinity g := by
  unfold ensureGroup
  split
  · exact ⟨rfl, fun _ => rfl⟩
  · exact Ends.trivial.bind fun _ _ _ => ⟨rfl, fun g => setGroup_setGroup a affinity _ g⟩

/-- A request that is served `Widens` an allocator by at most one block, at the address answered, up
to `blank`. -/
lemma allocatePooled_widens [LawfulSystem σ] (ha : a.Ok) (h : m.Keeps (a.regions + held))
    (size : Nat) (affinity : Affinity) :
    Ends (a.allocatePooled size affinity) m fun out _ => ∀ address, out.1 = .ok address →
      a.blank.Widens size affinity (· = address) out.2.blank := by
  unfold allocatePooled
  refine ((a.ensureGroup_setGroup affinity m).and ((a.ensureGroup_groupFor affinity m).and
    (ensureGroup_spec ha h affinity))).bind ?_
  rintro ⟨g, a₁⟩ m₁ ⟨⟨htracking, hset⟩, ⟨rfl, -, -⟩, hfind, halike, h₁⟩
  obtain ⟨others, -, hregions, -, -⟩ := exists_others hfind
  rw [← halike.regions, hregions, Multiset.add_assoc] at h₁
  refine (Group.allocate_widens (halike.ok.group hfind) h₁ size a₁.tracking).bind ?_
  rintro ⟨answer, g'⟩ m₂ hwidens
  have hend : ∀ address, answer = .ok address →
      a.blank.Widens size affinity (· = address) (a₁.setGroup affinity g').blank := by
    intro address hanswer
    obtain ⟨added, hwidens, hadded⟩ := hwidens address hanswer
    rw [hset, blank_setGroup]
    refine .inr ⟨added, g'.blank, rfl, ?_, hadded⟩
    rw [groupFor_blank]
    exact htracking ▸ hwidens
  cases answer with
  | ok address => exact Ends.trivial.bind fun _ _ _ => hend
  | error reason => exact Ends.trivial.bind fun _ _ _ => hend

/-- The group of an affinity cannot `grow` for a request, for some `reason`. -/
def Refuses (a : Allocator) (size : Nat) (affinity : Affinity) (reason : AllocationError)
    (m : Memory σ) : Prop :=
  ((a.groupFor affinity).grow size a.tracking m).1 = (.error reason, a.groupFor affinity)

/-- `Refuses` depends on the system and its live regions only, not on the log. -/
lemma refuses_congr {a : Allocator} {reason : AllocationError} {m m' : Memory σ}
    (hsystem : m'.system = m.system) (hlive : m'.live = m.live) :
    a.Refuses size affinity reason m' ↔ a.Refuses size affinity reason m := by
  unfold Refuses
  rw [((a.groupFor affinity).plain_grow size a.tracking).oblivious.answer_eq hsystem hlive]

/-- A request that fails at most stores `groupFor affinity`, and the allocator `Refuses` it. -/
lemma allocatePooled_failed (a : Allocator) (size : Nat) (affinity : Affinity) (m : Memory σ) :
    Ends (a.allocatePooled size affinity) m fun out _ => ∀ reason, out.1 = .error reason →
      out.2 = a.setGroup affinity (a.groupFor affinity) ∧ a.Refuses size affinity reason m := by
  unfold allocatePooled
  refine ((a.ensureGroup_setGroup affinity m).and (a.ensureGroup_groupFor affinity m)).bind ?_
  rintro ⟨g, a₁⟩ m₁ ⟨⟨htracking, hset⟩, rfl, -, hquiet⟩
  refine (Group.allocate_failed _ size a₁.tracking m₁).bind ?_
  rintro ⟨answer, g'⟩ m₂ hfailed
  have hend : ∀ reason, answer = .error reason → a₁.setGroup affinity g' =
      a.setGroup affinity (a.groupFor affinity) ∧ a.Refuses size affinity reason m := by
    intro reason hreason
    obtain ⟨rfl, hgrow⟩ := hfailed reason hreason
    rw [htracking] at hgrow
    exact ⟨hset _, (refuses_congr hquiet.system hquiet.live).1 hgrow⟩
  cases answer with
  | ok address => exact Ends.trivial.bind fun _ _ _ => hend
  | error reason => exact Ends.trivial.bind fun _ _ _ => hend

end Memory

/-! ### The same slots -/

lemma find?_blank (a : Allocator) (affinity : Affinity) :
    a.blank.groups.find? affinity = (a.groups.find? affinity).map Group.blank :=
  Table.find?_mapValues ..

/-- `block?` commutes with `blank`. -/
lemma block?_blank (a : Allocator) (affinity : Affinity) (key : Nat) :
    a.blank.block? affinity key = (a.block? affinity key).map Block.blank := by
  rw [block?_eq, block?_eq, groupFor_blank, Group.find?_blank]

/-- The slots of `a.slots` are those of the blocks that `block?` finds. -/
lemma mem_slots_iff_block? {x : Extent} :
    x ∈ a.slots ↔ ∃ affinity key b, a.block? affinity key = some b ∧ x ∈ b.slots := by
  rw [mem_slots_iff]
  constructor
  · rintro ⟨affinity, g, hg, hx⟩
    obtain ⟨key, b, hfind, hx⟩ := Group.mem_slots_iff.1 hx
    exact ⟨affinity, key, b, (block?_of_find? hg key).trans hfind, hx⟩
  · rintro ⟨affinity, key, b, hb, hx⟩
    obtain ⟨g, hg, hfind⟩ := Option.bind_eq_some_iff.1 hb
    exact ⟨affinity, g, hg, Group.mem_slots_iff.2 ⟨key, b, hfind, hx⟩⟩

/-- Blocks that were there before are the same in an allocator that `Widens`. -/
lemma Widens.block?_eq_some (h : a.Widens size affinity returned a') {affinity' : Affinity}
    {key : Nat} {b : Block} (hb : a.block? affinity' key = some b) :
    a'.block? affinity' key = some b := by
  rcases h with rfl | ⟨added, g', rfl, hwidens, -⟩
  · exact hb
  · rw [block?_eq] at hb
    rw [block?_eq, groupFor_setGroup]
    split
    · rename_i heq
      exact hwidens.kept (heq ▸ hb)
    · exact hb

section Slots

variable (h : a.blank.Widens size affinity returned a'.blank) (ha : a.Routed) (ha' : a'.Routed)
  (hslots : ∀ x, x ∈ a'.slots ↔ x ∈ a.slots)

include h in
lemma Widens.exists_block {affinity' : Affinity} {key : Nat} {b : Block}
    (hb : a.block? affinity' key = some b) :
    ∃ b', a'.block? affinity' key = some b' ∧ b'.blank = b.blank := by
  have hblank : a.blank.block? affinity' key = some b.blank := by
    rw [block?_blank, hb]
    rfl
  have hblank' := h.block?_eq_some hblank
  rw [block?_blank] at hblank'
  exact Option.map_eq_some_iff.1 hblank'

include h ha ha' hslots in
/-- If `a.slots` and `a'.slots` are the same, so are the slots of each block, since no two blocks
share an address. -/
lemma Widens.mem_block_slots {affinity' : Affinity} {key : Nat} {b' : Block}
    (hb' : a'.block? affinity' key = some b') (x : Extent) :
    x ∈ b'.slots ↔ ∃ b, a.block? affinity' key = some b ∧ x ∈ b.slots := by
  -- a block keeps its region, so the one that has the slot afterwards is where it was before
  have hcontains : ∀ {b c : Block} {address : Nat}, c.blank = b.blank →
      b.contains address = true → c.contains address = true := by
    intro b c address hblank hin
    have hregion : c.region = b.region :=
      (congrArg Block.region hblank : c.blank.region = b.blank.region)
    unfold Block.contains at hin ⊢
    rwa [hregion]
  constructor
  · intro hx
    have hmem : x ∈ a.slots := (hslots x).1 (mem_slots_iff_block?.2 ⟨affinity', key, b', hb', hx⟩)
    obtain ⟨affinity₁, key₁, c, hc, hx₁⟩ := mem_slots_iff_block?.1 hmem
    obtain ⟨c', hc', hblank⟩ := Widens.exists_block h hc
    obtain ⟨rfl, rfl⟩ := ha'.place_unique hb' ((ha'.ok hb').contains_slot hx) hc'
      (hcontains hblank ((ha.ok hc).contains_slot hx₁))
    exact ⟨c, hc, hx₁⟩
  · rintro ⟨b, hb, hx⟩
    have hmem : x ∈ a'.slots := (hslots x).2 (mem_slots_iff_block?.2 ⟨affinity', key, b, hb, hx⟩)
    obtain ⟨affinity₁, key₁, c', hc', hx₁⟩ := mem_slots_iff_block?.1 hmem
    obtain ⟨b'', hb'', hblank⟩ := Widens.exists_block h hb
    obtain rfl := Option.some.inj (hb''.symm.trans hb')
    obtain ⟨rfl, rfl⟩ := ha'.place_unique hb' (hcontains hblank ((ha.ok hb).contains_slot hx)) hc'
      ((ha'.ok hc').contains_slot hx₁)
    rwa [Option.some.inj (hb'.symm.trans hc')]

include h ha ha' hslots in
lemma Widens.groups_eq_of_blank {affinity' : Affinity}
    (hblank : a'.blank.groups.find? affinity' = a.blank.groups.find? affinity') :
    a'.groups.find? affinity' = a.groups.find? affinity' := by
  rw [find?_blank, find?_blank] at hblank
  rcases hg : a.groups.find? affinity' with _ | g
  · rw [hg] at hblank
    exact Option.map_eq_none_iff.1 hblank
  · rw [hg] at hblank
    obtain ⟨g', hg', hsame⟩ := Option.map_eq_some_iff.1 hblank
    rw [hg', Group.eq_of_blank hsame]
    · exact fun key b hfind => ha.ok ((block?_of_find? hg key).trans hfind)
    · exact fun key b' hfind => ha'.ok ((block?_of_find? hg' key).trans hfind)
    · intro key b b' hfind hfind' x
      rw [Widens.mem_block_slots h ha ha' hslots ((block?_of_find? hg' key).trans hfind') x,
        block?_of_find? hg, hfind]
      simp

/-- Allocators with the same `groups` are equal if they agree up to `blank`. -/
lemma eq_of_groups_eq (hblank : a'.blank = a.blank) (hgroups : a'.groups = a.groups) :
    a' = a := by
  simp only [blank, mk.injEq] at hblank
  obtain ⟨-, hrest⟩ := hblank
  obtain ⟨_, _, _, _, _, _, _⟩ := a
  obtain ⟨_, _, _, _, _, _, _⟩ := a'
  simp only [mk.injEq]
  exact ⟨hgroups, hrest⟩

include ha ha' hslots in
/-- Allocators are equal if they agree up to `blank` and in their slots. -/
lemma eq_of_blank (hblank : a'.blank = a.blank) : a' = a := by
  have hwidens : a.blank.Widens 0 default (fun _ => False) a'.blank := .inl hblank
  refine eq_of_groups_eq hblank (Table.eq_of_find?_eq fun affinity => ?_)
  exact Widens.groups_eq_of_blank hwidens ha ha' hslots (by rw [hblank])

include h ha ha' hslots in
/-- From `Widens` up to `blank` to `Widens`, if the slots are the same in the end. -/
lemma Widens.of_blank : a.Widens size affinity returned a' := by
  have hwidens := h
  rcases hwidens with hblank | ⟨added, g, hblank, hwidens, hadded⟩
  · exact .inl (eq_of_blank ha ha' hslots hblank)
  · have hfind : a'.blank.groups.find? affinity = some g := by
      rw [hblank]
      exact (Table.find?_insert ..).trans (if_pos rfl)
    rw [find?_blank] at hfind
    obtain ⟨g', hg', rfl⟩ := Option.map_eq_some_iff.1 hfind
    rw [groupFor_blank] at hwidens
    refine .inr ⟨added, g', eq_of_groups_eq ?_ (Table.eq_of_find?_eq fun affinity' => ?_), ?_,
      hadded⟩
    · rw [hblank, blank_setGroup]
    · show a'.groups.find? affinity' = (a.groups.insert affinity g').find? affinity'
      rw [Table.find?_insert]
      split
      · rename_i heq
        rw [heq, hg']
      · rename_i hne
        refine Widens.groups_eq_of_blank h ha ha' hslots ?_
        rw [hblank]
        exact (Table.find?_insert ..).trans (if_neg hne)
    · have hblock : ∀ key, a.block? affinity key = (a.groupFor affinity).blocks.find? key :=
        a.block?_eq affinity
      have hblock' : ∀ key, a'.block? affinity key = g'.blocks.find? key := block?_of_find? hg'
      have hmem : ∀ {key b'}, a'.block? affinity key = some b' → ∀ x, x ∈ b'.slots ↔
          ∃ b, a.block? affinity key = some b ∧ x ∈ b.slots :=
        fun hb' => Widens.mem_block_slots h ha ha' hslots hb'
      refine hwidens.of_blank (fun key b hfind => ha.ok ((hblock key).trans hfind))
        (fun key b' hfind => ha'.ok ((hblock' key).trans hfind)) ?_ ?_
      · intro key b b' hfind hfind' x
        rw [hmem ((hblock' key).trans hfind') x, hblock, hfind]
        simp
      · intro key b' hnone hfind'
        refine List.eq_nil_iff_forall_not_mem.2 fun x hx => ?_
        obtain ⟨b, hb, -⟩ := (hmem ((hblock' key).trans hfind') x).1 hx
        rw [hblock, hnone] at hb
        exact absurd hb (by simp)

end Slots

end Allocator

end BlockPool
