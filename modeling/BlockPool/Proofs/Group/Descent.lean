import BlockPool.Proofs.Group
import BlockPool.Proofs.Tracker.SelfCheck

/-!
# Where blocks come from

A block that a group has after a request or a return was there before, or it is new. One that was
there has kept its memory and its alignment, and its books have gone through some actions. A new
one has the alignment that the group asks for at that time, and memory that a system placed.

Nothing is assumed about the system but what is named as its promise, so that all of this holds
even where memory is handed out twice.
-/

namespace BlockPool

/-- What `System.place` promises of every region that it hands out: `places` holds of it. -/
def Promises (σ : Type) [System σ] (places : Region → Prop) : Prop :=
  ∀ (s s' : σ) (live : List Region) (source : Source) (layout : Layout) (start : Nat),
    System.place s live source layout = (some start, s') → places ⟨source, start, layout⟩

lemma promises_true (σ : Type) [System σ] : Promises σ fun _ => True :=
  fun _ _ _ _ _ _ _ => trivial

/-- A region starts at a multiple of the alignment of its layout. -/
def Region.IsAligned (r : Region) : Prop := r.layout.alignment ∣ r.start

/-- A lawful system hands out regions that are `IsAligned`. -/
lemma promises_isAligned (σ : Type) [System σ] [LawfulSystem σ] :
    Promises σ Region.IsAligned :=
  fun _ _ _ _ _ _ hplace => Nat.dvd_of_mod_eq_zero (LawfulSystem.place_lawful hplace).2.1

/-! ## Blocks -/

/-- `Tracker.run` over two lists of steps is one run after the other. -/
lemma Tracker.run_append (t : Tracker) (steps steps' : List Tracker.Step) :
    t.run (steps ++ steps') = (t.run steps).run steps' :=
  List.foldl_append

namespace Block

variable {b b' b'' : Block}

/-- The block `b'` is `b` after some `Tracker.run` on its books. -/
structure Becomes (b b' : Block) : Prop where
  base : b'.base = b.base
  layout : b'.layout = b.layout
  alignment : b'.alignment = b.alignment
  books : ∃ steps, b'.tracker = b.tracker.run steps

/-- A block as `fresh` makes it, in a region of which `places` holds, after some `Tracker.run` on
its books. -/
structure Made (places : Region → Prop) (alignment : Nat) (b : Block) : Prop where
  alignment : b.alignment = max alignment 1
  power : b.alignment.isPowerOfTwo
  layout : b.layout.alignment = max b.alignment minimumAlignment
  word : b.layout.size < Word.limit
  placed : places b.region
  books : ∃ tracking steps, b.tracker = (Tracker.new b.layout.size tracking).run steps

lemma Becomes.refl (b : Block) : b.Becomes b := ⟨rfl, rfl, rfl, [], rfl⟩

/-- `Becomes` is transitive. -/
lemma Becomes.trans (h : b.Becomes b') (h' : b'.Becomes b'') : b.Becomes b'' := by
  obtain ⟨steps, hsteps⟩ := h.books
  obtain ⟨steps', hsteps'⟩ := h'.books
  refine ⟨h'.base.trans h.base, h'.layout.trans h.layout, h'.alignment.trans h.alignment,
    steps ++ steps', ?_⟩
  rw [hsteps', hsteps, Tracker.run_append]

/-- A block keeps its `region` in what it `Becomes`. -/
lemma Becomes.region (h : b.Becomes b') : b'.region = b.region := by
  unfold Block.region
  rw [h.base, h.layout]

/-- `allocate` is an action on the books of a block. -/
lemma becomes_allocate (b : Block) (size : Nat) : b.Becomes (b.allocate size).state :=
  ⟨rfl, rfl, rfl, [.reserve size b.alignment], rfl⟩

/-- `deallocate` is an action on the books of a block. -/
lemma becomes_deallocate (b : Block) (address size : Nat) :
    b.Becomes (b.deallocate address size).state := by
  unfold Block.deallocate
  split
  · exact ⟨rfl, rfl, rfl, [.release (address - b.base) size], rfl⟩
  · exact .refl b

lemma becomes_setTracking (b : Block) (tracking : Tracking) :
    b.Becomes (b.setTracking tracking) :=
  ⟨rfl, rfl, rfl, [.setTracking tracking], rfl⟩

/-- `Block.Ok` survives whatever a block `Becomes`. -/
lemma Becomes.ok (h : b.Becomes b') (hb : b.Ok) : b'.Ok := by
  obtain ⟨steps, hsteps⟩ := h.books
  refine ⟨?_, ?_⟩
  · rw [hsteps]
    exact Tracker.inOrder_run hb.inOrder steps
  · rw [hsteps, Tracker.capacity_run hb.inOrder, hb.capacity, h.layout]

variable {places : Region → Prop} {alignment : Nat}

/-- A `Made` block is still `Made` after actions on its books. -/
lemma Made.becomes (h : b.Made places alignment) (h' : b.Becomes b') :
    b'.Made places alignment := by
  obtain ⟨tracking, steps, hsteps⟩ := h.books
  obtain ⟨steps', hsteps'⟩ := h'.books
  refine ⟨h'.alignment.trans h.alignment, ?_, ?_, ?_, ?_, tracking, steps ++ steps', ?_⟩
  · rw [h'.alignment]
    exact h.power
  · rw [h'.layout, h'.alignment, h.layout]
  · rw [h'.layout]
    exact h.word
  · rw [h'.region]
    exact h.placed
  · rw [hsteps', hsteps, h'.layout, Tracker.run_append]

/-- A `Made` block is in order. -/
lemma Made.ok (h : b.Made places alignment) : b.Ok := by
  obtain ⟨tracking, steps, hsteps⟩ := h.books
  have hnew := Tracker.inOrder_new h.word tracking
  refine ⟨?_, ?_⟩
  · rw [hsteps]
    exact Tracker.inOrder_run hnew steps
  · rw [hsteps, Tracker.capacity_run hnew, Tracker.capacity_new]

/-- A block made in memory that `IsAligned` starts at a multiple of `b.alignment`. -/
lemma Made.dvd_base (h : b.Made Region.IsAligned alignment) : b.alignment ∣ b.base := by
  have hplaced : b.layout.alignment ∣ b.base := h.placed
  rw [h.layout] at hplaced
  exact (dvd_max_minimumAlignment h.power).trans hplaced

/-- Where a block under `key` comes from: it `Becomes` what `old` was, or it is new and `Made`. -/
def ComesFrom (places : Region → Prop) (alignment key : Nat) (old : Option Block) (b' : Block) :
    Prop :=
  (∃ b ∈ old, b.Becomes b') ∨ b'.base = key ∧ b'.Made places alignment

variable {key : Nat} {old : Option Block}

/-- `ComesFrom` survives further actions on the books of the block. -/
lemma ComesFrom.becomes (h : ComesFrom places alignment key old b) (h' : b.Becomes b') :
    ComesFrom places alignment key old b' := by
  rcases h with ⟨c, hc, hbecomes⟩ | ⟨hkey, hmade⟩
  · exact .inl ⟨c, hc, hbecomes.trans h'⟩
  · exact .inr ⟨h'.base.trans hkey, hmade.becomes h'⟩

lemma comesFrom_self (b : Block) : ComesFrom places alignment key (some b) b :=
  .inl ⟨b, rfl, .refl b⟩

/-- A block in memory that was requested with `layoutFor`. -/
def fresh (capacity alignment base : Nat) (tracking : Tracking) : Block :=
  let layout := layoutFor capacity (max alignment 1)
  { base, layout, alignment := max alignment 1, tracker := .new layout.size tracking }

/-- A block that is `fresh` serves a request of at most its capacity at its base. -/
lemma allocate_fresh {size capacity base : Nat} {tracking : Tracking}
    (hmade : (fresh capacity alignment base tracking).Made places alignment)
    (hsize : size ≤ capacity) :
    ((fresh capacity alignment base tracking).allocate size).answer = some base := by
  have hpower : (max (max alignment 1) 1).isPowerOfTwo := by
    rw [Nat.max_assoc, Nat.max_self]
    exact hmade.power
  have hroom : Tracker.slotSize size ≤ (layoutFor capacity (max alignment 1)).size := by
    show max size 1 ≤ max capacity 1
    omega
  have hreserve := Tracker.reserve_new tracking hpower hroom hmade.word
  show Option.map (base + ·) _ = _
  exact (congrArg _ hreserve).trans rfl

/-- A block answered by `obtain` is `fresh` at the address granted, and it is `Made`. -/
lemma obtain_made {σ : Type} [System σ] (hplaces : Promises σ places)
    (capacity alignment : Nat) (tracking : Tracking) (m : Memory σ) :
    Ends (obtain capacity alignment tracking) m fun answer _ => match answer with
      | .error _ => True
      | .ok b =>
        b.Made places alignment ∧ ∃ base, b = fresh capacity alignment base tracking := by
  unfold obtain
  simp only
  split
  · trivial
  · rename_i hpower
    split
    · trivial
    · rename_i hvalid
      have hplaced : Ends (Memory.request .sized (layoutFor capacity (max alignment 1))) m
          fun answer _ => ∀ base, answer = some base →
            places ⟨.sized, base, layoutFor capacity (max alignment 1)⟩ :=
        fun base hbase => hplaces _ _ _ _ _ _ (Prod.ext hbase rfl)
      refine hplaced.bind fun answer m₁ h₁ => ?_
      cases answer with
      | none => trivial
      | some base =>
        have hword := (not_not.1 hvalid).size_lt
        refine Ends.trivial.bind fun _ _ _ => ?_
        exact ⟨⟨rfl, not_not.1 hpower, rfl, hword, h₁ base rfl, tracking, [], rfl⟩, base, rfl⟩

end Block

/-! ## Groups -/

namespace Group

variable {g g' : Group} {places : Region → Prop}

/-- Every block of `g'` is one that `ComesFrom` what `g` has under its key. -/
def Inherits (places : Region → Prop) (g g' : Group) : Prop :=
  ∀ key b', g'.blocks.find? key = some b' →
    Block.ComesFrom places g.alignment key (g.blocks.find? key) b'

/-- A group with the same `blocks` inherits all of them. -/
lemma inherits_of_blocks_eq (h : g'.blocks = g.blocks) : g.Inherits places g' := by
  intro key b' hfind
  rw [h] at hfind
  rw [hfind]
  exact Block.comesFrom_self b'

/-- `Inherits` allows one block to be stored as what it `Becomes`. -/
lemma inherits_replace {key : Nat} {b b' : Block} (hfind : g.blocks.find? key = some b)
    (h : b.Becomes b') (hblocks : g'.blocks = g.blocks.insert key b') :
    g.Inherits places g' := by
  intro key' c hc
  rw [hblocks, Table.find?_insert] at hc
  split at hc
  · rename_i hkey
    rw [← Option.some.inj hc, hkey, hfind]
    exact .inl ⟨b, rfl, h⟩
  · rw [hc]
    exact Block.comesFrom_self c

/-- `addBlock` with a `Made` block is one of the two ways of `Inherits`. -/
lemma inherits_addBlock {b : Block} (h : b.Made places g.alignment) :
    g.Inherits places (g.addBlock b) := by
  intro key c hc
  have hc : (g.blocks.insert b.base b).find? key = some c := hc
  rw [Table.find?_insert] at hc
  split at hc
  · rename_i hkey
    rw [← Option.some.inj hc]
    exact .inr ⟨hkey.symm, h⟩
  · rw [hc]
    exact Block.comesFrom_self c

/-- `deallocate` only changes the books of one block. -/
lemma inherits_deallocate (g : Group) (address size : Nat) :
    g.Inherits places (g.deallocate address size).state := by
  unfold deallocate
  rcases howner : g.owner? address with _ | ⟨base, b⟩
  · exact inherits_of_blocks_eq rfl
  · obtain ⟨hfind, -⟩ := find?_of_owner? howner
    exact inherits_replace hfind (b.becomes_deallocate address size) rfl

/-- `deallocate` keeps the `alignment` of a group. -/
lemma deallocate_alignment (g : Group) (address size : Nat) :
    (g.deallocate address size).state.alignment = g.alignment := by
  unfold deallocate
  split <;> rfl

lemma inherits_setTracking (g : Group) (tracking : Tracking) :
    g.Inherits places (g.setTracking tracking) := by
  intro key b' hfind
  unfold setTracking at hfind
  rw [Table.find?_mapValues, Option.map_eq_some_iff] at hfind
  obtain ⟨b, hfind, rfl⟩ := hfind
  rw [hfind]
  exact .inl ⟨b, rfl, b.becomes_setTracking tracking⟩

/-- `withoutEmpty` has no block that was not there. -/
lemma inherits_withoutEmpty (g : Group) : g.Inherits places g.withoutEmpty := by
  intro key b' hfind
  unfold withoutEmpty at hfind
  rw [Table.find?_filter, Option.filter_eq_some_iff] at hfind
  rw [hfind.1]
  exact Block.comesFrom_self b'

/-- A block that is `fresh` and large enough for `size` and for `g.blockSize`. -/
def newBlock (g : Group) (size base : Nat) (tracking : Tracking) : Block :=
  .fresh (max size g.blockSize) g.alignment base tracking

/-- How a request to a group ends, whatever the system does: with a slot of a block that is there,
as `afterServing`, with the first slot of a `newBlock`, as `addBlock`, or with nothing. -/
inductive Answering (places : Region → Prop) (g : Group) (size : Nat) (tracking : Tracking) :
    Except AllocationError Nat → Group → Prop where
  | old {base address : Nat} {b : Block} (hfind : g.blocks.find? base = some b)
      (hanswer : (b.allocate size).answer = some address) :
      g.Answering places size tracking (.ok address) (g.afterServing base (b.allocate size).state)
  | new {base : Nat} (hmade : (g.newBlock size base tracking).Made places g.alignment)
      (hanswer : ((g.newBlock size base tracking).allocate size).answer = some base) :
      g.Answering places size tracking (.ok base)
        (g.addBlock ((g.newBlock size base tracking).allocate size).state)
  | failed (reason : AllocationError) : g.Answering places size tracking (.error reason) g

variable {size : Nat} {tracking : Tracking} {answer : Except AllocationError Nat}

/-- However a request ends, each block afterwards comes from one before or is `Made`. -/
lemma Answering.inherits (h : g.Answering places size tracking answer g') :
    g.Inherits places g' := by
  cases h with
  | old hfind hanswer => exact inherits_replace hfind (Block.becomes_allocate _ size) rfl
  | new hmade hanswer => exact inherits_addBlock (hmade.becomes (Block.becomes_allocate _ size))
  | failed reason => exact inherits_of_blocks_eq rfl

/-- A request keeps the `alignment` of a group. -/
lemma Answering.alignment_eq (h : g.Answering places size tracking answer g') :
    g'.alignment = g.alignment := by
  cases h <;> rfl

section Memory

variable {σ : Type} [System σ]

/-- `grow` answers the base of a `newBlock` that is `Made` and served from its start, or leaves the
group as it is. -/
lemma grow_made (hplaces : Promises σ places) (g : Group) (size : Nat) (tracking : Tracking)
    (m : Memory σ) :
    Ends (g.grow size tracking) m fun out _ => (∃ reason, out = (.error reason, g)) ∨
      ∃ base, (g.newBlock size base tracking).Made places g.alignment ∧
        ((g.newBlock size base tracking).allocate size).answer = some base ∧
        out = (.ok base, g.addBlock ((g.newBlock size base tracking).allocate size).state) := by
  unfold grow
  refine (Block.obtain_made hplaces _ _ tracking m).bind fun answer m₁ h₁ => ?_
  cases answer with
  | error reason => exact .inl ⟨reason, rfl⟩
  | ok b =>
    obtain ⟨hmade, base, rfl⟩ := h₁
    have hanswer := Block.allocate_fresh hmade (Nat.le_max_left size g.blockSize)
    refine (Memory.ends_settle m₁ _).bind ?_
    rintro ⟨answer, b⟩ m₂ hout
    obtain ⟨rfl, rfl⟩ := Prod.mk.inj hout
    simp only [hanswer]
    refine Ends.trivial.bind fun _ _ _ => Ends.trivial.bind fun _ _ _ => ?_
    exact .inr ⟨base, hmade, hanswer, rfl⟩

/-- `grow` ends in one of the ways of `Answering`. -/
lemma grow_answering (hplaces : Promises σ places) (g : Group) (size : Nat) (tracking : Tracking)
    (m : Memory σ) :
    Ends (g.grow size tracking) m fun out _ =>
      g.Answering places size tracking out.1 out.2 := by
  refine (grow_made hplaces g size tracking m).mono ?_
  rintro _ _ (⟨reason, rfl⟩ | ⟨base, hmade, hanswer, rfl⟩)
  · exact .failed reason
  · exact .new hmade hanswer

/-- `allocate` ends in one of the ways of `Answering`. -/
lemma allocate_answering (hplaces : Promises σ places) (g : Group) (size : Nat)
    (tracking : Tracking) (m : Memory σ) :
    Ends (g.allocate size tracking) m fun out _ =>
      g.Answering places size tracking out.1 out.2 := by
  unfold allocate
  refine (Memory.ends_settle m _).bind ?_
  rintro ⟨answer, g'⟩ m₁ hout
  obtain ⟨rfl, rfl⟩ := Prod.mk.inj hout
  unfold serve
  rcases g.serveFrom_cases size g.searchOrder with ⟨hanswer, hstate⟩ |
    ⟨base, b, address, hfind, hserved, hanswer, hstate⟩
  · rw [hanswer, hstate]
    exact grow_answering hplaces g size tracking m₁
  · rw [hanswer, hstate]
    exact .old hfind hserved

end Memory

end Group

end BlockPool
