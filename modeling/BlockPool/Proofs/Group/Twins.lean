import BlockPool.Proofs.Group.Muted
import BlockPool.Proofs.Group.Views
import BlockPool.Usage

/-!
# Groups that differ in their addresses

Two groups are twins if their blocks, taken in the order in which they were made, differ only in
where they lie and in their switches. Blocks are searched in that order and never by address, so
twins serve a request from the same place of the same block, or both of them need a new block; and
what is done to a place of one and to the same place of the other leaves twins.

The pairing of the blocks is a list, with the base addresses of one group on the left and those of
the other one on the right.
-/

namespace BlockPool

/-! ## Blocks -/

namespace Block

variable {b b' : Block} {offset : Nat}

/-- A block `muted` and moved to address 0: without its switches and its place. -/
def unplaced (b : Block) : Block := { b.muted false with base := 0 }

/-- Which slot `allocate` reserves does not depend on the place of a block. -/
lemma allocate_unplaced (hb : b.Ok) (size : Nat) :
    (b.allocate size).answer = (b.unplaced.allocate size).answer.map (b.base + ·) ∧
      (b.allocate size).state.unplaced = (b.unplaced.allocate size).state := by
  have hreserve : b.unplaced.tracker.reserve size b.unplaced.alignment =
      (b.tracker.reserve size b.alignment).muted false (Tracker.muted false) :=
    Tracker.reserve_muted hb.inOrder size b.alignment
  unfold allocate
  rw [hreserve]
  refine ⟨?_, rfl⟩
  rw [Option.map_map]
  exact congrArg (Option.map · _) (funext fun offset => congrArg (b.base + ·) (Nat.zero_add _).symm)

/-- An address that `allocate` answers is less than `b.capacity` above `b.base`. -/
lemma exists_offset_of_allocate (hb : b.Ok) {size address : Nat}
    (h : (b.allocate size).answer = some address) :
    ∃ offset < b.capacity, address = b.base + offset := by
  obtain ⟨hok, hregion, hslots⟩ := allocate_spec hb size
  have hslot : (⟨address, Tracker.slotSize size⟩ : Extent) ∈ (b.allocate size).state.slots := by
    rw [← Multiset.mem_coe, hslots, h]
    exact Multiset.mem_add.2 (.inl (Multiset.mem_singleton_self _))
  have hcontains : b.region.Contains address :=
    hregion ▸ of_decide_eq_true (hok.contains_slot hslot)
  obtain ⟨offset, rfl⟩ := Nat.exists_eq_add_of_le hcontains.1
  exact ⟨offset, Nat.lt_of_add_lt_add_left hcontains.2, rfl⟩

lemma contains_add (b : Block) (h : offset < b.capacity) :
    b.contains (b.base + offset) = true :=
  decide_eq_true ⟨Nat.le_add_right .., Nat.add_lt_add_left h b.base⟩

/-- What `deallocate` does to the books does not depend on the place of a block. -/
lemma deallocate_unplaced (hb : b.Ok) (h : offset < b.capacity) (size : Nat) :
    (b.deallocate (b.base + offset) size).state.unplaced =
      (b.unplaced.deallocate offset size).state := by
  have hcontains : b.unplaced.contains offset = true := by
    have hself := b.unplaced.contains_add h
    rwa [show b.unplaced.base + offset = offset from Nat.zero_add offset] at hself
  have hrelease : b.unplaced.tracker.release (offset - b.unplaced.base) size =
      (b.tracker.release offset size).muted false (Tracker.muted false) :=
    Tracker.release_muted hb.inOrder offset size
  unfold deallocate
  rw [if_pos (b.contains_add h), if_pos hcontains, hrelease, Nat.add_sub_cancel_left]
  rfl

lemma unplaced_fresh (capacity alignment base : Nat) (tracking : Tracking) :
    (fresh capacity alignment base tracking).unplaced = fresh capacity alignment 0 {} := by
  unfold unplaced muted fresh
  simp only [Tracker.new_muted]
  rfl

end Block

/-! ## Pairings -/

namespace Group

variable {g g' after : Group} {size address : Nat} {pairs : List (Nat × Nat)} {p : Nat × Nat}

/-- A group that is `Ok`, `Listed` and `Spread`. -/
structure Tidy (g : Group) : Prop where
  ok : g.Ok
  listed : g.Listed
  spread : g.Spread

/-- The list `g.order` names no block twice. -/
lemma Listed.nodup (h : g.Listed) : g.order.Nodup := h.order.nodup_iff.2 g.blocks.keys_nodup

/-- Groups whose blocks are the same up to `unplaced`, paired in the order in which they were
made. -/
structure Twins (pairs : List (Nat × Nat)) (g g' : Group) : Prop where
  blockSize : g.blockSize = g'.blockSize
  alignment : g.alignment = g'.alignment
  left : g.order = pairs.map Prod.fst
  right : g'.order = pairs.map Prod.snd
  latest : ∃ latest : Option (Nat × Nat), (∀ p ∈ latest, p ∈ pairs) ∧
    g.latest = latest.map Prod.fst ∧ g'.latest = latest.map Prod.snd
  blocks {p : Nat × Nat} : p ∈ pairs → ∃ b b', g.blocks.find? p.1 = some b ∧
    g'.blocks.find? p.2 = some b' ∧ b.unplaced = b'.unplaced

/-- Groups without blocks are `Twins` if they agree on `blockSize` and `alignment`. -/
lemma twins_new {g g' : Group} (hblockSize : g.blockSize = g'.blockSize)
    (halignment : g.alignment = g'.alignment) (h : g.order = []) (h' : g'.order = [])
    (hlatest : g.latest = none) (hlatest' : g'.latest = none) : g.Twins [] g' :=
  ⟨hblockSize, halignment, h, h', ⟨none, by simp, hlatest, hlatest'⟩, fun hp => by simp at hp⟩

/-- `Twins` is symmetric, with the pairs swapped. -/
lemma Twins.symm (h : g.Twins pairs g') : g'.Twins (pairs.map Prod.swap) g := by
  obtain ⟨latest, hmem, hleft, hright⟩ := h.latest
  refine ⟨h.blockSize.symm, h.alignment.symm, ?_, ?_, ⟨latest.map Prod.swap, ?_, ?_, ?_⟩, ?_⟩
  · rw [h.right, List.map_map]
    rfl
  · rw [h.left, List.map_map]
    rfl
  · intro q hq
    obtain ⟨p, hp, rfl⟩ := Option.map_eq_some_iff.1 hq
    exact List.mem_map_of_mem (hmem p hp)
  · rw [hright, Option.map_map]
    rfl
  · rw [hleft, Option.map_map]
    rfl
  · intro q hq
    obtain ⟨p, hp, rfl⟩ := List.mem_map.1 hq
    obtain ⟨b, b', hb, hb', hunplaced⟩ := h.blocks hp
    exact ⟨b', b, hb', hb, hunplaced.symm⟩

/-- Different pairs differ on both sides. -/
lemma Twins.ne_of_ne (h : g.Twins pairs g') (hg : g.Listed) (hg' : g'.Listed)
    {q : Nat × Nat} (hp : p ∈ pairs) (hq : q ∈ pairs) (hne : q ≠ p) : q.1 ≠ p.1 ∧ q.2 ≠ p.2 := by
  have hleft : (pairs.map Prod.fst).Nodup := h.left ▸ hg.nodup
  have hright : (pairs.map Prod.snd).Nodup := h.right ▸ hg'.nodup
  exact ⟨fun heq => hne (List.inj_on_of_nodup_map hleft hq hp heq),
    fun heq => hne (List.inj_on_of_nodup_map hright hq hp heq)⟩

/-- `Twins` survives storing blocks that agree up to `unplaced` under the two keys of a pair. -/
lemma Twins.insert (h : g.Twins pairs g') (hg : g.Listed) (hg' : g'.Listed) (hp : p ∈ pairs)
    {b b' : Block} (hunplaced : b.unplaced = b'.unplaced) :
    Twins pairs { g with blocks := g.blocks.insert p.1 b }
      { g' with blocks := g'.blocks.insert p.2 b' } := by
  refine ⟨h.blockSize, h.alignment, h.left, h.right, h.latest, fun {q} hq => ?_⟩
  simp only [Table.find?_insert]
  by_cases heq : q = p
  · rw [heq, if_pos rfl, if_pos rfl]
    exact ⟨b, b', rfl, rfl, hunplaced⟩
  · obtain ⟨hleft, hright⟩ := h.ne_of_ne hg hg' hp hq heq
    rw [if_neg hleft, if_neg hright]
    exact h.blocks hq

/-- `Twins` survives serving from the two blocks of a pair. -/
lemma Twins.afterServing (h : g.Twins pairs g') (hg : g.Listed) (hg' : g'.Listed)
    (hp : p ∈ pairs) {b b' : Block} (hunplaced : b.unplaced = b'.unplaced) :
    (g.afterServing p.1 b).Twins pairs (g'.afterServing p.2 b') := by
  have hinsert := h.insert hg hg' hp hunplaced
  refine ⟨h.blockSize, h.alignment, h.left, h.right, ⟨some p, ?_, rfl, rfl⟩, hinsert.blocks⟩
  intro q hq
  rwa [← Option.some.inj hq]

/-- A `Listed` group names no base twice, so no block was at the place of a new one. -/
lemma Listed.notMem_of_addBlock {b : Block} (h : (g.addBlock b).Listed) : b.base ∉ g.order := by
  intro hmem
  have hnodup : (g.order ++ [b.base]).Nodup := h.nodup
  exact (List.nodup_append.1 hnodup).2.2 _ hmem _ (List.mem_singleton_self _) rfl

/-- `addBlock` with blocks that agree up to `unplaced` adds a pair to `Twins`. -/
lemma Twins.addBlock (h : g.Twins pairs g') {b b' : Block}
    (hg : (g.addBlock b).Listed) (hg' : (g'.addBlock b').Listed)
    (hunplaced : b.unplaced = b'.unplaced) :
    (g.addBlock b).Twins (pairs ++ [(b.base, b'.base)]) (g'.addBlock b') := by
  refine ⟨h.blockSize, h.alignment, ?_, ?_, ⟨some (b.base, b'.base), ?_, rfl, rfl⟩, ?_⟩
  · show g.order ++ [b.base] = _
    rw [h.left, List.map_append]
    rfl
  · show g'.order ++ [b'.base] = _
    rw [h.right, List.map_append]
    rfl
  · intro q hq
    rw [← Option.some.inj hq]
    exact List.mem_append_right _ (List.mem_singleton_self _)
  · intro q hq
    show ∃ c c', (g.blocks.insert b.base b).find? q.1 = some c ∧
      (g'.blocks.insert b'.base b').find? q.2 = some c' ∧ c.unplaced = c'.unplaced
    rw [Table.find?_insert, Table.find?_insert]
    rcases List.mem_append.1 hq with hq | hq
    · have hleft : q.1 ≠ b.base := fun heq =>
        hg.notMem_of_addBlock (heq ▸ h.left ▸ List.mem_map_of_mem hq)
      have hright : q.2 ≠ b'.base := fun heq =>
        hg'.notMem_of_addBlock (heq ▸ h.right ▸ List.mem_map_of_mem hq)
      rw [if_neg hleft, if_neg hright]
      exact h.blocks hq
    · rw [List.mem_singleton.1 hq, if_pos rfl, if_pos rfl]
      exact ⟨b, b', rfl, rfl, hunplaced⟩

/-! ## Settings and switches -/

lemma Twins.setBlockSize (h : g.Twins pairs g') (blockSize : Nat) :
    (g.setBlockSize blockSize).Twins pairs (g'.setBlockSize blockSize) :=
  ⟨rfl, h.alignment, h.left, h.right, h.latest, h.blocks⟩

/-- `Twins` survives the same `configure` on both sides. -/
lemma Twins.configure (h : g.Twins pairs g') (name : String) (blockSize alignment : Nat) :
    (g.configure name blockSize alignment).Twins pairs
      (g'.configure name blockSize alignment) :=
  ⟨rfl, rfl, h.left, h.right, h.latest, h.blocks⟩

/-- `Twins` does not depend on the switches, so `setTracking` on one side leaves them. -/
lemma Twins.setTracking (h : g.Twins pairs g') (tracking : Tracking) :
    (g.setTracking tracking).Twins pairs g' := by
  refine ⟨h.blockSize, h.alignment, h.left, h.right, h.latest, fun {q} hq => ?_⟩
  obtain ⟨b, b', hb, hb', hunplaced⟩ := h.blocks hq
  refine ⟨b.setTracking tracking, b', ?_, hb', hunplaced⟩
  show (g.blocks.mapValues _).find? q.1 = _
  rw [Table.find?_mapValues, hb]
  rfl

lemma Twins.setTracking_right (h : g.Twins pairs g') (tracking : Tracking) :
    g.Twins pairs (g'.setTracking tracking) := by
  have htwins := (h.symm.setTracking tracking).symm
  rwa [List.map_map, Prod.swap_swap_eq, List.map_id] at htwins

/-! ## Requests -/

/-- If `order` and `latest` are one side of a list of pairs, so is `searchOrder`. -/
lemma searchOrder_map {latest : Option (Nat × Nat)} (hmem : ∀ p ∈ latest, p ∈ pairs)
    (f : Nat × Nat → Nat) (horder : g.order = pairs.map f) (hlatest : g.latest = latest.map f)
    (hnodup : g.order.Nodup) :
    g.searchOrder =
      (latest.toList ++ pairs.reverse.filter fun p => some p ≠ latest).map f := by
  have hfilter : pairs.reverse.filter (fun p => decide (some (f p) ≠ latest.map f)) =
      pairs.reverse.filter fun p => decide (some p ≠ latest) := by
    refine List.filter_congr fun p hp => ?_
    rw [decide_eq_decide]
    refine not_congr ⟨fun heq => ?_, fun heq => heq ▸ rfl⟩
    obtain ⟨q, hq, hqp⟩ := Option.map_eq_some_iff.1 heq.symm
    rw [horder] at hnodup
    rw [hq, List.inj_on_of_nodup_map hnodup (hmem q hq) (List.mem_reverse.1 hp) hqp]
  unfold searchOrder
  rw [hlatest, horder, List.map_append, ← List.map_reverse, List.filter_map]
  congr 1
  · cases latest <;> rfl
  · exact congrArg (List.map f) hfilter

/-- The two `searchOrder`s of twins are the two sides of one list of pairs. -/
lemma Twins.exists_search (h : g.Twins pairs g') (hg : g.Listed) (hg' : g'.Listed) :
    ∃ search : List (Nat × Nat), (∀ p ∈ search, p ∈ pairs) ∧
      g.searchOrder = search.map Prod.fst ∧ g'.searchOrder = search.map Prod.snd := by
  obtain ⟨latest, hmem, hleft, hright⟩ := h.latest
  refine ⟨_, fun p hp => ?_, searchOrder_map hmem Prod.fst h.left hleft hg.nodup,
    searchOrder_map hmem Prod.snd h.right hright hg'.nodup⟩
  rcases List.mem_append.1 hp with hp | hp
  · exact hmem p (Option.mem_toList.1 hp)
  · exact List.mem_reverse.1 (List.mem_filter.1 hp).1

/-- Two addresses at one offset in the two blocks of a pair. -/
def SamePlace (pairs : List (Nat × Nat)) (g : Group) (address address' : Nat) : Prop :=
  ∃ p ∈ pairs, ∃ offset b, g.blocks.find? p.1 = some b ∧ offset < b.capacity ∧
    address = p.1 + offset ∧ address' = p.2 + offset

/-- Twins `serveFrom` the two sides of one search at the same place, or neither has room. -/
lemma Twins.serveFrom (h : g.Twins pairs g') (hg : g.Tidy) (hg' : g'.Tidy) (size : Nat)
    {search : List (Nat × Nat)} (hsearch : ∀ p ∈ search, p ∈ pairs) :
    let o := g.serveFrom size (search.map Prod.fst)
    let o' := g'.serveFrom size (search.map Prod.snd)
    o.answer = none ∧ o'.answer = none ∨ ∃ address address', o.answer = some address ∧
      o'.answer = some address' ∧ o.state.Twins pairs o'.state ∧
        SamePlace pairs o.state address address' := by
  induction search with
  | nil => exact .inl ⟨rfl, rfl⟩
  | cons p rest ih =>
    have hp := hsearch p (List.mem_cons_self ..)
    have ih := ih fun q hq => hsearch q (List.mem_cons_of_mem _ hq)
    obtain ⟨b, b', hb, hb', hunplaced⟩ := h.blocks hp
    obtain ⟨hbase, hok⟩ := hg.ok.block hb
    obtain ⟨hbase', hok'⟩ := hg'.ok.block hb'
    obtain ⟨hanswer, hstate⟩ := Block.allocate_unplaced hok size
    obtain ⟨hanswer', hstate'⟩ := Block.allocate_unplaced hok' size
    rw [← hunplaced] at hanswer' hstate'
    rw [List.map_cons, List.map_cons]
    unfold Group.serveFrom
    rw [hb, hb']
    simp only
    rcases hplace : (b.unplaced.allocate size).answer with _ | place
    · rw [hplace] at hanswer hanswer'
      rw [hanswer, hanswer']
      exact ih
    · rw [hplace] at hanswer hanswer'
      obtain ⟨offset, hlt, heq⟩ := Block.exists_offset_of_allocate hok hanswer
      obtain rfl : place = offset := Nat.add_left_cancel heq
      rw [hanswer, hanswer']
      refine .inr ⟨_, _, rfl, rfl, ?_, p, hp, place, (b.allocate size).state, ?_, hlt, ?_, ?_⟩
      · exact h.afterServing hg.listed hg'.listed hp (hstate.trans hstate'.symm)
      · exact (Table.find?_insert ..).trans (if_pos rfl)
      · rw [hbase]
      · rw [hbase']

/-- A request that a group can serve: by `serve`, or else from a `newBlock`. -/
inductive Yields (g : Group) (size : Nat) : Nat → Group → Prop where
  | old {address : Nat} (hserved : (g.serve size).answer = some address) :
      g.Yields size address (g.serve size).state
  | new {base : Nat} {tracking : Tracking} (hfull : (g.serve size).answer = none)
      (hok : (g.newBlock size base tracking).Ok) :
      g.Yields size base (g.addBlock ((g.newBlock size base tracking).allocate size).state)

/-- A `newBlock` does not depend on its base up to `unplaced`. -/
lemma unplaced_newBlock (g : Group) (size base : Nat) (tracking : Tracking) :
    (g.newBlock size base tracking).unplaced =
      .fresh (max size g.blockSize) g.alignment 0 {} := Block.unplaced_fresh ..

/-- An address that `allocate` answers is one that the group `Yields`. -/
lemma allocate_yields {σ : Type} [System σ] (g : Group) (size : Nat) (tracking : Tracking)
    (m : Memory σ) :
    Ends (g.allocate size tracking) m fun out _ =>
      ∀ address, out.1 = .ok address → g.Yields size address out.2 := by
  unfold allocate
  refine (Memory.ends_settle m _).bind ?_
  rintro ⟨answer, g'⟩ m₁ hout
  obtain ⟨rfl, rfl⟩ := Prod.mk.inj hout
  rcases hanswer : (g.serve size).answer with _ | address
  · have hstate : (g.serve size).state = g := by
      rcases g.serveFrom_cases size g.searchOrder with ⟨-, hstate⟩ | ⟨_, _, _, -, -, hserved, -⟩
      · exact hstate
      · exact absurd (hanswer.symm.trans hserved) (by simp)
    simp only
    rw [hstate]
    refine (grow_made (promises_true σ) g size tracking m₁).mono ?_
    rintro _ _ (⟨reason, rfl⟩ | ⟨base, hmade, -, rfl⟩) address haddress
    · cases haddress
    · obtain rfl := Except.ok.inj haddress
      exact .new hanswer hmade.ok
  · intro address' haddress
    obtain rfl := Except.ok.inj haddress
    exact .old hanswer

/-- Two requests served by twins leave twins, and their addresses are of the `SamePlace`. -/
lemma Twins.yields (h : g.Twins pairs g') (hg : g.Tidy) (hg' : g'.Tidy)
    {size address address' : Nat} {after after' : Group} (hafter : after.Listed)
    (hafter' : after'.Listed) (hyields : g.Yields size address after)
    (hyields' : g'.Yields size address' after') :
    ∃ more, (∀ p ∈ pairs, p ∈ more) ∧ after.Twins more after' ∧
      SamePlace more after address address' := by
  obtain ⟨search, hsearch, hleft, hright⟩ := h.exists_search hg.listed hg'.listed
  have hserve := h.serveFrom hg hg' size hsearch
  simp only at hserve
  rw [← hleft, ← hright] at hserve
  rcases hserve with ⟨hnone, hnone'⟩ | ⟨found, found', hfound, hfound', htwins, hplace⟩
  · cases hyields with
    | old hserved => exact absurd (hnone.symm.trans hserved) (by simp)
    | new hfull hok =>
      cases hyields' with
      | old hserved => exact absurd (hnone'.symm.trans hserved) (by simp)
      | new hfull' hok' =>
        have hunplaced := (Block.allocate_unplaced hok size).2
        have hunplaced' := (Block.allocate_unplaced hok' size).2
        rw [unplaced_newBlock, h.blockSize, h.alignment, ← unplaced_newBlock] at hunplaced
        refine ⟨_, fun p hp => List.mem_append_left _ hp,
          h.addBlock hafter hafter' (hunplaced.trans hunplaced'.symm), (address, address'),
          List.mem_append_right _ (List.mem_singleton_self _), 0, _,
          (Table.find?_insert ..).trans (if_pos rfl), ?_, rfl, rfl⟩
        show 0 < max (max size g.blockSize) 1
        omega
  · cases hyields with
    | new hfull => exact absurd (hfull.symm.trans hfound) (by simp)
    | old hserved =>
      cases hyields' with
      | new hfull => exact absurd (hfull.symm.trans hfound') (by simp)
      | old hserved' =>
        obtain rfl := Option.some.inj (hserved.symm.trans hfound)
        obtain rfl := Option.some.inj (hserved'.symm.trans hfound')
        exact ⟨pairs, fun p hp => hp, htwins, hplace⟩

/-! ## Returns -/

/-- At addresses of the `SamePlace`, `owner?` finds the two blocks of one pair. -/
lemma Twins.owner? (h : g.Twins pairs g') (hg : g.Tidy) (hg' : g'.Tidy)
    {address address' : Nat} (hplace : SamePlace pairs g address address') :
    ∃ p ∈ pairs, ∃ offset b b', b.Ok ∧ b'.Ok ∧ b.unplaced = b'.unplaced ∧
      g.owner? address = some (p.1, b) ∧ g'.owner? address' = some (p.2, b') ∧
      offset < b.capacity ∧ offset < b'.capacity ∧
      address = b.base + offset ∧ address' = b'.base + offset := by
  obtain ⟨p, hp, offset, b, hb, hlt, rfl, rfl⟩ := hplace
  obtain ⟨c, b', hc, hb', hunplaced⟩ := h.blocks hp
  obtain rfl : c = b := Option.some.inj (hc.symm.trans hb)
  obtain ⟨hbase, hok⟩ := hg.ok.block hb
  obtain ⟨hbase', hok'⟩ := hg'.ok.block hb'
  have hlt' : offset < b'.capacity := by
    have hcapacity : c.unplaced.capacity = b'.unplaced.capacity := by rw [hunplaced]
    exact hcapacity ▸ hlt
  rw [← hbase, ← hbase']
  refine ⟨p, hp, offset, c, b', hok, hok', hunplaced, ?_, ?_, hlt, hlt', rfl, rfl⟩
  · exact hg.spread.owner?_of_contains hb (c.contains_add hlt)
  · exact hg'.spread.owner?_of_contains hb' (b'.contains_add hlt')

/-- Returning addresses of the `SamePlace` leaves `Twins`. -/
lemma Twins.deallocate (h : g.Twins pairs g') (hg : g.Tidy) (hg' : g'.Tidy)
    {address address' : Nat} (hplace : SamePlace pairs g address address') (size : Nat) :
    (g.deallocate address size).state.Twins pairs (g'.deallocate address' size).state := by
  obtain ⟨p, hp, offset, b, b', hok, hok', hunplaced, howner, howner', hlt, hlt', rfl, rfl⟩ :=
    h.owner? hg hg' hplace
  unfold Group.deallocate
  rw [howner, howner']
  refine h.insert hg.listed hg'.listed hp ?_
  rw [Block.deallocate_unplaced hok hlt size, Block.deallocate_unplaced hok' hlt' size, hunplaced]

/-! ## Compaction -/

/-- A block is still there in `withoutEmpty` exactly if it is not empty. -/
lemma contains_withoutEmpty {key : Nat} {b : Block} (hb : g.blocks.find? key = some b) :
    g.withoutEmpty.blocks.contains key = !b.isEmpty := by
  unfold withoutEmpty Table.contains
  rw [Table.find?_filter, hb]
  cases h : b.isEmpty <;> simp [Option.filter, h]

lemma find?_withoutEmpty {key : Nat} {b : Block} (hb : g.blocks.find? key = some b)
    (h : g.withoutEmpty.blocks.contains key = true) :
    g.withoutEmpty.blocks.find? key = some b := by
  rw [contains_withoutEmpty hb] at h
  unfold withoutEmpty
  rw [Table.find?_filter, hb, Option.filter_some, if_pos h]

/-- The pairs of blocks that are still there in `withoutEmpty`. -/
def pairsInUse (pairs : List (Nat × Nat)) (g : Group) : List (Nat × Nat) :=
  pairs.filter fun p => g.withoutEmpty.blocks.contains p.1

/-- `withoutEmpty` leaves `Twins`, of the pairs `pairsInUse`. -/
lemma Twins.withoutEmpty (h : g.Twins pairs g') :
    g.withoutEmpty.Twins (pairsInUse pairs g) g'.withoutEmpty := by
  have hsame : ∀ p ∈ pairs, g'.withoutEmpty.blocks.contains p.2 =
      g.withoutEmpty.blocks.contains p.1 := by
    intro p hp
    obtain ⟨b, b', hb, hb', hunplaced⟩ := h.blocks hp
    have hempty : b.unplaced.isEmpty = b'.unplaced.isEmpty := by rw [hunplaced]
    rw [contains_withoutEmpty hb, contains_withoutEmpty hb']
    exact congrArg (!·) hempty.symm
  refine ⟨h.blockSize, h.alignment, ?_, ?_, ?_, fun {p} hp => ?_⟩
  · show g.order.filter _ = _
    rw [h.left, List.filter_map]
    rfl
  · show g'.order.filter _ = _
    rw [h.right, List.filter_map]
    exact congrArg (List.map Prod.snd) (List.filter_congr hsame)
  · obtain ⟨latest, hmem, hleft, hright⟩ := h.latest
    have hfilter : ∀ (f : Nat × Nat → Nat) (keep : Nat → Bool),
        (∀ p ∈ latest, keep (f p) = g.withoutEmpty.blocks.contains p.1) →
          (latest.map f).filter keep =
            (latest.filter fun p => g.withoutEmpty.blocks.contains p.1).map f := by
      intro f keep hkeep
      rcases latest with _ | p
      · rfl
      · rw [Option.map_some, Option.filter_some, Option.filter_some, hkeep p rfl]
        split <;> rfl
    refine ⟨latest.filter fun p => g.withoutEmpty.blocks.contains p.1, fun p hp => ?_, ?_, ?_⟩
    · obtain ⟨hp, hkept⟩ := Option.filter_eq_some_iff.1 hp
      exact List.mem_filter.2 ⟨hmem p hp, hkept⟩
    · show g.latest.filter _ = _
      rw [hleft]
      exact hfilter Prod.fst _ fun _ _ => rfl
    · show g'.latest.filter _ = _
      rw [hright]
      exact hfilter Prod.snd _ fun p hp => hsame p (hmem p hp)
  · obtain ⟨hp, hkept⟩ := List.mem_filter.1 hp
    obtain ⟨b, b', hb, hb', hunplaced⟩ := h.blocks hp
    exact ⟨b, b', find?_withoutEmpty hb hkept, find?_withoutEmpty hb' ((hsame p hp).trans hkept),
      hunplaced⟩

/-! ## What stays where it is -/

/-- Every block of `g` is still there in `after`, with the same capacity. -/
def Retains (g after : Group) : Prop :=
  ∀ key b, g.blocks.find? key = some b →
    ∃ b', after.blocks.find? key = some b' ∧ b'.capacity = b.capacity

/-- `SamePlace` survives more pairs and a group that `Retains` its blocks. -/
lemma SamePlace.mono {address address' : Nat} (h : SamePlace pairs g address address')
    {more : List (Nat × Nat)} (hpairs : ∀ p ∈ pairs, p ∈ more) {after : Group}
    (hretains : g.Retains after) : SamePlace more after address address' := by
  obtain ⟨p, hp, offset, b, hb, hlt, haddresses⟩ := h
  obtain ⟨b', hb', hcapacity⟩ := hretains p.1 b hb
  exact ⟨p, hpairs p hp, offset, b', hb', hcapacity ▸ hlt, haddresses⟩

lemma retains_of_blocks_eq {after : Group} (h : after.blocks = g.blocks) : g.Retains after :=
  fun _ b hb => ⟨b, h ▸ hb, rfl⟩

/-- Storing a block of the same capacity in place of another `Retains` all blocks. -/
lemma retains_replace {after : Group} {key : Nat} {b b' : Block}
    (hb : g.blocks.find? key = some b) (hcapacity : b'.capacity = b.capacity)
    (hblocks : after.blocks = g.blocks.insert key b') : g.Retains after := by
  intro key' c hc
  rw [hblocks, Table.find?_insert]
  split
  · rename_i hkey
    obtain rfl := Option.some.inj (hc.symm.trans (hkey ▸ hb))
    exact ⟨b', rfl, hcapacity⟩
  · exact ⟨c, hc, rfl⟩

lemma retains_setTracking (g : Group) (tracking : Tracking) :
    g.Retains (g.setTracking tracking) := by
  intro key b hb
  refine ⟨b.setTracking tracking, ?_, rfl⟩
  show (g.blocks.mapValues _).find? key = _
  rw [Table.find?_mapValues, hb]
  rfl

/-- `deallocate` takes no block away. -/
lemma retains_deallocate (g : Group) (address size : Nat) :
    g.Retains (g.deallocate address size).state := by
  unfold Group.deallocate
  rcases howner : g.owner? address with _ | ⟨base, b⟩
  · exact retains_of_blocks_eq rfl
  · have hlayout := (b.becomes_deallocate address size).layout
    exact retains_replace (find?_of_owner? howner).1 (congrArg Layout.size hlayout) rfl

/-- A request takes no block away, since a new one comes to a new place. -/
lemma Yields.retains (h : g.Yields size address after) (hg : g.Listed)
    (hafter : after.Listed) : g.Retains after := by
  cases h with
  | old hserved =>
    rcases g.serveFrom_cases size g.searchOrder with ⟨hnone, -⟩ | ⟨base, b, _, hb, -, -, hstate⟩
    · exact absurd (hnone.symm.trans hserved) (by simp)
    · have hcapacity : (b.allocate size).state.capacity = b.capacity := rfl
      exact retains_replace hb hcapacity (congrArg Group.blocks hstate)
  | new hfull hok =>
    intro key b hb
    refine ⟨b, ?_, rfl⟩
    show (g.blocks.insert _ _).find? key = some b
    rw [Table.find?_insert, if_neg, hb]
    rintro rfl
    exact hafter.notMem_of_addBlock (hg.order.mem_iff.2 (Table.mem_keys_iff.2 ⟨b, hb⟩))

/-- The `SamePlace` of slots survives `withoutEmpty`, since their blocks are not empty. -/
lemma SamePlace.withoutEmpty {address address' : Nat} (h : SamePlace pairs g address address')
    (hg : g.Tidy) {length : Nat} (hslot : ⟨address, length⟩ ∈ g.slots) :
    SamePlace (pairsInUse pairs g) g.withoutEmpty address address' := by
  obtain ⟨p, hp, offset, b, hb, hlt, rfl, rfl⟩ := h
  obtain ⟨key, c, hc, hslot⟩ := mem_slots_iff.1 hslot
  have hbase := (hg.ok.block hb).1
  have hok := (hg.ok.block hc).2
  -- the block of the place is the one that has the slot
  have howner := hg.spread.owner?_of_contains hb (hbase ▸ b.contains_add hlt)
  have howner' := hg.spread.owner?_of_contains hc (hok.contains_slot hslot)
  obtain ⟨rfl, rfl⟩ := Prod.mk.inj (Option.some.inj (howner'.symm.trans howner))
  have hused : g.withoutEmpty.blocks.contains p.1 = true := by
    rw [contains_withoutEmpty hb, Bool.not_eq_true']
    refine Bool.eq_false_iff.2 fun hempty => ?_
    rw [hok.slots_eq_nil hempty] at hslot
    exact List.not_mem_nil hslot
  exact ⟨p, List.mem_filter.2 ⟨hp, hused⟩, offset, c, find?_withoutEmpty hb hused, hlt, rfl, rfl⟩

/-! ## What is seen of a group -/

/-- The place of an address: the index of its block in `g.order`, and the offset in the block. -/
def place? (g : Group) (address : Nat) : Option (Nat × Nat) :=
  (g.owner? address).map fun e => (g.order.idxOf e.1, address - e.1)

/-- The totals of a group. -/
def totals (g : Group) : Totals := ⟨g.available, g.reserved, g.memorySize⟩

/-- In a list without duplicates, `idxOf` finds the index of each element. -/
lemma idxOf_map_of_nodup {f : Nat × Nat → Nat} (hnodup : (pairs.map f).Nodup) {i : Nat}
    (hi : i < pairs.length) : (pairs.map f).idxOf (f pairs[i]) = i := by
  have hindex := hnodup.idxOf_getElem i (by rwa [List.length_map])
  rwa [List.getElem_map] at hindex

/-- Addresses of the `SamePlace` have one and the same `place?` in twins. -/
lemma Twins.place? (h : g.Twins pairs g') (hg : g.Tidy) (hg' : g'.Tidy)
    {address address' : Nat} (hplace : SamePlace pairs g address address') :
    ∃ place, g.place? address = some place ∧ g'.place? address' = some place := by
  obtain ⟨p, hp, offset, b, b', hok, hok', -, howner, howner', -, -, rfl, rfl⟩ :=
    h.owner? hg hg' hplace
  obtain ⟨i, hi, rfl⟩ := List.getElem_of_mem hp
  have hindex : g.order.idxOf pairs[i].1 = i := by
    rw [h.left]
    exact idxOf_map_of_nodup (h.left ▸ hg.listed.nodup) hi
  have hindex' : g'.order.idxOf pairs[i].2 = i := by
    rw [h.right]
    exact idxOf_map_of_nodup (h.right ▸ hg'.listed.nodup) hi
  have hbase : b.base = pairs[i].1 := hg.spread.keyed (find?_of_owner? howner).1
  have hbase' : b'.base = pairs[i].2 := hg'.spread.keyed (find?_of_owner? howner').1
  refine ⟨(i, offset), ?_, ?_⟩
  · unfold Group.place?
    rw [howner, Option.map_some, hindex, hbase, Nat.add_sub_cancel_left]
  · unfold Group.place?
    rw [howner', Option.map_some, hindex', hbase', Nat.add_sub_cancel_left]

/-- The blocks that `g.order` names are the values of `g.blocks`. -/
lemma Listed.values_perm (h : g.Listed) :
    (g.order.filterMap g.blocks.find?).Perm g.blocks.values := by
  have hvalues : g.blocks.keys.filterMap g.blocks.find? = g.blocks.values := by
    unfold Table.keys Table.values
    rw [List.filterMap_map, ← List.filterMap_eq_map]
    exact List.filterMap_congr fun e he => Table.find?_eq_some_iff.2 he
  exact hvalues ▸ h.order.filterMap _

/-- A `total` over the blocks of twins is the same if it depends on `unplaced` only. -/
lemma Twins.total_eq (h : g.Twins pairs g') (hg : g.Listed) (hg' : g'.Listed) (f : Block → Nat)
    (hf : ∀ b : Block, f b = f b.unplaced) :
    total (g.blocks.values.map f) = total (g'.blocks.values.map f) := by
  have hlists : (g.order.filterMap g.blocks.find?).map f =
      (g'.order.filterMap g'.blocks.find?).map f := by
    rw [h.left, h.right, List.filterMap_map, List.filterMap_map, List.map_filterMap,
      List.map_filterMap]
    refine List.filterMap_congr fun p hp => ?_
    obtain ⟨b, b', hb, hb', hunplaced⟩ := h.blocks hp
    show (g.blocks.find? p.1).map f = (g'.blocks.find? p.2).map f
    rw [hb, hb', Option.map_some, Option.map_some, hf b, hf b', hunplaced]
  calc total (g.blocks.values.map f)
      = total ((g.order.filterMap g.blocks.find?).map f) := (hg.values_perm.map f).sum_eq.symm
    _ = total ((g'.order.filterMap g'.blocks.find?).map f) := by rw [hlists]
    _ = total (g'.blocks.values.map f) := (hg'.values_perm.map f).sum_eq

/-- Twins have the same `totals`. -/
lemma Twins.totals_eq (h : g.Twins pairs g') (hg : g.Listed) (hg' : g'.Listed) :
    g.totals = g'.totals := by
  unfold totals available reserved memorySize
  rw [h.total_eq hg hg' _ fun _ => rfl, h.total_eq hg hg' _ fun _ => rfl,
    h.total_eq hg hg' _ fun _ => rfl]

/-- Twins have the same `blockCount`. -/
lemma Twins.blockCount_eq (h : g.Twins pairs g') (hg : g.Listed) (hg' : g'.Listed) :
    g.blockCount = g'.blockCount := by
  have hcount : ∀ {g : Group}, g.Listed → g.blockCount = g.order.length := by
    intro g hlisted
    rw [hlisted.order.length_eq]
    exact (List.length_map ..).symm
  rw [hcount hg, hcount hg', h.left, h.right, List.length_map, List.length_map]

end Group

end BlockPool
