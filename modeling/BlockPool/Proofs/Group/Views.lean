import BlockPool.Group.Step
import BlockPool.Memory.Arena
import BlockPool.Proofs.Group

/-!
# The views of a group agree

A group knows its blocks in three ways: by their addresses, in the order in which they were made,
and by the one that served the latest request. The list and the latest address name just the blocks
that are there, whether blocks come, fail to come, or leave with a compaction.

Main statement: whatever is done to a group, and however a lawful system answers, the three views
agree, and the blocks lie apart from one another at addresses that suit their slots.
-/

namespace BlockPool

/-! ## Blocks -/

namespace Block

variable {b : Block}

/-- `Block.Aligned` survives `allocate`. -/
lemma Aligned.allocate (h : b.Aligned) (size : Nat) : (b.allocate size).state.Aligned :=
  ⟨h.power, h.minimum, h.layout, h.base⟩

/-- `Block.Aligned` survives `deallocate`. -/
lemma Aligned.deallocate (h : b.Aligned) (address size : Nat) :
    (b.deallocate address size).state.Aligned := by
  unfold Block.deallocate
  split
  · exact ⟨h.power, h.minimum, h.layout, h.base⟩
  · exact h

lemma Aligned.setTracking (h : b.Aligned) (tracking : Tracking) :
    (b.setTracking tracking).Aligned :=
  ⟨h.power, h.minimum, h.layout, h.base⟩

end Block

namespace Group

variable {g g' : Group}

/-! ## The list and the latest address -/

/-- `g.order` and `g.latest` name the blocks that are there, each of them `Aligned`. -/
structure Listed (g : Group) : Prop where
  order : g.order.Perm g.blocks.keys
  latest : ∀ base ∈ g.latest, base ∈ g.blocks.keys
  aligned {key : Nat} {b : Block} : g.blocks.find? key = some b → b.Aligned

/-- A group without blocks is `Listed`. -/
lemma listed_new (name : String) (blockSize alignment : Nat) :
    Listed { name, blockSize, alignment } where
  order := List.Perm.refl []
  latest base hbase := absurd hbase (by simp)
  aligned hfind := absurd hfind (by simp)

/-- `Listed` survives storing an aligned block in place of another, which may become `latest`. -/
lemma Listed.replace (h : g.Listed) {base : Nat} {b b' : Block}
    (hfind : g.blocks.find? base = some b) (hb' : b'.Aligned)
    (hblocks : g'.blocks = g.blocks.insert base b') (horder : g'.order = g.order)
    (hlatest : g'.latest = g.latest ∨ g'.latest = some base) : g'.Listed := by
  have hkeys : g'.blocks.keys.Perm g.blocks.keys := hblocks ▸ Table.keys_insert_perm hfind b'
  refine ⟨horder ▸ h.order.trans hkeys.symm, fun key hkey => hkeys.mem_iff.2 ?_, ?_⟩
  · rcases hlatest with hlatest | hlatest
    · exact h.latest key (hlatest ▸ hkey)
    · obtain rfl : base = key := Option.some.inj (hlatest.symm.trans hkey)
      exact Table.mem_keys_iff.2 ⟨b, hfind⟩
  · intro key c hc
    rw [hblocks, Table.find?_insert] at hc
    split at hc
    · rwa [← Option.some.inj hc]
    · exact h.aligned hc

/-- `Listed` survives `addBlock` at an address where no block is stored. -/
lemma Listed.addBlock (h : g.Listed) {b : Block} (hnone : g.blocks.find? b.base = none)
    (hb : b.Aligned) : (g.addBlock b).Listed := by
  have hkeys : (g.addBlock b).blocks.keys.Perm (b.base :: g.blocks.keys) :=
    Table.keys_insert_new_perm hnone b
  refine ⟨?_, ?_, ?_⟩
  · exact (List.perm_append_singleton ..).trans ((h.order.cons _).trans hkeys.symm)
  · intro key hkey
    obtain rfl : b.base = key := Option.some.inj hkey
    exact hkeys.mem_iff.2 (List.mem_cons_self ..)
  · intro key c hc
    have hc : (g.blocks.insert b.base b).find? key = some c := hc
    rw [Table.find?_insert] at hc
    split at hc
    · rwa [← Option.some.inj hc]
    · exact h.aligned hc

/-- `Listed` survives a request, in whichever way `Serving` it ends. -/
lemma Listed.serving (h : g.Listed) {size : Nat} {answer : Except AllocationError Nat}
    (hserving : g.Serving size answer g') : g'.Listed := by
  cases hserving with
  | old hfind hanswer =>
    exact h.replace hfind ((h.aligned hfind).allocate size) rfl rfl (.inr rfl)
  | new hnone hok haligned hslots => exact h.addBlock hnone haligned
  | failed reason => exact h

/-- `Listed` survives `deallocate`. -/
lemma Listed.deallocate (h : g.Listed) (address size : Nat) :
    (g.deallocate address size).state.Listed := by
  unfold Group.deallocate
  rcases howner : g.owner? address with _ | ⟨base, b⟩
  · exact h
  · obtain ⟨hfind, -⟩ := find?_of_owner? howner
    exact h.replace hfind ((h.aligned hfind).deallocate address size) rfl rfl (.inl rfl)

/-- `withoutEmpty` takes a block from `order` with it, and from `latest` if it is the one. -/
lemma Listed.withoutEmpty (h : g.Listed) : g.withoutEmpty.Listed := by
  have hsubset : g.withoutEmpty.blocks.keys ⊆ g.blocks.keys := Table.keys_filter_subset ..
  refine ⟨?_, ?_, ?_⟩
  · have hnodup : g.order.Nodup := h.order.nodup_iff.2 g.blocks.keys_nodup
    refine (List.perm_ext_iff_of_nodup (hnodup.filter _) (Table.keys_nodup _)).2 fun key => ?_
    show key ∈ g.order.filter (g.withoutEmpty.blocks.contains ·) ↔ _
    rw [List.mem_filter, Table.contains_iff]
    exact ⟨And.right, fun hmem => ⟨h.order.mem_iff.2 (hsubset hmem), hmem⟩⟩
  · intro key hkey
    exact Table.contains_iff.1 (Option.filter_eq_some_iff.1 hkey).2
  · intro key b hb
    unfold Group.withoutEmpty at hb
    rw [Table.find?_filter, Option.filter_eq_some_iff] at hb
    exact h.aligned hb.1

lemma Listed.setTracking (h : g.Listed) (tracking : Tracking) :
    (g.setTracking tracking).Listed := by
  have hkeys : (g.setTracking tracking).blocks.keys = g.blocks.keys := Table.keys_mapValues ..
  refine ⟨hkeys ▸ h.order, hkeys ▸ h.latest, ?_⟩
  intro key b hb
  unfold Group.setTracking at hb
  rw [Table.find?_mapValues, Option.map_eq_some_iff] at hb
  obtain ⟨c, hc, rfl⟩ := hb
  exact (h.aligned hc).setTracking tracking

/-! ## Actions and runs -/

section Memory

variable {σ : Type} {m : Memory σ} {held : Multiset Region}

/-- A group that is `Ok` and `Listed`, in a memory that `Keeps` its regions beside those `held`. -/
structure Stands (g : Group) (held : Multiset Region) (m : Memory σ) : Prop where
  ok : g.Ok
  listed : g.Listed
  keeps : m.Keeps (g.regions + held)

lemma stands_new (h : m.Keeps held) (name : String) (blockSize alignment : Nat) :
    Stands { name, blockSize, alignment } held m where
  ok := ⟨fun hfind => absurd hfind (by simp)⟩
  listed := listed_new name blockSize alignment
  keeps := by
    show m.Keeps (0 + held)
    rwa [Multiset.zero_add]

/-- Other `name`, `blockSize` and `alignment` leave a group `Stands`, since they hold for new blocks
only. -/
lemma Stands.withSettings (h : g.Stands held m) (name : String) (blockSize alignment : Nat) :
    Stands { g with name, blockSize, alignment } held m :=
  ⟨⟨h.ok.block⟩, ⟨h.listed.order, h.listed.latest, h.listed.aligned⟩, h.keeps⟩

/-- `Stands` is preserved by every `Step`, whatever the system answers. -/
theorem Stands.step [System σ] [LawfulSystem σ] (h : g.Stands held m) (s : Step) :
    Ends (g.step s) m fun out m' => out.2.Stands held m' := by
  cases s with
  | allocate size tracking =>
    refine (allocate_serving h.ok h.keeps size tracking).bind ?_
    rintro ⟨answer, g'⟩ m' ⟨hserving, h'⟩
    exact ⟨(hserving.spec h.ok).1, h.listed.serving hserving, h'⟩
  | deallocate address size =>
    obtain ⟨hok, hregions, -⟩ := deallocate_spec h.ok h.keeps address size
    refine (Memory.keeps_settle h.keeps _).bind ?_
    rintro ⟨known, g'⟩ m' ⟨hout, h'⟩
    obtain ⟨-, rfl⟩ := Prod.mk.inj hout
    refine ⟨hok, h.listed.deallocate address size, ?_⟩
    show m'.Keeps ((g.deallocate address size).state.regions + held)
    rwa [hregions]
  | compact tracking =>
    refine (compact_spec h.ok h.keeps tracking).bind ?_
    rintro ⟨bytes, g'⟩ m' ⟨rfl, h'⟩
    exact ⟨(withoutEmpty_spec h.ok).1, h.listed.withoutEmpty, h'⟩
  | setBlockSize blockSize => exact h.withSettings g.name blockSize g.alignment
  | configure name blockSize alignment => exact h.withSettings name blockSize alignment
  | setTracking tracking =>
    obtain ⟨hok, hregions, -⟩ := setTracking_spec h.ok tracking
    refine ⟨hok, h.listed.setTracking tracking, ?_⟩
    show m.Keeps ((g.setTracking tracking).regions + held)
    rw [hregions]
    exact h.keeps

/-- `Stands` is preserved by every run, by induction on `steps`. -/
theorem Stands.run [System σ] [LawfulSystem σ] (h : g.Stands held m) (steps : List Step) :
    Ends (g.run steps) m fun g' m' => g'.Stands held m' := by
  induction steps generalizing g m with
  | nil => exact h
  | cons s rest ih =>
    unfold Group.run
    exact (h.step s).bind fun _ _ h' => ih h'

end Memory

/-! ## Soundness -/

/-- The views of a group agree: `order`, `latest` and `blocks` name the same blocks. These are apart
from one another and suit their slots, and the books of each are `InOrder`. -/
structure Sound (g : Group) : Prop where
  order_nodup : g.order.Nodup
  order_perm : g.order.Perm g.blocks.keys
  latest : g.latest = none ∨ ∃ base ∈ g.blocks.keys, g.latest = some base
  base {key : Nat} {b : Block} : g.blocks.find? key = some b → b.base = key
  apart {key key' : Nat} {b b' : Block} : g.blocks.find? key = some b →
    g.blocks.find? key' = some b' → key ≠ key' → b.region.Disjoint b'.region
  aligned {key : Nat} {b : Block} : g.blocks.find? key = some b →
    b.alignment.isPowerOfTwo ∧ 16 ≤ b.layout.alignment ∧ b.alignment ∣ b.layout.alignment ∧
      b.layout.alignment ∣ b.base
  books {key : Nat} {b : Block} : g.blocks.find? key = some b →
    b.tracker.isConsistent = true ∧ b.tracker.capacity = b.capacity

/-- A group that `Stands` is `Sound`. -/
lemma Stands.sound {σ : Type} {m : Memory σ} {held : Multiset Region} (h : g.Stands held m) :
    g.Sound where
  order_nodup := h.listed.order.nodup_iff.2 g.blocks.keys_nodup
  order_perm := h.listed.order
  latest := by
    rcases hlatest : g.latest with _ | base
    · exact .inl rfl
    · exact .inr ⟨base, h.listed.latest base hlatest, rfl⟩
  base hfind := (h.ok.block hfind).1
  apart := disjoint_of_find? h.keeps
  aligned hfind :=
    let ⟨hpower, hminimum, hlayout, hbase⟩ := h.listed.aligned hfind
    ⟨hpower, hminimum, hlayout, hbase⟩
  books hfind :=
    let ⟨hinOrder, hcapacity⟩ := (h.ok.block hfind).2
    ⟨Tracker.isConsistent_of_inOrder hinOrder, hcapacity⟩

/-- After any run from a new group the group is `Sound`, however a lawful system answers. The system
`Keeps` just the regions of its blocks beside those that others held before. -/
theorem sound_of_run {σ : Type} [System σ] [LawfulSystem σ] {m : Memory σ}
    {held : Multiset Region} (h : m.Keeps held) (name : String) (blockSize alignment : Nat)
    (steps : List Step) :
    Ends (run { name, blockSize, alignment } steps) m fun g m' =>
      g.Sound ∧ m'.Keeps (g.regions + held) :=
  ((stands_new h name blockSize alignment).run steps).mono fun _ _ h' => ⟨h'.sound, h'.keeps⟩

/-- The first request and one for a bad alignment fail, the first block leaves, and a new one comes
to its address. -/
theorem sound_of_run_reused_address :
    let m : Memory Arena := ⟨{ Arena.new 4096 .low with failures := 1 }, [], []⟩
    let steps : List Step := [.allocate 100 {}, .allocate 100 {}, .allocate 200 {},
      .configure "bad" 64 48, .allocate 300 {}, .configure "good" 64 8, .deallocate 0 1,
      .deallocate Arena.base 100, .compact {}, .allocate 90 {}]
    m.Keeps 0 ∧ Ends (run { name := "pool", blockSize := 64, alignment := 32 } steps) m fun g m' =>
      g.Sound ∧ g.order = [Arena.base + 128, Arena.base] ∧ g.latest = some Arena.base ∧
        m'.Keeps g.regions := by
  intro m steps
  have hm : m.Keeps 0 := Memory.keeps_new _
  obtain ⟨hsound, hkeeps⟩ := sound_of_run hm "pool" 64 32 steps
  rw [Multiset.add_zero] at hkeeps
  exact ⟨hm, hsound, by decide +kernel, by decide +kernel, hkeeps⟩

end Group

end BlockPool
