import BlockPool.Proofs.World.Alignment
import BlockPool.Proofs.World.Setup
import Mathlib.Order.Bounds.Defs

/-!
# The heap at the end of a chain

The alignment of the heap that an allocator falls back on is settled when the allocator is made or
starts anew: it is the greatest power of two among the default alignment and the alignments of the
groups that are made then. What the heap hands out goes back with the alignment of the heap, so
setting a group later does not change it. The heap meets every power of two up to its alignment,
and so what every affinity promises until a group gets a greater alignment; after that, what it
offers is checked against the promise.

A default alignment that is greater than all of these powers of two is taken as it is, so for that
case nothing is said of the heap.
-/

namespace BlockPool

/-- The greatest power of two among some numbers, or one if there is none. -/
def IsLargestPower (among : List Nat) (n : Nat) : Prop :=
  IsGreatest {m | m ∈ among ∧ m.isPowerOfTwo} n ∨ (∀ m ∈ among, ¬ m.isPowerOfTwo) ∧ n = 1

namespace IsLargestPower

variable {among among' : List Nat} {m n : Nat}

/-- What `IsLargestPower` names is a power of two. -/
lemma isPowerOfTwo (h : IsLargestPower among n) : n.isPowerOfTwo := by
  rcases h with h | ⟨-, rfl⟩
  · exact h.1.2
  · exact Nat.isPowerOfTwo_one

/-- All powers of two among the numbers divide the one that `IsLargestPower` names. -/
lemma dvd (h : IsLargestPower among n) (hmem : m ∈ among) (hpower : m.isPowerOfTwo) : m ∣ n := by
  rcases h with h | ⟨hnone, -⟩
  · exact World.dvd_of_isPowerOfTwo_of_le hpower h.1.2 (h.2 ⟨hmem, hpower⟩)
  · exact absurd hpower (hnone m hmem)

lemma congr (h : IsLargestPower among n) (hsame : ∀ m, m ∈ among' ↔ m ∈ among) :
    IsLargestPower among' n := by
  unfold IsLargestPower at *
  simpa only [hsame] using h

/-- The greatest of the powers of two and `d` is `IsLargestPower`, if `d` is not above all powers of
two. -/
lemma of_foldl {d : Nat} {l : List Nat}
    (hcapped : ∃ m ∈ 1 :: d :: l, m.isPowerOfTwo ∧ d ≤ m) :
    IsLargestPower (d :: l) (max ((l.filter (·.isPowerOfTwo)).foldl max d) 1) := by
  have hmax : (d :: l.filter (·.isPowerOfTwo)).max? =
      some ((l.filter (·.isPowerOfTwo)).foldl max d) := List.max?_cons'
  obtain ⟨hmem, hgreatest⟩ := List.max?_eq_some_iff.1 hmax
  set top := (l.filter (·.isPowerOfTwo)).foldl max d
  have hupper : ∀ m ∈ d :: l, m.isPowerOfTwo → m ≤ top := by
    intro m hm hpower
    rcases List.mem_cons.1 hm with rfl | hm
    · exact hgreatest m List.mem_cons_self
    · refine hgreatest m (List.mem_cons_of_mem _ (List.mem_filter.2 ⟨hm, ?_⟩))
      exact decide_eq_true hpower
  have hd : d ≤ top := hgreatest d List.mem_cons_self
  -- the greatest number is a power of two, or both it and the default alignment are at most one
  have htop : top ∈ d :: l ∧ top.isPowerOfTwo ∨ top ≤ 1 := by
    rcases List.mem_cons.1 hmem with htop | htop
    · obtain ⟨m, hm, hpower, hle⟩ := hcapped
      rcases List.mem_cons.1 hm with rfl | hm
      · exact .inr (htop ▸ hle)
      · obtain rfl : top = m := Nat.le_antisymm (htop ▸ hle) (hupper m hm hpower)
        exact .inl ⟨hm, hpower⟩
    · obtain ⟨htop, hpower⟩ := List.mem_filter.1 htop
      exact .inl ⟨List.mem_cons_of_mem _ htop, of_decide_eq_true hpower⟩
  rcases htop with ⟨htop, hpower⟩ | hle
  · left
    rw [Nat.max_eq_left (Nat.pos_of_isPowerOfTwo hpower)]
    exact ⟨⟨htop, hpower⟩, fun m hm => hupper m hm.1 hm.2⟩
  · rw [Nat.max_eq_right hle]
    by_cases hone : ∃ m ∈ d :: l, m.isPowerOfTwo
    · obtain ⟨m, hm, hpower⟩ := hone
      obtain rfl : m = 1 := Nat.le_antisymm ((hupper m hm hpower).trans hle)
        (Nat.pos_of_isPowerOfTwo hpower)
      exact .inl ⟨⟨hm, hpower⟩, fun m hm => (hupper m hm.1 hm.2).trans hle⟩
    · exact .inr ⟨fun m hm hpower => hone ⟨m, hm, hpower⟩, rfl⟩

end IsLargestPower

/-! ## Alignments of an allocator -/

namespace Allocator

variable {a : Allocator}

/-- The default alignment, and the `alignment` of each group that is there. -/
def alignments (a : Allocator) : List Nat := a.defaultAlignment :: a.groups.values.map (·.alignment)

/-- The default alignment is zero, a power of two, or not above a power of two among
`a.alignments`. -/
def Capped (a : Allocator) : Prop :=
  ∃ n ∈ 1 :: a.alignments, n.isPowerOfTwo ∧ a.defaultAlignment ≤ n

/-- `a.alignments` are the default and the alignments of the groups that are stored. -/
lemma mem_alignments_iff {n : Nat} :
    n ∈ a.alignments ↔ n = a.defaultAlignment ∨
      ∃ affinity, (a.groups.find? affinity).isSome ∧ a.alignmentFor affinity = n := by
  unfold alignments
  rw [List.mem_cons, List.mem_map]
  refine or_congr_right ⟨?_, ?_⟩
  · rintro ⟨g, hg, rfl⟩
    obtain ⟨affinity, hfind⟩ := Table.mem_values_iff.1 hg
    exact ⟨affinity, hfind ▸ rfl, alignmentFor_of_find? hfind⟩
  · rintro ⟨affinity, hsome, rfl⟩
    obtain ⟨g, hfind⟩ := Option.isSome_iff_exists.1 hsome
    exact ⟨g, Table.mem_values_iff.2 ⟨affinity, hfind⟩, (alignmentFor_of_find? hfind).symm⟩

/-- `alignmentFor` is one of `a.alignments`. -/
lemma alignmentFor_mem (a : Allocator) (affinity : Affinity) :
    a.alignmentFor affinity ∈ a.alignments := by
  rw [mem_alignments_iff]
  rcases hfind : a.groups.find? affinity with _ | g
  · left
    unfold alignmentFor
    rw [hfind]
    rfl
  · exact .inr ⟨affinity, hfind ▸ rfl, rfl⟩

/-- A `Regrouped` allocator has the same `alignments` if no affinity has another one. -/
lemma Regrouped.mem_alignments_iff {a' : Allocator} {kept : Affinity → Prop}
    (h : a.Regrouped kept a')
    (hsame : ∀ affinity, a'.alignmentFor affinity = a.alignmentFor affinity) (n : Nat) :
    n ∈ a'.alignments ↔ n ∈ a.alignments := by
  constructor
  · intro hn
    rcases Allocator.mem_alignments_iff.1 hn with rfl | ⟨affinity, -, rfl⟩
    · rw [h.defaultAlignment]
      exact List.mem_cons_self
    · rw [hsame]
      exact a.alignmentFor_mem affinity
  · intro hn
    rcases Allocator.mem_alignments_iff.1 hn with rfl | ⟨affinity, hsome, rfl⟩
    · rw [← h.defaultAlignment]
      exact List.mem_cons_self
    · rw [← hsame]
      exact a'.alignmentFor_mem affinity

end Allocator

/-! ## What the heap offers -/

/-- A heap answers multiples of `h.alignment`. -/
lemma Heap.allocate_aligned {σ : Type} [System σ] [LawfulSystem σ] (h : Heap) (size : Nat)
    (m : Memory σ) :
    Ends (h.allocate size) m fun answer _ =>
      ∀ address, answer = some address → h.alignment ∣ address := by
  unfold allocate
  split
  · rename_i hsource
    split
    · have halignment : (h.layoutFor size).alignment = h.alignment := by
        unfold layoutFor
        rw [hsource]
      intro address hanswer
      rw [← halignment]
      exact Nat.dvd_of_mod_eq_zero (LawfulSystem.place_lawful (Prod.ext hanswer rfl)).2.1
    · exact fun address hanswer => absurd hanswer (Option.some_ne_none address).symm
  · refine Ends.trivial.bind fun offered _ _ => ?_
    cases offered with
    | none => exact fun address hanswer => absurd hanswer (Option.some_ne_none address).symm
    | some offered =>
      simp only
      split
      · rename_i hmeets
        intro address hanswer
        rw [← Option.some.inj hanswer]
        exact Nat.dvd_of_mod_eq_zero hmeets
      · refine Ends.trivial.bind fun _ _ _ => Ends.trivial.bind fun _ _ _ => ?_
        exact fun address hanswer => absurd hanswer (Option.some_ne_none address).symm

/-- The alignment of the heap at the end of the chain of an allocator with a `Setup`, and what
follows from it. -/
structure Setup.Aligns (σ : Type) [System σ] (x : Setup) (a : Allocator) (heap : Heap) : Prop where
  /-- It is settled by the default alignment and the groups that the allocator was made with. -/
  settled : IsLargestPower x.fresh.alignments heap.alignment
  /-- It is that of the present groups if each group that was set has the alignment it had. -/
  present : (∀ affinity ∈ x.configured,
      a.alignmentFor affinity = x.fresh.alignmentFor affinity) →
    IsLargestPower a.alignments heap.alignment
  /-- The layouts that are asked for and given back have an alignment that is valid. -/
  layout (size : Nat) : (heap.layoutFor size).alignment.isPowerOfTwo
  /-- It is not below the alignment of any affinity for which no group was set. -/
  covered : ∀ affinity ∉ x.configured, (a.alignmentFor affinity).isPowerOfTwo →
    a.alignmentFor affinity ≤ heap.alignment
  /-- What the heap offers meets every alignment that is not above its own. -/
  offered (size : Nat) (m : Memory σ) :
    Ends (heap.allocate size) m fun answer _ => ∀ address, answer = some address →
      ∀ alignment : Nat, alignment.isPowerOfTwo → alignment ≤ heap.alignment → alignment ∣ address

namespace Setup

variable {x : Setup} {a : Allocator} {heap : Heap}

/-- Without a `backing`, the chain ends without a heap. -/
lemma Describes.backstop_eq_none (h : x.Describes a) (hbacking : a.backing = .absent) :
    a.backstop = none := by
  have habsent : x.settings.backing = .absent := h.backing.symm.trans hbacking
  rw [h.backstop_eq]
  simp [fresh, Allocator.ofSettings, habsent, Backing.heap?]

/-- With a `backing`, the chain ends with a heap of that kind, which has `backstopAlignment` of the
allocator as it was made. -/
lemma Describes.exists_backstop (h : x.Describes a) (hbacking : a.backing ≠ .absent) :
    ∃ heap, a.backstop = some heap ∧ (heap.source = .sized ↔ a.backing = .sized) ∧
      heap.alignment = max (Allocator.backstopAlignment x.fresh.defaultAlignment
        x.fresh.groups.values) 1 := by
  have hheap : a.backstop = a.backing.heap?
      (Allocator.backstopAlignment x.fresh.defaultAlignment x.fresh.groups.values) := by
    rw [h.backstop_eq, h.backing]
    rfl
  rw [hheap]
  cases hkind : a.backing with
  | sized => exact ⟨_, rfl, iff_of_true rfl rfl, rfl⟩
  | unsized => exact ⟨_, rfl, iff_of_false Source.noConfusion Backing.noConfusion, rfl⟩
  | absent => exact absurd hkind hbacking

/-- A heap with `backstopAlignment` of a `Capped` allocator is as `Aligns` says. -/
lemma Describes.aligns {σ : Type} [System σ] [LawfulSystem σ] (h : x.Describes a)
    (hcapped : x.fresh.Capped)
    (hheap : heap.alignment = max (Allocator.backstopAlignment x.fresh.defaultAlignment
      x.fresh.groups.values) 1) : x.Aligns σ a heap := by
  have hsettled : IsLargestPower x.fresh.alignments heap.alignment :=
    hheap ▸ IsLargestPower.of_foldl hcapped
  refine ⟨hsettled, fun hsame => ?_, fun size => ?_, fun affinity hnot hpower => ?_,
    fun size m => ?_⟩
  · refine hsettled.congr (Allocator.Regrouped.mem_alignments_iff h fun affinity => ?_)
    by_cases hset : affinity ∈ x.configured
    · exact hsame affinity hset
    · exact h.alignment hset
  · unfold Heap.layoutFor
    split
    · exact hsettled.isPowerOfTwo
    · exact ⟨4, rfl⟩
  · rw [h.alignment hnot] at hpower ⊢
    exact Nat.le_of_dvd (Nat.pos_of_isPowerOfTwo hsettled.isPowerOfTwo)
      (hsettled.dvd (x.fresh.alignmentFor_mem affinity) hpower)
  · refine (heap.allocate_aligned size m).mono fun answer _ hdvd address hanswer alignment => ?_
    intro hpower hle
    exact (World.dvd_of_isPowerOfTwo_of_le hpower hsettled.isPowerOfTwo hle).trans
      (hdvd address hanswer)

end Setup

/-! ## Runs -/

namespace World

variable {σ : Type} [System σ] {w : World σ} {id : Nat}

/-- When its group fails, what an allocator answers is a multiple of `a.alignmentFor affinity`. -/
lemma allocateWith_fallback (links : Links σ) (a : Allocator) (size : Nat) (affinity : Affinity)
    (chain : Chain) (hpower : (a.alignmentFor affinity).isPowerOfTwo) {reason : AllocationError}
    (hfails : (a.allocatePooled size affinity w.memory).1.1 = .error reason) :
    Ends (allocateWith links id a chain size affinity) w fun answer _ =>
      ∀ address, answer = .ok address → a.alignmentFor affinity ∣ address := by
  have hpool : Ends (onMemory (a.allocatePooled size affinity)) w fun out _ =>
      out.1 = .error reason ∧ out.2.alignmentFor affinity = a.alignmentFor affinity :=
    ⟨hfails, ((a.allocatePooled_frame size affinity w.memory).mono fun _ _ h => h.2)⟩
  unfold allocateWith
  refine hpool.bind ?_
  rintro ⟨answer, a'⟩ w₁ ⟨rfl, halignment⟩
  refine Ends.trivial.bind fun _ w₂ _ => ?_
  refine (serveFrom_meets links size affinity _ (a'.strategies chain) w₂).bind ?_
  intro answer w₃ hmeets
  cases answer with
  | some address =>
    intro address' haddress
    obtain rfl := Except.ok.inj haddress
    have halignment : a'.alignmentFor affinity = a.alignmentFor affinity := halignment
    have hmeets := hmeets address rfl
    rw [halignment] at hmeets
    exact Nat.dvd_of_mod_eq_zero (hmeets hpower)
  | none =>
    refine Ends.trivial.bind fun _ _ _ => ?_
    intro address haddress
    cases haddress

/-- After any run from an allocator as it was made, its setup settles the heap at the end of its
chain and the alignment of that heap, as `Aligns` says. Whatever serves a request when the group of
its affinity fails, the heap or another fallback, has the alignment that the affinity promises. -/
theorem backstop_alignment [LawfulSystem σ] {settings : Settings} {nested : List Strategy}
    (h : w.allocator? id = some (.ofSettings settings nested)) (steps : List Step) :
    Ends (run steps) w fun _ w' =>
      let x := steps.foldl (Setup.after id) { settings, nested }
      ∃ a, w'.allocator? id = some a ∧ a.backing = x.settings.backing ∧
        (a.backing ≠ .absent → ∃ heap, a.backstop = some heap ∧
          (heap.source = .sized ↔ a.backing = .sized) ∧
            (x.fresh.Capped → x.Aligns σ a heap)) ∧
        ∀ size affinity reason, (a.alignmentFor affinity).isPowerOfTwo →
          (a.allocatePooled size affinity w'.memory).1.1 = .error reason →
            Ends (allocate id .full size affinity) w' fun answer _ =>
              ∀ address, answer = some (.ok address) → a.alignmentFor affinity ∣ address := by
  refine ((hasSetup_fresh h).run steps).mono fun _ w' ⟨a, ha, hdescribes⟩ => ?_
  refine ⟨a, ha, hdescribes.backing, fun hbacking => ?_, ?_⟩
  · obtain ⟨heap, hheap, hsource, halignment⟩ := hdescribes.exists_backstop hbacking
    exact ⟨heap, hheap, hsource, fun hcapped => hdescribes.aligns hcapped halignment⟩
  · intro size affinity reason hpower hfails
    refine ends_allocate_there ha ?_
    refine (allocateWith_fallback _ a size affinity .full hpower hfails).mono ?_
    exact fun answer _ hdvd address hanswer => hdvd address (Option.some.inj hanswer)

/-- Settings with a default alignment that is no power of two, but above that of a group. -/
def unevenDefault : Settings :=
  { defaultAlignment := 24
    groups := [{ GroupSettings.new .data 4096 with alignment := some 16 }] }

/-- One allocator over a system that refuses the next request. -/
def refusing : World Arena where
  memory := { system := { Arena.new 65536 .low with failures := 1 } }
  allocators := [.ofSettings { } []]

/-- A group that is set later may have a greater alignment than the heap, and a default alignment
that is no power of two may leave the heap without a valid layout. -/
theorem backstop_not_largest :
    (Ends (run realign) small fun _ w' => ∃ a heap, w'.allocator? 0 = some a ∧
      a.backing = .sized ∧ a.backstop = some heap ∧
        ¬ IsLargestPower a.alignments heap.alignment) ∧
      ∃ heap, (Allocator.ofSettings unevenDefault []).backing = .sized ∧
        (Allocator.ofSettings unevenDefault []).backstop = some heap ∧
          ¬ IsLargestPower (Allocator.ofSettings unevenDefault []).alignments heap.alignment ∧
            ¬ (heap.layoutFor 8).IsValid := by
  refine ⟨⟨_, _, rfl, rfl, rfl, fun h => ?_⟩, _, rfl, rfl, fun h => ?_, ?_⟩
  · have hdvd : 64 ∣ 8 := h.dvd (by decide) ⟨6, rfl⟩
    exact absurd hdvd (by decide)
  · exact absurd h.isPowerOfTwo (by decide)
  · decide

/-- Settings with a greater alignment for one group, and then a group that is set. -/
def resettled : List Step :=
  [.reset 0 { groups := [{ GroupSettings.new .physics 4096 with alignment := some 32 }] },
    .configureGroup 0 { GroupSettings.new .data 4096 with alignment := some 64 }]

/-- The heap has the alignment of the settings, whatever group is set later. It serves when the
system refuses a block. -/
theorem backstop_alignment_resettled :
    Ends (run resettled) refusing fun _ w' => ∃ a, w'.allocator? 0 = some a ∧
      (∃ heap, a.backstop = some heap ∧ IsLargestPower [8, 32] heap.alignment) ∧
        Ends (allocate 0 .full 1 .data) w' fun answer _ =>
          answer = some (.ok Arena.base) ∧ 64 ∣ Arena.base := by
  obtain ⟨a, ha, hbacking, hheap, hserved⟩ :=
    backstop_alignment (rfl : refusing.allocator? 0 = some (.ofSettings { } [])) resettled
  obtain rfl := Option.some.inj ha
  obtain ⟨heap, hbackstop, -, haligns⟩ := hheap (by decide)
  refine ⟨_, rfl, ⟨heap, hbackstop, (haligns ⟨8, by decide, ⟨3, rfl⟩, by decide⟩).settled⟩, rfl, ?_⟩
  exact hserved 1 .data _ ⟨6, rfl⟩ rfl _ rfl

end World

end BlockPool
