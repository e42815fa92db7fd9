import BlockPool.Proofs.Tracker.Slots

/-!
# Free runs are gaps

What is free is told by the slots alone: the free runs of books in order are the longest spans of
the region that meet no slot. So the free space does not remember how the slots came about.

Main statement: the same slots in regions of one capacity leave the same free runs. Hence slots may
come back in any order, and a reservation that is taken back leaves no trace.
-/

namespace BlockPool.Tracker

/-! ## Gaps -/

/-- Whether two spans have no byte in common. -/
def Span.Apart (r s : Span) : Prop := r.stop ≤ s.start ∨ s.stop ≤ r.start

/-- A span of a region of `capacity` bytes that is `Apart` from the spans `taken`. -/
structure IsGap (capacity : Nat) (taken : List Span) (s : Span) : Prop where
  nonempty : s.start < s.stop
  inside : s.stop ≤ capacity
  apart : ∀ r ∈ taken, r.Apart s

/-- A gap, as `IsGap` says, that lies in no other one. -/
structure IsMaximalGap (capacity : Nat) (taken : List Span) (s : Span) : Prop
    extends IsGap capacity taken s where
  maximal : ∀ s', IsGap capacity taken s' → s'.start ≤ s.start → s.stop ≤ s'.stop → s' = s

lemma isGap_congr {capacity : Nat} {taken taken' : List Span} (h : ∀ s, s ∈ taken ↔ s ∈ taken')
    {s : Span} : IsGap capacity taken s ↔ IsGap capacity taken' s :=
  ⟨fun ⟨hpos, hin, hapart⟩ => ⟨hpos, hin, fun r hr => hapart r ((h r).2 hr)⟩,
    fun ⟨hpos, hin, hapart⟩ => ⟨hpos, hin, fun r hr => hapart r ((h r).1 hr)⟩⟩

/-- Whether a span `IsMaximalGap` depends only on which spans are taken. -/
lemma isMaximalGap_congr {capacity : Nat} {taken taken' : List Span}
    (h : ∀ s, s ∈ taken ↔ s ∈ taken') {s : Span} :
    IsMaximalGap capacity taken s ↔ IsMaximalGap capacity taken' s :=
  ⟨fun ⟨hgap, hmax⟩ => ⟨(isGap_congr h).1 hgap, fun s' hs' => hmax s' ((isGap_congr h).2 hs')⟩,
    fun ⟨hgap, hmax⟩ => ⟨(isGap_congr h).2 hgap, fun s' hs' => hmax s' ((isGap_congr h).1 hs')⟩⟩

variable {t u : Tracker}

/-! ## The free runs of books in order -/

/-- Every byte of what `IsGap` lies in a free run. -/
theorem IsGap.exists_run (ht : t.InOrder) {s : Span} (h : IsGap t.capacity t.slotSpans s) {x : Nat}
    (hstart : s.start ≤ x) (hstop : x < s.stop) :
    ∃ o l, t.Holds true o l ∧ o ≤ x ∧ x < o + l := by
  have hinside := h.inside
  obtain ⟨k, o, l, hold, hle, hlt⟩ := ht.covered (x := x) (by omega)
  cases k with
  | true => exact ⟨o, l, hold, hle, hlt⟩
  | false =>
    -- a slot over the byte would meet the gap
    have hapart := h.apart ⟨o, o + l⟩ (ht.mem_slotSpans_iff.2 ⟨l, hold, rfl⟩)
    simp only [Span.Apart] at hapart
    omega

/-- A free run that meets what `IsGap` contains it: what is free around the run would have been
merged with it. -/
theorem IsGap.le_run (ht : t.InOrder) {s : Span} (h : IsGap t.capacity t.slotSpans s) {o l x : Nat}
    (hrun : t.Holds true o l) (hx : s.start ≤ x ∧ x < s.stop) (hox : o ≤ x ∧ x < o + l) :
    o ≤ s.start ∧ s.stop ≤ o + l := by
  constructor
  · by_contra hbefore
    obtain ⟨o', l', hrun', hle, hlt⟩ := h.exists_run ht (x := o - 1) (by omega) (by omega)
    have hapart := ht.apart hrun' hrun (by simp; omega)
    have hend : o' + l' = o := by omega
    exact ht.merged hrun' (hend ▸ hrun)
  · by_contra hbehind
    obtain ⟨o', l', hrun', hle, hlt⟩ := h.exists_run ht (x := o + l) (by omega) (by omega)
    have hne : o ≠ o' := by
      rintro rfl
      have := hrun.length_unique hrun'
      omega
    have hapart := ht.apart hrun hrun' (by simpa using hne)
    have hend : o' = o + l := by omega
    exact ht.merged hrun (hend ▸ hrun')

/-- Each of the `freeSpans` is a gap between the `slotSpans`. -/
lemma InOrder.isGap (ht : t.InOrder) {s : Span} (hs : s ∈ t.freeSpans) :
    IsGap t.capacity t.slotSpans s := by
  obtain ⟨l, hrun, hstop⟩ := ht.mem_freeSpans_iff.1 hs
  have hpos := ht.nonempty hrun
  have hinside := ht.inside hrun
  refine ⟨by omega, by omega, fun r hr => ?_⟩
  obtain ⟨l', hslot, hstop'⟩ := ht.mem_slotSpans_iff.1 hr
  have hapart := ht.apart hslot hrun (by simp)
  unfold Span.Apart
  omega

/-- The `freeSpans` are the maximal gaps between the `slotSpans`. -/
lemma InOrder.mem_freeSpans_iff_isMaximalGap (ht : t.InOrder) {s : Span} :
    s ∈ t.freeSpans ↔ IsMaximalGap t.capacity t.slotSpans s := by
  constructor
  · intro hs
    refine ⟨ht.isGap hs, fun s' hgap hstart hstop => ?_⟩
    obtain ⟨l, hrun, hend⟩ := ht.mem_freeSpans_iff.1 hs
    have hpos := ht.nonempty hrun
    have hle := hgap.le_run ht hrun (x := s.start) (by omega) (by omega)
    obtain ⟨start, stop⟩ := s
    obtain ⟨start', stop'⟩ := s'
    simp only [Span.mk.injEq] at *
    omega
  · intro hmax
    have hpos := hmax.nonempty
    obtain ⟨o, l, hrun, hle, hlt⟩ := hmax.exists_run ht (Nat.le_refl s.start) hpos
    have hin := hmax.le_run ht hrun (x := s.start) (by omega) ⟨hle, hlt⟩
    -- the run over the first byte of the gap is a gap around it, hence the gap itself
    have hs : Span.mk o (o + l) ∈ t.freeSpans := ht.mem_freeSpans_iff.2 ⟨l, hrun, rfl⟩
    rw [← hmax.maximal _ (ht.isGap hs) hin.1 hin.2]
    exact hs

/-! ## The slots tell everything -/

/-- Books with the same `slotSpans` have the same slots. -/
lemma InOrder.slots_eq (ht : t.InOrder) (hu : u.InOrder)
    (h : ∀ s, s ∈ t.slotSpans ↔ s ∈ u.slotSpans) : t.slots = u.slots := by
  refine Table.eq_of_find?_eq fun o => Option.ext fun l => ?_
  have hspan : ∀ {v : Tracker}, v.InOrder →
      (v.slots.find? o = some l ↔ spanOf (o, l) ∈ v.slotSpans) := by
    intro v hv
    rw [hv.slotSpans_eq, List.mem_map_of_injective spanOf_injective]
    exact Table.find?_eq_some_iff
  rw [hspan ht, hspan hu]
  exact h _

/-- The same `slotSpans` in regions of one capacity leave the same free runs. -/
lemma InOrder.free_eq (ht : t.InOrder) (hu : u.InOrder) (hcapacity : t.capacity = u.capacity)
    (h : ∀ s, s ∈ t.slotSpans ↔ s ∈ u.slotSpans) : t.free = u.free := by
  refine Table.eq_of_find?_eq fun o => Option.ext fun l => ?_
  have hspan : ∀ {v : Tracker}, v.InOrder →
      (v.free.find? o = some l ↔ spanOf (o, l) ∈ v.freeSpans) := by
    intro v hv
    rw [hv.mem_freeSpans_iff]
    constructor
    · intro hrun
      exact ⟨l, hrun, rfl⟩
    · rintro ⟨l', hrun, hstop⟩
      obtain rfl : l = l' := by
        simp only [spanOf] at hstop
        omega
      exact hrun
  rw [hspan ht, hspan hu, ht.mem_freeSpans_iff_isMaximalGap, hu.mem_freeSpans_iff_isMaximalGap,
    hcapacity]
  exact isMaximalGap_congr h

/-- The same free runs by offset are the same by length. -/
lemma InOrder.bySize_eq (ht : t.InOrder) (hu : u.InOrder) (h : t.free = u.free) :
    t.bySize = u.bySize := by
  refine Table.eq_of_find?_eq fun run => Option.ext fun _ => ?_
  rw [ht.indexed, hu.indexed]
  show t.free.find? _ = _ ↔ u.free.find? _ = _
  rw [h]

/-- Books `InOrder` are told by the capacity, the slots and the switches. -/
theorem InOrder.eq_of_slots (ht : t.InOrder) (hu : u.InOrder) (hcapacity : t.capacity = u.capacity)
    (htracking : t.tracking = u.tracking) (h : ∀ s, s ∈ t.slotSpans ↔ s ∈ u.slotSpans) : t = u := by
  have hslots := ht.slots_eq hu h
  have hfree := ht.free_eq hu hcapacity h
  have hbySize := ht.bySize_eq hu hfree
  have hreserved : t.reserved = u.reserved := by rw [ht.counted, hu.counted, hslots]
  cases t
  cases u
  simp only [Tracker.mk.injEq]
  exact ⟨hcapacity, hreserved, hfree, hbySize, hslots, htracking⟩

/-! ## Releases in any order -/

/-- One `Step.release` for each slot named by its offset and the size that was asked for. -/
def releases (named : List (Nat × Nat)) : List Step :=
  named.map fun (offset, size) => .release offset size

/-- The spans of the slots that `releases` name, by `slotFor`. -/
def namedSlots (named : List (Nat × Nat)) : List Span :=
  named.map fun (offset, size) => slotFor offset size

/-- What is left after some `releases` are the slots that none of them names. -/
lemma run_releases (ht : t.InOrder) (named : List (Nat × Nat)) :
    (t.run (releases named)).slotSpans.Perm (t.slotSpans.diff (namedSlots named)) ∧
      (t.run (releases named)).tracking = t.tracking := by
  induction named generalizing t with
  | nil => exact ⟨List.Perm.refl _, rfl⟩
  | cons call rest ih =>
    obtain ⟨offset, size⟩ := call
    obtain ⟨hperm, htracking⟩ := ih (inOrder_release ht offset size)
    refine ⟨hperm.trans ?_, htracking.trans (release_tracking t offset size)⟩
    show (List.diff _ (namedSlots rest)).Perm
      (t.slotSpans.diff (slotFor offset size :: namedSlots rest))
    rw [List.diff_cons]
    exact (slotSpans_release ht offset size).diff_right _

/-- The `releases` of the same slots end alike, in whatever order they come. -/
lemma run_releases_eq (ht : t.InOrder) {named named' : List (Nat × Nat)}
    (h : (namedSlots named).Perm (namedSlots named')) :
    t.run (releases named) = t.run (releases named') := by
  obtain ⟨hperm, htracking⟩ := run_releases ht named
  obtain ⟨hperm', htracking'⟩ := run_releases ht named'
  refine (inOrder_run ht _).eq_of_slots (inOrder_run ht _) ?_ (htracking.trans htracking'.symm) ?_
  · rw [capacity_run ht, capacity_run ht]
  · intro s
    rw [hperm.mem_iff, hperm'.mem_iff, h.diff_left]

lemma diff_self (spans : List Span) : spans.diff spans = [] := by
  induction spans with
  | nil => rfl
  | cons s rest ih => rw [List.diff_cons, List.erase_cons_head, ih]

/-- Once every slot came back, the tracker is as `new`. -/
lemma run_releases_eq_new (ht : t.InOrder) {named : List (Nat × Nat)}
    (h : (namedSlots named).Perm t.slotSpans) :
    t.run (releases named) = new t.capacity t.tracking := by
  obtain ⟨hperm, htracking⟩ := run_releases ht named
  rw [h.diff_left, diff_self, List.perm_nil] at hperm
  refine (inOrder_run ht _).eq_of_slots (inOrder_new ht.word _) ?_ ?_ ?_
  · rw [capacity_run ht, capacity_new]
  · rw [htracking, tracking_new]
  · intro s
    rw [hperm, slotSpans, new, addRun_slots]
    rfl

/-- `release` of what `reserve` has just answered leaves no trace. -/
lemma release_reserve (ht : t.InOrder) {size alignment offset : Nat}
    (h : (t.reserve size alignment).answer = some offset) :
    ((t.reserve size alignment).state.release offset size).answer = true ∧
      ((t.reserve size alignment).state.release offset size).state = t := by
  have hreserved := inOrder_reserve ht size alignment
  have hslots := slotSpans_reserve ht h
  constructor
  · rw [release_answer_iff hreserved, hslots.mem_iff]
    exact List.mem_cons_self ..
  · refine (inOrder_release hreserved offset size).eq_of_slots ht ?_ ?_ ?_
    · exact (capacity_step hreserved (.release offset size)).trans
        (capacity_step ht (.reserve size alignment))
    · exact (release_tracking _ offset size).trans (reserve_tracking t size alignment)
    · intro s
      rw [((slotSpans_release hreserved offset size).trans (hslots.erase _)).mem_iff,
        List.erase_cons_head]

/-! ## No history -/

/-- The free space does not remember how the slots came about. Two runs that end with the same
`slotSpans` end with the same `freeSpans`; slots may come back in any order; a reservation that is
taken back leaves the tracker as it was; and once all slots came back, the tracker is as `new`. -/
theorem freeSpace_without_history {capacity : Nat} (hword : capacity < Word.limit)
    (tracking tracking' : Tracking) (steps steps' : List Step) :
    let t := (new capacity tracking).run steps
    let u := (new capacity tracking').run steps'
    ((∀ s, s ∈ t.slotSpans ↔ s ∈ u.slotSpans) →
      t.free = u.free ∧ t.bySize = u.bySize ∧ t.reserved = u.reserved ∧
        (t.tracking = u.tracking → t = u)) ∧
    (∀ named named', (namedSlots named).Perm (namedSlots named') →
      t.run (releases named) = t.run (releases named')) ∧
    (∀ size alignment offset, (t.reserve size alignment).answer = some offset →
      ((t.reserve size alignment).state.release offset size).answer = true ∧
        ((t.reserve size alignment).state.release offset size).state = t) ∧
    ∀ named, (namedSlots named).Perm t.slotSpans →
      t.run (releases named) = new capacity t.tracking := by
  intro t u
  have ht : t.InOrder := inOrder_run (inOrder_new hword tracking) steps
  have hu : u.InOrder := inOrder_run (inOrder_new hword tracking') steps'
  have hcapacity : t.capacity = capacity :=
    (capacity_run (inOrder_new hword tracking) steps).trans (capacity_new ..)
  have hcapacity' : u.capacity = capacity :=
    (capacity_run (inOrder_new hword tracking') steps').trans (capacity_new ..)
  have hsame : t.capacity = u.capacity := hcapacity.trans hcapacity'.symm
  refine ⟨fun hslots => ?_, fun _ _ h => run_releases_eq ht h,
    fun _ _ _ h => release_reserve ht h, fun named h => ?_⟩
  · have hfree := ht.free_eq hu hsame hslots
    refine ⟨hfree, ht.bySize_eq hu hfree, ?_, fun h => ht.eq_of_slots hu hsame h hslots⟩
    rw [ht.counted, hu.counted, ht.slots_eq hu hslots]
  · rw [← hcapacity]
    exact run_releases_eq_new ht h

/-- Two ways to three slots, one of them over a fourth slot that came back. -/
theorem freeSpace_without_history_three_slots :
    let t := (new 64 {}).run [.reserve 16 16, .reserve 8 1, .reserve 0 32]
    let u := (new 64 ⟨true, true⟩).run
      [.reserve 16 16, .reserve 8 1, .reserve 8 1, .reserve 0 1, .release 24 8]
    64 < Word.limit ∧ t.slotSpans = u.slotSpans ∧ t.free = u.free ∧
      t.run (releases [(16, 8), (0, 16)]) = t.run (releases [(0, 16), (16, 8)]) ∧
      (t.reserve 8 8).answer = some 24 ∧ ((t.reserve 8 8).state.release 24 8).state = t ∧
      t.run (releases [(32, 0), (0, 16), (16, 8)]) = new 64 {} := by
  intro t u
  have hslots : t.slotSpans = u.slotSpans := by decide
  have hanswer : (t.reserve 8 8).answer = some 24 := by decide
  obtain ⟨hsame, horder, hback, hall⟩ :=
    freeSpace_without_history (by decide : 64 < Word.limit) {} ⟨true, true⟩
      [.reserve 16 16, .reserve 8 1, .reserve 0 32]
      [.reserve 16 16, .reserve 8 1, .reserve 8 1, .reserve 0 1, .release 24 8]
  refine ⟨by decide, hslots, (hsame fun s => ?_).1, horder _ _ (by decide), hanswer,
    (hback _ _ _ hanswer).2, hall _ (by decide)⟩
  exact iff_of_eq (congrArg (s ∈ ·) hslots)

end BlockPool.Tracker
