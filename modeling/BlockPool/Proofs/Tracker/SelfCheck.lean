import BlockPool.Proofs.Tracker.Release

/-!
# The self-check of a tracker

The self-check sorts the free runs and the slots into one list and walks along it with a cursor.
On books in order the list runs from the start of the region to its end, so the walk succeeds.

Main statement: whatever is done to a new tracker, its books stay in order, its self-check
succeeds, and no action reports an inconsistency.
-/

namespace BlockPool.Tracker

/-! ## Sorting pieces -/

/-- `insertPiece` adds a piece to those that are there. -/
lemma insertPiece_perm (p : Piece) (ps : List Piece) : (insertPiece p ps).Perm (p :: ps) := by
  induction ps with
  | nil => exact List.Perm.refl _
  | cons q rest ih =>
    unfold insertPiece
    split
    · exact List.Perm.refl _
    · exact (List.Perm.cons q ih).trans (List.Perm.swap p q rest)

lemma foldr_insertPiece_perm (ps qs : List Piece) :
    (ps.foldr insertPiece qs).Perm (ps ++ qs) := by
  induction ps with
  | nil => exact List.Perm.refl _
  | cons p rest ih => exact (insertPiece_perm p _).trans (List.Perm.cons p ih)

/-- `insertPiece` keeps pieces in the order of where they start. -/
lemma pairwise_insertPiece (p : Piece) {ps : List Piece}
    (h : ps.Pairwise fun q r => q.span.start ≤ r.span.start) :
    (insertPiece p ps).Pairwise fun q r => q.span.start ≤ r.span.start := by
  induction ps with
  | nil => exact List.pairwise_singleton ..
  | cons q rest ih =>
    obtain ⟨hhead, htail⟩ := List.pairwise_cons.1 h
    unfold insertPiece
    split
    · rename_i hle
      refine List.pairwise_cons.2 ⟨fun r hr => ?_, h⟩
      rcases List.mem_cons.1 hr with rfl | hr
      · exact hle
      · exact Nat.le_trans hle (hhead r hr)
    · rename_i hnle
      refine List.pairwise_cons.2 ⟨fun r hr => ?_, ih htail⟩
      rcases List.mem_cons.1 ((insertPiece_perm p rest).mem_iff.1 hr) with rfl | hr
      · omega
      · exact hhead r hr

/-- Sorting with `insertPiece` puts pieces in the order of where they start. -/
lemma pairwise_foldr_insertPiece (ps : List Piece) {qs : List Piece}
    (h : qs.Pairwise fun q r => q.span.start ≤ r.span.start) :
    (ps.foldr insertPiece qs).Pairwise fun q r => q.span.start ≤ r.span.start := by
  induction ps with
  | nil => exact h
  | cons p rest ih => exact pairwise_insertPiece p ih

/-! ## The pieces of books in order -/

variable {t : Tracker}

/-- The `spans` of a table are those of its entries, if each of these stops at a word. -/
lemma mem_spans_iff {lengths : Table Nat Nat}
    (hword : ∀ o l, lengths.find? o = some l → o + l < Word.limit) {s : Span} :
    s ∈ spans lengths ↔ ∃ l, lengths.find? s.start = some l ∧ s.stop = s.start + l := by
  unfold spans
  rw [List.mem_map]
  constructor
  · rintro ⟨⟨o, l⟩, hmem, rfl⟩
    have hfind := Table.find?_eq_some_iff.2 hmem
    exact ⟨l, hfind, Word.add_eq (hword o l hfind)⟩
  · rintro ⟨l, hfind, hstop⟩
    refine ⟨(s.start, l), Table.find?_eq_some_iff.1 hfind, ?_⟩
    show Span.mk s.start (Word.add s.start l) = s
    rw [Word.add_eq (hword _ l hfind), ← hstop]

/-- Every piece stops below `Word.limit`, so that no span wraps around. -/
def Words (t : Tracker) : Prop := ∀ k o l, t.Holds k o l → o + l < Word.limit

lemma InOrder.stop_lt (ht : t.InOrder) {k : Bool} {o l : Nat} (h : t.Holds k o l) :
    o + l < Word.limit :=
  Nat.lt_of_le_of_lt (ht.inside h) ht.word

lemma InOrder.words (ht : t.InOrder) : t.Words := fun _ _ _ h => ht.stop_lt h

/-- The `freeSpans` are the free runs, each from its offset to its end. -/
lemma Words.mem_freeSpans_iff (ht : t.Words) {s : Span} :
    s ∈ t.freeSpans ↔ ∃ l, t.Holds true s.start l ∧ s.stop = s.start + l :=
  mem_spans_iff fun _ _ h => ht true _ _ h

/-- The `slotSpans` are the slots, each from its offset to its end. -/
lemma Words.mem_slotSpans_iff (ht : t.Words) {s : Span} :
    s ∈ t.slotSpans ↔ ∃ l, t.Holds false s.start l ∧ s.stop = s.start + l :=
  mem_spans_iff fun _ _ h => ht false _ _ h

lemma InOrder.mem_freeSpans_iff (ht : t.InOrder) {s : Span} :
    s ∈ t.freeSpans ↔ ∃ l, t.Holds true s.start l ∧ s.stop = s.start + l :=
  ht.words.mem_freeSpans_iff

lemma InOrder.mem_slotSpans_iff (ht : t.InOrder) {s : Span} :
    s ∈ t.slotSpans ↔ ∃ l, t.Holds false s.start l ∧ s.stop = s.start + l :=
  ht.words.mem_slotSpans_iff

/-- The `pieces` are the free runs and the slots together. -/
lemma mem_pieces_iff (ht : t.Words) {p : Piece} :
    p ∈ t.pieces ↔ ∃ l, t.Holds p.isFree p.span.start l ∧ p.span.stop = p.span.start + l := by
  unfold pieces
  rw [(foldr_insertPiece_perm _ _).mem_iff, List.mem_append, List.mem_map, List.mem_map]
  constructor
  · rintro (⟨s, hs, rfl⟩ | ⟨s, hs, rfl⟩)
    · exact ht.mem_freeSpans_iff.1 hs
    · exact ht.mem_slotSpans_iff.1 hs
  · obtain ⟨s, k⟩ := p
    intro h
    cases k
    · exact .inr ⟨s, ht.mem_slotSpans_iff.2 h, rfl⟩
    · exact .inl ⟨s, ht.mem_freeSpans_iff.2 h, rfl⟩

/-- The `spans` of a table are in the order of their offsets. -/
lemma pairwise_spans (lengths : Table Nat Nat) :
    (spans lengths).Pairwise fun r s => r.start < s.start :=
  List.pairwise_map.2 lengths.ordered

/-- Each of the `pieces` stops before the next one starts. -/
lemma pairwise_pieces (ht : t.InOrder) :
    t.pieces.Pairwise fun p q => p.span.stop ≤ q.span.start := by
  -- no piece stands twice in the list, so pieces at different places differ in kind or offset
  have hdistinct : t.pieces.Pairwise fun p q =>
      (p.isFree, p.span.start) ≠ (q.isFree, q.span.start) := by
    refine List.Perm.pairwise (foldr_insertPiece_perm _ _).symm ?_ fun {p q} h => h.symm
    rw [List.pairwise_append, List.pairwise_map, List.pairwise_map]
    refine ⟨(pairwise_spans _).imp ?_, (pairwise_spans _).imp ?_, ?_⟩
    · intro r s hlt heq
      exact absurd (Prod.mk.inj heq).2 (Nat.ne_of_lt hlt)
    · intro r s hlt heq
      exact absurd (Prod.mk.inj heq).2 (Nat.ne_of_lt hlt)
    · intro p hp q hq
      obtain ⟨r, -, rfl⟩ := List.mem_map.1 hp
      obtain ⟨s, -, rfl⟩ := List.mem_map.1 hq
      simp
  have hsorted : t.pieces.Pairwise fun p q => p.span.start ≤ q.span.start := by
    refine pairwise_foldr_insertPiece _ (List.pairwise_map.2 ((pairwise_spans _).imp ?_))
    intro r s hlt
    exact Nat.le_of_lt hlt
  refine List.Pairwise.imp_of_mem ?_ (hdistinct.and hsorted)
  rintro p q hp hq ⟨hne, hle⟩
  obtain ⟨l, hpl, hstop⟩ := (mem_pieces_iff ht.words).1 hp
  obtain ⟨l', hql, hstop'⟩ := (mem_pieces_iff ht.words).1 hq
  have := ht.apart hpl hql hne
  have := ht.nonempty hql
  omega

/-- `follow` succeeds on pieces that lie side by side from the cursor to the limit. -/
lemma follow_eq_true {limit : Nat} {ps : List Piece} {cursor : Nat} {afterFree : Bool}
    (hcursor : cursor ≤ limit)
    (hpair : ps.Pairwise fun p q => p.span.stop ≤ q.span.start)
    (hpiece : ∀ p ∈ ps, cursor ≤ p.span.start ∧ p.span.start < p.span.stop ∧ p.span.stop ≤ limit)
    (hcover : ∀ x, cursor ≤ x → x < limit → ∃ p ∈ ps, p.span.start ≤ x ∧ x < p.span.stop)
    (hafter : afterFree = true → ∀ p ∈ ps, p.isFree = true → p.span.start ≠ cursor)
    (hmerged : ∀ p ∈ ps, p.isFree = true → ∀ q ∈ ps, q.isFree = true →
      q.span.start ≠ p.span.stop) :
    follow limit cursor afterFree ps = true := by
  induction ps generalizing cursor afterFree with
  | nil =>
    have hend : cursor = limit := by
      by_contra hne
      obtain ⟨p, hp, -⟩ := hcover cursor (Nat.le_refl _) (by omega)
      exact absurd hp (by simp)
    simp [follow, hend]
  | cons p rest ih =>
    obtain ⟨hhead, htail⟩ := List.pairwise_cons.1 hpair
    have hp := hpiece p (List.mem_cons_self ..)
    -- the piece over the cursor cannot be behind the first one
    have hstart : p.span.start = cursor := by
      obtain ⟨q, hq, hle, hlt⟩ := hcover cursor (Nat.le_refl _) (by omega)
      rcases List.mem_cons.1 hq with rfl | hq
      · omega
      · have := hhead q hq
        omega
    have hapart : (p.isFree && afterFree) = false := by
      by_contra hboth
      rw [Bool.not_eq_false, Bool.and_eq_true] at hboth
      exact hafter hboth.2 p (List.mem_cons_self ..) hboth.1 hstart
    have hrest : follow limit p.span.stop p.isFree rest = true := by
      apply ih hp.2.2 htail
      · intro q hq
        have := hpiece q (List.mem_cons_of_mem _ hq)
        exact ⟨hhead q hq, this.2⟩
      · intro x hlo hhi
        obtain ⟨q, hq, hle, hlt⟩ := hcover x (by omega) hhi
        rcases List.mem_cons.1 hq with rfl | hq
        · omega
        · exact ⟨q, hq, hle, hlt⟩
      · intro hfree q hq hqfree
        exact hmerged p (List.mem_cons_self ..) hfree q (List.mem_cons_of_mem _ hq) hqfree
      · intro q hq hqfree r hr hrfree
        exact hmerged q (List.mem_cons_of_mem _ hq) hqfree r (List.mem_cons_of_mem _ hr) hrfree
    simp [follow, hstart, hapart, hrest, hstart ▸ hp.2.1]

/-- `follow` succeeds on the `pieces` of books in order, which fill the region. -/
lemma follow_pieces (ht : t.InOrder) : follow t.capacity 0 false t.pieces = true := by
  apply follow_eq_true (Nat.zero_le _) (pairwise_pieces ht)
  · intro p hp
    obtain ⟨l, hold, hstop⟩ := (mem_pieces_iff ht.words).1 hp
    have := ht.nonempty hold
    have := ht.inside hold
    omega
  · intro x _ hx
    obtain ⟨k, o, l, hold, hle, hlt⟩ := ht.covered hx
    exact ⟨⟨⟨o, o + l⟩, k⟩, (mem_pieces_iff ht.words).2 ⟨l, hold, rfl⟩, hle, hlt⟩
  · intro h
    exact absurd h (by simp)
  · intro p hp hfree q hq hqfree hstart
    obtain ⟨l, hold, hstop⟩ := (mem_pieces_iff ht.words).1 hp
    obtain ⟨l', hold', -⟩ := (mem_pieces_iff ht.words).1 hq
    rw [hfree] at hold
    rw [hqfree, hstart, hstop] at hold'
    exact ht.merged hold hold'

/-! ## The self-check -/

/-- The free runs in the order of their offsets. -/
def freeRuns (t : Tracker) : List Run := t.free.entries.map fun e => ⟨e.1, e.2⟩

lemma mem_freeRuns_iff {run : Run} : run ∈ t.freeRuns ↔ t.Holds true run.offset run.length := by
  unfold freeRuns
  rw [List.mem_map]
  constructor
  · rintro ⟨⟨o, l⟩, hmem, rfl⟩
    exact Table.find?_eq_some_iff.2 hmem
  · intro hold
    exact ⟨(run.offset, run.length), Table.find?_eq_some_iff.1 hold, rfl⟩

lemma freeRuns_nodup (t : Tracker) : t.freeRuns.Nodup := by
  refine List.pairwise_map.2 (t.free.ordered.imp ?_)
  intro e f hlt heq
  exact absurd (congrArg Run.offset heq) (Nat.ne_of_lt hlt)

/-- There are as many runs in `bySize` as in `free`. -/
lemma size_bySize (ht : t.InOrder) : t.bySize.size = t.free.size := by
  have hperm : t.bySize.keys.Perm t.freeRuns := by
    rw [List.perm_ext_iff_of_nodup t.bySize.keys_nodup t.freeRuns_nodup]
    intro run
    rw [Table.mem_keys_iff, mem_freeRuns_iff, ← ht.indexed]
    exact ⟨fun ⟨_, hfind⟩ => hfind, fun hfind => ⟨(), hfind⟩⟩
  have hlength := hperm.length_eq
  rwa [Table.keys, freeRuns, List.length_map, List.length_map] at hlength

/-- `Word.sum` does not wrap around below `Word.limit`, and is then the `total`. -/
lemma sum_eq_total {words : List Nat} (h : total words < Word.limit) :
    Word.sum words = total words := by
  suffices hfold : ∀ start, start + total words < Word.limit →
      words.foldl Word.add start = start + total words by
    have := hfold 0 (by omega)
    rwa [Nat.zero_add] at this
  clear h
  induction words with
  | nil => intro start _; rfl
  | cons n rest ih =>
    intro start hstart
    rw [total_cons] at hstart ⊢
    rw [List.foldl_cons, Word.add_eq (by omega), ih _ (by omega), Nat.add_assoc]

/-- The self-check `isConsistent` succeeds on books `InOrder`. -/
theorem isConsistent_of_inOrder (ht : t.InOrder) : t.isConsistent = true := by
  have hsum : Word.sum t.slots.values = t.reserved := by
    have hle := ht.total_slots_le
    have hword := ht.word
    rw [sum_eq_total (by omega), ht.counted]
  have hall : ∀ e ∈ t.free.entries, t.bySize.contains ⟨e.1, e.2⟩ = true := by
    intro e hmem
    have hindexed : t.bySize.find? ⟨e.1, e.2⟩ = some () :=
      ht.indexed.2 (Table.find?_eq_some_iff.2 hmem)
    simp [Table.contains, hindexed]
  unfold isConsistent
  rw [follow_pieces ht, hsum, List.all_eq_true.2 hall]
  simp [size_bySize ht]

/-- What is `reserved` and what is `available` add up to the capacity. -/
lemma InOrder.reserved_add_available (ht : t.InOrder) :
    t.reserved + t.available = t.capacity := by
  have hle := ht.reserved_le
  unfold available
  rw [Word.sub_eq hle ht.word]
  omega

/-- `isEmpty` says that there is no slot. -/
lemma InOrder.isEmpty_iff (ht : t.InOrder) : t.isEmpty = true ↔ t.slotCount = 0 := by
  unfold isEmpty slotCount Table.size
  rw [decide_eq_true_eq, List.length_eq_zero_iff, ht.counted, Table.values]
  rcases hentries : t.slots.entries with _ | ⟨⟨o, l⟩, rest⟩
  · simp
  · have hold : t.Holds false o l :=
      Table.find?_eq_some_iff.2 (hentries ▸ List.mem_cons_self ..)
    have := ht.nonempty hold
    simp
    omega

/-! ## Runs -/

lemma inOrder_setTracking (ht : t.InOrder) (tracking : Tracking) :
    (t.setTracking tracking).InOrder := by
  -- no field speaks of the switches, and a tracker holds the same pieces under other switches
  have hholds : ∀ {k o l}, (t.setTracking tracking).Holds k o l ↔ t.Holds k o l := by
    intro k o l
    cases k <;> exact Iff.rfl
  exact {
    word := ht.word
    nonempty := fun h => ht.nonempty (hholds.1 h)
    inside := fun h => ht.inside (hholds.1 h)
    apart := fun h h' => ht.apart (hholds.1 h) (hholds.1 h')
    covered := fun hx =>
      let ⟨k, o, l, h, hx⟩ := ht.covered hx
      ⟨k, o, l, hholds.2 h, hx⟩
    merged := fun h h' => ht.merged (hholds.1 h) (hholds.1 h')
    indexed := ht.indexed
    counted := ht.counted }

/-- Every `step` keeps the books `InOrder`. -/
theorem inOrder_step (ht : t.InOrder) (s : Step) : (t.step s).state.InOrder := by
  cases s with
  | reserve size alignment => exact inOrder_reserve ht size alignment
  | release offset size => exact inOrder_release ht offset size
  | setTracking tracking => exact inOrder_setTracking ht tracking

/-- No `step` changes the capacity. -/
theorem capacity_step (ht : t.InOrder) (s : Step) : (t.step s).state.capacity = t.capacity := by
  cases s with
  | reserve size alignment =>
    show (t.reserve size alignment).state.capacity = t.capacity
    rcases t.reserve_cases size alignment with ⟨-, hstate⟩ | ⟨fit, -, -, hstate⟩
    · rw [hstate]
    · rw [hstate, occupy_capacity]
  | release offset size =>
    show (t.release offset size).state.capacity = t.capacity
    rcases t.release_cases offset size with ⟨-, hstate, -⟩ | ⟨-, hstate, hslot⟩
    · rw [hstate]
    · rw [hstate, (vacates_vacate ht hslot).capacity]
  | setTracking tracking => rfl

/-- A `run` of any steps keeps the books `InOrder`, by induction on the steps. -/
theorem inOrder_run (ht : t.InOrder) (steps : List Step) : (t.run steps).InOrder := by
  induction steps generalizing t with
  | nil => exact ht
  | cons s rest ih => exact ih (inOrder_step ht s)

theorem capacity_run (ht : t.InOrder) (steps : List Step) :
    (t.run steps).capacity = t.capacity := by
  induction steps generalizing t with
  | nil => rfl
  | cons s rest ih => exact (ih (inOrder_step ht s)).trans (capacity_step ht s)

/-- Books `InOrder` give no notice of a failed self-check. -/
lemma checkNotices_eq_nil (ht : t.InOrder) (action : Action) : t.checkNotices action = [] := by
  unfold checkNotices
  rw [isConsistent_of_inOrder ht]
  simp

/-- No `step` on books `InOrder` reports that they are not. -/
lemma inconsistent_not_mem_notices (ht : t.InOrder) (s : Step) {action : Action}
    {capacity reserved : Nat} {free : List (Nat × Nat)} :
    Notice.trackerInconsistent action capacity reserved free ∉ (t.step s).notices := by
  -- the self-check runs on the books after the action, and these are in order
  have hafter := inOrder_step ht s
  cases s with
  | reserve size alignment =>
    revert hafter
    show (t.reserve size alignment).state.InOrder → _ ∉ (t.reserve size alignment).notices
    unfold reserve
    simp only
    split
    · split <;> intro hafter
      · simp [reportNotices]
      · simp [reportNotices, checkNotices_eq_nil hafter]
    · simp
  | release offset size =>
    revert hafter
    show (t.release offset size).state.InOrder → _ ∉ (t.release offset size).notices
    unfold release
    simp only
    split
    · split <;> intro hafter
      · simp [reportNotices, checkNotices_eq_nil hafter]
      · simp
    · simp
  | setTracking tracking => exact List.not_mem_nil

/-- Whatever is done to a `new` tracker, its books stay `InOrder`, so that `isConsistent` holds, its
totals add up, and no action, the next one included, reports an inconsistency. -/
theorem books_of_new_run {capacity : Nat} (hword : capacity < Word.limit) (tracking : Tracking)
    (steps : List Step) :
    let t := (new capacity tracking).run steps
    t.capacity = capacity ∧ t.InOrder ∧ t.isConsistent = true ∧
      t.reserved + t.available = t.capacity ∧ (t.isEmpty = true ↔ t.slotCount = 0) ∧
      ∀ s action c r free, Notice.trackerInconsistent action c r free ∉ (t.step s).notices := by
  intro t
  have hnew := inOrder_new hword tracking
  have ht : t.InOrder := inOrder_run hnew steps
  refine ⟨?_, ht, isConsistent_of_inOrder ht, ht.reserved_add_available, ht.isEmpty_iff, ?_⟩
  · exact (capacity_run hnew steps).trans (capacity_new capacity tracking)
  · intro s action c r free
    exact inconsistent_not_mem_notices ht s

/-- Three slots in a region of 64 bytes, the middle one of which comes back. -/
theorem books_of_new_run_three_slots :
    let t := (new 64 ⟨true, true⟩).run
      [.reserve 16 16, .reserve 8 1, .reserve 0 32, .release 16 8]
    64 < Word.limit ∧ t.InOrder ∧ t.slotCount = 2 :=
  ⟨by decide, (books_of_new_run (by decide) _ _).2.1, by decide⟩

end BlockPool.Tracker
