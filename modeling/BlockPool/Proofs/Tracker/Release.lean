import BlockPool.Proofs.Tracker.Reserve

/-!
# Releasing keeps the books in order

A slot becomes free together with the free runs that touch it in front and behind. The slot and
these runs fill the stretch that the one run left fills afterwards.
-/

namespace BlockPool.Tracker

variable {t : Tracker} {offset size : Nat}

/-! ## The runs around a slot -/

/-- The run that `runBefore?` finds in front of an offset is the one that ends there. -/
lemma runBefore?_eq_some_iff (ht : t.InOrder) {run : Run} :
    t.runBefore? offset = some run ↔
      t.Holds true run.offset run.length ∧ run.offset + run.length = offset := by
  have hword := ht.word
  constructor
  · intro h
    unfold runBefore? at h
    split at h
    · rename_i start length hlast
      obtain ⟨hfind, -, -⟩ := Table.lastBefore?_eq_some_iff.1 hlast
      have hfind : t.Holds true start length := hfind
      have hinside := ht.inside hfind
      rw [Word.add_eq (by omega)] at h
      split at h
      · rename_i hend
        obtain rfl := Option.some.inj h
        exact ⟨hfind, hend⟩
      · simp at h
    · simp at h
  · rintro ⟨hfree, hend⟩
    have hpos := ht.nonempty hfree
    have hinside := ht.inside hfree
    have hlast : t.free.lastBefore? offset = some (run.offset, run.length) := by
      refine Table.lastBefore?_eq_some_iff.2 ⟨hfree, ?_, ?_⟩
      · show run.offset < offset
        omega
      · intro o ho hlt
        have hlt : o < offset := hlt
        obtain ⟨l, hfind⟩ := Table.mem_keys_iff.1 ho
        have hfind : t.Holds true o l := hfind
        by_cases hne : run.offset = o
        · exact .inl hne.symm
        · -- a run that starts behind this one starts behind its end, which is the offset
          have := ht.apart hfree hfind (by simpa using hne)
          have := ht.nonempty hfind
          refine .inr ?_
          show o < run.offset
          omega
    have hadd : Word.add run.offset run.length = offset := by
      rw [Word.add_eq (by omega), hend]
    simp [runBefore?, hlast, hadd]

/-- The span that a slot and the free runs that touch it fill, as `Holds` has them. -/
structure Joins (t : Tracker) (offset size : Nat) (span : Span) : Prop where
  front : span.start = offset ∧ (∀ o l, t.Holds true o l → o + l ≠ offset) ∨
    span.start < offset ∧ t.Holds true span.start (offset - span.start)
  back : span.stop = offset + size ∧ t.free.find? (offset + size) = none ∨
    offset + size < span.stop ∧ t.Holds true (offset + size) (span.stop - (offset + size))

lemma Joins.start_le {span : Span} (h : t.Joins offset size span) : span.start ≤ offset := by
  rcases h.front with ⟨hstart, -⟩ | ⟨hstart, -⟩ <;> omega

lemma Joins.le_stop {span : Span} (h : t.Joins offset size span) : offset + size ≤ span.stop := by
  rcases h.back with ⟨hstop, -⟩ | ⟨hstop, -⟩ <;> omega

/-- The stretch that a slot `Joins` ends within the region. -/
lemma Joins.stop_le {span : Span} (ht : t.InOrder) (hslot : t.Holds false offset size)
    (h : t.Joins offset size span) : span.stop ≤ t.capacity := by
  have := ht.inside hslot
  rcases h.back with ⟨hstop, -⟩ | ⟨hstop, hfree⟩
  · omega
  · have := ht.inside hfree
    omega

/-- A slot keeps free runs away from its offset. -/
lemma find?_free_eq_none (ht : t.InOrder) (hslot : t.Holds false offset size) :
    t.free.find? offset = none := by
  rw [Option.eq_none_iff_forall_ne_some]
  intro l h
  have h : t.Holds true offset l := h
  have := ht.apart hslot h (by simp)
  have := ht.nonempty hslot
  have := ht.nonempty h
  omega

lemma find?_bySize_zero (ht : t.InOrder) {run : Run} (h : run.length = 0) :
    t.bySize.find? run = none := by
  rw [Option.eq_none_iff_forall_ne_some]
  intro _ hfind
  have := ht.nonempty (ht.indexed.1 hfind)
  omega

/-! ## Taking runs out -/

/-- The tracker `v` is `u` without a run in `free` and `bySize`. A run without bytes is in
neither. -/
structure Without (u v : Tracker) (offset length : Nat) : Prop where
  rest : v = { u with free := v.free, bySize := v.bySize }
  free (o : Nat) : v.free.find? o = if o = offset then none else u.free.find? o
  bySize (run : Run) :
    v.bySize.find? run = if run = ⟨offset, length⟩ then none else u.bySize.find? run

/-- `removeRun` leaves the tracker `Without` the run. -/
lemma without_removeRun (u : Tracker) (offset length : Nat) :
    u.Without (u.removeRun offset length) offset length where
  rest := rfl
  free := find?_free_removeRun u offset length
  bySize := find?_bySize_removeRun u offset length

lemma without_self {u : Tracker} {length : Nat} (hfree : u.free.find? offset = none)
    (hbySize : u.bySize.find? ⟨offset, length⟩ = none) : u.Without u offset length where
  rest := rfl
  free := by
    intro o
    split
    · rename_i ho
      rw [ho, hfree]
    · rfl
  bySize := by
    intro run
    split
    · rename_i hrun
      rw [hrun, hbySize]
    · rfl

/-- `mergeBefore` takes out the run that ends where the slot starts, and answers where that run
started. -/
theorem mergeBefore_spec (ht : t.InOrder) (hslot : t.Holds false offset size) {u : Tracker}
    (hfree : u.free = t.free) (hbySize : u.bySize = t.bySize) :
    u.Without (u.mergeBefore offset).1 (u.mergeBefore offset).2
        (offset - (u.mergeBefore offset).2) ∧
      ((u.mergeBefore offset).2 = offset ∧ (∀ o l, t.Holds true o l → o + l ≠ offset) ∨
        (u.mergeBefore offset).2 < offset ∧
          t.Holds true (u.mergeBefore offset).2 (offset - (u.mergeBefore offset).2)) := by
  have hrunBefore : u.runBefore? offset = t.runBefore? offset := by
    unfold runBefore?
    rw [hfree]
  unfold mergeBefore
  rw [hrunBefore]
  rcases hrun : t.runBefore? offset with _ | run
  -- no run ends where the slot starts, so there is none to take out
  · refine ⟨without_self ?_ ?_, .inl ⟨rfl, ?_⟩⟩
    · rw [hfree]
      exact find?_free_eq_none ht hslot
    · rw [hbySize]
      exact find?_bySize_zero ht (Nat.sub_self offset)
    · intro o l h hend
      have hsome : t.runBefore? offset = some ⟨o, l⟩ :=
        (runBefore?_eq_some_iff ht).2 ⟨h, hend⟩
      rw [hrun] at hsome
      exact absurd hsome (by simp)
  · obtain ⟨h, hend⟩ := (runBefore?_eq_some_iff ht).1 hrun
    have hpos := ht.nonempty h
    have hlength : offset - run.offset = run.length := by omega
    show u.Without (u.removeRun run.offset run.length) run.offset (offset - run.offset) ∧
      (run.offset = offset ∧ _ ∨
        run.offset < offset ∧ t.Holds true run.offset (offset - run.offset))
    rw [hlength]
    exact ⟨without_removeRun .., .inr ⟨by omega, h⟩⟩

/-- `mergeBehind` takes out the run that starts where the slot stops, and answers where that run
stopped. -/
theorem mergeBehind_spec (ht : t.InOrder) {v : Tracker} {stop : Nat}
    (hfree : v.free.find? stop = t.free.find? stop)
    (hzero : v.bySize.find? ⟨stop, 0⟩ = none) :
    v.Without (v.mergeBehind stop).1 stop ((v.mergeBehind stop).2 - stop) ∧
      ((v.mergeBehind stop).2 = stop ∧ t.free.find? stop = none ∨
        stop < (v.mergeBehind stop).2 ∧ t.Holds true stop ((v.mergeBehind stop).2 - stop)) := by
  unfold mergeBehind
  rw [hfree]
  rcases hrun : t.free.find? stop with _ | length
  · refine ⟨without_self (hfree.trans hrun) ?_, .inl ⟨rfl, rfl⟩⟩
    show v.bySize.find? ⟨stop, stop - stop⟩ = none
    rw [Nat.sub_self]
    exact hzero
  · have h : t.Holds true stop length := hrun
    have hpos := ht.nonempty h
    have hinside := ht.inside h
    have hword := ht.word
    have hadd : Word.add stop length = stop + length := Word.add_eq (by omega)
    show v.Without (v.removeRun stop length) stop (Word.add stop length - stop) ∧
      (Word.add stop length = stop ∧ _ ∨
        stop < Word.add stop length ∧ t.Holds true stop (Word.add stop length - stop))
    rw [hadd, Nat.add_sub_cancel_left]
    exact ⟨without_removeRun .., .inr ⟨by omega, h⟩⟩

/-! ## Turning a slot into free bytes -/

/-- What `vacate` leaves, told by look-up. -/
structure Vacates (t : Tracker) (offset size : Nat) (after : Tracker) (span : Span) : Prop where
  joins : t.Joins offset size span
  capacity : after.capacity = t.capacity
  tracking : after.tracking = t.tracking
  slots : after.slots = t.slots.erase offset
  reserved : after.reserved = t.reserved - size
  free (o : Nat) : after.free.find? o =
    if o = span.start then some (span.stop - span.start)
    else if o = offset + size then none
    else t.free.find? o
  bySize (run : Run) : after.bySize.find? run =
    if run = ⟨span.start, span.stop - span.start⟩ then some ()
    else if run = ⟨offset + size, span.stop - (offset + size)⟩ then none
    else if run = ⟨span.start, offset - span.start⟩ then none
    else t.bySize.find? run

/-- The bytes of a slot are counted in `reserved`. -/
lemma reserved_split (ht : t.InOrder) (hslot : t.Holds false offset size) :
    t.reserved = size + total (t.slots.erase offset).values := by
  rw [ht.counted, total_perm (Table.values_perm_of_find? (t := t.slots) hslot), total_cons]

/-- Without a slot, what is `reserved` is the bytes of the other ones, and the difference does not
wrap around. -/
lemma reserved_sub (ht : t.InOrder) (hslot : t.Holds false offset size) :
    Word.sub t.reserved size = t.reserved - size ∧
      total (t.slots.erase offset).values = t.reserved - size := by
  have hword := ht.word
  have hle := ht.reserved_le
  have hsplit := reserved_split ht hslot
  exact ⟨Word.sub_eq (by omega) (by omega), by omega⟩

/-- `vacate` does what `Vacates` says: it merges in front and behind, and enters the whole stretch
as one run. -/
lemma vacates_vacate (ht : t.InOrder) (hslot : t.Holds false offset size) :
    t.Vacates offset size (t.vacate offset size).1 (t.vacate offset size).2 := by
  have hword := ht.word
  have hinside := ht.inside hslot
  have hpos := ht.nonempty hslot
  have hadd : Word.add offset size = offset + size := Word.add_eq (by omega)
  -- the books between the steps: `u` without the slot, `v` and `w` without the runs around it
  obtain ⟨u, hu⟩ : ∃ u : Tracker, u =
    { t with slots := t.slots.erase offset, reserved := Word.sub t.reserved size } := ⟨_, rfl⟩
  obtain ⟨⟨v, start⟩, hv⟩ : ∃ v, v = u.mergeBefore offset := ⟨_, rfl⟩
  obtain ⟨⟨w, stop⟩, hw⟩ : ∃ w, w = v.mergeBehind (offset + size) := ⟨_, rfl⟩
  have hvacate : t.vacate offset size =
      (w.addRun start (Word.sub stop start), ⟨start, stop⟩) := by
    unfold vacate
    simp only [hadd, ← hu, ← hv, ← hw]
  obtain ⟨hwithout, hfront⟩ :=
    mergeBefore_spec ht hslot (u := u) (by rw [hu]) (by rw [hu])
  rw [← hv] at hwithout hfront
  simp only at hwithout hfront
  have hstart : start ≤ offset := by omega
  have hfree : v.free.find? (offset + size) = t.free.find? (offset + size) := by
    rw [hwithout.free, if_neg (by omega), hu]
  have hzero : v.bySize.find? ⟨offset + size, 0⟩ = none := by
    rw [hwithout.bySize]
    split
    · rfl
    · rw [hu]
      exact find?_bySize_zero ht rfl
  obtain ⟨hwithout', hback⟩ := mergeBehind_spec ht hfree hzero
  rw [← hw] at hwithout' hback
  simp only at hwithout' hback
  have hjoins : t.Joins offset size ⟨start, stop⟩ := ⟨hfront, hback⟩
  have hstop := hjoins.le_stop
  have hstop_le := hjoins.stop_le ht hslot
  simp only at hstop hstop_le
  have hsub : Word.sub stop start = stop - start := Word.sub_eq (by omega) (by omega)
  rw [hvacate, hsub]
  refine ⟨hjoins, ?_, ?_, ?_, ?_, ?_, ?_⟩
  · simp only [addRun_capacity]
    rw [hwithout'.rest, hwithout.rest, hu]
  · simp only [addRun_tracking]
    rw [hwithout'.rest, hwithout.rest, hu]
  · simp only [addRun_slots]
    rw [hwithout'.rest, hwithout.rest, hu]
  · simp only [addRun_reserved]
    rw [hwithout'.rest, hwithout.rest, hu]
    exact (reserved_sub ht hslot).1
  · intro o
    simp only [find?_free_addRun, hwithout'.free, hwithout.free, hu]
    have hlength : 0 < stop - start := by omega
    by_cases ho : o = start
    · simp [ho, hlength]
    · simp [ho]
  · intro run
    simp only [find?_bySize_addRun, hwithout'.bySize, hwithout.bySize, hu]
    have hlength : 0 < stop - start := by omega
    simp [hlength]

section Vacate

variable {after : Tracker} {span : Span}

/-- Of the pieces, `vacate` takes the slot and the runs that touch it, and brings the run that they
form. -/
lemma Vacates.holds (h : t.Vacates offset size after span) {k : Bool} {o l : Nat} :
    after.Holds k o l ↔ (k = true ∧ o = span.start ∧ l = span.stop - span.start) ∨
      t.Holds k o l ∧
        ¬ (k = false ∧ o = offset ∨ k = true ∧ (o = span.start ∨ o = offset + size)) := by
  cases k with
  | false =>
    show after.slots.find? o = some l ↔ _
    rw [h.slots, Table.find?_erase]
    by_cases ho : o = offset
    · simp [ho]
    · simp [ho, Holds]
  | true =>
    show after.free.find? o = some l ↔ _
    rw [h.free]
    by_cases ho : o = span.start
    · simp [ho, eq_comm]
    · by_cases ho' : o = offset + size
      · simp [ho']
        omega
      · simp [ho, ho', Holds]

/-- A piece is one of those that go, within the stretch, or lies outside the stretch. -/
lemma Joins.outside (ht : t.InOrder) (hslot : t.Holds false offset size)
    (h : t.Joins offset size span) {k : Bool} {o l : Nat} (hold : t.Holds k o l) :
    (k = false ∧ o = offset ∨ k = true ∧ (o = span.start ∨ o = offset + size)) ∧
        span.start ≤ o ∧ o + l ≤ span.stop ∨
      ¬ (k = false ∧ o = offset ∨ k = true ∧ (o = span.start ∨ o = offset + size)) ∧
        (o + l ≤ span.start ∨ span.stop ≤ o) := by
  have hstart := h.start_le
  have hstop := h.le_stop
  have hpos := ht.nonempty hold
  have hpos' := ht.nonempty hslot
  -- the slot, the run in front of it and the run behind it go, and lie in the stretch
  by_cases hsame : k = false ∧ o = offset
  · obtain ⟨rfl, rfl⟩ := hsame
    rw [hold.length_unique hslot]
    exact .inl ⟨.inl ⟨rfl, rfl⟩, hstart, hstop⟩
  have hapart := ht.apart hslot hold (by simpa [eq_comm] using hsame)
  by_cases hfront : k = true ∧ o = span.start
  · obtain ⟨rfl, rfl⟩ := hfront
    rcases h.front with ⟨heq, -⟩ | ⟨hlt, hrun⟩
    · omega
    · rw [hold.length_unique hrun]
      exact .inl ⟨.inr ⟨rfl, .inl rfl⟩, Nat.le_refl _, by omega⟩
  by_cases hback : k = true ∧ o = offset + size
  · obtain ⟨rfl, rfl⟩ := hback
    rcases h.back with ⟨-, hnone⟩ | ⟨hlt, hrun⟩
    · exact absurd (hnone.symm.trans hold) (by simp)
    · rw [hold.length_unique hrun]
      exact .inl ⟨.inr ⟨rfl, .inr rfl⟩, by omega, by omega⟩
  -- any other piece is apart from each of the three
  refine .inr ⟨by tauto, ?_⟩
  have hbefore : o + l ≤ span.start ∨ offset + size ≤ o := by
    rcases h.front with ⟨heq, -⟩ | ⟨hlt, hrun⟩
    · omega
    · have := ht.apart hrun hold (by simpa [eq_comm] using hfront)
      omega
  have hbehind : o + l ≤ span.start ∨ span.stop ≤ o := by
    rcases h.back with ⟨heq, -⟩ | ⟨hlt, hrun⟩
    · omega
    · have := ht.apart hrun hold (by simpa [eq_comm] using hback)
      omega
  exact hbehind

/-- After `vacate`, no free run starts where another one ends. -/
lemma Vacates.merged (ht : t.InOrder) (hslot : t.Holds false offset size)
    (h : t.Vacates offset size after span) {o l l' : Nat} (hol : after.Holds true o l) :
    ¬ after.Holds true (o + l) l' := by
  have hstart := h.joins.start_le
  have hstop := h.joins.le_stop
  have hpos := ht.nonempty hslot
  intro hol'
  rcases h.holds.1 hol with ⟨-, rfl, rfl⟩ | ⟨hold, hstay⟩ <;>
    rcases h.holds.1 hol' with ⟨-, hstart', -⟩ | ⟨hold', hstay'⟩
  · omega
  · -- a run behind the new one touches the slot or the run behind the slot
    have hend : span.start + (span.stop - span.start) = span.stop := by omega
    rw [hend] at hold'
    rcases h.joins.back with ⟨heq, hnone⟩ | ⟨hlt, hrun⟩
    · rw [heq] at hold'
      exact absurd (hnone.symm.trans hold') (by simp)
    · have hend' : offset + size + (span.stop - (offset + size)) = span.stop := by omega
      exact ht.merged hrun (hend' ▸ hold')
  · -- a run that ends at the new one would have been merged with it
    rcases h.joins.front with ⟨heq, hnone⟩ | ⟨hlt, hrun⟩
    · exact hnone o l hold (by omega)
    · exact ht.merged hold (hstart' ▸ hrun)
  · exact ht.merged hold hold'

/-- After `vacate`, the runs by length are still the runs by offset. -/
lemma Vacates.indexed (ht : t.InOrder) (hslot : t.Holds false offset size)
    (h : t.Vacates offset size after span) (run : Run) :
    after.bySize.find? run = some () ↔ after.Holds true run.offset run.length := by
  obtain ⟨o, l⟩ := run
  rw [h.holds, h.bySize]
  simp only [Run.mk.injEq]
  -- the entry of the new run, the two of the runs merged into it, and all others, which stay
  by_cases hnew : o = span.start ∧ l = span.stop - span.start
  · simp [hnew]
  by_cases hback : o = offset + size ∧ l = span.stop - (offset + size)
  · have hend : o ≠ span.start := by
      have := h.joins.start_le
      have := ht.nonempty hslot
      omega
    simp [hback.1, hback.2, hback.1 ▸ hend]
  by_cases hfront : o = span.start ∧ l = offset - span.start
  · have hlength : l ≠ span.stop - span.start := fun hl => hnew ⟨hfront.1, hl⟩
    simp [hfront.1, hfront.2, hfront.2 ▸ hlength]
  rw [if_neg hnew, if_neg hback, if_neg hfront, ht.indexed]
  constructor
  · intro hold
    refine .inr ⟨hold, ?_⟩
    have hold : t.Holds true o l := hold
    rintro (⟨hkind, -⟩ | ⟨-, hstart | hstop⟩)
    · exact absurd hkind (by simp)
    · rcases h.joins.front with ⟨heq, -⟩ | ⟨-, hrun⟩
      · rw [hstart, heq] at hold
        exact absurd ((find?_free_eq_none ht hslot).symm.trans hold) (by simp)
      · exact hfront ⟨hstart, (hstart ▸ hold).length_unique hrun⟩
    · rcases h.joins.back with ⟨-, hnone⟩ | ⟨-, hrun⟩
      · rw [hstop] at hold
        exact absurd (hnone.symm.trans hold) (by simp)
      · exact hback ⟨hstop, (hstop ▸ hold).length_unique hrun⟩
  · rintro (⟨-, hnew'⟩ | ⟨hold, -⟩)
    · exact absurd hnew' hnew
    · exact hold

/-- `vacate` keeps the books `InOrder`. -/
lemma inOrder_vacate (ht : t.InOrder) (hslot : t.Holds false offset size) :
    (t.vacate offset size).1.InOrder := by
  have h := vacates_vacate ht hslot
  have hstart := h.joins.start_le
  have hstop := h.joins.le_stop
  have hpos := ht.nonempty hslot
  apply ht.replace h.capacity (h.joins.stop_le ht hslot) h.holds
  · intro k o l hold
    exact h.joins.outside ht hslot hold
  · rintro k o l ⟨-, rfl, rfl⟩
    omega
  · rintro k k' o o' l l' ⟨rfl, rfl, -⟩ ⟨rfl, rfl, -⟩ hne
    exact absurd rfl hne
  · intro x hlo hhi
    exact ⟨true, _, _, ⟨rfl, rfl, rfl⟩, hlo, by omega⟩
  · exact h.merged ht hslot
  · intro run
    exact h.indexed ht hslot run
  · rw [h.reserved, h.slots, (reserved_sub ht hslot).2]

end Vacate

/-! ## Releasing -/

/-- Either `release` knows no such slot and changes nothing, or `vacate` takes the slot out. -/
lemma release_cases (t : Tracker) (offset size : Nat) :
    (t.release offset size).answer = false ∧ (t.release offset size).state = t ∧
        ¬ t.Holds false offset (slotSize size) ∨
      (t.release offset size).answer = true ∧
        (t.release offset size).state = (t.vacate offset (slotSize size)).1 ∧
        t.Holds false offset (slotSize size) := by
  show _ ∨ _ ∧ _ ∧ t.slots.find? offset = some (slotSize size)
  unfold release
  simp only
  rcases hfind : t.slots.find? offset with _ | held
  · exact .inl ⟨rfl, rfl, fun h => absurd (hfind.symm.trans h) (by simp)⟩
  · by_cases hheld : held = slotSize size
    · simp [hheld]
    · refine .inl ⟨by simp [hheld], by simp [hheld], fun h => hheld ?_⟩
      exact Option.some.inj (hfind.symm.trans h)

lemma vacate_tracking (t : Tracker) (offset size : Nat) :
    (t.vacate offset size).1.tracking = t.tracking := by
  have hbefore : ∀ (u : Tracker) offset, (u.mergeBefore offset).1.tracking = u.tracking := by
    intro u offset
    unfold mergeBefore
    split <;> rfl
  have hbehind : ∀ (u : Tracker) offset, (u.mergeBehind offset).1.tracking = u.tracking := by
    intro u offset
    unfold mergeBehind
    split <;> rfl
  unfold vacate
  simp only [addRun_tracking, hbehind, hbefore]

lemma release_tracking (t : Tracker) (offset size : Nat) :
    (t.release offset size).state.tracking = t.tracking := by
  rcases t.release_cases offset size with ⟨-, hstate, -⟩ | ⟨-, hstate, -⟩
  · rw [hstate]
  · rw [hstate, vacate_tracking]

/-- `release` keeps the books `InOrder`, whatever is named. -/
lemma inOrder_release (ht : t.InOrder) (offset size : Nat) :
    (t.release offset size).state.InOrder := by
  rcases t.release_cases offset size with ⟨-, hstate, -⟩ | ⟨-, hstate, hslot⟩
  · rw [hstate]
    exact ht
  · rw [hstate]
    exact inOrder_vacate ht hslot

end BlockPool.Tracker
