import BlockPool.Proofs.Tracker.InOrder

/-!
# Reserving keeps the books in order

A slot goes into one free run. What is left of the run in front of the slot and behind it stays
free, so the three pieces fill the stretch that the run filled.
-/

namespace BlockPool.Tracker

/-! ## Totals of lengths -/

lemma total_perm {a b : List Nat} (h : a.Perm b) : total a = total b := by
  induction h with
  | nil => rfl
  | cons n _ ih => rw [total_cons, total_cons, ih]
  | swap m n rest =>
    rw [total_cons, total_cons, total_cons, total_cons]
    omega
  | trans _ _ ih ih' => rw [ih, ih']

/-- Pieces that lie one behind the other between two bounds have no more bytes than lie there. -/
lemma total_le_of_pairwise {entries : List (Nat × Nat)} {lo hi : Nat} (hlohi : lo ≤ hi)
    (hpair : entries.Pairwise fun a b => a.1 + a.2 ≤ b.1)
    (hin : ∀ e ∈ entries, lo ≤ e.1 ∧ e.1 + e.2 ≤ hi) :
    lo + total (entries.map (·.2)) ≤ hi := by
  induction entries generalizing lo with
  | nil => simpa using hlohi
  | cons e rest ih =>
    obtain ⟨hhead, htail⟩ := List.pairwise_cons.1 hpair
    have he := hin e (List.mem_cons_self ..)
    have := ih he.2 htail fun e' he' => ⟨hhead e' he', (hin e' (List.mem_cons_of_mem _ he')).2⟩
    rw [List.map_cons, total_cons]
    omega

/-- Pieces of a region without common bytes have no more bytes than the region. -/
lemma total_values_le {lengths : Table Nat Nat} {capacity : Nat}
    (hin : ∀ o l, lengths.find? o = some l → o + l ≤ capacity)
    (hapart : ∀ o o' l l', lengths.find? o = some l → lengths.find? o' = some l' → o ≠ o' →
      o + l ≤ o' ∨ o' + l' ≤ o) : total lengths.values ≤ capacity := by
  have hpair : lengths.entries.Pairwise fun a b => a.1 + a.2 ≤ b.1 := by
    refine lengths.ordered.imp_of_mem ?_
    intro a b ha hb hlt
    have hlt : a.1 < b.1 := hlt
    have := hapart a.1 b.1 a.2 b.2 (Table.find?_eq_some_iff.2 ha) (Table.find?_eq_some_iff.2 hb)
      (by omega)
    omega
  have := total_le_of_pairwise (Nat.zero_le capacity) hpair fun e he =>
    ⟨Nat.zero_le _, hin e.1 e.2 (Table.find?_eq_some_iff.2 he)⟩
  rwa [Nat.zero_add] at this

/-- Slots have no more bytes together than their region, since no two of them overlap. -/
lemma InOrder.total_slots_le {t : Tracker} (ht : t.InOrder) :
    total t.slots.values ≤ t.capacity := by
  apply total_values_le
  · intro o l h
    exact ht.inside (k := false) h
  · intro o o' l l' h h' hne
    have h : t.Holds false o l := h
    have h' : t.Holds false o' l' := h'
    exact ht.apart h h' (by simpa using hne)

/-- No more bytes are `reserved` than the region has. -/
lemma InOrder.reserved_le {t : Tracker} (ht : t.InOrder) : t.reserved ≤ t.capacity :=
  ht.counted ▸ ht.total_slots_le

/-! ## Places for slots -/

lemma nextMultiple?_lt {a m c : Nat} (ha : a < Word.limit)
    (h : Word.nextMultiple? a m = some c) : c < Word.limit := by
  unfold Word.nextMultiple? at h
  split at h
  · rwa [← Option.some.inj h]
  · obtain ⟨hlt, rfl⟩ := Word.checkedAdd?_eq_some_iff.1 h
    exact hlt

/-- A place that `fitIn?` finds in a free run is at the lowest multiple of the alignment in it, with
room behind. -/
lemma fitIn?_eq_some {size alignment : Nat} {run : Run} {fit : Fit}
    (hrun : run.offset < Word.limit) (halign : 0 < alignment)
    (h : fitIn? size alignment run = some fit) :
    fit.run = run ∧ run.offset ≤ fit.offset ∧ fit.offset < run.offset + alignment ∧
      fit.offset % alignment = 0 ∧ fit.offset + size ≤ run.offset + run.length := by
  simp only [fitIn?, Option.bind_eq_bind, Option.bind_eq_some_iff, Option.ite_none_right_eq_some,
    Option.some.injEq] at h
  obtain ⟨offset, hoffset, needed, hneeded, hroom, rfl⟩ := h
  obtain ⟨hle, hlt, hmod⟩ := Word.nextMultiple?_eq_some halign hoffset
  obtain ⟨-, rfl⟩ := Word.checkedAdd?_eq_some_iff.1 hneeded
  rw [Word.sub_eq hle (nextMultiple?_lt hrun hoffset)] at hroom
  have hin : offset + size ≤ run.offset + run.length := by omega
  exact ⟨rfl, hle, hlt, hmod, hin⟩

/-- A place for a slot: a multiple of `alignment` in a free run, with room for `size` bytes behind
it. -/
structure Fits (t : Tracker) (fit : Fit) (size alignment : Nat) : Prop where
  free : t.Holds true fit.run.offset fit.run.length
  starts : fit.run.offset ≤ fit.offset
  aligned : fit.offset % alignment = 0
  room : fit.offset + size ≤ fit.run.offset + fit.run.length

/-- A place that `bestFit?` finds `Fits`. -/
lemma fits_of_bestFit? {t : Tracker} (ht : t.InOrder) {size alignment : Nat} {fit : Fit}
    (halign : 0 < alignment) (h : t.bestFit? size alignment = some fit) :
    t.Fits fit size alignment := by
  obtain ⟨run, hmem, hfit⟩ := List.exists_of_findSome?_eq_some h
  have hkey : run ∈ t.bySize.keys := (List.mem_filter.1 hmem).1
  obtain ⟨_, hfind⟩ := Table.mem_keys_iff.1 hkey
  have hfree := ht.indexed.1 hfind
  have hinside := ht.inside hfree
  have hlt : run.offset < Word.limit := by
    have := ht.word
    omega
  obtain ⟨rfl, hle, -, hmod, hroom⟩ := fitIn?_eq_some hlt halign hfit
  exact ⟨hfree, hle, hmod, hroom⟩

/-! ## Putting a slot into its place -/

section Occupy

variable {t : Tracker} {fit : Fit} {size alignment : Nat}

/-- The pieces that a slot and the rest of its run are, as `Holds` has them afterwards. -/
def Splits (fit : Fit) (size : Nat) : Bool → Nat → Nat → Prop
  | true, o, l => 0 < l ∧ (o = fit.run.offset ∧ o + l = fit.offset ∨
      o = fit.offset + size ∧ o + l = fit.run.offset + fit.run.length)
  | false, o, l => o = fit.offset ∧ l = size

@[simp] lemma occupy_capacity : (t.occupy fit size).capacity = t.capacity := by
  simp [occupy]

@[simp] lemma occupy_tracking : (t.occupy fit size).tracking = t.tracking := by
  simp [occupy, removeRun]

/-- `occupy` enters one slot. -/
lemma occupy_slots : (t.occupy fit size).slots = t.slots.insert fit.offset size := by
  simp [occupy]

/-- No slot starts at a place that `Fits`. -/
lemma Fits.find?_slots (ht : t.InOrder) (h : t.Fits fit size alignment) (hsize : 0 < size) :
    t.slots.find? fit.offset = none := by
  rw [Option.eq_none_iff_forall_ne_some]
  intro l hold
  have hold : t.Holds false fit.offset l := hold
  have hroom := h.room
  have hstarts := h.starts
  have hpos := ht.nonempty hold
  have hapart := ht.apart h.free hold (by simp)
  omega

/-- The words that `occupy` cuts a run at are the exact numbers. -/
lemma Fits.cuts (ht : t.InOrder) (h : t.Fits fit size alignment) :
    Word.add fit.offset size = fit.offset + size ∧
      Word.sub fit.offset fit.run.offset = fit.offset - fit.run.offset ∧
      Word.sub (Word.add fit.run.offset fit.run.length) (fit.offset + size) =
        fit.run.offset + fit.run.length - (fit.offset + size) := by
  have hword := ht.word
  have hinside := ht.inside h.free
  have hstarts := h.starts
  have hroom := h.room
  have hadd : Word.add fit.offset size = fit.offset + size := Word.add_eq (by omega)
  have hend : Word.add fit.run.offset fit.run.length = fit.run.offset + fit.run.length :=
    Word.add_eq (by omega)
  refine ⟨hadd, Word.sub_eq hstarts (by omega), ?_⟩
  rw [hend]
  exact Word.sub_eq hroom (by omega)

/-- After `occupy`, the run of the slot is gone, and what is left of it in front and behind is
free. -/
lemma find?_free_occupy (ht : t.InOrder) (h : t.Fits fit size alignment) (o : Nat) :
    (t.occupy fit size).free.find? o =
      if o = fit.offset + size ∧ 0 < fit.run.offset + fit.run.length - (fit.offset + size) then
        some (fit.run.offset + fit.run.length - (fit.offset + size))
      else if o = fit.run.offset ∧ 0 < fit.offset - fit.run.offset then
        some (fit.offset - fit.run.offset)
      else if o = fit.run.offset then none
      else t.free.find? o := by
  obtain ⟨hadd, hpad, htail⟩ := h.cuts ht
  simp only [occupy, find?_free_addRun, find?_free_removeRun, hpad, htail, hadd]

/-- The runs by length change with `occupy` as those by offset do. -/
lemma find?_bySize_occupy (ht : t.InOrder) (h : t.Fits fit size alignment) (run : Run) :
    (t.occupy fit size).bySize.find? run =
      if run = ⟨fit.offset + size, fit.run.offset + fit.run.length - (fit.offset + size)⟩ ∧
          0 < fit.run.offset + fit.run.length - (fit.offset + size) then some ()
      else if run = ⟨fit.run.offset, fit.offset - fit.run.offset⟩ ∧
          0 < fit.offset - fit.run.offset then some ()
      else if run = fit.run then none
      else t.bySize.find? run := by
  obtain ⟨hadd, hpad, htail⟩ := h.cuts ht
  simp only [occupy, find?_bySize_addRun, find?_bySize_removeRun, hpad, htail, hadd]

/-- Of the pieces, `occupy` takes the run, and brings the slot and the rest of the run. -/
lemma holds_occupy (ht : t.InOrder) (h : t.Fits fit size alignment) (hsize : 0 < size)
    {k : Bool} {o l : Nat} : (t.occupy fit size).Holds k o l ↔
      Splits fit size k o l ∨ t.Holds k o l ∧ ¬ (k = true ∧ o = fit.run.offset) := by
  have hstarts := h.starts
  have hroom := h.room
  cases k with
  | false =>
    show (t.occupy fit size).slots.find? o = some l ↔ _
    rw [occupy_slots, Table.find?_insert]
    split
    · rename_i ho
      -- nothing but the run was at the place of the slot
      have hnone : ¬ t.Holds false o l := by
        intro hold
        have := ht.apart h.free hold (by simp)
        have := ht.nonempty hold
        omega
      simp [Splits, ho, ho ▸ hnone, eq_comm]
    · rename_i ho
      simp [Splits, ho, Holds]
  | true =>
    show (t.occupy fit size).free.find? o = some l ↔ _
    rw [find?_free_occupy ht h]
    simp only [Splits, true_and]
    split
    · rename_i ho
      have hnone : ¬ t.Holds true o l := by
        intro hold
        have := ht.apart h.free hold (by simp; omega)
        have := ht.nonempty hold
        omega
      rw [Option.some.injEq]
      simp only [hnone, false_and, or_false]
      omega
    · split
      · rw [Option.some.injEq]
        omega
      · split
        · simp only [reduceCtorEq, false_iff]
          omega
        · show t.Holds true o l ↔ _
          constructor
          · intro hold
            exact .inr ⟨hold, by assumption⟩
          · rintro (hnew | hold)
            · omega
            · exact hold.1

/-- After `occupy`, no free run starts where another one ends. -/
lemma merged_occupy (ht : t.InOrder) (h : t.Fits fit size alignment) (hsize : 0 < size)
    {o l l' : Nat} (hol : (t.occupy fit size).Holds true o l) :
    ¬ (t.occupy fit size).Holds true (o + l) l' := by
  have hstarts := h.starts
  have hroom := h.room
  intro hol'
  rcases (holds_occupy ht h hsize).1 hol with hnew | ⟨hold, hne⟩ <;>
    rcases (holds_occupy ht h hsize).1 hol' with hnew' | ⟨hold', hne'⟩
  -- the slot lies between the two parts left of the run, and the run touched no other
  · simp only [Splits] at hnew hnew'
    omega
  · have hpos' := ht.nonempty hold'
    have := ht.apart h.free hold' (by simpa [eq_comm] using hne')
    simp only [Splits] at hnew
    by_cases hend : o + l = fit.run.offset + fit.run.length
    · rw [hend] at hold'
      exact ht.merged h.free hold'
    · omega
  · have hpos := ht.nonempty hold
    have := ht.apart h.free hold (by simpa [eq_comm] using hne)
    simp only [Splits] at hnew'
    by_cases hend : o + l = fit.run.offset
    · exact ht.merged hold (hend ▸ h.free)
    · omega
  · exact ht.merged hold hold'

/-- After `occupy`, the runs by length are still the runs by offset. -/
lemma indexed_occupy (ht : t.InOrder) (h : t.Fits fit size alignment) (hsize : 0 < size)
    (run : Run) : (t.occupy fit size).bySize.find? run = some () ↔
      (t.occupy fit size).Holds true run.offset run.length := by
  have hstarts := h.starts
  have hroom := h.room
  rw [holds_occupy ht h hsize, find?_bySize_occupy ht h]
  obtain ⟨o, l⟩ := run
  simp only [Splits, true_and]
  -- the entries of the part behind, of the part in front, of the run itself, and all others
  split
  · rename_i hrun
    obtain ⟨hrun, hpos⟩ := hrun
    simp only [Run.mk.injEq] at hrun
    simp only [true_iff]
    omega
  · rename_i htail
    simp only [Run.mk.injEq] at htail
    split
    · rename_i hrun
      simp only [Run.mk.injEq] at hrun
      simp only [true_iff]
      omega
    · rename_i hpad
      simp only [Run.mk.injEq] at hpad
      split
      · rename_i hrun
        have ho : o = fit.run.offset := congrArg Run.offset hrun
        have hl : l = fit.run.length := congrArg Run.length hrun
        simp only [reduceCtorEq, false_iff, not_or, not_and, not_not]
        omega
      · rename_i hrun
        rw [ht.indexed]
        constructor
        · intro hold
          refine .inr ⟨hold, fun ho => hrun ?_⟩
          subst ho
          have hl : l = fit.run.length := hold.length_unique h.free
          rw [hl]
        · rintro (hnew | ⟨hold, -⟩)
          · omega
          · exact hold

lemma total_slots_occupy (ht : t.InOrder) (h : t.Fits fit size alignment) (hsize : 0 < size) :
    total (t.occupy fit size).slots.values = size + total t.slots.values := by
  rw [occupy_slots, total_perm (Table.values_insert_perm ..),
    Table.erase_eq_self (h.find?_slots ht hsize), total_cons]

/-- After `occupy`, what is `reserved` are still the bytes of the slots. -/
lemma counted_occupy (ht : t.InOrder) (h : t.Fits fit size alignment) (hsize : 0 < size) :
    (t.occupy fit size).reserved = total (t.occupy fit size).slots.values := by
  have hroom := h.room
  have hstarts := h.starts
  have hinside := ht.inside h.free
  -- the slots of the new books have no more bytes than the region, so their sum is a word
  have hle : total (t.occupy fit size).slots.values ≤ t.capacity := by
    apply total_values_le
    · intro o l hol
      rcases (holds_occupy ht h hsize (k := false)).1 hol with hnew | ⟨hold, -⟩
      · simp only [Splits] at hnew
        omega
      · exact ht.inside hold
    · intro o o' l l' hol hol' hne
      rcases (holds_occupy ht h hsize (k := false)).1 hol with hnew | ⟨hold, -⟩ <;>
        rcases (holds_occupy ht h hsize (k := false)).1 hol' with hnew' | ⟨hold', -⟩
      · simp only [Splits] at hnew hnew'
        omega
      · have := ht.apart h.free hold' (by simp)
        simp only [Splits] at hnew
        omega
      · have := ht.apart h.free hold (by simp)
        simp only [Splits] at hnew'
        omega
      · exact ht.apart hold hold' (by simpa using hne)
  have hsum := total_slots_occupy ht h hsize
  have hreserved : (t.occupy fit size).reserved = Word.add t.reserved size := by simp [occupy]
  have hword := ht.word
  have hcounted := ht.counted
  rw [hreserved, Word.add_eq (by omega), hsum, hcounted, Nat.add_comm]

/-- `occupy` keeps the books `InOrder`. -/
lemma inOrder_occupy (ht : t.InOrder) (h : t.Fits fit size alignment) (hsize : 0 < size) :
    (t.occupy fit size).InOrder := by
  have hstarts := h.starts
  have hroom := h.room
  apply ht.replace occupy_capacity (ht.inside h.free) (holds_occupy ht h hsize)
  · intro k o l hold
    by_cases hrun : k = true ∧ o = fit.run.offset
    · obtain ⟨rfl, rfl⟩ := hrun
      rw [hold.length_unique h.free]
      exact .inl ⟨⟨rfl, rfl⟩, Nat.le_refl _, Nat.le_refl _⟩
    · have := ht.apart h.free hold (by simpa [eq_comm] using hrun)
      exact .inr ⟨hrun, this.symm⟩
  · intro k o l hnew
    cases k <;> simp only [Splits] at hnew <;> omega
  · intro k k' o o' l l' hnew hnew' hne
    cases k <;> cases k' <;> simp only [Splits] at hnew hnew' <;> simp at hne <;> omega
  -- a byte of the run is now in the part in front, in the slot or in the part behind
  · intro x hlo hhi
    by_cases hbefore : x < fit.offset
    · exact ⟨true, fit.run.offset, fit.offset - fit.run.offset, ⟨by omega, .inl ⟨rfl, by omega⟩⟩,
        hlo, by omega⟩
    · by_cases hin : x < fit.offset + size
      · exact ⟨false, fit.offset, size, ⟨rfl, rfl⟩, by omega, hin⟩
      · exact ⟨true, fit.offset + size, fit.run.offset + fit.run.length - (fit.offset + size),
          ⟨by omega, .inr ⟨rfl, by omega⟩⟩, by omega, by omega⟩
  · exact merged_occupy ht h hsize
  · intro run
    exact indexed_occupy ht h hsize run
  · exact counted_occupy ht h hsize

end Occupy

/-! ## Reserving -/

/-- Either `reserve` finds no place and changes nothing, or `occupy` puts a slot into the place that
`bestFit?` finds. -/
lemma reserve_cases (t : Tracker) (size alignment : Nat) :
    (t.reserve size alignment).answer = none ∧ (t.reserve size alignment).state = t ∨
      ∃ fit, t.bestFit? (slotSize size) (max alignment 1) = some fit ∧
        (t.reserve size alignment).answer = some fit.offset ∧
        (t.reserve size alignment).state = t.occupy fit (slotSize size) := by
  unfold reserve
  simp only
  split
  · split
    · exact .inl ⟨rfl, rfl⟩
    · rename_i fit hfit
      exact .inr ⟨fit, hfit, rfl, rfl⟩
  · exact .inl ⟨rfl, rfl⟩

lemma reserve_tracking (t : Tracker) (size alignment : Nat) :
    (t.reserve size alignment).state.tracking = t.tracking := by
  rcases t.reserve_cases size alignment with ⟨-, hstate⟩ | ⟨fit, -, -, hstate⟩
  · rw [hstate]
  · rw [hstate, occupy_tracking]

/-- `reserve` keeps the books `InOrder`, whatever is asked. -/
lemma inOrder_reserve {t : Tracker} (ht : t.InOrder) (size alignment : Nat) :
    (t.reserve size alignment).state.InOrder := by
  rcases t.reserve_cases size alignment with ⟨-, hstate⟩ | ⟨fit, hfit, -, hstate⟩
  · rw [hstate]
    exact ht
  · rw [hstate]
    exact inOrder_occupy ht (fits_of_bestFit? ht (by omega) hfit) (slotSize_pos size)

/-- A slot fits at the start of a free run that starts at a multiple of the alignment. -/
lemma fitIn?_of_dvd {size alignment : Nat} {run : Run} (hdvd : run.offset % alignment = 0)
    (hsize : size ≤ run.length) (hword : run.offset + run.length < Word.limit) :
    fitIn? size alignment run = some ⟨run, run.offset⟩ := by
  have hoffset : Word.nextMultiple? run.offset alignment = some run.offset := if_pos hdvd
  have hgap : Word.sub run.offset run.offset = run.offset - run.offset :=
    Word.sub_eq (Nat.le_refl _) (by omega)
  have hneeded : Word.checkedAdd? 0 size = some size :=
    Word.checkedAdd?_eq_some_iff.2 ⟨by omega, (Nat.zero_add size).symm⟩
  simp [fitIn?, hoffset, hgap, hneeded, hsize]

/-- In a region that is one free run, `reserve` places the first slot at its start. -/
lemma reserve_new {capacity size alignment : Nat} (tracking : Tracking)
    (hpower : (max alignment 1).isPowerOfTwo) (hroom : slotSize size ≤ capacity)
    (hword : capacity < Word.limit) :
    ((new capacity tracking).reserve size alignment).answer = some 0 := by
  have hpos := slotSize_pos size
  have hkeys : (new capacity tracking).bySize.keys = [⟨0, capacity⟩] := by
    unfold new addRun
    rw [if_neg (by omega)]
    rfl
  have hfit : fitIn? (slotSize size) (max alignment 1) ⟨0, capacity⟩ = some ⟨⟨0, capacity⟩, 0⟩ :=
    fitIn?_of_dvd (Nat.zero_mod _) hroom (by simpa using hword)
  have hbest : (new capacity tracking).bestFit? (slotSize size) (max alignment 1) =
      some ⟨⟨0, capacity⟩, 0⟩ := by
    unfold bestFit?
    rw [hkeys]
    simp [hroom, hfit]
  unfold reserve
  simp only [if_pos hpower, hbest]

end BlockPool.Tracker
