import BlockPool.Proofs.Tracker.Ledger

/-!
# Best fit

A search for a place walks through the free runs by length and then by offset. It leaves out runs
that are too short for the slot, and a run that is long enough may still be passed over, because
too much of it lies before the first multiple of the alignment.

Main statement: the search misses no place. A reservation fails only if no free run has room for
the slot at a multiple of the alignment; otherwise the slot is put at the lowest multiple in the
first run with room, and no byte but those of the slot stops being free.
-/

namespace BlockPool.Tracker

variable {t : Tracker} {size alignment : Nat}

/-! ## Room in a span -/

/-- Whether a span has room for `size` bytes from a multiple of `alignment` on. -/
def Span.HasRoom (s : Span) (size alignment : Nat) : Prop :=
  ∃ offset, alignment ∣ offset ∧ s.start ≤ offset ∧ offset + size ≤ s.stop

instance (s : Span) (size alignment : Nat) : Decidable (s.HasRoom size alignment) :=
  decidable_of_iff
    (∃ offset, offset < s.stop + 1 ∧
      (alignment ∣ offset ∧ s.start ≤ offset ∧ offset + size ≤ s.stop))
    ⟨fun ⟨offset, _, h⟩ => ⟨offset, h⟩, fun ⟨offset, h⟩ => ⟨offset, by omega, h⟩⟩

/-- Every offset is a multiple of one, so a span has room (`HasRoom`) for what is not longer. -/
lemma Span.hasRoom_one_iff {s : Span} (hsize : 0 < size) :
    s.HasRoom size 1 ↔ size ≤ s.stop - s.start := by
  constructor
  · rintro ⟨offset, -, hstart, hstop⟩
    omega
  · intro hle
    exact ⟨s.start, Nat.one_dvd _, Nat.le_refl _, by omega⟩

/-- Two spans in the order in which a search tries them: by length, and then by `start`. -/
def Span.NotAfter (s r : Span) : Prop :=
  s.stop - s.start < r.stop - r.start ∨
    s.stop - s.start = r.stop - r.start ∧ s.start ≤ r.start

/-! ## Searching a run -/

/-- The multiple that `nextMultiple?` finds is not above any other one that is a word and not below
the start. -/
lemma nextMultiple?_le {a m offset : Nat} (hdvd : m ∣ offset) (hle : a ≤ offset)
    (hword : offset < Word.limit) : ∃ c, Word.nextMultiple? a m = some c ∧ c ≤ offset := by
  unfold Word.nextMultiple?
  by_cases hmod : a % m = 0
  · exact ⟨a, if_pos hmod, hle⟩
  · rw [if_neg hmod]
    -- the offset is so many steps of the divisor up, and the start is behind one step less
    obtain ⟨k, rfl⟩ := hdvd
    have hdiv := Nat.div_add_mod a m
    have hlt : a / m < k := by
      by_contra hnot
      have := Nat.mul_le_mul_left m (Nat.le_of_not_lt hnot)
      omega
    have hstep : m * (a / m) + m ≤ m * k := Nat.mul_le_mul_left m hlt
    have hc : a + (m - a % m) ≤ m * k := by omega
    exact ⟨_, Word.checkedAdd?_eq_some_iff.2 ⟨by omega, rfl⟩, hc⟩

/-- `fitIn?` does not pass over a run with room, and no room lies before the place that it finds. -/
lemma fitIn?_of_room {run : Run} {offset : Nat} (halign : 0 < alignment)
    (hword : run.offset + run.length < Word.limit) (hdvd : alignment ∣ offset)
    (hstart : run.offset ≤ offset) (hstop : offset + size ≤ run.offset + run.length) :
    ∃ fit, fitIn? size alignment run = some fit ∧ fit.offset ≤ offset := by
  obtain ⟨c, hc, hle⟩ := nextMultiple?_le hdvd hstart (by omega)
  obtain ⟨hrun, -, -⟩ := Word.nextMultiple?_eq_some halign hc
  have hgap : Word.sub c run.offset = c - run.offset := Word.sub_eq hrun (by omega)
  have hneeded : Word.checkedAdd? (c - run.offset) size = some (c - run.offset + size) :=
    Word.checkedAdd?_eq_some_iff.2 ⟨by omega, rfl⟩
  have hroom : c - run.offset + size ≤ run.length := by omega
  exact ⟨⟨run, c⟩, by simp [fitIn?, hc, hgap, hneeded, hroom], hle⟩

/-! ## Searching all runs -/

/-- Whether a place comes before another one: in an earlier run, or in the same run and not above
it. -/
def Fit.NotAfter (fit fit' : Fit) : Prop :=
  KeyOrder.before fit.run fit'.run ∨ fit.run = fit'.run ∧ fit.offset ≤ fit'.offset

/-- `bestFit?` finds a place if there is one, and no place comes before the one found. -/
lemma exists_bestFit? (ht : t.InOrder) (halign : 0 < alignment) {fit : Fit}
    (h : t.Fits fit size alignment) :
    ∃ best, t.bestFit? size alignment = some best ∧ best.NotAfter fit := by
  have hword := ht.stop_lt h.free
  have hstarts := h.starts
  have hroom := h.room
  obtain ⟨found, hfound, hle⟩ :=
    fitIn?_of_room halign hword (Nat.dvd_of_mod_eq_zero h.aligned) hstarts hroom
  -- the run is among those that are searched
  have hmem : fit.run ∈ t.bySize.keys.filter fun run => size ≤ run.length :=
    List.mem_filter.2 ⟨Table.mem_keys_iff.2 ⟨(), ht.indexed.2 h.free⟩, by simp; omega⟩
  cases hbest : t.bestFit? size alignment with
  | none =>
    have hnone := List.findSome?_eq_none_iff.1 hbest fit.run hmem
    rw [hfound] at hnone
    exact absurd hnone (by simp)
  | some best =>
    refine ⟨best, rfl, ?_⟩
    obtain ⟨front, run, rest, hsplit, hrun, hfront⟩ := List.findSome?_eq_some_iff.1 hbest
    have hrunWord : run.offset < Word.limit := by
      have hkey : run ∈ t.bySize.keys.filter fun run => size ≤ run.length := by
        rw [hsplit]
        exact List.mem_append_right _ (List.mem_cons_self ..)
      obtain ⟨_, hfind⟩ := Table.mem_keys_iff.1 (List.mem_filter.1 hkey).1
      have := ht.stop_lt (ht.indexed.1 hfind)
      omega
    obtain ⟨hbestRun, -⟩ := fitIn?_eq_some hrunWord halign hrun
    have hordered := (Table.keys_pairwise t.bySize).filter fun run => size ≤ run.length
    rw [hsplit] at hmem hordered
    rcases List.mem_append.1 hmem with hbefore | hrest
    · rw [hfront _ hbefore] at hfound
      exact absurd hfound (by simp)
    · rcases List.mem_cons.1 hrest with hsame | hbehind
      · rw [hsame, hrun] at hfound
        obtain rfl := Option.some.inj hfound
        exact .inr ⟨by rw [hbestRun, hsame], hle⟩
      · refine .inl ?_
        rw [hbestRun]
        exact (List.pairwise_cons.1 (List.pairwise_append.1 hordered).2.1).1 _ hbehind

/-- Room in one of the `freeSpans` is a place that `Fits`. -/
lemma fits_of_mem_freeSpans (ht : t.InOrder) {s : Span} (hs : s ∈ t.freeSpans) {offset : Nat}
    (hdvd : alignment ∣ offset) (hstart : s.start ≤ offset) (hstop : offset + size ≤ s.stop) :
    t.Fits ⟨⟨s.start, s.stop - s.start⟩, offset⟩ size alignment := by
  obtain ⟨l, hrun, hend⟩ := ht.mem_freeSpans_iff.1 hs
  have hl : s.stop - s.start = l := by omega
  have hle : s.start + (s.stop - s.start) = s.stop := by omega
  refine ⟨?_, hstart, Nat.mod_eq_zero_of_dvd hdvd, ?_⟩
  · rw [hl]
    exact hrun
  · show offset + size ≤ s.start + (s.stop - s.start)
    omega

/-- The run of a place that `Fits` is one of the `freeSpans`. -/
lemma Fits.mem_freeSpans (ht : t.InOrder) {fit : Fit} (h : t.Fits fit size alignment) :
    ⟨fit.run.offset, fit.run.offset + fit.run.length⟩ ∈ t.freeSpans :=
  ht.mem_freeSpans_iff.2 ⟨_, h.free, rfl⟩

/-! ## Reserving -/

/-- For a power of two, `reserve` answers with the place that `bestFit?` finds. -/
lemma reserve_answer (t : Tracker) (hpower : (max alignment 1).isPowerOfTwo) :
    (t.reserve size alignment).answer =
      (t.bestFit? (slotSize size) (max alignment 1)).map (·.offset) := by
  unfold reserve
  simp only [if_pos hpower]
  split <;> simp [*]

/-- For a power of two, `reserve` fails exactly if none of the `freeSpans` has room. -/
lemma reserve_eq_none_iff (ht : t.InOrder) (size : Nat)
    (hpower : (max alignment 1).isPowerOfTwo) :
    (t.reserve size alignment).answer = none ↔
      ∀ s ∈ t.freeSpans, ¬ s.HasRoom (slotSize size) (max alignment 1) := by
  have halign : 0 < max alignment 1 := by omega
  rw [reserve_answer t hpower, Option.map_eq_none_iff]
  constructor
  · rintro hnone s hs ⟨offset, hdvd, hstart, hstop⟩
    obtain ⟨best, hbest, -⟩ :=
      exists_bestFit? ht halign (fits_of_mem_freeSpans ht hs hdvd hstart hstop)
    rw [hnone] at hbest
    exact absurd hbest (by simp)
  · intro hnot
    rw [Option.eq_none_iff_forall_ne_some]
    intro fit hfit
    have hfits := fits_of_bestFit? ht halign hfit
    exact hnot _ (hfits.mem_freeSpans ht)
      ⟨fit.offset, Nat.dvd_of_mod_eq_zero hfits.aligned, hfits.starts, hfits.room⟩

/-- In the `freeSpans` after `occupy`, the run of the slot is replaced by what is left of it. -/
lemma mem_freeSpans_occupy (ht : t.InOrder) {fit : Fit} (h : t.Fits fit size alignment)
    (hsize : 0 < size) {r : Span} :
    r ∈ (t.occupy fit size).freeSpans ↔
      r.start < r.stop ∧ (r.start = fit.run.offset ∧ r.stop = fit.offset ∨
        r.start = fit.offset + size ∧ r.stop = fit.run.offset + fit.run.length) ∨
      r ∈ t.freeSpans ∧ r.start ≠ fit.run.offset := by
  rw [(inOrder_occupy ht h hsize).mem_freeSpans_iff, ht.mem_freeSpans_iff]
  simp only [holds_occupy ht h hsize, Splits, true_and]
  constructor
  · rintro ⟨l, hnew | ⟨hold, hne⟩, hstop⟩
    · exact .inl (by omega)
    · exact .inr ⟨⟨l, hold, hstop⟩, hne⟩
  · rintro (hnew | ⟨⟨l, hold, hstop⟩, hne⟩)
    · exact ⟨r.stop - r.start, .inl (by omega), by omega⟩
    · exact ⟨l, .inr ⟨hold, hne⟩, hstop⟩

/-- Whether the byte at `x` lies in one of `t.freeSpans`. -/
def IsFree (t : Tracker) (x : Nat) : Prop := ∃ s ∈ t.freeSpans, s.start ≤ x ∧ x < s.stop

/-- Of the free bytes, `occupy` takes just those of the slot. -/
lemma isFree_occupy (ht : t.InOrder) {fit : Fit} (h : t.Fits fit size alignment)
    (hsize : 0 < size) (x : Nat) :
    (t.occupy fit size).IsFree x ↔
      t.IsFree x ∧ ¬ (fit.offset ≤ x ∧ x < fit.offset + size) := by
  have hstarts := h.starts
  have hroom := h.room
  unfold IsFree
  simp only [mem_freeSpans_occupy ht h hsize]
  constructor
  · rintro ⟨r, hleft | ⟨hr, hne⟩, hx⟩
    · exact ⟨⟨_, h.mem_freeSpans ht, by simp only; omega⟩, by omega⟩
    · -- another run has no byte of the one that the slot is put into
      obtain ⟨l, hrun, hstop⟩ := ht.mem_freeSpans_iff.1 hr
      have := ht.apart hrun h.free (by simpa using hne)
      exact ⟨⟨r, hr, hx⟩, by omega⟩
  · rintro ⟨⟨r, hr, hx⟩, hout⟩
    by_cases hsame : r.start = fit.run.offset
    · obtain ⟨l, hrun, hstop⟩ := ht.mem_freeSpans_iff.1 hr
      have hl : l = fit.run.length := (hsame ▸ hrun).length_unique h.free
      by_cases hbefore : x < fit.offset
      · exact ⟨⟨fit.run.offset, fit.offset⟩, .inl ⟨by simp only; omega, .inl ⟨rfl, rfl⟩⟩,
          by simp only; omega⟩
      · exact ⟨⟨fit.offset + size, fit.run.offset + fit.run.length⟩,
          .inl ⟨by simp only; omega, .inr ⟨rfl, rfl⟩⟩, by simp only; omega⟩
    · exact ⟨r, .inr ⟨hr, hsame⟩, hx⟩

/-- Where a reservation puts a slot: at the lowest multiple of `alignment` in a span of
`t.freeSpans` that `HasRoom`, before which no such span comes. -/
structure IsBestPlace (t : Tracker) (size alignment : Nat) (s : Span) (offset : Nat) : Prop where
  free : s ∈ t.freeSpans
  aligned : alignment ∣ offset
  starts : s.start ≤ offset
  stops : offset + size ≤ s.stop
  /-- No free run with room comes before it. -/
  first : ∀ r ∈ t.freeSpans, r.HasRoom size alignment → s.NotAfter r
  /-- No multiple of the alignment in the run is below it. -/
  lowest : ∀ o, alignment ∣ o → s.start ≤ o → offset ≤ o

/-- The place that `bestFit?` finds is `IsBestPlace`. -/
lemma isBestPlace_of_bestFit? (ht : t.InOrder) (halign : 0 < alignment) {fit : Fit}
    (h : t.bestFit? size alignment = some fit) :
    t.IsBestPlace size alignment ⟨fit.run.offset, fit.run.offset + fit.run.length⟩ fit.offset := by
  have hfits := fits_of_bestFit? ht halign h
  have hroom := hfits.room
  refine ⟨hfits.mem_freeSpans ht, Nat.dvd_of_mod_eq_zero hfits.aligned, hfits.starts, hroom,
    ?_, ?_⟩
  · rintro r hr ⟨offset, hdvd, hstart, hstop⟩
    obtain ⟨best, hbest, hfirst⟩ :=
      exists_bestFit? ht halign (fits_of_mem_freeSpans ht hr hdvd hstart hstop)
    obtain rfl : fit = best := Option.some.inj (h.symm.trans hbest)
    unfold Span.NotAfter
    rcases hfirst with hbefore | ⟨hsame, -⟩
    · have hbefore : fit.run.length < r.stop - r.start ∨
          fit.run.length = r.stop - r.start ∧ fit.run.offset < r.start := hbefore
      simp only
      omega
    · rw [hsame]
      simp only
      omega
  · intro o hdvd hstart
    -- a multiple below the place found would be a place itself
    by_contra hlt
    have hlower : t.Fits ⟨fit.run, o⟩ size alignment :=
      ⟨hfits.free, hstart, Nat.mod_eq_zero_of_dvd hdvd, by simp only; omega⟩
    obtain ⟨best, hbest, hfirst⟩ := exists_bestFit? ht halign hlower
    obtain rfl : fit = best := Option.some.inj (h.symm.trans hbest)
    rcases hfirst with hbefore | ⟨-, hle⟩
    · exact KeyOrder.irrefl _ hbefore
    · exact hlt hle

/-- `largestRun` is the length of the longest of the `freeSpans`: the last one by length. -/
lemma InOrder.le_largestRun_iff (ht : t.InOrder) (hsize : 0 < size) :
    size ≤ t.largestRun ↔ ∃ s ∈ t.freeSpans, size ≤ s.stop - s.start := by
  have hlast : t.largestRun = (t.bySize.entries.getLast?.map (·.1.length)).getD 0 := by
    unfold largestRun Table.keys
    rw [List.getLast?_map, Option.map_map]
    rfl
  rw [hlast]
  constructor
  · intro hle
    cases hfind : t.bySize.entries.getLast? with
    | none =>
      rw [hfind] at hle
      exact absurd hle (by simp; omega)
    | some e =>
      rw [hfind] at hle
      have hkey := Table.find?_eq_some_iff.2 (List.mem_of_getLast? hfind)
      refine ⟨⟨e.1.offset, e.1.offset + e.1.length⟩,
        ht.mem_freeSpans_iff.2 ⟨_, ht.indexed.1 hkey, rfl⟩, ?_⟩
      have hle : size ≤ e.1.length := hle
      simp only
      omega
  · rintro ⟨s, hs, hle⟩
    obtain ⟨l, hrun, hstop⟩ := ht.mem_freeSpans_iff.1 hs
    have hmem : ((⟨s.start, l⟩, ()) : Run × Unit) ∈ t.bySize.entries :=
      Table.find?_eq_some_iff.1 (ht.indexed.2 hrun)
    obtain ⟨e, hfind⟩ : ∃ e, t.bySize.entries.getLast? = some e :=
      ⟨_, List.getLast?_eq_some_getLast (List.ne_nil_of_mem hmem)⟩
    have hgreatest :=
      ((Table.getLast?_eq_some_iff_of_pairwise t.bySize.ordered).1 hfind).2 _ hmem
    rw [hfind]
    show size ≤ e.1.length
    rcases hgreatest with hsame | hbefore
    · have hlength : l = e.1.length := congrArg Run.length hsame
      omega
    · have hbefore : l < e.1.length ∨ l = e.1.length ∧ s.start < e.1.offset := hbefore
      omega

/-- `reserve` is exact best fit. Whatever was done to a tracker before, a reservation for a power of
two fails exactly if no free run has room for it at a multiple of the alignment. Otherwise the slot
is put at the place that `IsBestPlace`: at the lowest multiple in the run that comes first by length
and then by offset among those with room, and just the bytes of the slot stop being free. For
requests without an alignment `largestRun` decides. -/
theorem reserve_best_fit {capacity : Nat} (hword : capacity < Word.limit) (tracking : Tracking)
    (steps : List Step) (size alignment : Nat) (hpower : (max alignment 1).isPowerOfTwo) :
    let t := (new capacity tracking).run steps
    let after := (t.reserve size alignment).state
    ((t.reserve size alignment).answer = none ↔
      ∀ s ∈ t.freeSpans, ¬ s.HasRoom (slotSize size) (max alignment 1)) ∧
    (∀ offset, (t.reserve size alignment).answer = some offset →
      (∃ s, t.IsBestPlace (slotSize size) (max alignment 1) s offset) ∧
      ∀ x, after.IsFree x ↔ t.IsFree x ∧ ¬ (offset ≤ x ∧ x < offset + slotSize size)) ∧
    ((t.reserve size 1).answer.isSome ↔ slotSize size ≤ t.largestRun) := by
  intro t after
  have ht : t.InOrder := inOrder_run (inOrder_new hword tracking) steps
  have hsize := slotSize_pos size
  have halign : 0 < max alignment 1 := by omega
  refine ⟨reserve_eq_none_iff ht size hpower, fun offset hanswer => ?_, ?_⟩
  · rcases t.reserve_cases size alignment with ⟨hnone, -⟩ | ⟨fit, hfit, hsome, hstate⟩
    · rw [hnone] at hanswer
      exact absurd hanswer (by simp)
    · obtain rfl : fit.offset = offset := Option.some.inj (hsome.symm.trans hanswer)
      refine ⟨⟨_, isBestPlace_of_bestFit? ht halign hfit⟩, fun x => ?_⟩
      show (t.reserve size alignment).state.IsFree x ↔ _
      rw [hstate]
      exact isFree_occupy ht (fits_of_bestFit? ht halign hfit) hsize x
  · have hpower' : (max 1 1).isPowerOfTwo := by decide
    have hnone := reserve_eq_none_iff ht size hpower'
    rw [Option.isSome_iff_ne_none, ne_eq, hnone, ht.le_largestRun_iff hsize]
    simp only [Nat.max_self, Span.hasRoom_one_iff hsize, not_forall, not_not, exists_prop]

/-- A region cut into runs of 16, 12 and 68 bytes. A slot of 12 bytes at a multiple of 16 passes
over the run of 12 bytes, one of 40 bytes at a multiple of 32 leaves the first 28 bytes of the
longest run free, and one of 41 bytes finds no room there although that run has 68. -/
theorem reserve_best_fit_fragmented :
    let t := (new 104 {}).run [.reserve 16 1, .reserve 4 1, .reserve 12 1, .reserve 4 1,
      .release 0 16, .release 20 12]
    (104 < Word.limit ∧ (max 16 1).isPowerOfTwo ∧ (max 32 1).isPowerOfTwo) ∧
      t.freeSpans = [⟨0, 16⟩, ⟨20, 32⟩, ⟨36, 104⟩] ∧
      (t.reserve 12 16).answer = some 0 ∧ t.IsBestPlace 12 16 ⟨0, 16⟩ 0 ∧
      (t.reserve 40 32).answer = some 64 ∧ (t.reserve 40 32).state.IsFree 36 ∧
      (t.reserve 41 32).answer = none ∧ (t.reserve 41 1).answer.isSome := by
  intro t
  have hfree : t.freeSpans = [⟨0, 16⟩, ⟨20, 32⟩, ⟨36, 104⟩] := by decide
  have hanswer : (t.reserve 12 16).answer = some 0 := by decide
  have hanswer' : (t.reserve 40 32).answer = some 64 := by decide
  obtain ⟨-, hplace, -⟩ := reserve_best_fit (by decide : 104 < Word.limit) {}
    [.reserve 16 1, .reserve 4 1, .reserve 12 1, .reserve 4 1, .release 0 16, .release 20 12]
    12 16 (by decide)
  obtain ⟨-, hplace', -⟩ := reserve_best_fit (by decide : 104 < Word.limit) {}
    [.reserve 16 1, .reserve 4 1, .reserve 12 1, .reserve 4 1, .release 0 16, .release 20 12]
    40 32 (by decide)
  obtain ⟨hmissed, -, hlongest⟩ := reserve_best_fit (by decide : 104 < Word.limit) {}
    [.reserve 16 1, .reserve 4 1, .reserve 12 1, .reserve 4 1, .release 0 16, .release 20 12]
    41 32 (by decide)
  refine ⟨by decide, hfree, hanswer, ?_, hanswer', ?_, hmissed.2 (by decide +kernel),
    hlongest.2 (by decide)⟩
  · -- of the three runs only the one in front has the place
    obtain ⟨s, hs⟩ := (hplace 0 hanswer).1
    have hmem : s ∈ t.freeSpans := hs.free
    have hstarts := hs.starts
    rw [hfree] at hmem
    simp only [List.mem_cons, List.not_mem_nil, or_false] at hmem
    rcases hmem with rfl | rfl | rfl
    · exact hs
    · exact absurd hstarts (by decide)
    · exact absurd hstarts (by decide)
  · exact ((hplace' 64 hanswer').2 36).2 ⟨⟨⟨36, 104⟩, by decide, by decide⟩, by decide⟩

end BlockPool.Tracker
