import BlockPool.Proofs.Tracker.SelfCheck
import Mathlib.Data.List.Pairwise
import Mathlib.Data.List.Perm.Subperm

/-!
# What the self-check decides

The self-check is right on books in any state, also on those that no action leads to: it succeeds
only if the pieces fill the region side by side, the two collections of free runs agree and the
reserved bytes are counted right.

Main statement: the self-check of a tracker succeeds if and only if its books are in order. Of the
tracker, nothing is assumed but that every piece stops at a word.
-/

namespace BlockPool.Tracker

/-! ## The walk along the pieces -/

/-- Pieces lie side by side from `cursor` to `limit`, none of them empty and no two free ones next
to each other. -/
structure Row (limit cursor : Nat) (afterFree : Bool) (ps : List Piece) : Prop where
  cursor_le : cursor ≤ limit
  ordered : ps.Pairwise fun p q => p.span.stop ≤ q.span.start
  within {p : Piece} : p ∈ ps →
    cursor ≤ p.span.start ∧ p.span.start < p.span.stop ∧ p.span.stop ≤ limit
  covered {x : Nat} : cursor ≤ x → x < limit → ∃ p ∈ ps, p.span.start ≤ x ∧ x < p.span.stop
  after {p : Piece} : afterFree = true → p ∈ ps → p.isFree = true → p.span.start ≠ cursor
  merged {p q : Piece} : p ∈ ps → p.isFree = true → q ∈ ps → q.isFree = true →
    q.span.start ≠ p.span.stop

lemma row_nil (limit : Nat) (afterFree : Bool) : Row limit limit afterFree [] where
  cursor_le := Nat.le_refl limit
  ordered := .nil
  within h := absurd h List.not_mem_nil
  covered h h' := absurd h (Nat.not_le.2 h')
  after _ h := absurd h List.not_mem_nil
  merged h := absurd h List.not_mem_nil

/-- A piece at the cursor may stand in front of a `Row` that starts where the piece stops. -/
lemma Row.cons {limit : Nat} {afterFree : Bool} {p : Piece} {rest : List Piece}
    (h : Row limit p.span.stop p.isFree rest) (hpos : p.span.start < p.span.stop)
    (hapart : (p.isFree && afterFree) = false) :
    Row limit p.span.start afterFree (p :: rest) where
  cursor_le := Nat.le_trans (Nat.le_of_lt hpos) h.cursor_le
  ordered := List.pairwise_cons.2 ⟨fun _ hq => (h.within hq).1, h.ordered⟩
  within {q} hq := by
    rcases List.mem_cons.1 hq with rfl | hq
    · exact ⟨Nat.le_refl _, hpos, h.cursor_le⟩
    · have := h.within hq
      omega
  covered {x} hlo hhi := by
    by_cases hx : x < p.span.stop
    · exact ⟨p, List.mem_cons_self, hlo, hx⟩
    · obtain ⟨q, hq, hin⟩ := h.covered (Nat.not_lt.1 hx) hhi
      exact ⟨q, List.mem_cons_of_mem p hq, hin⟩
  after {q} hafter hq hfree := by
    rcases List.mem_cons.1 hq with rfl | hq
    · simp [hfree, hafter] at hapart
    · have := h.within hq
      omega
  merged {q r} hq hqfree hr hrfree := by
    rcases List.mem_cons.1 hr with rfl | hrest
    · -- no piece, the first one included, stops where the first one starts
      rcases List.mem_cons.1 hq with rfl | hq'
      · omega
      · have := h.within hq'
        omega
    · rcases List.mem_cons.1 hq with rfl | hq'
      · exact h.after hqfree hrest hrfree
      · exact h.merged hq' hqfree hrest hrfree

/-- `follow` succeeds on nothing but a `Row`, by induction along the walk. -/
lemma row_of_follow {limit cursor : Nat} {afterFree : Bool} {ps : List Piece}
    (h : follow limit cursor afterFree ps = true) : Row limit cursor afterFree ps := by
  induction ps generalizing cursor afterFree with
  | nil =>
    obtain rfl : cursor = limit := of_decide_eq_true h
    exact row_nil cursor afterFree
  | cons p rest ih =>
    simp only [follow, Bool.and_eq_true, decide_eq_true_eq, Bool.not_eq_true'] at h
    obtain ⟨⟨⟨rfl, hpos⟩, hapart⟩, hrest⟩ := h
    exact (ih hrest).cons hpos hapart

/-! ## Books that pass -/

variable {t : Tracker}

/-- What a tracker `Holds` at an offset is one of its `pieces`. -/
lemma Words.piece_mem (ht : t.Words) {k : Bool} {o l : Nat} (h : t.Holds k o l) :
    ⟨⟨o, o + l⟩, k⟩ ∈ t.pieces :=
  (mem_pieces_iff ht).2 ⟨l, h, rfl⟩

/-- Different pieces of a `Row` lie apart. -/
lemma Row.apart {limit cursor : Nat} {afterFree : Bool} {ps : List Piece}
    (h : Row limit cursor afterFree ps) {p q : Piece} (hp : p ∈ ps) (hq : q ∈ ps) (hne : p ≠ q) :
    p.span.stop ≤ q.span.start ∨ q.span.stop ≤ p.span.start := by
  have : Std.Symm fun p q : Piece => p.span.stop ≤ q.span.start ∨ q.span.stop ≤ p.span.start :=
    ⟨fun _ _ => Or.symm⟩
  have hpair : ps.Pairwise fun p q => p.span.stop ≤ q.span.start ∨ q.span.stop ≤ p.span.start :=
    h.ordered.imp .inl
  exact hpair.forall hp hq hne

/-- If `bySize` has as many runs as `free`, and all of these, then it has the same ones. -/
lemma indexed_of_size (hsize : t.bySize.size = t.free.size)
    (hall : ∀ e ∈ t.free.entries, t.bySize.contains ⟨e.1, e.2⟩ = true) (run : Run) :
    t.bySize.find? run = some () ↔ t.Holds true run.offset run.length := by
  have hsubset : t.freeRuns ⊆ t.bySize.keys := by
    intro run hrun
    obtain ⟨e, he, rfl⟩ := List.mem_map.1 hrun
    exact Table.contains_iff.1 (hall e he)
  have hlength : t.bySize.keys.length ≤ t.freeRuns.length := by
    rw [Table.keys, freeRuns, List.length_map, List.length_map]
    exact Nat.le_of_eq hsize
  have hperm : t.freeRuns.Perm t.bySize.keys :=
    (List.subperm_of_subset t.freeRuns_nodup hsubset).perm_of_length_le hlength
  rw [← mem_freeRuns_iff, hperm.mem_iff, Table.mem_keys_iff]
  constructor
  · intro hfind
    exact ⟨(), hfind⟩
  · rintro ⟨_, hfind⟩
    exact hfind

/-- A region that is filled by pieces has a word as its capacity. -/
lemma Row.capacity_lt (h : Row t.capacity 0 false t.pieces) (ht : t.Words) :
    t.capacity < Word.limit := by
  by_cases hzero : t.capacity = 0
  · rw [hzero]
    decide
  · -- the piece over the last byte stops at a word
    obtain ⟨p, hp, -, hlt⟩ := h.covered (x := t.capacity - 1) (Nat.zero_le _) (by omega)
    obtain ⟨l, hold, hstop⟩ := (mem_pieces_iff ht).1 hp
    have := ht _ _ _ hold
    omega

/-- `Word.sum` does not wrap around over slots that lie apart in a region. -/
lemma Row.sum_slots (h : Row t.capacity 0 false t.pieces) (ht : t.Words) :
    Word.sum t.slots.values = total t.slots.values := by
  have hle : total t.slots.values ≤ t.capacity := by
    apply total_values_le
    · intro o l hold
      exact (h.within (ht.piece_mem (k := false) hold)).2.2
    · intro o o' l l' hold hold' hne
      refine h.apart (ht.piece_mem (k := false) hold) (ht.piece_mem (k := false) hold') ?_
      simp [hne]
  exact sum_eq_total (Nat.lt_of_le_of_lt hle (h.capacity_lt ht))

/-- Books that pass the self-check `isConsistent` are `InOrder`. -/
theorem inOrder_of_isConsistent (ht : t.Words) (h : t.isConsistent = true) : t.InOrder := by
  simp only [isConsistent, Bool.and_eq_true, decide_eq_true_eq, List.all_eq_true] at h
  obtain ⟨⟨⟨hfollow, hsize⟩, hall⟩, hsum⟩ := h
  have hrow := row_of_follow hfollow
  exact {
    word := hrow.capacity_lt ht
    nonempty := fun hold => by
      have hpos := (hrow.within (ht.piece_mem hold)).2.1
      simp only at hpos
      omega
    inside := fun hold => (hrow.within (ht.piece_mem hold)).2.2
    apart := fun hold hold' hne => by
      refine hrow.apart (ht.piece_mem hold) (ht.piece_mem hold') fun heq => hne ?_
      simp only [Piece.mk.injEq, Span.mk.injEq] at heq
      rw [heq.1.1, heq.2]
    covered := fun {x} hx => by
      obtain ⟨p, hp, hle, hlt⟩ := hrow.covered (Nat.zero_le x) hx
      obtain ⟨l, hold, hstop⟩ := (mem_pieces_iff ht).1 hp
      exact ⟨_, _, l, hold, hle, hstop ▸ hlt⟩
    merged := fun hold hold' =>
      hrow.merged (ht.piece_mem hold) rfl (ht.piece_mem hold') rfl rfl
    indexed := fun {run} => indexed_of_size hsize hall run
    counted := by rw [← hsum, hrow.sum_slots ht] }

/-- Whatever the contents of a tracker are, if only every entry stops at a word, `isConsistent`
holds if and only if the books are `InOrder`. -/
theorem isConsistent_iff_inOrder (hfree : ∀ e ∈ t.free.entries, e.1 + e.2 < Word.limit)
    (hslots : ∀ e ∈ t.slots.entries, e.1 + e.2 < Word.limit) :
    t.isConsistent = true ↔ t.InOrder := by
  have hwords : t.Words := by
    intro k o l hold
    cases k with
    | false => exact hslots (o, l) (Table.find?_eq_some_iff.1 hold)
    | true => exact hfree (o, l) (Table.find?_eq_some_iff.1 hold)
  exact ⟨inOrder_of_isConsistent hwords, isConsistent_of_inOrder⟩

/-- A region of 16 bytes with a slot in front of a free run. -/
def halfFree : Tracker where
  capacity := 16
  reserved := 8
  free := .ofList [(8, 8)]
  bySize := .ofList [(⟨8, 8⟩, ())]
  slots := .ofList [(0, 8)]
  tracking := {}

/-- A free region of 16 bytes as two free runs that touch. -/
def unmerged : Tracker where
  capacity := 16
  reserved := 0
  free := .ofList [(0, 8), (8, 8)]
  bySize := .ofList [(⟨0, 8⟩, ()), (⟨8, 8⟩, ())]
  slots := .empty
  tracking := {}

/-- Of two trackers that no action made, `halfFree` has its books in order and `unmerged` has
not. -/
theorem isConsistent_iff_inOrder_by_hand : halfFree.InOrder ∧ ¬ unmerged.InOrder := by
  constructor
  · exact (isConsistent_iff_inOrder (by decide) (by decide)).1 (by decide)
  · intro h
    have hpasses := (isConsistent_iff_inOrder (by decide) (by decide)).2 h
    exact absurd hpasses (by decide)

end BlockPool.Tracker
