import BlockPool.Memory.Arena
import BlockPool.Proofs.Tracker.Ledger
import BlockPool.Proofs.World.Descent
import BlockPool.Proofs.World.Exchange

/-!
# Alignment of what is served

An address comes from a block that is there, from a new block, or from a fallback. A new block is
made for the alignment of its affinity, and what a fallback offers is checked against it. A block
that is there keeps the alignment that it was made with, so an affinity that is given a greater
alignment later is still served from its old blocks.

Main statement: an address that an allocator serves has the alignment of its affinity, or it lies in
a block that was there, was made when the alignment of the affinity was smaller, and has that one.
-/

namespace BlockPool

variable {size address alignment : Nat}

/-! ## Blocks -/

/-- An address that a `Made` block serves with lies in it and is a multiple of `b.alignment`. -/
lemma Block.Made.served {b : Block} (h : b.Made Region.IsAligned alignment)
    (hanswer : (b.allocate size).answer = some address) :
    b.contains address = true ∧ b.alignment ∣ address := by
  unfold Block.allocate at hanswer
  obtain ⟨offset, hoffset, rfl⟩ := Option.map_eq_some_iff.1 hanswer
  obtain ⟨hroom, hdvd, -⟩ := Tracker.reserve_place h.ok.inOrder hoffset
  have hpos := Tracker.slotSize_pos size
  rw [h.ok.capacity] at hroom
  constructor
  · unfold Block.contains
    rw [decide_eq_true_eq]
    show b.base ≤ b.base + offset ∧ b.base + offset < b.base + b.layout.size
    omega
  · have halignment : max b.alignment 1 = b.alignment := by
      have := h.alignment
      omega
    rw [halignment] at hdvd
    exact Nat.dvd_add h.dvd_base hdvd

/-! ## Groups and allocators -/

/-- All blocks of an affinity were `Made` in regions that are `Region.IsAligned`. -/
def Allocator.AllMade (a : Allocator) (affinity : Affinity) : Prop :=
  ∀ key b, a.block? affinity key = some b → ∃ alignment, b.Made Region.IsAligned alignment

/-- Whether an address is a multiple of `a.alignmentFor affinity`, or lies in a block of the
affinity and is a multiple of `b.alignment`. -/
def Allocator.Suits (a : Allocator) (affinity : Affinity) (address : Nat) : Prop :=
  a.alignmentFor affinity ∣ address ∨
    ∃ key b, a.block? affinity key = some b ∧ b.contains address = true ∧ b.alignment ∣ address

variable {σ : Type} [System σ] [LawfulSystem σ]

/-- `allocatePooled` answers an address that `Suits` the affinity. -/
lemma Allocator.allocatePooled_suits {a : Allocator} {affinity : Affinity}
    (ha : a.AllMade affinity) (hpos : 0 < a.alignmentFor affinity) (size : Nat) (m : Memory σ) :
    Ends (a.allocatePooled size affinity) m fun out _ =>
      ∀ address, out.1 = .ok address → a.Suits affinity address := by
  unfold allocatePooled
  have halignment := (a.ensureGroup_frame affinity m).mono fun _ _ h => h.2
  refine (Ends.and (ensureGroup_blocks m a affinity) halignment).bind ?_
  rintro ⟨g, a₁⟩ m₁ ⟨hblocks, halignment⟩
  refine (Group.allocate_answering (promises_isAligned σ) g size a₁.tracking m₁).bind ?_
  rintro ⟨answer, g'⟩ m₂ hanswering
  cases hanswering with
  | @old base address b hfind hserved =>
    rw [hblocks] at hfind
    obtain ⟨alignment, hmade⟩ := ha base b hfind
    obtain ⟨hcontains, hdvd⟩ := hmade.served hserved
    refine Ends.trivial.bind fun _ _ _ => ?_
    intro address' haddress
    obtain rfl := Except.ok.inj haddress
    exact .inr ⟨base, b, hfind, hcontains, hdvd⟩
  | @new base hmade hserved =>
    have hdvd := (hmade.served hserved).2
    have hsame : (g.newBlock size base a₁.tracking).alignment = a.alignmentFor affinity := by
      rw [hmade.alignment, halignment]
      omega
    rw [hsame] at hdvd
    refine Ends.trivial.bind fun _ _ _ => ?_
    intro address' haddress
    obtain rfl := Except.ok.inj haddress
    exact .inl hdvd
  | failed reason =>
    refine Ends.trivial.bind fun _ _ _ => ?_
    intro address haddress
    cases haddress

/-! ## Chains -/

namespace World

variable {w : World σ}

omit [LawfulSystem σ] in
/-- `serveFrom` answers only addresses that meet the alignment asked for. -/
lemma serveFrom_meets (links : Links σ) (size : Nat) (affinity : Affinity) (alignment : Nat)
    (strategies : List Strategy) (w : World σ) :
    Ends (serveFrom links size affinity alignment strategies) w fun answer _ =>
      ∀ address, answer = some address → Meets alignment address := by
  induction strategies generalizing w with
  | nil => exact fun address h => absurd h (Option.some_ne_none address).symm
  | cons s rest ih =>
    unfold serveFrom
    refine Ends.trivial.bind fun offered w₁ _ => ?_
    cases offered with
    | none => exact ih w₁
    | some offered =>
      simp only
      split
      · exact Ends.trivial.bind fun _ w₂ _ => Ends.trivial.bind fun _ w₃ _ => ih w₃
      · rename_i hmeets
        refine Ends.trivial.bind fun _ _ _ => ?_
        intro address haddress
        obtain rfl := Option.some.inj haddress
        exact not_not.1 fun hnot => hmeets (not_meets_iff.1 hnot)

/-- `allocateWith` answers an address that `Suits` the affinity, whatever serves the request. -/
lemma allocateWith_suits (links : Links σ) {id : Nat} {a : Allocator} {affinity : Affinity}
    (ha : a.AllMade affinity) (hpower : (a.alignmentFor affinity).isPowerOfTwo) (chain : Chain)
    (size : Nat) (w : World σ) :
    Ends (allocateWith links id a chain size affinity) w fun answer _ =>
      ∀ address, answer = .ok address → a.Suits affinity address := by
  have hpos : 0 < a.alignmentFor affinity := Nat.pos_of_isPowerOfTwo hpower
  have hpool : Ends (onMemory (a.allocatePooled size affinity)) w fun out _ =>
      (∀ address, out.1 = .ok address → a.Suits affinity address) ∧
        out.2.alignmentFor affinity = a.alignmentFor affinity :=
    Ends.and (Allocator.allocatePooled_suits ha hpos size w.memory)
      ((a.allocatePooled_frame size affinity w.memory).mono fun _ _ h => h.2)
  unfold allocateWith
  refine hpool.bind ?_
  rintro ⟨answer, a'⟩ w₁ ⟨hanswer, halignment⟩
  refine Ends.trivial.bind fun _ w₂ _ => ?_
  cases answer with
  | ok address => exact fun address' haddress => hanswer address' haddress
  | error reason =>
    refine (serveFrom_meets links size affinity _ (a'.strategies chain) w₂).bind ?_
    intro answer w₃ hmeets
    cases answer with
    | some address =>
      intro address' haddress
      obtain rfl := Except.ok.inj haddress
      have hmeets := hmeets address rfl
      have halignment : a'.alignmentFor affinity = a.alignmentFor affinity := halignment
      rw [halignment] at hmeets
      exact .inl (Nat.dvd_of_mod_eq_zero (hmeets hpower))
    | none =>
      refine Ends.trivial.bind fun _ _ _ => ?_
      intro address haddress
      cases haddress

/-! ## Runs -/

/-- Whether an address lies in a block of an affinity that was made earlier in a run, when
`alignmentFor` was smaller, and is a multiple of that smaller alignment. -/
def InOlderBlock (w : World σ) (steps : List Step) (id : Nat) (a : Allocator) (affinity : Affinity)
    (address : Nat) : Prop :=
  ∃ key b early late old, a.block? affinity key = some b ∧ b.contains address = true ∧
    b.alignment ∣ address ∧ steps = early ++ late ∧
      (run early w).2.allocator? id = some old ∧
        b.alignment = max (old.alignmentFor affinity) 1 ∧ b.alignment < a.alignmentFor affinity

omit [System σ] [LawfulSystem σ] in
/-- Of two powers of two, the smaller one divides the greater one. -/
lemma dvd_of_isPowerOfTwo_of_le {m n : Nat} (hm : m.isPowerOfTwo) (hn : n.isPowerOfTwo)
    (h : m ≤ n) : m ∣ n := by
  obtain ⟨k, rfl⟩ := hm
  obtain ⟨l, rfl⟩ := hn
  exact Nat.pow_dvd_pow 2 ((Nat.pow_le_pow_iff_right (by decide)).1 h)

/-- Whatever was done before and whatever serves a request, the address is a multiple of
`a.alignmentFor affinity`, if that is a power of two, or it is `InOlderBlock`. -/
theorem Unused.served_alignment (h : w.Unused) (steps : List Step) (id : Nat) (chain : Chain)
    (size : Nat) (affinity : Affinity) :
    Ends (run steps) w fun _ w' => ∀ a, w'.allocator? id = some a →
      (a.alignmentFor affinity).isPowerOfTwo →
        Ends (allocate id chain size affinity) w' fun answer _ =>
          ∀ address, answer = some (.ok address) →
            a.alignmentFor affinity ∣ address ∨ InOlderBlock w steps id a affinity address := by
  refine (h.made_run (promises_isAligned σ) steps).mono fun _ w' hmade a ha hpower => ?_
  have hall : a.AllMade affinity := by
    intro key b hb
    obtain ⟨-, -, -, old, -, -, hmade⟩ := hmade id a ha affinity key b hb
    exact ⟨_, hmade⟩
  refine ends_allocate (fun hnone => absurd (hnone.symm.trans ha) (by simp)) fun a' ha' => ?_
  obtain rfl : a' = a := Option.some.inj (ha'.symm.trans ha)
  refine (allocateWith_suits _ hall hpower chain size w').mono fun answer _ hsuits => ?_
  intro address haddress
  rcases hsuits address (Option.some.inj haddress) with hdvd | ⟨key, b, hb, hcontains, hdvd⟩
  · exact .inl hdvd
  · obtain ⟨-, early, late, old, hsplit, hold, hmade⟩ := hmade id a' ha affinity key b hb
    rcases Nat.lt_or_ge b.alignment (a'.alignmentFor affinity) with hlt | hge
    · exact .inr ⟨key, b, early, late, old, hb, hcontains, hdvd, hsplit, hold, hmade.alignment, hlt⟩
    · -- an alignment that is not smaller is a multiple of the one asked for
      exact .inl ((dvd_of_isPowerOfTwo_of_le hpower hmade.power hge).trans hdvd)

/-- One allocator with small blocks. -/
def small : World Arena where
  memory := { system := .new 65536 .low }
  allocators := [.ofSettings { defaultBlockSize := 4096 } []]

/-- A request, and then a greater alignment for its affinity. -/
def realign : List Step :=
  [.allocate 0 .full 1 .objects,
    .configureGroup 0 { GroupSettings.new .objects 4096 with alignment := some 64 }]

/-- The world `small` is new. -/
lemma unused_small : small.Unused :=
  fun _ ha => ⟨_, _, List.mem_singleton.1 ha⟩

/-- The alignment of an affinity need not hold for blocks that are there: after `realign` the next
address is in the old block and has the old alignment. -/
theorem served_from_older_block :
    small.Unused ∧ Ends (run realign) small fun _ w' => ∃ a, w'.allocator? 0 = some a ∧
      (a.alignmentFor .objects).isPowerOfTwo ∧
        Ends (allocate 0 .full 1 .objects) w' fun answer _ =>
          ∃ address, answer = some (.ok address) ∧ ¬ a.alignmentFor .objects ∣ address := by
  refine ⟨unused_small, _, rfl, ⟨6, rfl⟩, Arena.base + 8, rfl, ?_⟩
  decide

/-- An address in a new block and one in an older block. -/
theorem served_alignment_two_blocks :
    small.Unused ∧ Ends (run realign) small fun _ w' => ∃ a, w'.allocator? 0 = some a ∧
      Ends (allocate 0 .full 4096 .objects) w' (fun answer _ =>
        answer = some (.ok (Arena.base + 4096)) ∧
          (64 ∣ Arena.base + 4096 ∨ InOlderBlock small realign 0 a .objects (Arena.base + 4096))) ∧
      Ends (allocate 0 .full 1 .objects) w' (fun answer _ =>
        answer = some (.ok (Arena.base + 8)) ∧
          (64 ∣ Arena.base + 8 ∨ InOlderBlock small realign 0 a .objects (Arena.base + 8))) := by
  refine ⟨unused_small, _, rfl, ⟨rfl, ?_⟩, rfl, ?_⟩
  · exact unused_small.served_alignment realign 0 .full 4096 .objects _ rfl ⟨6, rfl⟩ _ rfl
  · exact unused_small.served_alignment realign 0 .full 1 .objects _ rfl ⟨6, rfl⟩ _ rfl

end World

end BlockPool
