import BlockPool.Proofs.Allocator.Blank
import BlockPool.Proofs.Group.Reuse
import BlockPool.Proofs.World.Alignment
import BlockPool.World.Boxes

/-!
# When a value is too strictly aligned for a box

A box is refused at once if its value needs more than the alignment of the affinity. Otherwise
memory is requested, and a box is refused late if the address does not have the alignment needed.
New blocks and fallbacks keep the promise of the affinity. An older block may not, as it keeps the
alignment that it was made with when the affinity is given a greater one.

Main statement: after any run, a value is refused for its alignment if it needs more than the
affinity promises, or if an older block serves the request too far from a multiple; in all other
cases the answer is that of the request.
-/

namespace BlockPool

/-! ## Reasons -/

/-- An error that is `unsupportedAlignment`: a value needs a stricter alignment than it could
get. -/
def AllocationError.IsUnsupported : AllocationError → Prop
  | .unsupportedAlignment .. => True
  | _ => False

/-- A group that `Refuses` a request has another reason than `unsupportedAlignment`. -/
lemma Allocator.Refuses.not_isUnsupported {σ : Type} [System σ] {a : Allocator} {size : Nat}
    {affinity : Affinity} {reason : AllocationError} {m : Memory σ}
    (h : a.Refuses size affinity reason m) : ¬ reason.IsUnsupported := by
  have hgrowth := (a.groupFor affinity).grow_growth size a.tracking m
  unfold Refuses at h
  unfold Ends at hgrowth
  simp only [h] at hgrowth
  cases hgrowth <;> exact fun hunsupported => hunsupported

namespace World

variable {σ : Type} [System σ] {w : World σ} {id : Nat} {a : Allocator} {affinity : Affinity}
  {size address : Nat}

/-- `World.allocate` never fails with `unsupportedAlignment`. -/
lemma allocate_not_isUnsupported (id : Nat) (chain : Chain) (size : Nat) (affinity : Affinity)
    (w : World σ) :
    Ends (allocate id chain size affinity) w fun answer _ =>
      ∀ reason, answer = some (.error reason) → ¬ reason.IsUnsupported := by
  refine ends_allocate (fun _ _ h => nomatch h) fun a ha => ?_
  have hpool : Ends (onMemory (a.allocatePooled size affinity)) w fun out _ =>
      ∀ reason, out.1 = .error reason → ¬ reason.IsUnsupported :=
    (a.allocatePooled_failed size affinity w.memory).mono fun _ _ h reason hreason =>
      (h reason hreason).2.not_isUnsupported
  unfold allocateWith
  refine hpool.bind ?_
  rintro ⟨answer, a'⟩ w₁ hpooled
  refine Ends.trivial.bind fun _ w₂ _ => ?_
  cases answer with
  | ok address => exact fun _ h => nomatch h
  | error reason =>
    refine Ends.trivial.bind fun answer w₃ _ => ?_
    cases answer with
    | some address => exact fun _ h => nomatch h
    | none =>
      refine Ends.trivial.bind fun _ _ _ => ?_
      intro reason' hreason
      rw [← Except.error.inj (Option.some.inj hreason)]
      exact hpooled reason rfl

/-! ## Answers -/

/-- What `boxMemory` makes of the answer to its request for memory. -/
def boxAnswer (layout : Layout) (unsupported : AllocationError) :
    Option (Except AllocationError Nat) → Except AllocationError Nat
  | none => .error unsupported
  | some (.error reason) => .error reason
  | some (.ok address) =>
    if address % layout.alignment = 0 then .ok address else .error unsupported

/-- `boxMemory` refuses a layout above `a.alignmentFor affinity` at once, and is otherwise
`boxAnswer` of the answer to the request. -/
lemma boxMemory_answer (id : Nat) (a : Allocator) (layout : Layout) (affinity : Affinity)
    (w : World σ) :
    Ends (boxMemory id a layout affinity) w fun result _ => result =
      if a.alignmentFor affinity < layout.alignment then
        .error (.unsupportedAlignment affinity layout.alignment (a.alignmentFor affinity))
      else boxAnswer layout
        (.unsupportedAlignment affinity layout.alignment (a.alignmentFor affinity))
        (allocate id .full layout.size affinity w).1 := by
  have hasked : Ends (allocate id .full layout.size affinity) w fun answer _ =>
      (allocate id .full layout.size affinity w).1 = answer := rfl
  unfold boxMemory
  simp only
  split
  · rfl
  · refine hasked.bind fun answer w₁ hanswer => ?_
    rw [hanswer]
    unfold boxAnswer
    rcases answer with _ | reason | address
    · rfl
    · rfl
    · simp only
      split
      · rfl
      · exact Ends.trivial.bind fun _ _ _ => rfl

/-- `newBoxed` answers what `boxMemory` does. -/
lemma newBoxed_answer (ha : w.allocator? id = some a) (layout : Layout) (value : Value)
    (affinity : Affinity) :
    Ends (newBoxed id layout value affinity) w fun answer _ =>
      answer = some ((boxMemory id a layout affinity w).1) := by
  have hmemory : Ends (boxMemory id a layout affinity) w fun result _ =>
      (boxMemory id a layout affinity w).1 = result := rfl
  unfold newBoxed
  apply Ends.get_bind
  rw [ha]
  refine hmemory.bind fun result w₁ hresult => ?_
  rw [hresult]
  cases result with
  | ok address => exact Ends.trivial.bind fun _ _ _ => rfl
  | error reason => exact Ends.trivial.bind fun _ _ _ => rfl

/-! ## Runs -/

/-- What is served without the alignment of the affinity is `InOlderBlock`. -/
lemma Unused.older_of_served [LawfulSystem σ] (h : w.Unused) (steps : List Step) (id : Nat) :
    Ends (run steps) w fun _ w' => ∀ a, w'.allocator? id = some a → ∀ affinity,
      (a.alignmentFor affinity).isPowerOfTwo → ∀ chain size address,
        (allocate id chain size affinity w').1 = some (.ok address) →
          ¬ a.alignmentFor affinity ∣ address → InOlderBlock w steps id a affinity address := by
  refine (h.made_run (promises_isAligned σ) steps).mono fun _ w' hmade a ha affinity hpower chain
    size address hserved hnot => ?_
  have hall : a.AllMade affinity := by
    intro key b hb
    obtain ⟨-, -, -, old, -, -, hmade⟩ := hmade id a ha affinity key b hb
    exact ⟨_, hmade⟩
  have hsuits : Ends (allocate id chain size affinity) w' fun answer _ =>
      ∀ address, answer = some (.ok address) → a.Suits affinity address :=
    ends_allocate_there ha ((allocateWith_suits _ hall hpower chain size w').mono
      fun _ _ h address haddress => h address (Option.some.inj haddress))
  obtain ⟨key, b, hb, hcontains, hdvd⟩ := (hsuits address hserved).resolve_left hnot
  obtain ⟨-, early, late, old, hsplit, hold, hmade⟩ := hmade id a ha affinity key b hb
  refine ⟨key, b, early, late, old, hb, hcontains, hdvd, hsplit, hold, hmade.alignment, ?_⟩
  -- an alignment that is not smaller would be a multiple of the one of the affinity
  refine Nat.lt_of_not_le fun hge => hnot ?_
  exact (dvd_of_isPowerOfTwo_of_le hpower hmade.power hge).trans hdvd

/-- How `newBoxed` ends with a `result`. -/
structure BoxMade (w : World σ) (steps : List Step) (w' : World σ) (id : Nat) (a : Allocator)
    (layout : Layout) (affinity : Affinity) (result : Except AllocationError Nat) : Prop where
  /-- The value is refused for its alignment if it needs more than the affinity promises, or if an
  older block serves the request at an address without it. -/
  unsupported_iff : (∃ reason, result = .error reason ∧ reason.IsUnsupported) ↔
    max (a.alignmentFor affinity) 1 < layout.alignment ∨ ∃ address,
      (allocate id .full layout.size affinity w').1 = some (.ok address) ∧
        InOlderBlock w steps id a affinity address ∧ ¬ layout.alignment ∣ address
  /-- The refusal names what was needed and what was promised. -/
  names : ∀ reason, result = .error reason → reason.IsUnsupported →
    reason = .unsupportedAlignment affinity layout.alignment (a.alignmentFor affinity)
  /-- In all other cases the answer is that of the request, and an address has the alignment. -/
  otherwise : (¬ ∃ reason, result = .error reason ∧ reason.IsUnsupported) →
    (allocate id .full layout.size affinity w').1 = some result ∧
      ∀ address, result = .ok address → layout.alignment ∣ address

section BoxMade

variable {steps : List Step} {w' : World σ} {layout : Layout}

/-- The two ways in which `BoxMade` allows `unsupportedAlignment`. -/
lemma BoxMade.refused (h : max (a.alignmentFor affinity) 1 < layout.alignment ∨ ∃ address,
      (allocate id .full layout.size affinity w').1 = some (.ok address) ∧
        InOlderBlock w steps id a affinity address ∧ ¬ layout.alignment ∣ address) :
    BoxMade w steps w' id a layout affinity
      (.error (.unsupportedAlignment affinity layout.alignment (a.alignmentFor affinity))) where
  unsupported_iff := ⟨fun _ => h, fun _ => ⟨_, rfl, trivial⟩⟩
  names _ hreason _ := (Except.error.inj hreason).symm
  otherwise hnot := absurd ⟨_, rfl, trivial⟩ hnot

/-- `BoxMade` allows what a request answers with an address that the layout may have. -/
lemma BoxMade.answered {result : Except AllocationError Nat}
    (hmax : ¬ max (a.alignmentFor affinity) 1 < layout.alignment)
    (hanswer : (allocate id .full layout.size affinity w').1 = some result)
    (haligned : ∀ address, result = .ok address → layout.alignment ∣ address) :
    BoxMade w steps w' id a layout affinity result := by
  have hreason := allocate_not_isUnsupported id .full layout.size affinity w'
  have hnot : ¬ ∃ reason, result = .error reason ∧ reason.IsUnsupported := by
    rintro ⟨reason, rfl, hunsupported⟩
    exact hreason reason hanswer hunsupported
  refine ⟨⟨fun hunsupported => absurd hunsupported hnot, ?_⟩, ?_, fun _ => ⟨hanswer, haligned⟩⟩
  · rintro (hlt | ⟨address, haddress, -, hmisaligned⟩)
    · exact absurd hlt hmax
    · rw [hanswer] at haddress
      exact absurd (haligned address (Option.some.inj haddress)) hmisaligned
  · exact fun reason heq hunsupported => absurd ⟨reason, heq, hunsupported⟩ hnot

end BoxMade

/-- After any run: if the alignment of an affinity is zero or a power of two, a value with an
alignment that is a power of two is refused for it just if it needs more than the affinity promises,
or if an older block serves it at an address without it, as `BoxMade` says. Nothing is said here of
a value that needs no alignment where the affinity promises none. -/
theorem Unused.newBoxed_unsupported [LawfulSystem σ] (h : w.Unused) (steps : List Step) (id : Nat) :
    Ends (run steps) w fun _ w' => ∀ a, w'.allocator? id = some a → ∀ affinity,
      (a.alignmentFor affinity = 0 ∨ (a.alignmentFor affinity).isPowerOfTwo) →
        ∀ (layout : Layout) value, layout.alignment.isPowerOfTwo →
          ¬ (a.alignmentFor affinity = 0 ∧ layout.alignment = 1) →
            ∃ result, (newBoxed id layout value affinity w').1 = some result ∧
              BoxMade w steps w' id a layout affinity result := by
  refine (h.older_of_served steps id).mono fun _ w' holder a ha affinity hpromised layout value
    hpower hslip => ?_
  have hneeded := Nat.pos_of_isPowerOfTwo hpower
  refine ⟨_, newBoxed_answer ha layout value affinity, ?_⟩
  rw [boxMemory_answer id a layout affinity w']
  by_cases hearly : a.alignmentFor affinity < layout.alignment
  · -- an affinity that promises nothing is told from one that promises every address
    rw [if_pos hearly]
    exact .refused (.inl (by omega))
  · have hmax : ¬ max (a.alignmentFor affinity) 1 < layout.alignment := by omega
    have hpower' : (a.alignmentFor affinity).isPowerOfTwo :=
      hpromised.resolve_left fun hzero => by omega
    have hdvd : layout.alignment ∣ a.alignmentFor affinity :=
      dvd_of_isPowerOfTwo_of_le hpower hpower' (Nat.le_of_not_lt hearly)
    have hthere : Ends (allocate id .full layout.size affinity) w' fun answer _ =>
        ∃ x, answer = some x := ends_allocate_there ha (Ends.trivial.mono fun x _ _ => ⟨x, rfl⟩)
    obtain ⟨answer, hanswer⟩ := hthere
    rw [if_neg hearly, hanswer]
    unfold boxAnswer
    rcases answer with reason | address
    · exact .answered hmax hanswer fun _ haddress => nomatch haddress
    · simp only
      split
      · rename_i haligned
        refine .answered hmax hanswer fun address' haddress => ?_
        rw [← Except.ok.inj haddress]
        exact Nat.dvd_of_mod_eq_zero haligned
      · -- an address that had the alignment of the affinity would have the one needed
        rename_i hmisaligned
        have hnot : ¬ layout.alignment ∣ address :=
          fun hneeds => hmisaligned (Nat.mod_eq_zero_of_dvd hneeds)
        refine .refused (.inr ⟨address, hanswer, ?_, hnot⟩)
        exact holder a ha affinity hpower' .full layout.size address hanswer
          fun hsuits => hnot (hdvd.trans hsuits)

/-- An affinity whose slots may be anywhere. -/
def unaligned : List Step :=
  [.configureGroup 0 { GroupSettings.new .objects 4096 with alignment := some 0 }]

/-- A value that needs no more than its affinity promises may be refused for its alignment: one that
an old block serves, and one that needs nothing where the promise is written as zero. -/
theorem refused_within_promise : small.Unused ∧
    (Ends (run realign) small fun _ w' => ∃ a, w'.allocator? 0 = some a ∧
      (a.alignmentFor .objects).isPowerOfTwo ∧ ¬ max (a.alignmentFor .objects) 1 < 64 ∧
        (newBoxed 0 ⟨64, 64⟩ ⟨"1", none⟩ .objects w').1 =
          some (.error (.unsupportedAlignment .objects 64 64))) ∧
    (Ends (run unaligned) small fun _ w' => ∃ a, w'.allocator? 0 = some a ∧
      a.alignmentFor .objects = 0 ∧ ¬ max (a.alignmentFor .objects) 1 < 1 ∧
        (newBoxed 0 ⟨1, 1⟩ ⟨"1", none⟩ .objects w').1 =
          some (.error (.unsupportedAlignment .objects 1 0))) := by
  refine ⟨unused_small, ⟨_, rfl, ⟨6, rfl⟩, ?_, ?_⟩, _, rfl, rfl, ?_, ?_⟩ <;> decide +kernel

/-- A value that an old block has no place for at a multiple of its alignment, and one that is
content with any address. -/
theorem newBoxed_unsupported_realign :
    small.Unused ∧ Ends (run realign) small fun _ w' => ∃ a, w'.allocator? 0 = some a ∧
      (a.alignmentFor .objects).isPowerOfTwo ∧
      (∃ result, (newBoxed 0 ⟨64, 64⟩ ⟨"1", none⟩ .objects w').1 = some result ∧
        BoxMade small realign w' 0 a ⟨64, 64⟩ .objects result) ∧
      ∃ result, (newBoxed 0 ⟨1, 1⟩ ⟨"1", none⟩ .objects w').1 = some result ∧
        BoxMade small realign w' 0 a ⟨1, 1⟩ .objects result := by
  have hmade := unused_small.newBoxed_unsupported realign 0
  have hreached : ∃ a, (run realign small).2.allocator? 0 = some a ∧
      a.alignmentFor .objects = 64 :=
    ⟨((run realign small).2.allocator? 0).getD default, by decide +kernel⟩
  refine ⟨unused_small, ?_⟩
  unfold Ends at hmade ⊢
  dsimp only at hmade ⊢
  generalize (run realign small).2 = w' at hmade hreached ⊢
  obtain ⟨a, ha, halignment⟩ := hreached
  have hpower : (a.alignmentFor .objects).isPowerOfTwo := halignment ▸ ⟨6, rfl⟩
  have hnonzero : a.alignmentFor .objects ≠ 0 := by
    rw [halignment]
    decide
  exact ⟨a, ha, hpower,
    hmade a ha .objects (.inr hpower) ⟨64, 64⟩ _ ⟨6, rfl⟩ fun hzero => hnonzero hzero.1,
    hmade a ha .objects (.inr hpower) ⟨1, 1⟩ _ ⟨0, rfl⟩ fun hzero => hnonzero hzero.1⟩

end World

end BlockPool
