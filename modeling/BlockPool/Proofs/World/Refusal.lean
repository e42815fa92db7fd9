import BlockPool.Proofs.World.Backstop
import BlockPool.Proofs.World.Past
import BlockPool.Proofs.World.Routing

/-!
# Addresses that nobody takes

A return may name any address and any size. It is refused if the address lies in no block, no nested
strategy claims it, and there is no heap at the end of the chain that could name it. A heap cannot
tell what it handed out, so it takes every address, except that sized memory goes back with a
layout: a heap of sized memory takes nothing back whose size has no valid one. It says so and leaves
the memory alone.

Main statement: after any run, this is exactly when a return is refused.
-/

namespace BlockPool

/-- `Heap.deallocate` answers `false` exactly if the heap does not accept the size, whatever the
memory is. -/
lemma Heap.deallocate_eq_false_iff {σ : Type} (h : Heap) (address size : Nat) (m : Memory σ) :
    (h.deallocate address size m).1 = false ↔ ¬ h.Accepts size := by
  by_cases haccepts : h.Accepts size
  · have htaken : (h.deallocate address size m).1 = true := h.deallocate_taken haccepts address m
    simp [htaken, haccepts]
  · have hrejected : h.source = .sized ∧ ¬ (h.layoutFor size).IsValid := by
      simpa [Accepts] using haccepts
    unfold deallocate
    rw [if_pos hrejected]
    exact iff_of_true rfl haccepts

namespace World

variable {σ : Type} [System σ] {w : World σ} {id : Nat} {a : Allocator} {links : Links σ}
  {address size : Nat}

/-- None of some strategies takes an address by `offerBack`. Each is shown it where the one before
it left the world. -/
def Unclaimed (links : Links σ) (address size : Nat) : List Strategy → World σ → Prop
  | [], _ => True
  | s :: rest, w => Ends (offerBack links address size s) w fun taken w' =>
      taken = false ∧ Unclaimed links address size rest w'

/-- `returnTo` ends with nobody exactly if the address is `Unclaimed`. -/
lemma returnTo_eq_none_iff (strategies : List Strategy) (w : World σ) :
    Ends (returnTo links address size strategies) w fun taker _ =>
      taker = none ↔ Unclaimed links address size strategies w := by
  induction strategies generalizing w with
  | nil => exact iff_of_true rfl True.intro
  | cons s rest ih =>
    unfold returnTo Unclaimed
    have hoffer : Ends (offerBack links address size s) w fun taken w₁ =>
        (offerBack links address size s w) = (taken, w₁) := rfl
    refine hoffer.bind fun taken w₁ h₁ => ?_
    unfold Ends
    rw [h₁]
    cases taken with
    | true => exact iff_of_false (Option.some_ne_none s) fun h => Bool.noConfusion h.1
    | false => exact (ih w₁).mono fun _ _ h => h.trans (iff_and_self.2 fun _ => rfl)

/-- With a heap behind other strategies, an address is `Unclaimed` if none of them takes it and the
heap does not accept the size. -/
lemma unclaimed_append_heap (strategies : List Strategy) (heap : Heap) (w : World σ) :
    Unclaimed links address size (strategies ++ [.heap heap]) w ↔
      Unclaimed links address size strategies w ∧ ¬ heap.Accepts size := by
  induction strategies generalizing w with
  | nil =>
    rw [← heap.deallocate_eq_false_iff address size w.memory]
    exact and_comm
  | cons s rest ih =>
    show _ ∧ Unclaimed links address size (rest ++ [.heap heap]) _ ↔ (_ ∧ _) ∧ _
    rw [ih, and_assoc]

/-- For a full chain, an address is `Unclaimed` if the nested strategies do not take it and no heap
at the end accepts the size. -/
lemma unclaimed_strategies_iff (a : Allocator) (w : World σ) :
    Unclaimed links address size (a.strategies .full) w ↔
      Unclaimed links address size a.nested w ∧ ∀ heap ∈ a.backstop, ¬ heap.Accepts size := by
  unfold Allocator.strategies
  cases a.backstop with
  | none => simp
  | some heap => simpa using unclaimed_append_heap a.nested heap w

/-- `deallocateWith` answers `false` exactly if no block contains the address and it is `Unclaimed`
along the chain. -/
lemma deallocateWith_eq_false_iff (links : Links σ) (ha : w.allocator? id = some a)
    (chain : Chain) (address size : Nat) :
    Ends (deallocateWith links id a chain address size) w fun known _ =>
      known = false ↔
        a.owns address = false ∧ Unclaimed links address size (a.strategies chain) w := by
  cases howns : a.owns address with
  | true =>
    have hpool : Ends (onMemory (a.deallocatePooled address size)) w fun out _ => out.1 = true :=
      ((a.deallocatePooled_owns address size w.memory).mono fun _ _ h => h.1).trans howns
    unfold deallocateWith
    refine hpool.bind ?_
    rintro ⟨known, a'⟩ w₁ rfl
    exact iff_of_false Bool.noConfusion fun h => Bool.noConfusion h.1
  | false =>
    refine ends_deallocateWith_unowned ha howns ?_
    refine (returnTo_eq_none_iff (a.strategies chain) w).mono fun taker w₁ h m' _ _ => ?_
    rw [Option.isSome_eq_false_iff, Option.isNone_iff_eq_none, h]
    exact (and_iff_right rfl).symm

/-- `returnTo` passes strategies that leave an address `Unclaimed`, and goes on with what they
left. -/
lemma returnTo_append {strategies : List Strategy}
    (h : Unclaimed links address size strategies w) (more : List Strategy) :
    returnTo links address size (strategies ++ more) w =
      returnTo links address size more (returnTo links address size strategies w).2 := by
  induction strategies generalizing w with
  | nil => rfl
  | cons s rest ih =>
    obtain ⟨htaken, hrest⟩ := h
    have hpass : offerBack links address size s w =
        (false, (offerBack links address size s w).2) := Prod.ext htaken rfl
    rw [List.cons_append, returnTo, returnTo, bind_apply_eq hpass, bind_apply_eq hpass]
    exact ih hrest

/-- A heap that does not accept a size says so with `layoutRejected`. -/
lemma returnTo_heap_of_not_accepts {heap : Heap} (h : ¬ heap.Accepts size) (w : World σ) :
    returnTo links address size [.heap heap] w =
      (none, w.logging [.noted (.layoutRejected address size)]) := by
  have hrejected : heap.source = .sized ∧ ¬ (heap.layoutFor size).IsValid := by
    simpa [Heap.Accepts] using h
  have hheap : heap.deallocate address size w.memory =
      (false, { w.memory with log := .noted (.layoutRejected address size) :: w.memory.log }) := by
    unfold Heap.deallocate
    rw [if_pos hrejected]
    rfl
  have hoffer : offerBack links address size (.heap heap) w =
      (false, w.logging [.noted (.layoutRejected address size)]) := by
    show onMemory (heap.deallocate address size) w = _
    unfold onMemory
    rw [hheap]
    rfl
  rw [returnTo, bind_apply_eq hoffer]
  rfl

/-- `deallocateWith` that is refused leaves what `returnTo` left, and `addressUnowned`. -/
lemma deallocateWith_of_refused {w₁ : World σ} (ha : w.allocator? id = some a)
    (howns : a.owns address = false)
    (hreturn : returnTo links address size (a.strategies .full) w = (none, w₁)) :
    deallocateWith links id a .full address size w =
      (false, w₁.logging [.noted (.addressUnowned address size)]) := by
  have hpool : onMemory (a.deallocatePooled address size) w = ((false, a), w) := by
    rw [Allocator.deallocatePooled_of_not_owns howns]
    rfl
  unfold deallocateWith
  rw [bind_apply_eq hpool]
  show (setAllocator id a >>= fun _ => returnTo links address size (a.strategies .full) >>= _) w = _
  rw [bind_apply_eq (setAllocator_self ha), bind_apply_eq hreturn]
  rfl

/-- A chain ends without a heap that `Accepts` a size if it ends without one, or with one of sized
memory for which the size has no valid layout. -/
lemma not_accepts_iff {x : Setup} (hx : x.Describes a) (size : Nat) :
    (∀ heap ∈ a.backstop, ¬ heap.Accepts size) ↔
      a.backing = .absent ∨ a.backing = .sized ∧
        ∃ heap, a.backstop = some heap ∧ ¬ (heap.layoutFor size).IsValid := by
  by_cases hbacking : a.backing = .absent
  · have hnone := hx.backstop_eq_none hbacking
    simp [hnone, hbacking]
  · obtain ⟨heap, hheap, hsource, -⟩ := hx.exists_backstop hbacking
    simp [hheap, hbacking, Heap.Accepts, hsource]

/-- What is reported of a return that is refused, the latest notice first: `addressUnowned`, as
nobody takes the address, and before that by a heap of sized memory `layoutRejected`, as the size
has no layout. -/
def refusalNotices (a : Allocator) (address size : Nat) : List Event :=
  .noted (.addressUnowned address size) ::
    if a.backing = .sized then [.noted (.layoutRejected address size)] else []

/-- `deallocateWith` that is refused leaves what the nested strategies left, and
`refusalNotices`. -/
lemma deallocateWith_refused {x : Setup} (hx : x.Describes a) (ha : w.allocator? id = some a)
    (howns : a.owns address = false) (hnested : Unclaimed links address size a.nested w)
    (hbackstop : ∀ heap ∈ a.backstop, ¬ heap.Accepts size) :
    deallocateWith links id a .full address size w =
      (false, (returnTo links address size a.nested w).2.logging
        (refusalNotices a address size)) := by
  have hnone : returnTo links address size a.nested w =
      (none, (returnTo links address size a.nested w).2) :=
    Prod.ext ((returnTo_eq_none_iff a.nested w).2 hnested) rfl
  unfold refusalNotices
  rcases (not_accepts_iff hx size).1 hbackstop with habsent | ⟨hsized, heap, hheap, -⟩
  · have hchain : a.strategies .full = a.nested := by
      simp [Allocator.strategies, hx.backstop_eq_none habsent]
    rw [← hchain] at hnone
    rw [deallocateWith_of_refused ha howns hnone, hchain, if_neg (by simp [habsent])]
  · have hchain : a.strategies .full = a.nested ++ [.heap heap] := by
      simp [Allocator.strategies, hheap]
    have hreturn := returnTo_append hnested [.heap heap]
    rw [← hchain, returnTo_heap_of_not_accepts (hbackstop heap hheap)] at hreturn
    rw [deallocateWith_of_refused ha howns hreturn, if_pos hsized]
    rfl

/-- After any run, every return to an allocator is answered: with `false` if and only if the address
lies in none of its blocks, none of its nested strategies takes it, and the chain ends without a
heap or with one of sized memory for which the size has no valid layout. A return that is refused
leaves what the nested strategies left when they were shown the address, and `refusalNotices`. -/
theorem Unused.refused_iff (h : w.Unused) (hid : id < w.allocators.length) (steps : List Step) :
    Ends (run steps) w fun _ w' => ∃ a, w'.allocator? id = some a ∧
      (a.regions.Pairwise Region.Disjoint → ∀ address, a.owns address = true ↔
        ∃ affinity key b, a.block? affinity key = some b ∧ b.contains address = true) ∧
      ∀ address size, Ends (deallocate id .full address size) w' fun answer w'' =>
        ∃ known, answer = some known ∧ (known = false ↔ a.owns address = false ∧
          Unclaimed (.upTo w'.allocators.length) address size a.nested w' ∧
            (a.backing = .absent ∨ a.backing = .sized ∧
              ∃ heap, a.backstop = some heap ∧ ¬ (heap.layoutFor size).IsValid)) ∧
          (known = false →
            Ends (returnTo (.upTo w'.allocators.length) address size a.nested) w' fun _ w₁ =>
              w'' = w₁.logging (refusalNotices a address size)) := by
  obtain ⟨settings, nested, hfresh⟩ := h _ (List.getElem_mem hid)
  have hsetup : w.HasSetup id { settings, nested } :=
    hasSetup_fresh ((List.getElem?_eq_getElem hid).trans (congrArg some hfresh))
  refine ((hsetup.run steps).and (h.routed_run steps)).mono ?_
  rintro _ w' ⟨⟨a, ha, hx⟩, hrouted⟩
  refine ⟨a, ha, fun hapart address => (hrouted id a ha hapart).owns_iff, fun address size => ?_⟩
  refine ends_deallocate_there ha ?_
  have hleft : Ends (deallocateWith (.upTo w'.allocators.length) id a .full address size) w'
      fun known w'' => deallocateWith (.upTo w'.allocators.length) id a .full address size w' =
        (known, w'') := rfl
  refine ((deallocateWith_eq_false_iff _ ha .full address size).and hleft).mono ?_
  rintro known w'' ⟨hknown, hleft⟩
  rw [unclaimed_strategies_iff] at hknown
  refine ⟨known, rfl, ?_, fun hfalse => ?_⟩
  · rw [hknown, not_accepts_iff hx]
  · obtain ⟨howns, hnested, hbackstop⟩ := hknown.1 hfalse
    rw [deallocateWith_refused hx ha howns hnested hbackstop] at hleft
    exact (Prod.mk.inj hleft).2.symm

/-- A chain that ends with a heap refuses an address too, if its size has no valid layout. -/
theorem refused_with_backstop :
    Ends (deallocate 0 .full 4096 Layout.sizeLimit) small fun answer _ =>
      answer = some false ∧ ∃ a, small.allocator? 0 = some a ∧ a.backing = .sized :=
  ⟨rfl, _, rfl, rfl⟩

/-- An address in a block is taken whatever the size is. One in no block is taken with a size that
has a valid layout, and refused with one that has none, with two notices. -/
theorem refused_iff_two_sizes :
    small.Unused ∧ Ends (run realign) small fun _ w' =>
      Ends (deallocate 0 .full (Arena.base + 70) Layout.sizeLimit) w'
          (fun answer _ => answer = some true) ∧
        Ends (deallocate 0 .full 4096 8) w' (fun answer _ => answer = some true) ∧
        Ends (deallocate 0 .full 4096 Layout.sizeLimit) w' fun answer w'' =>
          answer = some false ∧ w'' = w'.logging
            [.noted (.addressUnowned 4096 Layout.sizeLimit),
              .noted (.layoutRejected 4096 Layout.sizeLimit)] := by
  refine ⟨unused_small, ?_⟩
  obtain ⟨a, ha, howns, hiff⟩ := unused_small.refused_iff
    (by decide : 0 < small.allocators.length) realign
  obtain rfl := Option.some.inj ha
  refine ⟨?_, ?_, ?_⟩
  · have hin := (howns ⟨[⟨.sized, Arena.base, ⟨4096, 16⟩⟩], by decide +kernel, by decide⟩
      (Arena.base + 70)).2 ⟨.objects, Arena.base, _, rfl, by decide +kernel⟩
    obtain ⟨known, hknown, hrefused, -⟩ := hiff (Arena.base + 70) Layout.sizeLimit
    refine hknown.trans (congrArg some (Bool.eq_true_of_not_eq_false fun hfalse => ?_))
    exact Bool.noConfusion (hin.symm.trans (hrefused.1 hfalse).1)
  · obtain ⟨known, hknown, hrefused, -⟩ := hiff 4096 8
    refine hknown.trans (congrArg some (Bool.eq_true_of_not_eq_false fun hfalse => ?_))
    obtain ⟨-, -, habsent | ⟨-, heap, hheap, hinvalid⟩⟩ := hrefused.1 hfalse
    · exact Backing.noConfusion habsent
    · obtain rfl := Option.some.inj hheap
      exact hinvalid (by decide)
  · obtain ⟨known, hknown, hrefused, hleft⟩ := hiff 4096 Layout.sizeLimit
    have hfalse := hrefused.2 ⟨by decide +kernel, trivial, .inr ⟨rfl, _, rfl, by decide⟩⟩
    subst hfalse
    exact ⟨hknown, hleft rfl⟩

end World

end BlockPool
