import BlockPool.Proofs.World.History
import BlockPool.World.Teardown

/-!
# The end of a history

When an allocator goes, the memory of its blocks goes back, and no other memory is touched. So what
the system handed out is live or went back at any time, as often as it came, and once everything is
returned and every allocator is gone, nothing is live.

Main statement: all memory that comes from the system goes back to it once, the way it came.
-/

namespace BlockPool.World

variable {σ : Type} {w w' : World σ} {ledger : List Grant}

/-! ## Who goes -/

section Order

variable {allocators : List Allocator}

/-- What is `ownedBy` an allocator in `goingWith` goes with one link more. -/
lemma mem_goingWith_succ {depth root j id : Nat} {a : Allocator}
    (hj : j ∈ goingWith allocators depth root) (ha : allocators[j]? = some a)
    (hid : id ∈ ownedBy a) : id ∈ goingWith allocators (depth + 1) root := by
  induction depth generalizing root with
  | zero =>
    obtain rfl : j = root := List.mem_singleton.1 hj
    unfold goingWith
    rw [ha]
    exact List.mem_cons_of_mem _ (List.mem_flatMap.2 ⟨id, hid, List.mem_singleton_self id⟩)
  | succ depth ih =>
    unfold goingWith at hj ⊢
    rcases List.mem_cons.1 hj with rfl | hj
    · rw [ha]
      refine List.mem_cons_of_mem _ (List.mem_flatMap.2 ⟨id, hid, ?_⟩)
      exact List.mem_cons_self ..
    · obtain ⟨k, hk, hj⟩ := List.mem_flatMap.1 hj
      exact List.mem_cons_of_mem _ (List.mem_flatMap.2 ⟨k, hk, ih hj⟩)

/-- `goingWith` only grows with the depth. -/
lemma goingWith_subset_succ (allocators : List Allocator) (depth root : Nat) :
    goingWith allocators depth root ⊆ goingWith allocators (depth + 1) root := by
  induction depth generalizing root with
  | zero =>
    intro id hid
    rw [List.mem_singleton.1 hid]
    exact List.mem_cons_self ..
  | succ depth ih =>
    intro id hid
    unfold goingWith at hid ⊢
    rcases List.mem_cons.1 hid with rfl | hid
    · exact List.mem_cons_self ..
    · obtain ⟨k, hk, hid⟩ := List.mem_flatMap.1 hid
      exact List.mem_cons_of_mem _ (List.mem_flatMap.2 ⟨k, hk, ih k hid⟩)

lemma goingWith_subset {depth depth' : Nat} (h : depth ≤ depth') (root : Nat) :
    goingWith allocators depth root ⊆ goingWith allocators depth' root := by
  induction h with
  | refl => exact List.Subset.refl _
  | step _ ih => exact List.Subset.trans ih (goingWith_subset_succ allocators _ root)

/-- Every allocator is in `goingOrder` if each one owns only such as have greater numbers. -/
lemma mem_goingOrder
    (hforward : ∀ j a, allocators[j]? = some a → ∀ id ∈ ownedBy a, j < id) {id : Nat}
    (hid : id < allocators.length) : id ∈ goingOrder allocators := by
  -- from some allocator that nobody owns, ownership leads to this one in no more links than its
  -- number tells
  have hroot : ∃ root < allocators.length, root ∉ allocators.flatMap ownedBy ∧
      id ∈ goingWith allocators id root := by
    induction id using Nat.strongRecOn with
    | ind id ih =>
      by_cases howned : id ∈ allocators.flatMap ownedBy
      · obtain ⟨a, ha, hmem⟩ := List.mem_flatMap.1 howned
        obtain ⟨j, hlt, hget⟩ := List.getElem_of_mem ha
        have hj : allocators[j]? = some a := by rw [List.getElem?_eq_getElem hlt, hget]
        have hless := hforward j a hj id hmem
        obtain ⟨root, hroot, hfree, hgoing⟩ := ih j hless hlt
        exact ⟨root, hroot, hfree, goingWith_subset hless root (mem_goingWith_succ hgoing hj hmem)⟩
      · refine ⟨id, hid, howned, ?_⟩
        cases id <;> exact List.mem_cons_self ..
  obtain ⟨root, hlt, hfree, hgoing⟩ := hroot
  unfold goingOrder
  refine List.mem_flatMap.2 ⟨root, ?_, goingWith_subset (Nat.le_of_lt hid) root hgoing⟩
  refine List.mem_filter.2 ⟨List.mem_range.2 hlt, ?_⟩
  simpa using hfree

end Order

/-! ## What goes back -/

section System

variable [System σ]

/-- The allocators of which `gone` holds have no regions. -/
def Cleared (w : World σ) (gone : Nat → Prop) : Prop :=
  ∀ id a, w.allocator? id = some a → gone id → a.regions = 0

/-- `giveBack` of an allocator clears its regions and touches no other memory. -/
lemma keeps_giveBack {held : Multiset Region} {gone : Nat → Prop} (id : Nat)
    (h : w.memory.Keeps (w.regions + held)) (hgone : w.Cleared gone) :
    Ends (onAllocator id fun a => do
        let a ← a.giveBack
        pure ((), a)) w fun _ w' =>
      w'.plan = w.plan ∧ w'.memory.Keeps (w'.regions + held) ∧
        w'.Cleared fun j => gone j ∨ j = id := by
  refine ends_onAllocator (fun hnone => ⟨rfl, h, ?_⟩) fun a ha => ?_
  · rintro j a hj (hold | rfl)
    · exact hgone j a hj hold
    · rw [hnone] at hj
      exact absurd hj (by simp)
  · obtain ⟨others, hnumbered, hupdate⟩ := exists_others ha
    rw [World.regions, hnumbered, Multiset.cons_bind, Multiset.add_assoc] at h
    refine (Allocator.giveBack_spec h).bind ?_
    rintro a' m' ⟨hbare, hkeeps, hwiring⟩
    -- those that are gone already stay gone
    have hupdated : ∀ j b, (w.update id a' m').allocator? j = some b →
        gone j ∨ j = id → b.regions = 0 := by
      intro j b hj hor
      rw [allocator?_update ha] at hj
      split at hj
      · rw [← Option.some.inj hj]
        exact hbare.regions
      · rename_i hne
        exact hgone j b hj (hor.resolve_right hne)
    refine Ends.pure ⟨plan_update ha hwiring, ?_, hupdated⟩
    show m'.Keeps ((w.update id a' m').regions + held)
    rwa [World.regions, hupdate, Multiset.cons_bind, hbare.regions, Multiset.zero_add]

/-- `giveBackAll` clears the regions of all allocators in `order` and touches no other memory. -/
lemma keeps_giveBackAll {held : Multiset Region} {gone : Nat → Prop} (order : List Nat)
    (h : w.memory.Keeps (w.regions + held)) (hgone : w.Cleared gone) :
    Ends (giveBackAll order) w fun _ w' =>
      w'.plan = w.plan ∧ w'.memory.Keeps (w'.regions + held) ∧
        w'.Cleared fun j => gone j ∨ j ∈ order := by
  induction order generalizing w gone with
  | nil => exact ⟨rfl, h, fun j a hj hor => hgone j a hj (hor.resolve_right List.not_mem_nil)⟩
  | cons id rest ih =>
    unfold giveBackAll
    refine (keeps_giveBack id h hgone).bind fun _ w₁ ⟨hplan₁, h₁, hgone₁⟩ => ?_
    refine (ih h₁ hgone₁).mono fun _ w' ⟨hplan', h', hgone'⟩ => ?_
    refine ⟨hplan'.trans hplan₁, h', fun j a hj hor => hgone' j a hj ?_⟩
    rcases hor with hold | hmem
    · exact .inl (.inl hold)
    · rcases List.mem_cons.1 hmem with heq | hmem
      · exact .inl (.inr heq)
      · exact .inr hmem

/-- After `giveBackAll` of every allocator, nothing is held if the ledger is empty. -/
lemma History.ends_giveBackAll [LawfulSystem σ] (h : History w ledger) (order : List Nat) :
    Ends (giveBackAll order) w fun _ w' => ∃ held, w'.memory.Keeps held ∧
      (ledger = [] → (∀ id < w.allocators.length, id ∈ order) → held = 0) := by
  obtain ⟨homes, hhomes⟩ := h.accounts
  have hnone : w.Cleared fun _ => False := fun _ _ _ hfalse => False.elim hfalse
  refine (keeps_giveBackAll order hhomes.keeps.memory hnone).mono ?_
  rintro _ w' ⟨hplan, hkeeps, hgone⟩
  refine ⟨_, hkeeps, ?_⟩
  rintro rfl horder
  -- no allocation holds anything, and no allocator does
  have hempty : homes = 0 := Multiset.map_eq_zero.1 hhomes.ledger_eq
  have hregions : w'.regions = 0 := by
    refine Multiset.eq_zero_of_forall_notMem fun r hr => ?_
    obtain ⟨id, a, ha, hr⟩ := mem_regions_iff.1 hr
    have hlt : id < w.allocators.length := by
      rw [← plan_length, ← hplan, plan_length]
      exact (List.getElem?_eq_some_iff.1 ha).1
    rw [hgone id a ha (.inr (horder id hlt))] at hr
    exact Multiset.notMem_zero r hr
  rw [hregions, hempty]
  rfl

/-- If all allocations of a `History` were returned, nothing is live after `dropAllocators`. -/
lemma live_dropAllocators [LawfulSystem σ] (h : History w [])
    (hforward : ∀ j a, w.allocators[j]? = some a → ∀ id ∈ ownedBy a, j < id) :
    Ends dropAllocators w fun _ w' => w'.memory.live = [] := by
  unfold dropAllocators
  apply Ends.get_bind
  refine (h.ends_giveBackAll (goingOrder w.allocators)).mono ?_
  rintro _ w' ⟨held, hkeeps, hheld⟩
  have hlive := hkeeps.live
  rw [hheld rfl fun id hid => mem_goingOrder hforward hid] at hlive
  exact (Multiset.coe_eq_zero _).1 hlive

/-- However a `History` ends, whatever went back to the system was live at that time and went back
the way it came, and what came is live or went back, as often as it came. If nothing is outstanding
and every allocator is dropped, nothing is live. -/
theorem returns_at_end [LawfulSystem σ] (h : History w ledger) (order : List Nat) :
    let w' : World σ := (giveBackAll order w).2
    (∀ named status, .released named status ∈ w'.memory.log → status = .ok) ∧
      obtained w'.memory.log = returned w'.memory.log + (w'.memory.live : Multiset Region) ∧
      (ledger = [] → (∀ id < w.allocators.length, id ∈ order) → w'.memory.live = []) := by
  intro w'
  obtain ⟨held, hkeeps, hheld⟩ : ∃ held, w'.memory.Keeps held ∧
      (ledger = [] → (∀ id < w.allocators.length, id ∈ order) → held = 0) :=
    h.ends_giveBackAll order
  refine ⟨hkeeps.received, ?_, ?_⟩
  · rw [hkeeps.balanced, hkeeps.live]
  · intro hledger horder
    have hlive := hkeeps.live
    rw [hheld hledger horder] at hlive
    exact (Multiset.coe_eq_zero _).1 hlive

/-- An allocation in a block and one from the heap go back, and then the allocators go. -/
theorem returns_at_end_block_and_heap : ∃ (w : World Arena) (ledger : List Grant),
    History w ledger ∧ ledger = [] ∧
      (returned (giveBackAll [0, 1] w).2.memory.log).card = 2 ∧
      (giveBackAll [0, 1] w).2.memory.live = [] := by
  have h₁ := history_cramped.step (.allocate 0 .full 16 .objects) trivial Prod.mk.eta.symm
  have h₂ := h₁.step (.allocate 0 .full 50 .data) trivial Prod.mk.eta.symm
  have h₃ := h₂.step (.deallocate 0 .full Arena.base 16) (by decide +kernel) Prod.mk.eta.symm
  have h₄ := h₃.step (.deallocate 0 .full (Arena.base + 200) 50) (by decide +kernel)
    Prod.mk.eta.symm
  refine ⟨_, _, h₄, by decide +kernel, by decide +kernel, ?_⟩
  exact (returns_at_end h₄ [0, 1]).2.2 (by decide +kernel) (by decide +kernel)

end System

end BlockPool.World
