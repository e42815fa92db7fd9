import BlockPool.Proofs.World.Parcels

/-!
# Plans

The plan of a world is who falls back on whom: the nested strategies and the heap of every
allocator. Requests and returns never change it. Whether a walk along the chain of an allocator can
get to some home is a question about the plan alone.
-/

namespace BlockPool

namespace Allocator

/-- The strategies of a chain, in the order in which they are asked: those `nested`, and for a
`full` chain the `backstop`. -/
def Wiring.strategies (x : Wiring) : Chain → List Strategy
  | .full => x.nested ++ (x.backstop.map Strategy.heap).toList
  | .owned => x.nested

/-- The strategies of an allocator are those of its `wiring`. -/
lemma strategies_eq (a : Allocator) (chain : Chain) :
    a.strategies chain = a.wiring.strategies chain := by
  cases chain <;> rfl

/-- Allocators with the same `wiring` have the same strategies. -/
lemma strategies_congr {a a' : Allocator} (h : a'.wiring = a.wiring) (chain : Chain) :
    a'.strategies chain = a.strategies chain := by
  rw [a'.strategies_eq, h, ← a.strategies_eq]

end Allocator

/-- The strategy is another allocator. -/
def Strategy.IsAllocator (s : Strategy) : Prop := ∃ id owned, s = .allocator id owned

/-- The fallbacks of all allocators of a world. -/
abbrev Plan := List Allocator.Wiring

namespace Plan

/-- All nested strategies are `IsAllocator`. -/
def Closed (plan : Plan) : Prop := ∀ x ∈ plan, ∀ s ∈ x.nested, s.IsAllocator

/-- Whether allocator `j` gets to the pool of `k` over fewer than some number of links. -/
def Leads (plan : Plan) : Nat → Nat → Nat → Prop
  | 0, _, _ => False
  | depth + 1, j, k => j = k ∨
      ∃ x, plan[j]? = some x ∧ ∃ i owned, .allocator i owned ∈ x.nested ∧ plan.Leads depth i k

/-- Whether a strategy hands out memory from some `Home`: a pool that it `Leads` to, or the heap
that it is. -/
def Provides (plan : Plan) (depth : Nat) : Strategy → Home → Prop
  | .allocator j _, .pool k => plan.Leads depth j k
  | .heap h, .heap h' => h = h'
  | _, _ => False

/-- Whether the chain of an allocator hands out memory from some `Home`: its own pool, or what one
of its strategies `Provides`. -/
def Reaches (plan : Plan) (id : Nat) (chain : Chain) (home : Home) : Prop :=
  home = .pool id ∨
    ∃ x, plan[id]? = some x ∧ ∃ s ∈ x.strategies chain, plan.Provides plan.length s home

/-! ## Chains -/

variable {plan plan' : Plan}

/-- The first strategy of a chain that provides something has only allocators in front. -/
lemma exists_first_provider {x : Allocator.Wiring} {chain : Chain} {provides : Strategy → Prop}
    (hnested : ∀ s ∈ x.nested, s.IsAllocator) (h : ∃ s ∈ x.strategies chain, provides s) :
    ∃ front s rest, x.strategies chain = front ++ s :: rest ∧ (∀ s' ∈ front, s'.IsAllocator) ∧
      (∀ s' ∈ front, ¬ provides s') ∧ provides s := by
  -- of any list, what stands in front of the first such member has none
  have hfirst : ∀ l : List Strategy, (∃ s ∈ l, provides s) →
      ∃ front s rest, l = front ++ s :: rest ∧ (∀ s' ∈ front, ¬ provides s') ∧ provides s := by
    intro l
    induction l with
    | nil => simp
    | cons t l ih =>
      rintro ⟨s, hs, hprovides⟩
      by_cases ht : provides t
      · exact ⟨[], t, l, rfl, by simp, ht⟩
      · have hl : s ∈ l := (List.mem_cons.1 hs).resolve_left fun heq => ht (heq ▸ hprovides)
        obtain ⟨front, s', rest, rfl, hnot, hs'⟩ := ih ⟨s, hl, hprovides⟩
        exact ⟨t :: front, s', rest, rfl, by simpa using ⟨ht, hnot⟩, hs'⟩
  by_cases hinner : ∃ s ∈ x.nested, provides s
  · obtain ⟨front, s, rest, hsplit, hnot, hs⟩ := hfirst _ hinner
    have hfront : ∀ s' ∈ front, s'.IsAllocator := by
      intro s' hs'
      apply hnested
      rw [hsplit]
      exact List.mem_append_left _ hs'
    cases chain with
    | owned => exact ⟨front, s, rest, hsplit, hfront, hnot, hs⟩
    | full =>
      refine ⟨front, s, rest ++ (x.backstop.map Strategy.heap).toList, ?_, hfront, hnot, hs⟩
      show x.nested ++ _ = _
      rw [hsplit, List.append_assoc, List.cons_append]
  · -- no nested strategy provides it, so it is the heap at the end that does
    obtain ⟨s, hmem, hs⟩ := h
    cases chain with
    | owned => exact absurd ⟨s, hmem, hs⟩ hinner
    | full =>
      rcases List.mem_append.1 hmem with hmem | hmem
      · exact absurd ⟨s, hmem, hs⟩ hinner
      · rcases hbackstop : x.backstop with _ | heap
        · rw [hbackstop] at hmem
          exact absurd hmem (by simp)
        · rw [hbackstop] at hmem
          obtain rfl : s = .heap heap := by simpa using hmem
          refine ⟨x.nested, .heap heap, [], ?_, hnested, ?_, hs⟩
          · show x.nested ++ _ = _
            rw [hbackstop]
            rfl
          · exact fun s' hs' hprovides => hinner ⟨s', hs', hprovides⟩

/-! ## Plans that grow -/

/-- Whether every allocator of `plan'` has at least the nested strategies that it has in `plan`. -/
def Extends (plan plan' : Plan) : Prop :=
  plan'.length = plan.length ∧ ∀ (j : Nat) (x : Allocator.Wiring), plan[j]? = some x →
    ∃ x' : Allocator.Wiring, plan'[j]? = some x' ∧ ∀ s ∈ x.nested, s ∈ x'.nested

/-- `Leads` survives `Extends`. -/
lemma Extends.leads (h : plan.Extends plan') {depth j k : Nat} (hleads : plan.Leads depth j k) :
    plan'.Leads depth j k := by
  induction depth generalizing j with
  | zero => exact hleads
  | succ depth ih =>
    rcases hleads with rfl | ⟨x, hx, i, owned, hs, hleads⟩
    · exact .inl rfl
    · obtain ⟨x', hx', hnested⟩ := h.2 j x hx
      exact .inr ⟨x', hx', i, owned, hnested _ hs, ih hleads⟩

/-- What `Reaches` a pool still does when nested strategies are added. -/
lemma Extends.reaches_pool (h : plan.Extends plan') {id k : Nat} {chain : Chain}
    (hreach : plan.Reaches id chain (.pool k)) : plan'.Reaches id chain (.pool k) := by
  rcases hreach with heq | ⟨x, hx, s, hs, hprovides⟩
  · exact .inl heq
  · obtain ⟨x', hx', hnested⟩ := h.2 id x hx
    cases s with
    | allocator i owned =>
      have hmem : .allocator i owned ∈ x.nested := by
        cases chain with
        | owned => exact hs
        | full =>
          refine (List.mem_append.1 hs).resolve_right fun hback => ?_
          simp at hback
      refine .inr ⟨x', hx', .allocator i owned, ?_, ?_⟩
      · cases chain with
        | owned => exact hnested _ hmem
        | full => exact List.mem_append_left _ (hnested _ hmem)
      · show plan'.Leads plan'.length i k
        rw [h.1]
        exact h.leads hprovides
    | heap heap => exact False.elim hprovides
    | foreign i name => exact False.elim hprovides

/-- A heap is in reach just of the allocator at the end of whose full chain it is. -/
lemma reaches_heap_iff (hclosed : plan.Closed) {id : Nat} {chain : Chain} {heap : Heap} :
    plan.Reaches id chain (.heap heap) ↔
      chain = .full ∧ ∃ x, plan[id]? = some x ∧ x.backstop = some heap := by
  constructor
  · rintro (heq | ⟨x, hx, s, hs, hprovides⟩)
    · exact Home.noConfusion heq
    · -- a nested allocator never hands out memory of a heap
      have hnested : ¬ s ∈ x.nested := by
        intro hmem
        obtain ⟨i, owned, rfl⟩ := hclosed x (List.mem_of_getElem? hx) s hmem
        exact hprovides
      cases chain with
      | owned => exact absurd hs hnested
      | full =>
        have hback := (List.mem_append.1 hs).resolve_left hnested
        obtain ⟨heap', hheap, rfl⟩ :
            ∃ heap', x.backstop = some heap' ∧ Strategy.heap heap' = s := by
          simpa using hback
        obtain rfl : heap' = heap := hprovides
        exact ⟨rfl, x, hx, hheap⟩
  · rintro ⟨rfl, x, hx, hheap⟩
    refine .inr ⟨x, hx, .heap heap, List.mem_append_right _ ?_, rfl⟩
    simp [hheap]

end Plan

/-! ## The plan of a world -/

namespace World

variable {σ : Type} {w : World σ}

/-- The `Wiring` of every allocator. -/
def plan (w : World σ) : Plan := w.allocators.map Allocator.wiring

lemma plan_getElem? {id : Nat} {a : Allocator} (ha : w.allocator? id = some a) :
    w.plan[id]? = some a.wiring := by
  unfold plan
  rw [List.getElem?_map]
  exact congrArg _ ha

/-- A `wiring` in `w.plan` is that of an allocator. -/
lemma exists_allocator_of_plan {id : Nat} {x : Allocator.Wiring} (h : w.plan[id]? = some x) :
    ∃ a, w.allocator? id = some a ∧ a.wiring = x := by
  unfold plan at h
  rw [List.getElem?_map] at h
  exact Option.map_eq_some_iff.1 h

/-- With the same plan, an allocator is there with the same `wiring`. -/
lemma exists_allocator_of_plan_eq {w' : World σ} (hplan : w'.plan = w.plan) {id : Nat}
    {a : Allocator} (ha : w.allocator? id = some a) :
    ∃ a', w'.allocator? id = some a' ∧ a'.wiring = a.wiring := by
  apply exists_allocator_of_plan
  rw [hplan, plan_getElem? ha]

lemma plan_length (w : World σ) : w.plan.length = w.allocators.length := List.length_map ..

/-- `update` replaces one `wiring` in `w.plan`. -/
lemma plan_update_eq (w : World σ) (id : Nat) (a : Allocator) (m : Memory σ) :
    (w.update id a m).plan = w.plan.set id a.wiring := List.map_set

/-- `update` by an allocator with the same `wiring` keeps `w.plan`. -/
lemma plan_update {id : Nat} {a a' : Allocator} {m' : Memory σ} (ha : w.allocator? id = some a)
    (hwiring : a'.wiring = a.wiring) : (w.update id a' m').plan = w.plan := by
  obtain ⟨hlt, hget⟩ := List.getElem?_eq_some_iff.1 (plan_getElem? ha)
  rw [plan_update_eq, hwiring, ← hget]
  exact List.set_getElem_self hlt

/-- After `update`, an allocator is there with the `wiring` that it has. -/
lemma exists_after_update {id : Nat} {a a' : Allocator} (ha : w.allocator? id = some a)
    (m' : Memory σ) {x : Allocator.Wiring} (hwiring : a'.wiring = x) :
    ∃ b, (w.update id a' m').allocator? id = some b ∧ b.wiring = x := by
  refine ⟨a', ?_, hwiring⟩
  rw [allocator?_update ha, if_pos rfl]

/-- With a `Closed` plan, a strategy of an allocator is another one or a heap. -/
lemma strategies_closed (hclosed : w.plan.Closed) {id : Nat} {a : Allocator}
    (ha : w.allocator? id = some a) (chain : Chain) :
    ∀ s ∈ a.strategies chain, s.IsAllocator ∨ ∃ heap, s = .heap heap := by
  have hnested := hclosed a.wiring (List.mem_of_getElem? (plan_getElem? ha))
  intro s hs
  cases chain with
  | owned => exact .inl (hnested s hs)
  | full =>
    rcases List.mem_append.1 hs with hs | hs
    · exact .inl (hnested s hs)
    · obtain ⟨heap, -, rfl⟩ : ∃ heap, a.backstop = some heap ∧ Strategy.heap heap = s := by
        simpa using hs
      exact .inr ⟨heap, rfl⟩

/-- What a nested strategy `Provides` from a pool, its allocator `Leads` to over one link more. -/
lemma leads_of_provides {id depth k : Nat} {a : Allocator} (hclosed : w.plan.Closed)
    (ha : w.allocator? id = some a) {s : Strategy} (hs : s ∈ a.strategies .owned)
    (hprovides : w.plan.Provides depth s (.pool k)) : w.plan.Leads (depth + 1) id k := by
  obtain ⟨i, owned, rfl⟩ := hclosed a.wiring (List.mem_of_getElem? (plan_getElem? ha)) s hs
  exact .inr ⟨a.wiring, plan_getElem? ha, i, owned, hs, hprovides⟩

/-- `update` by an allocator with at least the same nested strategies `Extends` the plan. -/
lemma extends_update {id : Nat} {a a' : Allocator} (ha : w.allocator? id = some a)
    (hnested : ∀ s ∈ a.nested, s ∈ a'.nested) (m : Memory σ) :
    w.plan.Extends (w.update id a' m).plan := by
  rw [plan_update_eq]
  refine ⟨List.length_set, fun j x hx => ?_⟩
  rw [List.getElem?_set]
  by_cases hj : id = j
  · subst hj
    obtain ⟨hlt, -⟩ := List.getElem?_eq_some_iff.1 hx
    rw [plan_getElem? ha] at hx
    obtain rfl := Option.some.inj hx
    exact ⟨a'.wiring, by simp [hlt], hnested⟩
  · exact ⟨x, by simp [hj, hx], fun s hs => hs⟩

/-- `update` by an allocator with further allocators nested keeps the plan `Closed`. -/
lemma closed_update {id : Nat} {a a' : Allocator} (hclosed : w.plan.Closed)
    (ha : w.allocator? id = some a)
    (hnested : ∀ s ∈ a'.nested, s ∈ a.nested ∨ s.IsAllocator) (m : Memory σ) :
    (w.update id a' m).plan.Closed := by
  rw [plan_update_eq]
  intro x hx s hs
  rcases List.mem_or_eq_of_mem_set hx with hx | rfl
  · exact hclosed x hx s hs
  · rcases hnested s hs with hs | hs
    · exact hclosed a.wiring (List.mem_of_getElem? (plan_getElem? ha)) s hs
    · exact hs

end World

end BlockPool
