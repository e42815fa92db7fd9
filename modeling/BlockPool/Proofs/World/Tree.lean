import BlockPool.Proofs.World.Plan
import Mathlib.Data.Finset.Card
import Mathlib.Data.Finset.Range
import Mathlib.Logic.Relation

/-!
# Trees of allocators

An allocator may be nested in another one, and that one in a further one, to any depth. All that are
nested in an allocator form its tree, together with the allocator itself.

Links may be followed as often as there are allocators. No way in a tree has to be longer than that,
since a way that comes to an allocator twice can be cut short, so every member of a tree is led to.
-/

namespace BlockPool

namespace Plan

variable {plan : Plan} {i j k : Nat}

/-- Allocator `j` is among the strategies nested in allocator `i`. -/
def Nests (plan : Plan) (i j : Nat) : Prop :=
  ∃ x owned, plan[i]? = some x ∧ .allocator j owned ∈ x.nested

/-- Allocator `k` is allocator `id`, or it is nested in it over any number of others. -/
def InTree (plan : Plan) (id k : Nat) : Prop := Relation.ReflTransGen plan.Nests id k

/-- All strategies nested in the allocators `InTree` are `IsAllocator`. -/
def OnlyAllocators (plan : Plan) (id : Nat) : Prop :=
  ∀ k x, plan.InTree id k → plan[k]? = some x → ∀ s ∈ x.nested, s.IsAllocator

lemma Nests.lt_length (h : plan.Nests i j) : i < plan.length := by
  obtain ⟨x, owned, hx, -⟩ := h
  exact (List.getElem?_eq_some_iff.1 hx).1

/-- `OnlyAllocators` holds of the parts of a tree. -/
lemma OnlyAllocators.of_nests (h : plan.OnlyAllocators i) (hij : plan.Nests i j) :
    plan.OnlyAllocators j :=
  fun k x hk => h k x (.head hij hk)

/-- With a `Closed` plan, all trees have `OnlyAllocators`. -/
lemma Closed.onlyAllocators (h : plan.Closed) (id : Nat) : plan.OnlyAllocators id :=
  fun _ x _ hx => h x (List.mem_of_getElem? hx)

/-- What an allocator `Leads` to is in its tree. -/
lemma inTree_of_leads {depth : Nat} (h : plan.Leads depth i k) : plan.InTree i k := by
  induction depth generalizing i with
  | zero => exact False.elim h
  | succ depth ih =>
    rcases h with rfl | ⟨x, hx, j, owned, hs, hleads⟩
    · exact .refl
    · exact .head ⟨x, owned, hx, hs⟩ (ih hleads)

/-- A way that is not over at once has a first step, after which it need not come back. -/
lemma exists_step_avoiding {r : Nat → Nat → Prop} (h : Relation.ReflTransGen r i k) :
    i = k ∨ ∃ j, r i j ∧ j ≠ i ∧ Relation.ReflTransGen (fun a b => r a b ∧ b ≠ i) j k := by
  induction h with
  | refl => exact .inl rfl
  | @tail a b hia hab ih =>
    by_cases hb : i = b
    · exact .inl hb
    · right
      rcases ih with rfl | ⟨j, hij, hj, hway⟩
      · exact ⟨b, hab, Ne.symm hb, .refl⟩
      · exact ⟨j, hij, hj, hway.tail ⟨hab, Ne.symm hb⟩⟩

lemma lt_length_of_avoiding {avoided : Finset Nat} (hk : k < plan.length)
    (h : Relation.ReflTransGen (fun a b => plan.Nests a b ∧ b ∉ avoided) i k) :
    i < plan.length := by
  rcases h.cases_head with rfl | ⟨j, hij, -⟩
  · exact hk
  · exact hij.1.lt_length

/-- A way that avoids some allocators is no longer than the number of the others, by induction on
this number. -/
lemma leads_of_avoiding (hk : k < plan.length) (depth : Nat) (avoided : Finset Nat)
    (havoided : avoided ⊆ Finset.range plan.length) (hcard : plan.length ≤ depth + avoided.card)
    (hi : i ∉ avoided)
    (h : Relation.ReflTransGen (fun a b => plan.Nests a b ∧ b ∉ avoided) i k) :
    plan.Leads depth i k := by
  induction depth generalizing i avoided with
  | zero =>
    -- if all are avoided, there is no place to start from
    have hall := Finset.eq_of_subset_of_card_le havoided (by rw [Finset.card_range]; omega)
    exact absurd (hall ▸ Finset.mem_range.2 (lt_length_of_avoiding hk h)) hi
  | succ depth ih =>
    have hlt := lt_length_of_avoiding hk h
    rcases exists_step_avoiding h with rfl | ⟨j, ⟨hij, hj⟩, hne, hway⟩
    · exact .inl rfl
    · obtain ⟨x, owned, hx, hs⟩ := hij
      refine .inr ⟨x, hx, j, owned, hs, ih (insert i avoided) ?_ ?_ ?_ ?_⟩
      · exact Finset.insert_subset (Finset.mem_range.2 hlt) havoided
      · rw [Finset.card_insert_of_notMem hi]
        omega
      · exact fun hmem => (Finset.mem_insert.1 hmem).elim hne hj
      · refine Relation.ReflTransGen.mono (fun a b hab => ⟨hab.1.1, fun hmem => ?_⟩) _ _ hway
        exact (Finset.mem_insert.1 hmem).elim hab.2 hab.1.2

/-- What is in a tree is led to by as many links as there are allocators. -/
lemma leads_of_inTree (h : plan.InTree i k) (hk : k < plan.length) {depth : Nat}
    (hdepth : plan.length ≤ depth) : plan.Leads depth i k := by
  refine leads_of_avoiding hk depth ∅ (Finset.empty_subset _) (Nat.le_add_right_of_le hdepth)
    (Finset.notMem_empty i) (Relation.ReflTransGen.mono
      (fun a b hab => ⟨hab, Finset.notMem_empty b⟩) _ _ h)

end Plan

end BlockPool
