import BlockPool.Proofs.World.History
import BlockPool.Proofs.World.Runs

/-!
# Fallbacks over a run

An allocator does not know which of its fallbacks an address is from. It relies on walking the same
chain for a return as for a request, and on every nested strategy to know its own. In between,
further strategies may have been added, and anything may have happened elsewhere.

Main statement: a request that a group cannot serve is offered to the chain in order and answered
with the first aligned address, and when that address is returned later, it is the member that
served it who takes it.
-/

namespace BlockPool.World

variable {σ : Type} [System σ] {w w' : World σ} {record : List Entry}

/-! ## Back to the lender -/

/-- In an `Honest` record, a return of an address in no block is `TakenBy` the member that it is on
loan from. -/
lemma taken_by_lender {a : Allocator} {address : Nat} (howns : a.owns address = false)
    {place : Place} {size : Nat} (hloan : ⟨place, address, size⟩ ∈ loans record) {chain : Chain}
    (hplace : place ∈ a.wiring.places chain)
    (haccepts : ∀ heap, place = .backstop heap → heap.Accepts size) (links : Links σ) (id : Nat)
    (w : World σ) :
    Ends (deallocateRecorded links id a chain address size) (w, record) fun answer after =>
      Honest after.2 →
        answer = true ∧ TakenBy (a.wiring.places chain) place address size record after.2 := by
  refine (deallocateRecorded_spec links id a chain address size (w, record)).mono ?_
  rintro answer after (⟨hpool, -⟩ | ⟨hanswer, taker, htaken⟩ | ⟨hafter, hnone⟩) hhonest
  · rw [howns] at hpool
    exact absurd hpool Bool.false_ne_true
  · obtain rfl : taker = place := htaken.eq_lender hhonest hloan rfl hplace
    exact ⟨hanswer, htaken⟩
  · -- somebody takes it: a strategy because it is on loan, a heap because it accepts it
    cases place with
    | nested s =>
      rw [hafter] at hhonest
      exact absurd hplace (not_mem_of_refusals hhonest hloan rfl rfl)
    | backstop heap => exact absurd (haccepts heap rfl) (hnone heap hplace)

/-- After any `Run` in which the address is kept, what is on loan is `TakenBy` its lender. -/
lemma Run.back_to_lender {id : Nat} {before : World σ × List Entry} {address : Nat}
    (hrun : Run id (some address) before (w, record)) {a₀ a : Allocator}
    (ha₀ : before.1.allocator? id = some a₀) (ha : w.allocator? id = some a)
    (howns : a.owns address = false) {place : Place} {size : Nat}
    (hloan : Honest before.2 → ⟨place, address, size⟩ ∈ loans before.2) {chain : Chain}
    (hplace : place ∈ a₀.wiring.places chain)
    (haccepts : ∀ heap, place = .backstop heap → heap.Accepts size) (depth : Nat) :
    let last := (deallocateRecorded (.upTo depth) id a chain address size (w, record)).2
    Honest last.2 →
      deallocateWith (.upTo depth) id a chain address size w = (true, last.1) ∧
      TakenBy (a.wiring.places chain) place address size record last.2 := by
  intro last hhonest
  obtain ⟨more, b, hrecord, hb, hwiring⟩ := hrun.extends ha₀
  obtain rfl : b = a := Option.some.inj (hb.symm.trans ha)
  obtain ⟨⟨shows, hlast, -⟩, -⟩ := deallocateRecorded_frame hb record depth chain address size
  have hhonest' : Honest record := by
    rw [hlast] at hhonest
    exact hhonest.of_append
  have hstart : Honest before.2 := by
    have hrecord : record = more ++ before.2 := hrecord
    rw [hrecord] at hhonest'
    exact hhonest'.of_append
  -- the address stays on loan while it is kept, and its lender stays in the chain
  have hloan' : ⟨place, address, size⟩ ∈ loans record :=
    hrun.mem_loans ha₀ hhonest' (hloan hstart) rfl
  have hplace' : place ∈ b.wiring.places chain := by
    rw [hwiring]
    exact Allocator.Wiring.places_subset_extend _ _ _ hplace
  obtain ⟨htrue, htaken⟩ :=
    taken_by_lender howns hloan' hplace' haccepts (.upTo depth) id w hhonest
  refine ⟨?_, htaken⟩
  rw [erases_deallocateRecorded (.upTo depth) id b chain address size w record, htrue]

/-- Whenever a group cannot serve a request, the chain is walked in order, those added later behind
those before, and the answer is the first aligned address, as `Walks` says. What is not aligned goes
back to the member that offered it before the next is asked, and is taken. Whatever happens until
the address is returned, with the size it was requested with, the member that served it is the one
who takes it back, if it lies in no block. -/
theorem fallbacks_in_order {id : Nat} {w₀ w : World σ} {record : List Entry} {a₀ a : Allocator}
    (hrun : Run id none (w₀, []) (w, record)) (ha₀ : w₀.allocator? id = some a₀)
    (ha : w.allocator? id = some a) (depth : Nat) (chain : Chain) {size : Nat}
    {affinity : Affinity} {reason : AllocationError}
    (hfail : (a.allocatePooled size affinity w.memory).1.1 = .error reason) :
    let after := (allocateRecorded (.upTo depth) id a chain size affinity (w, record)).2
    ∃ exchanges answer,
      allocateWith (.upTo depth) id a chain size affinity w =
        (answer.elim (.error reason) .ok, after.1) ∧
      after.2 = written size affinity exchanges ++ record ∧
      Walks (a.alignmentFor affinity) ((a₀.wiring.extend (added record)).places chain) exchanges
        answer ∧
      (Honest after.2 → ∀ place address taken,
        .sentBack place address taken ∈ exchanges → taken = true) ∧
      ∀ place address, .served place address ∈ exchanges →
        ∀ (w' : World σ) (record' : List Entry) (a' : Allocator) (depth' : Nat),
          Run id (some address) after (w', record') → w'.allocator? id = some a' →
          a'.owns address = false →
          let last := (deallocateRecorded (.upTo depth') id a' chain address size (w', record')).2
          Honest last.2 →
            deallocateWith (.upTo depth') id a' chain address size w' = (true, last.1) ∧
            TakenBy (a'.wiring.places chain) place address size record' last.2 := by
  intro after
  have herases := erases_allocateRecorded (.upTo depth) id a chain size affinity w record
  obtain ⟨-, b, hb, hwiring⟩ := allocateRecorded_frame ha record depth chain size affinity
  have hspec := allocateRecorded_spec (.upTo depth) id a chain size affinity (w, record)
  unfold Ends at hspec
  rw [hfail] at hspec
  obtain ⟨exchanges, answer, hanswer, hafter, hwalks, hcovered⟩ := hspec
  -- the fallbacks are the first ones and those added since
  obtain ⟨more, a₁, hrecord, ha₁, hchain⟩ := hrun.extends ha₀
  obtain rfl : a₁ = a := Option.some.inj (ha₁.symm.trans ha)
  obtain rfl : record = more := hrecord.trans (List.append_nil more)
  rw [← hchain]
  refine ⟨exchanges, answer, ?_, hafter, hwalks, ?_, ?_⟩
  · rw [herases, ← hanswer]
  · intro hhonest place address taken hback
    rw [hafter] at hhonest
    exact taken_of_sentBack hhonest hcovered hback
  · intro place address hserved w' record' a' depth' hrun' ha' howns
    have hloan : Honest after.2 → ⟨place, address, size⟩ ∈ loans after.2 := by
      intro hhonest
      rw [hafter] at hhonest ⊢
      exact served_mem_loans hhonest hserved
    have hplace : place ∈ b.wiring.places chain := by
      rw [hwiring]
      exact hwalks.inOrder.subset (List.mem_map_of_mem hserved)
    have haccepts : ∀ heap, place = .backstop heap → heap.Accepts size := by
      rintro heap rfl
      exact hcovered _ hserved
    exact hrun'.back_to_lender hb ha' howns hloan hplace haccepts depth'

/-- The first allocator of a world. -/
def firstAllocator (w : World Arena) : Allocator := (w.allocator? 0).getD default

/-- `cramped` after a request that takes most of its memory. -/
def busy : World Arena := (allocate 0 .full 16 .objects cramped).2

/-- `busy` after a request that its group cannot serve, and the record of it. -/
def lent : World Arena × List Entry :=
  (allocateRecorded (.upTo 2) 0 (firstAllocator busy) .full 30 .data (busy, [])).2

/-- `lent` with a further strategy. -/
def grown : World Arena × List Entry :=
  ((step (.addStrategy 0 (.foreign 0 "late")) lent.1).2, .added (.foreign 0 "late") :: lent.2)

/-- A nested allocator serves, and takes back what it served after another strategy was added. -/
theorem fallbacks_in_order_nested_allocator :
    Run 0 (some (Arena.base + 208)) lent grown ∧
      TakenBy ((firstAllocator grown.1).wiring.places .full) (.nested (.allocator 1 true))
        (Arena.base + 208) 30 grown.2
        (deallocateRecorded (.upTo 2) 0 (firstAllocator grown.1) .full (Arena.base + 208) 30
          grown).2.2 := by
  have hbusy : busy.allocator? 0 = some (firstAllocator busy) := by decide +kernel
  have hfail : ((firstAllocator busy).allocatePooled 30 .data busy.memory).1.1 =
      .error (.systemRefused 200 16) := by decide +kernel
  have hserved : (allocateWith (.upTo 2) 0 (firstAllocator busy) .full 30 .data busy).1 =
      .ok (Arena.base + 208) := by decide +kernel
  have hrun : Run 0 none (busy, []) (busy, []) := .refl
  obtain ⟨exchanges, answer, hanswer, -, hwalks, -, hreturn⟩ :=
    fallbacks_in_order hrun hbusy hbusy 2 .full hfail
  obtain rfl : answer = some (Arena.base + 208) := by
    rw [hanswer] at hserved
    cases answer with
    | none => exact absurd hserved (by simp)
    | some address => exact congrArg some (Except.ok.inj hserved)
  obtain ⟨before, place, rfl⟩ := hwalks.last _ rfl
  have hgrown : Run 0 (some (Arena.base + 208)) lent grown := .single (.add (.foreign 0 "late"))
  have htaken := (hreturn place _ (List.mem_append_right _ (List.mem_singleton_self _)) grown.1
    grown.2 (firstAllocator grown.1) 2 hgrown (by decide +kernel) (by decide +kernel)
    (by decide +kernel)).2
  -- who takes the address is seen from what is written last
  have ⟨front, rest, _, hback⟩ := htaken
  have hlast : (deallocateRecorded (.upTo 2) 0 (firstAllocator grown.1) .full (Arena.base + 208) 30
      grown).2.2 = .shown (.nested (.allocator 1 true)) (Arena.base + 208) 30 true :: grown.2 := by
    decide +kernel
  have hhead := (List.cons.inj (hlast.symm.trans hback)).1
  obtain rfl := (Entry.shown.inj hhead).1
  exact ⟨hgrown, htaken⟩

end BlockPool.World
