import BlockPool.Proofs.Allocator.RoundTrip
import BlockPool.Proofs.World.Calls
import BlockPool.Proofs.World.Compaction

/-!
# Requests that are returned at once

Main statement: after any run, if the blocks of an allocator have no address in common and memory
for a new one would have none in common with them, a request that its group serves and the return of
it leave every block as it was, with at most one empty block more. From then on every such request
gets the same address, and nothing is asked of the system any more.
-/

namespace BlockPool.World

variable {σ : Type} [System σ] {w : World σ} {id : Nat} {a c : Allocator} {chain : Chain}
  {size base address : Nat} {affinity : Affinity} {h : Group} {b : Block}

omit [System σ] in
lemma update_there (ha : w.allocator? id = some a) (c : Allocator) (m' : Memory σ) :
    (w.update id c m').allocator? id = some c :=
  (allocator?_update ha).trans (if_pos rfl)

/-- A request and the return of what it got, `n` times. -/
def roundTrips (id : Nat) (chain : Chain) (size : Nat) (affinity : Affinity) (address : Nat) :
    Nat → List Step
  | 0 => []
  | n + 1 => .allocate id chain size affinity :: .deallocate id chain address size ::
      roundTrips id chain size affinity address n

/-- The answers to `roundTrips` if every request gets the same address and every return is taken. -/
def roundTripAnswers (address : Nat) : Nat → List Answer
  | 0 => []
  | n + 1 => .served (.ok address) :: .claimed true :: roundTripAnswers address n

/-- A run of a step and then others, each known. -/
lemma run_cons_eq {s : Step} {rest : List Step} {w₁ w₂ : World σ} {answer : Answer}
    {answers : List Answer} (hstep : step s w = (answer, w₁))
    (hrest : run rest w₁ = (answers, w₂)) : run (s :: rest) w = (answer :: answers, w₂) := by
  unfold run
  rw [bind_apply_eq hstep, bind_apply_eq hrest]
  rfl

/-- A return undoes `afterServing`. -/
lemma deallocate_afterServing
    (ha : w.allocator? id = some (c.afterServing affinity h size base b)) (hc : c.Routed)
    (hfind : c.groups.find? affinity = some h) (hready : h.Ready size base b address)
    (chain : Chain) :
    ∃ m', w.memory.Quiet m' ∧
      step (.deallocate id chain address size) w = (.claimed true, w.update id c m') := by
  have hends : Ends (step (.deallocate id chain address size)) w fun answer w' =>
      answer = .claimed true ∧ ∃ m', w.memory.Quiet m' ∧ w' = w.update id c m' := by
    refine ends_deallocate_pooled ha _ ((hc.deallocate_afterServing hfind hready w.memory).mono ?_)
    rintro _ m' ⟨rfl, hquiet⟩
    exact ⟨rfl, m', hquiet, rfl⟩
  obtain ⟨hanswer, m', hquiet, hworld⟩ := hends
  exact ⟨m', hquiet, Prod.ext hanswer hworld⟩

/-- A request that `allocatePooled` serves goes no further. -/
lemma step_allocate_pooled (ha : w.allocator? id = some a) (chain : Chain) {m' : Memory σ}
    (hserved : a.allocatePooled size affinity w.memory = ((.ok address, c), m')) :
    step (.allocate id chain size affinity) w = (.served (.ok address), w.update id c m') := by
  have hends : Ends (step (.allocate id chain size affinity)) w fun answer w' =>
      ∃ address', answer = .served (.ok address') ∧ address' = address ∧ w' = w.update id c m' := by
    refine ends_allocate_pooled ha (fun address' w' => address' = address ∧ w' = _) ?_
    unfold Ends
    rw [hserved]
    exact ⟨address, rfl, rfl, rfl⟩
  obtain ⟨_, hanswer, rfl, hworld⟩ := hends
  exact Prod.ext hanswer hworld

/-- A request to a group that is `Ready` is served by its latest block. -/
lemma allocate_ready (ha : w.allocator? id = some c)
    (hfind : c.groups.find? affinity = some h) (hready : h.Ready size base b address)
    (chain : Chain) :
    ∃ m', w.memory.Quiet m' ∧ step (.allocate id chain size affinity) w =
      (.served (.ok address), w.update id (c.afterServing affinity h size base b) m') := by
  obtain ⟨hout, hquiet⟩ := Allocator.allocatePooled_ready hfind hready w.memory
  exact ⟨_, hquiet, step_allocate_pooled ha chain (Prod.ext hout rfl)⟩

/-- While a group is `Ready`, `roundTrips` go round in a circle, by induction on their number. -/
lemma run_roundTrips_ready (hc : c.Routed) (hfind : c.groups.find? affinity = some h)
    (hready : h.Ready size base b address) (chain : Chain) (n : Nat)
    (ha : w.allocator? id = some c) :
    ∃ m', w.memory.Quiet m' ∧ run (roundTrips id chain size affinity address n) w =
      (roundTripAnswers address n, w.update id c m') := by
  induction n generalizing w with
  | zero => exact ⟨w.memory, .refl _, Prod.ext rfl (update_self ha w.memory).symm⟩
  | succ n ih =>
    obtain ⟨m₁, hquiet₁, hallocate⟩ := allocate_ready ha hfind hready chain
    obtain ⟨m₂, hquiet₂, hdeallocate⟩ :=
      deallocate_afterServing (update_there ha _ m₁) hc hfind hready chain
    rw [update_update] at hdeallocate
    obtain ⟨m₃, hquiet₃, hrest⟩ := ih (update_there ha c m₂)
    rw [update_update] at hrest
    exact ⟨m₃, hquiet₁.trans (hquiet₂.trans hquiet₃),
      run_cons_eq hallocate (run_cons_eq hdeallocate hrest)⟩

/-- What a request that is returned at once leaves of an allocator, and what comes of any number of
further `roundTrips` of the same kind. -/
structure RoundTrip (w : World σ) (id : Nat) (a : Allocator) (chain : Chain) (size : Nat)
    (affinity : Affinity) (address : Nat) (c : Allocator) (m' : Memory σ) : Prop where
  /-- The request gets the address, and the return is taken. -/
  first : run (roundTrips id chain size affinity address 1) w =
    (roundTripAnswers address 1, w.update id c m')
  /-- All blocks are what they were, and there is at most one more, which is empty. -/
  restored : a.Restored c
  /-- The system was asked once at most. -/
  requests : m'.requests = w.memory.requests ∨ m'.requests =
    .requested .sized ((a.groupFor affinity).blockLayout size) (some address) :: w.memory.requests
  /-- All further requests get the same address, and the system is not asked again. -/
  further (n : Nat) : ∃ m'', m'.Quiet m'' ∧
    run (roundTrips id chain size affinity address n) (w.update id c m') =
      (roundTripAnswers address n, w.update id c m'') ∧
    Ends (step (.allocate id chain size affinity)) (w.update id c m'') fun answer w'' =>
      answer = .served (.ok address) ∧ m''.Quiet w''.memory

/-- After any run, if the blocks of an allocator have no address in common: a request that the group
of its affinity serves, where the system `GrantsNew` memory, is undone by the return of what it got,
but for at most one empty block. The next request gets the same address without a request to the
system, and so does every one after any number of requests and returns of the same kind, as
`RoundTrip` says. -/
theorem Unused.round_trip (h : w.Unused) (steps : List Step) (id : Nat) :
    Ends (run steps) w fun _ w' => ∀ a, w'.allocator? id = some a →
      a.regions.Pairwise Region.Disjoint → ∀ chain size affinity address,
        w'.memory.GrantsNew ((a.groupFor affinity).blockLayout size) a.regions →
        (a.allocatePooled size affinity w'.memory).1.1 = .ok address →
          ∃ c m', w'.RoundTrip id a chain size affinity address c m' := by
  refine (h.routed_run steps).mono fun _ w' hrouted a ha hapart chain size affinity address
    hnew hserved => ?_
  have hrouted := hrouted id a ha hapart
  -- the first request makes the group ready, but for the slot that it reserves
  have hreadies := a.allocatePooled_readies size affinity w'.memory
  obtain ⟨g, base, b, hreadies, hready, hout⟩ := hreadies address hserved
  obtain ⟨m₁, hm₁⟩ : ∃ m₁, (a.allocatePooled size affinity w'.memory).2 = m₁ := ⟨_, rfl⟩
  rw [hm₁] at hreadies
  have hallocate := step_allocate_pooled ha chain (Prod.ext (Prod.ext hserved hout) hm₁)
  obtain ⟨hc, hrestored⟩ := hrouted.restored hnew hreadies
  have hfind : (a.setGroup affinity g).groups.find? affinity = some g :=
    (Table.find?_insert ..).trans (if_pos rfl)
  -- the return releases it
  obtain ⟨m₂, hquiet, hdeallocate⟩ :=
    deallocate_afterServing (update_there ha _ m₁) hc hfind hready chain
  rw [update_update] at hdeallocate
  have hnone : run (roundTrips id chain size affinity address 0)
      (w'.update id (a.setGroup affinity g) m₂) =
        (roundTripAnswers address 0, w'.update id (a.setGroup affinity g) m₂) := rfl
  refine ⟨a.setGroup affinity g, m₂,
    run_cons_eq hallocate (run_cons_eq hdeallocate hnone), hrestored, ?_,
    fun n => ?_⟩
  · rw [hquiet.requests]
    exact hreadies.requests
  · obtain ⟨m₃, hquiet₃, hrun⟩ :=
      run_roundTrips_ready hc hfind hready chain n (update_there ha (a.setGroup affinity g) m₂)
    rw [update_update] at hrun
    obtain ⟨m₄, hquiet₄, hallocate⟩ :=
      allocate_ready (update_there ha (a.setGroup affinity g) m₃) hfind hready chain
    refine ⟨m₃, hquiet₃, hrun, ?_⟩
    unfold Ends
    rw [hallocate]
    exact ⟨rfl, hquiet₄⟩

/-- The block of an affinity is full, so a further request needs a new one. -/
theorem round_trip_two_affinities :
    smallBlocks.Unused ∧ Ends (run twoAffinities) smallBlocks fun _ w => ∃ a,
      w.allocator? 0 = some a ∧ a.regions.Pairwise Region.Disjoint ∧
      w.memory.GrantsNew ((a.groupFor .objects).blockLayout 10) a.regions ∧
      (a.allocatePooled 10 .objects w.memory).1.1 = .ok (Arena.base + 176) ∧
      ∃ c m', w.RoundTrip 0 a .full 10 .objects (Arena.base + 176) c m' := by
  have htrip := unused_smallBlocks.round_trip twoAffinities 0
  have hreached : ∃ a, (run twoAffinities smallBlocks).2.allocator? 0 = some a ∧
      a.regions = ([⟨.sized, Arena.base, ⟨64, 16⟩⟩,
        ⟨.sized, Arena.base + 64, ⟨100, 16⟩⟩] : List Region) ∧
      (∀ r ∈ a.regions, r ∈ (run twoAffinities smallBlocks).2.memory.live ∧ 0 < r.layout.size) ∧
      0 < ((a.groupFor .objects).blockLayout 10).size ∧
      (a.allocatePooled 10 .objects (run twoAffinities smallBlocks).2.memory).1.1 =
        .ok (Arena.base + 176) :=
    ⟨((run twoAffinities smallBlocks).2.allocator? 0).getD default, by decide +kernel⟩
  refine ⟨unused_smallBlocks, ?_⟩
  unfold Ends at htrip ⊢
  dsimp only at htrip ⊢
  generalize (run twoAffinities smallBlocks).2 = w at hreached htrip ⊢
  obtain ⟨a, ha, hregions, hlive, hsize, hserved⟩ := hreached
  have hapart : a.regions.Pairwise Region.Disjoint := ⟨_, hregions, by decide⟩
  have hnew := Memory.grantsNew_of_live hsize hlive
  exact ⟨a, ha, hapart, hnew, hserved, htrip a ha hapart .full 10 .objects _ hnew hserved⟩

end BlockPool.World
