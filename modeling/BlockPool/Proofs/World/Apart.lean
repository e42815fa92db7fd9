import BlockPool.Memory.Arena
import BlockPool.Proofs.World.Calls

/-!
# Affinities do not influence one another

The calls of a run that concern one affinity are the requests and returns for it, the settings of
its group, and compactions. What other calls are made in between, and where the system places
memory, cannot be seen from what the calls for the affinity do.

Runs are those in which the group of every request can serve it, from its blocks or from a new one,
and in which every return is for an allocation that is outstanding.

Main statement: two runs of allocators with the same settings in which the same calls concern an
affinity show the same for each of them: the place of what is served, in the order in which blocks
were made, whether a return is taken, and the number of blocks and the totals afterwards.
-/

namespace BlockPool.World

variable {σ τ : Type}

/-! ## What is seen of a run -/

/-- What can be seen of a call: the place of what was served, by block and offset, whether a return
was taken, and the group afterwards. -/
structure Sight where
  place : Option (Nat × Nat)
  known : Option Bool
  blocks : Nat
  totals : Totals
deriving DecidableEq

/-- What can be seen of a call with an `answer` that left the group `g`. -/
def Sight.of (g : Group) (answer : Answer) : Sight where
  place := match answer with
    | .served (.ok address) => g.place? address
    | _ => none
  known := match answer with
    | .claimed known => some known
    | _ => none
  blocks := g.blockCount
  totals := g.totals

/-- The worlds that come of `Call`s to an allocator, each with the ledger and with the calls that
concern an affinity and the `Sight` of them, the latest first. -/
inductive Played [System σ] (id : Nat) (affinity : Affinity) (start : World σ) :
    World σ → Ledger → List (Call × Sight) → Prop where
  | start : Played id affinity start start (fun _ => []) []
  | other {w w' : World σ} {ledger : Ledger} {record : List (Call × Sight)} {c : Call}
      {answer : Answer} (h : Played id affinity start w ledger record) (hc : ¬ c.Concerns affinity)
      (hcall : Happens id w ledger c answer w') :
      Played id affinity start w' (ledger.after c answer) record
  | own {w w' : World σ} {ledger : Ledger} {record : List (Call × Sight)} {c : Call}
      {answer : Answer} {a : Allocator} (h : Played id affinity start w ledger record)
      (hc : c.Concerns affinity) (hcall : Happens id w ledger c answer w')
      (ha : w'.allocator? id = some a) :
      Played id affinity start w' (ledger.after c answer)
        ((c, .of (a.groupFor affinity) answer) :: record)

/-! ## Two runs -/

/-- Two leases of one size at the `SamePlace`. -/
def SameLease (pairs : List (Nat × Nat)) (g : Group) (x x' : Lease) : Prop :=
  x.size = x'.size ∧ g.SamePlace pairs x.address x'.address

/-- Groups of two runs that are `Twins`, and leases that are the `SameLease` in both. -/
structure Parallel (pairs : List (Nat × Nat)) (leases leases' : List (Option Lease))
    (g g' : Group) : Prop where
  twins : g.Twins pairs g'
  leases : List.Forall₂ (Option.Rel (SameLease pairs g)) leases leases'

lemma forall₂_set {α β : Type} {R : α → β → Prop} {l : List α} {l' : List β}
    (h : List.Forall₂ R l l') {x : α} {y : β} (hxy : R x y) (i : Nat) :
    List.Forall₂ R (l.set i x) (l'.set i y) := by
  induction h generalizing i with
  | nil => exact .nil
  | cons hhead htail ih =>
    cases i with
    | zero => exact .cons hxy htail
    | succ i => exact .cons hhead (ih i)

/-- What `List.Forall₂` relates is related at each index. -/
lemma forall₂_getElem? {α β : Type} {R : α → β → Prop} {l : List α} {l' : List β}
    (h : List.Forall₂ R l l') {i : Nat} {x : α} {y : β} (hx : l[i]? = some x)
    (hy : l'[i]? = some y) : R x y := by
  obtain ⟨hi, rfl⟩ := List.getElem?_eq_some_iff.1 hx
  obtain ⟨hi', rfl⟩ := List.getElem?_eq_some_iff.1 hy
  exact h.get hi hi'

section Parallel

variable {pairs more : List (Nat × Nat)} {leases leases' : List (Option Lease)}
  {g g' after after' : Group}

/-- Leases stay for the same places while a group `Retains` its blocks. -/
lemma Parallel.leases_mono (h : Parallel pairs leases leases' g g')
    (hpairs : ∀ p ∈ pairs, p ∈ more) (hretains : g.Retains after) :
    List.Forall₂ (Option.Rel (SameLease more after)) leases leases' := by
  refine h.leases.imp fun x x' hx => ?_
  cases hx with
  | none => exact .none
  | some hsame => exact .some ⟨hsame.1, hsame.2.mono hpairs hretains⟩

/-- `Parallel` does not depend on the switches. -/
lemma Parallel.setTracking (h : Parallel pairs leases leases' g g') (tracking : Tracking) :
    Parallel pairs leases leases' (g.setTracking tracking) g' :=
  ⟨h.twins.setTracking tracking,
    h.leases_mono (fun _ hp => hp) (g.retains_setTracking tracking)⟩

lemma Parallel.setTracking_right (h : Parallel pairs leases leases' g g') (tracking : Tracking) :
    Parallel pairs leases leases' g (g'.setTracking tracking) :=
  ⟨h.twins.setTracking_right tracking, h.leases⟩

/-- `Parallel` does not depend on settings that keep the `blocks`. -/
lemma Parallel.settings (h : Parallel pairs leases leases' g g')
    (htwins : after.Twins pairs after') (hblocks : after.blocks = g.blocks) :
    Parallel pairs leases leases' after after' :=
  ⟨htwins, h.leases_mono (fun _ hp => hp) (Group.retains_of_blocks_eq hblocks)⟩

/-- Requests of one size leave groups `Parallel`, with a lease for the `SamePlace` in both. -/
lemma Parallel.allocate (h : Parallel pairs leases leases' g g') (hg : g.Tidy) (hg' : g'.Tidy)
    (hafter : after.Listed) (hafter' : after'.Listed) {size address address' : Nat}
    (hyields : g.Yields size address after) (hyields' : g'.Yields size address' after') :
    ∃ more, Parallel more (leases ++ [some ⟨address, size⟩]) (leases' ++ [some ⟨address', size⟩])
      after after' ∧ after.SamePlace more address address' := by
  obtain ⟨more, hpairs, htwins, hplace⟩ :=
    h.twins.yields hg hg' hafter hafter' hyields hyields'
  refine ⟨more, ⟨htwins, ?_⟩, hplace⟩
  have hleases := h.leases_mono hpairs (hyields.retains hg.listed hafter)
  exact List.rel_append hleases (.cons (.some ⟨rfl, hplace⟩) .nil)

/-- Returning the leases of one number leaves groups `Parallel`. -/
lemma Parallel.deallocate (h : Parallel pairs leases leases' g g') (hg : g.Tidy) (hg' : g'.Tidy)
    {number : Nat} {x x' : Lease} (hx : leases[number]? = some (some x))
    (hx' : leases'[number]? = some (some x')) :
    Parallel pairs (leases.set number none) (leases'.set number none)
      (g.deallocate x.address x.size).state (g'.deallocate x'.address x'.size).state := by
  obtain ⟨hsize, hplace⟩ : SameLease pairs g x x' := by
    cases forall₂_getElem? h.leases hx hx' with
    | some hsame => exact hsame
  refine ⟨?_, ?_⟩
  · rw [← hsize]
    exact h.twins.deallocate hg hg' hplace x.size
  · have hretains := g.retains_deallocate x.address x.size
    exact forall₂_set (h.leases_mono (fun _ hp => hp) hretains) .none number

/-- `withoutEmpty` leaves groups `Parallel`, since blocks with leases stay. -/
lemma Parallel.withoutEmpty (h : Parallel pairs leases leases' g g') (hg : g.Tidy)
    (hslots : leased leases = g.slots) :
    Parallel (Group.pairsInUse pairs g) leases leases' g.withoutEmpty g'.withoutEmpty := by
  have hslot : ∀ o ∈ leases, ∀ x, o = some x → x.slot ∈ g.slots := by
    rintro _ hx x rfl
    rw [← hslots]
    exact Multiset.mem_coe.2 (List.mem_filterMap.2 ⟨some x, hx, rfl⟩)
  refine ⟨h.twins.withoutEmpty, ?_⟩
  refine ((List.forall₂_and_left _ _).2 ⟨hslot, h.leases⟩).imp ?_
  rintro _ _ ⟨hslot, hx⟩
  cases hx with
  | none => exact .none
  | some hsame => exact .some ⟨hsame.1, hsame.2.withoutEmpty hg (hslot _ rfl)⟩

/-- The `Sight` of two `Parallel` groups is the same if the answers are. -/
lemma Parallel.sight_eq (h : Parallel pairs leases leases' after after') (hg : after.Tidy)
    (hg' : after'.Tidy) {answer answer' : Answer}
    (hplace : (Sight.of after answer).place = (Sight.of after' answer').place)
    (hknown : (Sight.of after answer).known = (Sight.of after' answer').known) :
    Sight.of after answer = Sight.of after' answer' := by
  have hblocks := h.twins.blockCount_eq hg.listed hg'.listed
  have htotals := h.twins.totals_eq hg.listed hg'.listed
  have hsight : ∀ (g : Group) (answer : Answer), Sight.of g answer =
      ⟨(Sight.of g answer).place, (Sight.of g answer).known, g.blockCount, g.totals⟩ :=
    fun _ _ => rfl
  rw [hsight after, hsight after', hplace, hknown, hblocks, htotals]

/-- A call that `Concerns` an affinity, as it `Acts` on both groups, leaves them `Parallel` with the
same `Sight`. -/
lemma Parallel.acts {affinity : Affinity} {ledger ledger' : Ledger} {n : Nat} {c : Call}
    {answer answer' : Answer}
    (h : Parallel pairs (ledger affinity) (ledger' affinity) g g') (hg : g.Tidy) (hg' : g'.Tidy)
    (hafter : after.Tidy) (hafter' : after'.Tidy) (hslots : leased (ledger affinity) = g.slots)
    (hc : c.Concerns affinity) (hacts : c.Acts affinity ledger n g answer after)
    (hacts' : c.Acts affinity ledger' n g' answer' after') :
    (∃ more, Parallel more (ledger.after c answer affinity) (ledger'.after c answer' affinity)
      after after') ∧ Sight.of after answer = Sight.of after' answer' ∧
        ∀ size, c = .allocate affinity size → (Sight.of after answer).place.isSome := by
  cases hacts with
  | other hnot => exact absurd hc hnot
  | @allocate size address _ hyields =>
    cases hacts' with
    | other hnot => exact absurd hc hnot
    | @allocate _ address' _ hyields' =>
      obtain ⟨more, hparallel, hsame⟩ :=
        h.allocate hg hg' hafter.listed hafter'.listed hyields hyields'
      obtain ⟨place, hplace, hplace'⟩ := hparallel.twins.place? hafter hafter' hsame
      have hseen : after.place? address = after'.place? address' := hplace.trans hplace'.symm
      refine ⟨⟨more, ?_⟩, hparallel.sight_eq hafter hafter' hseen rfl, fun _ _ => ?_⟩
      · rw [ledger.after_allocate, ledger'.after_allocate]
        exact hparallel
      · exact Option.isSome_of_eq_some hplace
  | @deallocate number x hx =>
    cases hacts' with
    | other hnot => exact absurd hc hnot
    | @deallocate _ x' hx' =>
      have hparallel := h.deallocate hg hg' hx hx'
      refine ⟨⟨pairs, ?_⟩, hparallel.sight_eq hafter hafter' rfl rfl, by simp⟩
      rw [ledger.after_deallocate, ledger'.after_deallocate]
      exact hparallel
  | compact =>
    cases hacts' with
    | other hnot => exact absurd hc hnot
    | compact =>
      have hparallel := h.withoutEmpty hg hslots
      exact ⟨⟨_, hparallel⟩, hparallel.sight_eq hafter hafter' rfl rfl, by simp⟩
  | setBlockSize blockSize =>
    cases hacts' with
    | other hnot => exact absurd hc hnot
    | setBlockSize =>
      have hparallel := h.settings (h.twins.setBlockSize blockSize) rfl
      exact ⟨⟨_, hparallel⟩, hparallel.sight_eq hafter hafter' rfl rfl, by simp⟩
  | configureGroup s hs =>
    cases hacts' with
    | other hnot => exact absurd hc hnot
    | configureGroup =>
      have htwins := h.twins.configure s.name s.blockSize (s.alignment.getD n)
      have hparallel := h.settings htwins rfl
      exact ⟨⟨_, hparallel⟩, hparallel.sight_eq hafter hafter' rfl rfl, by simp⟩

end Parallel

section Runs

variable {w w₁ : World σ} {w' w₁' : World τ} {id id' n : Nat} {affinity : Affinity}
  {held held' : Multiset Region} {ledger ledger' : Ledger} {c : Call} {answer answer' : Answer}

/-- Two allocators that are each `Serving`, with one default alignment and groups of an affinity
that are `Parallel`. -/
def InParallel (affinity : Affinity) (id : Nat) (held : Multiset Region) (w : World σ)
    (ledger : Ledger) (id' : Nat) (held' : Multiset Region) (w' : World τ) (ledger' : Ledger) :
    Prop :=
  ∃ a a' pairs, Serving id held w ledger a ∧ Serving id' held' w' ledger' a' ∧
    a.defaultAlignment = a'.defaultAlignment ∧
    Parallel pairs (ledger affinity) (ledger' affinity) (a.groupFor affinity)
      (a'.groupFor affinity)

/-- A call in the first run that does not concern the affinity leaves the runs `InParallel`. -/
lemma InParallel.left [System σ] [LawfulSystem σ]
    (h : InParallel affinity id held w ledger id' held' w' ledger') (hc : ¬ c.Concerns affinity)
    (hcall : Happens id w ledger c answer w₁) :
    InParallel affinity id held w₁ (ledger.after c answer) id' held' w' ledger' := by
  obtain ⟨a, a', pairs, hserving, hserving', hdefault, hparallel⟩ := h
  obtain ⟨a₁, hafter, hdefault₁, hacts⟩ := hserving.call hcall
  refine ⟨a₁, a', pairs, hafter, hserving', hdefault₁.trans hdefault, ?_⟩
  rw [after_of_not_concerns hc]
  rcases (hacts affinity).of_not_concerns hc with hgroup | ⟨tracking, hgroup⟩
  · rwa [hgroup]
  · rw [hgroup]
    exact hparallel.setTracking tracking

/-- A call in the second run that does not concern the affinity leaves the runs `InParallel`. -/
lemma InParallel.right [System τ] [LawfulSystem τ]
    (h : InParallel affinity id held w ledger id' held' w' ledger') (hc : ¬ c.Concerns affinity)
    (hcall : Happens id' w' ledger' c answer w₁') :
    InParallel affinity id held w ledger id' held' w₁' (ledger'.after c answer) := by
  obtain ⟨a, a', pairs, hserving, hserving', hdefault, hparallel⟩ := h
  obtain ⟨a₁, hafter, hdefault₁, hacts⟩ := hserving'.call hcall
  refine ⟨a, a₁, pairs, hserving, hafter, hdefault.trans hdefault₁.symm, ?_⟩
  rw [after_of_not_concerns hc]
  rcases (hacts affinity).of_not_concerns hc with hgroup | ⟨tracking, hgroup⟩
  · rwa [hgroup]
  · rw [hgroup]
    exact hparallel.setTracking_right tracking

variable [System σ] [LawfulSystem σ] [System τ] [LawfulSystem τ]

/-- The same call for the affinity in both runs leaves them `InParallel` and has the same
`Sight`. -/
lemma InParallel.both (h : InParallel affinity id held w ledger id' held' w' ledger')
    (hc : c.Concerns affinity) (hcall : Happens id w ledger c answer w₁)
    (hcall' : Happens id' w' ledger' c answer' w₁') {a : Allocator} {a' : Allocator}
    (ha : w₁.allocator? id = some a) (ha' : w₁'.allocator? id' = some a') :
    InParallel affinity id held w₁ (ledger.after c answer) id' held' w₁'
        (ledger'.after c answer') ∧
      Sight.of (a.groupFor affinity) answer = Sight.of (a'.groupFor affinity) answer' ∧
      ∀ size, c = .allocate affinity size →
        (Sight.of (a.groupFor affinity) answer).place.isSome := by
  obtain ⟨a₀, a₀', pairs, hserving, hserving', hdefault, hparallel⟩ := h
  obtain ⟨b, hafter, hdefault₁, hacts⟩ := hserving.call hcall
  obtain ⟨b', hafter', hdefault₁', hacts'⟩ := hserving'.call hcall'
  obtain rfl : b = a := Option.some.inj (hafter.there.symm.trans ha)
  obtain rfl : b' = a' := Option.some.inj (hafter'.there.symm.trans ha')
  rw [← hdefault] at hacts' hdefault₁'
  obtain ⟨⟨more, hmore⟩, hsight⟩ := hparallel.acts (hserving.stands.tidy affinity)
    (hserving'.stands.tidy affinity) (hafter.stands.tidy affinity) (hafter'.stands.tidy affinity)
    (hserving.slots affinity) hc (hacts affinity) (hacts' affinity)
  exact ⟨⟨b, b', more, hafter, hafter', hdefault₁.trans hdefault₁'.symm, hmore⟩, hsight⟩

/-- As long as the same calls concern an affinity, two runs are `InParallel` for it and their
records agree. -/
theorem Played.inParallel {start : World σ} {start' : World τ}
    {record record' : List (Call × Sight)}
    (hstart : InParallel affinity id held start (fun _ => []) id' held' start' fun _ => [])
    (h : Played id affinity start w ledger record)
    (h' : Played id' affinity start' w' ledger' record')
    (hcalls : record.map Prod.fst = record'.map Prod.fst) :
    InParallel affinity id held w ledger id' held' w' ledger' ∧ record = record' ∧
      ∀ e ∈ record, ∀ size, e.1 = .allocate affinity size → e.2.place.isSome := by
  -- calls for others come at any time, so the second run is gone through for each call of the first
  induction h generalizing w' ledger' record' with
  | start =>
    induction h' with
    | start => exact ⟨hstart, rfl, by simp⟩
    | other _ hc hcall ih =>
      obtain ⟨hparallel, hrecord⟩ := ih hcalls
      exact ⟨hparallel.right hc hcall, hrecord⟩
    | own => exact absurd hcalls (by simp)
  | other _ hc hcall ih =>
    obtain ⟨hparallel, hrecord⟩ := ih h' hcalls
    exact ⟨hparallel.left hc hcall, hrecord⟩
  | own _ hc hcall ha ih =>
    induction h' with
    | start => exact absurd hcalls (by simp)
    | other _ hc' hcall' ih' =>
      obtain ⟨hparallel, hrecord⟩ := ih' hcalls
      exact ⟨hparallel.right hc' hcall', hrecord⟩
    | own h' _ hcall' ha' _ =>
      obtain ⟨rfl, hrest⟩ := List.cons.inj hcalls
      obtain ⟨hparallel, rfl, hplaced⟩ := ih h' hrest
      obtain ⟨hafter, hsight, hplace⟩ := hparallel.both hc hcall hcall' ha ha'
      refine ⟨hafter, ?_, fun e he => ?_⟩
      · rw [hsight]
      · rcases List.mem_cons.1 he with rfl | he
        · exact hplace
        · exact hplaced e he

/-- Two allocators with the same settings, each over a lawful system of its own: if the same calls
concern an affinity in two runs, whatever is done for other affinities in between and wherever
memory is placed, the calls have the same `Sight`, and every request for the affinity has its
place. -/
theorem Played.sights_unaffected {start : World σ} {start' : World τ} {s : Settings}
    {nested nested' : List Strategy} (hstart : start.allocator? id = some (.ofSettings s nested))
    (hstart' : start'.allocator? id' = some (.ofSettings s nested'))
    (hkeeps : start.memory.Keeps held) (hkeeps' : start'.memory.Keeps held')
    {record record' : List (Call × Sight)} (h : Played id affinity start w ledger record)
    (h' : Played id' affinity start' w' ledger' record')
    (hcalls : record.map Prod.fst = record'.map Prod.fst) :
    record = record' ∧
      ∀ e ∈ record, ∀ size, e.1 = .allocate affinity size → e.2.place.isSome := by
  obtain ⟨hblocks, horder, hlatest⟩ := Allocator.groupFor_ofSettings s nested affinity
  obtain ⟨-, horder', hlatest'⟩ := Allocator.groupFor_ofSettings s nested' affinity
  have htwins := Group.twins_new rfl rfl horder horder' hlatest hlatest'
  exact (h.inParallel ⟨_, _, [], serving_start hstart hkeeps, serving_start hstart' hkeeps', rfl,
    htwins, .nil⟩ h' hcalls).2

end Runs

/-- One allocator over an arena that places memory in some way. -/
def placed (placement : Placement) : World Arena where
  memory := { system := .new 65536 placement }
  allocators := [.ofSettings { defaultBlockSize := 64 } []]

/-- Two blocks for one affinity and a return, in a low arena and, with a block for another affinity
in between, in a high one: the blocks have other addresses, and the calls look the same. -/
theorem sights_unaffected_low_and_high : ∃ (w w' : World Arena) (ledger ledger' : Ledger)
    (record record' : List (Call × Sight)),
    Played 0 .objects (placed .low) w ledger record ∧
      Played 0 .objects (placed .high) w' ledger' record' ∧
      ledger.lease? .objects 1 = some ⟨Arena.base + 64, 60⟩ ∧
      ledger'.lease? .objects 1 = some ⟨Arena.base + 65296, 60⟩ ∧
      record.map Prod.fst =
        [.deallocate .objects 0, .allocate .objects 60, .allocate .objects 8] ∧
      record = record' := by
  have hlow₀ : Played 0 .objects (placed .low) (placed .low) (fun _ => []) [] := .start
  have hlow₁ := hlow₀.own (c := .allocate .objects 8) rfl
    ⟨⟨_, rfl, Prod.mk.eta.symm⟩, ⟨_, _, rfl, rfl⟩⟩ rfl
  have hlow₂ := hlow₁.own (c := .allocate .objects 60) rfl
    ⟨⟨_, rfl, Prod.mk.eta.symm⟩, ⟨_, _, rfl, rfl⟩⟩ rfl
  have hlow₃ := hlow₂.own (c := .deallocate .objects 0) rfl
    ⟨⟨_, rfl, Prod.mk.eta.symm⟩, trivial⟩ rfl
  have hhigh₀ : Played 0 .objects (placed .high) (placed .high) (fun _ => []) [] := .start
  have hhigh₁ := hhigh₀.own (c := .allocate .objects 8) rfl
    ⟨⟨_, rfl, Prod.mk.eta.symm⟩, ⟨_, _, rfl, rfl⟩⟩ rfl
  have hhigh₂ := hhigh₁.other (c := .allocate .data 100)
    (fun h : Affinity.objects = .data => absurd h (by decide))
    ⟨⟨_, rfl, Prod.mk.eta.symm⟩, ⟨_, _, rfl, rfl⟩⟩
  have hhigh₃ := hhigh₂.own (c := .allocate .objects 60) rfl
    ⟨⟨_, rfl, Prod.mk.eta.symm⟩, ⟨_, _, rfl, rfl⟩⟩ rfl
  have hhigh₄ := hhigh₃.own (c := .deallocate .objects 0) rfl
    ⟨⟨_, rfl, Prod.mk.eta.symm⟩, trivial⟩ rfl
  refine ⟨_, _, _, _, _, _, hlow₃, hhigh₄, by decide +kernel, by decide +kernel, rfl, ?_⟩
  exact (Played.sights_unaffected rfl rfl (Memory.keeps_new _) (Memory.keeps_new _) hlow₃ hhigh₄
    (by simp only [List.map_cons])).1

end BlockPool.World
