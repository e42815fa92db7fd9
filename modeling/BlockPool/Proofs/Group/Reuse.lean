import BlockPool.Group.Step
import BlockPool.Memory.Arena
import BlockPool.Proofs.Allocator.Growth
import BlockPool.Proofs.Tracker.BestFit

/-!
# Blocks are used again before a new one is made

A request goes through the blocks that a group lists, and to the system only if none of them has
room. That this is no sooner than it has to be rests on three things: every block is listed, the
search of a block misses no room, and a new block has room for the request that it is made for.

Main statement: however a group came about and whatever the system answered, a request is served by
the first block in the order of the search that has room, and the system is not asked. If no block
has room, the system is asked once at most; a block that it grants serves the request from its
start, and without one the group stays as it is.
-/

namespace BlockPool

/-! ## Requests in the log -/

/-- Whether the system was asked for memory. -/
def Event.isRequest : Event → Bool
  | .requested .. => true
  | _ => false

namespace Memory

variable {σ : Type} {m m' m'' : Memory σ}

/-- The events in the log that are `isRequest`, the latest one first. -/
def requests (m : Memory σ) : List Event := m.log.filter Event.isRequest

/-- An action that `Writes` only events other than requests keeps `requests`. -/
lemma Writes.requests {kind : Event → Prop} (h : m.Writes kind m')
    (hkind : ∀ event, kind event → event.isRequest = false) : m'.requests = m.requests := by
  obtain ⟨events, hlog, hall⟩ := h
  unfold Memory.requests
  rw [hlog, List.filter_append, List.filter_eq_nil_iff.2, List.nil_append]
  intro event hmem
  rw [hkind event (hall event hmem)]
  exact Bool.false_ne_true

/-- A `Quiet` action keeps `requests`. -/
lemma Quiet.requests (h : m.Quiet m') : m'.requests = m.requests := by
  refine h.writes.requests ?_
  rintro _ ⟨notice, rfl⟩
  rfl

end Memory

/-! ## Blocks with room -/

namespace Block

variable {b b' : Block} {size : Nat}

/-- Whether one of `b.tracker.freeSpans` has room for a slot at a multiple of `b.alignment`. -/
def HasRoom (b : Block) (size : Nat) : Prop :=
  ∃ s ∈ b.tracker.freeSpans, s.HasRoom (Tracker.slotSize size) b.alignment

instance (b : Block) (size : Nat) : Decidable (b.HasRoom size) :=
  inferInstanceAs (Decidable (∃ s ∈ b.tracker.freeSpans, _))

/-- A block with `Block.Ok` and slots at multiples of a power of two. -/
structure Usable (b : Block) : Prop where
  ok : b.Ok
  power : b.alignment.isPowerOfTwo

/-- A `Made` block is `Usable`. -/
lemma Made.usable {places : Region → Prop} {alignment : Nat} (h : b.Made places alignment) :
    b.Usable := ⟨h.ok, h.power⟩

/-- `Usable` survives whatever a block `Becomes`. -/
lemma Usable.becomes (h : b.Usable) (h' : b.Becomes b') : b'.Usable := by
  refine ⟨h'.ok h.ok, ?_⟩
  rw [h'.alignment]
  exact h.power

/-- A `Usable` block refuses a request exactly when it has no room, in the sense of `HasRoom`. -/
lemma Usable.allocate_eq_none_iff (h : b.Usable) :
    (b.allocate size).answer = none ↔ ¬ b.HasRoom size := by
  have hmax : max b.alignment 1 = b.alignment := by
    have := Nat.pos_of_isPowerOfTwo h.power
    omega
  have hnone := Tracker.reserve_eq_none_iff h.ok.inOrder size (hmax.symm ▸ h.power)
  rw [hmax] at hnone
  show Option.map _ _ = none ↔ _
  rw [Option.map_eq_none_iff, hnone]
  simp only [HasRoom, not_exists, not_and]

end Block

namespace Group

variable {g g' : Group} {size : Nat} {tracking : Tracking}

/-! ## Groups that find all their blocks -/

/-- A group that lists all its blocks in `order`, each of them `Usable`. -/
structure Searchable (g : Group) : Prop where
  listed {key : Nat} {b : Block} : g.blocks.find? key = some b → key ∈ g.order
  usable {key : Nat} {b : Block} : g.blocks.find? key = some b → b.Usable

/-- A group without blocks is `Searchable`. -/
lemma searchable_new (name : String) (blockSize alignment : Nat) :
    Searchable { name, blockSize, alignment } where
  listed hfind := absurd hfind (by simp)
  usable hfind := absurd hfind (by simp)

/-- Blocks that a `Searchable` group `Inherits` are usable, so it is enough that they are listed. -/
lemma Searchable.inherits (h : g.Searchable) (hinherits : g.Inherits (fun _ => True) g')
    (hlisted : ∀ {key b}, g'.blocks.find? key = some b → key ∈ g'.order) : g'.Searchable where
  listed := hlisted
  usable {key _} hfind := by
    rcases hinherits key _ hfind with ⟨b, hb, hbecomes⟩ | ⟨-, hmade⟩
    · exact (h.usable hb).becomes hbecomes
    · exact hmade.usable

/-- `Searchable` survives storing what a block `Becomes` in its place. -/
lemma Searchable.replace (h : g.Searchable) {key : Nat} {b b' : Block}
    (hfind : g.blocks.find? key = some b) (hbecomes : b.Becomes b')
    (hblocks : g'.blocks = g.blocks.insert key b') (horder : g'.order = g.order) :
    g'.Searchable := by
  refine h.inherits (inherits_replace hfind hbecomes hblocks) ?_
  intro key' c hc
  rw [hblocks, Table.find?_insert] at hc
  rw [horder]
  split at hc
  · rename_i hkey
    rw [hkey]
    exact h.listed hfind
  · exact h.listed hc

/-- `Searchable` survives `addBlock` with a `Usable` block. -/
lemma Searchable.addBlock (h : g.Searchable) {b : Block} (hb : b.Usable) :
    (g.addBlock b).Searchable := by
  have hcases : ∀ {key c}, (g.addBlock b).blocks.find? key = some c →
      key = b.base ∧ c = b ∨ g.blocks.find? key = some c := by
    intro key c hc
    have hc : (g.blocks.insert b.base b).find? key = some c := hc
    rw [Table.find?_insert] at hc
    split at hc
    · exact .inl ⟨by assumption, (Option.some.inj hc).symm⟩
    · exact .inr hc
  constructor
  · intro key c hc
    show key ∈ g.order ++ [b.base]
    rcases hcases hc with ⟨rfl, -⟩ | hold
    · exact List.mem_append_right _ (List.mem_singleton_self _)
    · exact List.mem_append_left _ (h.listed hold)
  · intro key c hc
    rcases hcases hc with ⟨-, rfl⟩ | hold
    · exact hb
    · exact h.usable hold

/-- `Searchable` survives a request, in whichever way of `Answering` it ends. -/
lemma Searchable.answering {places : Region → Prop} (h : g.Searchable)
    {answer : Except AllocationError Nat}
    (hanswering : g.Answering places size tracking answer g') : g'.Searchable := by
  cases hanswering with
  | old hfind hanswer => exact h.replace hfind (Block.becomes_allocate _ size) rfl rfl
  | new hmade hanswer =>
    exact h.addBlock (hmade.usable.becomes (Block.becomes_allocate _ size))
  | failed reason => exact h

lemma Searchable.deallocate (h : g.Searchable) (address size : Nat) :
    (g.deallocate address size).state.Searchable := by
  unfold Group.deallocate
  rcases howner : g.owner? address with _ | ⟨base, b⟩
  · exact h
  · obtain ⟨hfind, -⟩ := find?_of_owner? howner
    exact h.replace hfind (b.becomes_deallocate address size) rfl rfl

/-- `withoutEmpty` keeps the blocks that stay in `order`. -/
lemma Searchable.withoutEmpty (h : g.Searchable) : g.withoutEmpty.Searchable := by
  refine h.inherits (inherits_withoutEmpty g) fun {key b} hfind => ?_
  have hkept : g.withoutEmpty.blocks.contains key = true := by
    unfold Table.contains
    rw [hfind]
    rfl
  unfold Group.withoutEmpty at hfind
  rw [Table.find?_filter, Option.filter_eq_some_iff] at hfind
  exact List.mem_filter.2 ⟨h.listed hfind.1, hkept⟩

lemma Searchable.setTracking (h : g.Searchable) (tracking : Tracking) :
    (g.setTracking tracking).Searchable := by
  refine h.inherits (inherits_setTracking g tracking) ?_
  intro key b hfind
  unfold Group.setTracking at hfind
  rw [Table.find?_mapValues, Option.map_eq_some_iff] at hfind
  obtain ⟨c, hc, -⟩ := hfind
  exact h.listed hc

section Memory

variable {σ : Type} [System σ] {m : Memory σ}

/-- `Searchable` is preserved by every `Step`. -/
theorem Searchable.step (h : g.Searchable) (s : Step) (m : Memory σ) :
    Ends (g.step s) m fun out _ => out.2.Searchable := by
  cases s with
  | allocate size tracking =>
    refine (allocate_answering (promises_true σ) g size tracking m).bind ?_
    rintro ⟨answer, g'⟩ m' hanswering
    exact h.answering hanswering
  | deallocate address size =>
    refine (Memory.ends_settle m _).bind ?_
    rintro ⟨known, g'⟩ m' hout
    obtain ⟨-, rfl⟩ := Prod.mk.inj hout
    exact h.deallocate address size
  | compact tracking =>
    have hcompact : Ends (g.compact tracking) m fun out _ => out.2 = g.withoutEmpty :=
      Ends.trivial.bind fun _ _ _ => rfl
    refine hcompact.bind ?_
    rintro ⟨bytes, g'⟩ m' rfl
    exact h.withoutEmpty
  | setBlockSize blockSize => exact ⟨h.listed, h.usable⟩
  | configure name blockSize alignment => exact ⟨h.listed, h.usable⟩
  | setTracking tracking => exact h.setTracking tracking

/-- `Searchable` is preserved by every run, by induction on `steps`. -/
theorem Searchable.run (h : g.Searchable) (steps : List Step) (m : Memory σ) :
    Ends (g.run steps) m fun g' _ => g'.Searchable := by
  induction steps generalizing g m with
  | nil => exact h
  | cons s rest ih =>
    unfold Group.run
    exact (h.step s m).bind fun _ m' h' => ih h' m'

/-! ## Growth -/

/-- How a request ends if no block `HasRoom`. The system is asked once at most, for a block of the
size needed; only a block that it grants changes the group. -/
inductive Growth (g : Group) (size : Nat) (tracking : Tracking) (m : Memory σ) :
    Except AllocationError Nat → Group → Memory σ → Prop where
  /-- No block with slots of the alignment can be made. -/
  | misaligned {m' : Memory σ} (hpower : ¬ (max g.alignment 1).isPowerOfTwo) (hquiet : m.Quiet m') :
      Growth g size tracking m (.error (.invalidAlignment (max g.alignment 1))) g m'
  /-- No block of the size can be asked for. -/
  | oversized {m' : Memory σ} (hinvalid : ¬ (g.blockLayout size).IsValid) (hquiet : m.Quiet m') :
      Growth g size tracking m (.error .invalidLayout) g m'
  /-- The system has no memory for the block. -/
  | refused {m' : Memory σ} (hlive : m'.live = m.live)
      (hrequests : m'.requests = .requested .sized (g.blockLayout size) none :: m.requests) :
      Growth g size tracking m
        (.error (.systemRefused (g.blockLayout size).size (g.blockLayout size).alignment)) g m'
  /-- The system grants the block, which serves the request from its start. -/
  | granted {base : Nat} {m' : Memory σ}
      (hrequests : m'.requests = .requested .sized (g.blockLayout size) (some base) :: m.requests)
      (hserved : ((g.newBlock size base tracking).allocate size).answer = some base) :
      Growth g size tracking m (.ok base)
        { g with
          blocks := g.blocks.insert base ((g.newBlock size base tracking).allocate size).state
          order := g.order ++ [base]
          latest := some base } m'

omit [System σ] in
/-- `Growth` does not depend on what was reported before, by a `Quiet` action. -/
lemma Growth.of_quiet {m₁ m' : Memory σ} {answer : Except AllocationError Nat}
    (hquiet : m.Quiet m₁) (h : g.Growth size tracking m₁ answer g' m') :
    g.Growth size tracking m answer g' m' := by
  cases h with
  | misaligned hpower hquiet' => exact .misaligned hpower (hquiet.trans hquiet')
  | oversized hinvalid hquiet' => exact .oversized hinvalid (hquiet.trans hquiet')
  | refused hlive hrequests =>
    exact .refused (hlive.trans hquiet.live) (hquiet.requests ▸ hrequests)
  | granted hrequests hserved => exact .granted (hquiet.requests ▸ hrequests) hserved

/-- `obtain` makes at most one request to the system, and a block comes back exactly if it is
granted. -/
lemma obtain_growth (g : Group) (size : Nat) (tracking : Tracking) (m : Memory σ) :
    Ends (Block.obtain (max size g.blockSize) g.alignment tracking) m fun result m' =>
      match result with
      | .error reason => g.Growth size tracking m (.error reason) g m'
      | .ok b => ∃ base, b = g.newBlock size base tracking ∧
          m'.requests = .requested .sized (g.blockLayout size) (some base) :: m.requests := by
  unfold Block.obtain
  simp only
  split
  · rename_i hpower
    exact .misaligned hpower (.refl m)
  · split
    · rename_i hinvalid
      exact .oversized hinvalid (.refl m)
    · have hasked : Ends (Memory.request .sized (g.blockLayout size)) m fun answer m' =>
          m'.requests = .requested .sized (g.blockLayout size) answer :: m.requests ∧
            (answer = none → m'.live = m.live) := by
        refine ⟨rfl, fun hnone => ?_⟩
        have hnone : (System.place m.system m.live .sized (g.blockLayout size)).1 = none := hnone
        unfold Memory.request
        simp only [hnone]
      refine hasked.bind ?_
      rintro (_ | base) m₁ ⟨hrequests, hlive⟩
      · exact .refused (hlive rfl) hrequests
      · refine (Memory.quiet_noteIf _ _ m₁).bind fun _ m₂ hquiet => ?_
        exact ⟨base, rfl, hquiet.requests.trans hrequests⟩

omit [System σ] in
/-- `displace` makes no request. -/
lemma displace_requests (g : Group) (base : Nat) (m : Memory σ) :
    Ends (g.displace base) m fun _ m' => m'.requests = m.requests := by
  unfold displace
  split
  · rfl
  · rename_i b hfind
    unfold Block.giveBack
    exact (Memory.quiet_noteIf _ _ m).bind fun _ m₁ hquiet => hquiet.requests

/-- `grow` ends as `Growth` says: a block as large as the request always has room for it. -/
lemma grow_growth (g : Group) (size : Nat) (tracking : Tracking) (m : Memory σ) :
    Ends (g.grow size tracking) m fun out m' => g.Growth size tracking m out.1 out.2 m' := by
  unfold grow
  refine ((Block.obtain_made (promises_true σ) _ _ tracking m).and
    (obtain_growth g size tracking m)).bind ?_
  rintro (reason | b) m₁ ⟨hmade, hgrowth⟩
  · exact hgrowth
  · obtain ⟨base, rfl, hrequests⟩ := hgrowth
    have hserved := Block.allocate_fresh hmade.1 (Nat.le_max_left size g.blockSize)
    refine (Memory.quiet_settle _ m₁).bind ?_
    rintro ⟨answer, b⟩ m₂ ⟨hout, hquiet⟩
    obtain ⟨rfl, rfl⟩ := Prod.mk.inj hout
    have hanswer : ((g.newBlock size base tracking).allocate size).answer = some base := hserved
    simp only [hanswer]
    refine (Memory.quiet_noteIf _ _ m₂).bind fun _ m₃ hquiet' => ?_
    refine (displace_requests g _ m₃).bind fun _ m₄ hsame => ?_
    exact .granted (hsame.trans (hquiet'.requests.trans (hquiet.requests.trans hrequests))) hanswer

/-! ## Requests -/

/-- Every block of a `Searchable` group stands in `searchOrder`. -/
lemma Searchable.mem_searchOrder (h : g.Searchable) {key : Nat} {b : Block}
    (hfind : g.blocks.find? key = some b) : key ∈ g.searchOrder := by
  have hlisted := h.listed hfind
  unfold searchOrder
  rw [List.mem_append]
  by_cases hlatest : some key = g.latest
  · rw [← hlatest]
    exact .inl (List.mem_singleton_self key)
  · exact .inr (List.mem_filter.2 ⟨List.mem_reverse.2 hlisted, by simpa using hlatest⟩)

/-- How a request ends if a block `HasRoom`: the first such block in `searchOrder` serves it, and
nothing is asked of the system. -/
structure Reuse (g : Group) (size : Nat) (m : Memory σ)
    (out : Except AllocationError Nat × Group) (m' : Memory σ) : Prop where
  quiet : m.Quiet m'
  served : ∃ front base rest b address, g.searchOrder = front ++ base :: rest ∧
    (∀ key ∈ front, ∀ c, g.blocks.find? key = some c → ¬ c.HasRoom size) ∧
    g.blocks.find? base = some b ∧ b.HasRoom size ∧
    (b.allocate size).answer = some address ∧
    out = (.ok address,
      { g with blocks := g.blocks.insert base (b.allocate size).state, latest := some base })

/-- `allocate` ends as `Reuse` says if some block `HasRoom`, and as `Growth` says otherwise. -/
lemma Searchable.allocate (h : g.Searchable) (size : Nat) (tracking : Tracking) (m : Memory σ) :
    Ends (g.allocate size tracking) m fun out m' =>
      (∃ key b, g.blocks.find? key = some b ∧ b.HasRoom size) ∧ g.Reuse size m out m' ∨
        (∀ key b, g.blocks.find? key = some b → ¬ b.HasRoom size) ∧
          g.Growth size tracking m out.1 out.2 m' := by
  unfold Group.allocate
  refine (Memory.quiet_settle _ m).bind ?_
  rintro ⟨answer, g'⟩ m₁ ⟨hout, hquiet⟩
  obtain ⟨rfl, rfl⟩ := Prod.mk.inj hout
  unfold serve
  have hmisses : ∀ {key c}, g.blocks.find? key = some c →
      ((c.allocate size).answer = none ↔ ¬ c.HasRoom size) :=
    fun hfind => (h.usable hfind).allocate_eq_none_iff
  rcases g.serveFrom_first size g.searchOrder with ⟨hall, hanswer, hstate⟩ |
    ⟨front, base, rest, b, address, hsplit, hfront, hfind, hserved, hanswer, hstate⟩
  · -- all blocks were tried, and a block that could not serve has no room
    rw [hanswer, hstate]
    refine (grow_growth g size tracking m₁).mono fun out m' hgrowth => ?_
    refine .inr ⟨fun key b hfind => ?_, hgrowth.of_quiet hquiet⟩
    exact (hmisses hfind).1 (hall key (h.mem_searchOrder hfind) b hfind)
  · have hroom : b.HasRoom size := by
      by_contra hnot
      rw [(hmisses hfind).2 hnot] at hserved
      exact absurd hserved (by simp)
    rw [hanswer, hstate]
    exact .inl ⟨⟨base, b, hfind, hroom⟩, hquiet, front, base, rest, b, address, hsplit,
      fun key hkey c hc => (hmisses hc).1 (hfront key hkey c hc), hfind, hroom, hserved, rfl⟩

/-- Whatever was done to a new group, and however the system answered, `allocate` grows the group
only if no block `HasRoom`. If one has, the first such block in `searchOrder` serves the request and
the system is not asked, as `Reuse` says. Otherwise the system is asked once at most: a block that
it grants serves the request from its start and is the latest from then on, and without a new block
the group stays as it is, as `Growth` says. -/
theorem allocate_reuses_or_grows (m : Memory σ) (name : String) (blockSize alignment : Nat)
    (steps : List Step) :
    Ends (run { name, blockSize, alignment } steps) m fun g m₁ =>
      ∀ size tracking, Ends (g.allocate size tracking) m₁ fun out m₂ =>
        ((∃ key b, g.blocks.find? key = some b ∧ b.HasRoom size) → g.Reuse size m₁ out m₂) ∧
        ((∀ key b, g.blocks.find? key = some b → ¬ b.HasRoom size) →
          g.Growth size tracking m₁ out.1 out.2 m₂) := by
  refine ((searchable_new name blockSize alignment).run steps m).mono fun g m₁ h size tracking => ?_
  refine (h.allocate size tracking m₁).mono ?_
  rintro out m₂ (⟨⟨key, b, hfind, hroom⟩, hreuse⟩ | ⟨hnone, hgrowth⟩)
  · exact ⟨fun _ => hreuse, fun hnone => absurd hroom (hnone key b hfind)⟩
  · exact ⟨fun ⟨key, b, hfind, hroom⟩ => absurd hroom (hnone key b hfind), fun _ => hgrowth⟩

/-- Three full blocks, the two older ones emptied again. The newest has no room, so the second
newest serves the next request; one that fits no block is served from the start of a fourth. -/
theorem allocate_reuses_or_grows_three_blocks :
    let m : Memory Arena := ⟨Arena.new 4096 .low, [], []⟩
    let steps : List Step := [.allocate 64 {}, .allocate 64 {}, .allocate 64 {},
      .deallocate Arena.base 64, .deallocate (Arena.base + 64) 64]
    Ends (run { name := "pool", blockSize := 64, alignment := 32 } steps) m fun g m₁ =>
      g.searchOrder = [Arena.base + 128, Arena.base + 64, Arena.base] ∧
      Ends (g.allocate 40 {}) m₁ (fun out m₂ =>
        g.Reuse 40 m₁ out m₂ ∧ out.1 = .ok (Arena.base + 64)) ∧
      Ends (g.allocate 65 {}) m₁ (fun out m₂ =>
        g.Growth 65 {} m₁ out.1 out.2 m₂ ∧ out.1 = .ok (Arena.base + 192)) := by
  intro m steps
  have hall := allocate_reuses_or_grows m "pool" 64 32 steps
  let g : Group := (run { name := "pool", blockSize := 64, alignment := 32 } steps m).1
  have hroom : ∃ b ∈ g.blocks.find? Arena.base, b.HasRoom 40 := by decide +kernel
  have hfull : ∀ b ∈ g.blocks.values, ¬ b.HasRoom 65 := by decide +kernel
  obtain ⟨b, hfind, hroom⟩ := hroom
  refine ⟨by decide +kernel, ⟨(hall 40 {}).1 ⟨_, b, hfind, hroom⟩, by decide +kernel⟩,
    (hall 65 {}).2 fun key c hc => hfull c (Table.mem_values_iff.2 ⟨key, hc⟩), by decide +kernel⟩

end Memory

end Group

end BlockPool
