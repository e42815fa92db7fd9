import BlockPool.Proofs.Group.Descent
import BlockPool.Proofs.Tracker.Muted

/-!
# Groups without their switches

Muting a memory takes out of its log what is not heard. Everything that blocks and groups do to a
memory is mirrored in the muted memory by what they do with muted switches: they ask the system for
the same, serve the same addresses and give the same warnings and errors.

The books of the blocks have to be in order, since that is why no self-check has anything to report.
-/

namespace BlockPool

/-! ## Memory -/

/-- Whether an event is logged when only notices that are `Notice.isHeard` are. -/
def Event.isHeard (loud : Bool) : Event → Bool
  | .noted notice => notice.isHeard loud
  | _ => true

namespace Memory

variable {σ α β γ δ : Type} {loud : Bool} {ψ : α → β} {χ : γ → δ} {x : MemoryM σ α}
  {y : MemoryM σ β}

/-- A memory with only the events in its log that are `isHeard`. -/
def muted (loud : Bool) (m : Memory σ) : Memory σ :=
  { m with log := m.log.filter (·.isHeard loud) }

/-- What `x` does to a memory `y` does to the `muted` memory, with the answer changed by `ψ`. -/
def Mutes (loud : Bool) (ψ : α → β) (x : MemoryM σ α) (y : MemoryM σ β) (m : Memory σ) : Prop :=
  Mirrors (muted loud) ψ x y m fun _ _ => True

lemma Mutes.pure (a : α) (m : Memory σ) :
    Mutes loud ψ (Pure.pure a : MemoryM σ α) (Pure.pure (ψ a)) m := Mirrors.pure trivial

/-- `Mutes` composes along `>>=`. -/
lemma Mutes.bind {f : α → MemoryM σ γ} {g : β → MemoryM σ δ} {m : Memory σ}
    (hx : Mutes loud ψ x y m) (hf : ∀ a m', Mutes loud χ (f a) (g (ψ a)) m') :
    Mutes loud χ (x >>= f) (y >>= g) m :=
  Mirrors.bind hx fun a m' _ => hf a m'

/-- An event that `isHeard` is logged on both sides. -/
lemma mutes_record {event : Event} (h : event.isHeard loud = true) (m : Memory σ) :
    Mutes loud (fun u => u) (record event) (record event) m := by
  refine ⟨?_, trivial⟩
  unfold record muted
  rw [List.filter_cons_of_pos h]

/-- A notice that `isHeard` is logged on both sides. -/
lemma mutes_note {notice : Notice} (h : notice.isHeard loud = true) (m : Memory σ) :
    Mutes loud (fun u => u) (note notice) (note notice) m := by
  have hheard : (Event.noted notice).isHeard loud = true := h
  exact mutes_record hheard m

/-- An informative notice is logged on the quiet side only if it is to be heard there. -/
lemma mutes_noteIf {notice : Notice} (h : notice.severity = .info) (report : Bool)
    (m : Memory σ) :
    Mutes loud (fun u => u) (noteIf report notice) (noteIf (loud && report) notice) m := by
  have hheard : (Event.noted notice).isHeard loud = loud := by
    cases loud <;> simp [Event.isHeard, Notice.isHeard, h]
  cases report with
  | false =>
    rw [Bool.and_false]
    exact ⟨rfl, trivial⟩
  | true =>
    cases loud with
    | true => exact mutes_record hheard m
    | false =>
      refine ⟨?_, trivial⟩
      show ((), m.muted false) = ((), { m with log := _ :: m.log }.muted false)
      unfold muted
      rw [List.filter_cons_of_neg (by rw [hheard]; exact Bool.false_ne_true)]

/-- On the quiet side `noteAll` logs those notices that are heard. -/
lemma mutes_noteAll (notices : List Notice) (m : Memory σ) :
    Mutes loud (fun u => u) (noteAll notices) (noteAll (notices.filter (·.isHeard loud))) m := by
  induction notices generalizing m with
  | nil => exact ⟨rfl, trivial⟩
  | cons notice rest ih =>
    by_cases hheard : notice.isHeard loud = true
    · rw [List.filter_cons_of_pos hheard]
      exact (mutes_note hheard m).bind fun _ m' => ih m'
    · rw [List.filter_cons_of_neg hheard]
      -- the notice leaves no trace in the muted memory
      have hevent : ¬ (Event.noted notice).isHeard loud = true := hheard
      have hsilent : ({ m with log := .noted notice :: m.log } : Memory σ).muted loud =
          m.muted loud := by
        unfold muted
        rw [List.filter_cons_of_neg hevent]
      refine ⟨?_, trivial⟩
      rw [← hsilent]
      exact (ih { m with log := .noted notice :: m.log }).eq

/-- `settle` mirrors an `Outcome` and its `muted` form. -/
lemma mutes_settle {state answer : Type} (f : state → state) (o : Outcome state answer)
    (m : Memory σ) :
    Mirrors (muted loud) (fun out => (out.1, f out.2)) (settle o) (settle (o.muted loud f)) m
      fun out _ => out = (o.answer, o.state) := by
  unfold settle
  exact Mirrors.bind (mutes_noteAll o.notices m) fun _ _ _ => ⟨rfl, rfl⟩

/-- `release` has nothing to do with what is heard. -/
lemma mutes_release (named : Region) (m : Memory σ) :
    Mutes loud (fun u => u) (release named) (release named) m := ⟨rfl, trivial⟩

variable [System σ]

lemma mutes_request (source : Source) (layout : Layout) (m : Memory σ) :
    Mutes loud (fun answer => answer) (request source layout) (request source layout) m :=
  ⟨rfl, trivial⟩

lemma mutes_askForeign (strategy : Nat) (name : String) (size : Nat) (affinity : Affinity)
    (m : Memory σ) :
    Mutes loud (fun answer => answer) (askForeign strategy name size affinity)
      (askForeign strategy name size affinity) m := ⟨rfl, trivial⟩

lemma mutes_returnForeign (strategy : Nat) (name : String) (address size : Nat) (m : Memory σ) :
    Mutes loud (fun answer => answer) (returnForeign strategy name address size)
      (returnForeign strategy name address size) m := ⟨rfl, trivial⟩

end Memory

open Memory (Mutes)

/-! ## Blocks -/

namespace Block

variable {σ : Type} {loud : Bool} {b : Block}

/-- A block with its tracker `muted`. -/
def muted (loud : Bool) (b : Block) : Block := { b with tracker := b.tracker.muted loud }

/-- `Block.allocate` commutes with `muted`. -/
lemma allocate_muted (hb : b.Ok) (size : Nat) :
    (b.muted loud).allocate size = (b.allocate size).muted loud (muted loud) := by
  have hreserve : (b.muted loud).tracker.reserve size (b.muted loud).alignment =
      (b.tracker.reserve size b.alignment).muted loud (Tracker.muted loud) :=
    Tracker.reserve_muted hb.inOrder size b.alignment
  unfold allocate
  rw [hreserve]
  rfl

/-- `Block.deallocate` commutes with `muted`. -/
lemma deallocate_muted (hb : b.Ok) (address size : Nat) :
    (b.muted loud).deallocate address size =
      (b.deallocate address size).muted loud (muted loud) := by
  have hcontains : (b.muted loud).contains address = b.contains address := rfl
  have hrelease : (b.muted loud).tracker.release (address - (b.muted loud).base) size =
      (b.tracker.release (address - b.base) size).muted loud (Tracker.muted loud) :=
    Tracker.release_muted hb.inOrder (address - b.base) size
  unfold deallocate
  rw [hcontains]
  split
  · rw [hrelease]
    unfold Outcome.muted
    simp only [List.filter_append]
    split
    · rfl
    · rw [Notice.filter_isHeard Severity.noConfusion]
      rfl
  · rfl

/-- `Block.giveBack` does the same to a `muted` block. -/
lemma mutes_giveBack (b : Block) (m : Memory σ) :
    Mutes loud (fun u => u) b.giveBack (b.muted loud).giveBack m := by
  unfold giveBack
  exact (Memory.mutes_noteIf rfl _ m).bind fun _ m' => Memory.mutes_release b.region m'

/-- `Block.obtain` makes a `muted` block if the switches asked for are muted. -/
lemma mutes_obtain [System σ] (capacity alignment : Nat) (tracking : Tracking) (m : Memory σ) :
    Mutes loud (Except.map (muted loud)) (obtain capacity alignment tracking)
      (obtain capacity alignment (tracking.muted loud)) m := by
  unfold obtain
  simp only
  split
  · exact ⟨rfl, trivial⟩
  · split
    · exact ⟨rfl, trivial⟩
    · refine (Memory.mutes_request _ _ m).bind fun answer m₁ => ?_
      cases answer with
      | none => exact ⟨rfl, trivial⟩
      | some base =>
        refine (Memory.mutes_noteIf rfl _ m₁).bind fun _ m₂ => ⟨?_, trivial⟩
        rw [← Tracker.new_muted]
        rfl

end Block

/-! ## Groups -/

namespace Group

variable {σ : Type} {loud : Bool} {g : Group}

/-- A group with each of its blocks `muted`. -/
def muted (loud : Bool) (g : Group) : Group :=
  { g with blocks := g.blocks.mapValues (Block.muted loud) }

/-- `Block.Ok` holds of every block. -/
def BlocksOk (g : Group) : Prop := ∀ key b, g.blocks.find? key = some b → b.Ok

/-- Looking up a block commutes with `muted`. -/
lemma find?_muted (g : Group) (key : Nat) :
    (g.muted loud).blocks.find? key = (g.blocks.find? key).map (Block.muted loud) :=
  Table.find?_mapValues ..

/-- Storing a block commutes with `muted`. -/
lemma muted_replace (g : Group) (key : Nat) (b : Block) (latest : Option Nat) :
    ({ g with blocks := g.blocks.insert key b, latest } : Group).muted loud =
      { g.muted loud with blocks := (g.muted loud).blocks.insert key (b.muted loud), latest } := by
  unfold muted
  simp only [Table.mapValues_insert]

lemma muted_addBlock (g : Group) (b : Block) :
    (g.addBlock b).muted loud = (g.muted loud).addBlock (b.muted loud) := by
  unfold addBlock muted
  simp only [Table.mapValues_insert]
  rfl

lemma muted_setTracking (g : Group) (tracking : Tracking) :
    (g.setTracking tracking).muted loud = (g.muted loud).setTracking (tracking.muted loud) := by
  unfold setTracking muted
  simp only [Table.mapValues_mapValues]
  rfl

/-- `Group.serveFrom` commutes with `muted`. -/
lemma serveFrom_muted (hg : g.BlocksOk) (size : Nat) (bases : List Nat) :
    (g.muted loud).serveFrom size bases = (g.serveFrom size bases).muted loud (muted loud) := by
  induction bases with
  | nil => rfl
  | cons base rest ih =>
    unfold serveFrom
    rw [find?_muted]
    rcases hfind : g.blocks.find? base with _ | b
    · exact ih
    · simp only [Option.map_some]
      rw [Block.allocate_muted (hg base b hfind), ih]
      unfold Outcome.muted
      simp only
      split
      · rw [muted_replace]
      · rw [List.filter_append]

/-- `Group.serve` commutes with `muted`. -/
lemma serve_muted (hg : g.BlocksOk) (size : Nat) :
    (g.muted loud).serve size = (g.serve size).muted loud (muted loud) :=
  serveFrom_muted hg size g.searchOrder

/-- `Group.owner?` commutes with `muted`. -/
lemma owner?_muted (g : Group) (address : Nat) :
    (g.muted loud).owner? address =
      (g.owner? address).map fun e => (e.1, e.2.muted loud) := by
  have hlast : (g.muted loud).blocks.lastUpTo? address =
      (g.blocks.lastUpTo? address).map fun e => (e.1, e.2.muted loud) :=
    Table.lastUpTo?_mapValues ..
  unfold owner?
  rw [hlast, Option.filter_map]
  rfl

lemma owns_muted (g : Group) (address : Nat) : (g.muted loud).owns address = g.owns address := by
  unfold owns
  rw [owner?_muted, Option.isSome_map]

/-- `Group.deallocate` commutes with `muted`. -/
lemma deallocate_muted (hg : g.BlocksOk) (address size : Nat) :
    (g.muted loud).deallocate address size =
      (g.deallocate address size).muted loud (muted loud) := by
  unfold deallocate
  rw [owner?_muted]
  rcases howner : g.owner? address with _ | ⟨key, b⟩
  · rfl
  · simp only [Option.map_some]
    rw [Block.deallocate_muted (hg key b (find?_of_owner? howner).1)]
    unfold Outcome.muted
    simp only
    rw [muted_replace]
    rfl

/-- `Group.emptyBlocks` commutes with `muted`. -/
lemma emptyBlocks_muted (g : Group) :
    (g.muted loud).emptyBlocks = g.emptyBlocks.map (Block.muted loud) := by
  have hvalues : (g.muted loud).blocks.values = g.blocks.values.map (Block.muted loud) :=
    Table.values_mapValues ..
  unfold emptyBlocks
  rw [hvalues, List.filter_map]
  rfl

/-- `Group.withoutEmpty` commutes with `muted`. -/
lemma withoutEmpty_muted (g : Group) :
    (g.muted loud).withoutEmpty = g.withoutEmpty.muted loud := by
  have hblocks : (g.blocks.mapValues (Block.muted loud)).filter (fun _ b => !b.isEmpty) =
      (g.blocks.filter fun _ b => !b.isEmpty).mapValues (Block.muted loud) :=
    Eq.symm (Table.mapValues_filter _ _ fun _ _ => rfl)
  unfold withoutEmpty muted
  simp only [hblocks, Table.contains_mapValues]

section Memory

lemma mutes_displace (g : Group) (base : Nat) (m : Memory σ) :
    Mutes loud (fun u => u) (g.displace base) ((g.muted loud).displace base) m := by
  unfold displace
  rw [find?_muted]
  cases g.blocks.find? base with
  | none => exact .pure () m
  | some b => exact b.mutes_giveBack m

/-- `Group.removeAll` does the same to `muted` blocks, with the switches muted. -/
lemma mutes_removeAll (name : String) (tracking : Tracking) (blocks : List Block)
    (m : Memory σ) :
    Mutes loud (fun u => u) (removeAll name tracking blocks)
      (removeAll name (tracking.muted loud) (blocks.map (Block.muted loud))) m := by
  induction blocks generalizing m with
  | nil => exact .pure () m
  | cons b rest ih =>
    rw [List.map_cons]
    unfold removeAll
    exact (Memory.mutes_noteIf rfl _ m).bind fun _ m₁ =>
      (b.mutes_giveBack m₁).bind fun _ m₂ => ih m₂

lemma mutes_giveBackAll (blocks : List Block) (m : Memory σ) :
    Mutes loud (fun u => u) (giveBackAll blocks)
      (giveBackAll (blocks.map (Block.muted loud))) m := by
  induction blocks generalizing m with
  | nil => exact .pure () m
  | cons b rest ih =>
    rw [List.map_cons]
    unfold giveBackAll
    exact (b.mutes_giveBack m).bind fun _ m₁ => ih m₁

lemma mutes_giveBack (g : Group) (m : Memory σ) :
    Mutes loud (fun u => u) g.giveBack (g.muted loud).giveBack m := by
  have hvalues : (g.muted loud).blocks.values = g.blocks.values.map (Block.muted loud) :=
    Table.values_mapValues ..
  unfold giveBack
  rw [hvalues]
  exact mutes_giveBackAll g.blocks.values m

/-- `Group.compact` does the same to a `muted` group, with the switches muted. -/
lemma mutes_compact (g : Group) (tracking : Tracking) (m : Memory σ) :
    Mutes loud (fun out => (out.1, out.2.muted loud)) (g.compact tracking)
      ((g.muted loud).compact (tracking.muted loud)) m := by
  have hbytes : total ((g.emptyBlocks.map (Block.muted loud)).map (·.capacity)) =
      total (g.emptyBlocks.map (·.capacity)) := by
    rw [List.map_map]
    rfl
  unfold compact
  rw [emptyBlocks_muted, withoutEmpty_muted, hbytes]
  exact (mutes_removeAll _ _ _ m).bind fun _ m' => .pure _ m'

variable [System σ]

/-- `Group.grow` does the same to a `muted` group: the new block is the same but for its
switches. -/
lemma mutes_grow (g : Group) (size : Nat) (tracking : Tracking) (m : Memory σ) :
    Mutes loud (fun out => (out.1, out.2.muted loud)) (g.grow size tracking)
      ((g.muted loud).grow size (tracking.muted loud)) m := by
  have hobtain : Mutes loud _ (Block.obtain (max size g.blockSize) g.alignment tracking) _ m :=
    Block.mutes_obtain _ _ tracking m
  have hmade := Block.obtain_made (promises_true σ) (max size g.blockSize) g.alignment tracking m
  unfold grow
  refine Mirrors.bind (Mirrors.and hobtain hmade) ?_
  rintro (reason | b) m₁ ⟨-, hmade⟩
  · exact ⟨rfl, trivial⟩
  · obtain ⟨hmade, base, rfl⟩ := hmade
    simp only [Except.map]
    rw [Block.allocate_muted hmade.ok]
    refine Mirrors.bind (Memory.mutes_settle _ _ m₁) ?_
    rintro ⟨answer, b⟩ m₂ -
    cases answer with
    | none => exact (b.mutes_giveBack m₂).bind fun _ m₃ => ⟨rfl, trivial⟩
    | some address =>
      refine (Memory.mutes_noteIf rfl _ m₂).bind fun _ m₃ => ?_
      refine (g.mutes_displace b.base m₃).bind fun _ m₄ => ?_
      have hadd : Mutes loud (fun out : Except AllocationError Nat × Group =>
          (out.1, out.2.muted loud)) (pure (.ok address, g.addBlock b))
            (pure (.ok address, (g.muted loud).addBlock (b.muted loud))) m₄ := by
        rw [← g.muted_addBlock b]
        exact .pure _ m₄
      exact hadd

/-- `Group.allocate` does the same to a `muted` group, with the switches muted. -/
lemma mutes_allocate (hg : g.BlocksOk) (size : Nat) (tracking : Tracking) (m : Memory σ) :
    Mutes loud (fun out => (out.1, out.2.muted loud)) (g.allocate size tracking)
      ((g.muted loud).allocate size (tracking.muted loud)) m := by
  unfold allocate
  rw [serve_muted hg]
  refine Mirrors.bind (Memory.mutes_settle _ _ m) ?_
  rintro ⟨answer, g'⟩ m₁ -
  cases answer with
  | none => exact g'.mutes_grow size tracking m₁
  | some address => exact ⟨rfl, trivial⟩

end Memory

end Group

end BlockPool
