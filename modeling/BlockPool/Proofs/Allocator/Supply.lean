import BlockPool.Proofs.Allocator.Descent
import BlockPool.Proofs.Memory
import BlockPool.Proofs.Past

/-!
# Where the memory of new blocks is from

A block that an allocator has after an action was there before, or the system handed out its memory
during the action. So once an allocator has no block, the log from then on names the memory of every
block that it gets.

Nothing is assumed about the system: it may refuse a request, and it may hand out memory twice.
-/

namespace BlockPool

/-! ## Memory that was handed out -/

namespace Memory

variable {σ : Type} {m m' m'' : Memory σ} {kind kind' : Event → Prop}

/-- Between `m` and `m'`, an event of a `kind` happens. -/
def Logs (kind : Event → Prop) (m m' : Memory σ) : Prop :=
  ∃ events, m'.log = events ++ m.log ∧ ∃ event ∈ events, kind event

/-- What `Logs` an event still does after further writes. -/
lemma Logs.later (h : m.Logs kind m') (h' : m'.Writes kind' m'') : m.Logs kind m'' := by
  obtain ⟨events, hlog, event, hmem, hkind⟩ := h
  obtain ⟨later, hlog', -⟩ := h'
  exact ⟨later ++ events, by rw [hlog', hlog, List.append_assoc], event,
    List.mem_append_right _ hmem, hkind⟩

/-- What `Logs` an event does so as seen from before. -/
lemma Logs.earlier (h : m'.Logs kind m'') (h' : m.Writes kind' m') : m.Logs kind m'' := by
  obtain ⟨events, hlog, event, hmem, hkind⟩ := h
  obtain ⟨earlier, hlog', -⟩ := h'
  exact ⟨events ++ earlier, by rw [hlog, hlog', List.append_assoc], event,
    List.mem_append_left _ hmem, hkind⟩

/-- Between `m` and `m'`, the system hands out a region, as `Event.obtained?` says. -/
abbrev Supplies (m m' : Memory σ) (r : Region) : Prop := m.Logs (r ∈ ·.obtained?) m'

/-- `request` that is granted `Supplies` its region. -/
lemma supplies_request [System σ] (source : Source) (layout : Layout) (m : Memory σ) :
    Ends (request source layout) m fun answer m' =>
      ∀ start, answer = some start → m.Supplies m' ⟨source, start, layout⟩ := by
  intro start hanswer
  refine ⟨[.requested source layout (some start)], ?_, _, List.mem_singleton_self _, rfl⟩
  rw [← hanswer]
  rfl

end Memory

/-! ## Blocks -/

namespace Block

variable {b b' : Block} {places places' : Region → Prop} {alignment : Nat}

/-- What was promised of the region of a `Made` block may be replaced by what is true of it. -/
lemma Made.of_placed (h : b.Made places alignment) (hplaced : places' b.region) :
    b.Made places' alignment :=
  ⟨h.alignment, h.power, h.layout, h.word, hplaced, h.books⟩

/-- `ComesFrom` for a weaker promise. -/
lemma ComesFrom.mono {key : Nat} {old : Option Block}
    (h : ComesFrom places alignment key old b') (hplaces : ∀ r, places r → places' r) :
    ComesFrom places' alignment key old b' :=
  h.imp_right fun h => ⟨h.1, h.2.of_placed (hplaces _ h.2.placed)⟩

/-- `obtain` makes a block in a region that the system `Supplies` meanwhile. -/
lemma obtain_supplied {σ : Type} [System σ] (capacity alignment : Nat) (tracking : Tracking)
    (m : Memory σ) :
    Ends (obtain capacity alignment tracking) m fun answer m' =>
      ∀ b, answer = .ok b → m.Supplies m' b.region := by
  unfold obtain
  simp only
  split
  · exact fun b (hb : Except.error _ = .ok b) => absurd hb (by simp)
  · split
    · exact fun b (hb : Except.error _ = .ok b) => absurd hb (by simp)
    · refine (Memory.supplies_request _ _ m).bind fun answer m₁ h₁ => ?_
      cases answer with
      | none => exact fun b (hb : Except.error _ = .ok b) => absurd hb (by simp)
      | some base =>
        refine (Memory.quiet_noteIf _ _ m₁).bind fun _ m₂ hquiet => ?_
        intro b hb
        obtain rfl := Except.ok.inj hb
        exact (h₁ base rfl).later hquiet.writes

end Block

/-! ## Groups -/

namespace Group

variable {σ : Type} [System σ] {g g' : Group} {places places' : Region → Prop}

omit [System σ] in
lemma Inherits.mono (h : g.Inherits places g') (hplaces : ∀ r, places r → places' r) :
    g.Inherits places' g' := fun key b' hb' => (h key b' hb').mono hplaces

/-- `grow` makes a block in a region that the system `Supplies` meanwhile. -/
lemma grow_supplied (g : Group) (size : Nat) (tracking : Tracking) (m : Memory σ) :
    Ends (g.grow size tracking) m fun out m' =>
      g.Answering (m.Supplies m') size tracking out.1 out.2 := by
  -- what follows on the request for the memory only writes to the log
  have hsupplied : Ends (g.grow size tracking) m fun out m' => ∀ base, out.1 = .ok base →
      m.Supplies m' (g.newBlock size base tracking).region := by
    unfold grow
    have hobtain := (Block.obtain_made (promises_true σ) (max size g.blockSize) g.alignment
      tracking m).and (Block.obtain_supplied _ _ _ m)
    refine hobtain.bind ?_
    rintro (reason | b) m₁ ⟨hmade, hsupplied⟩
    · exact fun base (hbase : Except.error reason = .ok base) => absurd hbase (by simp)
    · obtain ⟨hmade, base, rfl⟩ := hmade
      have hanswer := Block.allocate_fresh hmade (Nat.le_max_left size g.blockSize)
      refine ((Memory.ends_settle m₁ _).and ((Memory.plain_settle _).oblivious.writes m₁)).bind ?_
      rintro ⟨answer, b⟩ m₂ ⟨hout, hsettle⟩
      obtain ⟨rfl, rfl⟩ := Prod.mk.inj hout
      simp only [hanswer]
      refine (Memory.quiet_noteIf _ _ m₂).bind fun _ m₃ hquiet => ?_
      refine ((g.plain_displace _).oblivious.writes m₃).bind fun _ m₄ hdisplace => ?_
      intro base' hbase
      obtain rfl := Except.ok.inj hbase
      exact (((hsupplied _ rfl).later hsettle).later hquiet.writes).later hdisplace
  refine ((grow_made (promises_true σ) g size tracking m).and hsupplied).mono ?_
  rintro _ m' ⟨⟨reason, rfl⟩ | ⟨base, hmade, hanswer, rfl⟩, hsupplied⟩
  · exact .failed reason
  · exact .new (hmade.of_placed (hsupplied base rfl)) hanswer

/-- `allocate` makes blocks only in regions that the system `Supplies` meanwhile. -/
lemma allocate_supplied (g : Group) (size : Nat) (tracking : Tracking) (m : Memory σ) :
    Ends (g.allocate size tracking) m fun out m' =>
      g.Inherits (m.Supplies m') out.2 ∧ out.2.alignment = g.alignment := by
  unfold allocate
  refine ((Memory.ends_settle m _).and ((Memory.plain_settle _).oblivious.writes m)).bind ?_
  rintro ⟨answer, g'⟩ m₁ ⟨hout, hsettle⟩
  obtain ⟨rfl, rfl⟩ := Prod.mk.inj hout
  unfold serve
  -- either all blocks are full and the group grows, or a block that was there serves
  rcases g.serveFrom_cases size g.searchOrder with ⟨hanswer, hstate⟩ |
    ⟨base, b, address, hfind, hserved, hanswer, hstate⟩
  · rw [hanswer, hstate]
    refine (g.grow_supplied size tracking m₁).mono fun out m' h => ?_
    exact ⟨h.inherits.mono fun _ hr => hr.earlier hsettle, h.alignment_eq⟩
  · rw [hanswer, hstate]
    exact ⟨inherits_replace hfind (b.becomes_allocate size) rfl, rfl⟩

end Group

/-! ## Allocators -/

namespace Allocator

variable {σ : Type} [System σ] {a a' : Allocator} {places places' : Region → Prop}

omit [System σ] in
lemma Inherits.mono (h : a.Inherits places a') (hplaces : ∀ r, places r → places' r) :
    a.Inherits places' a' := fun affinity key b' hb' => (h affinity key b' hb').mono hplaces

omit [System σ] in
/-- An address that `a.owns` lies in the region of a block. -/
lemma exists_block_of_owns {address : Nat} (h : a.owns address = true) :
    ∃ affinity key b, a.block? affinity key = some b ∧ b.region.Contains address := by
  obtain ⟨⟨affinity, g⟩, howner⟩ := Option.isSome_iff_exists.1 h
  obtain ⟨hfind, howns⟩ := find?_of_owner? howner
  obtain ⟨⟨key, b⟩, hb⟩ := Option.isSome_iff_exists.1 howns
  obtain ⟨hblock, hcontains⟩ := Group.find?_of_owner? hb
  exact ⟨affinity, key, b, (block?_of_find? hfind key).trans hblock, of_decide_eq_true hcontains⟩

/-- `allocatePooled` makes blocks only in regions that the system `Supplies` meanwhile. -/
lemma allocatePooled_supplied (a : Allocator) (size : Nat) (affinity : Affinity)
    (m : Memory σ) :
    Ends (a.allocatePooled size affinity) m fun out m' => a.Inherits (m.Supplies m') out.2 := by
  -- memory that is handed out in the middle is handed out from the start to the end
  have hbetween : ∀ {m₁ m₂ m₃ : Memory σ} {kind kind' : Event → Prop}, m.Writes kind m₁ →
      m₂.Writes kind' m₃ → ∀ r, m₁.Supplies m₂ r → m.Supplies m₃ r :=
    fun h h' _ hr => (hr.earlier h).later h'
  unfold allocatePooled
  have hensure := (a.plain_ensureGroup affinity).oblivious.writes m
  have hgroup : Ends (a.ensureGroup affinity) m fun out _ =>
      a.Continues (fun _ => False) out.2 ∧ out.2.groups.find? affinity = some out.1 :=
    continues_ensureGroup m _ a affinity
  refine (hgroup.and hensure).bind ?_
  rintro ⟨g, a₁⟩ m₁ ⟨⟨hensured, hfind⟩, hwrites⟩
  refine (g.allocate_supplied size a₁.tracking m₁).bind ?_
  rintro ⟨answer, g'⟩ m₂ ⟨hinherits, halignment⟩
  have hend : ∀ m₃, m₂.Quiet m₃ →
      a.Inherits (m.Supplies m₃) (a₁.setGroup affinity g') := by
    intro m₃ hquiet
    have hcontinues : a.Continues (m.Supplies m₃) a₁ :=
      ⟨hensured.alignment, hensured.blocks.mono fun _ => False.elim⟩
    exact hcontinues.inherits (inherits_setGroup hfind
      (hinherits.mono (hbetween hwrites hquiet.writes)))
  cases answer with
  | ok address => exact (Memory.quiet_noteIf _ _ m₂).bind fun _ m₃ hquiet => hend m₃ hquiet
  | error reason => exact (Memory.quiet_note _ m₂).bind fun _ m₃ hquiet => hend m₃ hquiet

end Allocator

end BlockPool
