import BlockPool.Memory.Basic
import BlockPool.Proofs.Effect

/-!
# What is written to the log

The log of a memory only grows. What an action adds to it says what the action had to do with the
world around it. An action that adds notices alone leaves the system and the live regions as they
are.
-/

namespace BlockPool

/-- An event that is `noted`: something is reported, and nothing else happens. -/
def Event.IsNotice (event : Event) : Prop := ∃ notice, event = .noted notice

namespace Memory

variable {σ : Type} {m m' m'' : Memory σ} {kind kind' : Event → Prop}

/-- From `m` to `m'` the log grows, by events of one kind alone. -/
def Writes (kind : Event → Prop) (m m' : Memory σ) : Prop :=
  ∃ events, m'.log = events ++ m.log ∧ ∀ event ∈ events, kind event

lemma Writes.refl (kind : Event → Prop) (m : Memory σ) : m.Writes kind m :=
  ⟨[], rfl, fun _ h => absurd h List.not_mem_nil⟩

/-- What `Writes` events of a kind twice writes events of that kind. -/
lemma Writes.trans (h : m.Writes kind m') (h' : m'.Writes kind m'') : m.Writes kind m'' := by
  obtain ⟨events, hlog, hkind⟩ := h
  obtain ⟨events', hlog', hkind'⟩ := h'
  refine ⟨events' ++ events, by rw [hlog', hlog, List.append_assoc], fun event hmem => ?_⟩
  rcases List.mem_append.1 hmem with hmem | hmem
  · exact hkind' event hmem
  · exact hkind event hmem

/-- Events of one kind are events of every wider kind. -/
lemma Writes.mono (h : m.Writes kind m') (hkind : ∀ event, kind event → kind' event) :
    m.Writes kind' m' := by
  obtain ⟨events, hlog, hall⟩ := h
  exact ⟨events, hlog, fun event hmem => hkind event (hall event hmem)⟩

/-- `record` writes its event. -/
lemma writes_record {event : Event} (h : kind event) (m : Memory σ) :
    Ends (record event) m fun _ m' => m.Writes kind m' :=
  ⟨[event], rfl, fun _ hmem => List.mem_singleton.1 hmem ▸ h⟩

/-- `release` writes one event, whatever status the return has. -/
lemma writes_release {named : Region} (h : ∀ status, kind (.released named status))
    (m : Memory σ) : Ends (release named) m fun _ m' => m.Writes kind m' :=
  ⟨[_], rfl, fun _ hmem => List.mem_singleton.1 hmem ▸ h _⟩

/-- `request` writes one event, which holds the answer. -/
lemma writes_request [System σ] (source : Source) (layout : Layout) (m : Memory σ) :
    Ends (request source layout) m fun answer m' =>
      m.Writes (· = .requested source layout answer) m' :=
  ⟨[_], rfl, fun _ hmem => List.mem_singleton.1 hmem⟩

/-! ## Notices alone -/

/-- The memory is the same but for events in the log that are `IsNotice`. -/
structure Quiet (m m' : Memory σ) : Prop where
  system : m'.system = m.system
  live : m'.live = m.live
  writes : m.Writes Event.IsNotice m'

lemma Quiet.refl (m : Memory σ) : m.Quiet m := ⟨rfl, rfl, .refl _ m⟩

lemma Quiet.trans (h : m.Quiet m') (h' : m'.Quiet m'') : m.Quiet m'' :=
  ⟨h'.system.trans h.system, h'.live.trans h.live, h.writes.trans h'.writes⟩

/-- `note` is `Quiet`. -/
lemma quiet_note (notice : Notice) (m : Memory σ) :
    Ends (note notice) m fun _ m' => m.Quiet m' :=
  ⟨rfl, rfl, writes_record ⟨notice, rfl⟩ m⟩

/-- A list of notices is `Quiet`, by induction on the list. -/
lemma quiet_noteAll (notices : List Notice) (m : Memory σ) :
    Ends (noteAll notices) m fun _ m' => m.Quiet m' := by
  induction notices generalizing m with
  | nil => exact Quiet.refl m
  | cons notice rest ih =>
    unfold noteAll
    exact (quiet_note notice m).bind fun _ m₁ h₁ => (ih m₁).mono fun _ _ h₂ => h₁.trans h₂

/-- A notice that depends on a switch is `Quiet` either way. -/
lemma quiet_noteIf (report : Bool) (notice : Notice) (m : Memory σ) :
    Ends (noteIf report notice) m fun _ m' => m.Quiet m' := by
  unfold noteIf
  split
  · exact quiet_note notice m
  · exact Quiet.refl m

/-- `settle` passes an `Outcome` on, and is `Quiet`: what the outcome reports is all there is of it
in the log. -/
lemma quiet_settle {state answer : Type} (o : Outcome state answer) (m : Memory σ) :
    Ends (settle o) m fun out m' => out = (o.answer, o.state) ∧ m.Quiet m' := by
  unfold settle
  exact (quiet_noteAll o.notices m).bind fun _ _ h => ⟨rfl, h⟩

/-! ## Events beside notices -/

/-- Apart from notices, the log `Writes` only events of a `kind`. -/
def Does (kind : Event → Prop) (m m' : Memory σ) : Prop :=
  m.Writes (fun event => event.IsNotice ∨ kind event) m'

/-- What `Does` events of a kind twice does events of that kind. -/
lemma Does.trans (h : m.Does kind m') (h' : m'.Does kind m'') : m.Does kind m'' :=
  Writes.trans h h'

lemma Does.mono (h : m.Does kind m') (hkind : ∀ event, kind event → kind' event) :
    m.Does kind' m' :=
  Writes.mono h fun event => Or.imp_right (hkind event)

/-- What is `Quiet` does events of no kind, and so of any. -/
lemma Quiet.does (h : m.Quiet m') (kind : Event → Prop) : m.Does kind m' :=
  h.writes.mono fun _ hnotice => .inl hnotice

lemma Writes.does (h : m.Writes kind m') : m.Does kind m' := h.mono fun _ hkind => .inr hkind

end Memory

end BlockPool
