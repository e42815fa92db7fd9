import BlockPool.Heap
import BlockPool.Proofs.Effect
import Mathlib.Data.Multiset.AddSub
import Mathlib.Data.Multiset.MapFold
import Mathlib.Tactic.Common

/-!
# The account of a memory

A memory keeps some regions if these are the live ones, no two of them overlap, and its log adds
up: all that came from the system is live or went back, and whatever went back was live at that
time and went back the right way.

A collection of regions is a multiset, since the order in which they came does not matter but how
often one occurs does: a region that is kept twice would go back twice.
-/

namespace BlockPool

/-! ## Regions that come and go -/

/-- The region that came from the system with an event: that of a request which was granted. -/
def Event.obtained? : Event → Option Region
  | .requested source layout (some start) => some ⟨source, start, layout⟩
  | _ => none

/-- The region that went back to the system with an event: the one that was `released`. -/
def Event.returned? : Event → Option Region
  | .released named _ => some named
  | _ => none

/-- The regions that came from the system in a log, as often as `Event.obtained?` says. -/
def obtained (log : List Event) : Multiset Region := log.filterMap Event.obtained?

/-- The regions that went back to the system in a log, as often as `Event.returned?` says. -/
def returned (log : List Event) : Multiset Region := log.filterMap Event.returned?

/-- `obtained` of two logs in a row is the sum of both. -/
lemma obtained_append (log log' : List Event) :
    obtained (log ++ log') = obtained log + obtained log' := by
  unfold obtained
  rw [List.filterMap_append, Multiset.coe_add]

/-- `returned` of two logs in a row is the sum of both. -/
lemma returned_append (log log' : List Event) :
    returned (log ++ log') = returned log + returned log' := by
  unfold returned
  rw [List.filterMap_append, Multiset.coe_add]

/-- A region that is not empty and stops below `Word.limit`. -/
structure Region.Proper (r : Region) : Prop where
  start_pos : 0 < r.start
  size_pos : 0 < r.layout.size
  stop_lt : r.stop < Word.limit

instance : Std.Symm Region.Disjoint := ⟨fun _ _ => Region.disjoint_comm.1⟩

/-- Of regions that are pairwise `Disjoint`, any two are. -/
lemma Region.disjoint_of_pairwise {regions rest : Multiset Region} {r s : Region}
    (h : regions.Pairwise Region.Disjoint) (heq : regions = r ::ₘ s ::ₘ rest) : r.Disjoint s := by
  obtain ⟨others, rfl⟩ := Quot.exists_rep rest
  subst heq
  have hpair : (r :: s :: others).Pairwise Region.Disjoint :=
    Multiset.pairwise_coe_iff_pairwise.1 h
  exact (List.pairwise_cons.1 hpair).1 s (List.mem_cons_self ..)

/-- A part of regions that are pairwise `Disjoint` is so too. -/
lemma Region.pairwise_of_add {regions others : Multiset Region}
    (h : (regions + others).Pairwise Region.Disjoint) : regions.Pairwise Region.Disjoint := by
  obtain ⟨l, rfl⟩ := Quot.exists_rep regions
  obtain ⟨l', rfl⟩ := Quot.exists_rep others
  have hpair : (l ++ l').Pairwise Region.Disjoint := Multiset.pairwise_coe_iff_pairwise.1 h
  exact ⟨l, rfl, (List.pairwise_append.1 hpair).1⟩

/-- A layout that `IsValid` leaves room for the offset at which the last slot of a region may
stop. -/
lemma Layout.IsValid.size_lt {l : Layout} (h : l.IsValid) : l.size < Word.limit := by
  have hle := h.2
  unfold sizeLimit at hle
  unfold Word.limit
  omega

namespace Memory

variable {σ : Type} {m : Memory σ} {held : Multiset Region}

/-- The live regions are the ones `held`: they are apart and `Proper`, and `obtained` and `returned`
of the log account for them. -/
structure Keeps (m : Memory σ) (held : Multiset Region) : Prop where
  live : (m.live : Multiset Region) = held
  apart : m.live.Pairwise Region.Disjoint
  proper : ∀ r ∈ held, r.Proper
  /-- Whatever went back was live, and went back the right way. -/
  received : ∀ named status, .released named status ∈ m.log → status = .ok
  /-- Whatever came is live or went back. -/
  balanced : obtained m.log = returned m.log + held

/-- A memory without live regions `Keeps` nothing. -/
lemma keeps_new (system : σ) : (Memory.mk system [] []).Keeps 0 where
  live := rfl
  apart := List.Pairwise.nil
  proper r hr := absurd hr (Multiset.notMem_zero r)
  received _ _ h := absurd h List.not_mem_nil
  balanced := rfl

/-- What a memory `Keeps` is what is `live`. -/
lemma Keeps.mem_live (h : m.Keeps held) {r : Region} : r ∈ m.live ↔ r ∈ held := by
  rw [← h.live, Multiset.mem_coe]

/-- Two regions that a memory `Keeps` are `Disjoint`, even if they are the same one held twice. -/
lemma Keeps.disjoint (h : m.Keeps held) {r s : Region} {rest : Multiset Region}
    (hheld : held = r ::ₘ s ::ₘ rest) : r.Disjoint s := by
  refine Region.disjoint_of_pairwise ?_ hheld
  rw [← h.live]
  exact ⟨m.live, rfl, h.apart⟩

/-! ## Events without memory -/

/-- An event that neither brings nor takes a region leaves what a memory `Keeps`. -/
lemma keeps_record (h : m.Keeps held) {event : Event} (hobtained : event.obtained? = none)
    (hreturned : event.returned? = none) :
    Ends (record event) m fun _ m' => m'.Keeps held := by
  show Keeps { m with log := event :: m.log } held
  refine ⟨h.live, h.apart, h.proper, ?_, ?_⟩
  · intro named status hmem
    rcases List.mem_cons.1 hmem with heq | hmem
    · rw [← heq] at hreturned
      exact absurd hreturned (by simp [Event.returned?])
    · exact h.received named status hmem
  · unfold obtained returned
    rw [List.filterMap_cons_none hobtained, List.filterMap_cons_none hreturned]
    exact h.balanced

lemma keeps_note (h : m.Keeps held) (notice : Notice) :
    Ends (note notice) m fun _ m' => m'.Keeps held :=
  keeps_record h rfl rfl

/-- Notices leave what a memory `Keeps`, by induction on their list. -/
lemma keeps_noteAll (h : m.Keeps held) (notices : List Notice) :
    Ends (noteAll notices) m fun _ m' => m'.Keeps held := by
  induction notices generalizing m with
  | nil => exact h
  | cons notice rest ih =>
    unfold noteAll
    exact (keeps_note h notice).bind fun _ _ h' => ih h'

lemma keeps_noteIf (h : m.Keeps held) (report : Bool) (notice : Notice) :
    Ends (noteIf report notice) m fun _ m' => m'.Keeps held := by
  unfold noteIf
  split
  · exact keeps_note h notice
  · exact h

lemma ends_settle {state answer : Type} (m : Memory σ) (o : Outcome state answer) :
    Ends (settle o) m fun out _ => out = (o.answer, o.state) := by
  unfold settle
  exact Ends.trivial.bind fun _ _ _ => rfl

/-- `settle` passes answer and state of an `Outcome` on, and leaves what a memory `Keeps`. -/
lemma keeps_settle {state answer : Type} (h : m.Keeps held) (o : Outcome state answer) :
    Ends (settle o) m fun out m' => out = (o.answer, o.state) ∧ m'.Keeps held := by
  unfold settle
  exact (keeps_noteAll h o.notices).bind fun _ _ h' => ⟨rfl, h'⟩

/-! ## Requests and returns -/

/-- A lawful system answers a `request` with a region that is apart from all that the memory
`Keeps`. -/
theorem keeps_request [System σ] [LawfulSystem σ] (h : m.Keeps held) (source : Source)
    {layout : Layout} (hsize : 0 < layout.size) :
    Ends (request source layout) m fun answer m' => match answer with
      | none => m'.Keeps held
      | some start =>
        m'.Keeps (⟨source, start, layout⟩ ::ₘ held) ∧ start % layout.alignment = 0 := by
  unfold Ends request
  rcases hplace : System.place m.system m.live source layout with ⟨_ | start, system⟩
  · -- a refusal is logged, and no region comes or goes
    exact {
      live := h.live
      apart := h.apart
      proper := h.proper
      received := fun named status hmem => by
        rcases List.mem_cons.1 hmem with heq | hmem
        · exact Event.noConfusion heq
        · exact h.received named status hmem
      balanced := h.balanced }
  · obtain ⟨hpos, halign, hlimit, hfresh⟩ := LawfulSystem.place_lawful hplace
    refine ⟨⟨?_, List.pairwise_cons.2 ⟨hfresh, h.apart⟩, ?_, ?_, ?_⟩, halign⟩
    · show ((⟨source, start, layout⟩ :: m.live : List Region) : Multiset Region) = _
      rw [← Multiset.cons_coe, h.live]
    · intro r hr
      rcases Multiset.mem_cons.1 hr with rfl | hr
      · exact ⟨hpos, hsize, hlimit⟩
      · exact h.proper r hr
    · intro named status hmem
      rcases List.mem_cons.1 hmem with heq | hmem
      · exact Event.noConfusion heq
      · exact h.received named status hmem
    · show (⟨source, start, layout⟩ : Region) ::ₘ obtained m.log = _
      rw [h.balanced, Multiset.add_cons]
      rfl

/-- Of live regions, which are `Disjoint` and not empty, one is found by its address. -/
lemma find?_live {live : List Region} (happart : live.Pairwise Region.Disjoint)
    (hsize : ∀ r ∈ live, 0 < r.layout.size) {named : Region} (hmem : named ∈ live) :
    live.find? (·.start = named.start) = some named ∧
      live.eraseP (·.start = named.start) = live.erase named := by
  induction live with
  | nil => exact absurd hmem List.not_mem_nil
  | cons r rest ih =>
    obtain ⟨hhead, htail⟩ := List.pairwise_cons.1 happart
    by_cases heq : r = named
    · subst heq
      simp
    · have hrest : named ∈ rest := (List.mem_cons.1 hmem).resolve_left (Ne.symm heq)
      have hne : r.start ≠ named.start := by
        intro hstart
        -- neither region is empty, so they would overlap in their first byte
        have hdisjoint := hhead named hrest
        have hr := hsize r (List.mem_cons_self ..)
        have hnamed := hsize named hmem
        unfold Region.Disjoint Region.stop at hdisjoint
        omega
      obtain ⟨hfind, herase⟩ := ih htail (fun s hs => hsize s (List.mem_cons_of_mem _ hs)) hrest
      constructor
      · rw [List.find?_cons_of_neg (by simpa using hne), hfind]
      · rw [List.eraseP_cons_of_neg (by simpa using hne), herase,
          List.erase_cons_tail (by simpa using heq)]

/-- A region that a memory `Keeps` can be given to `release`, and then all others are kept. -/
theorem keeps_release {r : Region} (h : m.Keeps (r ::ₘ held)) :
    Ends (release r) m fun _ m' => m'.Keeps held := by
  have hmem : r ∈ m.live := h.mem_live.2 (Multiset.mem_cons_self r held)
  have hsize : ∀ s ∈ m.live, 0 < s.layout.size :=
    fun s hs => (h.proper s (h.mem_live.1 hs)).size_pos
  obtain ⟨hfind, herase⟩ := find?_live h.apart hsize hmem
  have hstatus : statusOf m.live r = .ok := by
    have hmatches : r.Matches r := ⟨rfl, .inr rfl⟩
    unfold statusOf
    rw [hfind]
    simp [hmatches]
  have hrest : ((m.live.erase r : List Region) : Multiset Region) = held := by
    rw [← Multiset.coe_erase, h.live, Multiset.erase_cons_head]
  unfold Ends release
  rw [hstatus, herase]
  -- the region leaves the live ones and what is held, and what was returned gains it
  refine ⟨hrest, h.apart.sublist List.erase_sublist, ?_, ?_, ?_⟩
  · intro s hs
    exact h.proper s (Multiset.mem_cons_of_mem hs)
  · intro named status hevent
    rcases List.mem_cons.1 hevent with heq | hevent
    · exact (Event.released.inj heq).2
    · exact h.received named status hevent
  · show obtained m.log = (r ::ₘ returned m.log) + held
    rw [h.balanced, Multiset.add_cons, Multiset.cons_add]

/-- Whatever layout is named, `release` takes the region that starts there. With a log that names
the layout of that region, the memory `Keeps` all others. -/
lemma keeps_release_at {r : Region} (h : m.Keeps (r ::ₘ held)) {named : Region}
    (hstart : named.start = r.start) :
    Ends (release named) m fun _ m' => ∃ log, ({ m' with log } : Memory σ).Keeps held := by
  have hrelease : (release r m).2.Keeps held := keeps_release h
  refine ⟨(release r m).2.log, ?_⟩
  have hsame : { (release named m).2 with log := (release r m).2.log } = (release r m).2 := by
    unfold release
    simp only [hstart]
  rwa [hsame]

end Memory

/-! ## Heaps -/

namespace Heap

variable {σ : Type} {m : Memory σ} {held : Multiset Region}

/-- A heap takes back only what it could have handed out: sized memory needs a layout that
`IsValid`. -/
def Accepts (h : Heap) (size : Nat) : Prop := h.source = .sized → (h.layoutFor size).IsValid

/-- The layout that a heap asks for has at least one byte. -/
lemma layoutFor_size (h : Heap) (size : Nat) : (h.layoutFor size).size = max size 1 := by
  unfold layoutFor
  split <;> rfl

/-- A heap answers with the address of a region of its own, which the memory then `Keeps`, or with
nothing. -/
theorem allocate_spec [System σ] [LawfulSystem σ] (hm : m.Keeps held) (h : Heap) (size : Nat) :
    Ends (h.allocate size) m fun answer m' => match answer with
      | none => m'.Keeps held
      | some address => m'.Keeps (h.regionAt address size ::ₘ held) ∧ h.Accepts size := by
  have hsize : 0 < (h.layoutFor size).size := by
    rw [layoutFor_size]
    omega
  unfold allocate regionAt Accepts
  split
  · rename_i hsource
    split
    · rename_i hvalid
      refine (Memory.keeps_request hm .sized hsize).mono ?_
      rintro (_ | address) m' h'
      · exact h'
      · rw [hsource]
        exact ⟨h'.1, fun _ => hvalid⟩
    · exact hm
  · rename_i hsource
    refine (Memory.keeps_request hm .unsized hsize).bind ?_
    rintro (_ | address) m₁ h₁
    · exact h₁
    · simp only
      split
      · rw [hsource]
        exact ⟨h₁.1, fun hsized => Source.noConfusion hsized⟩
      · rw [hsource]
        -- memory with too small an alignment goes back at once
        refine (Memory.keeps_note h₁.1 _).bind fun _ m₂ h₂ => ?_
        exact (Memory.keeps_release h₂).bind fun _ _ h₃ => h₃

/-- A heap hands out only sizes that it `Accepts`, whatever the system answers. -/
lemma accepts_of_allocate [System σ] (h : Heap) (size : Nat) (m : Memory σ) :
    Ends (h.allocate size) m fun answer _ => ∀ address, answer = some address → h.Accepts size := by
  unfold allocate Accepts
  split
  · split
    · rename_i hvalid
      exact Ends.trivial.mono fun _ _ _ _ _ _ => hvalid
    · exact fun address hanswer => absurd hanswer (Option.some_ne_none address).symm
  · rename_i hsource
    refine Ends.trivial.mono fun _ _ _ _ _ hsized => ?_
    rw [hsource] at hsized
    exact Source.noConfusion hsized

/-- Every address is taken with a size that a heap `Accepts`, wherever it is from. -/
lemma deallocate_taken {h : Heap} {size : Nat} (haccepts : h.Accepts size) (address : Nat)
    (m : Memory σ) : Ends (h.deallocate address size) m fun taken _ => taken = true := by
  have hvalid : ¬ (h.source = .sized ∧ ¬ (h.layoutFor size).IsValid) :=
    fun hnot => hnot.2 (haccepts hnot.1)
  unfold deallocate
  rw [if_neg hvalid]
  exact Ends.trivial.bind fun _ _ _ => rfl

/-- A heap takes the region at `regionAt` back, and the memory `Keeps` the rest. -/
theorem deallocate_spec [System σ] {h : Heap} {address size : Nat}
    (hm : m.Keeps (h.regionAt address size ::ₘ held)) (haccepts : h.Accepts size) :
    Ends (h.deallocate address size) m fun answer m' => answer = true ∧ m'.Keeps held := by
  have hvalid : ¬ (h.source = .sized ∧ ¬ (h.layoutFor size).IsValid) :=
    fun hnot => hnot.2 (haccepts hnot.1)
  unfold deallocate
  rw [if_neg hvalid]
  exact (Memory.keeps_release hm).bind fun _ _ h' => ⟨rfl, h'⟩

end Heap

end BlockPool
