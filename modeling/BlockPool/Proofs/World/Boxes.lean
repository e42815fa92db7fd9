import BlockPool.Proofs.World.Failure
import BlockPool.Proofs.World.Values

/-!
# Boxes and other allocations

Users of a world may make boxes, put other values into them, drop them and take values out of them,
and besides request and return memory themselves. A box is an allocation that returns itself, so the
account of what is outstanding holds the boxes that are there next to the allocations of users, and
whatever happens to one of them the others stay as they are.

Main statement: at any time, boxes are where their values may be, nothing that is outstanding
overlaps, all memory in use is outstanding, every value handed over was destroyed once or is in a
box, a box that goes takes its slot with it, and a box that cannot be made leaves no memory in use.
-/

namespace BlockPool

/-- The addresses of a region. -/
def Region.extent (r : Region) : Extent := ⟨r.start, r.layout.size⟩

namespace World

variable {σ : Type} {w w' w'' : World σ} {ledger raw : List Grant} {handed : Multiset Value}
  {parcels : Multiset Parcel} {homes : Multiset (Grant × Home)}

/-! ## Memory in use -/

/-- The memory in use: `w.slots` of all blocks, and the live regions that are not `w.regions`. -/
def used (w : World σ) : Multiset Extent :=
  w.slots.map Prod.snd + ((w.memory.live : Multiset Region) - w.regions).map Region.extent

/-- All of `w.used` belongs to the parcels that a world `Keeps`. -/
lemma Keeps.used_eq (h : w.Keeps parcels) : w.used = parcels.map Parcel.extent := by
  have hregions : (w.memory.live : Multiset Region) - w.regions = parcels.bind Parcel.regions := by
    rw [h.memory.live, Multiset.add_comm, Multiset.add_sub_cancel_right]
  unfold used
  rw [hregions, h.slots]
  clear h hregions
  -- a parcel of a pool has a slot, and a parcel of a heap has a region of the same extent
  induction parcels using Multiset.induction with
  | empty => rfl
  | cons x rest ih =>
    rw [Multiset.map_cons, ← ih]
    obtain ⟨k | heap, address, size⟩ := x
    · rw [Parcel.bind_slots_pool, Parcel.bind_regions_pool, Multiset.map_cons, Multiset.cons_add]
      rfl
    · have hextent : (heap.regionAt address size).extent = ⟨address, Tracker.slotSize size⟩ :=
        congrArg (Extent.mk address) (heap.layoutFor_size size)
      rw [Parcel.bind_slots_heap, Parcel.bind_regions_heap, Multiset.map_cons, Multiset.add_cons,
        hextent]
      rfl

/-- All of `w.used` belongs to the grants of a ledger that `Accounts` for it. -/
lemma Accounts.used_eq (h : w.Accounts ledger homes) :
    w.used = ((ledger.map Grant.extent : List Extent) : Multiset Extent) :=
  h.keeps.used_eq.trans h.extents_eq

/-- `Accounts` does not depend on the order of the ledger. -/
lemma Accounts.congr (h : w.Accounts ledger homes) {ledger' : List Grant}
    (hledger : (ledger' : Multiset Grant) = (ledger : Multiset Grant)) :
    w.Accounts ledger' homes :=
  ⟨h.ledger_eq.trans hledger.symm, h.keeps, h.closed, h.reaches⟩

/-! ## Actions without memory -/

/-- The allocators are the same, and the memory `Keeps` what it kept. -/
def LeavesMemory (w w' : World σ) : Prop :=
  w'.allocators = w.allocators ∧ ∀ held, w.memory.Keeps held → w'.memory.Keeps held

lemma leavesMemory_destroy (value : Value) (w : World σ) :
    Ends (destroy value) w fun _ w' => w.LeavesMemory w' :=
  ⟨rfl, fun _ h => Memory.keeps_record h rfl rfl⟩

lemma leavesMemory_movedOut (w : World σ) :
    Ends (onMemory (Memory.record .movedOut)) w fun _ w' => w.LeavesMemory w' :=
  ⟨rfl, fun _ h => Memory.keeps_record h rfl rfl⟩

lemma leavesMemory_setBoxed (index : Nat) (x : Option Boxed) (w : World σ) :
    Ends (setBoxed index x) w fun _ w' => w.LeavesMemory w' := ⟨rfl, fun _ h => h⟩

lemma leavesMemory_pushBoxed (x : Option Boxed) (w : World σ) :
    Ends (pushBoxed x) w fun _ w' => w.LeavesMemory w' := ⟨rfl, fun _ h => h⟩

lemma leavesMemory_replaceBoxed (index : Nat) (value : Value) (w : World σ) :
    Ends (replaceBoxed index value) w fun _ w' => w.LeavesMemory w' := by
  unfold replaceBoxed
  apply Ends.get_bind
  split
  · exact ⟨rfl, fun _ h => h⟩
  · rename_i b hb
    exact leavesMemory_destroy b.value w

lemma LeavesMemory.plan_eq (h : w.LeavesMemory w') : w'.plan = w.plan := by
  unfold plan
  rw [h.1]

/-- `Keeps` survives an action that `LeavesMemory`. -/
lemma LeavesMemory.keeps (h : w.LeavesMemory w') (hkeeps : w.Keeps parcels) :
    w'.Keeps parcels := by
  obtain ⟨memory, allocators, boxes⟩ := w
  obtain ⟨memory', allocators', boxes'⟩ := w'
  obtain ⟨rfl, hmemory⟩ := h
  exact ⟨hkeeps.ok, hmemory _ hkeeps.memory, hkeeps.slots, hkeeps.accepted⟩

lemma LeavesMemory.gains (h : w'.LeavesMemory w'') {size : Nat} {source : Home → Prop}
    {answer : Option Nat} (hgains : w.Gains parcels size source answer w') :
    w.Gains parcels size source answer w'' := by
  obtain ⟨hplan, hanswer⟩ := hgains
  refine ⟨h.plan_eq.trans hplan, ?_⟩
  cases answer with
  | none => exact h.keeps hanswer
  | some address =>
    obtain ⟨home, hhome, hkeeps⟩ := hanswer
    exact ⟨home, hhome, h.keeps hkeeps⟩

/-- `Accounts` survives an action that `LeavesMemory`. -/
theorem LeavesMemory.accounts (h : w.LeavesMemory w') (haccounts : w.Accounts ledger homes) :
    w'.Accounts ledger homes :=
  haccounts.of_keeps h.plan_eq (h.keeps haccounts.keeps)

/-! ## Making boxes -/

section Boxes

variable [System σ] [LawfulSystem σ]

/-- `boxMemory` gains a parcel at a multiple of `layout.alignment`. What has it not goes back where
it came from. -/
lemma Keeps.boxMemory (h : w.Keeps parcels) (hclosed : w.plan.Closed) (id : Nat) (a : Allocator)
    (layout : Layout) (affinity : Affinity) :
    Ends (World.boxMemory id a layout affinity) w fun answer w' =>
      w.Gains parcels layout.size (w.plan.Reaches id .full) answer.toOption w' ∧
        ∀ address, answer = .ok address → layout.alignment ∣ address := by
  unfold World.boxMemory
  simp only
  split
  · exact ⟨⟨rfl, h⟩, fun _ heq => nomatch heq⟩
  · refine (h.allocate hclosed id .full layout.size affinity).bind fun answer w₁ hgains => ?_
    rcases answer with _ | reason | address
    · exact ⟨hgains, fun _ heq => nomatch heq⟩
    · exact ⟨hgains, fun _ heq => nomatch heq⟩
    · simp only
      split
      · rename_i haligned
        refine ⟨hgains, fun address' heq => ?_⟩
        rw [← Except.ok.inj heq]
        exact Nat.dvd_of_mod_eq_zero haligned
      · obtain ⟨hplan, home, hreach, h₁⟩ := hgains
        refine (h₁.deallocate (hplan ▸ hclosed) (hplan ▸ hreach)).bind ?_
        rintro _ w₂ ⟨-, hplan₂, h₂⟩
        exact ⟨⟨hplan₂.trans hplan, h₂⟩, fun _ heq => nomatch heq⟩

/-- `newBoxed` gains a parcel for a box that it makes, and none otherwise. -/
lemma Keeps.newBoxed (h : w.Keeps parcels) (hclosed : w.plan.Closed) (id : Nat)
    (layout : Layout) (value : Value) (affinity : Affinity) :
    Ends (World.newBoxed id layout value affinity) w fun answer w' =>
      w.Gains parcels layout.size (w.plan.Reaches id .full) (answer.bind Except.toOption) w' ∧
        ∀ address, answer = some (.ok address) → layout.alignment ∣ address := by
  unfold World.newBoxed
  apply Ends.get_bind
  split
  · exact ⟨⟨rfl, h⟩, fun _ heq => nomatch heq⟩
  · rename_i a ha
    refine (h.boxMemory hclosed id a layout affinity).bind fun answer w₁ ⟨hgains, haligned⟩ => ?_
    cases answer with
    | ok address =>
      refine (leavesMemory_pushBoxed _ w₁).bind fun _ w₂ h₂ => ⟨h₂.gains hgains, ?_⟩
      exact fun address' heq => haligned address' (Option.some.inj heq)
    | error reason =>
      refine (leavesMemory_destroy value w₁).bind fun _ w₂ h₂ => ?_
      refine (leavesMemory_pushBoxed none w₂).bind fun _ w₃ h₃ => ⟨h₃.gains (h₂.gains hgains), ?_⟩
      exact fun _ heq => nomatch heq

/-! ## Boxes that go -/

/-- `returnBoxed` takes the grant of a box out of the ledger. -/
lemma Accounts.returnBoxed (h : w.Accounts ledger homes) {b : Boxed} (hb : grantOf b ∈ ledger) :
    Ends (World.returnBoxed b) w fun _ w' =>
      ∃ homes', w'.Accounts (ledger.erase (grantOf b)) homes' :=
  (h.returns hb).bind fun _ _ h' => h'.2

/-- `dropBoxed` takes the grant of the box out of the ledger, if there is one of that number. -/
lemma Accounts.dropBoxed (h : w.Accounts ledger homes) (index : Nat)
    (hmem : ∀ b, w.boxed? index = some b → grantOf b ∈ ledger) :
    Ends (World.dropBoxed index) w fun _ w' => ∃ homes', w'.Accounts
      ((w.boxed? index).elim ledger fun b => ledger.erase (grantOf b)) homes' := by
  unfold World.dropBoxed
  apply Ends.get_bind
  split
  · rename_i hnone
    rw [hnone]
    exact ⟨homes, h⟩
  · rename_i b hb
    rw [hb]
    refine (leavesMemory_setBoxed index none w).bind fun _ w₁ h₁ => ?_
    refine (leavesMemory_destroy b.value w₁).bind fun _ w₂ h₂ => ?_
    exact ((h₂.accounts (h₁.accounts h)).returnBoxed (hmem b hb)).bind fun _ _ h₃ => h₃

lemma Accounts.unbox (h : w.Accounts ledger homes) (index : Nat)
    (hmem : ∀ b, w.boxed? index = some b → grantOf b ∈ ledger) :
    Ends (World.unbox index) w fun _ w' => ∃ homes', w'.Accounts
      ((w.boxed? index).elim ledger fun b => ledger.erase (grantOf b)) homes' := by
  unfold World.unbox
  apply Ends.get_bind
  split
  · rename_i hnone
    rw [hnone]
    exact ⟨homes, h⟩
  · rename_i b hb
    rw [hb]
    refine (leavesMemory_setBoxed index none w).bind fun _ w₁ h₁ => ?_
    refine ((h₁.accounts h).returnBoxed (hmem b hb)).bind fun _ w₂ ⟨homes', h₂⟩ => ?_
    refine (leavesMemory_movedOut w₂).bind fun _ w₃ h₃ => ?_
    refine (leavesMemory_destroy b.value w₃).bind fun _ w₄ h₄ => ?_
    exact ⟨homes', h₄.accounts (h₃.accounts h₂)⟩

end Boxes

/-! ## Tenancies -/

/-- Whether users may take a step while some allocations of theirs are outstanding: they return only
these, nest nothing but allocators, and let no allocator `reset`. -/
def Allowed (raw : List Grant) : Step → Prop
  | .deallocate id chain address size => ⟨id, chain, address, size⟩ ∈ raw
  | .addStrategy _ s => s.IsAllocator
  | .reset .. => False
  | _ => True

/-- The worlds that come of new allocators through steps that are `Allowed`, each with the
allocations that users have to return themselves, and with the values that were handed to boxes. -/
inductive Tenancy [System σ] : World σ → List Grant → Multiset Value → Prop where
  | start (system : σ) {allocators : List Allocator} (hnew : ∀ a ∈ allocators, IsNew a) :
      Tenancy { memory := { system }, allocators } [] 0
  | step {w w' : World σ} {raw : List Grant} {handed : Multiset Value} (s : Step) {answer : Answer}
      (h : Tenancy w raw handed) (hs : Allowed raw s) (hstep : World.step s w = (answer, w')) :
      Tenancy w' (outstanding raw s answer) (handedOver s answer + handed)

/-- All that is outstanding: what users have to return, and `grantOf` the boxes that are there. -/
def tenants (w : World σ) (raw : List Grant) : List Grant := raw ++ w.filled.map grantOf

/-- There is an account of all `tenants`, and boxes are where their values may be. -/
structure Tenanted (w : World σ) (raw : List Grant) : Prop where
  accounts : ∃ homes, w.Accounts (w.tenants raw) homes
  aligned : ∀ b ∈ w.filled, b.layout.alignment ∣ b.address

/-- `outstanding` leaves the grants of boxes as they are, whatever users do with their own. -/
lemma outstanding_append (raw boxes : List Grant) {s : Step} (hs : Allowed raw s)
    (answer : Answer) :
    outstanding (raw ++ boxes) s answer = outstanding raw s answer ++ boxes := by
  cases s with
  | allocate id chain size affinity =>
    cases answer with
    | served result => cases result <;> rfl
    | _ => rfl
  | deallocate id chain address size => exact List.erase_append_left _ hs
  | _ => rfl

/-- A step that is `Allowed` is `Permitted` beside the grants of boxes. -/
lemma permitted_of_allowed {s : Step} (hs : Allowed raw s) (hbox : ¬ OnBox s) (w : World σ) :
    w.Permitted (w.tenants raw) s := by
  cases s with
  | deallocate id chain address size => exact List.mem_append_left _ hs
  | addStrategy id strategy =>
    obtain ⟨nested, owned, rfl⟩ := hs
    exact trivial
  | reset id settings => exact False.elim hs
  | newBoxed id layout value affinity => exact absurd trivial hbox
  | replaceBoxed index value => exact absurd trivial hbox
  | dropBoxed index => exact absurd trivial hbox
  | unbox index => exact absurd trivial hbox
  | _ => exact trivial

/-- `w.tenants raw` up to order, from what is `filled` up to order. -/
lemma coe_tenants {boxes : Multiset Boxed} (h : (w.filled : Multiset Boxed) = boxes) :
    (w.tenants raw : Multiset Grant) = raw + boxes.map grantOf := by
  unfold tenants
  rw [← h]
  rfl

/-- The grant of a box that is there is one of `w.tenants raw`. -/
lemma grantOf_mem_tenants {index : Nat} {b : Boxed} (hb : w.boxed? index = some b) :
    grantOf b ∈ w.tenants raw :=
  List.mem_append_right _ (List.mem_map_of_mem (mem_filled_iff.2 ⟨index, hb⟩))

/-- `Tenanted`, from what is `filled` and a ledger up to order. -/
lemma tenanted_of_filled {boxes : Multiset Boxed} (hfilled : (w.filled : Multiset Boxed) = boxes)
    (haligned : ∀ b ∈ boxes, b.layout.alignment ∣ b.address) (haccounts : w.Accounts ledger homes)
    (hledger : (ledger : Multiset Grant) = raw + boxes.map grantOf) : w.Tenanted raw := by
  subst hfilled
  exact ⟨⟨homes, haccounts.congr ((coe_tenants rfl).trans hledger.symm)⟩, haligned⟩

/-- All of `w.used` belongs to users or to boxes. -/
lemma Tenanted.used_eq (h : w.Tenanted raw) :
    w.used = ((w.tenants raw).map Grant.extent : List Extent) := by
  obtain ⟨homes, hhomes⟩ := h.accounts
  exact hhomes.used_eq

/-! ### What becomes of boxes -/

/-- The box at `index` has gone together with its slot, and its value was `destroyed`. -/
structure Vacated (w : World σ) (index : Nat) (b : Boxed) (w' : World σ) : Prop where
  gone : w'.boxed? index = none
  destroyed_eq : destroyed w'.memory.log = b.value ::ₘ destroyed w.memory.log
  used_eq : w.used = (grantOf b).extent ::ₘ w'.used

/-- The value of the box at `index` was `destroyed`, and there is another one in its place. -/
structure Replaced (w : World σ) (index : Nat) (b : Boxed) (value : Value) (w' : World σ) :
    Prop where
  there : w'.boxed? index = some { b with value }
  destroyed_eq : destroyed w'.memory.log = b.value ::ₘ destroyed w.memory.log
  used_eq : w'.used = w.used

/-- A box `b` was made for a value, in memory of its own. -/
structure Housed (w : World σ) (b : Boxed) (w' : World σ) : Prop where
  there : w'.boxed? w.boxes.length = some b
  destroyed_eq : destroyed w'.memory.log = destroyed w.memory.log
  used_eq : w'.used = (grantOf b).extent ::ₘ w.used

/-- No box was made for a value. It was `destroyed`, and all allocators have as much reserved as
they had. -/
structure TurnedAway (w : World σ) (value : Value) (w' : World σ) : Prop where
  filled_eq : w'.filled = w.filled
  destroyed_eq : destroyed w'.memory.log = value ::ₘ destroyed w.memory.log
  used_eq : w'.used = w.used
  reserved_eq {id : Nat} {a : Allocator} : w.allocator? id = some a →
    ∃ a', w'.allocator? id = some a' ∧ a'.reserved = a.reserved

/-- A step that takes a box away leaves it `Vacated` and all else `Tenanted`. -/
lemma Tenanted.gone (h : w.Tenanted raw) {index : Nat}
    (hboxes : w'.boxes = w.boxes.set index none) (hvalues : w'.values = w.values)
    (haccounts : w'.Accounts ((w.boxed? index).elim (w.tenants raw)
      fun b => (w.tenants raw).erase (grantOf b)) homes) :
    w'.Tenanted raw ∧ ∀ b, w.boxed? index = some b → w.Vacated index b w' := by
  have hfilled : w'.filled = (w.boxes.set index none).reduceOption := congrArg _ hboxes
  rcases hb : w.boxed? index with _ | b
  · rw [hb] at haccounts
    rw [set_none_of_boxed?_eq_none hb] at hfilled
    refine ⟨?_, fun _ heq => nomatch heq⟩
    exact tenanted_of_filled (congrArg _ hfilled) h.aligned haccounts (coe_tenants rfl)
  · rw [hb] at haccounts
    obtain ⟨rest, hrest, hset⟩ := exists_filled_set hb
    have hleft : (w'.filled : Multiset Boxed) = rest := hfilled ▸ hset none
    have htenanted : w'.Tenanted raw := by
      refine tenanted_of_filled hleft (fun c hc => h.aligned c ?_) haccounts ?_
      · rw [← Multiset.mem_coe, hrest]
        exact Multiset.mem_cons_of_mem hc
      · show (((w.tenants raw).erase (grantOf b) : List Grant) : Multiset Grant) = _
        rw [← Multiset.coe_erase, coe_tenants hrest, Multiset.map_cons, Multiset.add_cons,
          Multiset.erase_cons_head]
    refine ⟨htenanted, fun b' heq => ?_⟩
    obtain rfl := Option.some.inj heq
    refine ⟨?_, destroyed_of_gone hb hboxes hvalues, ?_⟩
    · unfold boxed?
      rw [hboxes, boxed?_set_none, if_pos rfl]
    · rw [h.used_eq, htenanted.used_eq, ← Multiset.map_coe, ← Multiset.map_coe, coe_tenants hrest,
        coe_tenants hleft, Multiset.map_cons, Multiset.add_cons, Multiset.map_cons]

/-- `replaceBoxed` leaves the box `Replaced`. -/
lemma Tenanted.replaceBoxed (h : w.Tenanted raw) (index : Nat) (value : Value) :
    Ends (World.replaceBoxed index value) w fun _ w' =>
      w'.Tenanted raw ∧ ∀ b, w.boxed? index = some b → w.Replaced index b value w' := by
  obtain ⟨homes, hhomes⟩ := h.accounts
  rcases hb : w.boxed? index with _ | b
  · unfold World.replaceBoxed
    apply Ends.get_bind
    rw [hb]
    exact ⟨h, fun _ heq => nomatch heq⟩
  · obtain ⟨rest, hrest, hset⟩ := exists_filled_set hb
    refine ((leavesMemory_replaceBoxed index value w).and (boxes_replaceBoxed hb value)).mono ?_
    rintro _ w' ⟨hmemory, -, hboxes, hdestroyed⟩
    have hfilled : (w'.filled : Multiset Boxed) = { b with value } ::ₘ rest := by
      unfold filled
      rw [hboxes]
      exact hset (some { b with value })
    refine ⟨tenanted_of_filled hfilled (fun c hc => ?_) (hmemory.accounts hhomes) ?_, ?_⟩
    · -- the type of the value is the same, and so is the place
      have haligned : ∀ c ∈ b ::ₘ rest, c.layout.alignment ∣ c.address := by
        rw [← hrest]
        exact h.aligned
      rcases Multiset.mem_cons.1 hc with rfl | hc
      · exact haligned b (Multiset.mem_cons_self ..)
      · exact haligned c (Multiset.mem_cons_of_mem hc)
    · rw [coe_tenants hrest, Multiset.map_cons, Multiset.map_cons]
      rfl
    · intro b' heq
      obtain rfl := Option.some.inj heq
      have hlt : index < w.boxes.length :=
        (List.getElem?_eq_some_iff.1 (Option.join_eq_some_iff.1 hb)).1
      refine ⟨?_, hdestroyed, (hmemory.accounts hhomes).used_eq.trans hhomes.used_eq.symm⟩
      unfold boxed?
      rw [hboxes, List.getElem?_set_self hlt]
      rfl

/-- `a.reserved` is the same before and after if the parcels are. -/
lemma Keeps.exists_reserved_eq (h : w.Keeps parcels) (h' : w'.Keeps parcels)
    (hplan : w'.plan = w.plan) {id : Nat} {a : Allocator} (ha : w.allocator? id = some a) :
    ∃ a', w'.allocator? id = some a' ∧ a'.reserved = a.reserved := by
  obtain ⟨a', ha', -⟩ := exists_allocator_of_plan_eq hplan ha
  refine ⟨a', ha', ?_⟩
  rw [(h'.ok ha').reserved_eq, (h.ok ha).reserved_eq, h.slots_eq h' ha ha']

section Steps

variable [System σ] [LawfulSystem σ]

/-- `newBoxed` leaves the value `Housed` if it is answered, and `TurnedAway` otherwise. -/
lemma Tenanted.newBoxed (h : w.Tenanted raw) (id : Nat) (layout : Layout) (value : Value)
    (affinity : Affinity) :
    Ends (World.newBoxed id layout value affinity) w fun answer w' => w'.Tenanted raw ∧
      (∀ address, answer = some (.ok address) → w.Housed ⟨id, address, layout, value⟩ w') ∧
        ∀ reason, answer = some (.error reason) → w.TurnedAway value w' := by
  obtain ⟨homes, hhomes⟩ := h.accounts
  refine ((hhomes.keeps.newBoxed hhomes.closed id layout value affinity).and
    ((boxes_newBoxed id layout value affinity w).and
      ((filled_newBoxed id layout value affinity w).and
        (values_newBoxed id layout value affinity w)))).mono ?_
  rintro answer w' ⟨⟨hgains, haligned⟩, hboxes, hfilled, hvalues⟩
  obtain ⟨homes', hhomes'⟩ := hhomes.gains hgains
  have hsame : w'.filled = w.filled → w'.Accounts (w.tenants raw) homes' → w'.Tenanted raw :=
    fun hsame haccounts =>
      tenanted_of_filled (congrArg _ hsame) h.aligned haccounts (coe_tenants rfl)
  rcases answer with _ | reason | address
  · exact ⟨hsame (hfilled.trans (List.append_nil _)) hhomes', (fun _ heq => nomatch heq),
      (fun _ heq => nomatch heq)⟩
  · have hkept : w'.filled = w.filled := hfilled.trans (List.append_nil _)
    obtain ⟨hplan, hkeeps⟩ := hgains
    refine ⟨hsame hkept hhomes', (fun _ heq => nomatch heq), fun _ _ => ?_⟩
    exact ⟨hkept, destroyed_of_filled_eq hkept hvalues,
      hkeeps.used_eq.trans hhomes.keeps.used_eq.symm, hhomes.keeps.exists_reserved_eq hkeeps hplan⟩
  · have hadded : (w'.filled : Multiset Boxed) =
        ⟨id, address, layout, value⟩ ::ₘ (w.filled : Multiset Boxed) := by
      rw [hfilled]
      exact Multiset.coe_eq_coe.2 (List.perm_append_singleton ..)
    refine ⟨tenanted_of_filled hadded (fun b hb => ?_) hhomes' ?_, ?_, fun _ heq => nomatch heq⟩
    · rcases Multiset.mem_cons.1 hb with rfl | hb
      · exact haligned address rfl
      · exact h.aligned b hb
    · show ((_ :: w.tenants raw : List Grant) : Multiset Grant) = _
      rw [← Multiset.cons_coe, coe_tenants rfl, Multiset.map_cons, Multiset.add_cons]
      rfl
    · intro address' heq
      obtain rfl := Except.ok.inj (Option.some.inj heq)
      refine ⟨?_, destroyed_of_filled_append hfilled hvalues, ?_⟩
      · unfold boxed?
        rw [hboxes]
        exact congrArg Option.join List.getElem?_concat_length
      · rw [hhomes'.used_eq, hhomes.used_eq]
        rfl

/-- `dropBoxed` leaves the box `Vacated`. -/
lemma Tenanted.dropBoxed (h : w.Tenanted raw) (index : Nat) :
    Ends (World.dropBoxed index) w fun _ w' =>
      w'.Tenanted raw ∧ ∀ b, w.boxed? index = some b → w.Vacated index b w' := by
  obtain ⟨homes, hhomes⟩ := h.accounts
  refine ((hhomes.dropBoxed index fun _ => grantOf_mem_tenants).and
    ((boxes_dropBoxed index w).and (values_dropBoxed index w))).mono ?_
  exact fun _ w' ⟨⟨homes', hhomes'⟩, hboxes, hvalues⟩ => h.gone hboxes hvalues hhomes'

lemma Tenanted.unbox (h : w.Tenanted raw) (index : Nat) :
    Ends (World.unbox index) w fun _ w' =>
      w'.Tenanted raw ∧ ∀ b, w.boxed? index = some b → w.Vacated index b w' := by
  obtain ⟨homes, hhomes⟩ := h.accounts
  refine ((hhomes.unbox index fun _ => grantOf_mem_tenants).and
    ((boxes_unbox index w).and (values_unbox index w))).mono ?_
  exact fun _ w' ⟨⟨homes', hhomes'⟩, hboxes, hvalues⟩ => h.gone hboxes hvalues hhomes'

/-- `Tenanted` is preserved by every step that is `Allowed`. -/
theorem Tenanted.step (h : w.Tenanted raw) {s : Step} (hs : Allowed raw s) :
    Ends (World.step s) w fun answer w' => w'.Tenanted (outstanding raw s answer) := by
  by_cases hbox : OnBox s
  · cases s with
    | newBoxed id layout value affinity =>
      exact Ends.map ((h.newBoxed id layout value affinity).mono fun _ _ h' => h'.1)
    | replaceBoxed index value =>
      exact Ends.map ((h.replaceBoxed index value).mono fun _ _ h' => h'.1)
    | dropBoxed index =>
      refine (h.dropBoxed index).bind fun found w' h' => ?_
      cases found <;> exact h'.1
    | unbox index => exact Ends.map ((h.unbox index).mono fun _ _ h' => h'.1)
    | _ => exact False.elim hbox
  · obtain ⟨homes, hhomes⟩ := h.accounts
    refine ((hhomes.step (permitted_of_allowed hs hbox w)).and (leavesValues_step hbox w)).mono ?_
    rintro answer w' ⟨⟨homes', hhomes'⟩, hleaves⟩
    have hfilled : (w'.filled : Multiset Boxed) = w.filled := congrArg _ hleaves.filled_eq
    refine tenanted_of_filled hfilled h.aligned hhomes' ?_
    unfold tenants
    rw [outstanding_append raw _ hs]
    rfl

/-- Every world of a `Tenancy` is `Tenanted`, and every value that was handed over was destroyed or
is in a box. -/
theorem Tenancy.tenanted (h : Tenancy w raw handed) : w.Tenanted raw ∧ w.values = handed := by
  induction h with
  | start system hnew =>
    refine ⟨⟨⟨0, accounts_start system hnew⟩, fun b hb => absurd hb List.not_mem_nil⟩, rfl⟩
  | step s h hs hstep ih =>
    refine ⟨(ih.1.step hs).apply hstep, ?_⟩
    rw [← ih.2]
    exact (values_step s _).apply hstep

/-- The totals of every allocator of a `Tenancy` are words, as `SumsExact` says. -/
theorem Tenancy.sumsExact (h : Tenancy w raw handed) {id : Nat} {a : Allocator}
    (ha : w.allocator? id = some a) : a.SumsExact := by
  obtain ⟨homes, hhomes⟩ := h.tenanted.1.accounts
  exact hhomes.sumsExact ha

end Steps

/-! ## Boxes and allocations at any time -/

/-- What holds of boxes, and of the allocations `raw` that users have to return, at any time of a
`Tenancy`. -/
structure Kept [System σ] (w : World σ) (raw : List Grant) (handed : Multiset Value) : Prop where
  aligned : ∀ b ∈ w.filled, b.layout.alignment ∣ b.address
  apart : (w.tenants raw).Pairwise fun g g' => g.extent.Apart g'.extent
  within_live : ∀ g ∈ w.tenants raw, ∃ r ∈ w.memory.live, g.extent.Within r
  /-- All memory in use is outstanding. -/
  used_eq : w.used = ((w.tenants raw).map Grant.extent : List Extent)
  /-- What went back to the system was live, and went back the right way. -/
  received : ∀ named status, .released named status ∈ w.memory.log → status = .ok
  /-- Every value that was handed over was destroyed once, or it is in a box. -/
  values_eq : destroyed w.memory.log + (w.filled.map Boxed.value : List Value) = handed
  made (id : Nat) (layout : Layout) (value : Value) (affinity : Affinity) :
    Ends (newBoxed id layout value affinity) w fun answer w' =>
      (∀ address, answer = some (.ok address) → w.Housed ⟨id, address, layout, value⟩ w') ∧
        ∀ reason, answer = some (.error reason) → w.TurnedAway value w'
  replaced (index : Nat) (value : Value) : Ends (replaceBoxed index value) w fun _ w' =>
    ∀ b, w.boxed? index = some b → w.Replaced index b value w'
  dropped (index : Nat) : Ends (dropBoxed index) w fun _ w' =>
    ∀ b, w.boxed? index = some b → w.Vacated index b w'
  unboxed (index : Nat) : Ends (unbox index) w fun _ w' =>
    ∀ b, w.boxed? index = some b → w.Vacated index b w'
  /-- When all boxes have gone, all values were destroyed, and what users have to return is left. -/
  ended : Ends dropBoxes w fun _ w' => w'.filled = [] ∧ destroyed w'.memory.log = handed ∧
    w'.used = (raw.map Grant.extent : List Extent)

section Tenancy

variable [System σ]

/-- A `Tenancy` goes on when a box is dropped. -/
lemma Tenancy.dropBoxed (h : Tenancy w raw handed) (index : Nat) :
    Ends (World.dropBoxed index) w fun _ w' => Tenancy w' raw handed := by
  obtain ⟨answer, hstep⟩ : ∃ answer,
      World.step (.dropBoxed index) w = (answer, (World.dropBoxed index w).2) := by
    have hends : Ends (World.step (.dropBoxed index)) w fun _ w' =>
        w' = (World.dropBoxed index w).2 := by
      have hdrop : Ends (World.dropBoxed index) w fun _ w' =>
          w' = (World.dropBoxed index w).2 := rfl
      refine hdrop.bind fun found w' h' => ?_
      cases found <;> exact h'
    exact ⟨_, Prod.ext rfl hends⟩
  have hnext := h.step (.dropBoxed index) trivial hstep
  rwa [show handedOver (.dropBoxed index) answer = 0 from rfl, Multiset.zero_add] at hnext

/-- `dropAllBoxed` empties just the places that it names. -/
lemma Tenancy.dropAllBoxed (h : Tenancy w raw handed) (indices : List Nat) :
    Ends (World.dropAllBoxed indices) w fun _ w' => Tenancy w' raw handed ∧
      ∀ index, w'.boxed? index = if index ∈ indices then none else w.boxed? index := by
  induction indices generalizing w with
  | nil => exact ⟨h, fun _ => rfl⟩
  | cons index rest ih =>
    unfold World.dropAllBoxed
    refine ((h.dropBoxed index).and (boxes_dropBoxed index w)).bind fun _ w₁ ⟨h₁, hboxes⟩ => ?_
    refine (ih h₁).mono fun _ w₂ ⟨h₂, hrest⟩ => ⟨h₂, fun i => ?_⟩
    have hgone : w₁.boxed? i = if i = index then none else w.boxed? i := by
      unfold boxed?
      rw [hboxes]
      exact boxed?_set_none w index i
    rw [hrest i, hgone]
    by_cases hi : i = index <;> simp [hi]

/-- `dropBoxes` leaves no box. -/
lemma Tenancy.dropBoxes (h : Tenancy w raw handed) :
    Ends World.dropBoxes w fun _ w' => Tenancy w' raw handed ∧ w'.filled = [] := by
  unfold World.dropBoxes
  apply Ends.get_bind
  refine (h.dropAllBoxed _).mono fun _ w' ⟨h', hboxed⟩ => ⟨h', ?_⟩
  refine List.eq_nil_iff_forall_not_mem.2 fun b hb => ?_
  obtain ⟨index, hindex⟩ := mem_filled_iff.1 hb
  rw [hboxed index] at hindex
  split at hindex
  · exact nomatch hindex
  · -- behind the last box there is none
    rename_i hnot
    have hge : w.boxes.length ≤ index := Nat.le_of_not_lt fun hlt => hnot (List.mem_range.2 hlt)
    unfold boxed? at hindex
    rw [List.getElem?_eq_none hge] at hindex
    exact nomatch hindex

variable [LawfulSystem σ]

/-- Every value that was handed over was destroyed once or is in a box. -/
lemma Tenancy.values_eq (h : Tenancy w raw handed) :
    destroyed w.memory.log + (w.filled.map Boxed.value : List Value) = handed :=
  h.tenanted.2

/-- At any time of a `Tenancy`, what `Kept` says: a box is at a multiple of the alignment of its
value, what is outstanding is apart and is all the memory in use, and every value that was handed
over was destroyed once or is in a box. A box that is made takes a slot, a box that goes leaves it,
and a box that cannot be made leaves every allocator with as much reserved as before. -/
theorem Tenancy.boxes_kept (h : Tenancy w raw handed) : w.Kept raw handed := by
  obtain ⟨htenanted, hvalues⟩ := h.tenanted
  obtain ⟨homes, hhomes⟩ := htenanted.accounts
  exact {
    aligned := htenanted.aligned
    apart := hhomes.apart
    within_live := hhomes.within_live
    used_eq := hhomes.used_eq
    received := hhomes.keeps.memory.received
    values_eq := h.values_eq
    made := fun id layout value affinity =>
      (htenanted.newBoxed id layout value affinity).mono fun _ _ h' => h'.2
    replaced := fun index value => (htenanted.replaceBoxed index value).mono fun _ _ h' => h'.2
    dropped := fun index => (htenanted.dropBoxed index).mono fun _ _ h' => h'.2
    unboxed := fun index => (htenanted.unbox index).mono fun _ _ h' => h'.2
    ended := by
      refine h.dropBoxes.mono fun _ w' ⟨h', hfilled⟩ => ⟨hfilled, ?_, ?_⟩
      · have hvalues := h'.values_eq
        rwa [hfilled, List.map_nil, Multiset.coe_nil, Multiset.add_zero] at hvalues
      · have hused := h'.tenanted.1.used_eq
        rwa [tenants, hfilled, List.map_nil, List.append_nil] at hused }

end Tenancy

/-- A user's allocation and a box in one block, a box from the nested allocator, a box for a value
without bytes, a value that an old block serves without its alignment, another value in the first
box, and the value of the second box taken out of it. -/
theorem boxes_kept_two_left : ∃ (w : World Arena) (raw : List Grant) (handed : Multiset Value),
    Tenancy w raw handed ∧
      raw.map (fun g => (g.address - Arena.base, g.size)) = [(0, 100)] ∧
      w.filled.map (fun b => (b.address - Arena.base, b.layout.size, b.value.text)) =
        [(104, 72, "e"), (176, 0, "c")] ∧
      handed.map Value.text = {"a", "b", "c", "d", "e"} ∧
      (destroyed w.memory.log).map Value.text = {"a", "b", "d"} ∧ w.Kept raw handed := by
  have h₀ : Tenancy cramped [] 0 := .start _ isNew_cramped
  have h₁ := h₀.step (.allocate 0 .full 100 .objects) trivial Prod.mk.eta.symm
  have h₂ := h₁.step (.newBoxed 0 ⟨72, 8⟩ ⟨"a", none⟩ .objects) trivial Prod.mk.eta.symm
  have h₃ := h₂.step (.newBoxed 0 ⟨32, 8⟩ ⟨"b", none⟩ .objects) trivial Prod.mk.eta.symm
  have h₄ := h₃.step (.newBoxed 0 ⟨0, 1⟩ ⟨"c", none⟩ .objects) trivial Prod.mk.eta.symm
  have h₅ := h₄.step (.configureGroup 0 { GroupSettings.new .objects 200 with
    alignment := some 64 }) trivial Prod.mk.eta.symm
  have h₆ := h₅.step (.newBoxed 0 ⟨0, 64⟩ ⟨"d", none⟩ .objects) trivial Prod.mk.eta.symm
  have h₇ := h₆.step (.replaceBoxed 0 ⟨"e", none⟩) trivial Prod.mk.eta.symm
  have h₈ := h₇.step (.unbox 1) trivial Prod.mk.eta.symm
  exact ⟨_, _, _, h₈, by decide +kernel, by decide +kernel, by decide +kernel, by decide +kernel,
    h₈.boxes_kept⟩

end World

end BlockPool
