import BlockPool.Proofs.World.View
import Mathlib.Data.List.ReduceOption

/-!
# Values in boxes

A value that is handed to a box is destroyed once, or it is in a box. It is destroyed when no box
can be made for it, when another value takes its place, when its box goes, or after it was taken out
of its box; and nothing that is done with the memory of boxes, or with any other memory, destroys a
value.

So the values that were destroyed and those that are in boxes are together the values that were
handed over, each as often as it was.
-/

namespace BlockPool

/-! ## Values in the log -/

/-- The value that was `destroyed` with an event. -/
def Event.destroyed? : Event → Option Value
  | .destroyed value => some value
  | _ => none

/-- The values that were destroyed in a log, as often as `Event.destroyed?` says. -/
def destroyed (log : List Event) : Multiset Value := log.filterMap Event.destroyed?

/-- A `Plain` action destroys no value. -/
lemma Memory.Plain.destroyed_eq {σ α : Type} [System σ] {x : MemoryM σ α} (hx : Plain x)
    (m : Memory σ) : Ends x m fun _ m' => destroyed m'.log = destroyed m.log := by
  induction hx generalizing m with
  | pure a => rfl
  | bind _ _ hx hf => exact (hx m).bind fun a m₁ h₁ => (hf a m₁).mono fun _ _ h₂ => h₂.trans h₁
  | note notice => rfl
  | request source layout => rfl
  | release named => rfl
  | askForeign strategy name size affinity => rfl
  | returnForeign strategy name address size => rfl

namespace World

variable {σ α : Type} {w₀ w w' : World σ}

/-! ## Requests and returns -/

/-- No value was `destroyed`, and no box came, changed or went. -/
def LeavesValues (w w' : World σ) : Prop :=
  destroyed w'.memory.log = destroyed w.memory.log ∧ w'.boxes = w.boxes

/-- The `View` of worlds as they are. In it an action agrees with itself if it leaves worlds as they
should be. -/
def asIs (σ : Type) : View σ := ⟨fun m => m, fun a => a⟩

lemma world_asIs (w : World σ) : (asIs σ).world w = w := by
  unfold View.world asIs
  rw [List.map_id']

section Requests

variable [System σ]

/-- A `Plain` action `LeavesValues`. -/
lemma agree_of_plain {x : MemoryM σ α} (hx : Memory.Plain x) :
    (asIs σ).Agree w₀.LeavesValues (onMemory x) (onMemory x) := by
  intro w h
  refine ⟨?_, (hx.destroyed_eq w.memory).trans h.1, h.2⟩
  rw [world_asIs, world_asIs]
  rfl

lemma respects_asIs : (asIs σ).Respects w₀.LeavesValues where
  alignment _ _ := rfl
  nested _ := rfl
  note notice _ := agree_of_plain (.note notice)
  noteIf a notice _ := agree_of_plain (Memory.plain_noteIf a.tracking.report notice)

lemma agreeOn_heap_asIs (heap : Heap) (size : Nat) (affinity : Affinity) (links : Links σ) :
    (asIs σ).AgreeOn w₀.LeavesValues size affinity links (.heap heap) :=
  ⟨agree_of_plain (heap.plain_allocate size),
    fun address => agree_of_plain (heap.plain_deallocate address size)⟩

/-- Walks along chains leave values, as every heap and group does. -/
lemma family_asIs (size : Nat) (affinity : Affinity) :
    (asIs σ).Family w₀.LeavesValues size affinity fun _ => True where
  allocatePooled {w _ a} h _ _ :=
    ⟨rfl, ((a.plain_allocatePooled size affinity).destroyed_eq w.memory).trans h.1, h.2⟩
  deallocatePooled {w _ a} h _ _ address :=
    ⟨rfl, ((a.plain_deallocatePooled address size).destroyed_eq w.memory).trans h.1, h.2⟩
  nested _ _ _ s _ := by
    cases s with
    | allocator j owned => exact .inl ⟨j, owned, rfl, trivial⟩
    | heap heap => exact .inr fun links => agreeOn_heap_asIs heap size affinity links
    | foreign id name =>
      exact .inr fun links => ⟨agree_of_plain (.askForeign id name size affinity),
        fun address => agree_of_plain (.returnForeign id name address size)⟩

/-- `World.allocate` destroys no value and changes no box. -/
lemma leavesValues_allocate (id : Nat) (chain : Chain) (size : Nat) (affinity : Affinity)
    (w : World σ) : Ends (allocate id chain size affinity) w fun _ w' => w.LeavesValues w' :=
  (View.agree_allocate respects_asIs (family_asIs size affinity) trivial (fun _ => rfl)
    (fun _ heap links => agreeOn_heap_asIs heap size affinity links) w ⟨rfl, rfl⟩).2

lemma leavesValues_deallocate (id : Nat) (chain : Chain) (address size : Nat) (w : World σ) :
    Ends (deallocate id chain address size) w fun _ w' => w.LeavesValues w' :=
  (View.agree_deallocate respects_asIs (family_asIs size default) trivial (fun _ => rfl)
    (fun _ heap links => agreeOn_heap_asIs heap size default links) address w ⟨rfl, rfl⟩).2

/-- `onAllocator` of a `Plain` action `LeavesValues`. -/
lemma leavesValues_onAllocator {id : Nat} {action : Allocator → MemoryM σ (α × Allocator)}
    (h : ∀ a, Memory.Plain (action a)) (w : World σ) :
    Ends (onAllocator id action) w fun _ w' => w.LeavesValues w' :=
  ends_onAllocator (fun _ => ⟨rfl, rfl⟩) fun a _ =>
    ((h a).destroyed_eq w.memory).mono fun _ _ hdestroyed => ⟨hdestroyed, rfl⟩

lemma leavesValues_change {id : Nat} {action : Allocator → MemoryM σ Allocator}
    (h : ∀ a, Memory.Plain (action a)) (w : World σ) :
    Ends (change id action) w fun _ w' => w.LeavesValues w' :=
  (leavesValues_onAllocator (fun a => (h a).bind fun _ => .pure _) w).bind
    fun _ _ hleaves => hleaves

/-- Whether an action is on a box. -/
def OnBox : Step → Prop
  | .newBoxed .. | .replaceBoxed .. | .dropBoxed _ | .unbox _ => True
  | _ => False

/-- Steps that are not `OnBox` leave values where they are. -/
theorem leavesValues_step {s : Step} (hs : ¬ OnBox s) (w : World σ) :
    Ends (step s) w fun _ w' => w.LeavesValues w' := by
  cases s with
  | allocate id chain size affinity =>
    exact Ends.map (leavesValues_allocate id chain size affinity w)
  | deallocate id chain address size =>
    exact Ends.map (leavesValues_deallocate id chain address size w)
  | compact id => exact Ends.map (leavesValues_onAllocator (fun a => a.plain_compact) w)
  | setBlockSize id affinity blockSize =>
    exact leavesValues_change (fun a => a.plain_setBlockSize affinity blockSize) w
  | configureGroup id group => exact leavesValues_change (fun a => a.plain_configureGroup group) w
  | setTracking id tracking => exact leavesValues_change (fun _ => .pure _) w
  | addStrategy id strategy => exact leavesValues_change (fun _ => .pure _) w
  | reset id settings => exact leavesValues_change (fun a => a.plain_reset settings) w
  | newBoxed id layout value affinity => exact absurd trivial hs
  | replaceBoxed index value => exact absurd trivial hs
  | dropBoxed index => exact absurd trivial hs
  | unbox index => exact absurd trivial hs

/-- `boxMemory` destroys no value and changes no box. -/
lemma leavesValues_boxMemory (id : Nat) (a : Allocator) (layout : Layout) (affinity : Affinity)
    (w : World σ) : Ends (boxMemory id a layout affinity) w fun _ w' => w.LeavesValues w' := by
  unfold boxMemory
  simp only
  split
  · exact ⟨rfl, rfl⟩
  · refine (leavesValues_allocate id .full layout.size affinity w).bind fun answer w₁ h₁ => ?_
    rcases answer with _ | reason | address
    · exact h₁
    · exact h₁
    · simp only
      split
      · exact h₁
      · refine (leavesValues_deallocate id .full address layout.size w₁).bind fun _ w₂ h₂ => ?_
        exact ⟨h₂.1.trans h₁.1, h₂.2.trans h₁.2⟩

lemma leavesValues_returnBoxed (b : Boxed) (w : World σ) :
    Ends (returnBoxed b) w fun _ w' => w.LeavesValues w' :=
  (leavesValues_deallocate b.allocator .full b.address b.layout.size w).bind fun _ _ h => h

end Requests

/-! ## Boxes -/

/-- The boxes of `w.boxes` that are there. -/
def filled (w : World σ) : List Boxed := w.boxes.reduceOption

/-- The values that were `destroyed`, and those that are in boxes. -/
def values (w : World σ) : Multiset Value :=
  destroyed w.memory.log + (w.filled : Multiset Boxed).map Boxed.value

lemma LeavesValues.filled_eq (h : w.LeavesValues w') : w'.filled = w.filled :=
  congrArg List.reduceOption h.2

/-- What `LeavesValues` keeps `w.values`. -/
lemma LeavesValues.values_eq (h : w.LeavesValues w') : w'.values = w.values := by
  unfold values
  rw [h.filled_eq, h.1]

/-- Another box, or an empty place. -/
lemma filled_push (w : World σ) (x : Option Boxed) :
    (w.boxes ++ [x]).reduceOption = w.filled ++ x.toList := by
  rw [← List.concat_eq_append, List.reduceOption_concat]
  rfl

/-- The box of some number can be split off `w.filled`, whatever comes into its place. -/
lemma exists_filled_set {index : Nat} {b : Boxed} (h : w.boxed? index = some b) :
    ∃ rest : Multiset Boxed, (w.filled : Multiset Boxed) = b ::ₘ rest ∧ ∀ x : Option Boxed,
      ((w.boxes.set index x).reduceOption : Multiset Boxed) = x.elim rest (· ::ₘ rest) := by
  have hget : w.boxes[index]? = some (some b) := Option.join_eq_some_iff.1 h
  obtain ⟨hlt, heq⟩ := List.getElem?_eq_some_iff.1 hget
  let rest := (w.boxes.take index).reduceOption ++ (w.boxes.drop (index + 1)).reduceOption
  have hset : ∀ x : Option Boxed, ((w.boxes.set index x).reduceOption : Multiset Boxed) =
      x.elim (rest : Multiset Boxed) (· ::ₘ (rest : Multiset Boxed)) := by
    intro x
    rw [List.set_eq_take_append_cons_drop, if_pos hlt, List.reduceOption_append]
    cases x with
    | none => rfl
    | some c => exact Multiset.coe_eq_coe.2 List.perm_middle
  have hsame : w.boxes.set index (some b) = w.boxes := by rw [← heq, List.set_getElem_self]
  refine ⟨rest, ?_, hset⟩
  unfold filled
  rw [← hsame]
  exact hset (some b)

/-- `w.filled` are the boxes that `boxed?` finds. -/
lemma mem_filled_iff {b : Boxed} : b ∈ w.filled ↔ ∃ index, w.boxed? index = some b := by
  unfold filled boxed?
  rw [List.reduceOption_mem_iff, List.mem_iff_getElem?]
  simp only [Option.join_eq_some_iff]

/-- `boxed?` after a place was emptied. -/
lemma boxed?_set_none (w : World σ) (index i : Nat) :
    ((w.boxes.set index none)[i]?).join = if i = index then none else w.boxed? i := by
  rw [List.getElem?_set]
  by_cases hi : index = i
  · subst hi
    by_cases hlt : index < w.boxes.length <;> simp [hlt]
  · rw [if_neg hi, if_neg (Ne.symm hi)]
    rfl

/-- Emptying a place where there is no box changes nothing. -/
lemma set_none_of_boxed?_eq_none {index : Nat} (h : w.boxed? index = none) :
    w.boxes.set index none = w.boxes := by
  refine List.ext_getElem? fun i => ?_
  rw [List.getElem?_set]
  split
  · rename_i hi
    subst hi
    unfold boxed? at h
    split
    · rename_i hlt
      rw [List.getElem?_eq_getElem hlt] at h ⊢
      exact congrArg some h.symm
    · rename_i hge
      rw [List.getElem?_eq_none (Nat.le_of_not_lt hge)]
  · rfl

/-! ### What becomes of boxes -/

section Places

variable [System σ]

/-- `newBoxed` adds a place, which is empty if the box could not be made. -/
lemma boxes_newBoxed (id : Nat) (layout : Layout) (value : Value) (affinity : Affinity)
    (w : World σ) :
    Ends (newBoxed id layout value affinity) w fun answer w' => w'.boxes = w.boxes ++
      (answer.map fun result => result.toOption.map fun address =>
        ({ allocator := id, address, layout, value } : Boxed)).toList := by
  unfold newBoxed
  apply Ends.get_bind
  split
  · exact (List.append_nil _).symm
  · rename_i a ha
    refine (leavesValues_boxMemory id a layout affinity w).bind fun answer w₁ h₁ => ?_
    have hpush : ∀ (x : Option Boxed) (w₂ : World σ), w₂.boxes = w.boxes →
        Ends (pushBoxed x) w₂ fun _ w₃ => w₃.boxes = w.boxes ++ [x] :=
      fun x w₂ hboxes => congrArg (· ++ [x]) hboxes
    cases answer with
    | ok address => exact (hpush _ w₁ h₁.2).bind fun _ _ h₂ => h₂
    | error reason =>
      have hdestroy : Ends (destroy value) w₁ fun _ w₂ => w₂.boxes = w.boxes := h₁.2
      exact hdestroy.bind fun _ w₂ h₂ => (hpush none w₂ h₂).bind fun _ _ h₃ => h₃

/-- `newBoxed` adds the box that it could make. -/
lemma filled_newBoxed (id : Nat) (layout : Layout) (value : Value) (affinity : Affinity)
    (w : World σ) :
    Ends (newBoxed id layout value affinity) w fun answer w' => w'.filled = w.filled ++
      ((answer.bind Except.toOption).map fun address =>
        ({ allocator := id, address, layout, value } : Boxed)).toList := by
  refine (boxes_newBoxed id layout value affinity w).mono fun answer w' hboxes => ?_
  have hfilled : w'.filled = _ := congrArg List.reduceOption hboxes
  rw [hfilled]
  rcases answer with _ | result
  · exact (congrArg List.reduceOption (List.append_nil _)).trans (List.append_nil _).symm
  · exact filled_push w _

omit [System σ] in
/-- `replaceBoxed` destroys the value of the box and puts the other one in its place. -/
lemma boxes_replaceBoxed {index : Nat} {b : Boxed} (h : w.boxed? index = some b)
    (value : Value) :
    Ends (replaceBoxed index value) w fun answer w' =>
      answer = some value.text ∧ w'.boxes = w.boxes.set index (some { b with value }) ∧
        destroyed w'.memory.log = b.value ::ₘ destroyed w.memory.log := by
  unfold replaceBoxed
  apply Ends.get_bind
  rw [h]
  exact ⟨rfl, rfl, rfl⟩

/-- `dropBoxed` empties the place of its box. -/
lemma boxes_dropBoxed (index : Nat) (w : World σ) :
    Ends (dropBoxed index) w fun _ w' => w'.boxes = w.boxes.set index none := by
  unfold dropBoxed
  apply Ends.get_bind
  split
  · rename_i hnone
    exact (set_none_of_boxed?_eq_none hnone).symm
  · rename_i b hb
    have hset : Ends (setBoxed index none) w fun _ w₁ => w₁.boxes = w.boxes.set index none := rfl
    refine hset.bind fun _ w₁ h₁ => ?_
    have hdestroy : Ends (destroy b.value) w₁ fun _ w₂ => w₂.boxes = w₁.boxes := rfl
    refine hdestroy.bind fun _ w₂ h₂ => (leavesValues_returnBoxed b w₂).bind fun _ w₃ h₃ => ?_
    exact h₃.2.trans (h₂.trans h₁)

lemma boxes_unbox (index : Nat) (w : World σ) :
    Ends (unbox index) w fun _ w' => w'.boxes = w.boxes.set index none := by
  unfold unbox
  apply Ends.get_bind
  split
  · rename_i hnone
    exact (set_none_of_boxed?_eq_none hnone).symm
  · rename_i b hb
    have hset : Ends (setBoxed index none) w fun _ w₁ => w₁.boxes = w.boxes.set index none := rfl
    refine hset.bind fun _ w₁ h₁ => (leavesValues_returnBoxed b w₁).bind fun _ w₂ h₂ => ?_
    exact h₂.2.trans h₁

end Places

/-! ### What becomes of values -/

/-- The values that are handed to boxes with a step and its answer. -/
def handedOver : Step → Answer → Multiset Value
  | .newBoxed _ _ value _, .served _ => {value}
  | .replaceBoxed _ value, .text _ => {value}
  | _, _ => 0

lemma values_destroy (value : Value) (w : World σ) :
    Ends (destroy value) w fun _ w' => w'.boxes = w.boxes ∧ w'.values = value ::ₘ w.values := by
  refine ⟨rfl, ?_⟩
  show value ::ₘ destroyed w.memory.log + _ = _
  exact Multiset.cons_add ..

lemma values_pushBoxed (x : Option Boxed) (w : World σ) :
    Ends (pushBoxed x) w fun _ w' =>
      w'.values = x.elim w.values fun b => b.value ::ₘ w.values := by
  show destroyed w.memory.log +
    ((w.boxes ++ [x]).reduceOption : Multiset Boxed).map Boxed.value = _
  rw [filled_push]
  cases x with
  | none =>
    exact congrArg (fun l : List Boxed => _ + (l : Multiset Boxed).map _) (List.append_nil _)
  | some b =>
    have hperm : ((w.filled ++ [b] : List Boxed) : Multiset Boxed) = b ::ₘ w.filled :=
      Multiset.coe_eq_coe.2 (List.perm_append_singleton ..)
    rw [Option.toList, hperm, Multiset.map_cons, Multiset.add_cons]
    rfl

/-- `setBoxed` takes the value that was there out of `w.values`, and adds the one that comes. -/
lemma values_setBoxed {index : Nat} {b : Boxed} (h : w.boxed? index = some b)
    (x : Option Boxed) :
    Ends (setBoxed index x) w fun _ w' =>
      b.value ::ₘ w'.values = x.elim w.values fun c => c.value ::ₘ w.values := by
  obtain ⟨rest, hrest, hset⟩ := exists_filled_set h
  show b.value ::ₘ (destroyed w.memory.log +
    ((w.boxes.set index x).reduceOption : Multiset Boxed).map Boxed.value) = _
  unfold values
  rw [hset, hrest, Multiset.map_cons]
  cases x with
  | none => exact (Multiset.add_cons ..).symm
  | some c =>
    simp only [Option.elim, Multiset.map_cons, Multiset.add_cons]
    exact Multiset.cons_swap ..

section Steps

variable [System σ]

/-- The value handed to `newBoxed` goes into its box, or it is destroyed at once. -/
lemma values_newBoxed (id : Nat) (layout : Layout) (value : Value) (affinity : Affinity)
    (w : World σ) :
    Ends (newBoxed id layout value affinity) w fun answer w' => w'.values =
      handedOver (.newBoxed id layout value affinity) (answerWith .served answer) + w.values := by
  unfold newBoxed
  apply Ends.get_bind
  split
  · exact (Multiset.zero_add _).symm
  · rename_i a ha
    refine (leavesValues_boxMemory id a layout affinity w).bind fun answer w₁ h₁ => ?_
    cases answer with
    | ok address =>
      refine (values_pushBoxed _ w₁).bind fun _ w₂ h₂ => ?_
      exact h₂.trans (congrArg (value ::ₘ ·) h₁.values_eq)
    | error reason =>
      refine (values_destroy value w₁).bind fun _ w₂ h₂ => ?_
      refine (values_pushBoxed none w₂).bind fun _ w₃ h₃ => ?_
      exact h₃.trans (h₂.2.trans (congrArg (value ::ₘ ·) h₁.values_eq))

omit [System σ] in
/-- The value that was there is destroyed by `replaceBoxed`, and the other one is in the box. -/
lemma values_replaceBoxed (index : Nat) (value : Value) (w : World σ) :
    Ends (replaceBoxed index value) w fun answer w' => w'.values =
      handedOver (.replaceBoxed index value) (answerWith .text answer) + w.values := by
  unfold replaceBoxed
  apply Ends.get_bind
  split
  · exact (Multiset.zero_add _).symm
  · rename_i b hb
    refine (values_destroy b.value w).bind fun _ w₁ h₁ => ?_
    have hb₁ : w₁.boxed? index = some b := by
      unfold boxed?
      rw [h₁.1]
      exact hb
    refine (values_setBoxed hb₁ (some { b with value })).bind fun _ w₂ h₂ => ?_
    -- both ways, the value that was there is counted once more
    have hcons : b.value ::ₘ w₂.values = b.value ::ₘ value ::ₘ w.values := by
      rw [h₂, Multiset.cons_swap b.value value, ← h₁.2]
      rfl
    exact (Multiset.cons_inj_right _).1 hcons

/-- The value of a box is destroyed by `dropBoxed`. -/
lemma values_dropBoxed (index : Nat) (w : World σ) :
    Ends (dropBoxed index) w fun _ w' => w'.values = w.values := by
  unfold dropBoxed
  apply Ends.get_bind
  split
  · rfl
  · rename_i b hb
    refine (values_setBoxed hb none).bind fun _ w₁ h₁ => ?_
    refine (values_destroy b.value w₁).bind fun _ w₂ h₂ => ?_
    refine (leavesValues_returnBoxed b w₂).bind fun _ w₃ h₃ => ?_
    exact h₃.values_eq.trans (h₂.2.trans h₁)

/-- The value of a box is destroyed after `unbox`, and not with the box. -/
lemma values_unbox (index : Nat) (w : World σ) :
    Ends (unbox index) w fun _ w' => w'.values = w.values := by
  unfold unbox
  apply Ends.get_bind
  split
  · rfl
  · rename_i b hb
    refine (values_setBoxed hb none).bind fun _ w₁ h₁ => ?_
    refine (leavesValues_returnBoxed b w₁).bind fun _ w₂ h₂ => ?_
    have hmoved : Ends (onMemory (Memory.record .movedOut)) w₂ fun _ w₃ =>
        w₃.values = w₂.values := rfl
    refine hmoved.bind fun _ w₃ h₃ => (values_destroy b.value w₃).bind fun _ w₄ h₄ => ?_
    exact h₄.2.trans ((congrArg _ (h₃.trans h₂.values_eq)).trans h₁)

/-- With every step, `w.values` grow by the values that were handed over. -/
theorem values_step (s : Step) (w : World σ) :
    Ends (step s) w fun answer w' => w'.values = handedOver s answer + w.values := by
  cases s with
  | newBoxed id layout value affinity => exact Ends.map (values_newBoxed id layout value affinity w)
  | replaceBoxed index value => exact Ends.map (values_replaceBoxed index value w)
  | dropBoxed index =>
    refine (values_dropBoxed index w).bind fun found w' h => ?_
    cases found <;> exact h.trans (Multiset.zero_add _).symm
  | unbox index =>
    exact Ends.map ((values_unbox index w).mono fun _ _ h => h.trans (Multiset.zero_add _).symm)
  | _ =>
    refine (leavesValues_step ?_ w).mono fun _ _ h => ?_
    · exact fun hbox => hbox
    · exact h.values_eq.trans (Multiset.zero_add _).symm

end Steps

/-! ### Values that were destroyed -/

/-- The value of a box that has gone was destroyed, if `w.values` are the same. -/
lemma destroyed_of_gone {index : Nat} {b : Boxed} (hb : w.boxed? index = some b)
    (hboxes : w'.boxes = w.boxes.set index none) (hvalues : w'.values = w.values) :
    destroyed w'.memory.log = b.value ::ₘ destroyed w.memory.log := by
  obtain ⟨rest, hrest, hset⟩ := exists_filled_set hb
  have hfilled : (w'.filled : Multiset Boxed) = rest := by
    unfold filled
    rw [hboxes]
    exact hset none
  unfold values at hvalues
  rw [hfilled, hrest, Multiset.map_cons, Multiset.add_cons, ← Multiset.cons_add] at hvalues
  exact Multiset.add_left_inj.1 hvalues

/-- No value was destroyed if there is one more in `w.filled`. -/
lemma destroyed_of_filled_append {b : Boxed} (hfilled : w'.filled = w.filled ++ [b])
    (hvalues : w'.values = b.value ::ₘ w.values) :
    destroyed w'.memory.log = destroyed w.memory.log := by
  have hperm : (w'.filled : Multiset Boxed) = b ::ₘ w.filled := by
    rw [hfilled]
    exact Multiset.coe_eq_coe.2 (List.perm_append_singleton ..)
  unfold values at hvalues
  rw [hperm, Multiset.map_cons, ← Multiset.add_cons] at hvalues
  exact Multiset.add_left_inj.1 hvalues

/-- A value that was handed over was destroyed if `w.filled` is the same. -/
lemma destroyed_of_filled_eq {value : Value} (hfilled : w'.filled = w.filled)
    (hvalues : w'.values = value ::ₘ w.values) :
    destroyed w'.memory.log = value ::ₘ destroyed w.memory.log := by
  unfold values at hvalues
  rw [hfilled, ← Multiset.cons_add] at hvalues
  exact Multiset.add_left_inj.1 hvalues

end World

end BlockPool
