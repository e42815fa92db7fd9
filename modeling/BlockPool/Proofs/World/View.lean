import BlockPool.Proofs.World.Steady

/-!
# Worlds seen through a view

A view replaces the memory of a world and each of its allocators by others. Two actions agree in a
view if the second does to the view of a world what the first does to the world. This is how it is
said that something has no part in what happens: the view takes it away.

Requests and returns agree in a view if what single allocators do agrees in it, along all chains
that are walked. So do boxes if requests and returns for their memory do.
-/

namespace BlockPool

/-- Another memory and other allocators in the place of those of a world. -/
structure View (σ : Type) where
  memory : Memory σ → Memory σ
  allocator : Allocator → Allocator

namespace View

open World

variable {σ α β : Type} {v : View σ} {w : World σ} {I : World σ → Prop}

/-- A world in a view. -/
def world (v : View σ) (w : World σ) : World σ :=
  { memory := v.memory w.memory, allocators := w.allocators.map v.allocator, boxes := w.boxes }

/-- Looking up an allocator commutes with a view. -/
lemma allocator?_world (v : View σ) (w : World σ) (id : Nat) :
    (v.world w).allocator? id = (w.allocator? id).map v.allocator :=
  List.getElem?_map ..

/-- `update` commutes with a view. -/
lemma world_update (v : View σ) (w : World σ) (id : Nat) (a : Allocator) (m : Memory σ) :
    v.world (w.update id a m) = (v.world w).update id (v.allocator a) (v.memory m) := by
  unfold world World.update
  rw [List.map_set]

/-- Two actions agree in a view of one world, as `Mirrors` says, and leave it so that `I` holds. -/
def AgreeAt (v : View σ) (I : World σ → Prop) (x y : WorldM σ α) (w : World σ) : Prop :=
  Mirrors v.world (fun answer => answer) x y w fun _ w' => I w'

lemma AgreeAt.ends {x y : WorldM σ α} (h : v.AgreeAt I x y w) :
    Ends x w fun answer w' => y (v.world w) = (answer, v.world w') ∧ I w' := h

/-- Two actions `AgreeAt` all worlds of which `I` holds. -/
def Agree (v : View σ) (I : World σ → Prop) (x y : WorldM σ α) : Prop :=
  ∀ w, I w → v.AgreeAt I x y w

lemma Agree.pure (a : α) : v.Agree I (Pure.pure a) (Pure.pure a) := fun _ hI => ⟨rfl, hI⟩

/-- `Agree` composes along `>>=`. -/
lemma Agree.bind {x y : WorldM σ α} {f g : α → WorldM σ β} (hx : v.Agree I x y)
    (hf : ∀ a, v.Agree I (f a) (g a)) : v.Agree I (x >>= f) (y >>= g) :=
  fun w hI => (hx w hI).bind fun a w' hI' => hf a w' hI'

lemma Agree.map {x y : WorldM σ α} (f : α → β) (hx : v.Agree I x y) :
    v.Agree I (f <$> x) (f <$> y) :=
  fun w hI => Mirrors.map (hx w hI) fun _ => rfl

/-! ## Chains -/

/-- What a view leaves alone so that walks along chains agree in it. -/
structure Respects (v : View σ) (I : World σ → Prop) : Prop where
  alignment (a : Allocator) (affinity : Affinity) :
    (v.allocator a).alignmentFor affinity = a.alignmentFor affinity
  nested (a : Allocator) : (v.allocator a).nested = a.nested
  note (notice : Notice) (h : notice.severity ≠ .info) :
    v.Agree I (onMemory (Memory.note notice)) (onMemory (Memory.note notice))
  noteIf (a : Allocator) (notice : Notice) (h : notice.severity = .info) :
    v.Agree I (onMemory (Memory.noteIf a.tracking.report notice))
      (onMemory (Memory.noteIf (v.allocator a).tracking.report notice))

section Walk

variable [System σ] {links : Links σ} {size : Nat} {affinity : Affinity}

/-- `offer` and `offerBack` of a strategy agree. -/
structure AgreeOn (v : View σ) (I : World σ → Prop) (size : Nat) (affinity : Affinity)
    (links : Links σ) (s : Strategy) : Prop where
  offer : v.Agree I (offer links size affinity s) (offer links size affinity s)
  offerBack (address : Nat) :
    v.Agree I (offerBack links address size s) (offerBack links address size s)

/-- `serveFrom` agrees in a view if each strategy does. -/
lemma agree_serveFrom (hv : v.Respects I) (alignment : Nat) {strategies : List Strategy}
    (hs : ∀ s ∈ strategies, v.AgreeOn I size affinity links s) :
    v.Agree I (serveFrom links size affinity alignment strategies)
      (serveFrom links size affinity alignment strategies) := by
  induction strategies with
  | nil => exact Agree.pure none
  | cons s rest ih =>
    have hrest := ih fun s' hs' => hs s' (List.mem_cons_of_mem _ hs')
    have hhead := hs s (List.mem_cons_self ..)
    unfold serveFrom
    refine hhead.offer.bind fun offered => ?_
    cases offered with
    | none => exact hrest
    | some address =>
      simp only
      split
      · refine (hv.note _ Severity.noConfusion).bind fun _ => ?_
        exact (hhead.offerBack address).bind fun _ => hrest
      · exact (hv.note _ Severity.noConfusion).bind fun _ => Agree.pure _

/-- `returnTo` agrees in a view if each strategy does. -/
lemma agree_returnTo (address : Nat) {strategies : List Strategy}
    (hs : ∀ s ∈ strategies, v.AgreeOn I size affinity links s) :
    v.Agree I (returnTo links address size strategies)
      (returnTo links address size strategies) := by
  induction strategies with
  | nil => exact Agree.pure none
  | cons s rest ih =>
    have hrest := ih fun s' hs' => hs s' (List.mem_cons_of_mem _ hs')
    unfold returnTo
    refine ((hs s (List.mem_cons_self ..)).offerBack address).bind fun taken => ?_
    cases taken with
    | true => exact Agree.pure _
    | false => exact hrest

/-- What holds of the allocators of a `family` so that walks along their chains agree: their groups
do what they do in the view, and their nested strategies are of the family or `AgreeOn` by
themselves. -/
structure Family (v : View σ) (I : World σ → Prop) (size : Nat) (affinity : Affinity)
    (family : Nat → Prop) : Prop where
  allocatePooled {w : World σ} {id : Nat} {a : Allocator} (hI : I w) (hid : family id)
    (ha : w.allocator? id = some a) :
    Mirrors v.memory (fun out => (out.1, v.allocator out.2)) (a.allocatePooled size affinity)
      ((v.allocator a).allocatePooled size affinity) w.memory fun out m' => I (w.update id out.2 m')
  deallocatePooled {w : World σ} {id : Nat} {a : Allocator} (hI : I w) (hid : family id)
    (ha : w.allocator? id = some a) (address : Nat) :
    Mirrors v.memory (fun out => (out.1, v.allocator out.2)) (a.deallocatePooled address size)
      ((v.allocator a).deallocatePooled address size) w.memory
      fun out m' => I (w.update id out.2 m')
  nested {w : World σ} {id : Nat} {a : Allocator} (hI : I w) (hid : family id)
    (ha : w.allocator? id = some a) (s : Strategy) (hs : s ∈ a.nested) :
    (∃ j owned, s = .allocator j owned ∧ family j) ∨
      ∀ links : Links σ, v.AgreeOn I size affinity links s

omit [System σ] in
/-- What goes on from the groups of an allocator, after `setAllocator`, agrees if what the groups do
does. -/
lemma agree_onPool {id : Nat} {x y : MemoryM σ (α × Allocator)} {P : α × Allocator → Prop}
    {f f' : α × Allocator → WorldM σ β}
    (h : Mirrors v.memory (fun out => (out.1, v.allocator out.2)) x y w.memory
      fun out m' => I (w.update id out.2 m'))
    (hP : Ends x w.memory fun out _ => P out)
    (hrest : ∀ out, P out → v.Agree I (f out) (f' (out.1, v.allocator out.2))) :
    v.AgreeAt I (onMemory x >>= fun out => setAllocator id out.2 >>= fun _ => f out)
      (onMemory y >>= fun out => setAllocator id out.2 >>= fun _ => f' out) w := by
  have hpooled : onMemory y (v.world w) = (((x w.memory).1.1, v.allocator (x w.memory).1.2),
      { v.world w with memory := v.memory (x w.memory).2 }) := by
    have hy : y (v.world w).memory = _ := h.eq
    unfold onMemory
    rw [hy]
  have hput : setAllocator id (v.allocator (x w.memory).1.2)
      { v.world w with memory := v.memory (x w.memory).2 } = _ :=
    congrArg (Prod.mk ()) (v.world_update w id (x w.memory).1.2 (x w.memory).2).symm
  have hgoes := hrest _ hP (w.update id (x w.memory).1.2 (x w.memory).2) h.ends
  refine ⟨?_, hgoes.2⟩
  rw [bind_apply_eq hpooled, bind_apply_eq hput]
  exact hgoes.1

omit [System σ] in
/-- `onAllocator` agrees in a view if its action does for the allocator in the view. -/
lemma agree_onAllocator {id : Nat} {x y : Allocator → MemoryM σ (α × Allocator)}
    (h : ∀ {w : World σ} {a : Allocator}, I w → w.allocator? id = some a →
      Mirrors v.memory (fun out => (out.1, v.allocator out.2)) (x a) (y (v.allocator a)) w.memory
        fun out m' => I (w.update id out.2 m')) :
    v.Agree I (onAllocator id x) (onAllocator id y) := by
  intro w hI
  unfold onAllocator
  apply Mirrors.get_bind
  rw [allocator?_world]
  rcases ha : w.allocator? id with _ | a
  · exact Agree.pure none w hI
  · exact agree_onPool (h hI ha) Ends.trivial fun out _ => Agree.pure (some out.1)

/-- `allocateWith` agrees in a view if `allocatePooled` and each strategy does. -/
lemma agree_allocateWith (hv : v.Respects I) {id : Nat} {a : Allocator} {chain : Chain}
    (hchain : ∀ a, (v.allocator a).strategies chain = a.strategies chain)
    (hpool : Mirrors v.memory (fun out => (out.1, v.allocator out.2))
      (a.allocatePooled size affinity) ((v.allocator a).allocatePooled size affinity) w.memory
      fun out m' => I (w.update id out.2 m'))
    (hs : ∀ s ∈ a.strategies chain, v.AgreeOn I size affinity links s) :
    v.AgreeAt I (allocateWith links id a chain size affinity)
      (allocateWith links id (v.allocator a) chain size affinity) w := by
  have hframe := (a.allocatePooled_frame size affinity w.memory).mono fun _ _ h => h.1
  unfold allocateWith
  refine agree_onPool hpool hframe ?_
  rintro ⟨answer, a'⟩ hwiring
  cases answer with
  | ok address => exact Agree.pure _
  | error reason =>
    simp only
    rw [hchain, hv.alignment]
    have hs' : ∀ s ∈ a'.strategies chain, v.AgreeOn I size affinity links s :=
      Allocator.strategies_congr hwiring chain ▸ hs
    refine (agree_serveFrom hv _ hs').bind fun answer => ?_
    cases answer with
    | some address => exact Agree.pure _
    | none => exact (hv.note _ Severity.noConfusion).bind fun _ => Agree.pure _

/-- `deallocateWith` agrees in a view if `deallocatePooled` and each strategy does. -/
lemma agree_deallocateWith (hv : v.Respects I) {id : Nat} {a : Allocator} {chain : Chain}
    {address : Nat} (hchain : ∀ a, (v.allocator a).strategies chain = a.strategies chain)
    (hpool : Mirrors v.memory (fun out => (out.1, v.allocator out.2))
      (a.deallocatePooled address size) ((v.allocator a).deallocatePooled address size) w.memory
      fun out m' => I (w.update id out.2 m'))
    (hs : ∀ s ∈ a.strategies chain, v.AgreeOn I size affinity links s) :
    v.AgreeAt I (deallocateWith links id a chain address size)
      (deallocateWith links id (v.allocator a) chain address size) w := by
  have hframe := (a.deallocatePooled_frame address size w.memory).mono fun _ _ h => h.1
  unfold deallocateWith
  refine agree_onPool hpool hframe ?_
  rintro ⟨known, a'⟩ hwiring
  cases known with
  | true => exact Agree.pure _
  | false =>
    simp only
    rw [if_neg Bool.false_ne_true, if_neg Bool.false_ne_true, hchain]
    have hs' : ∀ s ∈ a'.strategies chain, v.AgreeOn I size affinity links s :=
      Allocator.strategies_congr hwiring chain ▸ hs
    refine (agree_returnTo address hs').bind fun taker => ?_
    cases taker with
    | some s => exact (hv.noteIf a' _ rfl).bind fun _ => Agree.pure _
    | none =>
      cases chain with
      | full => exact (hv.note _ Severity.noConfusion).bind fun _ => Agree.pure _
      | owned => exact Agree.pure _

/-- Links to the allocators of a `family` agree. -/
structure LinksAgree (v : View σ) (I : World σ → Prop) (size : Nat) (affinity : Affinity)
    (family : Nat → Prop) (links : Links σ) : Prop where
  allocate {id : Nat} (hid : family id) :
    v.Agree I (links.allocate id size affinity) (links.allocate id size affinity)
  deallocate {id : Nat} (hid : family id) (address : Nat) :
    v.Agree I (links.deallocate id address size) (links.deallocate id address size)

/-- If links to a `Family` agree, so do the strategies nested in an allocator of it. -/
lemma Family.agreeOn {family : Nat → Prop} (hfamily : v.Family I size affinity family)
    (hlinks : v.LinksAgree I size affinity family links) {id : Nat} (hid : family id)
    {a : Allocator} (hI : I w) (ha : w.allocator? id = some a) :
    ∀ s ∈ a.nested, v.AgreeOn I size affinity links s := by
  intro s hs
  rcases hfamily.nested hI hid ha s hs with ⟨j, owned, rfl, hj⟩ | hdirect
  · exact ⟨hlinks.allocate hj, hlinks.deallocate hj⟩
  · exact hdirect links

/-- However many links `Links.upTo` follows, requests and returns to a `Family` agree, by induction
on the depth. -/
lemma agree_upTo {family : Nat → Prop} (hv : v.Respects I)
    (hfamily : v.Family I size affinity family) (depth : Nat) :
    v.LinksAgree I size affinity family (.upTo depth) := by
  have hchain : ∀ a, (v.allocator a).strategies .owned = a.strategies .owned := hv.nested
  induction depth with
  | zero => exact ⟨fun _ => Agree.pure none, fun _ _ => Agree.pure false⟩
  | succ depth ih =>
    refine ⟨fun {id} hid w hI => ?_, fun {id} hid address w hI => ?_⟩
    · unfold Links.upTo
      apply Mirrors.get_bind
      rw [allocator?_world]
      rcases ha : w.allocator? id with _ | a
      · exact Agree.pure none w hI
      · exact (agree_allocateWith hv hchain (hfamily.allocatePooled hI hid ha)
          (hfamily.agreeOn ih hid hI ha)).bind fun answer w' hI' => Agree.pure _ w' hI'
    · unfold Links.upTo
      apply Mirrors.get_bind
      rw [allocator?_world]
      rcases ha : w.allocator? id with _ | a
      · exact Agree.pure false w hI
      · exact agree_deallocateWith hv hchain (hfamily.deallocatePooled hI hid ha address)
          (hfamily.agreeOn ih hid hI ha)

/-- If links to a `Family` agree, so do the strategies of a chain of an allocator of it. -/
lemma Family.agreeOn_strategies {family : Nat → Prop}
    (hfamily : v.Family I size affinity family)
    (hlinks : v.LinksAgree I size affinity family links) {id : Nat} (hid : family id)
    {chain : Chain} (hheap : chain = .full → ∀ heap, v.AgreeOn I size affinity links
      (.heap heap)) {a : Allocator} (hI : I w) (ha : w.allocator? id = some a) :
    ∀ s ∈ a.strategies chain, v.AgreeOn I size affinity links s := by
  have hnested := hfamily.agreeOn hlinks hid hI ha
  intro s hs
  cases chain with
  | owned => exact hnested s hs
  | full =>
    rcases List.mem_append.1 hs with hs | hs
    · exact hnested s hs
    · obtain ⟨heap, -, rfl⟩ : ∃ heap, a.backstop = some heap ∧ Strategy.heap heap = s := by
        simpa using hs
      exact hheap rfl heap

omit [System σ] in
lemma length_allocators_world (v : View σ) (w : World σ) :
    (v.world w).allocators.length = w.allocators.length := List.length_map ..

/-- `World.allocate` agrees for an allocator of a `Family`, if its heap, where it is used, is seen
and agrees. -/
lemma agree_allocate {family : Nat → Prop} (hv : v.Respects I)
    (hfamily : v.Family I size affinity family) {id : Nat} (hid : family id) {chain : Chain}
    (hchain : ∀ a, (v.allocator a).strategies chain = a.strategies chain)
    (hheap : chain = .full → ∀ heap, ∀ links : Links σ,
      v.AgreeOn I size affinity links (.heap heap)) :
    v.Agree I (allocate id chain size affinity) (allocate id chain size affinity) := by
  intro w hI
  unfold World.allocate
  apply Mirrors.get_bind
  rw [allocator?_world, length_allocators_world]
  rcases ha : w.allocator? id with _ | a
  · exact Agree.pure none w hI
  · have hs := hfamily.agreeOn_strategies (agree_upTo hv hfamily w.allocators.length) hid
      (fun hfull heap => hheap hfull heap _) hI ha
    exact Mirrors.map (agree_allocateWith hv hchain (hfamily.allocatePooled hI hid ha) hs)
      fun _ => rfl

/-- `World.deallocate` agrees for an allocator of a `Family`, if its heap, where it is used, is seen
and agrees. -/
lemma agree_deallocate {family : Nat → Prop} (hv : v.Respects I)
    (hfamily : v.Family I size affinity family) {id : Nat} (hid : family id) {chain : Chain}
    (hchain : ∀ a, (v.allocator a).strategies chain = a.strategies chain)
    (hheap : chain = .full → ∀ heap, ∀ links : Links σ,
      v.AgreeOn I size affinity links (.heap heap)) (address : Nat) :
    v.Agree I (deallocate id chain address size) (deallocate id chain address size) := by
  intro w hI
  unfold World.deallocate
  apply Mirrors.get_bind
  rw [allocator?_world, length_allocators_world]
  rcases ha : w.allocator? id with _ | a
  · exact Agree.pure none w hI
  · have hs := hfamily.agreeOn_strategies (agree_upTo hv hfamily w.allocators.length) hid
      (fun hfull heap => hheap hfull heap _) hI ha
    exact Mirrors.map (agree_deallocateWith hv hchain
      (hfamily.deallocatePooled hI hid ha address) hs) fun _ => rfl

end Walk

/-! ## Boxes -/

/-- What has to agree in a view that `Respects` walks so that all that is done with boxes does. -/
structure Boxing [System σ] (v : View σ) (I : World σ → Prop) : Prop extends v.Respects I where
  boxes {w : World σ} (hI : I w) (boxes : List (Option Boxed)) : I { w with boxes }
  record (event : Event) (h : ∀ notice, event ≠ .noted notice) :
    v.Agree I (onMemory (Memory.record event)) (onMemory (Memory.record event))
  allocate (id size : Nat) (affinity : Affinity) :
    v.Agree I (allocate id .full size affinity) (allocate id .full size affinity)
  deallocate (id address size : Nat) :
    v.Agree I (deallocate id .full address size) (deallocate id .full address size)

section Boxes

variable [System σ]

lemma Boxing.setBoxed (hv : v.Boxing I) (index : Nat) (b : Option Boxed) :
    v.Agree I (World.setBoxed index b) (World.setBoxed index b) :=
  fun _ hI => ⟨rfl, hv.boxes hI _⟩

lemma Boxing.pushBoxed (hv : v.Boxing I) (b : Option Boxed) :
    v.Agree I (World.pushBoxed b) (World.pushBoxed b) :=
  fun _ hI => ⟨rfl, hv.boxes hI _⟩

lemma Boxing.destroy (hv : v.Boxing I) (value : Value) :
    v.Agree I (World.destroy value) (World.destroy value) :=
  hv.record _ fun _ => Event.noConfusion

/-- `boxMemory` agrees in a view that is `Boxing`. -/
lemma Boxing.boxMemory (hv : v.Boxing I) (id : Nat) (a : Allocator) (layout : Layout)
    (affinity : Affinity) :
    v.Agree I (World.boxMemory id a layout affinity)
      (World.boxMemory id (v.allocator a) layout affinity) := by
  unfold World.boxMemory
  rw [hv.alignment]
  simp only
  split
  · exact Agree.pure _
  · refine (hv.allocate id layout.size affinity).bind fun answer => ?_
    rcases answer with _ | reason | address
    · exact Agree.pure _
    · exact Agree.pure _
    · simp only
      split
      · exact Agree.pure _
      · exact (hv.deallocate id address layout.size).bind fun _ => Agree.pure _

lemma Boxing.newBoxed (hv : v.Boxing I) (id : Nat) (layout : Layout) (value : Value)
    (affinity : Affinity) :
    v.Agree I (World.newBoxed id layout value affinity)
      (World.newBoxed id layout value affinity) := by
  intro w hI
  unfold World.newBoxed
  apply Mirrors.get_bind
  rw [allocator?_world]
  rcases w.allocator? id with _ | a
  · exact Agree.pure none w hI
  · refine (hv.boxMemory id a layout affinity).bind (fun answer => ?_) w hI
    cases answer with
    | ok address => exact (hv.pushBoxed _).bind fun _ => Agree.pure _
    | error reason =>
      exact (hv.destroy value).bind fun _ => (hv.pushBoxed none).bind fun _ => Agree.pure _

lemma Boxing.replaceBoxed (hv : v.Boxing I) (index : Nat) (value : Value) :
    v.Agree I (World.replaceBoxed index value) (World.replaceBoxed index value) := by
  intro w hI
  unfold World.replaceBoxed
  apply Mirrors.get_bind
  rw [show (v.world w).boxed? index = w.boxed? index from rfl]
  rcases w.boxed? index with _ | b
  · exact Agree.pure none w hI
  · refine (hv.destroy b.value).bind (fun _ => ?_) w hI
    exact (hv.setBoxed index _).bind fun _ => Agree.pure _

lemma Boxing.returnBoxed (hv : v.Boxing I) (b : Boxed) :
    v.Agree I (World.returnBoxed b) (World.returnBoxed b) :=
  (hv.deallocate b.allocator b.address b.layout.size).bind fun _ => Agree.pure ()

lemma Boxing.dropBoxed (hv : v.Boxing I) (index : Nat) :
    v.Agree I (World.dropBoxed index) (World.dropBoxed index) := by
  intro w hI
  unfold World.dropBoxed
  apply Mirrors.get_bind
  rw [show (v.world w).boxed? index = w.boxed? index from rfl]
  rcases w.boxed? index with _ | b
  · exact Agree.pure false w hI
  · refine (hv.setBoxed index none).bind (fun _ => ?_) w hI
    exact (hv.destroy b.value).bind fun _ => (hv.returnBoxed b).bind fun _ => Agree.pure true

lemma Boxing.unbox (hv : v.Boxing I) (index : Nat) :
    v.Agree I (World.unbox index) (World.unbox index) := by
  intro w hI
  unfold World.unbox
  apply Mirrors.get_bind
  rw [show (v.world w).boxed? index = w.boxed? index from rfl]
  rcases w.boxed? index with _ | b
  · exact Agree.pure none w hI
  · refine (hv.setBoxed index none).bind (fun _ => ?_) w hI
    refine (hv.returnBoxed b).bind fun _ => ?_
    refine (hv.record .movedOut fun _ => Event.noConfusion).bind fun _ => ?_
    exact (hv.destroy b.value).bind fun _ => Agree.pure _

end Boxes

end View

end BlockPool
