import BlockPool.Proofs.Tracker.SelfCheck

/-!
# Trackers without their switches

Muting a tracker switches its self-check off, and its reports too unless they are to be heard. What
a tracker does to its books does not depend on its switches, so muting it before an action is muting
it afterwards: only notices for information are missing from what it reports. The self-check finds
nothing to report, since the books are in order.
-/

namespace BlockPool

/-- Switches with `report` only if that is `loud`, and without the self-check. -/
def Tracking.muted (loud : Bool) (tracking : Tracking) : Tracking :=
  ⟨loud && tracking.report, false⟩

/-- Whether a notice is given when informative ones are only if `loud`. -/
def Notice.isHeard (loud : Bool) (notice : Notice) : Bool := loud || notice.severity ≠ .info

/-- An outcome with its state changed by `f` and with only the notices that are `isHeard`. -/
def Outcome.muted {state answer : Type} (loud : Bool) (f : state → state)
    (o : Outcome state answer) : Outcome state answer :=
  { answer := o.answer, state := f o.state, notices := o.notices.filter (·.isHeard loud) }

/-- What is more than informative `isHeard` in any case. -/
lemma Notice.isHeard_of_severity {notice : Notice} (h : notice.severity ≠ .info) (loud : Bool) :
    notice.isHeard loud = true := by
  unfold isHeard
  simp [h]

/-- A warning or an error stays when only what `isHeard` does. -/
lemma Notice.filter_isHeard {notice : Notice} (h : notice.severity ≠ .info) (loud : Bool) :
    [notice].filter (·.isHeard loud) = [notice] :=
  List.filter_eq_self.2 fun _ hmem =>
    List.mem_singleton.1 hmem ▸ Notice.isHeard_of_severity h loud

namespace Tracker

variable {t : Tracker} {loud : Bool}

/-- A tracker with `Tracking.muted` switches. -/
def muted (loud : Bool) (t : Tracker) : Tracker := t.setTracking (t.tracking.muted loud)

/-! ## Books and switches -/

lemma addRun_setTracking (t : Tracker) (tracking : Tracking) (offset length : Nat) :
    (t.setTracking tracking).addRun offset length =
      (t.addRun offset length).setTracking tracking := by
  unfold addRun
  split <;> rfl

/-- A `new` tracker is muted by muting its switches. -/
lemma new_muted (capacity : Nat) (tracking : Tracking) :
    (new capacity tracking).muted loud = new capacity (tracking.muted loud) := by
  unfold muted new
  rw [addRun_tracking, ← addRun_setTracking]
  rfl

/-- `occupy` does not look at the switches. -/
lemma occupy_setTracking (t : Tracker) (tracking : Tracking) (fit : Fit) (size : Nat) :
    (t.setTracking tracking).occupy fit size = (t.occupy fit size).setTracking tracking := by
  have hremove : (t.setTracking tracking).removeRun fit.run.offset fit.run.length =
      (t.removeRun fit.run.offset fit.run.length).setTracking tracking := rfl
  unfold occupy
  simp only [hremove, addRun_setTracking]
  rfl

lemma mergeBefore_setTracking (t : Tracker) (tracking : Tracking) (offset : Nat) :
    (t.setTracking tracking).mergeBefore offset =
      ((t.mergeBefore offset).1.setTracking tracking, (t.mergeBefore offset).2) := by
  have hrun : (t.setTracking tracking).runBefore? offset = t.runBefore? offset := rfl
  unfold mergeBefore
  rw [hrun]
  split <;> rfl

lemma mergeBehind_setTracking (t : Tracker) (tracking : Tracking) (offset : Nat) :
    (t.setTracking tracking).mergeBehind offset =
      ((t.mergeBehind offset).1.setTracking tracking, (t.mergeBehind offset).2) := by
  have hfind : (t.setTracking tracking).free.find? offset = t.free.find? offset := rfl
  unfold mergeBehind
  rw [hfind]
  split <;> rfl

lemma vacate_setTracking (t : Tracker) (tracking : Tracking) (offset size : Nat) :
    (t.setTracking tracking).vacate offset size =
      ((t.vacate offset size).1.setTracking tracking, (t.vacate offset size).2) := by
  have hslots : ({ t.setTracking tracking with
      slots := (t.setTracking tracking).slots.erase offset
      reserved := Word.sub (t.setTracking tracking).reserved size } : Tracker) =
        ({ t with slots := t.slots.erase offset, reserved := Word.sub t.reserved size } :
          Tracker).setTracking tracking := rfl
  unfold vacate
  simp only [hslots, mergeBefore_setTracking, mergeBehind_setTracking, addRun_setTracking]

/-! ## Notices -/

/-- An informative notice is given by a `muted` tracker if it is given and heard. -/
lemma reportNotices_muted (t : Tracker) {notice : Notice} (h : notice.severity = .info) :
    (t.muted loud).reportNotices notice = (t.reportNotices notice).filter (·.isHeard loud) := by
  have hreport : (t.muted loud).tracking.report = (loud && t.tracking.report) := rfl
  unfold reportNotices
  rw [hreport]
  cases loud <;> cases t.tracking.report <;> simp [Notice.isHeard, h]

/-- A `muted` tracker does not check itself. -/
lemma checkNotices_muted (t : Tracker) (action : Action) :
    (t.muted loud).checkNotices action = [] := by
  have hcheck : (t.muted loud).tracking.check = false := rfl
  unfold checkNotices
  rw [hcheck]
  rfl

/-- All that a `muted` tracker leaves out of its notices is what is not heard. -/
lemma notices_muted {after : Tracker} (hafter : after.InOrder) {notice : Notice}
    (h : notice.severity = .info) (action : Action) :
    (after.muted loud).reportNotices notice ++ (after.muted loud).checkNotices action =
      (after.reportNotices notice ++ after.checkNotices action).filter (·.isHeard loud) := by
  rw [checkNotices_muted, checkNotices_eq_nil hafter, List.append_nil, List.append_nil,
    reportNotices_muted after h]

/-! ## Actions -/

/-- On a `muted` tracker, `reserve` has the same answer and leaves the same state, muted. -/
lemma reserve_muted (ht : t.InOrder) (size alignment : Nat) :
    (t.muted loud).reserve size alignment =
      (t.reserve size alignment).muted loud (muted loud) := by
  have hfit : (t.muted loud).bestFit? (slotSize size) (max alignment 1) =
      t.bestFit? (slotSize size) (max alignment 1) := rfl
  unfold reserve Outcome.muted
  simp only [hfit]
  split
  · rcases hbest : t.bestFit? (slotSize size) (max alignment 1) with _ | fit
    · simp only
      rw [reportNotices_muted t rfl]
      rfl
    · have hafter := inOrder_occupy ht (fits_of_bestFit? ht (by omega) hbest) (slotSize_pos size)
      have hstate : (t.muted loud).occupy fit (slotSize size) =
          (t.occupy fit (slotSize size)).muted loud := by
        unfold muted
        rw [occupy_setTracking, occupy_tracking]
      simp only [hstate]
      rw [notices_muted hafter rfl]
  · simp only
    rw [Notice.filter_isHeard Severity.noConfusion]

/-- On a `muted` tracker, `release` has the same answer and leaves the same state, muted. -/
lemma release_muted (ht : t.InOrder) (offset size : Nat) :
    (t.muted loud).release offset size = (t.release offset size).muted loud (muted loud) := by
  have hfind : (t.muted loud).slots.find? offset = t.slots.find? offset := rfl
  unfold release Outcome.muted
  simp only [hfind]
  rcases hheld : t.slots.find? offset with _ | held
  · simp only
    rw [Notice.filter_isHeard Severity.noConfusion]
  · simp only
    split
    · rename_i hsize
      have hafter : (t.vacate offset (slotSize size)).1.InOrder :=
        inOrder_vacate ht (hsize ▸ hheld)
      have hstate : (t.muted loud).vacate offset (slotSize size) =
          ((t.vacate offset (slotSize size)).1.muted loud,
            (t.vacate offset (slotSize size)).2) := by
        unfold muted
        rw [vacate_setTracking, vacate_tracking]
      simp only [hstate]
      rw [notices_muted hafter rfl]
    · simp only
      rw [Notice.filter_isHeard Severity.noConfusion]

end Tracker

end BlockPool
