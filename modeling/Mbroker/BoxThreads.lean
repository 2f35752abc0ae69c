/-
The array of boxes with any number of threads.

`find_box`, `add_box`, `delete_box` and `add_subscriber_to_box` work under one `mutex`.  Here they
are again, with the mutex, and with each access to `boxes` and `n_boxes` a step: `find_box` looks at
one name at a time, and `delete_box` swaps one field at a time.

* `run_boxCall` — without other threads they are the functions of `Boxes`;
* `guarded_boxCall` — no way out keeps the mutex, and nothing is looked at without it;
* **`boxes_linearizable`** — with any number of threads, every history is one of calls that happen
  in an instant each.
-/
import Mbroker.Boxes
import Mbroker.Monitor

namespace Mbroker

open Monitor Monitor.Code SlotTable

/-- A call of a function that works under `mutex`. -/
inductive BoxCall where
  | findBox (boxName : CString)
  | addBox (box : Box)
  | deleteBox (i : Int)
  | addSubscriberToBox (boxIndex : Nat) (pipeName : CString)

/-- One call; only `find_box` returns something. -/
def boxCall : BoxCall → BoxTable → Outcome (Int × BoxTable)
  | .findBox boxName, t => .ok (findBox boxName t, t)
  | .addBox box, t => (addBox box t).map fun t => (0, t)
  | .deleteBox i, t => (deleteBox i t).map fun t => (0, t)
  | .addSubscriberToBox boxIndex pipeName, t =>
    (addSubscriberToBox boxIndex pipeName t).map fun t => (0, t)

namespace Locked

/-- The loop of `find_box`, with `left` records to the end of the array. -/
def findFrom (boxName : CString) : Nat → Code BoxTable Int
  | 0 => do
    -- There is no `boxes[MAX_BOXES]`.
    query fun t => if maxBoxes < t.nBoxes then .fault else .ok ()
    release
    return -1
  | left + 1 => do
    let i := maxBoxes - (left + 1)
    if i < (← read BoxTable.nBoxes) then
      if (← read fun t => t.name i) = boxName then
        release
        return i
      else findFrom boxName left
    else
      release
      return -1

/-- `find_box`. -/
def findBox (boxName : CString) : Code BoxTable Int := do
  acquire
  findFrom boxName maxBoxes

/-- `add_box`. -/
def addBox (box : Box) : Code BoxTable Int := do
  acquire
  perform fun t =>
    if maxBoxes ≤ t.nBoxes then .fault
    else .ok ((), { t with boxes := Function.update t.boxes t.nBoxes box })
  assign fun t => { t with initialised := Function.update t.initialised t.nBoxes true }
  assign fun t => { t with nBoxes := t.nBoxes + 1 }
  release
  return 0

/-- `n_boxes - 1`, for an access to `boxes`. -/
def lastIndex : Code BoxTable Nat :=
  query fun t => if t.nBoxes = 0 ∨ maxBoxes < t.nBoxes then .fault else .ok (t.nBoxes - 1)

/-- Three assignments of `delete_box`, which swap a field through an auxiliary variable. -/
def swapField {α : Type} (field : Box → α) (set : α → Box → Box) (i : Nat) :
    Code BoxTable Unit := do
  let aux ← read fun t => field (t.boxes i)
  let j ← lastIndex
  assign fun t => t.modify i (set (field (t.boxes j)))
  let j ← lastIndex
  assign fun t => t.modify j (set aux)

/-- `delete_box` swaps the record with the last one, field by field. -/
def swapFields (i : Nat) : Code BoxTable Unit := do
  swapField Box.boxName (fun v box => { box with boxName := v }) i
  swapField Box.publisher (fun v box => { box with publisher := v }) i
  swapField Box.boxSize (fun v box => { box with boxSize := v }) i
  swapField Box.nPublishers (fun v box => { box with nPublishers := v }) i
  swapField Box.nSubscribers (fun v box => { box with nSubscribers := v }) i
  swapField Box.last (fun v box => { box with last := v }) i

/-- `delete_box`; that it opens the pipe of the publisher, which may have to wait with the
`mutex`, is left out. -/
def deleteBox (i : Int) : Code BoxTable Int := do
  acquire
  query fun _ => if i < 0 ∨ maxBoxes ≤ i.toNat then .fault else .ok ()
  swapFields i.toNat
  perform fun t =>
    if maxBoxes ≤ t.nBoxes then .fault
    else .ok ((), { t with initialised := Function.update t.initialised t.nBoxes false })
  assign fun t => { t with nBoxes := t.nBoxes - 1 }
  release
  return 0

/-- `add_subscriber_to_box`. -/
def addSubscriberToBox (boxIndex : Nat) (pipeName : CString) : Code BoxTable Int := do
  acquire
  let i ← read fun t => (t.boxes boxIndex).subscriberIndex
  perform fun t =>
    if i < 0 ∨ maxBoxes ≤ i.toNat then .fault
    else .ok ((), t.modify boxIndex fun box =>
      { box with subscribers := Function.update box.subscribers i.toNat pipeName })
  assign fun t => t.modify boxIndex fun box =>
    { box with subscriberIndex := box.subscriberIndex + 1 }
  release
  return 0

/-- One call. -/
def boxCall : BoxCall → Code BoxTable Int
  | .findBox boxName => findBox boxName
  | .addBox box => addBox box
  | .deleteBox i => deleteBox i
  | .addSubscriberToBox boxIndex pipeName => addSubscriberToBox boxIndex pipeName

/-! ### Without other threads -/

section Run

variable {t : BoxTable} {boxName : CString} {box last : Box} {i j : Nat}

/-- The scan of `find_box`, from the record `i` on. -/
theorem run_findFrom (hn : t.nBoxes ≤ maxBoxes) {left : Nat} (hleft : left ≤ maxBoxes)
    (hno : ∀ j < maxBoxes - left, j < t.nBoxes → t.name j ≠ boxName) :
    (findFrom boxName left).run t = .ok (Mbroker.findBox boxName t, t) := by
  induction left with
  | zero =>
    have hnone : firstFit (fun i => t.name i == boxName) t.nBoxes = none :=
      firstFit_eq_none.mpr fun j hj => by simpa using hno j (by omega) hj
    simp only [findFrom, run_bind, run_query, if_neg (Nat.not_lt.mpr hn), Outcome.map, Outcome.ok_bind,
      run_release, run_pure, Mbroker.findBox, hnone]
  | succ left ih =>
    simp only [findFrom, run_bind, run_read, Outcome.ok_bind]
    by_cases hi : maxBoxes - (left + 1) < t.nBoxes
    · simp only [if_pos hi, run_bind, run_read, Outcome.ok_bind]
      by_cases hname : t.name (maxBoxes - (left + 1)) = boxName
      · have hsome : firstFit (fun i => t.name i == boxName) t.nBoxes =
            some (maxBoxes - (left + 1)) :=
          firstFit_eq_some.mpr ⟨hi, by simpa using hname, fun j hj => by
            simpa using hno j hj (by omega)⟩
        simp only [if_pos hname, run_bind, run_release, Outcome.ok_bind, run_pure, Mbroker.findBox,
          hsome]
      · rw [if_neg hname]
        refine ih (by omega) fun j hj hjn => ?_
        rcases Nat.lt_or_ge j (maxBoxes - (left + 1)) with hlt | hge
        · exact hno j hlt hjn
        · obtain rfl : j = maxBoxes - (left + 1) := by omega
          exact hname
    · have hnone : firstFit (fun i => t.name i == boxName) t.nBoxes = none :=
        firstFit_eq_none.mpr fun j hj => by simpa using hno j (by omega) hj
      simp only [if_neg hi, run_bind, run_release, Outcome.ok_bind, run_pure, Mbroker.findBox, hnone]

theorem run_findBox (hn : t.nBoxes ≤ maxBoxes) (boxName : CString) :
    (findBox boxName).run t = .ok (Mbroker.findBox boxName t, t) := by
  rw [findBox, run_bind, run_acquire, Outcome.ok_bind]
  exact run_findFrom hn le_rfl fun j hj => absurd hj (by simp)

theorem run_addBox (box : Box) (t : BoxTable) :
    (addBox box).run t = (Mbroker.addBox box t).map fun t => (0, t) := by
  simp only [addBox, Mbroker.addBox, run_bind, run_acquire, Outcome.ok_bind, run_perform]
  split
  · rfl
  · simp only [Outcome.ok_bind, run_assign, run_release, run_pure, Outcome.map]

theorem modify_eq_self {f : Box → Box} (h : f (t.boxes i) = t.boxes i) : t.modify i f = t := by
  rw [BoxTable.modify, h, Function.update_eq_self]

theorem run_addSubscriberToBox (boxIndex : Nat) (pipeName : CString) (t : BoxTable) :
    (addSubscriberToBox boxIndex pipeName).run t =
      (Mbroker.addSubscriberToBox boxIndex pipeName t).map fun t => (0, t) := by
  simp only [addSubscriberToBox, Mbroker.addSubscriberToBox, run_bind, run_acquire, Outcome.ok_bind,
    run_read, run_perform]
  split
  · rfl
  · simp only [Outcome.ok_bind, run_assign, run_release, run_pure, Outcome.map,
      BoxTable.modify_modify]
    rfl

/-- The table with two records replaced. -/
def withPair (t : BoxTable) (i : Nat) (box last : Box) : BoxTable :=
  { t with boxes := Function.update (Function.update t.boxes i box) (t.nBoxes - 1) last }

theorem run_lastIndex (hn : t.nBoxes ≠ 0) (hmax : t.nBoxes ≤ maxBoxes) :
    lastIndex.run t = .ok (t.nBoxes - 1, t) := by
  rw [lastIndex, run_query, if_neg (by omega)]
  rfl

section Swap

variable {α : Type} {field : Box → α} {set : α → Box → Box}

theorem run_swapField (hn : t.nBoxes ≠ 0) (hmax : t.nBoxes ≤ maxBoxes) :
    (swapField field set i).run t = .ok ((), (t.modify i
      (set (field (t.boxes (t.nBoxes - 1))))).modify (t.nBoxes - 1) (set (field (t.boxes i)))) := by
  have hlast := run_lastIndex (t := t.modify i (set (field (t.boxes (t.nBoxes - 1))))) hn hmax
  simp only [swapField, run_bind, run_read, Outcome.ok_bind, run_assign, run_lastIndex hn hmax, hlast]
  rfl

/-- The last record is swapped with itself. -/
theorem run_swapField_self (hset : ∀ box, set (field box) box = box) (hn : t.nBoxes ≠ 0)
    (hmax : t.nBoxes ≤ maxBoxes) (hi : i = t.nBoxes - 1) :
    (swapField field set i).run t = .ok ((), t) := by
  rw [run_swapField hn hmax, ← hi, modify_eq_self (hset _), modify_eq_self (hset _)]

theorem run_swapField_withPair (hn : t.nBoxes ≠ 0) (hmax : t.nBoxes ≤ maxBoxes)
    (hi : i ≠ t.nBoxes - 1) :
    (swapField field set i).run (withPair t i box last) =
      .ok ((), withPair t i (set (field last) box) (set (field box) last)) := by
  have hbox : (withPair t i box last).boxes i = box := by
    show Function.update (Function.update t.boxes i box) (t.nBoxes - 1) last i = box
    rw [Function.update_of_ne hi, Function.update_self]
  have hlast : (withPair t i box last).boxes (t.nBoxes - 1) = last := Function.update_self ..
  have hcount : (withPair t i box last).nBoxes = t.nBoxes := rfl
  rw [run_swapField (t := withPair t i box last) hn hmax, hcount, hbox, hlast]
  simp only [BoxTable.modify, hbox, Function.update_of_ne (Ne.symm hi), hlast]
  simp only [withPair, Function.update_comm hi, Function.update_idem]

end Swap

theorem run_swapFields (hn : t.nBoxes ≠ 0) (hmax : t.nBoxes ≤ maxBoxes) :
    (swapFields i).run t = .ok ((), withPair t i ((t.boxes i).swapped (t.boxes (t.nBoxes - 1)))
      ((t.boxes (t.nBoxes - 1)).swapped (t.boxes i))) := by
  rw [swapFields]
  by_cases hi : i = t.nBoxes - 1
  · have hself : withPair t i ((t.boxes i).swapped (t.boxes (t.nBoxes - 1)))
        ((t.boxes (t.nBoxes - 1)).swapped (t.boxes i)) = t := by
      subst hi
      show BoxTable.mk (Function.update (Function.update t.boxes _ _) _ (t.boxes (t.nBoxes - 1)))
        _ _ = t
      rw [Function.update_idem, Function.update_eq_self]
    rw [hself]
    iterate 5 rw [run_bind, run_swapField_self (fun _ => rfl) hn hmax hi, Outcome.ok_bind]
    exact run_swapField_self (fun _ => rfl) hn hmax hi
  · have hpair : t = withPair t i (t.boxes i) (t.boxes (t.nBoxes - 1)) := by
      rw [withPair, Function.update_eq_self, Function.update_eq_self]
    conv_lhs => rw [hpair]
    simp only [run_bind, run_swapField_withPair hn hmax hi, Outcome.ok_bind]
    rfl

theorem run_deleteBox (i : Int) (t : BoxTable) :
    (deleteBox i).run t = (Mbroker.deleteBox i t).map fun t => (0, t) := by
  rw [deleteBox, Mbroker.deleteBox, run_bind, run_acquire, Outcome.ok_bind, run_bind, run_query]
  by_cases hi : i < 0 ∨ maxBoxes ≤ i.toNat
  · rw [if_pos hi, if_pos (by tauto)]
    rfl
  rw [if_neg hi, Outcome.map, Outcome.ok_bind, run_bind]
  by_cases hn : t.nBoxes ≠ 0 ∧ t.nBoxes ≤ maxBoxes
  · rw [run_swapFields hn.1 hn.2, Outcome.ok_bind, run_bind, run_perform]
    by_cases hmax : maxBoxes ≤ t.nBoxes
    · rw [if_pos (show maxBoxes ≤ (withPair t _ _ _).nBoxes from hmax), if_pos (by tauto)]
      rfl
    · rw [if_neg (show ¬ maxBoxes ≤ (withPair t _ _ _).nBoxes from hmax), if_neg (by tauto)]
      rfl
  · -- There is no last record.
    have hlast : lastIndex.run t = .fault := by
      rw [lastIndex, run_query, if_pos (by omega)]
      rfl
    rw [if_pos (by omega)]
    simp only [swapFields, swapField, run_bind, run_read, Outcome.ok_bind, hlast, Outcome.fault_bind]
    rfl

theorem run_boxCall (c : BoxCall) (hn : t.nBoxes ≤ maxBoxes) :
    (boxCall c).run t = Mbroker.boxCall c t := by
  cases c with
  | findBox boxName => exact run_findBox hn boxName
  | addBox box => exact run_addBox box t
  | deleteBox i => exact run_deleteBox i t
  | addSubscriberToBox boxIndex pipeName => exact run_addSubscriberToBox boxIndex pipeName t

end Run

/-! ### The mutex -/

theorem holding_findFrom (boxName : CString) (left : Nat) : (findFrom boxName left).Holding := by
  induction left with
  | zero => exact .query fun _ => .release (-1)
  | succ left ih =>
    refine .read fun n => ?_
    split
    · refine .read fun name => ?_
      split
      · exact .release _
      · exact ih
    · exact .release (-1)

theorem holding_swapField {α : Type} {field : Box → α} {set : α → Box → Box} {i : Nat}
    {k : Unit → Code BoxTable Int} (h : (k ()).Holding) :
    (swapField field set i >>= k).Holding := by
  simp only [swapField, bind_assoc]
  exact .read fun aux => .query fun j => .assign (.query fun j => .assign h)

theorem guarded_boxCall (c : BoxCall) : (boxCall c).Guarded := by
  cases c with
  | findBox boxName => exact .acquire (holding_findFrom boxName maxBoxes)
  | addBox box => exact .acquire (.perform fun _ => .assign (.assign (.release 0)))
  | addSubscriberToBox boxIndex pipeName =>
    exact .acquire (.read fun i => .perform fun _ => .assign (.release 0))
  | deleteBox i =>
    refine .acquire (.query fun _ => ?_)
    simp only [swapFields, bind_assoc]
    iterate 6 refine holding_swapField ?_
    exact .perform fun _ => .assign (.release 0)

end Locked

/-! ### Threads -/

variable {ι : Type} [DecidableEq ι] {t : BoxTable} {es : List (Event ι BoxCall Int)}
  {s : Shared ι BoxTable Int}

/-- `n_boxes` never exceeds the size of the array. -/
theorem nBoxes_of_boxCall (c : BoxCall) (t : BoxTable) (r : Int) (t' : BoxTable)
    (hn : t.nBoxes ≤ maxBoxes) (h : boxCall c t = .ok (r, t')) : t'.nBoxes ≤ maxBoxes := by
  cases c with
  | findBox boxName =>
    obtain ⟨-, rfl⟩ := Prod.mk.inj (Outcome.ok.inj h)
    exact hn
  | addBox box =>
    obtain ⟨t₁, hadd, hret⟩ := Outcome.map_eq_ok.mp h
    obtain ⟨-, rfl⟩ := Prod.mk.inj hret
    rw [addBox] at hadd
    split at hadd
    case isTrue => cases hadd
    case isFalse hroom =>
      rw [← Outcome.ok.inj hadd]
      show t.nBoxes + 1 ≤ maxBoxes
      omega
  | deleteBox i =>
    obtain ⟨t₁, hdelete, hret⟩ := Outcome.map_eq_ok.mp h
    obtain ⟨-, rfl⟩ := Prod.mk.inj hret
    rw [deleteBox] at hdelete
    split at hdelete
    case isTrue => cases hdelete
    case isFalse =>
      rw [← Outcome.ok.inj hdelete]
      exact (Nat.sub_le _ _).trans hn
  | addSubscriberToBox boxIndex pipeName =>
    obtain ⟨t₁, hadd, hret⟩ := Outcome.map_eq_ok.mp h
    obtain ⟨-, rfl⟩ := Prod.mk.inj hret
    rw [addSubscriberToBox] at hadd
    split at hadd
    case isTrue => cases hadd
    case isFalse =>
      rw [← Outcome.ok.inj hadd]
      exact hn

/-- **The functions that take `mutex` are linearizable.**  What their callers see is what they would
see if each call happened in an instant; and the calls, in the order of these instants, are a run
of the program without threads. -/
theorem boxes_linearizable (hn : t.nBoxes ≤ maxBoxes) (h : Run Locked.boxCall t es s) :
    ∃ a : Atomic ι BoxCall BoxTable Int, AtomicRun boxCall t es a ∧
      Outcome.runList boxCall (a.done.map Prod.fst) t = .ok (a.done.map Prod.snd, a.state) ∧
      (s.holder = none → a.state = s.state) := by
  obtain ⟨a, hrun, hsim⟩ := exists_atomicRun Locked.guarded_boxCall h
  have hrun' : AtomicRun boxCall t es a :=
    (hrun.congr (I := fun t : BoxTable => t.nBoxes ≤ maxBoxes)
      (fun c t r t' hn hc => nBoxes_of_boxCall c t r t' hn (Locked.run_boxCall c hn ▸ hc))
      (fun c t hn => Locked.run_boxCall c hn) hn).1
  exact ⟨a, hrun', hrun'.runList, hsim.state⟩

/-- A box is looked for while it is added, and found. -/
def addAndFind : List (Event Bool BoxCall Int) :=
  [.call false (.addBox .zero), .call true (.findBox .empty), .answer true 0, .answer false 0]

theorem exists_run_addAndFind : ∃ s, Run Locked.boxCall .empty addAndFind s := by
  have h : Run Locked.boxCall .empty [] (.start .empty : Shared Bool BoxTable Int) := .start
  have h := h.step (.call false (.addBox .zero) rfl)
  have h := h.step (.call true (.findBox .empty) rfl)
  have h := h.step (.lock false _ rfl rfl)
  have h := h.step (.access false _ _ () _ rfl rfl)
  have h := h.step (.access false _ _ () _ rfl rfl)
  have h := h.step (.access false _ _ () _ rfl rfl)
  have h := h.step (.unlock false _ rfl)
  have h := h.step (.lock true _ rfl rfl)
  have h := h.step (.access true _ _ 1 _ rfl rfl)
  have h := h.step (.access true _ _ CString.empty _ rfl rfl)
  have h := h.step (.unlock true _ rfl)
  have h := h.step (.answer true 0 rfl)
  have h := h.step (.answer false 0 rfl)
  exact ⟨_, h⟩

theorem boxes_linearizable_addAndFind :
    ∃ a : Atomic Bool BoxCall BoxTable Int, AtomicRun boxCall .empty addAndFind a := by
  obtain ⟨s, h⟩ := exists_run_addAndFind
  obtain ⟨a, ha, -⟩ := boxes_linearizable (Nat.zero_le _) h
  exact ⟨a, ha⟩

end Mbroker
