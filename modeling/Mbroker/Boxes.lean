/-
The array of boxes.

`boxes[0 .. n_boxes)` are the boxes there are; `delete_box` moves the last one
into the place of the one removed, and with it the fields that it swaps (the
names of the subscribers stay where they are).  An access outside the array is
undefined behaviour.

* `findBox_eq` — `find_box` on a table without repeated names;
* `addBox_ok`, `deleteBox_ok` — what is in the table afterwards;
* `count_addBox`, `count_deleteBox` — how often a name is there afterwards.
-/
import Mbroker.Outcome
import Mbroker.SlotTable
import Mbroker.Utils

namespace Mbroker

open SlotTable

/-- `box_t`. -/
structure Box where
  boxName : CString
  publisher : CString
  boxSize : Nat
  nPublishers : Nat
  nSubscribers : Nat
  subscribers : Nat → CString
  subscriberIndex : Int
  last : Nat

/-- A record of a static array. -/
def Box.zero : Box where
  boxName := .empty
  publisher := .empty
  boxSize := 0
  nPublishers := 0
  nSubscribers := 0
  subscribers := fun _ => .empty
  subscriberIndex := 0
  last := 0

/-- `boxes` and `n_boxes`; `initialised` are the slots of `box_conditions` and
`box_mutexes` that have been initialised and not destroyed since. -/
structure BoxTable where
  boxes : Nat → Box
  nBoxes : Nat
  initialised : Nat → Bool

namespace BoxTable

/-- The table when `main` starts. -/
def empty : BoxTable := ⟨fun _ => .zero, 0, fun _ => false⟩

/-- The name of a record. -/
def name (t : BoxTable) (i : Nat) : CString := (t.boxes i).boxName

/-- Assignment to fields of `boxes[i]`. -/
def modify (t : BoxTable) (i : Nat) (f : Box → Box) : BoxTable :=
  { t with boxes := Function.update t.boxes i (f (t.boxes i)) }

end BoxTable

/-- `find_box`: the index, or `-1`. -/
def findBox (boxName : CString) (t : BoxTable) : Int :=
  match firstFit (fun i => t.name i == boxName) t.nBoxes with
  | some i => i
  | none => -1

/-- `add_box`. -/
def addBox (box : Box) (t : BoxTable) : Outcome BoxTable :=
  if maxBoxes ≤ t.nBoxes then .fault
  else
    .ok
      { boxes := Function.update t.boxes t.nBoxes box
        nBoxes := t.nBoxes + 1
        initialised := Function.update t.initialised t.nBoxes true }

/-- The fields that `delete_box` takes from the other record. -/
def Box.swapped (box other : Box) : Box :=
  { box with
    boxName := other.boxName
    publisher := other.publisher
    boxSize := other.boxSize
    nPublishers := other.nPublishers
    nSubscribers := other.nSubscribers
    last := other.last }

/-- `delete_box`, from where it has opened and closed the pipe of the publisher, if the record
has one: it swaps the record with the last one, and destroys the condition variable and the
mutex at `n_boxes`, past the last. -/
def deleteBox (i : Int) (t : BoxTable) : Outcome BoxTable :=
  if i < 0 ∨ maxBoxes ≤ i.toNat ∨ t.nBoxes = 0 ∨ maxBoxes ≤ t.nBoxes then .fault
  else
    let box := t.boxes i.toNat
    let lastBox := t.boxes (t.nBoxes - 1)
    let boxes := Function.update t.boxes i.toNat (box.swapped lastBox)
    .ok
      { boxes := Function.update boxes (t.nBoxes - 1) (lastBox.swapped box)
        nBoxes := t.nBoxes - 1
        initialised := Function.update t.initialised t.nBoxes false }

/-- `add_subscriber_to_box`. -/
def addSubscriberToBox (boxIndex : Nat) (pipeName : CString) (t : BoxTable) : Outcome BoxTable :=
  let i := (t.boxes boxIndex).subscriberIndex
  if i < 0 ∨ maxBoxes ≤ i.toNat then .fault
  else
    .ok (t.modify boxIndex fun box =>
      { box with
        subscribers := Function.update box.subscribers i.toNat pipeName
        subscriberIndex := i + 1 })

namespace BoxTable

variable {t t' : BoxTable} {i j : Nat} {boxName : CString} {f : Box → Box}

/-- No two boxes have one name. -/
def Distinct (t : BoxTable) : Prop :=
  ∀ i < t.nBoxes, ∀ j < t.nBoxes, t.name i = t.name j → i = j

@[simp] theorem nBoxes_modify : (t.modify i f).nBoxes = t.nBoxes := rfl

theorem boxes_modify_self : (t.modify i f).boxes i = f (t.boxes i) := Function.update_self _ _ _

theorem boxes_modify_ne (h : j ≠ i) : (t.modify i f).boxes j = t.boxes j :=
  Function.update_of_ne h _ _

theorem modify_modify {g : Box → Box} :
    (t.modify i f).modify i g = t.modify i fun box => g (f box) := by
  rw [modify, modify, modify]
  dsimp only
  rw [Function.update_self, Function.update_idem]

theorem name_modify (h : ∀ box, (f box).boxName = box.boxName) : (t.modify i f).name = t.name := by
  funext j
  by_cases hj : j = i
  · rw [name, name, hj, boxes_modify_self, h]
  · rw [name, name, boxes_modify_ne hj]

theorem Distinct.congr (h : t.Distinct) (hn : t'.nBoxes = t.nBoxes) (hname : t'.name = t.name) :
    t'.Distinct := by
  intro i hi j hj
  rw [hn] at hi hj
  rw [hname]
  exact h i hi j hj

theorem findBox_congr (hn : t'.nBoxes = t.nBoxes) (hname : t'.name = t.name) :
    findBox boxName t' = findBox boxName t := by
  rw [findBox, findBox, hn, hname]

/-- Either no box has the name, or `find_box` gives the first one that has. -/
theorem findBox_cases (t : BoxTable) (boxName : CString) :
    findBox boxName t = -1 ∧ (∀ i < t.nBoxes, t.name i ≠ boxName) ∨
      ∃ i < t.nBoxes, findBox boxName t = i ∧ t.name i = boxName := by
  rw [findBox]
  cases h : firstFit (fun i => t.name i == boxName) t.nBoxes with
  | none =>
    refine Or.inl ⟨rfl, fun i hi => ?_⟩
    simpa using firstFit_eq_none.mp h i hi
  | some i =>
    obtain ⟨hi, hname, -⟩ := firstFit_eq_some.mp h
    exact Or.inr ⟨i, hi, rfl, by simpa using hname⟩

theorem findBox_eq_neg : findBox boxName t = -1 ↔ ∀ i < t.nBoxes, t.name i ≠ boxName := by
  rcases t.findBox_cases boxName with ⟨heq, hno⟩ | ⟨i, hi, heq, hname⟩
  · exact ⟨fun _ => hno, fun _ => heq⟩
  · exact ⟨fun h => by omega, fun h => absurd hname (h i hi)⟩

/-- **`find_box`**, when names are not repeated. -/
theorem findBox_eq (h : t.Distinct) (hi : i < t.nBoxes) :
    findBox boxName t = i ↔ t.name i = boxName := by
  rcases t.findBox_cases boxName with ⟨heq, hno⟩ | ⟨k, hk, heq, hname⟩
  · exact ⟨fun h => by omega, fun hn => absurd hn (hno i hi)⟩
  · rw [heq]
    constructor
    · intro hki
      obtain rfl : k = i := by omega
      exact hname
    · intro hn
      rw [h k hk i hi (hname.trans hn.symm)]

/-- The box that a successful `find_box` gives. -/
theorem of_findBox (h : findBox boxName t ≠ -1) :
    ∃ i < t.nBoxes, findBox boxName t = i ∧ t.name i = boxName := by
  rcases t.findBox_cases boxName with ⟨heq, -⟩ | hfound
  · exact absurd heq h
  · exact hfound

/-- What `find_box` finds is in the array. -/
theorem findBox_index (ht : t.nBoxes ≤ maxBoxes) (h : findBox boxName t ≠ -1) :
    0 ≤ findBox boxName t ∧ (findBox boxName t).toNat < maxBoxes := by
  obtain ⟨i, hi, hfi, -⟩ := of_findBox h
  omega

theorem of_addSubscriberToBox {pipeName : CString} (h : addSubscriberToBox i pipeName t = .ok t') :
    t'.nBoxes = t.nBoxes ∧ t'.name = t.name := by
  rw [addSubscriberToBox] at h
  split at h
  · cases h
  · obtain rfl := Outcome.ok.inj h
    exact ⟨rfl, name_modify fun _ => rfl⟩

/-! ### One box more -/

theorem addBox_ok {box : Box} (h : addBox box t = .ok t') :
    t.nBoxes < maxBoxes ∧ t'.nBoxes = t.nBoxes + 1 ∧ t'.boxes t.nBoxes = box ∧
      ∀ j ≠ t.nBoxes, t'.boxes j = t.boxes j := by
  rw [addBox] at h
  split at h
  · cases h
  · obtain rfl := Outcome.ok.inj h
    exact ⟨by omega, rfl, Function.update_self _ _ _, fun j hj => Function.update_of_ne hj _ _⟩

theorem Distinct.addBox {box : Box} (ht : t.Distinct) (h : addBox box t = .ok t')
    (hnew : ∀ i < t.nBoxes, t.name i ≠ box.boxName) : t'.Distinct := by
  obtain ⟨-, hn, hself, hother⟩ := addBox_ok h
  have hcases : ∀ i < t'.nBoxes, i = t.nBoxes ∧ t'.name i = box.boxName ∨
      i < t.nBoxes ∧ t'.name i = t.name i := by
    intro i hi
    by_cases heq : i = t.nBoxes
    · exact Or.inl ⟨heq, by rw [name, heq, hself]⟩
    · exact Or.inr ⟨by omega, by rw [name, name, hother i heq]⟩
  intro i hi j hj heq
  rcases hcases i hi with ⟨rfl, hi'⟩ | ⟨hlt, hi'⟩
  · rcases hcases j hj with ⟨rfl, -⟩ | ⟨hlt', hj'⟩
    · rfl
    · exact absurd (hj'.symm.trans (heq.symm.trans hi')) (hnew j hlt')
  · rcases hcases j hj with ⟨rfl, hj'⟩ | ⟨hlt', hj'⟩
    · exact absurd (hi'.symm.trans (heq.trans hj')) (hnew i hlt)
    · exact ht i hlt j hlt' (hi'.symm.trans (heq.trans hj'))

/-! ### One box less -/

/-- Where the box at `j` was before box `i` was removed. -/
def movedFrom (t : BoxTable) (i j : Nat) : Nat := if j = i then t.nBoxes - 1 else j

theorem deleteBox_ok (h : deleteBox i t = .ok t') :
    i < maxBoxes ∧ 0 < t.nBoxes ∧ t'.nBoxes = t.nBoxes - 1 ∧
      ∀ j < t'.nBoxes, t'.boxes j = (t.boxes j).swapped (t.boxes (t.movedFrom i j)) := by
  rw [deleteBox] at h
  split at h
  · cases h
  · case isFalse hrange =>
    push Not at hrange
    obtain ⟨-, himax, hn, -⟩ := hrange
    obtain rfl := Outcome.ok.inj h
    refine ⟨himax, by omega, rfl, fun j hj => ?_⟩
    have hlast : j ≠ t.nBoxes - 1 := Nat.ne_of_lt hj
    show Function.update _ _ _ j = _
    rw [Function.update_of_ne hlast, Int.toNat_natCast, movedFrom]
    by_cases hji : j = i
    · subst hji
      rw [Function.update_self, if_pos rfl]
    · rw [Function.update_of_ne hji, if_neg hji]
      rfl

theorem movedFrom_lt (hj : j < t.nBoxes - 1) : t.movedFrom i j < t.nBoxes := by
  rw [movedFrom]
  split <;> omega

/-- Its place is one that is left. -/
theorem movedFrom_ne (hj : j < t.nBoxes - 1) : t.movedFrom i j ≠ i := by
  rw [movedFrom]
  split <;> omega

/-- And every box but the one removed has a place. -/
theorem exists_movedFrom {k : Nat} (hk : k < t.nBoxes) (hki : k ≠ i) (hi : i < t.nBoxes) :
    ∃ j < t.nBoxes - 1, t.movedFrom i j = k := by
  by_cases hlast : k = t.nBoxes - 1
  · exact ⟨i, by omega, by rw [movedFrom, if_pos rfl, hlast]⟩
  · refine ⟨k, by omega, ?_⟩
    rw [movedFrom, if_neg hki]

theorem movedFrom_inj {k : Nat} (hj : j < t.nBoxes - 1) (hk : k < t.nBoxes - 1)
    (h : t.movedFrom i j = t.movedFrom i k) : j = k := by
  rw [movedFrom, movedFrom] at h
  split at h <;> split at h <;> omega

theorem name_deleteBox (h : deleteBox i t = .ok t') (hj : j < t'.nBoxes) :
    t'.name j = t.name (t.movedFrom i j) := by
  obtain ⟨-, -, -, hboxes⟩ := deleteBox_ok h
  rw [name, hboxes j hj]
  rfl

theorem Distinct.deleteBox (ht : t.Distinct) (h : deleteBox i t = .ok t') : t'.Distinct := by
  obtain ⟨-, -, hn, -⟩ := deleteBox_ok h
  intro j hj k hk heq
  rw [name_deleteBox h hj, name_deleteBox h hk] at heq
  rw [hn] at hj hk
  exact movedFrom_inj hj hk (ht _ (movedFrom_lt hj) _ (movedFrom_lt hk) heq)

theorem addBox_returns (box : Box) (h : t.nBoxes < maxBoxes) :
    ∃ t', Mbroker.addBox box t = .ok t' := by
  rw [Mbroker.addBox, if_neg (by omega)]
  exact ⟨_, rfl⟩

theorem deleteBox_returns (hi : i < t.nBoxes) (h : t.nBoxes < maxBoxes) :
    ∃ t', Mbroker.deleteBox i t = .ok t' := by
  rw [Mbroker.deleteBox, if_neg (by omega)]
  exact ⟨_, rfl⟩

/-! ### How often a name occurs -/

/-- Some box has the name. -/
def Holds (t : BoxTable) (q : CString) : Prop := ∃ i < t.nBoxes, t.name i = q

instance (t : BoxTable) (q : CString) : Decidable (t.Holds q) :=
  inferInstanceAs (Decidable (∃ i < t.nBoxes, t.name i = q))

/-- How many boxes have the name. -/
def count (t : BoxTable) (q : CString) : Nat :=
  ((Finset.range t.nBoxes).filter fun i => t.name i = q).card

theorem holds_modify {q : CString} (h : ∀ box, (f box).boxName = box.boxName) :
    (t.modify i f).Holds q ↔ t.Holds q := by
  rw [Holds, Holds, nBoxes_modify, name_modify h]

theorem findBox_ne_neg : findBox boxName t ≠ -1 ↔ t.Holds boxName := by
  rw [ne_eq, findBox_eq_neg, Holds]
  push Not
  rfl

theorem count_pos : 0 < t.count boxName ↔ t.Holds boxName := by
  rw [count, Finset.card_pos]
  constructor
  · rintro ⟨i, hi⟩
    obtain ⟨hi, hname⟩ := Finset.mem_filter.mp hi
    exact ⟨i, Finset.mem_range.mp hi, hname⟩
  · rintro ⟨i, hi, hname⟩
    exact ⟨i, Finset.mem_filter.mpr ⟨Finset.mem_range.mpr hi, hname⟩⟩

theorem distinct_iff_count : t.Distinct ↔ ∀ q, t.count q ≤ 1 := by
  simp only [count, Finset.card_le_one, Finset.mem_filter, Finset.mem_range]
  constructor
  · intro h q i hi j hj
    exact h i hi.1 j hj.1 (hi.2.trans hj.2.symm)
  · intro h i hi j hj heq
    exact h (t.name i) i ⟨hi, rfl⟩ j ⟨hj, heq.symm⟩

theorem count_addBox {box : Box} (h : Mbroker.addBox box t = .ok t') (q : CString) :
    t'.count q = t.count q + if box.boxName = q then 1 else 0 := by
  obtain ⟨-, hn, hself, hother⟩ := addBox_ok h
  have hold : (Finset.range t.nBoxes).filter (fun i => t'.name i = q) =
      (Finset.range t.nBoxes).filter fun i => t.name i = q := by
    refine Finset.filter_congr fun i hi => ?_
    rw [name, name, hother i (Finset.mem_range.mp hi).ne]
  have hnew : t'.name t.nBoxes = box.boxName := by rw [name, hself]
  rw [count, hn, Finset.range_add_one, Finset.filter_insert, hold, hnew]
  split
  · rw [Finset.card_insert_of_notMem (by simp), count]
  · rw [count, add_zero]

theorem count_deleteBox (h : Mbroker.deleteBox i t = .ok t') (hi : i < t.nBoxes) (q : CString) :
    t'.count q + (if t.name i = q then 1 else 0) = t.count q := by
  obtain ⟨-, -, hn, -⟩ := deleteBox_ok h
  -- The boxes that are left are the other ones, in new places.
  have hrest : t'.count q =
      (((Finset.range t.nBoxes).filter fun k => t.name k = q).erase i).card := by
    refine Finset.card_nbij (t.movedFrom i) (fun j hj => ?_) (fun j hj k hk heq => ?_) fun k hk => ?_
    · obtain ⟨hj, hname⟩ := Finset.mem_filter.mp hj
      have hlt : j < t.nBoxes - 1 := hn ▸ Finset.mem_range.mp hj
      rw [name_deleteBox h (Finset.mem_range.mp hj)] at hname
      exact Finset.mem_erase.mpr ⟨movedFrom_ne hlt,
        Finset.mem_filter.mpr ⟨Finset.mem_range.mpr (movedFrom_lt hlt), hname⟩⟩
    · have hj := Finset.mem_range.mp (Finset.mem_filter.mp hj).1
      have hk := Finset.mem_range.mp (Finset.mem_filter.mp hk).1
      rw [hn] at hj hk
      exact movedFrom_inj hj hk heq
    · obtain ⟨hki, hk⟩ := Finset.mem_erase.mp hk
      obtain ⟨hk, hname⟩ := Finset.mem_filter.mp hk
      obtain ⟨j, hj, rfl⟩ := exists_movedFrom (Finset.mem_range.mp hk) hki hi
      have hj' : j < t'.nBoxes := hn ▸ hj
      refine ⟨j, Finset.mem_filter.mpr ⟨Finset.mem_range.mpr hj', ?_⟩, rfl⟩
      rw [name_deleteBox h hj']
      exact hname
  rw [hrest, count]
  split
  case isTrue hname =>
    exact Finset.card_erase_add_one (Finset.mem_filter.mpr ⟨Finset.mem_range.mpr hi, hname⟩)
  case isFalse hname =>
    rw [add_zero, Finset.erase_eq_of_notMem]
    exact fun hmem => hname (Finset.mem_filter.mp hmem).2

theorem holds_addBox {box : Box} {q : CString} (h : Mbroker.addBox box t = .ok t') :
    t'.Holds q ↔ t.Holds q ∨ box.boxName = q := by
  rw [← count_pos, count_addBox h, ← count_pos]
  split
  case isTrue hq => simp [hq]
  case isFalse hq => simp [hq]

theorem Distinct.holds_deleteBox {q : CString} (ht : t.Distinct)
    (h : Mbroker.deleteBox i t = .ok t')
    (hi : i < t.nBoxes) : t'.Holds q ↔ t.Holds q ∧ t.name i ≠ q := by
  have hcount := count_deleteBox h hi q
  have hle := distinct_iff_count.mp ht q
  rw [← count_pos, ← count_pos]
  split at hcount
  case isTrue hq =>
    simp only [hq, ne_eq, not_true_eq_false, and_false, iff_false]
    omega
  case isFalse hq =>
    rw [← hcount]
    simp [hq]

end BoxTable

end Mbroker
