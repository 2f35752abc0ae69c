/-
What the removal of a box does to the others.

`delete_box` swaps the box with the last one, field by field, and leaves out the list of
the subscribers and its index; and it destroys the condition variable and the mutex behind
the last box, not those of the last box.

* **`keepsOthers_iff`** — the other boxes stay whole exactly when the last box is removed or
  has the subscribers of the box that is;
* `not_keepsOthers_firstBox` — the second of two boxes gets the subscribers of the first;
* **`locks_iff`** — each box has its lock exactly in the runs without a removal;
* `not_locked_oneRemoval` — a box is added and removed.
-/
import Mbroker.BoxRecords
import Mathlib.Data.Multiset.Range

namespace Mbroker

/-! ### The records -/

/-- The fields of a record, the names as strings. -/
def BoxRecord.fields (r : BoxRecord) :
    CString × CString × Nat × Nat × Nat × List CString × Int × UInt8 :=
  (r.boxName.text, r.publisher.text, r.boxSize, r.nPublishers, r.nSubscribers,
    (List.range maxBoxes).map fun k => (r.subscribers k).text, r.subscriberIndex, r.last)

/-- `strcpy` stops in the names of the record. -/
def BoxRecord.Terminated (r : BoxRecord) : Prop := r.boxName.Terminated ∧ r.publisher.Terminated

/-- The list of the subscribers of one record is that of the other. -/
def BoxRecord.SameSubscribers (r other : BoxRecord) : Prop :=
  (∀ k < maxBoxes, (r.subscribers k).text = (other.subscribers k).text) ∧
    r.subscriberIndex = other.subscriberIndex

namespace BoxRecord

variable {r other r' : BoxRecord}

theorem fields_inj_subscribers (h : r.fields = other.fields) : r.SameSubscribers other := by
  simp only [fields, Prod.mk.injEq] at h
  obtain ⟨-, -, -, -, -, hlist, hindex, -⟩ := h
  exact ⟨fun k hk => List.map_inj_left.mp hlist k (List.mem_range.mpr hk), hindex⟩

theorem swapped_returns (h : other.Terminated) : ∃ r', r.swapped other = .ok r' := by
  obtain ⟨name, hname⟩ : ∃ name, r.boxName.strcpy other.boxName.text = .ok name :=
    CharArray.strcpy_returns h.1
  obtain ⟨publisher, hpublisher⟩ :
      ∃ publisher, r.publisher.strcpy other.publisher.text = .ok publisher :=
    CharArray.strcpy_returns h.2
  rw [swapped, hname, Outcome.ok_bind, hpublisher, Outcome.ok_bind]
  exact ⟨_, rfl⟩

/-- The record that has taken the fields of the other, but for its subscribers. -/
theorem of_swapped (h : r.swapped other = .ok r') : other.Terminated ∧
    (r'.fields = other.fields ↔ r.SameSubscribers other) := by
  obtain ⟨name, hname, h⟩ := Outcome.bind_eq_ok.mp h
  obtain ⟨publisher, hpublisher, h⟩ := Outcome.bind_eq_ok.mp h
  obtain rfl := Outcome.ok.inj h
  refine ⟨⟨(CharArray.of_strcpy hname).1, (CharArray.of_strcpy hpublisher).1⟩, ?_⟩
  constructor
  · exact fields_inj_subscribers
  · rintro ⟨hlist, hindex⟩
    have hmap : (List.range maxBoxes).map (fun k => (r.subscribers k).text) =
        (List.range maxBoxes).map fun k => (other.subscribers k).text :=
      List.map_congr_left fun k hk => hlist k (List.mem_range.mp hk)
    simp only [fields, CharArray.text_strcpy hname, CharArray.text_strcpy hpublisher, hmap, hindex]

end BoxRecord

namespace RecordTable

variable {t t' : RecordTable} {i : Nat}

/-- The fields of the boxes there are, in no order. -/
def contents (t : RecordTable) :
    Multiset (CString × CString × Nat × Nat × Nat × List CString × Int × UInt8) :=
  (Multiset.range t.nBoxes).map fun k => (t.boxes k).fields

/-- `delete_box(i)` returns, and what there was is box `i` and what there is. -/
def KeepsOthers (t : RecordTable) (i : Nat) : Prop :=
  ∃ t', t.deleteBox i = .ok t' ∧ t'.nBoxes = t.nBoxes - 1 ∧
    t.contents = (t.boxes i).fields ::ₘ t'.contents

theorem contents_eq_cons (boxes : Nat → BoxRecord) {n k : Nat} (hk : k < n) :
    (Multiset.range n).map (fun j => (boxes j).fields) =
      (boxes k).fields ::ₘ ((Multiset.range n).erase k).map fun j => (boxes j).fields := by
  rw [← Multiset.map_cons (fun j => (boxes j).fields),
    Multiset.cons_erase (Multiset.mem_range.mpr hk)]

theorem deleteBox_ok (h : t.deleteBox i = .ok t') : t.nBoxes < maxBoxes ∧ t'.nBoxes = t.nBoxes - 1 ∧
    (t.boxes i).Terminated ∧ (t.boxes (t.nBoxes - 1)).Terminated ∧
    ∃ box lastBox, (t.boxes i).swapped (t.boxes (t.nBoxes - 1)) = .ok box ∧
      t'.boxes = Function.update (Function.update t.boxes i box) (t.nBoxes - 1) lastBox := by
  rw [deleteBox] at h
  split at h
  case isTrue => cases h
  case isFalse hrange =>
    obtain ⟨box, hbox, h⟩ := Outcome.bind_eq_ok.mp h
    obtain ⟨lastBox, hlast, h⟩ := Outcome.bind_eq_ok.mp h
    obtain rfl := Outcome.ok.inj h
    rw [Int.toNat_natCast] at hbox hlast
    exact ⟨by omega, rfl, (BoxRecord.of_swapped hlast).1, (BoxRecord.of_swapped hbox).1, box,
      lastBox, hbox, by simp only [Int.toNat_natCast]⟩

theorem deleteBox_returns (hi : i < t.nBoxes) (hn : t.nBoxes < maxBoxes)
    (hbox : (t.boxes i).Terminated) (hlast : (t.boxes (t.nBoxes - 1)).Terminated) :
    ∃ t', t.deleteBox i = .ok t' := by
  obtain ⟨box, hbox⟩ : ∃ box, (t.boxes (t.nBoxes - 1)).swapped (t.boxes i) = .ok box :=
    BoxRecord.swapped_returns hbox
  obtain ⟨lastBox, hlast⟩ : ∃ box, (t.boxes i).swapped (t.boxes (t.nBoxes - 1)) = .ok box :=
    BoxRecord.swapped_returns hlast
  rw [deleteBox, if_neg (by omega), Int.toNat_natCast, hlast, Outcome.ok_bind, hbox,
    Outcome.ok_bind]
  exact ⟨_, rfl⟩

/-- **What is left** are the other boxes, the last one with the subscribers of box `i`. -/
theorem contents_deleteBox (h : t.deleteBox i = .ok t') (hi : i < t.nBoxes) :
    t.contents = (t.boxes i).fields ::ₘ t'.contents ↔
      i + 1 = t.nBoxes ∨ (t.boxes i).SameSubscribers (t.boxes (t.nBoxes - 1)) := by
  obtain ⟨-, hn, -, -, box, lastBox, hbox, hboxes⟩ := deleteBox_ok h
  obtain ⟨m, hm⟩ : ∃ m, t.nBoxes = m + 1 := ⟨t.nBoxes - 1, by omega⟩
  rw [hm, Nat.add_sub_cancel] at hbox hboxes hn
  rw [hm, Nat.add_sub_cancel]
  have hother : ∀ k < m, k ≠ i → t'.boxes k = t.boxes k := fun k hk hki => by
    rw [hboxes, Function.update_of_ne hk.ne, Function.update_of_ne hki]
  have hcontents : t.contents = (t.boxes m).fields ::ₘ
      (Multiset.range m).map fun k => (t.boxes k).fields := by
    rw [contents, hm, Multiset.range_succ, Multiset.map_cons]
  rw [hcontents, contents, hn]
  by_cases hlast : i = m
  · -- The last box: the others are not touched.
    subst hlast
    refine iff_of_true ?_ (Or.inl rfl)
    congr 1
    refine Multiset.map_congr rfl fun k hk => ?_
    have hk := Multiset.mem_range.mp hk
    rw [hother k hk hk.ne]
  · have hlt : i < m := by omega
    have hrest : ((Multiset.range m).erase i).map (fun k => (t'.boxes k).fields) =
        ((Multiset.range m).erase i).map fun k => (t.boxes k).fields := by
      refine Multiset.map_congr rfl fun k hk => ?_
      have hki : k ≠ i := fun heq =>
        (Multiset.nodup_range m).notMem_erase (heq ▸ hk)
      rw [hother k (Multiset.mem_range.mp (Multiset.mem_of_mem_erase hk)) hki]
    have hself : t'.boxes i = box := by
      rw [hboxes, Function.update_of_ne hlt.ne, Function.update_self]
    rw [contents_eq_cons t.boxes hlt, contents_eq_cons t'.boxes hlt, hrest, hself,
      Multiset.cons_swap, Multiset.cons_inj_right, Multiset.cons_inj_left, eq_comm,
      (BoxRecord.of_swapped hbox).2]
    exact ⟨Or.inr, fun h => h.resolve_left fun heq => hlast (by omega)⟩

end RecordTable

/-- **`delete_box` keeps the other boxes whole** exactly when it is given the last box, or
one with the subscribers of the last; and there is a condition variable behind the last
box, and the names that are copied end in their arrays. -/
theorem keepsOthers_iff {t : RecordTable} {i : Nat} (hi : i < t.nBoxes) :
    t.KeepsOthers i ↔
      (i + 1 = t.nBoxes ∨ (t.boxes i).SameSubscribers (t.boxes (t.nBoxes - 1))) ∧
        t.nBoxes < maxBoxes ∧ (t.boxes i).Terminated ∧ (t.boxes (t.nBoxes - 1)).Terminated := by
  constructor
  · rintro ⟨t', hdelete, -, hcontents⟩
    obtain ⟨hn, -, hbox, hlast, -⟩ := RecordTable.deleteBox_ok hdelete
    exact ⟨(RecordTable.contents_deleteBox hdelete hi).mp hcontents, hn, hbox, hlast⟩
  · rintro ⟨hsame, hn, hbox, hlast⟩
    obtain ⟨t', hdelete⟩ := RecordTable.deleteBox_returns hi hn hbox hlast
    exact ⟨t', hdelete, (RecordTable.deleteBox_ok hdelete).2.1,
      (RecordTable.contents_deleteBox hdelete hi).mpr hsame⟩

/-- Two boxes, with a subscriber of the first one. -/
def firstBoxSubscribed : RecordTable where
  boxes := fun k => if k = 0 then { BoxRecord.zero with nSubscribers := 1, subscriberIndex := 1 }
    else .zero
  nBoxes := 2
  initialised := fun k => decide (k < 2)

theorem keepsOthers_secondBox : firstBoxSubscribed.KeepsOthers 1 :=
  (keepsOthers_iff (by decide)).mpr
    ⟨Or.inl rfl, by decide, by unfold BoxRecord.Terminated; decide +kernel,
      by unfold BoxRecord.Terminated; decide +kernel⟩

/-- The second box gets the index of the first one. -/
theorem not_keepsOthers_firstBox :
    ¬ ∀ (t : RecordTable) (i : Nat), 1 ≤ t.nBoxes → i < t.nBoxes → t.KeepsOthers i := by
  intro h
  have hi : 0 < firstBoxSubscribed.nBoxes := by decide
  obtain ⟨t', hdelete, -, hcontents⟩ := h firstBoxSubscribed 0 (by decide) hi
  rcases (RecordTable.contents_deleteBox hdelete hi).mp hcontents with hlast | ⟨-, hindex⟩
  · exact absurd hlast (by decide)
  · exact absurd hindex (by decide)

/-! ### The locks -/

/-- A call that changes which boxes there are. -/
inductive TableCall where
  | addBox (box : Box)
  | deleteBox (i : Nat)

/-- The boxes, and whether each slot of `box_conditions` and `box_mutexes` has been initialised
only when it was not, and destroyed only when it was. -/
structure BoxLocks where
  table : BoxTable
  paired : Bool

namespace BoxLocks

/-- When `main` starts. -/
def start : BoxLocks := ⟨.empty, true⟩

/-- A call; both functions work on the slot `n_boxes`. -/
def call : TableCall → BoxLocks → Outcome (Unit × BoxLocks)
  | .addBox box, s => do
    let table ← addBox box s.table
    return ((), ⟨table, s.paired && !s.table.initialised s.table.nBoxes⟩)
  | .deleteBox i, s => do
    let table ← deleteBox i s.table
    return ((), ⟨table, s.paired && s.table.initialised s.table.nBoxes⟩)

/-- `n_boxes` stays within `MAX_BOXES`, and the box that is deleted is there. -/
def Valid : TableCall → BoxLocks → Prop
  | .addBox _, s => s.table.nBoxes < maxBoxes
  | .deleteBox i, s => i < s.table.nBoxes

instance : ∀ c s, Decidable (Valid c s)
  | .addBox _, s => inferInstanceAs (Decidable (s.table.nBoxes < maxBoxes))
  | .deleteBox i, s => inferInstanceAs (Decidable (i < s.table.nBoxes))

/-- The slots in use are those of the boxes. -/
structure Good (s : BoxLocks) : Prop where
  paired : s.paired = true
  initialised : ∀ k, s.table.initialised k = true ↔ k < s.table.nBoxes

/-- Every call returns, and leaves the locks as they should be. -/
def Locked (cs : List TableCall) (s : BoxLocks) : Prop := Outcome.Through Good call cs s

/-- The call is one of `add_box`. -/
def Adds : TableCall → Prop
  | .addBox _ => True
  | .deleteBox _ => False

variable {s s' : BoxLocks} {c : TableCall} {cs : List TableCall} {box : Box} {i : Nat}

theorem good_start : start.Good where
  paired := rfl
  initialised := fun k => by simp [start, BoxTable.empty]

/-- **One box more.** -/
theorem Good.addBox (h : s.Good) (hn : s.table.nBoxes < maxBoxes) :
    ∃ s', call (.addBox box) s = .ok ((), s') ∧ s'.Good := by
  have hslot : s.table.initialised s.table.nBoxes = false := by
    rw [← Bool.not_eq_true, h.initialised]
    exact lt_irrefl _
  rw [call, Mbroker.addBox, if_neg (not_le.mpr hn)]
  refine ⟨_, rfl, ?_, fun k => ?_⟩
  · show (s.paired && !s.table.initialised s.table.nBoxes) = true
    rw [hslot, h.paired]
    rfl
  · show Function.update s.table.initialised s.table.nBoxes true k = true ↔ k < s.table.nBoxes + 1
    by_cases hk : k = s.table.nBoxes
    · simp [hk]
    · rw [Function.update_of_ne hk, h.initialised]
      omega

/-- **One box less**: the slot that is destroyed is not in use. -/
theorem Good.deleteBox (h : s.Good) {r : Unit} (hcall : call (.deleteBox i) s = .ok (r, s')) :
    ¬ s'.Good := by
  obtain ⟨table, -, hcall⟩ := Outcome.bind_eq_ok.mp hcall
  obtain ⟨-, rfl⟩ := Prod.mk.inj (Outcome.ok.inj hcall)
  intro hgood
  have hpaired : (s.paired && s.table.initialised s.table.nBoxes) = true := hgood.paired
  rw [Bool.and_eq_true, h.initialised] at hpaired
  exact lt_irrefl _ hpaired.2

/-- **Runs of calls**, from where the locks are as they should be. -/
theorem Good.locked_iff (h : s.Good) (hvalid : Outcome.Meets Valid call cs s) :
    Locked cs s ↔ ∀ c ∈ cs, Adds c := by
  induction cs generalizing s with
  | nil => exact iff_of_true (Outcome.through_nil.mpr h) fun _ hc => absurd hc List.not_mem_nil
  | cons c cs ih =>
    obtain ⟨hc, hvalid⟩ := hvalid
    cases c with
    | addBox box =>
      obtain ⟨s₁, hcall, hgood⟩ := @Good.addBox s box h hc
      rw [hcall] at hvalid
      rw [List.forall_mem_cons, ← ih hgood hvalid]
      constructor
      · intro hlocked
        obtain ⟨-, r, s₂, hcall', hrest⟩ := Outcome.through_cons.mp hlocked
        obtain ⟨-, rfl⟩ := Prod.mk.inj (Outcome.ok.inj (hcall.symm.trans hcall'))
        exact ⟨trivial, hrest⟩
      · exact fun hrest => Outcome.through_cons.mpr ⟨h, (), s₁, hcall, hrest.2⟩
    | deleteBox i =>
      refine iff_of_false (fun hlocked => ?_) fun hadds => hadds _ List.mem_cons_self
      obtain ⟨-, r, s₁, hcall, hrest⟩ := Outcome.through_cons.mp hlocked
      exact h.deleteBox hcall hrest.good

end BoxLocks

open BoxLocks in
/-- **The locks of the boxes** are those of the boxes there are, and each is initialised and
destroyed in turn, in exactly the runs of `add_box` and `delete_box` that delete nothing. -/
theorem locks_iff (cs : List TableCall) (hvalid : Outcome.Meets Valid call cs start) :
    Locked cs start ↔ ∀ c ∈ cs, Adds c :=
  good_start.locked_iff hvalid

open BoxLocks in
theorem locked_twoBoxes : Locked [.addBox .zero, .addBox .zero] start :=
  (locks_iff _ (by decide)).mpr fun c hc => by
    obtain rfl : c = .addBox .zero := by simpa using hc
    trivial

open BoxLocks in
/-- The slot 1 is destroyed, and slot 0 stays in use. -/
theorem not_locked_oneRemoval :
    ¬ ∀ cs : List TableCall, Outcome.Meets Valid call cs start → Locked cs start := by
  intro h
  obtain ⟨rs, s, hrun, hgood⟩ := h [.addBox .zero, .deleteBox 0] (by decide) 2
  have hslots : (Outcome.runList call [.addBox .zero, .deleteBox 0] start).map (fun p =>
      (p.2.table.nBoxes, p.2.table.initialised 0, p.2.paired)) = .ok (0, true, false) := by
    decide
  obtain ⟨p, hp, hslots⟩ := Outcome.map_eq_ok.mp hslots
  obtain rfl := Outcome.ok.inj (hrun.symm.trans hp)
  exact absurd (hgood.paired.symm.trans (congrArg (·.2.2) hslots)) (by decide)

end Mbroker
