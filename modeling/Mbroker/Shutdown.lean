/-
The end of the broker.

`mbroker_close` opens and closes the pipe of every subscriber of every box, in two loops
that both advance `i`: the inner one goes on to the next box, with `j` at 0, until it
comes to a box without subscribers.

* `closeBoxes`, `closeSubscribers` — the loops, and the records that they look at;
* `closeSubscribers_eq`, `closeSubscribers_pastEnd` — what the inner loop comes to;
* **`closesAll_iff`** — every pipe is closed once exactly when no box has two subscribers
  and the last one has none;
* `not_closesAll_twoSubscribers` — one box with two subscribers.
-/
import Mbroker.Boxes

namespace Mbroker

/-- The records that have been looked at, and the pipes that have been opened and closed:
`(i, j)` is `boxes[i].subscribers[j]`. -/
structure Visits where
  records : List Nat
  pipes : List (Nat × Nat)

namespace Visits

def none : Visits := ⟨[], []⟩

/-- `boxes[i].n_subscribers` has been read before. -/
def read (i : Nat) (v : Visits) : Visits := { v with records := i :: v.records }

/-- And so has `boxes[i].subscribers[j]`, whose pipe has been opened and closed. -/
def visit (i j : Nat) (v : Visits) : Visits := ⟨i :: v.records, (i, j) :: v.pipes⟩

end Visits

namespace BoxTable

theorem closeBoxes_decreases (i : Nat) :
    Prod.Lex (· < ·) (· < ·) (maxBoxes - i, 0) (maxBoxes - i, 1) :=
  .right _ Nat.zero_lt_one

theorem closeSubscribers_decreases {i : Nat} (h : ¬ maxBoxes ≤ i) (k l : Nat) :
    Prod.Lex (· < ·) (· < ·) (maxBoxes - (i + 1), k) (maxBoxes - i, l) :=
  .left _ _ (by omega)

mutual

/-- `for (int i = 0; i < n_boxes; i++)`, from `i` on. -/
def closeBoxes (t : BoxTable) (i : Nat) : Outcome Visits :=
  if i < t.nBoxes then closeSubscribers t i 0 else .ok .none
termination_by (maxBoxes - i, 1)
decreasing_by exact closeBoxes_decreases i

/-- `for (int j = 0; j < boxes[i].n_subscribers; i++)`, from `i` on, and what comes after it. -/
def closeSubscribers (t : BoxTable) (i j : Nat) : Outcome Visits :=
  if h : maxBoxes ≤ i then .fault
  else if j < (t.boxes i).nSubscribers then (closeSubscribers t (i + 1) j).map (.visit i j)
  else (closeBoxes t (i + 1)).map (.read i)
termination_by (maxBoxes - i, 0)
decreasing_by
  · exact closeSubscribers_decreases h 0 0
  · exact closeSubscribers_decreases h 1 0

end

/-- The pipes of the subscribers of a box. -/
def pipesOf (t : BoxTable) (i : Nat) : List (Nat × Nat) :=
  (List.range (t.boxes i).nSubscribers).map fun j => (i, j)

/-- Every subscriber's pipe has been opened and closed once, and no record has been looked at
that is not a box. -/
def ClosesAll (t : BoxTable) : Prop :=
  ∃ v, t.closeBoxes 0 = .ok v ∧ v.pipes.Perm ((List.range t.nBoxes).flatMap t.pipesOf) ∧
    ∀ k ∈ v.records, k < t.nBoxes

variable {t : BoxTable} {v : Visits} {i j : Nat}

theorem closeBoxes_of_lt (h : i < t.nBoxes) : t.closeBoxes i = t.closeSubscribers i 0 := by
  rw [closeBoxes, if_pos h]

theorem closeBoxes_of_le (h : t.nBoxes ≤ i) : t.closeBoxes i = .ok .none := by
  rw [closeBoxes, if_neg (not_lt.mpr h)]

theorem closeSubscribers_visit (h : i < maxBoxes) (hj : j < (t.boxes i).nSubscribers) :
    t.closeSubscribers i j = (t.closeSubscribers (i + 1) j).map (.visit i j) := by
  rw [closeSubscribers, dif_neg (not_le.mpr h), if_pos hj]

theorem closeSubscribers_next (h : i < maxBoxes) (hj : ¬ j < (t.boxes i).nSubscribers) :
    t.closeSubscribers i j = (t.closeBoxes (i + 1)).map (.read i) := by
  rw [closeSubscribers, dif_neg (not_le.mpr h), if_neg hj]

theorem closeSubscribers_fault (h : maxBoxes ≤ i) : t.closeSubscribers i j = .fault := by
  rw [closeSubscribers, dif_pos h]

/-- The record that the inner loop starts with has been looked at. -/
theorem mem_records (h : t.closeSubscribers i j = .ok v) : i ∈ v.records := by
  by_cases hi : i < maxBoxes
  · by_cases hj : j < (t.boxes i).nSubscribers
    · rw [closeSubscribers_visit hi hj] at h
      obtain ⟨v', -, rfl⟩ := Outcome.map_eq_ok.mp h
      exact List.mem_cons_self
    · rw [closeSubscribers_next hi hj] at h
      obtain ⟨v', -, rfl⟩ := Outcome.map_eq_ok.mp h
      exact List.mem_cons_self
  · rw [closeSubscribers_fault (not_lt.mp hi)] at h
    cases h

/-- **No second subscriber** is ever visited. -/
theorem pipes_closeSubscribers (k : Nat) : ∀ {i : Nat} {v : Visits}, maxBoxes - i ≤ k →
    t.closeSubscribers i 0 = .ok v → ∀ p ∈ v.pipes, p.2 = 0 := by
  induction k with
  | zero =>
    intro i v hk h
    rw [closeSubscribers_fault (show maxBoxes ≤ i by omega)] at h
    cases h
  | succ k ih =>
    intro i v hk h
    by_cases hi : i < maxBoxes
    · by_cases hj : 0 < (t.boxes i).nSubscribers
      · rw [closeSubscribers_visit hi hj] at h
        obtain ⟨v', h', rfl⟩ := Outcome.map_eq_ok.mp h
        intro p hp
        rcases List.mem_cons.mp hp with rfl | hp
        · rfl
        · exact ih (by omega) h' p hp
      · rw [closeSubscribers_next hi hj] at h
        obtain ⟨v', h', rfl⟩ := Outcome.map_eq_ok.mp h
        by_cases hn : i + 1 < t.nBoxes
        · rw [closeBoxes_of_lt hn] at h'
          exact fun p hp => ih (by omega) h' p hp
        · rw [closeBoxes_of_le (by omega)] at h'
          obtain rfl := Outcome.ok.inj h'
          exact fun p hp => absurd hp List.not_mem_nil
    · rw [closeSubscribers_fault (by omega)] at h
      cases h

/-- **Past the end**: when the last box has a subscriber, the loop goes on behind it. -/
theorem closeSubscribers_pastEnd (k : Nat) : ∀ {i : Nat} {v : Visits}, i + k + 1 = t.nBoxes →
    t.closeSubscribers i 0 = .ok v → 0 < (t.boxes (t.nBoxes - 1)).nSubscribers →
    t.nBoxes ∈ v.records := by
  induction k with
  | zero =>
    intro i v hk h hlast
    by_cases hi : i < maxBoxes
    · have hi' : t.nBoxes - 1 = i := by omega
      rw [hi'] at hlast
      rw [closeSubscribers_visit hi hlast] at h
      obtain ⟨v', h', rfl⟩ := Outcome.map_eq_ok.mp h
      rw [← hk]
      exact List.mem_cons_of_mem _ (mem_records h')
    · rw [closeSubscribers_fault (by omega)] at h
      cases h
  | succ k ih =>
    intro i v hk h hlast
    by_cases hi : i < maxBoxes
    · by_cases hj : 0 < (t.boxes i).nSubscribers
      · rw [closeSubscribers_visit hi hj] at h
        obtain ⟨v', h', rfl⟩ := Outcome.map_eq_ok.mp h
        exact List.mem_cons_of_mem _ (ih (by omega) h' hlast)
      · rw [closeSubscribers_next hi hj, closeBoxes_of_lt (by omega)] at h
        obtain ⟨v', h', rfl⟩ := Outcome.map_eq_ok.mp h
        exact List.mem_cons_of_mem _ (ih (by omega) h' hlast)
    · rw [closeSubscribers_fault (by omega)] at h
      cases h

/-- **The inner loop**, when no box has two subscribers and the last one has none. -/
theorem closeSubscribers_eq (hn : t.nBoxes ≤ maxBoxes)
    (hone : ∀ i < t.nBoxes, (t.boxes i).nSubscribers ≤ 1)
    (hlast : ∀ i, i + 1 = t.nBoxes → (t.boxes i).nSubscribers = 0) (k : Nat) :
    ∀ {i : Nat}, i + k + 1 = t.nBoxes → ∃ v, t.closeSubscribers i 0 = .ok v ∧
      v.pipes = (List.range' i (k + 1)).flatMap t.pipesOf ∧ ∀ l ∈ v.records, l < t.nBoxes := by
  induction k with
  | zero =>
    intro i hk
    have hzero := hlast i hk
    have hpipes : t.pipesOf i = [] := by rw [pipesOf, hzero]; rfl
    refine ⟨.read i .none, ?_, ?_, fun l hl => ?_⟩
    · rw [closeSubscribers_next (by omega) (by omega), closeBoxes_of_le hk.ge]
      rfl
    · rw [List.range'_one, List.flatMap_singleton, hpipes]
      rfl
    · obtain rfl := List.mem_singleton.mp hl
      omega
  | succ k ih =>
    intro i hk
    obtain ⟨v, hv, hpipes, hrecords⟩ := ih (i := i + 1) (by omega)
    have hlt : ∀ l ∈ i :: v.records, l < t.nBoxes :=
      List.forall_mem_cons.mpr ⟨by omega, hrecords⟩
    rw [List.range'_succ, List.flatMap_cons, ← hpipes]
    by_cases hj : 0 < (t.boxes i).nSubscribers
    · have hself : t.pipesOf i = [(i, 0)] := by
        have hle := hone i (by omega)
        rw [pipesOf, show (t.boxes i).nSubscribers = 1 by omega]
        rfl
      refine ⟨.visit i 0 v, ?_, by rw [hself]; rfl, hlt⟩
      rw [closeSubscribers_visit (by omega) hj, hv]
      rfl
    · have hself : t.pipesOf i = [] := by
        rw [pipesOf, show (t.boxes i).nSubscribers = 0 by omega]
        rfl
      refine ⟨.read i v, ?_, by rw [hself]; rfl, hlt⟩
      rw [closeSubscribers_next (by omega) hj, closeBoxes_of_lt (by omega), hv]
      rfl

theorem closesAll_of_empty (h : t.nBoxes = 0) : t.ClosesAll := by
  refine ⟨.none, closeBoxes_of_le (by omega), ?_, fun _ hk => absurd hk List.not_mem_nil⟩
  rw [h]
  exact .nil

end BoxTable

open BoxTable in
/-- **The shutdown** opens and closes every subscriber's pipe once, and looks at nothing but
boxes, exactly when no box has two subscribers and the last box has none. -/
theorem closesAll_iff {t : BoxTable} (hn : t.nBoxes ≤ maxBoxes) : t.ClosesAll ↔
    (∀ i < t.nBoxes, (t.boxes i).nSubscribers ≤ 1) ∧
      ∀ i, i + 1 = t.nBoxes → (t.boxes i).nSubscribers = 0 := by
  rcases Nat.eq_zero_or_pos t.nBoxes with h0 | hpos
  · exact iff_of_true (closesAll_of_empty h0) ⟨fun i hi => by omega, fun i hi => by omega⟩
  constructor
  · rintro ⟨v, hv, hpipes, hrecords⟩
    rw [closeBoxes_of_lt hpos] at hv
    constructor
    · intro i hi
      by_contra htwo
      have hmem : (i, 1) ∈ (List.range t.nBoxes).flatMap t.pipesOf :=
        List.mem_flatMap.mpr ⟨i, List.mem_range.mpr hi,
          List.mem_map.mpr ⟨1, List.mem_range.mpr (by omega), rfl⟩⟩
      have hzero := pipes_closeSubscribers _ (le_refl _) hv (i, 1) (hpipes.mem_iff.mpr hmem)
      exact absurd hzero Nat.one_ne_zero
    · intro i hi
      by_contra hsome
      have hlast : 0 < (t.boxes (t.nBoxes - 1)).nSubscribers := by
        rw [show t.nBoxes - 1 = i by omega]
        omega
      have hend := closeSubscribers_pastEnd (t.nBoxes - 1) (by omega) hv hlast
      exact absurd (hrecords _ hend) (lt_irrefl _)
  · rintro ⟨hone, hlast⟩
    obtain ⟨v, hv, hpipes, hrecords⟩ :=
      closeSubscribers_eq hn hone hlast (t.nBoxes - 1) (i := 0) (by omega)
    refine ⟨v, (closeBoxes_of_lt hpos).trans hv, ?_, hrecords⟩
    rw [hpipes, List.range_eq_range', show t.nBoxes - 1 + 1 = t.nBoxes by omega]

/-- Two boxes, the first one with a subscriber. -/
def firstSubscribed : BoxTable where
  boxes := fun k => { Box.zero with nSubscribers := if k = 0 then 1 else 0 }
  nBoxes := 2
  initialised := fun k => decide (k < 2)

theorem closesAll_firstSubscribed : firstSubscribed.ClosesAll :=
  (closesAll_iff (by decide)).mpr ⟨by decide, fun i hi => by
    obtain rfl : i = 1 := by simpa [firstSubscribed] using hi
    rfl⟩

/-- One box, with two subscribers. -/
def twoSubscribers : BoxTable where
  boxes := fun k => { Box.zero with nSubscribers := if k = 0 then 2 else 0 }
  nBoxes := 1
  initialised := fun k => decide (k < 1)

/-- The second subscriber is not visited, and the record behind the box is looked at. -/
theorem not_closesAll_twoSubscribers :
    ¬ ∀ t : BoxTable, t.nBoxes ≤ maxBoxes →
      (∀ i < t.nBoxes, (t.boxes i).nSubscribers ≤ maxBoxes) → t.ClosesAll := by
  intro h
  obtain ⟨v, hv, -, hrecords⟩ := h twoSubscribers (by decide) (by decide)
  rw [BoxTable.closeBoxes_of_lt (by decide)] at hv
  have hend := BoxTable.closeSubscribers_pastEnd 0 (by decide) hv (by decide)
  exact absurd (hrecords _ hend) (by decide)

end Mbroker
