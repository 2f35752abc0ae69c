/-
What is put into the queue and what comes out.

The calls of `producer-consumer.c` one after the other, with the slots of `pcq_buffer`.
The first element goes into slot 0 and `pcq_tail` past it; each of the others goes
into the slot that `pcq_tail` has been moved to, and `pcq_tail` never starts again;
`pcq_dequeue` moves `pcq_head` and returns `NULL`.

* `run_alone`, `run_calls` — the calls in the steps of `PcQueue`, and here;
* `run_inRoom`, `run_pastRoom` — how many elements the slots have room for;
* **`fifo_iff`** — the elements come out as they went in exactly when those that come out
  are `NULL` and there is a slot for every element;
* `not_fifo_onePointer` — one element that is not `NULL`.
-/
import Mbroker.Outcome
import Mbroker.Queue
import Mathlib.Algebra.GroupWithZero.Nat

namespace Mbroker

/-- `pc_queue_t` without its mutexes and condition variables; `none` is `NULL`. -/
structure PcqSlots (α : Type) where
  pcqBuffer : Nat → Option α
  pcqCapacity : UInt64
  pcqCurrentSize : UInt64
  pcqHead : UInt64
  pcqTail : UInt64

/-- A call of one of the functions. -/
inductive PcqOp (α : Type) where
  | enqueue (elem : Option α)
  | dequeue

/-- What a call returns; one that has to wait does not. -/
inductive PcqReply (α : Type) where
  | enqueued (ret : Int)
  | dequeued (elem : Option α)
  | blocked

variable {α : Type}

def PcqOp.function : PcqOp α → PcqFunction
  | .enqueue _ => .enqueue
  | .dequeue => .dequeue

/-- How many entries of eight bytes `malloc(sizeof(pthread_t) * capacity)` has room for:
the product is a `size_t`. -/
def slotCount (capacity : UInt64) : Nat := (8 * capacity).toNat / 8

namespace PcqSlots

/-- `pcq_create`, with what `malloc` gives. -/
def create (capacity : UInt64) (buffer : Nat → Option α) : PcqSlots α := ⟨buffer, capacity, 0, 0, 0⟩

/-- `queue->pcq_buffer[i] = elem`. -/
def setSlot (i : UInt64) (elem : Option α) (q : PcqSlots α) : Outcome (PcqSlots α) :=
  if slotCount q.pcqCapacity ≤ i.toNat then .fault
  else .ok { q with pcqBuffer := Function.update q.pcqBuffer i.toNat elem }

/-- The condition of the loop in which a call waits. -/
def Blocks (f : PcqFunction) (q : PcqSlots α) : Prop :=
  match f with
  | .enqueue => q.pcqCurrentSize = q.pcqCapacity
  | .dequeue => q.pcqCurrentSize = 0

instance (q : PcqSlots α) : ∀ f : PcqFunction, Decidable (q.Blocks f)
  | .enqueue => inferInstanceAs (Decidable (q.pcqCurrentSize = q.pcqCapacity))
  | .dequeue => inferInstanceAs (Decidable (q.pcqCurrentSize = 0))

/-- `pcq_enqueue`, once it need not wait. -/
def pcqEnqueue (elem : Option α) (q : PcqSlots α) : Outcome (Int × PcqSlots α) :=
  if q.pcqTail = 0 then do
    -- Capacidade = 0
    let q ← if q.pcqTail = q.pcqCapacity then q.setSlot q.pcqTail none else .ok q
    let q ← q.setSlot q.pcqTail elem
    return (0, { q with pcqTail := q.pcqTail + 1, pcqCurrentSize := q.pcqCurrentSize + 1 })
  else do
    let q := { q with pcqTail := q.pcqTail + 1, pcqCurrentSize := q.pcqCurrentSize + 1 }
    -- Tail = Capacidade
    let q ← if q.pcqTail = q.pcqCapacity then q.setSlot q.pcqTail none else .ok q
    let q ← q.setSlot q.pcqTail elem
    return (0, q)

/-- `pcq_dequeue`, once it need not wait. -/
def pcqDequeue (q : PcqSlots α) : Option α × PcqSlots α :=
  let q := { q with pcqCurrentSize := q.pcqCurrentSize - 1, pcqHead := q.pcqHead + 1 }
  let q := if q.pcqHead = q.pcqCapacity then { q with pcqHead := 0 } else q
  (none, q)

/-- A call. -/
def call (op : PcqOp α) (q : PcqSlots α) : Outcome (PcqReply α × PcqSlots α) :=
  if q.Blocks op.function then .ok (.blocked, q)
  else
    match op with
    | .enqueue elem => do
      let (ret, q) ← q.pcqEnqueue elem
      return (.enqueued ret, q)
    | .dequeue =>
      let (elem, q) := q.pcqDequeue
      .ok (.dequeued elem, q)

end PcqSlots

/-- The pointers that are given to `pcq_enqueue`. -/
def enqueuedElems (ops : List (PcqOp α)) : List (Option α) :=
  ops.filterMap fun
    | .enqueue elem => some elem
    | .dequeue => none

/-- How often `pcq_dequeue` is called. -/
def dequeueCount (ops : List (PcqOp α)) : Nat :=
  (ops.filter fun
    | .enqueue _ => false
    | .dequeue => true).length

/-- The pointers that `pcq_dequeue` returns. -/
def dequeuedElems (rs : List (PcqReply α)) : List (Option α) :=
  rs.filterMap fun
    | .dequeued elem => some elem
    | _ => none

/-- The calls return, and the n-th `pcq_dequeue` gives what the n-th `pcq_enqueue` was given. -/
def Fifo (capacity : UInt64) (buffer : Nat → Option α) (ops : List (PcqOp α)) : Prop :=
  ∃ rs q, Outcome.runList PcqSlots.call ops (PcqSlots.create capacity buffer) = .ok (rs, q) ∧
    dequeuedElems rs = (enqueuedElems ops).take (dequeueCount ops)

@[simp] theorem enqueuedElems_enqueue (elem : Option α) (ops : List (PcqOp α)) :
    enqueuedElems (.enqueue elem :: ops) = elem :: enqueuedElems ops := rfl

@[simp] theorem dequeueCount_enqueue (elem : Option α) (ops : List (PcqOp α)) :
    dequeueCount (.enqueue elem :: ops) = dequeueCount ops := rfl

@[simp] theorem dequeueCount_dequeue (ops : List (PcqOp α)) :
    dequeueCount (.dequeue :: ops) = dequeueCount ops + 1 := rfl

/-- How many elements there are slots for: slot 1 is skipped. -/
def room (capacity : UInt64) : Nat := min (slotCount capacity) (max 1 (slotCount capacity - 1))

theorem room_lt (capacity : UInt64) : room capacity < 2 ^ 61 := by
  have hlt : (8 * capacity).toNat < 2 ^ 64 := (8 * capacity).toNat_lt
  have hslots : slotCount capacity < 2 ^ 61 := by
    unfold slotCount
    omega
  exact lt_of_le_of_lt (min_le_left _ _) hslots

/-! ### One call -/

variable {q q' : PcqSlots α} {op : PcqOp α} {ops : List (PcqOp α)} {elem : Option α} {n d : Nat}
  {r : PcqReply α} {rs : List (PcqReply α)} {capacity i : UInt64}

namespace PcqSlots

/-- `n` elements have been put in, all of them into slots, and `d` taken out. -/
structure Counts (capacity : UInt64) (n d : Nat) (q : PcqSlots α) : Prop where
  capacity_eq : q.pcqCapacity = capacity
  tail_eq : q.pcqTail.toNat = n
  size_eq : q.pcqCurrentSize.toNat + d = n
  inRoom : n ≤ room capacity

theorem counts_create (buffer : Nat → Option α) : Counts capacity 0 0 (create capacity buffer) :=
  ⟨rfl, rfl, rfl, Nat.zero_le _⟩

/-- The slot that the next element goes into. -/
def nextSlot (q : PcqSlots α) : UInt64 := if q.pcqTail = 0 then 0 else q.pcqTail + 1

theorem nextSlot_of_eq (h : q.pcqTail = 0) : q.nextSlot = 0 := if_pos h

theorem nextSlot_of_ne (h : q.pcqTail ≠ 0) : q.nextSlot = q.pcqTail + 1 := if_neg h

/-- The slot is set once or twice, last to the element. -/
theorem pcqEnqueue_eq_ok (h : q.nextSlot.toNat < slotCount q.pcqCapacity) :
    q.pcqEnqueue elem = .ok (0, { q with
      pcqBuffer := Function.update q.pcqBuffer q.nextSlot.toNat elem
      pcqTail := q.pcqTail + 1
      pcqCurrentSize := q.pcqCurrentSize + 1 }) := by
  rw [← not_le] at h
  by_cases htail : q.pcqTail = 0
  · rw [nextSlot_of_eq htail] at h ⊢
    rw [pcqEnqueue, if_pos htail]
    split
    · simp only [setSlot, htail, if_neg h, Outcome.ok_bind, Outcome.pure_eq_ok,
        Function.update_idem]
    · simp only [setSlot, htail, if_neg h, Outcome.ok_bind, Outcome.pure_eq_ok]
  · rw [nextSlot_of_ne htail] at h ⊢
    rw [pcqEnqueue, if_neg htail]
    dsimp only
    split
    · simp only [setSlot, if_neg h, Outcome.ok_bind, Outcome.pure_eq_ok, Function.update_idem]
    · simp only [setSlot, if_neg h, Outcome.ok_bind, Outcome.pure_eq_ok]

theorem pcqEnqueue_eq_fault (h : slotCount q.pcqCapacity ≤ q.nextSlot.toNat) :
    q.pcqEnqueue elem = .fault := by
  by_cases htail : q.pcqTail = 0
  · rw [nextSlot_of_eq htail] at h
    rw [pcqEnqueue, if_pos htail]
    split
    · simp only [setSlot, htail, if_pos h, Outcome.fault_bind]
    · simp only [setSlot, htail, if_pos h, Outcome.ok_bind, Outcome.fault_bind]
  · rw [nextSlot_of_ne htail] at h
    rw [pcqEnqueue, if_neg htail]
    dsimp only
    split
    · simp only [setSlot, if_pos h, Outcome.fault_bind]
    · simp only [setSlot, if_pos h, Outcome.ok_bind, Outcome.fault_bind]

theorem Counts.tail_succ (h : q.Counts capacity n d) : (q.pcqTail + 1).toNat = n + 1 := by
  have hlt := room_lt capacity
  have hle := h.inRoom
  have htail := h.tail_eq
  rw [UInt64.toNat_add, UInt64.toNat_one]
  omega

theorem Counts.size_succ (h : q.Counts capacity n d) :
    (q.pcqCurrentSize + 1).toNat = q.pcqCurrentSize.toNat + 1 := by
  have hlt := room_lt capacity
  have hle := h.inRoom
  have hsize := h.size_eq
  rw [UInt64.toNat_add, UInt64.toNat_one]
  omega

/-- There is a slot for the next element when it is within the room. -/
theorem Counts.nextSlot_lt (h : q.Counts capacity n d) :
    q.nextSlot.toNat < slotCount q.pcqCapacity ↔ n + 1 ≤ room capacity := by
  have hle := h.inRoom
  have htail := h.tail_eq
  rw [h.capacity_eq]
  by_cases h0 : q.pcqTail = 0
  · have hn : n = 0 := by
      rw [← htail, h0]
      rfl
    rw [nextSlot_of_eq h0, UInt64.toNat_zero, hn]
    unfold room
    omega
  · have hn : n ≠ 0 := by
      rintro rfl
      exact h0 (UInt64.toNat_inj.mp htail)
    rw [nextSlot_of_ne h0, h.tail_succ]
    unfold room at hle ⊢
    omega

/-- **Putting an element in**, while there is room. -/
theorem Counts.enqueue (h : q.Counts capacity n d) (elem : Option α)
    (hroom : n + 1 ≤ room capacity) :
    ∃ q', q.pcqEnqueue elem = .ok (0, q') ∧ q'.Counts capacity (n + 1) d := by
  refine ⟨_, pcqEnqueue_eq_ok (h.nextSlot_lt.mpr hroom), h.capacity_eq, h.tail_succ, ?_, hroom⟩
  have hsize := h.size_eq
  rw [h.size_succ]
  omega

/-- **Putting an element in**, when there is no room. -/
theorem Counts.enqueue_pastRoom (h : q.Counts capacity n d) (hroom : room capacity < n + 1) :
    q.pcqEnqueue elem = .fault :=
  pcqEnqueue_eq_fault (not_lt.mp fun hlt => not_le.mpr hroom (h.nextSlot_lt.mp hlt))

/-- **Taking an element out.** -/
theorem Counts.dequeue (h : q.Counts capacity n d) (hsize : q.pcqCurrentSize ≠ 0) :
    q.pcqDequeue.2.Counts capacity n (d + 1) := by
  have hpos : q.pcqCurrentSize.toNat ≠ 0 := fun h0 => hsize (UInt64.toNat_inj.mp h0)
  have hle : (1 : UInt64) ≤ q.pcqCurrentSize := by
    rw [UInt64.le_iff_toNat_le, UInt64.toNat_one]
    omega
  have hsub : (q.pcqCurrentSize - 1).toNat = q.pcqCurrentSize.toNat - 1 := by
    rw [UInt64.toNat_sub_of_le _ _ hle, UInt64.toNat_one]
  have heq := h.size_eq
  have hsize' : (q.pcqCurrentSize - 1).toNat + (d + 1) = n := by omega
  unfold pcqDequeue
  dsimp only
  split
  · exact ⟨h.capacity_eq, h.tail_eq, hsize', h.inRoom⟩
  · exact ⟨h.capacity_eq, h.tail_eq, hsize', h.inRoom⟩

/-! ### The calls one after the other -/

theorem call_enqueue (hfull : ¬ q.Blocks (PcqOp.enqueue elem).function)
    (h : q.pcqEnqueue elem = .ok (0, q')) :
    call (.enqueue elem) q = .ok (.enqueued 0, q') := by
  rw [call, if_neg hfull]
  dsimp only
  rw [h, Outcome.ok_bind, Outcome.pure_eq_ok]

theorem call_enqueue_fault (hfull : ¬ q.Blocks (PcqOp.enqueue elem).function)
    (h : q.pcqEnqueue elem = .fault) :
    call (.enqueue elem) q = .fault := by
  rw [call, if_neg hfull]
  dsimp only
  rw [h, Outcome.fault_bind]

theorem call_dequeue (hempty : ¬ q.Blocks (PcqOp.dequeue : PcqOp α).function) :
    call .dequeue q = .ok (.dequeued none, q.pcqDequeue.2) := by
  rw [call, if_neg hempty]
  rfl

/-- **Within the room**: every call returns, and every dequeue returns `NULL`. -/
theorem run_inRoom (h : q.Counts capacity n d)
    (hmeets : Outcome.Meets (fun op q => ¬ q.Blocks op.function) call ops q)
    (hroom : n + (enqueuedElems ops).length ≤ room capacity) :
    ∃ rs q', Outcome.runList call ops q = .ok (rs, q') ∧
      q'.Counts capacity (n + (enqueuedElems ops).length) (d + dequeueCount ops) ∧
      dequeuedElems rs = List.replicate (dequeueCount ops) none := by
  induction ops generalizing q n d with
  | nil => exact ⟨[], q, rfl, h, rfl⟩
  | cons op ops ih =>
    obtain ⟨hblocks, hrest⟩ := hmeets
    cases op with
    | enqueue elem =>
      rw [enqueuedElems_enqueue, List.length_cons] at hroom ⊢
      obtain ⟨q₁, henq, h₁⟩ := h.enqueue elem (by omega)
      have hcall := call_enqueue hblocks henq
      rw [hcall] at hrest
      obtain ⟨rs, q', hrun, hcounts, hdeq⟩ := ih h₁ hrest (by omega)
      refine ⟨_, q', Outcome.runList_cons_eq_ok.mpr ⟨_, q₁, rs, hcall, hrun, rfl⟩, ?_, hdeq⟩
      rw [dequeueCount_enqueue, show n + ((enqueuedElems ops).length + 1) =
        n + 1 + (enqueuedElems ops).length by omega]
      exact hcounts
    | dequeue =>
      have hcall := call_dequeue hblocks
      rw [hcall] at hrest
      obtain ⟨rs, q', hrun, hcounts, hdeq⟩ := ih (h.dequeue hblocks) hrest hroom
      refine ⟨_, q', Outcome.runList_cons_eq_ok.mpr ⟨_, _, rs, hcall, hrun, rfl⟩, ?_, ?_⟩
      · rw [dequeueCount_dequeue, show d + (dequeueCount ops + 1) = d + 1 + dequeueCount ops by omega]
        exact hcounts
      · rw [dequeueCount_dequeue, List.replicate_succ, ← hdeq]
        rfl

/-- **Past the room**: an element is stored outside the array. -/
theorem run_pastRoom (h : q.Counts capacity n d)
    (hmeets : Outcome.Meets (fun op q => ¬ q.Blocks op.function) call ops q)
    (hroom : room capacity < n + (enqueuedElems ops).length) :
    Outcome.runList call ops q = .fault := by
  induction ops generalizing q n d with
  | nil => exact absurd h.inRoom (not_le.mpr hroom)
  | cons op ops ih =>
    obtain ⟨hblocks, hrest⟩ := hmeets
    rw [Outcome.runList]
    cases op with
    | enqueue elem =>
      by_cases hn : n + 1 ≤ room capacity
      · obtain ⟨q₁, henq, h₁⟩ := h.enqueue elem hn
        have hcall := call_enqueue hblocks henq
        rw [hcall] at hrest
        rw [enqueuedElems_enqueue, List.length_cons] at hroom
        rw [hcall, Outcome.ok_bind]
        dsimp only
        rw [ih h₁ hrest (by omega), Outcome.fault_bind]
      · rw [call_enqueue_fault hblocks (h.enqueue_pastRoom (not_le.mp hn)), Outcome.fault_bind]
    | dequeue =>
      have hcall := call_dequeue hblocks
      rw [hcall] at hrest
      rw [hcall, Outcome.ok_bind]
      dsimp only
      rw [ih (h.dequeue hblocks) hrest hroom, Outcome.fault_bind]

end PcqSlots

/-! ### The same calls in steps -/

section RunAlone

variable {ι : Type}

/-- No call is under way. -/
structure PcQueue.Idle (p : PcQueue ι) : Prop where
  calls : p.calls = fun _ => none
  currentSizeLock : p.currentSizeLock = none
  condvarLock : p.condvarLock = fun _ => none
  condvar : p.condvar = fun _ => ∅

variable [DecidableEq ι] {k : ι} {f : PcqFunction} {p : PcQueue ι} {s s' : PcqSlots α}

/-- The turns of a call that need not wait. -/
def callAlone (k : ι) (f : PcqFunction) : List (PcqTurn ι) :=
  .call k f :: List.replicate 7 (.step k k)

omit [DecidableEq ι] in
theorem PcQueue.Idle.updateSize (h : p.Idle) : (p.updateSize f).Idle := by
  cases f with
  | enqueue => exact ⟨h.calls, h.currentSizeLock, h.condvarLock, h.condvar⟩
  | dequeue => exact ⟨h.calls, h.currentSizeLock, h.condvarLock, h.condvar⟩

/-- **A call run alone** changes the size, and leaves every mutex as it was. -/
theorem run_alone (h : p.Idle) (hf : ¬ p.MustWait f) :
    Schedule.run PcQueue.step (callAlone k f) p = p.updateSize f := by
  obtain ⟨capacity, size, sizeLock, condvarLock, condvar, calls, enqueued, dequeued⟩ := p
  obtain ⟨rfl, rfl, rfl, rfl⟩ := h
  cases f with
  | enqueue =>
    have hfull : size ≠ capacity := hf
    simp [callAlone, Schedule.run, PcQueue.step, PcQueue.stepCall, PcQueue.goTo, PcQueue.setCall,
      PcQueue.setCondvarLock, PcQueue.MustWait, PcQueue.updateSize, hfull]
  | dequeue =>
    have hempty : size ≠ 0 := hf
    simp [callAlone, Schedule.run, PcQueue.step, PcQueue.stepCall, PcQueue.goTo, PcQueue.setCall,
      PcQueue.setCondvarLock, PcQueue.MustWait, PcQueue.updateSize, hempty]

omit [DecidableEq ι] in
theorem mustWait_iff_blocks (hcapacity : p.pcqCapacity = s.pcqCapacity)
    (hsize : p.pcqCurrentSize = s.pcqCurrentSize) : p.MustWait f ↔ s.Blocks f := by
  cases f with
  | enqueue => rw [PcQueue.MustWait, PcqSlots.Blocks, hcapacity, hsize]
  | dequeue => rw [PcQueue.MustWait, PcqSlots.Blocks, hsize]

omit [DecidableEq ι] in
/-- A call changes the size as its steps do. -/
theorem sizes_call (hcapacity : p.pcqCapacity = s.pcqCapacity)
    (hsize : p.pcqCurrentSize = s.pcqCurrentSize) (hblocks : ¬ s.Blocks op.function)
    (h : PcqSlots.call op s = .ok (r, s')) :
    (p.updateSize op.function).pcqCapacity = s'.pcqCapacity ∧
      (p.updateSize op.function).pcqCurrentSize = s'.pcqCurrentSize := by
  cases op with
  | enqueue elem =>
    by_cases hslot : s.nextSlot.toNat < slotCount s.pcqCapacity
    · have hcall := PcqSlots.call_enqueue hblocks (PcqSlots.pcqEnqueue_eq_ok hslot)
      obtain ⟨-, rfl⟩ := Prod.mk.inj (Outcome.ok.inj (hcall.symm.trans h))
      exact ⟨hcapacity, congrArg (· + 1) hsize⟩
    · have hfault := PcqSlots.call_enqueue_fault hblocks
        (PcqSlots.pcqEnqueue_eq_fault (not_lt.mp hslot))
      cases hfault.symm.trans h
  | dequeue =>
    obtain ⟨-, rfl⟩ := Prod.mk.inj (Outcome.ok.inj ((PcqSlots.call_dequeue hblocks).symm.trans h))
    unfold PcqSlots.pcqDequeue
    dsimp only
    split
    · exact ⟨hcapacity, congrArg (· - 1) hsize⟩
    · exact ⟨hcapacity, congrArg (· - 1) hsize⟩

/-- **The calls one after the other**, in steps: the sizes are the same. -/
theorem run_calls (hidle : p.Idle) (hcapacity : p.pcqCapacity = s.pcqCapacity)
    (hsize : p.pcqCurrentSize = s.pcqCurrentSize)
    (hmeets : Outcome.Meets (fun op q => ¬ q.Blocks op.function) PcqSlots.call ops s)
    (hrun : Outcome.runList PcqSlots.call ops s = .ok (rs, s')) :
    let p' := Schedule.run PcQueue.step (ops.flatMap fun op => callAlone k op.function) p
    p'.Idle ∧ p'.pcqCapacity = s'.pcqCapacity ∧ p'.pcqCurrentSize = s'.pcqCurrentSize := by
  induction ops generalizing p s rs with
  | nil =>
    obtain ⟨-, rfl⟩ := Prod.mk.inj (Outcome.ok.inj hrun)
    exact ⟨hidle, hcapacity, hsize⟩
  | cons op ops ih =>
    obtain ⟨r, s₁, rs', hcall, hrest, -⟩ := Outcome.runList_cons_eq_ok.mp hrun
    obtain ⟨hblocks, hmeets⟩ := hmeets
    rw [hcall] at hmeets
    have hwait : ¬ p.MustWait op.function := fun hw =>
      hblocks ((mustWait_iff_blocks hcapacity hsize).mp hw)
    obtain ⟨hcapacity₁, hsize₁⟩ := sizes_call hcapacity hsize hblocks hcall
    rw [List.flatMap_cons, Schedule.run_append, run_alone hidle hwait]
    exact ih hidle.updateSize hcapacity₁ hsize₁ hmeets hrest

end RunAlone

/-- **First in, first out.**  When no call has to wait, the pointers come out as they
went in in exactly the sequences of calls in which those that come out are `NULL` and
there is a slot for each that goes in. -/
theorem fifo_iff (capacity : UInt64) (buffer : Nat → Option α) (ops : List (PcqOp α))
    (hmeets : Outcome.Meets (fun op q => ¬ q.Blocks op.function) PcqSlots.call ops
      (PcqSlots.create capacity buffer)) :
    Fifo capacity buffer ops ↔
      (∀ elem ∈ (enqueuedElems ops).take (dequeueCount ops), elem = none) ∧
        (enqueuedElems ops).length ≤ room capacity := by
  have h : (PcqSlots.create capacity buffer).Counts capacity 0 0 := PcqSlots.counts_create buffer
  by_cases hroom : (enqueuedElems ops).length ≤ room capacity
  · obtain ⟨rs, q, hrun, hcounts, hdeq⟩ := PcqSlots.run_inRoom h hmeets (by omega)
    have hle : dequeueCount ops ≤ (enqueuedElems ops).length := by
      have hsize := hcounts.size_eq
      omega
    constructor
    · rintro ⟨rs', q', hrun', hfifo⟩
      obtain ⟨rfl, rfl⟩ := Prod.mk.inj (Outcome.ok.inj (hrun.symm.trans hrun'))
      rw [hdeq] at hfifo
      exact ⟨(List.eq_replicate_iff.mp hfifo.symm).2, hroom⟩
    · rintro ⟨hnone, -⟩
      refine ⟨rs, q, hrun, hdeq.trans (List.eq_replicate_iff.mpr ⟨?_, hnone⟩).symm⟩
      rw [List.length_take, min_eq_left hle]
  · have hfault := PcqSlots.run_pastRoom h hmeets (by omega)
    constructor
    · rintro ⟨rs, q, hrun, -⟩
      cases hfault.symm.trans hrun
    · rintro ⟨-, hle⟩
      exact absurd hle hroom

/-- Two `NULL`s, which come out, and a pointer, which does not. -/
def twoNulls : List (PcqOp Nat) :=
  [.enqueue none, .enqueue none, .dequeue, .enqueue (some 7), .dequeue]

theorem fifo_twoNulls : Outcome.Meets (fun op q => ¬ q.Blocks op.function) PcqSlots.call twoNulls
      (PcqSlots.create 4 fun _ => none) ∧
    Fifo 4 (fun _ => none) twoNulls :=
  have hmeets : Outcome.Meets (fun op q => ¬ q.Blocks op.function) PcqSlots.call twoNulls
      (PcqSlots.create 4 fun _ => none) := by
    decide
  ⟨hmeets, (fifo_iff 4 (fun _ => none) _ hmeets).mpr (by decide)⟩

/-- One element is put in, and `NULL` is taken out. -/
theorem not_fifo_onePointer :
    ¬ (∀ (capacity : UInt64) (buffer : Nat → Option Nat) (ops : List (PcqOp Nat)), 1 ≤ capacity →
      Outcome.Meets (fun op q => ¬ q.Blocks op.function) PcqSlots.call ops
        (PcqSlots.create capacity buffer) → Fifo capacity buffer ops) := by
  intro h
  obtain ⟨rs, q, hrun, hfifo⟩ := h 1 (fun _ => none) [.enqueue (some 7), .dequeue] (by decide)
    (by decide)
  have hnull : (Outcome.runList PcqSlots.call [.enqueue (some 7), .dequeue]
      (PcqSlots.create 1 fun _ => (none : Option Nat))).map (fun p => dequeuedElems p.1) =
        .ok [none] := by decide
  obtain ⟨p, hp, hnone⟩ := Outcome.map_eq_ok.mp hnull
  obtain rfl := Outcome.ok.inj (hrun.symm.trans hp)
  exact absurd (hfifo.symm.trans hnone) (by decide)

end Mbroker
