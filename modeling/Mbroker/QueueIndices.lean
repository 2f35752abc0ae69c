/-
The indices of the queue.

`pcq_head` starts again at 0 when it has come to the capacity, and `pcq_tail` never does.
The main thread takes `pcq_tail` for the index of the thread that it is about to start.

* `PcqSlots.accesses` — the indices at which a call stores into `pcq_buffer`; it stores at no others
  (`PcqSlots.pcqBuffer_call`);
* `SlotTrace` — a queue, the indices so far, and the slots of the elements in it;
* **`indicesInRange_iff`** — the indices stay below the capacity exactly as long as fewer
  elements than that have been put in, however many have been taken out;
* `not_indicesInRange_oneElement` — an element, in a queue of capacity 1.
-/
import Mbroker.QueueSlots

namespace Mbroker

variable {α : Type} {op : PcqOp α} {ops : List (PcqOp α)} {elem : Option α} {capacity : UInt64}
  {n d : Nat}

namespace PcqSlots

variable {q q' : PcqSlots α} {r : PcqReply α}

/-- The indices at which a call stores into `pcq_buffer`. -/
def accesses (op : PcqOp α) (q : PcqSlots α) : List UInt64 :=
  match op with
  | .enqueue _ =>
    if q.pcqTail = 0 then
      (if q.pcqTail = q.pcqCapacity then [q.pcqTail] else []) ++ [q.pcqTail]
    else
      (if q.pcqTail + 1 = q.pcqCapacity then [q.pcqTail + 1] else []) ++ [q.pcqTail + 1]
  | .dequeue => []

/-- Both stores are to one slot. -/
theorem mem_accesses_enqueue {i : UInt64} :
    i ∈ accesses (.enqueue elem) q ↔ i = q.nextSlot := by
  rw [accesses]
  by_cases htail : q.pcqTail = 0
  · rw [if_pos htail, nextSlot_of_eq htail, htail]
    split <;> simp
  · rw [if_neg htail, nextSlot_of_ne htail]
    split <;> simp

/-- **Nothing else is stored**: a call that returns leaves the other slots as they were. -/
theorem pcqBuffer_call (h : call op q = .ok (r, q')) {k : Nat}
    (hk : ∀ i ∈ accesses op q, i.toNat ≠ k) : q'.pcqBuffer k = q.pcqBuffer k := by
  by_cases hblocks : q.Blocks op.function
  · unfold call at h
    rw [if_pos hblocks] at h
    obtain ⟨-, rfl⟩ := Prod.mk.inj (Outcome.ok.inj h)
    rfl
  · cases op with
    | enqueue elem =>
      by_cases hslot : q.nextSlot.toNat < slotCount q.pcqCapacity
      · have hcall := call_enqueue hblocks (pcqEnqueue_eq_ok hslot : q.pcqEnqueue elem = _)
        obtain ⟨-, rfl⟩ := Prod.mk.inj (Outcome.ok.inj (hcall.symm.trans h))
        exact Function.update_of_ne (hk _ (mem_accesses_enqueue.mpr rfl)).symm _ _
      · cases (call_enqueue_fault hblocks (pcqEnqueue_eq_fault (not_lt.mp hslot))).symm.trans h
    | dequeue =>
      obtain ⟨-, rfl⟩ := Prod.mk.inj (Outcome.ok.inj ((call_dequeue hblocks).symm.trans h))
      unfold pcqDequeue
      dsimp only
      split <;> rfl

/-- `pcq_head` starts again in time. -/
theorem head_pcqDequeue (h : q.pcqHead < q.pcqCapacity) :
    q.pcqDequeue.2.pcqHead < q.pcqCapacity := by
  have hlt := UInt64.lt_iff_toNat_lt.mp h
  have hmax := q.pcqCapacity.toNat_lt
  have hsucc : (q.pcqHead + 1).toNat = q.pcqHead.toNat + 1 := by
    rw [UInt64.toNat_add, UInt64.toNat_one]
    omega
  unfold pcqDequeue
  dsimp only
  rw [UInt64.lt_iff_toNat_lt]
  split
  case isTrue => exact Nat.zero_lt_of_lt hlt
  case isFalse hne =>
    have hne : (q.pcqHead + 1).toNat ≠ q.pcqCapacity.toNat :=
      fun heq => hne (UInt64.toNat_inj.mp heq)
    dsimp only
    omega

/-- The slot of the k-th element. -/
def slotOf (k : Nat) : Nat := if k = 0 then 0 else k + 1

theorem slotOf_inj {k l : Nat} (h : slotOf k = slotOf l) : k = l := by
  unfold slotOf at h
  split at h <;> split at h <;> omega

theorem Counts.toNat_nextSlot (h : q.Counts capacity n d) : q.nextSlot.toNat = slotOf n := by
  by_cases h0 : q.pcqTail = 0
  · have hn : n = 0 := by
      rw [← h.tail_eq, h0]
      rfl
    rw [nextSlot_of_eq h0, hn]
    rfl
  · have hn : n ≠ 0 := by
      rintro rfl
      exact h0 (UInt64.toNat_inj.mp h.tail_eq)
    rw [nextSlot_of_ne h0, h.tail_succ, slotOf, if_neg hn]

end PcqSlots

/-- A queue, the indices at which its buffer has been stored into, and the slots of the
elements in it, the oldest first. -/
structure SlotTrace (α : Type) where
  queue : PcqSlots α
  accessed : List UInt64
  live : List UInt64

namespace SlotTrace

variable {s s' : SlotTrace α}

/-- `pcq_create`. -/
def start (capacity : UInt64) (buffer : Nat → Option α) : SlotTrace α :=
  ⟨.create capacity buffer, [], []⟩

/-- A call, and what it adds to the trace. -/
def next (op : PcqOp α) (s : SlotTrace α) (q : PcqSlots α) : SlotTrace α where
  queue := q
  accessed := PcqSlots.accesses op s.queue ++ s.accessed
  live :=
    match op with
    | .enqueue _ => s.live ++ [s.queue.nextSlot]
    | .dequeue => s.live.tail

/-- A call on a queue with its trace. -/
def call (op : PcqOp α) (s : SlotTrace α) : Outcome (PcqReply α × SlotTrace α) := do
  let (r, q) ← PcqSlots.call op s.queue
  return (r, s.next op q)

/-- The indices are below the capacity, and no two elements are in one slot. -/
structure InRange (capacity : UInt64) (s : SlotTrace α) : Prop where
  head : s.queue.pcqHead < capacity
  tail : s.queue.pcqTail < capacity
  accessed : ∀ i ∈ s.accessed, i < capacity
  live : s.live.Nodup

/-- `n` elements have been put in, all of them into slots, and `d` taken out. -/
structure Inv (capacity : UInt64) (n d : Nat) (s : SlotTrace α) : Prop where
  counts : s.queue.Counts capacity n d
  head : s.queue.pcqHead < capacity
  accessed : ∀ i ∈ s.accessed, i.toNat ≤ n
  live : s.live.map UInt64.toNat = (List.range' d (n - d)).map PcqSlots.slotOf

theorem call_eq_ok {r : PcqReply α} : call op s = .ok (r, s') ↔
    ∃ q, PcqSlots.call op s.queue = .ok (r, q) ∧ s' = s.next op q :=
  @Outcome.recorded_eq_ok _ _ _ _ (fun _ q => s.next op q) _ _

theorem inv_start (h : 0 < capacity) (buffer : Nat → Option α) :
    (start capacity buffer).Inv capacity 0 0 where
  counts := PcqSlots.counts_create buffer
  head := h
  accessed := fun _ hi => absurd hi List.not_mem_nil
  live := rfl

/-- The indices are in range as long as fewer elements than the capacity have been put in. -/
theorem Inv.inRange_iff (h : s.Inv capacity n d) : s.InRange capacity ↔ n < capacity.toNat := by
  constructor
  · intro hin
    have htail := UInt64.lt_iff_toNat_lt.mp hin.tail
    rwa [h.counts.tail_eq] at htail
  · intro hn
    refine ⟨h.head, ?_, fun i hi => ?_, ?_⟩
    · rwa [UInt64.lt_iff_toNat_lt, h.counts.tail_eq]
    · rw [UInt64.lt_iff_toNat_lt]
      exact lt_of_le_of_lt (h.accessed i hi) hn
    · refine List.Nodup.of_map UInt64.toNat ?_
      rw [h.live]
      exact List.Nodup.map (fun _ _ => PcqSlots.slotOf_inj) List.nodup_range'

/-- **Putting an element in**, while there is room. -/
theorem Inv.enqueue (h : s.Inv capacity n d) (elem : Option α)
    (hfull : ¬ s.queue.Blocks (PcqOp.enqueue elem).function) (hroom : n + 1 ≤ room capacity) :
    ∃ s', call (.enqueue elem) s = .ok (.enqueued 0, s') ∧ s'.Inv capacity (n + 1) d ∧
      PcqSlots.call (.enqueue elem) s.queue = .ok (.enqueued 0, s'.queue) := by
  have hslot := h.counts.nextSlot_lt.mpr hroom
  obtain ⟨q', henq, hcounts⟩ := h.counts.enqueue elem hroom
  obtain rfl := (Prod.mk.inj (Outcome.ok.inj
    ((PcqSlots.pcqEnqueue_eq_ok hslot).symm.trans henq))).2
  have hcall := PcqSlots.call_enqueue hfull henq
  refine ⟨_, call_eq_ok.mpr ⟨_, hcall, rfl⟩, ⟨hcounts, h.head, fun i hi => ?_, ?_⟩, hcall⟩
  · rcases List.mem_append.mp hi with hi | hi
    · rw [PcqSlots.mem_accesses_enqueue.mp hi, h.counts.toNat_nextSlot, PcqSlots.slotOf]
      split <;> omega
    · exact (h.accessed i hi).trans (Nat.le_succ n)
  · show (s.live ++ [s.queue.nextSlot]).map UInt64.toNat = _
    have hle : d ≤ n := by
      have hsize := h.counts.size_eq
      omega
    rw [List.map_append, h.live, List.map_singleton, h.counts.toNat_nextSlot,
      show n + 1 - d = n - d + 1 by omega, List.range'_concat, List.map_append,
      List.map_singleton, Nat.one_mul, show d + (n - d) = n by omega]

/-- **Taking an element out.** -/
theorem Inv.dequeue (h : s.Inv capacity n d)
    (hempty : ¬ s.queue.Blocks (PcqOp.dequeue : PcqOp α).function) :
    ∃ s', call .dequeue s = .ok (.dequeued none, s') ∧ s'.Inv capacity n (d + 1) ∧
      PcqSlots.call .dequeue s.queue = .ok (.dequeued none, s'.queue) := by
  have hcall := PcqSlots.call_dequeue hempty
  refine ⟨_, call_eq_ok.mpr ⟨_, hcall, rfl⟩,
    ⟨h.counts.dequeue hempty, ?_, h.accessed, ?_⟩, hcall⟩
  · have hhead := h.head
    rw [← h.counts.capacity_eq] at hhead ⊢
    exact PcqSlots.head_pcqDequeue hhead
  · have hsize := h.counts.size_eq
    have hpos : s.queue.pcqCurrentSize.toNat ≠ 0 := fun h0 => hempty (UInt64.toNat_inj.mp h0)
    show s.live.tail.map UInt64.toNat = _
    rw [List.map_tail, h.live, show n - d = n - (d + 1) + 1 by omega, List.range'_succ]
    rfl

/-- **Runs of calls** that need not wait. -/
theorem Inv.through_iff (h : s.Inv capacity n d)
    (hmeets : Outcome.Meets (fun op q => ¬ q.Blocks op.function) PcqSlots.call ops s.queue) :
    Outcome.Through (InRange capacity) call ops s ↔
      n + (enqueuedElems ops).length < capacity.toNat ∧
        n + (enqueuedElems ops).length ≤ room capacity := by
  induction ops generalizing s n d with
  | nil =>
    rw [Outcome.through_nil, h.inRange_iff]
    exact (and_iff_left h.counts.inRoom).symm
  | cons op ops ih =>
    obtain ⟨hblocks, hrest⟩ := hmeets
    rw [Outcome.through_cons]
    cases op with
    | enqueue elem =>
      rw [enqueuedElems_enqueue, List.length_cons,
        show n + ((enqueuedElems ops).length + 1) = n + 1 + (enqueuedElems ops).length by omega]
      by_cases hroom : n + 1 ≤ room capacity
      · obtain ⟨s₁, hcall, hinv, hqueue⟩ := h.enqueue elem hblocks hroom
        rw [hqueue] at hrest
        rw [← ih hinv hrest, h.inRange_iff]
        constructor
        · rintro ⟨-, r, s₂, hcall', hthrough⟩
          obtain ⟨-, rfl⟩ := Prod.mk.inj (Outcome.ok.inj (hcall.symm.trans hcall'))
          exact hthrough
        · intro hthrough
          have hn := hinv.inRange_iff.mp hthrough.good
          exact ⟨by omega, _, s₁, hcall, hthrough⟩
      · -- The element is stored outside the array.
        refine iff_of_false ?_ (by omega)
        rintro ⟨-, r, s₁, hcall, -⟩
        obtain ⟨q, hcall, -⟩ := call_eq_ok.mp hcall
        have hfault : s.queue.pcqEnqueue elem = .fault :=
          h.counts.enqueue_pastRoom (not_le.mp hroom)
        cases (PcqSlots.call_enqueue_fault hblocks hfault).symm.trans hcall
    | dequeue =>
      obtain ⟨s₁, hcall, hinv, hqueue⟩ := h.dequeue hblocks
      rw [hqueue] at hrest
      rw [show enqueuedElems (.dequeue :: ops) = enqueuedElems ops from rfl, ← ih hinv hrest,
        h.inRange_iff]
      constructor
      · rintro ⟨-, r, s₂, hcall', hthrough⟩
        obtain ⟨-, rfl⟩ := Prod.mk.inj (Outcome.ok.inj (hcall.symm.trans hcall'))
        exact hthrough
      · intro hthrough
        exact ⟨hinv.inRange_iff.mp hthrough.good, _, s₁, hcall, hthrough⟩

end SlotTrace

/-- Every call returns, with the indices in range before and after it. -/
def IndicesInRange (capacity : UInt64) (buffer : Nat → Option α) (ops : List (PcqOp α)) : Prop :=
  Outcome.Through (SlotTrace.InRange capacity) SlotTrace.call ops (.start capacity buffer)

/-- **The indices of the queue** stay in range, when no call has to wait, in exactly the
sequences of calls that put fewer elements in than the capacity, and no more than there are
slots for. -/
theorem indicesInRange_iff (hcapacity : 1 ≤ capacity) (buffer : Nat → Option α)
    (ops : List (PcqOp α))
    (hmeets : Outcome.Meets (fun op q => ¬ q.Blocks op.function) PcqSlots.call ops
      (PcqSlots.create capacity buffer)) :
    IndicesInRange capacity buffer ops ↔
      (enqueuedElems ops).length < capacity.toNat ∧
        (enqueuedElems ops).length ≤ room capacity := by
  have hpos : 0 < capacity := by
    have hle := UInt64.le_iff_toNat_le.mp hcapacity
    rw [UInt64.toNat_one] at hle
    rw [UInt64.lt_iff_toNat_lt, UInt64.toNat_zero]
    omega
  have h := SlotTrace.Inv.through_iff (SlotTrace.inv_start hpos buffer) hmeets
  rwa [Nat.zero_add] at h

theorem indicesInRange_threeElements : IndicesInRange 4 (fun _ => none)
    [PcqOp.enqueue (some 7), .enqueue (some 8), .dequeue, .enqueue (some 9), .dequeue] :=
  (indicesInRange_iff (by decide) _ _ (by decide)).mpr (by decide)

/-- After one element, `pcq_tail` is the capacity. -/
theorem not_indicesInRange_oneElement :
    ¬ ∀ (capacity : UInt64) (buffer : Nat → Option Nat) (ops : List (PcqOp Nat)), 1 ≤ capacity →
      Outcome.Meets (fun op q => ¬ q.Blocks op.function) PcqSlots.call ops
        (PcqSlots.create capacity buffer) → IndicesInRange capacity buffer ops := by
  intro h
  obtain ⟨rs, s, hrun, hin⟩ := h 1 (fun _ => none) [.enqueue (some 7)] (by decide) (by decide) 1
  have htail : (Outcome.runList SlotTrace.call [.enqueue (some 7)]
      (SlotTrace.start 1 fun _ => (none : Option Nat))).map (fun p => p.2.queue.pcqTail) =
        .ok 1 := by decide
  obtain ⟨p, hp, htail⟩ := Outcome.map_eq_ok.mp htail
  obtain rfl := Outcome.ok.inj (hrun.symm.trans hp)
  have hlt : s.queue.pcqTail < 1 := hin.tail
  rw [show s.queue.pcqTail = 1 from htail] at hlt
  exact absurd hlt (by decide)

end Mbroker
