/-
The memory of the broker, from `main` to `mbroker_close`.

`main` allocates the threads and the queue, and `pcq_create` the slots.  What `mbroker_close` gives
back is not that: `pcq_destroy` gives back what the slots hold, which is what `malloc` left there
or the addresses of threads, then every thread is given back by itself, though they are one block,
and the slots never are.

* `MainAllocates` — the three blocks;
* `useQueue_slots` — what a queue of one slot holds;
* **`mbrokerClose_returns_iff`** — when every pointer that is given back is one that can be, and
  which blocks are left then.
-/
import Mbroker.Heap
import Mbroker.QueueSlots
import Mbroker.Shutdown

namespace Mbroker

/-! ### The allocations and the threads -/

/-- `sizeof(pc_queue_t)`. -/
def sizeofPcQueue : Nat := 336

/-- `main` allocates the threads and the queue, and `pcq_create` the slots. -/
def MainAllocates (maxSessions : UInt64) (tid queue buffer : Nat) (h h' : Heap) : Prop :=
  Heap.Mallocs [(8 * maxSessions).toNat, sizeofPcQueue, (8 * maxSessions).toNat] h
    [some tid, some queue, some buffer] h'

/-- `&tid[i]`. -/
def threadAt (tid i : Nat) : Nat := tid + 8 * i

/-- The main thread gets a request, or a handler has ended. -/
inductive QueueUse where
  | request
  | ended
deriving DecidableEq

/-- The call of the queue: the main thread puts in the address of the thread that `pcq_tail`
tells. -/
def QueueUse.op (tid : Nat) (q : PcqSlots Nat) : QueueUse → PcqOp Nat
  | .request => .enqueue (some (threadAt tid q.pcqTail.toNat))
  | .ended => .dequeue

/-- The address has been put in. -/
def PcqReply.isEnqueued {α : Type} : PcqReply α → Bool
  | .enqueued _ => true
  | _ => false

def useQueue (tid : Nat) (use : QueueUse) (q : PcqSlots Nat) :
    Outcome (PcqReply Nat × PcqSlots Nat) := q.call (use.op tid q)

/-! ### The end -/

/-- `for (; i < queue->pcq_capacity; i++) free(queue->pcq_buffer[i]);`, when there are `n` slots
from `i` on. -/
def freeSlots (queue buffer : Nat) (slots : Nat → Option Nat) : Nat → Nat → Heap → Outcome Heap
  | _, 0, h => if h.Live queue then .ok h else .fault
  | i, n + 1, h =>
    if h.Live queue ∧ h.Live buffer then h.free (slots i) >>= freeSlots queue buffer slots (i + 1) n
    else .fault

/-- `pcq_destroy`, as far as the memory goes; the counter of its loop is an `int`. -/
def PcqSlots.pcqDestroy (queue buffer : Nat) (q : PcqSlots Nat) (h : Heap) :
    Outcome (PcqSlots Nat × Heap) :=
  if 2 ^ 31 ≤ q.pcqCapacity.toNat then .fault
  else do
    let h ← freeSlots queue buffer q.pcqBuffer 0 q.pcqCapacity.toNat h
    return ({ q with pcqCapacity := 0, pcqCurrentSize := 0, pcqHead := 0, pcqTail := 0 }, h)

/-- `for (int i = 0; i < max_sessions; i++) free(&tid[i]);` -/
def freeThreads (tid : Nat) (maxSessions : UInt64) (h : Heap) : Outcome Heap :=
  if 2 ^ 31 ≤ maxSessions.toNat then .fault
  else h.freeAll ((List.range maxSessions.toNat).map fun i => some (threadAt tid i))

/-- `mbroker_close`. -/
def mbrokerClose (tid queue buffer : Nat) (maxSessions : UInt64) (q : PcqSlots Nat) (t : BoxTable)
    (h : Heap) : Outcome (Visits × Heap) := do
  let (_, h) ← q.pcqDestroy queue buffer h
  let v ← t.closeBoxes 0
  let h ← freeThreads tid maxSessions h
  let h ← h.free (some queue)
  return (v, h)

/-! ### A queue of one slot -/

variable {tid queue buffer n i a : Nat} {maxSessions : UInt64} {q q' : PcqSlots Nat} {use : QueueUse}
  {uses : List QueueUse} {r : PcqReply Nat} {rs : List (PcqReply Nat)} {h h₀ h₁ h' : Heap}
  {t : BoxTable}

/-- The one slot, before and after the first request. -/
inductive OneSlot (tid : Nat) (slots : Nat → Option Nat) (q : PcqSlots Nat) : Bool → Prop
  | unused (hcapacity : q.pcqCapacity = 1) (htail : q.pcqTail = 0) (hslots : q.pcqBuffer = slots) :
      OneSlot tid slots q false
  | used (hcapacity : q.pcqCapacity = 1) (htail : q.pcqTail = 1)
      (hslot : q.pcqBuffer 0 = some tid) : OneSlot tid slots q true

/-- **One call** puts the address of the thread into the slot, or leaves it. -/
theorem OneSlot.step {slots : Nat → Option Nat} {b : Bool} (hq : OneSlot tid slots q b)
    (huse : useQueue tid use q = .ok (r, q')) :
    OneSlot tid slots q' (b || r.isEnqueued) := by
  by_cases hblocks : q.Blocks (use.op tid q).function
  · unfold useQueue PcqSlots.call at huse
    rw [if_pos hblocks] at huse
    obtain ⟨rfl, rfl⟩ := Prod.mk.inj (Outcome.ok.inj huse)
    show OneSlot tid slots q (b || false)
    rwa [Bool.or_false]
  · cases use with
    | request =>
      by_cases hslot : q.nextSlot.toNat < slotCount q.pcqCapacity
      · have hcall := PcqSlots.call_enqueue hblocks (PcqSlots.pcqEnqueue_eq_ok hslot)
        obtain ⟨rfl, rfl⟩ := Prod.mk.inj (Outcome.ok.inj (huse.symm.trans hcall))
        cases hq with
        | unused hcapacity htail hslots =>
          refine .used hcapacity ?_ ?_
          · dsimp only
            rw [htail]
            rfl
          · dsimp only
            rw [PcqSlots.nextSlot_of_eq htail, htail]
            exact Function.update_self _ _ _
        | used hcapacity htail =>
          rw [hcapacity, PcqSlots.nextSlot_of_ne (by rw [htail]; decide), htail] at hslot
          exact absurd hslot (by decide)
      · have hfault := PcqSlots.call_enqueue_fault hblocks
          (PcqSlots.pcqEnqueue_eq_fault (not_lt.mp hslot))
        cases huse.symm.trans hfault
    | ended =>
      have hcall := PcqSlots.call_dequeue hblocks
      obtain ⟨rfl, rfl⟩ := Prod.mk.inj (Outcome.ok.inj (huse.symm.trans hcall))
      have hsame : q.pcqDequeue.2.pcqCapacity = q.pcqCapacity ∧
          q.pcqDequeue.2.pcqTail = q.pcqTail ∧ q.pcqDequeue.2.pcqBuffer = q.pcqBuffer := by
        rw [PcqSlots.pcqDequeue]
        dsimp only
        split <;> exact ⟨rfl, rfl, rfl⟩
      obtain ⟨hcap, htl, hbuf⟩ := hsame
      cases hq with
      | unused hcapacity htail hslots =>
        exact .unused (hcap.trans hcapacity) (htl.trans htail) (hbuf.trans hslots)
      | used hcapacity htail hslot =>
        exact .used (hcap.trans hcapacity) (htl.trans htail) (by rw [hbuf, hslot])

theorem OneSlot.run {slots : Nat → Option Nat} {b : Bool} (hq : OneSlot tid slots q b)
    (hrun : Outcome.runList (useQueue tid) uses q = .ok (rs, q')) :
    OneSlot tid slots q' (b || rs.any PcqReply.isEnqueued) := by
  induction uses generalizing q rs b with
  | nil =>
    obtain ⟨rfl, rfl⟩ := Prod.mk.inj (Outcome.ok.inj hrun)
    simpa using hq
  | cons use uses ih =>
    obtain ⟨r, q₁, rs', hstep, hrest, rfl⟩ := Outcome.runList_cons_eq_ok.mp hrun
    rw [List.any_cons, ← Bool.or_assoc]
    exact ih (hq.step hstep) hrest

/-! ### Giving back -/

theorem live_of_freeSlots {slots : Nat → Option Nat}
    (hfree : freeSlots queue buffer slots i n h = .ok h') (hlive : h'.Live a) : h.Live a := by
  induction n generalizing i h with
  | zero =>
    rw [freeSlots] at hfree
    split at hfree
    · obtain rfl := Outcome.ok.inj hfree
      exact hlive
    · cases hfree
  | succ n ih =>
    rw [freeSlots] at hfree
    split at hfree
    · obtain ⟨h₁, hp, hrest⟩ := Outcome.bind_eq_ok.mp hfree
      exact ((Heap.live_free hp).mp (ih hrest)).1
    · cases hfree

/-- The threads are one block, so that they can be given back one by one only if there is one of
them at most. -/
theorem le_one_of_freeThreads (htid : h.size tid = some (8 * maxSessions).toNat)
    (hsub : ∀ a, h'.Live a → h.Live a)
    (hret : ∃ h'', freeThreads tid maxSessions h' = .ok h'') : maxSessions = 0 ∨ maxSessions = 1 := by
  obtain ⟨h'', hfree⟩ := hret
  rw [freeThreads] at hfree
  split at hfree
  case isTrue => cases hfree
  case isFalse hsmall =>
    have hbytes : (8 * maxSessions).toNat = 8 * maxSessions.toNat := by
      have height : (8 : UInt64).toNat = 8 := rfl
      rw [UInt64.toNat_mul, height]
      omega
    by_contra hmany
    rw [not_or] at hmany
    have h0 : maxSessions.toNat ≠ 0 := fun h0 => hmany.1 (UInt64.toNat_inj.mp h0)
    have h1 : maxSessions.toNat ≠ 1 := fun h1 => hmany.2 (UInt64.toNat_inj.mp h1)
    -- The second thread is inside the block of the first.
    have hsecond : some (threadAt tid 1) ∈
        (List.range maxSessions.toNat).map fun i => some (threadAt tid i) :=
      List.mem_map.mpr ⟨1, List.mem_range.mpr (by omega), rfl⟩
    have hlive := (Heap.freeAll_returns_iff.mp ⟨h'', hfree⟩).2 _ hsecond
    have hinside : tid < threadAt tid 1 ∧ threadAt tid 1 < tid + (8 * maxSessions).toNat := by
      rw [threadAt, hbytes]
      omega
    exact Heap.not_live_inside htid hinside.1 hinside.2 (hsub _ hlive)

/-- The three blocks, as long as they are there. -/
structure Allocated (maxSessions : UInt64) (tid queue buffer : Nat) (h : Heap) : Prop where
  threads : h.size tid = some (8 * maxSessions).toNat
  pcQueue : h.Live queue
  slots : h.Live buffer
  ne : tid ≠ queue

theorem MainAllocates.allocated (halloc : MainAllocates maxSessions tid queue buffer h₀ h₁)
    (hkept : ∀ a ∈ [tid, queue, buffer], h.size a = h₁.size a) :
    Allocated maxSessions tid queue buffer h := by
  obtain ⟨hfresh, hapart, hsizes⟩ := Heap.Mallocs.fresh halloc
  have hlive : ∀ a ∈ [tid, queue, buffer], h.Live a := by
    intro a ha
    rw [Heap.Live, hkept a ha]
    exact (hfresh a (by simpa using ha)).2
  refine ⟨?_, hlive queue (by simp), hlive buffer (by simp), ?_⟩
  · rw [hkept tid (by simp)]
    cases hsizes with
    | cons htid => exact htid tid rfl
  · rintro rfl
    cases (List.pairwise_cons.mp hapart).1 (some tid) (by simp) rfl

theorem mbrokerClose_eq_ok {v : Visits} :
    mbrokerClose tid queue buffer maxSessions q t h = .ok (v, h') ↔
      ∃ q' h₁ h₂, q.pcqDestroy queue buffer h = .ok (q', h₁) ∧ t.closeBoxes 0 = .ok v ∧
        freeThreads tid maxSessions h₁ = .ok h₂ ∧ h₂.free (some queue) = .ok h' := by
  rw [mbrokerClose]
  constructor
  · intro hclose
    obtain ⟨⟨q', h₁⟩, hdestroy, hclose⟩ := Outcome.bind_eq_ok.mp hclose
    obtain ⟨v', hv, hclose⟩ := Outcome.bind_eq_ok.mp hclose
    obtain ⟨h₂, hthreads, hclose⟩ := Outcome.bind_eq_ok.mp hclose
    obtain ⟨h₃, hfree, hret⟩ := Outcome.bind_eq_ok.mp hclose
    obtain ⟨rfl, rfl⟩ := Prod.mk.inj (Outcome.ok.inj hret)
    exact ⟨q', h₁, h₂, hdestroy, hv, hthreads, hfree⟩
  · rintro ⟨q', h₁, h₂, hdestroy, hv, hthreads, hfree⟩
    rw [hdestroy, Outcome.ok_bind]
    dsimp only
    rw [hv, Outcome.ok_bind, hthreads, Outcome.ok_bind, hfree]
    rfl

/-- Without sessions only the queue is given back. -/
theorem mbrokerClose_zero (hq : q.pcqCapacity = 0) (hqueue : h.Live queue) {v : Visits} :
    mbrokerClose tid queue buffer 0 q t h = .ok (v, h') ↔
      t.closeBoxes 0 = .ok v ∧ h.freeAll [some queue] = .ok h' := by
  have hthreads : freeThreads tid 0 h = .ok h := by
    rw [freeThreads, if_neg (by decide)]
    rfl
  obtain ⟨q', hdestroy⟩ : ∃ q', q.pcqDestroy queue buffer h = .ok (q', h) := by
    refine ⟨{ q with pcqCapacity := 0, pcqCurrentSize := 0, pcqHead := 0, pcqTail := 0 }, ?_⟩
    rw [PcqSlots.pcqDestroy, hq, if_neg (by decide), UInt64.toNat_zero, freeSlots, if_pos hqueue]
    rfl
  rw [mbrokerClose_eq_ok, hdestroy]
  simp only [Outcome.ok.injEq, Prod.mk.injEq, Heap.freeAll]
  constructor
  · rintro ⟨q', h₁, h₂, ⟨-, rfl⟩, hv, hfree, hret⟩
    obtain rfl := Outcome.ok.inj (hthreads.symm.trans hfree)
    exact ⟨hv, Outcome.bind_eq_ok.mpr ⟨h', hret, rfl⟩⟩
  · rintro ⟨hv, hfree⟩
    obtain ⟨h₃, hret, hsame⟩ := Outcome.bind_eq_ok.mp hfree
    obtain rfl := Outcome.ok.inj hsame
    exact ⟨q', h, h, ⟨rfl, rfl⟩, hv, hthreads, hret⟩

/-- With one, what the slot holds is given back as well, and the thread. -/
theorem mbrokerClose_one (hq : q.pcqCapacity = 1) (hh : Allocated 1 tid queue buffer h)
    {v : Visits} : mbrokerClose tid queue buffer 1 q t h = .ok (v, h') ↔
      t.closeBoxes 0 = .ok v ∧ h.freeAll [q.pcqBuffer 0, some tid, some queue] = .ok h' := by
  have hthreads : ∀ h, freeThreads tid 1 h = h.free (some tid) := by
    intro h
    rw [freeThreads, if_neg (by decide)]
    show h.free (some tid) >>= Outcome.ok = h.free (some tid)
    cases h.free (some tid) <;> rfl
  have hdestroy : ∀ q' h₁, q.pcqDestroy queue buffer h = .ok (q', h₁) →
      h.free (q.pcqBuffer 0) = .ok h₁ := by
    intro q' h₁ hdestroy
    rw [PcqSlots.pcqDestroy, hq, if_neg (by decide), UInt64.toNat_one, freeSlots,
      if_pos ⟨hh.pcQueue, hh.slots⟩] at hdestroy
    obtain ⟨h₂, hslots, hret⟩ := Outcome.bind_eq_ok.mp hdestroy
    obtain ⟨h₃, hfree, hcheck⟩ := Outcome.bind_eq_ok.mp hslots
    rw [freeSlots] at hcheck
    split at hcheck
    · obtain rfl := Outcome.ok.inj hcheck
      obtain ⟨-, rfl⟩ := Prod.mk.inj (Outcome.ok.inj hret)
      exact hfree
    · cases hcheck
  rw [mbrokerClose_eq_ok]
  constructor
  · rintro ⟨q', h₁, h₂, hdest, hv, hfree, hret⟩
    rw [hthreads] at hfree
    refine ⟨hv, Outcome.bind_eq_ok.mpr ⟨h₁, hdestroy q' h₁ hdest, ?_⟩⟩
    refine Outcome.bind_eq_ok.mpr ⟨h₂, hfree, ?_⟩
    exact Outcome.bind_eq_ok.mpr ⟨h', hret, rfl⟩
  · rintro ⟨hv, hfree⟩
    obtain ⟨h₁, hslot, hfree⟩ := Outcome.bind_eq_ok.mp hfree
    obtain ⟨h₂, hthread, hfree⟩ := Outcome.bind_eq_ok.mp hfree
    obtain ⟨h₃, hret, hsame⟩ := Outcome.bind_eq_ok.mp hfree
    obtain rfl := Outcome.ok.inj hsame
    -- The queue is still there when the loop looks at its capacity.
    have hqueue : h₁.Live queue := by
      have hlive : h₂.Live queue := by
        by_contra hno
        rw [Heap.free_of_not_live hno] at hret
        cases hret
      exact ((Heap.live_free hthread).mp hlive).1
    refine ⟨{ q with pcqCapacity := 0, pcqCurrentSize := 0, pcqHead := 0, pcqTail := 0 }, h₁, h₂,
      ?_, hv, ?_, hret⟩
    · rw [PcqSlots.pcqDestroy, hq, if_neg (by decide), UInt64.toNat_one, freeSlots,
        if_pos ⟨hh.pcQueue, hh.slots⟩, hslot, Outcome.ok_bind, freeSlots, if_pos hqueue]
      rfl
    · rw [hthreads, hthread]

theorem live_of_pcqDestroy (hdestroy : q.pcqDestroy queue buffer h = .ok (q', h'))
    (hlive : h'.Live a) : h.Live a := by
  rw [PcqSlots.pcqDestroy] at hdestroy
  split at hdestroy
  · cases hdestroy
  · obtain ⟨h₁, hslots, hret⟩ := Outcome.bind_eq_ok.mp hdestroy
    obtain ⟨-, rfl⟩ := Prod.mk.inj (Outcome.ok.inj hret)
    exact live_of_freeSlots hslots hlive

/-- **With two sessions or more** the end is never reached. -/
theorem le_one_of_mbrokerClose (hh : Allocated maxSessions tid queue buffer h) {v : Visits}
    (hclose : mbrokerClose tid queue buffer maxSessions q t h = .ok (v, h')) :
    maxSessions = 0 ∨ maxSessions = 1 := by
  obtain ⟨q', h₁, h₂, hdestroy, -, hthreads, -⟩ := mbrokerClose_eq_ok.mp hclose
  exact le_one_of_freeThreads hh.threads (fun a => live_of_pcqDestroy hdestroy) ⟨h₂, hthreads⟩

/-- A queue without slots takes nothing in. -/
theorem useQueue_noSlots {slots : Nat → Option Nat}
    (hrun : Outcome.runList (useQueue tid) uses (PcqSlots.create 0 slots) = .ok (rs, q)) :
    q.pcqCapacity = 0 := by
  have hstep : ∀ use q₁ r q₂, q₁ = PcqSlots.create 0 slots →
      useQueue tid use q₁ = .ok (r, q₂) → q₂ = PcqSlots.create 0 slots := by
    rintro use q₁ r q₂ rfl huse
    have hblocks : (PcqSlots.create 0 slots).Blocks (use.op tid (.create 0 slots)).function := by
      cases use <;> rfl
    unfold useQueue PcqSlots.call at huse
    rw [if_pos hblocks] at huse
    exact (Prod.mk.inj (Outcome.ok.inj huse)).2.symm
  rw [Outcome.runList_invariant hstep rfl hrun]
  rfl

/-- What can be in the slot for everything to be given back once. -/
theorem Allocated.freeAll_returns_iff (hh : Allocated maxSessions tid queue buffer h)
    (p : Option Nat) : (∃ h', h.freeAll [p, some tid, some queue] = .ok h') ↔
      ∀ a, p = some a → h.Live a ∧ a ≠ tid ∧ a ≠ queue := by
  have htid : h.Live tid := Heap.live_iff.mpr ⟨_, hh.threads⟩
  rw [Heap.freeAll_returns_iff]
  constructor
  · rintro ⟨hapart, hlive⟩ a rfl
    obtain ⟨hfirst, -⟩ := List.pairwise_cons.mp hapart
    refine ⟨hlive a List.mem_cons_self, ?_, ?_⟩
    · rintro rfl
      cases hfirst (some a) (by simp) rfl
    · rintro rfl
      cases hfirst (some a) (by simp) rfl
  · intro hp
    refine ⟨.cons ?_ (.cons ?_ (List.pairwise_singleton _ _)), ?_⟩
    · rintro r hr rfl
      cases p with
      | none => rfl
      | some a =>
        obtain ⟨-, hat, haq⟩ := hp a rfl
        simp [hat, haq] at hr
    · intro r hr heq
      obtain rfl := List.mem_singleton.mp hr
      exact absurd (Option.some.inj heq) hh.ne
    · intro a ha
      rcases List.mem_cons.mp ha with hslot | ha
      · exact (hp a hslot.symm).1
      · rcases List.mem_cons.mp ha with hthread | ha
        · obtain rfl := Option.some.inj hthread
          exact htid
        · obtain rfl := Option.some.inj (List.mem_singleton.mp ha)
          exact hh.pcQueue

theorem mbrokerClose_zero_returns_iff (hh : Allocated 0 tid queue buffer h)
    (hq : q.pcqCapacity = 0) :
    (∃ r, mbrokerClose tid queue buffer 0 q t h = .ok r) ↔ ∃ v, t.closeBoxes 0 = .ok v := by
  constructor
  · rintro ⟨⟨v, h'⟩, hclose⟩
    exact ⟨v, ((mbrokerClose_zero hq hh.pcQueue).mp hclose).1⟩
  · rintro ⟨v, hv⟩
    obtain ⟨h', hfree⟩ : ∃ h', h.freeAll [some queue] = .ok h' := by
      refine Heap.freeAll_returns_iff.mpr ⟨List.pairwise_singleton _ _, fun a ha => ?_⟩
      obtain rfl := Option.some.inj (List.mem_singleton.mp ha)
      exact hh.pcQueue
    exact ⟨(v, h'), (mbrokerClose_zero hq hh.pcQueue).mpr ⟨hv, hfree⟩⟩

theorem mbrokerClose_one_returns_iff (hh : Allocated 1 tid queue buffer h)
    (hq : q.pcqCapacity = 1) :
    (∃ r, mbrokerClose tid queue buffer 1 q t h = .ok r) ↔
      (∃ v, t.closeBoxes 0 = .ok v) ∧
        ∀ a, q.pcqBuffer 0 = some a → h.Live a ∧ a ≠ tid ∧ a ≠ queue := by
  rw [← hh.freeAll_returns_iff]
  constructor
  · rintro ⟨⟨v, h'⟩, hclose⟩
    obtain ⟨hv, hfree⟩ := (mbrokerClose_one hq hh).mp hclose
    exact ⟨⟨v, hv⟩, h', hfree⟩
  · rintro ⟨⟨v, hv⟩, h', hfree⟩
    exact ⟨(v, h'), (mbrokerClose_one hq hh).mpr ⟨hv, hfree⟩⟩

/-- **The end of the broker**: it gives back only what it has, and that only once, exactly when
there are no sessions, or there is one that no request has come to and `malloc` has not left the
address of the threads or of the queue, or one that is no block's, in the slot.  The blocks that
are left then are all but the queue, the threads and what the slot holds. -/
theorem mbrokerClose_returns_iff {slots : Nat → Option Nat}
    (halloc : MainAllocates maxSessions tid queue buffer h₀ h₁)
    (hrun : Outcome.runList (useQueue tid) uses (PcqSlots.create maxSessions slots) = .ok (rs, q))
    (hkept : ∀ a ∈ [tid, queue, buffer], h.size a = h₁.size a) (t : BoxTable) :
    ((∃ r, mbrokerClose tid queue buffer maxSessions q t h = .ok r) ↔
      (∃ v, t.closeBoxes 0 = .ok v) ∧ (maxSessions = 0 ∨
        maxSessions = 1 ∧ rs.any PcqReply.isEnqueued = false ∧
          ∀ a, slots 0 = some a → h.Live a ∧ a ≠ tid ∧ a ≠ queue)) ∧
    ∀ v h', mbrokerClose tid queue buffer maxSessions q t h = .ok (v, h') → ∀ a,
      (h'.Live a ↔ h.Live a ∧ a ≠ queue ∧ (maxSessions = 0 ∨ a ≠ tid ∧ slots 0 ≠ some a)) := by
  have hh := halloc.allocated hkept
  by_cases h0 : maxSessions = 0
  · subst h0
    have hcapacity := useQueue_noSlots hrun
    constructor
    · rw [mbrokerClose_zero_returns_iff hh hcapacity]
      simp
    · intro v h' hclose a
      rw [Heap.live_freeAll ((mbrokerClose_zero hcapacity hh.pcQueue).mp hclose).2]
      simp
  by_cases h1 : maxSessions = 1
  · subst h1
    have hslot := (OneSlot.unused rfl rfl rfl : OneSlot tid slots (.create 1 slots) false).run hrun
    rw [Bool.false_or] at hslot
    generalize rs.any PcqReply.isEnqueued = used at hslot
    cases hslot with
    | unused hcapacity _ hslots =>
      constructor
      · rw [mbrokerClose_one_returns_iff hh hcapacity, hslots]
        simp
      · intro v h' hclose a
        rw [Heap.live_freeAll ((mbrokerClose_one hcapacity hh).mp hclose).2, hslots]
        simp only [List.mem_cons, Option.some.injEq, List.not_mem_nil, or_false, not_or, h0,
          false_or]
        tauto
    | used hcapacity _ hheld =>
      -- The thread would be given back twice.
      have hnever : ¬ ∃ r, mbrokerClose tid queue buffer 1 q t h = .ok r := by
        rw [mbrokerClose_one_returns_iff hh hcapacity]
        intro hleft
        exact (hleft.2 tid hheld).2.1 rfl
      refine ⟨iff_of_false hnever ?_, fun v h' hclose => absurd ⟨(v, h'), hclose⟩ hnever⟩
      simp
  · have hnever : ¬ ∃ r, mbrokerClose tid queue buffer maxSessions q t h = .ok r := by
      rintro ⟨⟨v, h'⟩, hclose⟩
      exact (le_one_of_mbrokerClose hh hclose).elim h0 h1
    refine ⟨iff_of_false hnever ?_, fun v h' hclose => absurd ⟨(v, h'), hclose⟩ hnever⟩
    simp [h0, h1]

/-- Two boxes, without subscribers. -/
def unsubscribed : BoxTable := ⟨fun _ => .zero, 2, fun k => decide (k < 2)⟩

theorem closeBoxes_unsubscribed : ∃ v, unsubscribed.closeBoxes 0 = .ok v := by
  rw [BoxTable.closeBoxes_of_lt (by decide), BoxTable.closeSubscribers_next (by decide) (by decide),
    BoxTable.closeBoxes_of_lt (by decide), BoxTable.closeSubscribers_next (by decide) (by decide),
    BoxTable.closeBoxes_of_le (by decide)]
  exact ⟨_, rfl⟩

theorem mbrokerClose_returns_unsubscribed : ∃ h₁,
    MainAllocates 1 16 32 400 .empty h₁ ∧
    ∃ r, mbrokerClose 16 32 400 1 (.create 1 fun _ => none) unsubscribed h₁ = .ok r := by
  have hthreads : Heap.empty.Room 16 8 := Heap.room_empty (by decide)
  have hqueue := (Heap.room_empty (by decide) : Heap.empty.Room 32 336).add hthreads (by decide)
  have hslots := ((Heap.room_empty (by decide) : Heap.empty.Room 400 8).add hthreads
    (by decide)).add hqueue (by decide)
  have halloc : MainAllocates 1 16 32 400 .empty (Heap.add _ 400 8 hslots) :=
    .cons (.gives 16 hthreads) (.cons (.gives 32 hqueue) (.cons (.gives 400 hslots) (.nil _)))
  have hrun : Outcome.runList (useQueue 16) [.ended] (PcqSlots.create 1 fun _ => none) =
      .ok ([.blocked], .create 1 fun _ => none) := rfl
  refine ⟨_, halloc, ?_⟩
  refine (mbrokerClose_returns_iff halloc hrun (fun _ _ => rfl) unsubscribed).1.mpr
    ⟨closeBoxes_unsubscribed, Or.inr ⟨rfl, rfl, ?_⟩⟩
  intro a ha
  cases ha

end Mbroker
