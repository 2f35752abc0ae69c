/-
The queue between the main thread and the handlers.

`pcq_enqueue` and `pcq_dequeue` of `producer-consumer.c`, in steps: each lock, test,
wait, update, signal and unlock is one.  A function tests the size under the mutex
of its own condition variable and changes it under `pcq_current_size_lock`; after
a wait it does not unlock the former.  What the slots hold is left out.

* `PcQueue.Inv` — who holds which mutex, and that what was tested still holds when
  it is acted on;
* **`occupancy`** — the size is what has been put in less what has been taken out,
  and at most the capacity;
* **`notified_iff`** — the thread that enqueues never sleeps on while there is room,
  in exactly the runs in which it only goes to sleep on a full queue, or before a
  signal that is due;
* `not_notified_missedSignal` — a signal between the test and the sleep.
-/
import Mbroker.Schedule
import Mathlib.Data.Fintype.Basic

namespace Mbroker

/-- `pcq_enqueue` or `pcq_dequeue`. -/
inductive PcqFunction where
  | enqueue
  | dequeue
deriving DecidableEq

namespace PcqFunction

/-- The one whose sleepers it signals. -/
def other : PcqFunction → PcqFunction
  | enqueue => dequeue
  | dequeue => enqueue

end PcqFunction

/-- The next step of a call. -/
inductive PcqPc where
  | lock
  | test
  | wait
  | waiting
  | lockSize
  | update
  | signal
  | unlockSize
  | unlock
deriving DecidableEq

namespace PcqPc

/-- The mutex of the condition variable is held. -/
def Inside : PcqPc → Prop
  | lock | waiting => False
  | _ => True

/-- `pcq_current_size_lock` is held. -/
def Updating : PcqPc → Prop
  | update | signal | unlockSize => True
  | _ => False

/-- The loop is over, and the size has not been changed yet. -/
def Tested : PcqPc → Prop
  | lockSize | update => True
  | _ => False

/-- How many updates the call has made. -/
def updates : PcqPc → Nat
  | signal | unlockSize | unlock => 1
  | _ => 0

end PcqPc

/-- A call of one of the functions. -/
structure PcqCall where
  function : PcqFunction
  pc : PcqPc
  shouldUnlock : Bool
deriving DecidableEq

/-- The call waits for an element, or for room. -/
def PcqCall.Waits (c : PcqCall) : Prop := c.pc = .wait ∨ c.pc = .waiting

/-- `pc_queue_t` and the calls under way.  `condvarLock` are `pcq_pusher_condvar_lock`
and `pcq_popper_condvar_lock`, `condvar` those that sleep on the condition variables
and have not been woken; `enqueued` and `dequeued` count the updates. -/
structure PcQueue (ι : Type) where
  pcqCapacity : UInt64
  pcqCurrentSize : UInt64
  currentSizeLock : Option ι
  condvarLock : PcqFunction → Option ι
  condvar : PcqFunction → Finset ι
  calls : ι → Option PcqCall
  enqueued : Nat
  dequeued : Nat

/-- A turn: a thread calls a function, goes on with one, or is woken by nothing.  A
signal wakes the `sleeper`, if there is one to wake. -/
inductive PcqTurn (ι : Type) where
  | call (i : ι) (f : PcqFunction)
  | step (i sleeper : ι)
  | wakeUp (i : ι)

variable {ι : Type}

/-- `pcq_create`. -/
def pcqCreate (capacity : UInt64) : PcQueue ι where
  pcqCapacity := capacity
  pcqCurrentSize := 0
  currentSizeLock := none
  condvarLock := fun _ => none
  condvar := fun _ => ∅
  calls := fun _ => none
  enqueued := 0
  dequeued := 0

namespace PcQueue

/-- The condition of the loop: the queue is full, or empty. -/
def MustWait : PcqFunction → PcQueue ι → Prop
  | .enqueue, q => q.pcqCurrentSize = q.pcqCapacity
  | .dequeue, q => q.pcqCurrentSize = 0

instance : ∀ (f : PcqFunction) (q : PcQueue ι), Decidable (q.MustWait f)
  | .enqueue, q => inferInstanceAs (Decidable (q.pcqCurrentSize = q.pcqCapacity))
  | .dequeue, q => inferInstanceAs (Decidable (q.pcqCurrentSize = 0))

/-- `pcq_current_size++` or `pcq_current_size--`. -/
def updateSize : PcqFunction → PcQueue ι → PcQueue ι
  | .enqueue, q => { q with pcqCurrentSize := q.pcqCurrentSize + 1, enqueued := q.enqueued + 1 }
  | .dequeue, q => { q with pcqCurrentSize := q.pcqCurrentSize - 1, dequeued := q.dequeued + 1 }

def setCondvarLock (f : PcqFunction) (o : Option ι) (q : PcQueue ι) : PcQueue ι :=
  { q with condvarLock := Function.update q.condvarLock f o }

def setCondvar (f : PcqFunction) (sleepers : Finset ι) (q : PcQueue ι) : PcQueue ι :=
  { q with condvar := Function.update q.condvar f sleepers }

variable [DecidableEq ι]

def setCall (i : ι) (o : Option PcqCall) (q : PcQueue ι) : PcQueue ι :=
  { q with calls := Function.update q.calls i o }

/-- Thread `i` goes on at `pc`. -/
def goTo (i : ι) (c : PcqCall) (pc : PcqPc) (q : PcQueue ι) : PcQueue ι :=
  q.setCall i (some { c with pc := pc })

/-- A step of a call.  A thread that would lock a mutex which is held stays where
it is, also if it holds it itself. -/
def stepCall (i sleeper : ι) (c : PcqCall) (q : PcQueue ι) : PcQueue ι :=
  match c.pc with
  | .lock =>
    if q.condvarLock c.function = none then
      (q.setCondvarLock c.function (some i)).goTo i c .test
    else q
  | .test => if q.MustWait c.function then q.goTo i c .wait else q.goTo i c .lockSize
  | .wait =>
    ((q.setCondvarLock c.function none).setCondvar c.function
      (insert i (q.condvar c.function))).goTo i c .waiting
  | .waiting =>
    -- `pthread_cond_wait` returns once the thread is woken and has the mutex again.
    if i ∉ q.condvar c.function ∧ q.condvarLock c.function = none then
      (q.setCondvarLock c.function (some i)).goTo i { c with shouldUnlock := false } .test
    else q
  | .lockSize =>
    if q.currentSizeLock = none then { q with currentSizeLock := some i }.goTo i c .update else q
  | .update => (q.updateSize c.function).goTo i c .signal
  | .signal =>
    let f := c.function.other
    if q.condvar f = ∅ then q.goTo i c .unlockSize
    else if sleeper ∈ q.condvar f then
      (q.setCondvar f ((q.condvar f).erase sleeper)).goTo i c .unlockSize
    else q
  | .unlockSize => { q with currentSizeLock := none }.goTo i c .unlock
  | .unlock =>
    if c.shouldUnlock then (q.setCondvarLock c.function none).setCall i none
    else q.setCall i none

/-- A turn. -/
def step : PcqTurn ι → PcQueue ι → PcQueue ι
  | .call i f, q =>
    match q.calls i with
    | none => q.setCall i (some ⟨f, .lock, true⟩)
    | some _ => q
  | .step i sleeper, q =>
    match q.calls i with
    | none => q
    | some c => q.stepCall i sleeper c
  | .wakeUp i, q => { q with condvar := fun f => (q.condvar f).erase i }

/-! ### Who holds what -/

/-- A call holds what it should, and what it has tested still holds. -/
structure Fits (q : PcQueue ι) (i : ι) (c : PcqCall) : Prop where
  inside : c.pc.Inside → q.condvarLock c.function = some i
  updating : c.pc.Updating → q.currentSizeLock = some i
  tested : c.pc.Tested → ¬ q.MustWait c.function

structure Inv (q : PcQueue ι) : Prop where
  fits : ∀ i c, q.calls i = some c → q.Fits i c
  size_le : q.pcqCurrentSize ≤ q.pcqCapacity
  size_eq : q.pcqCurrentSize.toNat + q.dequeued = q.enqueued

variable {q q' : PcQueue ι} {i k sleeper : ι} {c c' : PcqCall} {f f' : PcqFunction}
  {o : Option PcqCall}
  {pc : PcqPc}

@[simp] theorem calls_setCall_self : (q.setCall i o).calls i = o := Function.update_self _ _ _

theorem calls_setCall_ne (h : k ≠ i) : (q.setCall i o).calls k = q.calls k :=
  Function.update_of_ne h _ _

omit [DecidableEq ι] in
theorem inv_pcqCreate (capacity : UInt64) : (pcqCreate capacity : PcQueue ι).Inv :=
  ⟨fun _ _ h => (by cases h), UInt64.zero_le, rfl⟩

omit [DecidableEq ι] in
theorem mustWait_congr (hsize : q'.pcqCurrentSize = q.pcqCurrentSize)
    (hcapacity : q'.pcqCapacity = q.pcqCapacity) : q'.MustWait f ↔ q.MustWait f := by
  cases f with
  | enqueue => rw [MustWait, MustWait, hsize, hcapacity]
  | dequeue => rw [MustWait, MustWait, hsize]

omit [DecidableEq ι] in
theorem not_mustWait (h : ¬ q.MustWait f) (hsize : q'.pcqCurrentSize = q.pcqCurrentSize)
    (hcapacity : q'.pcqCapacity = q.pcqCapacity) : ¬ q'.MustWait f :=
  fun hw => h ((mustWait_congr hsize hcapacity).mp hw)

theorem fits_setCall : (q.setCall i o).Fits k c ↔ q.Fits k c := by
  constructor
  · rintro ⟨hin, hup, ht⟩
    exact ⟨hin, hup, fun h => not_mustWait (ht h) rfl rfl⟩
  · rintro ⟨hin, hup, ht⟩
    exact ⟨hin, hup, fun h => not_mustWait (ht h) rfl rfl⟩

/-- Thread `i` changes nothing that another thread relies on. -/
theorem Inv.of_setCall (h : q.Inv) (hcalls : q'.calls = q.calls)
    (hlock : ∀ f, ∀ k ≠ i, q.condvarLock f = some k → q'.condvarLock f = some k)
    (hsize : ∀ k ≠ i, q.currentSizeLock = some k → q'.currentSizeLock = some k)
    (htested : ∀ k ≠ i, ∀ c, q.calls k = some c → c.pc.Tested → ¬ q'.MustWait c.function)
    (hle : q'.pcqCurrentSize ≤ q'.pcqCapacity)
    (heq : q'.pcqCurrentSize.toNat + q'.dequeued = q'.enqueued)
    (hnew : ∀ c, o = some c → q'.Fits i c) : (q'.setCall i o).Inv := by
  refine ⟨fun k c hk => ?_, hle, heq⟩
  by_cases hki : k = i
  · subst hki
    rw [calls_setCall_self] at hk
    exact fits_setCall.mpr (hnew c hk)
  · rw [calls_setCall_ne hki, hcalls] at hk
    obtain ⟨hin, hup, -⟩ := h.fits k c hk
    exact fits_setCall.mpr
      ⟨fun hc => hlock _ k hki (hin hc), fun hc => hsize k hki (hup hc), htested k hki c hk⟩

/-- The same, for a step that leaves the size. -/
theorem Inv.of_sameSize (h : q.Inv) (hcalls : q'.calls = q.calls)
    (hlock : ∀ f, ∀ k ≠ i, q.condvarLock f = some k → q'.condvarLock f = some k)
    (hsize : ∀ k ≠ i, q.currentSizeLock = some k → q'.currentSizeLock = some k)
    (hsame : q'.pcqCurrentSize = q.pcqCurrentSize ∧ q'.pcqCapacity = q.pcqCapacity ∧
      q'.enqueued = q.enqueued ∧ q'.dequeued = q.dequeued)
    (hnew : ∀ c, o = some c → q'.Fits i c) : (q'.setCall i o).Inv := by
  obtain ⟨h₁, h₂, h₃, h₄⟩ := hsame
  refine h.of_setCall hcalls hlock hsize (fun k _ c hk ht => ?_) ?_ ?_ hnew
  · rw [mustWait_congr h₁ h₂]
    exact (h.fits k c hk).tested ht
  · rw [h₁, h₂]
    exact h.size_le
  · rw [h₁, h₃, h₄]
    exact h.size_eq

/-- The thread goes on with its call. -/
theorem Inv.of_goTo (h : q.Inv) (hcalls : q'.calls = q.calls)
    (hlock : ∀ f, ∀ k ≠ i, q.condvarLock f = some k → q'.condvarLock f = some k)
    (hsize : ∀ k ≠ i, q.currentSizeLock = some k → q'.currentSizeLock = some k)
    (hsame : q'.pcqCurrentSize = q.pcqCurrentSize ∧ q'.pcqCapacity = q.pcqCapacity ∧
      q'.enqueued = q.enqueued ∧ q'.dequeued = q.dequeued)
    (hnew : q'.Fits i c) : (q'.setCall i (some c)).Inv := by
  refine h.of_sameSize hcalls hlock hsize hsame fun c' hc' => ?_
  obtain rfl := Option.some.inj hc'
  exact hnew

omit [DecidableEq ι] in
/-- Nobody else's mutex is taken or released. -/
theorem condvarLock_other {v : Option ι} (h : q.condvarLock f = none ∨ q.condvarLock f = some i) :
    ∀ f', ∀ k ≠ i, q.condvarLock f' = some k → (q.setCondvarLock f v).condvarLock f' = some k := by
  intro f' k hki hk
  by_cases hf : f' = f
  · subst hf
    rcases h with h | h
    · rw [h] at hk
      cases hk
    · rw [h] at hk
      exact absurd (Option.some.inj hk).symm hki
  · exact (Function.update_of_ne hf _ _).trans hk

omit [DecidableEq ι] in
/-- What one function has tested is not spoilt by an update of the other. -/
theorem not_mustWait_updateSize (hle : q.pcqCurrentSize ≤ q.pcqCapacity) (hf : ¬ q.MustWait f)
    (hf' : ¬ q.MustWait f') (hne : f' ≠ f) : ¬ (q.updateSize f).MustWait f' := by
  have hlt := UInt64.le_iff_toNat_le.mp hle
  have hcap := q.pcqCapacity.toNat_lt
  cases f with
  | enqueue =>
    cases f' with
    | enqueue => exact absurd rfl hne
    | dequeue =>
      intro h
      -- The queue was not full, so the size has not wrapped around to 0.
      have hsize : q.pcqCurrentSize.toNat ≠ q.pcqCapacity.toNat := fun h =>
        hf (UInt64.toNat_inj.mp h)
      have hzero := congrArg UInt64.toNat h
      rw [updateSize, UInt64.toNat_add] at hzero
      simp at hzero
      omega
  | dequeue =>
    cases f' with
    | dequeue => exact absurd rfl hne
    | enqueue =>
      intro h
      -- It was not empty, so the size has become less.
      have hsize : q.pcqCurrentSize.toNat ≠ 0 := fun h => hf (UInt64.toNat_inj.mp h)
      have hfull := congrArg UInt64.toNat h
      rw [updateSize, UInt64.toNat_sub_of_le _ _ (by rw [UInt64.le_iff_toNat_le]; simp; omega)] at hfull
      simp at hfull
      omega

omit [DecidableEq ι] in
/-- An update keeps the size in its bounds. -/
theorem updateSize_le (hle : q.pcqCurrentSize ≤ q.pcqCapacity)
    (heq : q.pcqCurrentSize.toNat + q.dequeued = q.enqueued) (hf : ¬ q.MustWait f) :
    (q.updateSize f).pcqCurrentSize ≤ (q.updateSize f).pcqCapacity ∧
      (q.updateSize f).pcqCurrentSize.toNat + (q.updateSize f).dequeued =
        (q.updateSize f).enqueued := by
  have hlt := UInt64.le_iff_toNat_le.mp hle
  have hcap := q.pcqCapacity.toNat_lt
  cases f with
  | enqueue =>
    have hsize : q.pcqCurrentSize.toNat ≠ q.pcqCapacity.toNat := fun h => hf (UInt64.toNat_inj.mp h)
    have hnew : (q.pcqCurrentSize + 1).toNat = q.pcqCurrentSize.toNat + 1 := by
      rw [UInt64.toNat_add]
      simp
      omega
    rw [UInt64.le_iff_toNat_le]
    dsimp only [updateSize]
    omega
  | dequeue =>
    have hsize : q.pcqCurrentSize.toNat ≠ 0 := fun h => hf (UInt64.toNat_inj.mp h)
    have hnew : (q.pcqCurrentSize - 1).toNat = q.pcqCurrentSize.toNat - 1 := by
      rw [UInt64.toNat_sub_of_le _ _ (by rw [UInt64.le_iff_toNat_le]; simp; omega)]
      rfl
    rw [UInt64.le_iff_toNat_le]
    dsimp only [updateSize]
    omega

/-- A step of a call keeps the invariant. -/
theorem Inv.stepCall (h : q.Inv) (hi : q.calls i = some c) : (q.stepCall i sleeper c).Inv := by
  obtain ⟨f, pc, su⟩ := c
  obtain ⟨hin, hup, htested⟩ := h.fits i _ hi
  have hsame : q.pcqCurrentSize = q.pcqCurrentSize ∧ q.pcqCapacity = q.pcqCapacity ∧
    q.enqueued = q.enqueued ∧ q.dequeued = q.dequeued := ⟨rfl, rfl, rfl, rfl⟩
  rw [PcQueue.stepCall]
  cases pc with
  | lock =>
    dsimp only
    split
    case isTrue hfree =>
      refine h.of_goTo rfl (condvarLock_other (Or.inl hfree)) (fun _ _ hk => hk) hsame ?_
      exact ⟨fun _ => Function.update_self _ _ _, nofun, nofun⟩
    case isFalse => exact h
  | test =>
    dsimp only
    split
    case isTrue hwait =>
      refine h.of_goTo rfl (fun _ _ _ hk => hk) (fun _ _ hk => hk) hsame ?_
      exact ⟨fun _ => hin trivial, nofun, nofun⟩
    case isFalse hwait =>
      refine h.of_goTo rfl (fun _ _ _ hk => hk) (fun _ _ hk => hk) hsame ?_
      exact ⟨fun _ => hin trivial, nofun, fun _ => hwait⟩
  | wait =>
    refine h.of_goTo rfl (condvarLock_other (Or.inr (hin trivial))) (fun _ _ hk => hk) hsame ?_
    exact ⟨nofun, nofun, nofun⟩
  | waiting =>
    dsimp only
    split
    case isTrue hfree =>
      -- Back from the wait: the mutex is held, and the size is tested again.
      refine h.of_goTo rfl (condvarLock_other (Or.inl hfree.2)) (fun _ _ hk => hk) hsame ?_
      exact ⟨fun _ => Function.update_self _ _ _, nofun, nofun⟩
    case isFalse => exact h
  | lockSize =>
    dsimp only
    split
    case isTrue hfree =>
      refine h.of_goTo rfl (fun _ _ _ hk => hk) (fun k _ hk => ?_) hsame ?_
      · rw [hfree] at hk
        cases hk
      · exact ⟨fun _ => hin trivial, fun _ => rfl, fun _ => not_mustWait (htested trivial) rfl rfl⟩
    case isFalse => exact h
  | update =>
    obtain ⟨hle, heq⟩ := updateSize_le h.size_le h.size_eq (htested trivial)
    have hlocks : (q.updateSize f).calls = q.calls ∧ (q.updateSize f).condvarLock = q.condvarLock ∧
        (q.updateSize f).currentSizeLock = q.currentSizeLock := by
      cases f <;> exact ⟨rfl, rfl, rfl⟩
    obtain ⟨hcalls, hcondvar, hsizeLock⟩ := hlocks
    refine h.of_setCall hcalls (fun f' k _ hk => ?_) (fun k _ hk => ?_) (fun k hki c hk ht => ?_)
      hle heq ?_
    · rw [hcondvar]
      exact hk
    · rw [hsizeLock]
      exact hk
    · -- A thread in the same function would have to hold the same mutex.
      refine not_mustWait_updateSize h.size_le (htested trivial) ((h.fits k c hk).tested ht) ?_
      rintro rfl
      have hlock : q.condvarLock c.function = some k := by
        refine (h.fits k c hk).inside ?_
        obtain ⟨f', pc', su'⟩ := c
        cases pc' <;> trivial
      exact hki (Option.some.inj (hlock.symm.trans (hin trivial)))
    · rintro c hc
      obtain rfl := Option.some.inj hc
      exact ⟨fun _ => hcondvar ▸ hin trivial, fun _ => hsizeLock ▸ hup trivial, nofun⟩
  | signal =>
    dsimp only
    split
    case isTrue =>
      refine h.of_goTo rfl (fun _ _ _ hk => hk) (fun _ _ hk => hk) hsame ?_
      exact ⟨fun _ => hin trivial, fun _ => hup trivial, nofun⟩
    case isFalse =>
      split
      case isTrue =>
        refine h.of_goTo rfl (fun _ _ _ hk => hk) (fun _ _ hk => hk) hsame ?_
        exact ⟨fun _ => hin trivial, fun _ => hup trivial, nofun⟩
      case isFalse => exact h
  | unlockSize =>
    refine h.of_goTo rfl (fun _ _ _ hk => hk) (fun k hki hk => ?_) hsame ?_
    · exact absurd (Option.some.inj (hk.symm.trans (hup trivial))) hki
    · exact ⟨fun _ => hin trivial, nofun, nofun⟩
  | unlock =>
    dsimp only
    split
    case isTrue =>
      refine h.of_sameSize rfl (condvarLock_other (Or.inr (hin trivial))) ?_ hsame nofun
      exact fun _ _ hk => hk
    case isFalse => exact h.of_sameSize rfl (fun _ _ _ hk => hk) (fun _ _ hk => hk) hsame nofun

theorem Inv.step (h : q.Inv) (t : PcqTurn ι) : (step t q).Inv := by
  cases t with
  | call i f =>
    rw [PcQueue.step]
    split
    · refine h.of_goTo rfl (fun _ _ _ hk => hk) (fun _ _ hk => hk) ⟨rfl, rfl, rfl, rfl⟩ ?_
      exact ⟨nofun, nofun, nofun⟩
    · exact h
  | step i sleeper =>
    rw [PcQueue.step]
    split
    · exact h
    · exact h.stepCall ‹_›
  | wakeUp i =>
    rw [PcQueue.step]
    refine ⟨fun k c hk => ?_, h.size_le, h.size_eq⟩
    obtain ⟨hin, hup, ht⟩ := h.fits k c hk
    exact ⟨hin, hup, fun hc => not_mustWait (ht hc) rfl rfl⟩

/-- What a step of a call does to the call and to the counters. -/
inductive StepSpec (q : PcQueue ι) (i : ι) (c : PcqCall) (q' : PcQueue ι) : Prop where
  | moves (c' : PcqCall) (hcall : q'.calls i = some c') (hfunction : c'.function = c.function)
      (hupdates : c'.pc.updates = c.pc.updates)
      (hwaits : c'.Waits → c.Waits ∨ q.MustWait c.function)
      (hcount : q'.enqueued = q.enqueued ∧ q'.dequeued = q.dequeued)
  | updates (hpc : c.pc = .update) (hcall : q'.calls i = some { c with pc := .signal })
      (hcount : q'.enqueued = (q.updateSize c.function).enqueued ∧
        q'.dequeued = (q.updateSize c.function).dequeued)
  | returns (hpc : c.pc = .unlock) (hcall : q'.calls i = none)
      (hcount : q'.enqueued = q.enqueued ∧ q'.dequeued = q.dequeued)

theorem stepCall_spec (hi : q.calls i = some c) : StepSpec q i c (q.stepCall i sleeper c) := by
  obtain ⟨f, pc, su⟩ := c
  have hsame : q.enqueued = q.enqueued ∧ q.dequeued = q.dequeued := ⟨rfl, rfl⟩
  -- A call that stays where it is.
  have hstays : StepSpec q i ⟨f, pc, su⟩ q := .moves _ hi rfl rfl Or.inl hsame
  have hnot : ∀ {pc'}, pc' ≠ .wait → pc' ≠ .waiting →
      PcqCall.Waits ⟨f, pc', su⟩ → PcqCall.Waits ⟨f, pc, su⟩ ∨ q.MustWait f :=
    fun h₁ h₂ h => (h.elim h₁ h₂).elim
  rw [stepCall]
  cases pc with
  | lock =>
    dsimp only
    split
    · exact .moves _ calls_setCall_self rfl rfl (hnot nofun nofun) hsame
    · exact hstays
  | test =>
    dsimp only
    split
    case isTrue hwait => exact .moves _ calls_setCall_self rfl rfl (fun _ => Or.inr hwait) hsame
    case isFalse => exact .moves _ calls_setCall_self rfl rfl (hnot nofun nofun) hsame
  | wait => exact .moves _ calls_setCall_self rfl rfl (fun _ => Or.inl (Or.inl rfl)) hsame
  | waiting =>
    dsimp only
    split
    · exact .moves _ calls_setCall_self rfl rfl (fun _ => Or.inl (Or.inr rfl)) hsame
    · exact hstays
  | lockSize =>
    dsimp only
    split
    · exact .moves _ calls_setCall_self rfl rfl (hnot nofun nofun) hsame
    · exact hstays
  | update => exact .updates rfl calls_setCall_self ⟨rfl, rfl⟩
  | signal =>
    dsimp only
    split
    · exact .moves _ calls_setCall_self rfl rfl (hnot nofun nofun) hsame
    · split
      · exact .moves _ calls_setCall_self rfl rfl (hnot nofun nofun) hsame
      · exact hstays
  | unlockSize => exact .moves _ calls_setCall_self rfl rfl (hnot nofun nofun) hsame
  | unlock =>
    dsimp only
    split
    · exact .returns rfl calls_setCall_self hsame
    · exact .returns rfl calls_setCall_self hsame

/-- The calls of the other threads stay. -/
theorem calls_stepCall_ne (h : k ≠ i) : (q.stepCall i sleeper c).calls k = q.calls k := by
  obtain ⟨f, pc, su⟩ := c
  rw [stepCall]
  cases pc with
  | update => cases f <;> exact calls_setCall_ne h
  | signal =>
    dsimp only
    split
    · exact calls_setCall_ne h
    · split
      · exact calls_setCall_ne h
      · rfl
  | wait => exact calls_setCall_ne h
  | unlockSize => exact calls_setCall_ne h
  | _ =>
    dsimp only
    split <;> first | exact calls_setCall_ne h | rfl

theorem pcqCapacity_step (t : PcqTurn ι) : (step t q).pcqCapacity = q.pcqCapacity := by
  cases t with
  | call i f =>
    rw [step]
    split <;> rfl
  | wakeUp i => rfl
  | step i sleeper =>
    rw [step]
    split
    · rfl
    · rename_i c hi
      obtain ⟨f, pc, su⟩ := c
      cases pc with
      | update => cases f <;> rfl
      | _ =>
        rw [stepCall]
        dsimp only
        first | rfl | (split <;> first | rfl | (split <;> rfl))

end PcQueue

open PcQueue in
/-- **Occupancy.**  The size stays between zero and the capacity, and is the number of
updates of `pcq_enqueue` less that of `pcq_dequeue`. -/
theorem occupancy [DecidableEq ι] (capacity : UInt64) (turns : List (PcqTurn ι)) :
    let q := Schedule.run PcQueue.step turns (pcqCreate capacity)
    q.pcqCapacity = capacity ∧ q.pcqCurrentSize ≤ capacity ∧
      (q.pcqCurrentSize.toNat : ℤ) = q.enqueued - q.dequeued := by
  intro q
  have hcapacity : q.pcqCapacity = capacity :=
    Schedule.run_induction (I := fun q : PcQueue ι => q.pcqCapacity = capacity)
      (fun t q h => (pcqCapacity_step t).trans h) rfl
  have h : q.Inv := Schedule.run_induction (fun t _ h => h.step t) (inv_pcqCreate capacity)
  have heq := h.size_eq
  exact ⟨hcapacity, hcapacity ▸ h.size_le, by omega⟩

/-! ### The thread that enqueues -/

/-- Only thread `p` enqueues, and it does nothing else. -/
def PcqTurn.OneEnqueuer (p : ι) : PcqTurn ι → Prop
  | .call i f => f = .enqueue ↔ i = p
  | _ => True

namespace PcQueue

/-- A thread has taken out an element and has not signalled yet. -/
def SignalDue (q : PcQueue ι) : Prop :=
  ∃ i, ∃ c ∈ q.calls i, c.function = .dequeue ∧ c.pc = .signal

/-- The queue is full, or a signal is due. -/
def Ready (q : PcQueue ι) : Prop := q.pcqCurrentSize = q.pcqCapacity ∨ q.SignalDue

/-- Thread `p` sleeps in `pcq_enqueue`, and has not been woken. -/
def Asleep (p : ι) (q : PcQueue ι) : Prop :=
  (∃ c, q.calls p = some c ∧ c.function = .enqueue ∧ c.pc = .waiting) ∧ p ∈ q.condvar .enqueue

/-- It does so while there is room, and nobody is about to signal. -/
def Forgotten (p : ι) (q : PcQueue ι) : Prop :=
  q.Asleep p ∧ q.pcqCurrentSize < q.pcqCapacity ∧ ¬ q.SignalDue

/-- Thread `p` goes to sleep on a full queue, or before a signal that is due. -/
def SleepsInTime (p : ι) : PcqTurn ι → PcQueue ι → Prop
  | .step i _, q => i = p → ∀ c ∈ q.calls p, c.pc = .wait → q.Ready
  | _, _ => True

/-- Who enqueues, and that those who sleep have called the function. -/
structure Roles (p : ι) (q : PcQueue ι) : Prop where
  function : ∀ i c, q.calls i = some c → (c.function = .enqueue ↔ i = p)
  sleeper : ∀ f, ∀ i ∈ q.condvar f, ∃ c, q.calls i = some c ∧ c.function = f ∧ c.pc = .waiting

variable {q q' : PcQueue ι} {i k p sleeper : ι} {c c' : PcqCall}
  {f f' : PcqFunction} {o : Option PcqCall} {turns : List (PcqTurn ι)} {t : PcqTurn ι}

theorem roles_pcqCreate (capacity : UInt64) : (pcqCreate capacity : PcQueue ι).Roles p :=
  ⟨fun _ _ h => (by cases h), fun f i h => absurd h (Finset.notMem_empty i)⟩

/-- Only `p` sleeps in `pcq_enqueue`. -/
theorem Roles.eq_of_mem (h : q.Roles p) (hi : i ∈ q.condvar .enqueue) : i = p := by
  obtain ⟨c, hc, hf, -⟩ := h.sleeper _ i hi
  exact (h.function i c hc).mp hf

/-- A thread at another place of its call does not sleep. -/
theorem Roles.not_mem (h : q.Roles p) (hi : q.calls i = some c) (hc : c.pc ≠ .waiting) :
    i ∉ q.condvar f := by
  intro hmem
  obtain ⟨c', hc', -, hwait⟩ := h.sleeper f i hmem
  obtain rfl := Option.some.inj (hi.symm.trans hc')
  exact hc hwait

theorem mem_setCondvar {sleepers : Finset ι} (hk : k ∈ (q.setCondvar f sleepers).condvar f') :
    f' = f ∧ k ∈ sleepers ∨ f' ≠ f ∧ k ∈ q.condvar f' := by
  by_cases hf : f' = f
  · subst hf
    exact Or.inl ⟨rfl, (Function.update_self f' sleepers q.condvar) ▸ hk⟩
  · exact Or.inr ⟨hf, (Function.update_of_ne hf sleepers q.condvar) ▸ hk⟩

variable [DecidableEq ι]

theorem Roles.of_setCall (h : q.Roles p) (hcalls : q'.calls = q.calls)
    (hfunction : ∀ c, o = some c → (c.function = .enqueue ↔ i = p))
    (hcondvar : ∀ f k, k ∈ q'.condvar f → k ∈ q.condvar f ∧ k ≠ i ∨
      k = i ∧ ∃ c, o = some c ∧ c.function = f ∧ c.pc = .waiting) : (q'.setCall i o).Roles p := by
  refine ⟨fun k c hk => ?_, fun f k hk => ?_⟩
  · by_cases hki : k = i
    · subst hki
      rw [calls_setCall_self] at hk
      exact hfunction c hk
    · rw [calls_setCall_ne hki, hcalls] at hk
      exact h.function k c hk
  · rcases hcondvar f k hk with ⟨hmem, hki⟩ | ⟨rfl, hc⟩
    · rw [calls_setCall_ne hki, hcalls]
      exact h.sleeper f k hmem
    · rw [calls_setCall_self]
      exact hc

/-- A thread that is not in its wait goes on. -/
theorem Roles.of_goTo (h : q.Roles p) (hi : q.calls i = some c) (hc : ∀ f, i ∉ q.condvar f)
    (hcalls : q'.calls = q.calls) (hcondvar : ∀ f, q'.condvar f ⊆ q.condvar f)
    (hfunction : ∀ c', o = some c' → c'.function = c.function) : (q'.setCall i o).Roles p := by
  refine h.of_setCall hcalls (fun c' hc' => ?_) fun f k hk => Or.inl ⟨hcondvar f hk, ?_⟩
  · rw [hfunction c' hc']
    exact h.function i c hi
  · rintro rfl
    exact hc f (hcondvar f hk)

theorem Roles.stepCall (h : q.Roles p) (hi : q.calls i = some c) :
    (q.stepCall i sleeper c).Roles p := by
  obtain ⟨f, pc, su⟩ := c
  have hsub : ∀ f, q.condvar f ⊆ q.condvar f := fun _ _ hk => hk
  have hsame : ∀ {pc' su'}, ∀ c', some (⟨f, pc', su'⟩ : PcqCall) = some c' → c'.function = f := by
    rintro pc' su' c' hc'
    obtain rfl := Option.some.inj hc'
    rfl
  rw [PcQueue.stepCall]
  cases pc with
  | lock =>
    dsimp only
    split
    · exact h.of_goTo hi (fun _ => h.not_mem hi nofun) rfl hsub hsame
    · exact h
  | test =>
    dsimp only
    split
    · exact h.of_goTo hi (fun _ => h.not_mem hi nofun) rfl hsub hsame
    · exact h.of_goTo hi (fun _ => h.not_mem hi nofun) rfl hsub hsame
  | wait =>
    refine h.of_setCall rfl (fun c' hc' => ?_) fun f' k hk => ?_
    -- The only step that puts a thread to sleep.
    · rw [hsame c' hc']
      exact h.function i _ hi
    · have hi' : ∀ f, i ∉ q.condvar f := fun _ => h.not_mem hi nofun
      rcases mem_setCondvar hk with ⟨rfl, hk⟩ | ⟨-, hk⟩
      · rcases Finset.mem_insert.mp hk with rfl | hk
        · exact Or.inr ⟨rfl, _, rfl, rfl, rfl⟩
        · exact Or.inl ⟨hk, fun hki => hi' f' (hki ▸ hk)⟩
      · exact Or.inl ⟨hk, fun hki => hi' f' (hki ▸ hk)⟩
  | waiting =>
    dsimp only
    split
    case isTrue hwoken =>
      refine h.of_goTo hi (fun f' hmem => ?_) rfl hsub hsame
      obtain ⟨c', hc', hf, -⟩ := h.sleeper f' i hmem
      obtain rfl := Option.some.inj (hi.symm.trans hc')
      obtain rfl : f = f' := hf
      exact hwoken.1 hmem
    case isFalse => exact h
  | lockSize =>
    dsimp only
    split
    · exact h.of_goTo hi (fun _ => h.not_mem hi nofun) rfl hsub hsame
    · exact h
  | update => cases f <;> exact h.of_goTo hi (fun _ => h.not_mem hi nofun) rfl hsub hsame
  | signal =>
    dsimp only
    split
    · exact h.of_goTo hi (fun _ => h.not_mem hi nofun) rfl hsub hsame
    · split
      · refine h.of_goTo hi (fun _ => h.not_mem hi nofun) rfl (fun f' k hk => ?_) hsame
        rcases mem_setCondvar hk with ⟨rfl, hk'⟩ | ⟨-, hk'⟩
        · exact Finset.mem_of_mem_erase hk'
        · exact hk'
      · exact h
  | unlockSize => exact h.of_goTo hi (fun _ => h.not_mem hi nofun) rfl hsub hsame
  | unlock =>
    dsimp only
    split
    · exact h.of_goTo hi (fun _ => h.not_mem hi nofun) rfl hsub nofun
    · exact h.of_goTo hi (fun _ => h.not_mem hi nofun) rfl hsub nofun

theorem Roles.step (h : q.Roles p) (ht : t.OneEnqueuer p) : (step t q).Roles p := by
  cases t with
  | call i f =>
    rw [PcQueue.step]
    split
    case h_1 hi =>
      refine h.of_setCall rfl (fun c hc => ?_) fun f' k hk => Or.inl ⟨hk, ?_⟩
      · obtain rfl := Option.some.inj hc
        exact ht
      · rintro rfl
        obtain ⟨c, hc, -⟩ := h.sleeper f' k hk
        rw [hi] at hc
        cases hc
    case h_2 => exact h
  | step i sleeper =>
    rw [PcQueue.step]
    split
    · exact h
    · exact h.stepCall ‹_›
  | wakeUp i => exact ⟨h.function, fun f k hk => h.sleeper f k (Finset.mem_of_mem_erase hk)⟩

/-! ### Who will wake it -/

/-- If thread `p` sleeps, then for a reason, or it is about to be woken. -/
def Heeded (p : ι) (q : PcQueue ι) : Prop := p ∈ q.condvar .enqueue → q.Ready

/-- A step that neither changes the size nor signals. -/
theorem Ready.of_setCall (h : q.Ready) (hi : q.calls i = some c)
    (hc : c.function = .dequeue → c.pc ≠ .signal) (hcalls : q'.calls = q.calls)
    (hsize : q'.pcqCurrentSize = q.pcqCurrentSize) (hcapacity : q'.pcqCapacity = q.pcqCapacity) :
    (q'.setCall i o).Ready := by
  rcases h with h | ⟨k, ck, hk, hf, hpc⟩
  · exact Or.inl (hsize.trans (h.trans hcapacity.symm))
  · have hki : k ≠ i := by
      rintro rfl
      obtain rfl := Option.some.inj (hi.symm.trans hk)
      exact hc hf hpc
    refine Or.inr ⟨k, ck, ?_, hf, hpc⟩
    rw [calls_setCall_ne hki, hcalls]
    exact hk

theorem Heeded.of_setCall (h : q.Heeded p) (hi : q.calls i = some c)
    (hc : c.function = .dequeue → c.pc ≠ .signal) (hcalls : q'.calls = q.calls)
    (hsize : q'.pcqCurrentSize = q.pcqCurrentSize) (hcapacity : q'.pcqCapacity = q.pcqCapacity)
    (hcondvar : p ∈ q'.condvar .enqueue → p ∈ q.condvar .enqueue) : (q'.setCall i o).Heeded p :=
  fun hp => (h (hcondvar hp)).of_setCall hi hc hcalls hsize hcapacity

/-- **What keeps `p` from being forgotten**, over a step of a call. -/
theorem Roles.heeded_stepCall (h : q.Roles p) (hheeded : q.Heeded p) (hi : q.calls i = some c)
    (htime : i = p → c.pc = .wait → q.Ready) : (q.stepCall i sleeper c).Heeded p := by
  obtain ⟨f, pc, su⟩ := c
  rw [PcQueue.stepCall]
  cases pc with
  | lock =>
    dsimp only
    split
    · exact hheeded.of_setCall hi (fun _ => nofun) rfl rfl rfl id
    · exact hheeded
  | test =>
    dsimp only
    split
    · exact hheeded.of_setCall hi (fun _ => nofun) rfl rfl rfl id
    · exact hheeded.of_setCall hi (fun _ => nofun) rfl rfl rfl id
  | wait =>
    by_cases hip : i = p
    -- When `p` itself goes to sleep, the condition on the run says why it may.
    · exact fun _ => (htime hip rfl).of_setCall hi (fun _ => nofun) rfl rfl rfl
    · refine hheeded.of_setCall hi (fun _ => nofun) rfl rfl rfl fun hp => ?_
      rcases mem_setCondvar hp with ⟨hf, hp'⟩ | ⟨-, hp'⟩
      · exact absurd ((h.function i _ hi).mp hf.symm) hip
      · exact hp'
  | waiting =>
    dsimp only
    split
    · exact hheeded.of_setCall hi (fun _ => nofun) rfl rfl rfl id
    · exact hheeded
  | lockSize =>
    dsimp only
    split
    · exact hheeded.of_setCall hi (fun _ => nofun) rfl rfl rfl id
    · exact hheeded
  | update =>
    intro hp
    cases f with
    | enqueue =>
      -- The thread that sleeps is at no other place.
      obtain rfl := (h.function i _ hi).mp rfl
      exact absurd hp (h.not_mem hi nofun)
    | dequeue => exact Or.inr ⟨i, _, calls_setCall_self, rfl, rfl⟩
  | signal =>
    cases f with
    | enqueue =>
      -- A signal of `pcq_enqueue` is for those that take out.
      dsimp only
      split
      · exact hheeded.of_setCall hi nofun rfl rfl rfl id
      · split
        · refine hheeded.of_setCall hi nofun rfl rfl rfl fun hp => ?_
          rcases mem_setCondvar hp with ⟨hf, -⟩ | ⟨-, hp'⟩
          · cases hf
          · exact hp'
        · exact hheeded
    | dequeue =>
      -- Nobody sleeps, or the one that the signal wakes is `p`.
      dsimp only
      split
      case isTrue hempty =>
        intro hp
        have hp : p ∈ q.condvar .enqueue := hp
        rw [show q.condvar .enqueue = ∅ from hempty] at hp
        exact absurd hp (Finset.notMem_empty p)
      case isFalse =>
        split
        case isTrue hsleeper =>
          obtain rfl := h.eq_of_mem hsleeper
          intro hp
          rcases mem_setCondvar hp with ⟨-, hp'⟩ | ⟨hf, -⟩
          · exact absurd hp' (Finset.notMem_erase _ _)
          · exact absurd rfl hf
        case isFalse => exact hheeded
  | unlockSize => exact hheeded.of_setCall hi (fun _ => nofun) rfl rfl rfl id
  | unlock =>
    dsimp only
    split
    · exact hheeded.of_setCall hi (fun _ => nofun) rfl rfl rfl id
    · exact hheeded.of_setCall hi (fun _ => nofun) rfl rfl rfl id

theorem Roles.heeded_step (h : q.Roles p) (hheeded : q.Heeded p) (htime : SleepsInTime p t q) :
    (PcQueue.step t q).Heeded p := by
  cases t with
  | call i f =>
    rw [PcQueue.step]
    split
    case h_1 hi =>
      intro hp
      rcases hheeded hp with hfull | ⟨k, c, hk, hc⟩
      · exact Or.inl hfull
      · refine Or.inr ⟨k, c, ?_, hc⟩
        rw [calls_setCall_ne]
        · exact hk
        · rintro rfl
          rw [hi] at hk
          cases hk
    case h_2 => exact hheeded
  | step i sleeper =>
    rw [PcQueue.step]
    split
    case h_1 => exact hheeded
    case h_2 c hi =>
      refine h.heeded_stepCall hheeded hi fun hip hwait => ?_
      exact htime hip c (hip ▸ hi) hwait
  | wakeUp i => exact fun hp => hheeded (Finset.mem_of_mem_erase hp)

/-- Thread `p` goes to sleep too late. -/
theorem forgotten_of_not_sleepsInTime (h : q.Inv) (hroles : q.Roles p)
    (htime : ¬ SleepsInTime p t q) : (PcQueue.step t q).Forgotten p := by
  cases t with
  | call => exact absurd trivial htime
  | wakeUp => exact absurd trivial htime
  | step i sleeper =>
    rw [SleepsInTime] at htime
    push Not at htime
    obtain ⟨rfl, c, hi, hwait, hready⟩ := htime
    obtain ⟨f, pc, su⟩ := c
    obtain rfl : pc = .wait := hwait
    obtain rfl : f = .enqueue := (hroles.function i _ hi).mpr rfl
    rw [Ready, not_or] at hready
    have hlt : q.pcqCurrentSize < q.pcqCapacity := by
      have hle := UInt64.le_iff_toNat_le.mp h.size_le
      have hne : q.pcqCurrentSize.toNat ≠ q.pcqCapacity.toNat :=
        fun heq => hready.1 (UInt64.toNat_inj.mp heq)
      rw [UInt64.lt_iff_toNat_lt]
      omega
    rw [PcQueue.step, Option.mem_def.mp hi]
    refine ⟨⟨⟨_, calls_setCall_self, rfl, rfl⟩, ?_⟩, hlt, ?_⟩
    · exact Finset.mem_insert_self _ _
    · rintro ⟨k, c, hk, hf, hpc⟩
      by_cases hki : k = i
      · subst hki
        obtain rfl := Option.some.inj (calls_setCall_self.symm.trans hk)
        cases hf
      · exact hready.2 ⟨k, c, (calls_setCall_ne hki).symm.trans hk, hf, hpc⟩

end PcQueue

open PcQueue in
/-- **The wake-up of the thread that enqueues.**  It is never left asleep while there is
room and nobody is about to signal, in exactly the runs in which it goes to sleep
in time. -/
theorem notified_iff [DecidableEq ι] (capacity : UInt64) (p : ι) (turns : List (PcqTurn ι))
    (hturns : ∀ t ∈ turns, t.OneEnqueuer p) :
    (∀ n, ¬ (Schedule.run PcQueue.step (turns.take n) (pcqCreate capacity)).Forgotten p) ↔
      Schedule.Meets (SleepsInTime p) PcQueue.step turns (pcqCreate capacity) := by
  refine Schedule.safe_iff_meets (I := fun q => q.Inv ∧ q.Roles p ∧ q.Heeded p)
    ?_ ?_ ?_ hturns ?_
  · rintro t q ht ⟨hinv, hroles, hheeded⟩ htime
    exact ⟨hinv.step t, hroles.step ht, hroles.heeded_step hheeded htime⟩
  · rintro q ⟨-, -, hheeded⟩ ⟨⟨-, hmem⟩, hlt, hdue⟩
    rcases hheeded hmem with hfull | hsignal
    · exact (UInt64.ne_of_lt hlt) hfull
    · exact hdue hsignal
  · rintro t q - ⟨hinv, hroles, -⟩ htime
    exact forgotten_of_not_sleepsInTime hinv hroles htime
  · exact ⟨inv_pcqCreate capacity, roles_pcqCreate capacity,
      fun h => absurd h (Finset.notMem_empty p)⟩

instance [DecidableEq ι] (p : ι) : ∀ t : PcqTurn ι, Decidable (t.OneEnqueuer p)
  | .call i f => inferInstanceAs (Decidable (f = .enqueue ↔ i = p))
  | .step _ _ => inferInstanceAs (Decidable True)
  | .wakeUp _ => inferInstanceAs (Decidable True)

instance [Fintype ι] (q : PcQueue ι) : Decidable q.SignalDue :=
  inferInstanceAs (Decidable (∃ i, ∃ c ∈ q.calls i, c.function = .dequeue ∧ c.pc = .signal))

instance [Fintype ι] (q : PcQueue ι) : Decidable q.Ready :=
  inferInstanceAs (Decidable (q.pcqCurrentSize = q.pcqCapacity ∨ q.SignalDue))

instance [Fintype ι] [DecidableEq ι] (p : ι) :
    ∀ (t : PcqTurn ι) (q : PcQueue ι), Decidable (PcQueue.SleepsInTime p t q)
  | .step i _, q =>
    inferInstanceAs (Decidable (i = p → ∀ c ∈ q.calls p, c.pc = .wait → q.Ready))
  | .call _ _, _ => inferInstanceAs (Decidable True)
  | .wakeUp _, _ => inferInstanceAs (Decidable True)

/-- A call that does not have to wait, from the lock to the unlock. -/
def wholeCall (i : Bool) (f : PcqFunction) : List (PcqTurn Bool) :=
  .call i f :: List.replicate 7 (.step i false)

/-- The second element has to wait for the first to be taken out. -/
def wokenEnqueuer : List (PcqTurn Bool) :=
  wholeCall true .enqueue ++ .call true .enqueue :: List.replicate 3 (.step true false) ++
    .call false .dequeue :: List.replicate 5 (.step false true) ++ [.step true false]

theorem notified_wokenEnqueuer :
    Schedule.Meets (PcQueue.SleepsInTime true) PcQueue.step wokenEnqueuer (pcqCreate 1) ∧
      ∀ n, ¬ (Schedule.run PcQueue.step (wokenEnqueuer.take n) (pcqCreate 1)).Forgotten true := by
  have hmeets : Schedule.Meets (PcQueue.SleepsInTime true) PcQueue.step wokenEnqueuer
      (pcqCreate 1) := by
    decide
  exact ⟨hmeets, (notified_iff 1 true wokenEnqueuer (by decide)).mpr hmeets⟩

/-- The element is taken out, and that is signalled, between the test and the sleep. -/
def missedSignal : List (PcqTurn Bool) :=
  wholeCall true .enqueue ++ .call true .enqueue :: List.replicate 2 (.step true false) ++
    wholeCall false .dequeue ++ [.step true false]

/-- The thread that enqueues sleeps on while the queue is empty. -/
theorem not_notified_missedSignal :
    (∀ t ∈ missedSignal, t.OneEnqueuer true) ∧
      (Schedule.run PcQueue.step missedSignal (pcqCreate 1)).Forgotten true := by
  refine ⟨by decide, ⟨⟨⟨.enqueue, .waiting, true⟩, by decide, rfl, rfl⟩, by decide⟩, by decide,
    by decide⟩

end Mbroker
