/-
What a call of the queue still holds when it returns.

`pthread_cond_wait` locks the mutex of the condition variable again, and a function that
has waited does not unlock it.  Which calls have waited is noted beside the queue.

* `Owned` — who holds a mutex is in a call, at a place where it should;
* **`released_iff`** — a thread between two calls holds no mutex, and none waits for one
  that it holds itself, in exactly the runs in which no call returns that has waited;
* `not_released_fullQueue` — a call that has waited, and the next one of its thread.
-/
import Mbroker.Queue

namespace Mbroker

/-- The mutexes of `pc_queue_t`. -/
inductive PcqMutex where
  | pcqCurrentSizeLock
  | pcqHeadLock
  | pcqTailLock
  | pcqPusherCondvarLock
  | pcqPopperCondvarLock
deriving DecidableEq

/-- The mutex that a function waits with. -/
def PcqFunction.mutex : PcqFunction → PcqMutex
  | .enqueue => .pcqPusherCondvarLock
  | .dequeue => .pcqPopperCondvarLock

/-- The mutex that the next step of a call locks. -/
def PcqCall.wanted (c : PcqCall) : Option PcqMutex :=
  match c.pc with
  | .lock | .waiting => some c.function.mutex
  | .lockSize => some .pcqCurrentSizeLock
  | _ => none

namespace PcQueue

variable {ι : Type}

/-- Who holds a mutex; those of the head and the tail are never locked. -/
def holder (q : PcQueue ι) : PcqMutex → Option ι
  | .pcqCurrentSizeLock => q.currentSizeLock
  | .pcqHeadLock => none
  | .pcqTailLock => none
  | .pcqPusherCondvarLock => q.condvarLock .enqueue
  | .pcqPopperCondvarLock => q.condvarLock .dequeue

/-- A thread that has returned holds no mutex, and none is blocked by its own. -/
structure Released (q : PcQueue ι) : Prop where
  returned : ∀ i, q.calls i = none → ∀ m, q.holder m ≠ some i
  notItself : ∀ i c, q.calls i = some c → ∀ m, c.wanted = some m → q.holder m ≠ some i

/-- Who holds a mutex is in a call that has locked it. -/
structure Owned (q : PcQueue ι) : Prop where
  condvarLock : ∀ f i, q.condvarLock f = some i →
    ∃ c, q.calls i = some c ∧ c.function = f ∧ c.pc.Inside
  currentSizeLock : ∀ i, q.currentSizeLock = some i → ∃ c, q.calls i = some c ∧ c.pc.Updating

variable {q q' : PcQueue ι} {i k sleeper : ι} {c c' : PcqCall} {f f' : PcqFunction}
  {o v : Option ι} {pc : PcqPc}

theorem owned_pcqCreate (capacity : UInt64) : (pcqCreate capacity : PcQueue ι).Owned :=
  ⟨fun _ _ h => (by cases h), fun _ h => (by cases h)⟩

theorem holder_mutex : q.holder f.mutex = q.condvarLock f := by
  cases f with
  | enqueue => rfl
  | dequeue => rfl

theorem Owned.released (h : q.Owned) : q.Released := by
  have hcondvar : ∀ f i, q.condvarLock f = some i → ∃ c, q.calls i = some c ∧
      c.wanted ≠ some f.mutex := by
    intro f i hlock
    obtain ⟨⟨f', pc, su⟩, hc, -, hin⟩ := h.condvarLock f i hlock
    refine ⟨_, hc, fun hwanted => ?_⟩
    cases pc with
    | lock | waiting => exact hin
    | lockSize => cases f <;> cases hwanted
    | _ => cases hwanted
  have hheld : ∀ m i, q.holder m = some i → ∃ c, q.calls i = some c ∧ c.wanted ≠ some m := by
    intro m i hm
    cases m with
    | pcqCurrentSizeLock =>
      obtain ⟨⟨f', pc, su⟩, hc, hup⟩ := h.currentSizeLock i hm
      refine ⟨_, hc, fun hwanted => ?_⟩
      cases pc with
      | lock | waiting => exact hup
      | lockSize => exact hup
      | _ => cases hwanted
    | pcqHeadLock => cases hm
    | pcqTailLock => cases hm
    | pcqPusherCondvarLock => exact hcondvar .enqueue i hm
    | pcqPopperCondvarLock => exact hcondvar .dequeue i hm
  refine ⟨fun i hi m hm => ?_, fun i c hi m hwanted hm => ?_⟩
  · obtain ⟨c, hc, -⟩ := hheld m i hm
    rw [hi] at hc
    cases hc
  · obtain ⟨c', hc', hne⟩ := hheld m i hm
    obtain rfl := Option.some.inj (hi.symm.trans hc')
    exact hne hwanted

theorem condvarLock_cases (h : (q.setCondvarLock f v).condvarLock f' = some k) :
    f' = f ∧ v = some k ∨ f' ≠ f ∧ q.condvarLock f' = some k := by
  by_cases hf : f' = f
  · subst hf
    exact Or.inl ⟨rfl, (Function.update_self f' v q.condvarLock) ▸ h⟩
  · exact Or.inr ⟨hf, (Function.update_of_ne hf v q.condvarLock) ▸ h⟩

/-- A mutex that a call has not locked is another thread's. -/
theorem Owned.ne_of_condvarLock (h : q.Owned) (hi : q.calls i = some c)
    (hlock : q.condvarLock f = some k) (hc : f ≠ c.function ∨ ¬ c.pc.Inside) : k ≠ i := by
  rintro rfl
  obtain ⟨c', hc', hf, hin⟩ := h.condvarLock f k hlock
  obtain rfl := Option.some.inj (hi.symm.trans hc')
  rcases hc with hc | hc
  · exact hc hf.symm
  · exact hc hin

theorem Owned.ne_of_currentSizeLock (h : q.Owned) (hi : q.calls i = some c)
    (hlock : q.currentSizeLock = some k) (hc : ¬ c.pc.Updating) : k ≠ i := by
  rintro rfl
  obtain ⟨c', hc', hup⟩ := h.currentSizeLock k hlock
  obtain rfl := Option.some.inj (hi.symm.trans hc')
  exact hc hup

variable [DecidableEq ι]

/-- A thread goes on, or returns, with the mutexes that its place says. -/
theorem Owned.of_setCall {o : Option PcqCall} (h : q.Owned) (hcalls : q'.calls = q.calls)
    (hcondvar : ∀ f k, q'.condvarLock f = some k → k ≠ i ∧ q.condvarLock f = some k ∨
      k = i ∧ ∃ c, o = some c ∧ c.function = f ∧ c.pc.Inside)
    (hsize : ∀ k, q'.currentSizeLock = some k → k ≠ i ∧ q.currentSizeLock = some k ∨
      k = i ∧ ∃ c, o = some c ∧ c.pc.Updating) : (q'.setCall i o).Owned := by
  refine ⟨fun f k hk => ?_, fun k hk => ?_⟩
  · rcases hcondvar f k hk with ⟨hki, hlock⟩ | ⟨rfl, hc⟩
    · rw [calls_setCall_ne hki, hcalls]
      exact h.condvarLock f k hlock
    · rw [calls_setCall_self]
      exact hc
  · rcases hsize k hk with ⟨hki, hlock⟩ | ⟨rfl, hc⟩
    · rw [calls_setCall_ne hki, hcalls]
      exact h.currentSizeLock k hlock
    · rw [calls_setCall_self]
      exact hc

/-- The mutexes stay. -/
theorem Owned.of_goTo (h : q.Owned) (hi : q.calls i = some c) (hcalls : q'.calls = q.calls)
    (hcondvar : q'.condvarLock = q.condvarLock) (hsize : q'.currentSizeLock = q.currentSizeLock)
    (hfunction : c'.function = c.function) (hin : c.pc.Inside → c'.pc.Inside)
    (hup : c.pc.Updating → c'.pc.Updating) : (q'.setCall i (some c')).Owned := by
  refine h.of_setCall hcalls (fun f k hk => ?_) fun k hk => ?_
  · rw [hcondvar] at hk
    by_cases hki : k = i
    · subst hki
      obtain ⟨c₀, hc₀, rfl, hin₀⟩ := h.condvarLock f k hk
      obtain rfl := Option.some.inj (hi.symm.trans hc₀)
      exact Or.inr ⟨rfl, c', rfl, hfunction, hin hin₀⟩
    · exact Or.inl ⟨hki, hk⟩
  · rw [hsize] at hk
    by_cases hki : k = i
    · subst hki
      obtain ⟨c₀, hc₀, hup₀⟩ := h.currentSizeLock k hk
      obtain rfl := Option.some.inj (hi.symm.trans hc₀)
      exact Or.inr ⟨rfl, c', rfl, hup hup₀⟩
    · exact Or.inl ⟨hki, hk⟩

/-- **A step of a call**, unless it is the last of one that does not unlock. -/
theorem Owned.stepCall (h : q.Owned) (hi : q.calls i = some c)
    (hreturn : c.pc = .unlock → c.shouldUnlock = true) : (q.stepCall i sleeper c).Owned := by
  obtain ⟨f, pc, su⟩ := c
  have hgo := fun (r : PcQueue ι) (d : PcqCall) => @Owned.of_goTo ι q r i _ d _ h hi
  rw [PcQueue.stepCall]
  cases pc with
  | lock =>
    dsimp only
    split
    · refine h.of_setCall rfl (fun f' k hk => ?_) fun k hk => Or.inl ⟨?_, hk⟩
      · rcases condvarLock_cases hk with ⟨rfl, hv⟩ | ⟨-, hk⟩
        · exact Or.inr ⟨(Option.some.inj hv).symm, _, rfl, rfl, trivial⟩
        · exact Or.inl ⟨h.ne_of_condvarLock hi hk (Or.inr id), hk⟩
      · exact h.ne_of_currentSizeLock hi hk id
    · exact h
  | test =>
    dsimp only
    split
    · exact hgo _ _ rfl rfl rfl rfl id False.elim
    · exact hgo _ _ rfl rfl rfl rfl id False.elim
  | wait =>
    refine h.of_setCall rfl (fun f' k hk => ?_) fun k hk => Or.inl ⟨?_, hk⟩
    · rcases condvarLock_cases hk with ⟨-, hv⟩ | ⟨hf, hk⟩
      · cases hv
      · exact Or.inl ⟨h.ne_of_condvarLock hi hk (Or.inl hf), hk⟩
    · exact h.ne_of_currentSizeLock hi hk id
  | waiting =>
    dsimp only
    split
    · refine h.of_setCall rfl (fun f' k hk => ?_) fun k hk => Or.inl ⟨?_, hk⟩
      · rcases condvarLock_cases hk with ⟨rfl, hv⟩ | ⟨-, hk⟩
        · exact Or.inr ⟨(Option.some.inj hv).symm, _, rfl, rfl, trivial⟩
        · exact Or.inl ⟨h.ne_of_condvarLock hi hk (Or.inr id), hk⟩
      · exact h.ne_of_currentSizeLock hi hk id
    · exact h
  | lockSize =>
    dsimp only
    split
    case isTrue hfree =>
      refine h.of_setCall rfl (fun f' k hk => ?_) fun k hk => ?_
      · by_cases hki : k = i
        · subst hki
          obtain ⟨c', hc', hf, -⟩ := h.condvarLock f' k hk
          obtain rfl := Option.some.inj (hi.symm.trans hc')
          exact Or.inr ⟨rfl, _, rfl, hf, trivial⟩
        · exact Or.inl ⟨hki, hk⟩
      · exact Or.inr ⟨(Option.some.inj hk).symm, _, rfl, trivial⟩
    case isFalse => exact h
  | update => cases f <;> exact hgo _ _ rfl rfl rfl rfl id id
  | signal =>
    dsimp only
    split
    · exact hgo _ _ rfl rfl rfl rfl id id
    · split
      · exact hgo _ _ rfl rfl rfl rfl id id
      · exact h
  | unlockSize =>
    refine h.of_setCall rfl (fun f' k hk => ?_) fun k hk => (by cases hk)
    by_cases hki : k = i
    · subst hki
      obtain ⟨c', hc', hf, -⟩ := h.condvarLock f' k hk
      obtain rfl := Option.some.inj (hi.symm.trans hc')
      exact Or.inr ⟨rfl, _, rfl, hf, trivial⟩
    · exact Or.inl ⟨hki, hk⟩
  | unlock =>
    dsimp only
    rw [if_pos (hreturn rfl)]
    refine h.of_setCall rfl (fun f' k hk => ?_) fun k hk => Or.inl ⟨?_, hk⟩
    · rcases condvarLock_cases hk with ⟨-, hv⟩ | ⟨hf, hk⟩
      · cases hv
      · exact Or.inl ⟨h.ne_of_condvarLock hi hk (Or.inl hf), hk⟩
    · exact h.ne_of_currentSizeLock hi hk id

/-- What a step does to the flag of a call: only a wait that is over clears it. -/
theorem shouldUnlock_stepCall (hi : q.calls i = some c)
    (h : (q.stepCall i sleeper c).calls i = some c') :
    c'.shouldUnlock = c.shouldUnlock ∧ (c'.pc = .waiting ↔ c.pc = .wait ∨ c.pc = .waiting) ∨
      c.pc = .waiting ∧ c'.pc = .test ∧ c'.shouldUnlock = false := by
  obtain ⟨f, pc, su⟩ := c
  have hself : ∀ {q' : PcQueue ι} {o : Option PcqCall}, (q'.setCall i o).calls i = some c' →
      o = some c' := fun h => calls_setCall_self.symm.trans h
  -- A call that stays where it is.
  have hstays : pc ≠ .wait → q.calls i = some c' →
      c'.shouldUnlock = su ∧ (c'.pc = .waiting ↔ pc = .wait ∨ pc = .waiting) := by
    intro hpc h
    obtain rfl := Option.some.inj (hi.symm.trans h)
    exact ⟨rfl, Or.inr, fun h => h.resolve_left hpc⟩
  have hmoves : ∀ pc', pc' ≠ .waiting → ¬ (pc = .wait ∨ pc = .waiting) →
      some (⟨f, pc', su⟩ : PcqCall) = some c' →
      c'.shouldUnlock = su ∧ (c'.pc = .waiting ↔ pc = .wait ∨ pc = .waiting) := by
    intro pc' hpc' hpc h
    obtain rfl := Option.some.inj h
    exact ⟨rfl, iff_of_false hpc' hpc⟩
  rw [stepCall] at h
  cases pc with
  | waiting =>
    dsimp only at h
    split at h
    · obtain rfl := Option.some.inj (hself h)
      exact Or.inr ⟨rfl, rfl, rfl⟩
    · exact Or.inl (hstays (by decide) h)
  | wait =>
    obtain rfl := Option.some.inj (hself h)
    exact Or.inl ⟨rfl, iff_of_true rfl (Or.inl rfl)⟩
  | unlock =>
    dsimp only at h
    split at h
    · cases hself h
    · cases hself h
  | update => exact Or.inl (hmoves _ (by decide) (by decide) (hself h))
  | unlockSize => exact Or.inl (hmoves _ (by decide) (by decide) (hself h))
  | signal =>
    dsimp only at h
    split at h
    · exact Or.inl (hmoves _ (by decide) (by decide) (hself h))
    · split at h
      · exact Or.inl (hmoves _ (by decide) (by decide) (hself h))
      · exact Or.inl (hstays (by decide) h)
  | test =>
    dsimp only at h
    split at h
    · exact Or.inl (hmoves _ (by decide) (by decide) (hself h))
    · exact Or.inl (hmoves _ (by decide) (by decide) (hself h))
  | lock | lockSize =>
    dsimp only at h
    split at h
    · exact Or.inl (hmoves _ (by decide) (by decide) (hself h))
    · exact Or.inl (hstays (by decide) h)

end PcQueue

/-! ### The calls that have waited -/

/-- A queue, and the threads whose call has called `pthread_cond_wait`. -/
structure TracedQueue (ι : Type) where
  queue : PcQueue ι
  waited : Finset ι

namespace TracedQueue

variable {ι : Type}

def start (capacity : UInt64) : TracedQueue ι := ⟨pcqCreate capacity, ∅⟩

variable [DecidableEq ι]

/-- Those whose call has waited, after a turn. -/
def nextWaited : PcqTurn ι → TracedQueue ι → Finset ι
  | .call i _, q => if q.queue.calls i = none then q.waited.erase i else q.waited
  | .step i _, q => if ∃ c ∈ q.queue.calls i, c.pc = .wait then insert i q.waited else q.waited
  | .wakeUp _, q => q.waited

def step (t : PcqTurn ι) (q : TracedQueue ι) : TracedQueue ι :=
  ⟨PcQueue.step t q.queue, q.nextWaited t⟩

/-- A call that returns has not waited. -/
def ReturnsAtOnce : PcqTurn ι → TracedQueue ι → Prop
  | .step i _, q => ∀ c ∈ q.queue.calls i, c.pc = .unlock → i ∉ q.waited
  | _, _ => True

/-- What is claimed of the queue, with the history put aside. -/
def LeavesNothing (q : TracedQueue ι) : Prop := q.queue.Released

theorem queue_run (turns : List (PcqTurn ι)) (q : TracedQueue ι) :
    (Schedule.run step turns q).queue = Schedule.run PcQueue.step turns q.queue := by
  induction turns generalizing q with
  | nil => rfl
  | cons t turns ih => exact ih (q.step t)

/-- The flag of a call says whether it has waited. -/
structure Noted (q : TracedQueue ι) : Prop where
  waiting : ∀ i c, q.queue.calls i = some c → c.pc = .waiting → i ∈ q.waited
  flag : ∀ i c, q.queue.calls i = some c → c.shouldUnlock = false → i ∈ q.waited
  waited : ∀ i c, q.queue.calls i = some c → i ∈ q.waited →
    c.pc = .waiting ∨ c.shouldUnlock = false

variable {q : TracedQueue ι} {t : PcqTurn ι} {i sleeper : ι} {c : PcqCall}

omit [DecidableEq ι] in
theorem noted_start (capacity : UInt64) : (start capacity : TracedQueue ι).Noted :=
  ⟨fun _ _ h => (by cases h), fun _ _ h => (by cases h), fun _ _ h => (by cases h)⟩

theorem mem_waited_step {k : ι} (hi : q.queue.calls i = some c) :
    k ∈ (q.step (.step i sleeper)).waited ↔ k ∈ q.waited ∨ k = i ∧ c.pc = .wait := by
  rw [step, nextWaited]
  split
  case isTrue hwait =>
    obtain ⟨c', hc', hpc⟩ := hwait
    obtain rfl := Option.some.inj (hi.symm.trans hc')
    rw [Finset.mem_insert]
    tauto
  case isFalse hno =>
    have hpc : c.pc ≠ .wait := fun hpc => hno ⟨c, hi, hpc⟩
    tauto

theorem Noted.step (h : q.Noted) (t : PcqTurn ι) : (q.step t).Noted := by
  cases t with
  | call i f =>
    by_cases hi : q.queue.calls i = none
    · have hcalls : (PcQueue.step (.call i f) q.queue).calls =
          Function.update q.queue.calls i (some ⟨f, .lock, true⟩) := by
        rw [PcQueue.step, hi]
        rfl
      have hwaited : (q.step (.call i f)).waited = q.waited.erase i := if_pos hi
      -- The call is new, and the others are those that there were.
      have hcases : ∀ k c, (PcQueue.step (.call i f) q.queue).calls k = some c →
          k = i ∧ c = ⟨f, .lock, true⟩ ∨ k ≠ i ∧ q.queue.calls k = some c := by
        intro k c hk
        rw [hcalls] at hk
        by_cases hki : k = i
        · subst hki
          rw [Function.update_self] at hk
          exact Or.inl ⟨rfl, (Option.some.inj hk).symm⟩
        · rw [Function.update_of_ne hki] at hk
          exact Or.inr ⟨hki, hk⟩
      refine ⟨fun k c hk hpc => ?_, fun k c hk hflag => ?_, fun k c hk hmem => ?_⟩
      · rcases hcases k c hk with ⟨-, rfl⟩ | ⟨hki, hk⟩
        · cases hpc
        · exact hwaited ▸ Finset.mem_erase.mpr ⟨hki, h.waiting k c hk hpc⟩
      · rcases hcases k c hk with ⟨-, rfl⟩ | ⟨hki, hk⟩
        · cases hflag
        · exact hwaited ▸ Finset.mem_erase.mpr ⟨hki, h.flag k c hk hflag⟩
      · obtain ⟨hki, hmem⟩ := Finset.mem_erase.mp (hwaited ▸ hmem)
        rcases hcases k c hk with ⟨rfl, -⟩ | ⟨-, hk⟩
        · exact absurd rfl hki
        · exact h.waited k c hk hmem
    · have hsame : q.step (.call i f) = q := by
        obtain ⟨c, hc⟩ := Option.ne_none_iff_exists'.mp hi
        rw [TracedQueue.step, nextWaited, if_neg hi, PcQueue.step, hc]
      rw [hsame]
      exact h
  | step i sleeper =>
    cases hi : q.queue.calls i with
    | none =>
      have hsame : q.step (.step i sleeper) = q := by
        rw [TracedQueue.step, nextWaited, PcQueue.step, hi, if_neg (by simp)]
      rw [hsame]
      exact h
    | some c =>
      have hstep : PcQueue.step (.step i sleeper) q.queue = q.queue.stepCall i sleeper c := by
        rw [PcQueue.step, hi]
      -- Thread `i` has a call, whose flag changes when a wait is over.
      have hcases : ∀ k c', (q.step (.step i sleeper)).queue.calls k = some c' →
          k ≠ i ∧ q.queue.calls k = some c' ∨
          k = i ∧ (c'.shouldUnlock = c.shouldUnlock ∧
              (c'.pc = .waiting ↔ c.pc = .wait ∨ c.pc = .waiting) ∨
            c.pc = .waiting ∧ c'.pc = .test ∧ c'.shouldUnlock = false) := by
        intro k c' hk
        rw [TracedQueue.step, hstep] at hk
        by_cases hki : k = i
        · subst hki
          exact Or.inr ⟨rfl, PcQueue.shouldUnlock_stepCall hi hk⟩
        · rw [PcQueue.calls_stepCall_ne hki] at hk
          exact Or.inl ⟨hki, hk⟩
      refine ⟨fun k c' hk hpc => ?_, fun k c' hk hflag => ?_, fun k c' hk hmem => ?_⟩
      · refine (mem_waited_step hi).mpr ?_
        rcases hcases k c' hk with ⟨-, hk⟩ | ⟨rfl, ⟨-, hiff⟩ | ⟨-, htest, -⟩⟩
        · exact Or.inl (h.waiting k c' hk hpc)
        · rcases hiff.mp hpc with hwait | hwaiting
          · exact Or.inr ⟨rfl, hwait⟩
          · exact Or.inl (h.waiting k c hi hwaiting)
        · rw [htest] at hpc
          cases hpc
      · refine (mem_waited_step hi).mpr (Or.inl ?_)
        rcases hcases k c' hk with ⟨-, hk⟩ | ⟨rfl, ⟨hsame, -⟩ | ⟨hwaiting, -, -⟩⟩
        · exact h.flag k c' hk hflag
        · exact h.flag k c hi (hsame.symm.trans hflag)
        · exact h.waiting k c hi hwaiting
      · have hmem := (mem_waited_step hi).mp hmem
        rcases hcases k c' hk with ⟨hki, hk⟩ | ⟨rfl, ⟨hsame, hiff⟩ | ⟨-, -, hflag⟩⟩
        · exact h.waited k c' hk (hmem.resolve_right fun hi => hki hi.1)
        · rcases hmem with hmem | ⟨-, hwait⟩
          · rcases h.waited k c hi hmem with hwaiting | hflag
            · exact Or.inl (hiff.mpr (Or.inr hwaiting))
            · exact Or.inr (hsame.trans hflag)
          · exact Or.inl (hiff.mpr (Or.inl hwait))
        · exact Or.inr hflag
  | wakeUp i => exact ⟨h.waiting, h.flag, h.waited⟩

/-- The mutexes, over a turn in which no call returns that has waited. -/
theorem Noted.owned_step (h : q.Noted) (howned : q.queue.Owned) (hok : ReturnsAtOnce t q) :
    (q.step t).queue.Owned := by
  cases t with
  | call i f =>
    show (PcQueue.step (.call i f) q.queue).Owned
    rw [PcQueue.step]
    split
    case h_1 hi =>
      -- A thread between two calls holds nothing.
      refine howned.of_setCall rfl (fun f' k hk => Or.inl ⟨?_, hk⟩) fun k hk => Or.inl ⟨?_, hk⟩
      · rintro rfl
        obtain ⟨c, hc, -⟩ := howned.condvarLock f' k hk
        rw [hi] at hc
        cases hc
      · rintro rfl
        obtain ⟨c, hc, -⟩ := howned.currentSizeLock k hk
        rw [hi] at hc
        cases hc
    case h_2 => exact howned
  | step i sleeper =>
    show (PcQueue.step (.step i sleeper) q.queue).Owned
    rw [PcQueue.step]
    split
    case h_1 => exact howned
    case h_2 c hi =>
      refine howned.stepCall hi fun hpc => ?_
      by_contra hflag
      exact hok c hi hpc (h.flag i c hi (Bool.not_eq_true _ ▸ hflag))
  | wakeUp i => exact ⟨howned.condvarLock, howned.currentSizeLock⟩

/-- A call that returns after a wait keeps its mutex. -/
theorem Noted.not_released (h : q.Noted) (hinv : q.queue.Inv) (hok : ¬ ReturnsAtOnce t q) :
    ¬ (q.step t).queue.Released := by
  cases t with
  | call => exact absurd trivial hok
  | wakeUp => exact absurd trivial hok
  | step i sleeper =>
    rw [ReturnsAtOnce] at hok
    push Not at hok
    obtain ⟨c, hi, hpc, hmem⟩ := hok
    have hflag : c.shouldUnlock = false := by
      rcases h.waited i c hi hmem with hwaiting | hflag
      · rw [hpc] at hwaiting
        cases hwaiting
      · exact hflag
    have hlock : q.queue.condvarLock c.function = some i :=
      (hinv.fits i c hi).inside (by rw [hpc]; trivial)
    have hstep : (q.step (.step i sleeper)).queue = q.queue.setCall i none := by
      show PcQueue.step (.step i sleeper) q.queue = _
      rw [PcQueue.step, Option.mem_def.mp hi]
      dsimp only
      rw [PcQueue.stepCall, hpc]
      dsimp only
      rw [if_neg (by simp [hflag])]
    rw [hstep]
    intro hreleased
    exact hreleased.returned i PcQueue.calls_setCall_self c.function.mutex
      (PcQueue.holder_mutex.trans hlock)

end TracedQueue

open TracedQueue in
/-- **What a call leaves locked.**  A thread between two calls holds none of the mutexes, and
no call waits for one that its own thread holds, in exactly the runs in which no call
returns that has waited. -/
theorem released_iff {ι : Type} [DecidableEq ι] (capacity : UInt64) (turns : List (PcqTurn ι)) :
    (∀ n, (Schedule.run PcQueue.step (turns.take n) (pcqCreate capacity)).Released) ↔
      Schedule.Meets ReturnsAtOnce TracedQueue.step turns (start capacity) := by
  have hqueue : (∀ n, (Schedule.run PcQueue.step (turns.take n) (pcqCreate capacity)).Released) ↔
      ∀ n, LeavesNothing (Schedule.run TracedQueue.step (turns.take n) (start capacity)) := by
    refine forall_congr' fun n => ?_
    rw [LeavesNothing, queue_run]
    rfl
  rw [hqueue]
  refine Schedule.good_iff_meets (I := fun q => q.Noted ∧ q.queue.Owned ∧ q.queue.Inv) ?_ ?_ ?_ ?_
  · rintro t q ⟨hnoted, howned, hinv⟩ hok
    exact ⟨hnoted.step t, hnoted.owned_step howned hok, hinv.step t⟩
  · rintro q ⟨-, howned, -⟩
    exact howned.released
  · rintro t q ⟨hnoted, -, hinv⟩ hok
    exact hnoted.not_released hinv hok
  · exact ⟨noted_start capacity, PcQueue.owned_pcqCreate capacity, PcQueue.inv_pcqCreate capacity⟩

/-- The queue is full when the second element comes, which waits until the first is taken
out; then a third comes. -/
def fullQueue : List (PcqTurn Bool) :=
  wokenEnqueuer ++ wholeCall false .dequeue ++ List.replicate 6 (.step true false) ++
    [.call true .enqueue]

theorem not_released_fullQueue :
    ¬ (Schedule.run PcQueue.step fullQueue (pcqCreate 1)).Released := by
  intro h
  have hcall : (Schedule.run PcQueue.step fullQueue (pcqCreate 1)).calls true =
      some ⟨.enqueue, .lock, true⟩ := by
    decide
  exact h.notItself true _ hcall .pcqPusherCondvarLock rfl (by decide)

end Mbroker
