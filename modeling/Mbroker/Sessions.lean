/-
The limit on the number of sessions.

The main loop puts an element into the queue before it starts a handler, and the
handler takes one out before it returns: the queue counts the handlers under way,
and its capacity bounds them.  A handler goes on with any answers to its calls,
and a step that ends the process (an exit, or undefined behaviour) ends the run.

* `Program.ahead` — every way through a handler takes one element out;
* `SessionState.Inv` — the queue counts the requests without their `pcq_dequeue`;
* **`session_limit`** — so no handler waits for an element, and no more handlers than
  the capacity are under way.
-/
import Mbroker.Programs
import Mbroker.Queue
import Mathlib.Data.Finset.Card
import Mathlib.Order.Interval.Finset.Nat

namespace Mbroker

/-! ### One element for each handler -/

/-- How many elements the handler has still to take out. -/
def ReplyFrame.ahead (f : ReplyFrame) : Nat := if f.place = .returned then 0 else 1

def PublisherFrame.ahead (f : PublisherFrame) : Nat :=
  match f.place with
  | .tfsClose | .returned => 0
  | _ => 1

def SubscriberFrame.ahead (f : SubscriberFrame) : Nat := if f.place = .returned then 0 else 1

def ListFrame.ahead (f : ListFrame) : Nat := if f.place = .returned then 0 else 1

def CreateFrame.ahead (f : CreateFrame) : Nat :=
  match f.place with
  | .reply r => r.ahead
  | _ => 1

def RemoveFrame.ahead (f : RemoveFrame) : Nat :=
  match f.place with
  | .reply r => r.ahead
  | _ => 1

/-- How many elements a call takes out. -/
def Call.taken : Call → Nat
  | .pcqDequeue => 1
  | _ => 0

section Frames

variable {a : Answer} {call : Call}

theorem ReplyFrame.ahead_resume {f : ReplyFrame} (h : f.call = some call) :
    f.ahead = (f.resume a).ahead + call.taken := by
  obtain ⟨place, code, pipeName, returnCode, managerPipe⟩ := f
  cases place <;> cases h <;> rw [resume] <;> dsimp only <;>
    first | rfl | (split <;> first | rfl | (split <;> rfl))

theorem ListFrame.ahead_resume {f : ListFrame} (h : f.call = some call) :
    f.ahead = (f.resume a).ahead + call.taken := by
  obtain ⟨place, pipeName, manPipe, i, replyBox⟩ := f
  cases place <;> cases h <;> rw [resume] <;> dsimp only <;> first | rfl | (split <;> rfl)

theorem CreateFrame.ahead_resume {f : CreateFrame} (h : f.call = some call) :
    f.ahead = (f.resume a).ahead + call.taken := by
  obtain ⟨place, pipeName, boxName, box, boxHandle⟩ := f
  cases place with
  | reply r => exact r.ahead_resume h
  | _ =>
    cases h
    rw [resume]
    dsimp only
    first | rfl | (split <;> rfl)

theorem RemoveFrame.ahead_resume {f : RemoveFrame} (h : f.call = some call) :
    f.ahead = (f.resume a).ahead + call.taken := by
  obtain ⟨place, pipeName, boxName, boxIndex⟩ := f
  cases place with
  | reply r => exact r.ahead_resume h
  | _ =>
    cases h
    rw [resume]
    dsimp only
    first | rfl | (split <;> rfl)

theorem PublisherFrame.ahead_resume {f f' : PublisherFrame} (h : f.call = some call)
    (hf : f.resume a = .ok f') : f.ahead = f'.ahead + call.taken := by
  obtain ⟨place, pipeName, boxName, boxHandle, boxIndex, ver, sessionHandle, pubPipe, buffer⟩ := f
  cases place <;> cases h <;> rw [resume] at hf <;> dsimp only at hf
  case readCode =>
    split at hf
    · obtain rfl := Outcome.ok.inj hf
      rfl
    · split at hf <;> (obtain rfl := Outcome.ok.inj hf; rfl)
  case readMessage =>
    split at hf
    · obtain rfl := Outcome.ok.inj hf
      rfl
    · cases hf
  all_goals
    first
      | (obtain rfl := Outcome.ok.inj hf; rfl)
      | (split at hf <;> (obtain rfl := Outcome.ok.inj hf; rfl))

theorem SubscriberFrame.ahead_startLoop (f : SubscriberFrame) : f.startLoop.ahead = 1 := by
  rw [startLoop]
  split <;> rfl

theorem SubscriberFrame.ahead_storeChar {f f' : SubscriberFrame} (h : f.storeChar = .ok f') :
    f'.ahead = 1 := by
  obtain ⟨-, ⟨-, rfl⟩ | ⟨-, rfl⟩⟩ := storeChar_cases h
  · rfl
  · rfl

theorem SubscriberFrame.ahead_resume {f f' : SubscriberFrame} (h : f.call = some call)
    (hf : f.resume a = .ok f') : f.ahead = f'.ahead + call.taken := by
  obtain ⟨place, pipeName, boxName, boxIndex, num, boxHandle, subscriberPipe, charBuffer, buffer,
    i⟩ := f
  cases place <;> cases h <;> rw [resume] at hf <;> dsimp only at hf
  case openPipe =>
    split at hf
    · obtain rfl := Outcome.ok.inj hf
      exact (ahead_startLoop _).symm
    · obtain rfl := Outcome.ok.inj hf
      rfl
  case closeRejected =>
    obtain rfl := Outcome.ok.inj hf
    exact (ahead_startLoop _).symm
  case tfsRead =>
    split at hf
    · obtain rfl := Outcome.ok.inj hf
      rfl
    · exact (ahead_storeChar hf).symm
  case closeWoken => exact (ahead_storeChar hf).symm
  all_goals
    first
      | (obtain rfl := Outcome.ok.inj hf; rfl)
      | (split at hf <;> (obtain rfl := Outcome.ok.inj hf; rfl))

end Frames

namespace Program

/-- How many elements the handler has still to take out. -/
def ahead : Program → Nat
  | .publisher f => f.ahead
  | .subscriber f => f.ahead
  | .create f => f.ahead
  | .remove f => f.ahead
  | .list f => f.ahead

variable {p p' : Program} {a : Answer} {call : Call}

/-- **Every step of a handler** leaves it with what its call did not take. -/
theorem ahead_resume (h : p.call = some call) (hp : p.resume a = .ok p') :
    p.ahead = p'.ahead + call.taken := by
  cases p with
  | publisher f =>
    obtain ⟨f', hf, hp⟩ := Outcome.bind_eq_ok.mp hp
    obtain rfl := Outcome.ok.inj hp
    exact PublisherFrame.ahead_resume h hf
  | subscriber f =>
    obtain ⟨f', hf, hp⟩ := Outcome.bind_eq_ok.mp hp
    obtain rfl := Outcome.ok.inj hp
    exact SubscriberFrame.ahead_resume h hf
  | create f =>
    obtain rfl := Outcome.ok.inj hp
    exact f.ahead_resume h
  | remove f =>
    obtain rfl := Outcome.ok.inj hp
    exact f.ahead_resume h
  | list f =>
    obtain rfl := Outcome.ok.inj hp
    exact f.ahead_resume h

theorem ahead_start (c : Client) (l : Locals) : (start c l).ahead = 1 := by cases c <;> rfl

/-- A handler that has returned has nothing left to take out. -/
theorem ahead_of_returned (h : p.call = none) : p.ahead = 0 := by
  have hreply : ∀ r : ReplyFrame, r.call = none → r.ahead = 0 := by
    rintro ⟨place, code, pipeName, returnCode, managerPipe⟩ h
    cases place <;> first | rfl | cases h
  cases p with
  | publisher f =>
    obtain ⟨place⟩ := f
    cases place <;> first | rfl | cases h
  | subscriber f =>
    obtain ⟨place⟩ := f
    cases place <;> first | rfl | cases h
  | create f =>
    obtain ⟨place⟩ := f
    cases place with
    | reply r => exact hreply r h
    | _ => cases h
  | remove f =>
    obtain ⟨place⟩ := f
    cases place with
    | reply r => exact hreply r h
    | _ => cases h
  | list f =>
    obtain ⟨place⟩ := f
    cases place <;> first | rfl | cases h

theorem ahead_le (p : Program) : p.ahead ≤ 1 := by
  have hreply : ∀ r : ReplyFrame, r.ahead ≤ 1 := fun r => by
    rw [ReplyFrame.ahead]
    split <;> omega
  cases p with
  | publisher f =>
    rw [ahead, PublisherFrame.ahead]
    split <;> omega
  | subscriber f =>
    rw [ahead, SubscriberFrame.ahead]
    split <;> omega
  | create f =>
    rw [ahead, CreateFrame.ahead]
    split
    · exact hreply _
    · exact Nat.le_refl 1
  | remove f =>
    rw [ahead, RemoveFrame.ahead]
    split
    · exact hreply _
    · exact Nat.le_refl 1
  | list f =>
    rw [ahead, ListFrame.ahead]
    split <;> omega

/-- `pcq_dequeue` returns to the handler, whatever it returns. -/
theorem resume_of_pcqDequeue (h : p.call = some .pcqDequeue) (a : Answer) :
    ∃ p', p.resume a = .ok p' ∧ p'.ahead = 0 := by
  have hok : ∃ p', p.resume a = .ok p' := by
    cases p with
    | publisher f =>
      obtain ⟨place⟩ := f
      cases place <;> first | exact ⟨_, rfl⟩ | cases h
    | subscriber f =>
      obtain ⟨place⟩ := f
      cases place <;> first | exact ⟨_, rfl⟩ | cases h
    | create f => exact ⟨_, rfl⟩
    | remove f => exact ⟨_, rfl⟩
    | list f => exact ⟨_, rfl⟩
  obtain ⟨p', hp⟩ := hok
  have hahead := ahead_resume h hp
  have htaken : Call.taken .pcqDequeue = 1 := rfl
  have hle := p.ahead_le
  exact ⟨p', hp, by omega⟩

end Program

/-! ### The main loop and its handlers -/

/-- Where `main_thread_function` is: at the register pipe, in `pcq_enqueue`, or about to
start the handler of a request. -/
inductive MainPlace where
  | reading
  | enqueueing (c : Client)
  | creating (c : Client)

/-- The queue, the main loop, which is thread `none` of the queue, and the handlers in
the order of their requests; `started` counts the handlers, and `dequeues` what each
of them has taken out. -/
structure SessionState where
  queue : PcQueue (Option Nat)
  main : MainPlace
  handlers : Nat → Option Program
  started : Nat
  dequeues : Nat → Nat
  ended : Bool

/-- A turn: a request comes in; a thread goes on in the queue, or is woken by nothing;
a handler is started, or that fails; a call of a handler is answered; the process
exits. -/
inductive SessionTurn where
  | request (c : Client)
  | queue (i sleeper : Option Nat)
  | wakeUp (i : Option Nat)
  | create (locals : Locals) (created : Bool)
  | answer (k : Nat) (a : Answer)
  | exit

namespace SessionState

/-- `main`, with the queue created. -/
def start (maxSessions : UInt64) : SessionState where
  queue := pcqCreate maxSessions
  main := .reading
  handlers := fun _ => none
  started := 0
  dequeues := fun _ => 0
  ended := false

/-- Handler `k` goes on with an answer; after undefined behaviour nothing is said. -/
def resume (k : Nat) (p : Program) (a : Answer) (s : SessionState) : SessionState :=
  match p.resume a with
  | .ok p => { s with handlers := Function.update s.handlers k (some p) }
  | _ => { s with ended := true }

/-- A function of the queue returns to thread `i`. -/
def returned (i : Option Nat) (s : SessionState) : SessionState :=
  match i with
  | none =>
    match s.main with
    | .enqueueing c => { s with main := .creating c }
    | _ => s
  | some k =>
    match s.handlers k with
    | some p => s.resume k p {}
    | none => s

/-- Thread `i` goes on in the queue; what a handler takes out is counted. -/
def queueStep (i sleeper : Option Nat) (s : SessionState) : SessionState :=
  let q := s.queue.step (.step i sleeper)
  let s' := { s with
    queue := q
    dequeues := fun k =>
      s.dequeues k + if i = some k then q.dequeued - s.queue.dequeued else 0 }
  if s.queue.calls i ≠ none ∧ q.calls i = none then s'.returned i else s'

/-- Handler `k` makes its next call; `pcq_dequeue` is not answered at once. -/
def answer (k : Nat) (a : Answer) (s : SessionState) : SessionState :=
  match s.handlers k with
  | none => s
  | some p =>
    match p.call with
    | none => s
    | some .pcqDequeue => { s with queue := s.queue.step (.call (some k) .dequeue) }
    | some .exit => { s with ended := true }
    | some _ => s.resume k p a

/-- A turn. -/
def step (t : SessionTurn) (s : SessionState) : SessionState :=
  if s.ended then s
  else
    match t with
    | .request c =>
      match s.main with
      | .reading =>
        { s with main := .enqueueing c, queue := s.queue.step (.call none .enqueue) }
      | _ => s
    | .queue i sleeper => s.queueStep i sleeper
    | .wakeUp i => { s with queue := s.queue.step (.wakeUp i) }
    | .create locals created =>
      match s.main with
      | .creating c =>
        if created then
          { s with
            main := .reading
            handlers := Function.update s.handlers s.started (some (Program.start c locals))
            started := s.started + 1 }
        else { s with ended := true }
      | _ => s
    | .answer k a => s.answer k a
    | .exit => { s with ended := true }

/-- The requests that have been put into the queue, and whose handler has not taken
an element out. -/
def inProgress (s : SessionState) : Finset Nat :=
  (Finset.range s.queue.enqueued).filter fun k => s.dequeues k = 0

/-- Where the main loop is, and how many requests it has put into the queue. -/
def MainOk (s : SessionState) : Prop :=
  match s.main with
  | .reading => s.queue.calls none = none ∧ s.queue.enqueued = s.started
  | .enqueueing _ => ∃ c, s.queue.calls none = some c ∧
      s.queue.enqueued = s.started + c.pc.updates
  | .creating _ => s.queue.calls none = none ∧ s.queue.enqueued = s.started + 1

/-- What a handler has taken out, and has still to take out. -/
def HandlerOk (s : SessionState) (k : Nat) : Prop :=
  match s.handlers k with
  | none => s.started ≤ k ∧ s.queue.calls (some k) = none ∧ s.dequeues k = 0
  | some p => k < s.started ∧
      match s.queue.calls (some k) with
      | none => s.dequeues k + p.ahead = 1
      | some c => p.call = some .pcqDequeue ∧ ¬ c.Waits ∧ s.dequeues k = c.pc.updates

structure Inv (s : SessionState) : Prop where
  queue : s.queue.Inv
  roles : ∀ i c, s.queue.calls i = some c → (c.function = .enqueue ↔ i = none)
  main : s.MainOk
  handler : ∀ k, s.HandlerOk k
  count : s.queue.enqueued = s.queue.dequeued + s.inProgress.card

variable {s s' : SessionState} {k : Nat} {i sleeper : Option Nat} {c c' : PcqCall}
  {q : PcQueue (Option Nat)} {p p' : Program}

theorem inv_start (maxSessions : UInt64) : (start maxSessions).Inv :=
  ⟨PcQueue.inv_pcqCreate maxSessions, fun _ _ h => (by cases h), ⟨rfl, rfl⟩,
    fun k => ⟨Nat.zero_le k, rfl, rfl⟩, rfl⟩

theorem MainOk.started_le (h : s.MainOk) : s.started ≤ s.queue.enqueued := by
  rw [MainOk] at h
  split at h
  · omega
  · obtain ⟨c, -, h⟩ := h
    omega
  · omega

/-- A request that has not been handed to a handler has taken nothing out. -/
theorem HandlerOk.of_started_le (h : s.HandlerOk k) (hk : s.started ≤ k) :
    s.handlers k = none ∧ s.queue.calls (some k) = none ∧ s.dequeues k = 0 := by
  rw [HandlerOk] at h
  split at h
  · exact ⟨‹_›, h.2⟩
  · omega

theorem HandlerOk.congr (h : s.HandlerOk k) (hhandlers : s'.handlers k = s.handlers k)
    (hcalls : s'.queue.calls (some k) = s.queue.calls (some k))
    (hdequeues : s'.dequeues k = s.dequeues k) (hstarted : s'.started = s.started) :
    s'.HandlerOk k := by
  rw [HandlerOk, hhandlers, hcalls, hdequeues, hstarted]
  exact h

/-- A handler that is in `pcq_dequeue`. -/
theorem HandlerOk.of_call (h : s.HandlerOk k) (hc : s.queue.calls (some k) = some c) :
    ∃ p, s.handlers k = some p ∧ k < s.started ∧ p.call = some .pcqDequeue ∧ ¬ c.Waits ∧
      s.dequeues k = c.pc.updates := by
  rw [HandlerOk, hc] at h
  split at h
  · cases h.2.1
  · exact ⟨_, ‹_›, h.1, h.2⟩

/-- The main loop, when it is in `pcq_enqueue`. -/
theorem MainOk.of_call (h : s.MainOk) (hc : s.queue.calls none = some c) :
    ∃ client, s.main = .enqueueing client ∧ s.queue.enqueued = s.started + c.pc.updates := by
  rw [MainOk] at h
  split at h
  · rw [hc] at h
    cases h.1
  · obtain ⟨c', hc', heq⟩ := h
    obtain rfl := Option.some.inj (hc.symm.trans hc')
    exact ⟨_, ‹_›, heq⟩
  · rw [hc] at h
    cases h.1

theorem Inv.queueStep_idle (hi : s.queue.calls i = none) : s.queueStep i sleeper = s := by
  have hq : s.queue.step (.step i sleeper) = s.queue := by rw [PcQueue.step, hi]
  rw [queueStep, hq, if_neg fun h => h.1 hi]
  simp only [Nat.sub_self, ite_self, Nat.add_zero]

/-- The size of the queue is not 0 as long as a handler has to take its element out. -/
theorem Inv.not_mustWait (h : s.Inv) (hk : k < s.started) (hd : s.dequeues k = 0) :
    ¬ s.queue.MustWait .dequeue := by
  intro hwait
  have hmem : k ∈ s.inProgress :=
    Finset.mem_filter.mpr ⟨Finset.mem_range.mpr (lt_of_lt_of_le hk h.main.started_le), hd⟩
  -- The size counts this request, and so is not 0.
  have hpos := Finset.card_pos.mpr ⟨k, hmem⟩
  have hsize := h.queue.size_eq
  have hzero : s.queue.pcqCurrentSize.toNat = 0 := congrArg UInt64.toNat hwait
  have hcount := h.count
  omega

/-- Who calls what, when thread `i` goes on with its call. -/
theorem Inv.roles_of (h : s.Inv) (hc : s.queue.calls i = some c)
    (hother : ∀ i', i' ≠ i → q.calls i' = s.queue.calls i')
    (hself : ∀ c', q.calls i = some c' → c'.function = c.function) :
    ∀ i' c', q.calls i' = some c' → (c'.function = .enqueue ↔ i' = none) := by
  intro i' c' hc'
  by_cases hi : i' = i
  · subst hi
    rw [hself c' hc']
    exact h.roles i' c hc
  · exact h.roles i' c' ((hother i' hi).symm.trans hc')

/-- The main loop goes on in `pcq_enqueue`. -/
theorem Inv.queueStep_main (h : s.Inv) (hc : s.queue.calls none = some c) :
    (s.queueStep none sleeper).Inv := by
  obtain ⟨client, hmain, henq⟩ := h.main.of_call hc
  have hfunction : c.function = .enqueue := (h.roles none c hc).mpr rfl
  have hq : s.queue.step (.step none sleeper) = s.queue.stepCall none sleeper c := by
    rw [PcQueue.step, hc]
  have hinv : (s.queue.stepCall none sleeper c).Inv := h.queue.stepCall hc
  have hother : ∀ i, i ≠ none → (s.queue.stepCall none sleeper c).calls i = s.queue.calls i :=
    fun i hi => PcQueue.calls_stepCall_ne hi
  have hspec : PcQueue.StepSpec s.queue none c (s.queue.stepCall none sleeper c) :=
    PcQueue.stepCall_spec hc
  rw [queueStep, hq]
  generalize s.queue.stepCall none sleeper c = q at *
  have hhandler : ∀ k, s.HandlerOk k → ∀ main, HandlerOk { s with queue := q, main := main } k :=
    fun k hk main => hk.congr rfl (hother _ (Option.some_ne_none k)) rfl rfl
  simp only [reduceCtorEq, if_false, Nat.add_zero]
  cases hspec with
  | moves c' hcall hf hupdates hwaits hcount =>
    rw [if_neg fun hnone => Option.some_ne_none _ (hcall.symm.trans hnone.2)]
    refine ⟨hinv, h.roles_of hc hother ?_, ?_, fun k => hhandler k (h.handler k) s.main, ?_⟩
    · intro c'' hc''
      obtain rfl := Option.some.inj (hcall.symm.trans hc'')
      exact hf
    · rw [MainOk, hmain]
      exact ⟨c', hcall, by rw [hupdates, ← henq]; exact hcount.1⟩
    · rw [inProgress, hcount.1, hcount.2]
      exact h.count
  | updates hpc hcall hcount =>
    rw [if_neg fun hnone => Option.some_ne_none _ (hcall.symm.trans hnone.2)]
    rw [hfunction] at hcount
    rw [hpc] at henq
    refine ⟨hinv, h.roles_of hc hother ?_, ?_, fun k => hhandler k (h.handler k) s.main, ?_⟩
    · intro c'' hc''
      obtain rfl := Option.some.inj (hcall.symm.trans hc'')
      rfl
    · rw [MainOk, hmain]
      exact ⟨_, hcall, hcount.1.trans (congrArg (· + 1) henq)⟩
    · -- The request that is now in the queue has no handler yet.
      have hnew : s.dequeues s.queue.enqueued = 0 :=
        ((h.handler _).of_started_le h.main.started_le).2.2
      have hcard : ((Finset.range (s.queue.enqueued + 1)).filter fun k => s.dequeues k = 0).card =
          s.inProgress.card + 1 := by
        rw [Finset.range_add_one, Finset.filter_insert, if_pos hnew,
          Finset.card_insert_of_notMem (by simp)]
        rfl
      rw [inProgress, hcount.1, hcount.2]
      refine Eq.trans ?_ (congrArg (s.queue.dequeued + ·) hcard.symm)
      exact congrArg (· + 1) h.count
  | returns hpc hcall hcount =>
    -- The request is in the queue; its handler is created next.
    rw [hpc] at henq
    rw [if_pos ⟨by rw [hc]; exact Option.some_ne_none c, hcall⟩, returned, hmain]
    refine ⟨hinv, h.roles_of hc hother ?_, ⟨hcall, hcount.1.trans henq⟩,
      fun k => hhandler k (h.handler k) _, ?_⟩
    · intro c'' hc''
      rw [hcall] at hc''
      cases hc''
    · rw [inProgress, hcount.1, hcount.2]
      exact h.count

/-- A handler goes on in `pcq_dequeue`. -/
theorem Inv.queueStep_handler (h : s.Inv) (hc : s.queue.calls (some k) = some c) :
    (s.queueStep (some k) sleeper).Inv := by
  obtain ⟨p, hp, hk, hcallp, hwait, hdequeues⟩ := (h.handler k).of_call hc
  have hfunction : c.function = .dequeue := by
    have hne := (h.roles _ c hc).not.mpr (Option.some_ne_none k)
    cases hf : c.function with
    | enqueue => exact absurd hf hne
    | dequeue => rfl
  have hq : s.queue.step (.step (some k) sleeper) = s.queue.stepCall (some k) sleeper c := by
    rw [PcQueue.step, hc]
  have hinv : (s.queue.stepCall (some k) sleeper c).Inv := h.queue.stepCall hc
  have hother : ∀ i, i ≠ some k →
      (s.queue.stepCall (some k) sleeper c).calls i = s.queue.calls i :=
    fun i hi => PcQueue.calls_stepCall_ne hi
  have hspec : PcQueue.StepSpec s.queue (some k) c (s.queue.stepCall (some k) sleeper c) :=
    PcQueue.stepCall_spec hc
  rw [queueStep, hq]
  generalize s.queue.stepCall (some k) sleeper c = q at *
  have hhandler : ∀ k' ≠ k, ∀ handlers dequeues, handlers k' = s.handlers k' →
      dequeues k' = s.dequeues k' →
        HandlerOk { s with queue := q, handlers := handlers, dequeues := dequeues } k' :=
    fun k' hk' handlers dequeues hh hd =>
      (h.handler k').congr hh (hother _ fun heq => hk' (Option.some.inj heq)) hd rfl
  have hmain : ∀ handlers dequeues, q.enqueued = s.queue.enqueued →
      MainOk { s with queue := q, handlers := handlers, dequeues := dequeues } := by
    intro handlers dequeues henq
    have hmain := h.main
    rw [MainOk] at hmain ⊢
    rw [henq, hother none (Option.some_ne_none k).symm]
    exact hmain
  cases hspec with
  | moves c' hcall hf hupdates hwaits hcount =>
    rw [if_neg fun hnone => Option.some_ne_none _ (hcall.symm.trans hnone.2)]
    simp only [hcount.2, Nat.sub_self, ite_self, Nat.add_zero]
    refine ⟨hinv, h.roles_of hc hother ?_, hmain _ _ hcount.1, fun k' => ?_, ?_⟩
    · intro c'' hc''
      obtain rfl := Option.some.inj (hcall.symm.trans hc'')
      exact hf
    · by_cases hk' : k' = k
      · subst hk'
        rw [HandlerOk]
        dsimp only
        rw [hp, hcall]
        refine ⟨hk, hcallp, fun hw => ?_, hdequeues.trans hupdates.symm⟩
        -- A call that has to wait has taken nothing out, so the queue is not empty.
        rcases hwaits hw with hw' | hw'
        · exact hwait hw'
        · refine h.not_mustWait hk ?_ (hfunction ▸ hw')
          rw [hdequeues, ← hupdates]
          rcases hw with hw | hw <;> rw [hw] <;> rfl
      · exact hhandler k' hk' _ _ rfl rfl
    · rw [inProgress, hcount.1, hcount.2]
      exact h.count
  | updates hpc hcall hcount =>
    rw [if_neg fun hnone => Option.some_ne_none _ (hcall.symm.trans hnone.2)]
    rw [hfunction] at hcount
    rw [hpc] at hdequeues
    have hdequeued : q.dequeued = s.queue.dequeued + 1 := hcount.2
    have henq : q.enqueued = s.queue.enqueued := hcount.1
    -- With this update, the request is no longer in progress.
    rw [hdequeued, Nat.add_sub_cancel_left]
    have hmem : k ∈ s.inProgress :=
      Finset.mem_filter.mpr ⟨Finset.mem_range.mpr (lt_of_lt_of_le hk h.main.started_le), hdequeues⟩
    refine ⟨hinv, h.roles_of hc hother ?_, hmain _ _ henq, fun k' => ?_, ?_⟩
    · intro c'' hc''
      obtain rfl := Option.some.inj (hcall.symm.trans hc'')
      rfl
    · by_cases hk' : k' = k
      · subst hk'
        rw [HandlerOk]
        dsimp only
        rw [hp, hcall, if_pos rfl, hdequeues]
        exact ⟨hk, hcallp, fun hw => hw.elim (fun h => (by cases h)) fun h => (by cases h), rfl⟩
      · refine hhandler k' hk' _ _ rfl ?_
        rw [if_neg fun heq => hk' (Option.some.inj heq).symm, Nat.add_zero]
    · have herase : ((Finset.range s.queue.enqueued).filter fun k' =>
          s.dequeues k' + (if some k = some k' then 1 else 0) = 0) = s.inProgress.erase k := by
        ext k'
        rw [inProgress, Finset.mem_erase, Finset.mem_filter, Finset.mem_filter]
        by_cases hk' : k' = k
        · simp [hk']
        · simp [hk', Ne.symm hk']
      rw [inProgress, henq, hdequeued]
      dsimp only
      rw [herase, Finset.card_erase_of_mem hmem]
      have hpos := Finset.card_pos.mpr ⟨k, hmem⟩
      have hcount := h.count
      omega
  | returns hpc hcall hcount =>
    -- The handler goes on, with nothing left to take out.
    rw [hpc] at hdequeues
    obtain ⟨p', hresume, hahead⟩ := Program.resume_of_pcqDequeue hcallp {}
    rw [if_pos ⟨by rw [hc]; exact Option.some_ne_none c, hcall⟩, returned]
    simp only [hcount.2, Nat.sub_self, ite_self, Nat.add_zero]
    rw [hp]
    dsimp only
    rw [resume, hresume]
    refine ⟨hinv, h.roles_of hc hother ?_, hmain _ _ hcount.1, fun k' => ?_, ?_⟩
    · intro c'' hc''
      rw [hcall] at hc''
      cases hc''
    · by_cases hk' : k' = k
      · subst hk'
        rw [HandlerOk]
        dsimp only
        rw [Function.update_self, hcall]
        dsimp only
        rw [hahead, hdequeues]
        exact ⟨hk, rfl⟩
      · exact hhandler k' hk' _ _ (Function.update_of_ne hk' _ _) rfl
    · rw [inProgress, hcount.1, hcount.2]
      exact h.count

theorem Inv.queueStep (h : s.Inv) (i sleeper : Option Nat) : (s.queueStep i sleeper).Inv := by
  cases hc : s.queue.calls i with
  | none =>
    rw [Inv.queueStep_idle hc]
    exact h
  | some c =>
    cases i with
    | none => exact h.queueStep_main hc
    | some k => exact h.queueStep_handler hc

/-- A thread calls a function of the queue. -/
theorem calls_call (hi : q.calls i = none) (f : PcqFunction) :
    (q.step (.call i f)).calls i = some ⟨f, .lock, true⟩ ∧
      (∀ i' ≠ i, (q.step (.call i f)).calls i' = q.calls i') ∧
      (q.step (.call i f)).enqueued = q.enqueued ∧ (q.step (.call i f)).dequeued = q.dequeued := by
  rw [PcQueue.step, hi]
  exact ⟨PcQueue.calls_setCall_self, fun i' hi' => PcQueue.calls_setCall_ne hi', rfl, rfl⟩

theorem Inv.roles_call (h : s.Inv) (hi : s.queue.calls i = none) {f : PcqFunction}
    (hf : f = .enqueue ↔ i = none) :
    ∀ i' c, (s.queue.step (.call i f)).calls i' = some c → (c.function = .enqueue ↔ i' = none) := by
  obtain ⟨hself, hother, -⟩ := calls_call hi f
  intro i' c hc
  by_cases hi' : i' = i
  · subst hi'
    obtain rfl := Option.some.inj (hself.symm.trans hc)
    exact hf
  · exact h.roles i' c ((hother i' hi').symm.trans hc)

theorem Inv.ended (h : s.Inv) : Inv { s with ended := true } :=
  ⟨h.queue, h.roles, h.main, h.handler, h.count⟩

/-- A handler goes on with an answer to a call that takes nothing out. -/
theorem Inv.resume (h : s.Inv) (hp : s.handlers k = some p) {call : Call}
    (hcall : p.call = some call)
    (hne : call ≠ .pcqDequeue) (a : Answer) : (s.resume k p a).Inv := by
  have hk := h.handler k
  rw [HandlerOk, hp] at hk
  obtain ⟨hstarted, hk⟩ := hk
  have htaken : call.taken = 0 := by
    cases call <;> first | rfl | exact absurd rfl hne
  rw [SessionState.resume]
  split
  case h_1 p' hresume =>
    refine ⟨h.queue, h.roles, h.main, fun k' => ?_, h.count⟩
    by_cases hk' : k' = k
    · subst hk'
      rw [HandlerOk]
      dsimp only
      rw [Function.update_self]
      refine ⟨hstarted, ?_⟩
      split at hk
      · rw [← hk, Program.ahead_resume hcall hresume, htaken, Nat.add_zero]
      · exact absurd (Option.some.inj (hcall.symm.trans hk.1)) hne
    · exact (h.handler k').congr (Function.update_of_ne hk' _ _) rfl rfl rfl
  case h_2 => exact h.ended

theorem Inv.answer (h : s.Inv) (k : Nat) (a : Answer) : (s.answer k a).Inv := by
  rw [SessionState.answer]
  split
  · exact h
  · rename_i p hp
    split
    · exact h
    · rename_i hcall
      -- The handler calls `pcq_dequeue`, unless it is there already.
      cases hc : s.queue.calls (some k) with
      | some c =>
        have hq : s.queue.step (.call (some k) .dequeue) = s.queue := by rw [PcQueue.step, hc]
        rw [hq]
        exact h
      | none =>
        obtain ⟨hself, hother, henq, hdeq⟩ := calls_call hc .dequeue
        have hk := h.handler k
        rw [HandlerOk, hp] at hk
        obtain ⟨hstarted, hk⟩ := hk
        rw [hc] at hk
        have hahead : p.ahead = 1 := by
          obtain ⟨p', hresume, hp'⟩ := Program.resume_of_pcqDequeue hcall a
          rw [Program.ahead_resume hcall hresume, hp']
          rfl
        refine ⟨h.queue.step (.call (some k) .dequeue), h.roles_call hc (by simp), ?_, fun k' => ?_,
          ?_⟩
        · have hmain := h.main
          rw [MainOk] at hmain ⊢
          dsimp only
          rw [henq, hother none (Option.some_ne_none _).symm]
          exact hmain
        · by_cases hk' : k' = k
          · subst hk'
            rw [HandlerOk]
            dsimp only
            rw [hp, hself]
            refine ⟨hstarted, hcall,
              fun hw => hw.elim (fun h => (by cases h)) fun h => (by cases h), ?_⟩
            show s.dequeues k' = 0
            dsimp only at hk
            omega
          · exact (h.handler k').congr rfl (hother _ fun heq => hk' (Option.some.inj heq)) rfl rfl
        · rw [inProgress, henq, hdeq]
          exact h.count
    · exact h.ended
    · exact h.resume hp ‹_› ‹_› a

theorem Inv.step (h : s.Inv) (t : SessionTurn) : (SessionState.step t s).Inv := by
  unfold SessionState.step
  split
  · exact h
  cases t with
  | request c =>
    dsimp only
    split
    case h_1 hmain =>
      have hm := h.main
      rw [MainOk, hmain] at hm
      obtain ⟨hself, hother, henq, hdeq⟩ := calls_call hm.1 .enqueue
      refine ⟨h.queue.step (.call none .enqueue), h.roles_call hm.1 (by simp),
        ⟨_, hself, henq.trans hm.2⟩, fun k =>
          (h.handler k).congr rfl (hother _ (Option.some_ne_none _)) rfl rfl, ?_⟩
      rw [inProgress, henq, hdeq]
      exact h.count
    case h_2 => exact h
  | queue i sleeper => exact h.queueStep i sleeper
  | wakeUp i => exact ⟨h.queue.step (.wakeUp i), h.roles, h.main, h.handler, h.count⟩
  | create l created =>
    dsimp only
    split
    case h_1 c hmain =>
      split
      · have hm := h.main
        rw [MainOk, hmain] at hm
        refine ⟨h.queue, h.roles, hm, fun k => ?_, h.count⟩
        -- The new handler is that of the request which was put into the queue last.
        by_cases hk : k = s.started
        · subst hk
          obtain ⟨-, hcalls, hd⟩ := (h.handler s.started).of_started_le (Nat.le_refl _)
          rw [HandlerOk]
          dsimp only
          rw [Function.update_self, hcalls]
          dsimp only
          rw [hd, Program.ahead_start]
          exact ⟨Nat.lt_succ_self _, rfl⟩
        · have hh := h.handler k
          rw [HandlerOk] at hh ⊢
          dsimp only
          rw [Function.update_of_ne hk]
          split at hh
          · exact ⟨by omega, hh.2⟩
          · exact ⟨by omega, hh.2⟩
      · exact h.ended
    case h_2 => exact h
  | answer k a => exact h.answer k a
  | exit => exact h.ended

theorem queue_resume (a : Answer) : (s.resume k p a).queue = s.queue := by
  rw [resume]
  split <;> rfl

theorem queue_returned : (s.returned i).queue = s.queue := by
  unfold returned
  split
  · split <;> rfl
  · split
    · exact queue_resume {}
    · rfl

theorem pcqCapacity_step (t : SessionTurn) :
    (SessionState.step t s).queue.pcqCapacity = s.queue.pcqCapacity := by
  unfold SessionState.step
  split
  · rfl
  cases t with
  | request c =>
    dsimp only
    split
    · exact PcQueue.pcqCapacity_step _
    · rfl
  | queue i sleeper =>
    dsimp only
    rw [SessionState.queueStep]
    split
    · rw [queue_returned]
      exact PcQueue.pcqCapacity_step _
    · exact PcQueue.pcqCapacity_step _
  | wakeUp i => exact PcQueue.pcqCapacity_step (.wakeUp i)
  | create l created =>
    dsimp only
    split
    · split <;> rfl
    · rfl
  | answer k a =>
    unfold SessionState.answer
    dsimp only
    split
    · rfl
    · split
      · rfl
      · exact PcQueue.pcqCapacity_step _
      · rfl
      · rw [queue_resume]
  | exit => rfl

end SessionState

open SessionState in
/-- **The session limit.**  The size of the queue is the number of requests put into it
whose handler has not performed its `pcq_dequeue`; a handler that has returned has
performed it once; none ever waits in it for an element; and at most
`max_sessions` handlers are between their start and their `pcq_dequeue`. -/
theorem session_limit (maxSessions : UInt64) (turns : List SessionTurn) :
    let s := Schedule.run SessionState.step turns (start maxSessions)
    s.queue.pcqCurrentSize.toNat = s.inProgress.card ∧
      (∀ k p, s.handlers k = some p → p.call = none → s.dequeues k = 1) ∧
      (∀ k c, s.queue.calls (some k) = some c → ¬ c.Waits) ∧
      ((Finset.range s.started).filter fun k => s.dequeues k = 0).card ≤ maxSessions.toNat := by
  intro s
  have h : s.Inv := Schedule.run_induction (fun t _ h => h.step t) (inv_start maxSessions)
  have hcapacity : s.queue.pcqCapacity = maxSessions :=
    Schedule.run_induction (I := fun s : SessionState => s.queue.pcqCapacity = maxSessions)
      (fun t _ h => (pcqCapacity_step t).trans h) rfl
  have hsize : s.queue.pcqCurrentSize.toNat = s.inProgress.card := by
    have hcount := h.count
    have heq := h.queue.size_eq
    omega
  refine ⟨hsize, fun k p hp hcall => ?_, fun k c hc => ?_, ?_⟩
  · have hk := h.handler k
    rw [HandlerOk, hp] at hk
    obtain ⟨-, hk⟩ := hk
    split at hk
    · rw [Program.ahead_of_returned hcall] at hk
      exact hk
    · rw [hcall] at hk
      cases hk.1
  · obtain ⟨p, -, -, -, hwait, -⟩ := (h.handler k).of_call hc
    exact hwait
  · calc
      _ ≤ s.inProgress.card := Finset.card_le_card (Finset.filter_subset_filter _
        (Finset.range_subset_range.mpr h.main.started_le))
      _ = s.queue.pcqCurrentSize.toNat := hsize.symm
      _ ≤ maxSessions.toNat := UInt64.le_iff_toNat_le.mp (hcapacity ▸ h.queue.size_le)

end Mbroker
