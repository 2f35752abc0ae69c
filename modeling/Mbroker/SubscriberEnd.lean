/-
How a subscriber's session ends.

The loop of `read_messages` is only left with `box_index` at `-1`, after which
`boxes[-1].n_subscribers` is read.  A session that is woken when its box has gone does
not even get there: the inner `break` goes on with the character of an earlier read,
the closed pipe and the index `-1`.

* `SubscriberFrame.call_of_removed` — what a woken session does when its box has gone;
* `SubscriberFrame.Serving` — the session is in its loop, or on its way out of it with
  the index `-1`;
* `serving_of_run` — there it stays as long as it makes no call with the index `-1`;
* **`not_endsCleanly`** — a session that waits never ends as it should;
* `not_endsCleanly_removedBox` — it ends the broker.
-/
import Mbroker.BrokerRuns

namespace Mbroker

open Tfs

/-- The index with which a call accesses `boxes`, `box_mutexes` or `box_conditions`. -/
def Call.boxIndex : Call → Option Int
  | .deleteBox i | .addSubscriberToBox i _ | .nPublishers i | .setNPublishers i _ | .setPublisher i _
  | .addBoxSize i _ | .nSubscribers i | .incNSubscribers i | .decNSubscribers i | .mutexLock i
  | .mutexUnlock i | .condWait i | .condBroadcast i => some i
  | _ => none

/-- The call that a turn makes for handler `k`. -/
def BrokerTurn.callOf (k : Nat) : BrokerTurn → BrokerState → Option Call
  | .step k' _, s => if k' = k then (s.handlers k).bind Program.call else none
  | .start _ _ _, _ => none

/-- The calls that handler `k` makes in a run, with the one at which the run ends. -/
def callsOf (k : Nat) : List BrokerTurn → BrokerState → List Call
  | [], _ => []
  | t :: turns, s =>
    (t.callOf k s).toList ++
      match BrokerState.step t s with
      | .ok (_, s') => callsOf k turns s'
      | _ => []

/-- The session returns through its normal exit: nothing has been sent any more, no
index is `-1`, its handle has been closed, and the queue has been served once. -/
structure EndsCleanly (k : Nat) (boxHandle : Int) (turns : List BrokerTurn) (s : BrokerState) :
    Prop where
  returns : ∃ rs s' f, Outcome.runList BrokerState.step turns s = .ok (rs, s') ∧
    s'.handlers k = some (.subscriber f) ∧ f.place = .returned
  silent : ∀ pipe content, .write pipe content ∉ callsOf k turns s
  inBounds : ∀ c ∈ callsOf k turns s, c.boxIndex ≠ some (-1)
  closed : .tfs (.tfsClose boxHandle) ∈ callsOf k turns s
  dequeued : ∃ before after, callsOf k turns s = before ++ .pcqDequeue :: after ∧
    .pcqDequeue ∉ before ∧ .pcqDequeue ∉ after

/-- The session is in its loop, has ended the broker, or has left its loop with the
index `-1`. -/
def SubscriberFrame.Serving (f : SubscriberFrame) : Prop :=
  match f.place with
  | .findAgain | .lock | .tfsRead | .wait | .findWoken | .closeWoken | .writeCode | .writeMessage
  | .unlock | .exit => True
  | .closeRemoved | .nSubscribers => f.boxIndex = -1
  | _ => False

section Steps

variable {f f' : SubscriberFrame} {a : Answer} {c : Call}

theorem SubscriberFrame.Serving.storeChar (h : f.storeChar = .ok f') : f'.Serving := by
  obtain ⟨-, ⟨-, rfl⟩ | ⟨-, rfl⟩⟩ := storeChar_cases h
  · trivial
  · trivial

/-- **The loop is left through `boxes[-1]`.** -/
theorem SubscriberFrame.Serving.resume (hf : f.Serving) (hcall : f.call = some c)
    (hc : c.boxIndex ≠ some (-1)) (h : f.resume a = .ok f') : f'.Serving := by
  obtain ⟨place, pipeName, boxName, boxIndex, num, boxHandle, subscriberPipe, charBuffer, buffer,
    i⟩ := f
  rw [SubscriberFrame.resume] at h
  cases place with
  | findAgain =>
    dsimp only at h
    split at h
    case isTrue hret =>
      obtain rfl := Outcome.ok.inj h
      exact hret
    case isFalse =>
      obtain rfl := Outcome.ok.inj h
      trivial
  | closeRemoved =>
    obtain rfl := Outcome.ok.inj h
    exact hf
  | nSubscribers =>
    obtain rfl : boxIndex = -1 := hf
    -- `boxes[-1].n_subscribers` is read before the index is looked at.
    cases hcall
    exact absurd rfl hc
  | tfsRead =>
    dsimp only at h
    split at h
    · obtain rfl := Outcome.ok.inj h
      trivial
    · exact .storeChar h
  | closeWoken => exact .storeChar h
  | lock | findWoken | writeCode | writeMessage =>
    dsimp only at h
    split at h <;> (obtain rfl := Outcome.ok.inj h; trivial)
  | wait | unlock | exit =>
    obtain rfl := Outcome.ok.inj h
    trivial
  | _ => exact hf.elim

/-- A session that finds, when it is woken, that its box has gone: it closes its pipe, and
then either writes to it or unlocks `box_mutexes[-1]`, as the last character it has
read was the end of a message or not. -/
theorem SubscriberFrame.call_of_removed {f₁ f₂ : SubscriberFrame} (hwoken : f.place = .findWoken)
    (h₁ : f.resume { ret := -1 } = .ok f₁) (h₂ : f₁.resume a = .ok f₂) :
    f₁.call = some (.close f.subscriberPipe) ∧
      (f₂.call = some (.write f.subscriberPipe (.code 10)) ∧ f.charBuffer = 0 ∨
        f₂.call = some (.mutexUnlock (-1)) ∧ f.charBuffer ≠ 0) := by
  rw [SubscriberFrame.resume, hwoken] at h₁
  obtain rfl := Outcome.ok.inj h₁
  refine ⟨rfl, ?_⟩
  rw [SubscriberFrame.resume] at h₂
  obtain ⟨-, ⟨hchar, rfl⟩ | ⟨hchar, rfl⟩⟩ := storeChar_cases h₂
  · exact Or.inl ⟨rfl, hchar⟩
  · exact Or.inr ⟨rfl, hchar⟩

end Steps

section Runs

variable {s s' : BrokerState} {t : BrokerTurn} {k : Nat} {f : SubscriberFrame} {r : Unit}
  {turns : List BrokerTurn} {rs : List Unit}

theorem serving_step (hk : s.handlers k = some (.subscriber f)) (hf : f.Serving)
    (hstep : BrokerState.step t s = .ok (r, s'))
    (hcall : ∀ c ∈ t.callOf k s, c.boxIndex ≠ some (-1)) :
    ∃ f', s'.handlers k = some (.subscriber f') ∧ f'.Serving := by
  by_cases hne : k = t.handler
  · subst hne
    rcases BrokerState.step_cases hstep with ⟨rfl, -⟩ | ⟨k, client, locals, rfl, hnone, rfl⟩ |
      ⟨k, env, p, call, a, b, p', rfl, hp, hpcall, -, hresume, rfl⟩
    · exact ⟨f, hk, hf⟩
    · exact absurd (hnone.symm.trans hk) nofun
    · obtain rfl := Option.some.inj (hk.symm.trans hp)
      obtain ⟨f', hf', hresume⟩ := Outcome.bind_eq_ok.mp hresume
      obtain rfl := Outcome.ok.inj hresume
      refine ⟨f', BrokerState.handlers_setHandler_self, hf.resume hpcall (hcall call ?_) hf'⟩
      show (if k = k then (s.handlers k).bind Program.call else none) = some call
      rw [if_pos rfl, hp]
      exact hpcall
  · exact ⟨f, (BrokerState.handlers_step_ne hstep hne).trans hk, hf⟩

/-- **A session stays in its loop** as long as it makes no call with the index `-1`. -/
theorem serving_of_run (hk : s.handlers k = some (.subscriber f)) (hf : f.Serving)
    (hrun : Outcome.runList BrokerState.step turns s = .ok (rs, s'))
    (hcalls : ∀ c ∈ callsOf k turns s, c.boxIndex ≠ some (-1)) :
    ∃ f', s'.handlers k = some (.subscriber f') ∧ f'.Serving := by
  induction turns generalizing s f rs with
  | nil =>
    obtain ⟨-, rfl⟩ := Prod.mk.inj (Outcome.ok.inj hrun)
    exact ⟨f, hk, hf⟩
  | cons t turns ih =>
    obtain ⟨r, s₁, rs', hstep, hrun, -⟩ := Outcome.runList_cons_eq_ok.mp hrun
    rw [callsOf, hstep] at hcalls
    obtain ⟨f₁, hk₁, hf₁⟩ := serving_step hk hf hstep fun c hc =>
      hcalls c (List.mem_append_left _ (Option.mem_toList.mpr hc))
    exact ih hk₁ hf₁ hrun fun c hc => hcalls c (List.mem_append_right _ hc)

end Runs

/-- **A session that waits on a box never ends as it should**, whatever it has read
and whatever the other handlers do. -/
theorem not_endsCleanly {s : BrokerState} {k : Nat} {f : SubscriberFrame}
    (hk : s.handlers k = some (.subscriber f)) (hwait : f.place = .wait)
    (turns : List BrokerTurn) : ¬ EndsCleanly k f.boxHandle turns s := by
  intro h
  obtain ⟨rs, s', f', hrun, hk', hreturned⟩ := h.returns
  have hf : f.Serving := by
    rw [SubscriberFrame.Serving, hwait]
    trivial
  obtain ⟨f₁, hk₁, hf₁⟩ := serving_of_run hk hf hrun h.inBounds
  obtain rfl : f₁ = f' := Program.subscriber.inj (Option.some.inj (hk₁.symm.trans hk'))
  rw [SubscriberFrame.Serving, hreturned] at hf₁
  exact hf₁

/-- What the local variables of a session hold at first. -/
def someLocals : Locals := ⟨.zero, 0, List.replicate messageSize 0⟩

/-- A publisher of box `a` sends the message `x`. -/
def publishX : List BrokerTurn :=
  createA ++ .start 1 (.publisher pipeP nameA) someLocals :: List.replicate 7 (.step 1 {}) ++
    [.step 1 { ret := 1, bytes := [9] }, .step 1 {}, .step 1 { ret := 2, bytes := [120, 0] }] ++
    List.replicate 6 (.step 1 {})

/-- A subscriber of box `a` gets the message and waits for the next one. -/
def waitAfterX : List BrokerTurn :=
  publishX ++ .start 2 (.subscriber pipeQ nameA) someLocals :: List.replicate 14 (.step 2 {}) ++
    List.replicate 2 (.step 2 { ret := 1 }) ++ List.replicate 4 (.step 2 {})

/-- Box `a` is removed, and the subscriber is woken. -/
def removeAndWake : List BrokerTurn :=
  .start 3 (.remove pipeP nameA) someLocals :: List.replicate 8 (.step 3 { ret := 1 }) ++
    List.replicate 3 (.step 2 {}) ++ [.step 2 { ret := -1 }]

/-- The session waits on a condition variable. -/
def Program.isWaiting : Program → Bool
  | .subscriber f => f.place == .wait
  | _ => false

theorem Program.of_isWaiting {p : Program} (h : p.isWaiting = true) :
    ∃ f, p = .subscriber f ∧ f.place = .wait := by
  cases p with
  | subscriber f => exact ⟨f, rfl, beq_iff_eq.mp h⟩
  | _ => cases h

def Call.isExit : Call → Bool
  | .exit => true
  | _ => false

/-- The first byte of a message is sent. -/
def Call.sendsCode : Call → Bool
  | .write _ (.code _) => true
  | _ => false

theorem Call.of_sendsCode {c : Call} (h : c.sendsCode = true) :
    ∃ pipe content, c = .write pipe content := by
  cases c with
  | write pipe content => exact ⟨pipe, content, rfl⟩
  | _ => cases h

open BrokerState in
theorem not_endsCleanly_waitAfterX : ∃ rs s f,
    Outcome.runList step waitAfterX (start ⟨initial, .empty⟩) = .ok (rs, s) ∧
      s.handlers 2 = some (.subscriber f) ∧ ¬ EndsCleanly 2 f.boxHandle removeAndWake s := by
  have hresult : (Outcome.runList step waitAfterX (start ⟨initial, .empty⟩)).map (fun p =>
      (p.2.handlers 2).any Program.isWaiting) = .ok true := by
    decide +kernel
  obtain ⟨⟨rs, s⟩, hrun, hwaits⟩ := Outcome.map_eq_ok.mp hresult
  obtain ⟨p, hk, hp⟩ := (Option.any_eq_true _ _).mp hwaits
  obtain ⟨f, rfl, hwait⟩ := Program.of_isWaiting hp
  exact ⟨rs, s, f, hrun, hk, not_endsCleanly hk hwait removeAndWake⟩

open BrokerState in
/-- The subscriber that has got its message writes to its closed pipe, and the broker
exits. -/
theorem not_endsCleanly_removedBox : ∃ rs s f rs' s',
    Outcome.runList step waitAfterX (start ⟨initial, .empty⟩) = .ok (rs, s) ∧
      s.handlers 2 = some (.subscriber f) ∧ f.place = .wait ∧
      Outcome.runList step removeAndWake s = .ok (rs', s') ∧ s'.broker.table.nBoxes = 0 ∧
      (∃ p, s'.handlers 3 = some p ∧ p.call = none) ∧
      (∃ pipe content, .write pipe content ∈ callsOf 2 removeAndWake s) ∧
      ∃ p, s'.handlers 2 = some p ∧ p.call ≠ none ∧ p.call.all Call.isExit := by
  have hresult : (Outcome.runList step waitAfterX (start ⟨initial, .empty⟩)).map (fun p =>
      ((p.2.handlers 2).any Program.isWaiting,
        (callsOf 2 removeAndWake p.2).any Call.sendsCode,
        (Outcome.runList step removeAndWake p.2).map fun q =>
          (q.2.broker.table.nBoxes, (q.2.handlers 3).any fun p => p.call.isNone,
            (q.2.handlers 2).any fun p => p.call.any Call.isExit))) =
      .ok (true, true, .ok (0, true, true)) := by
    decide +kernel
  obtain ⟨⟨rs, s⟩, hrun, hs⟩ := Outcome.map_eq_ok.mp hresult
  simp only [Prod.mk.injEq] at hs
  obtain ⟨hwaits, hsends, hremoved⟩ := hs
  obtain ⟨⟨rs', s'⟩, hrun', hs'⟩ := Outcome.map_eq_ok.mp hremoved
  simp only [Prod.mk.injEq] at hs'
  obtain ⟨hn, hreturned, hexit⟩ := hs'
  obtain ⟨p, hk, hp⟩ := (Option.any_eq_true _ _).mp hwaits
  obtain ⟨f, rfl, hwait⟩ := Program.of_isWaiting hp
  obtain ⟨c, hc, hsends⟩ := List.any_eq_true.mp hsends
  obtain ⟨pipe, content, rfl⟩ := Call.of_sendsCode hsends
  obtain ⟨p₃, hk₃, hnone⟩ := (Option.any_eq_true _ _).mp hreturned
  obtain ⟨p₂, hk₂, hexit⟩ := (Option.any_eq_true _ _).mp hexit
  obtain ⟨c, hcall, hc'⟩ := (Option.any_eq_true _ _).mp hexit
  refine ⟨rs, s, f, rs', s', hrun, hk, hwait, hrun', hn,
    ⟨p₃, hk₃, Option.isNone_iff_eq_none.mp hnone⟩, ⟨pipe, content, hc⟩, p₂, hk₂, ?_, ?_⟩
  · rw [hcall]
    nofun
  · rw [hcall]
    exact hc'

end Mbroker
