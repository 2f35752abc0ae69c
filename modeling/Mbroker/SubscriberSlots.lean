/-
Where a subscriber waits.

The mutex and the condition variable of a box are those at its index, and a
subscriber goes through its loop with an index that it has found some time ago:
it locks, waits and unlocks there, while a removal may put its box in another
place.

* `SubscriberState.Inv` — a session that waits does so at the index of its box, and
  one that holds a mutex remembers which;
* **`listening_of_permitted`** — as long as no removal takes away or moves the box
  of a session that waits, and no session starts to wait at an old index;
* `not_listening_movedBox` — the box of a waiting session is moved.
-/
import Mbroker.PublisherSessions

namespace Mbroker

open Tfs

/-- Where a subscriber's handler is in the loop of `read_messages`, with the index
of the mutex it holds and with `box_index`. -/
inductive SubscriberPc where
  | top
  | locking (boxIndex : Int)
  | reading (held boxIndex : Int)
  | waiting (boxIndex : Int)
  | woken (boxIndex : Int)
  | unlocking (held boxIndex : Int)
deriving DecidableEq

/-- A subscriber's handler. -/
structure SubscriberSession where
  boxName : CString
  boxHandle : Int
  pc : SubscriberPc

/-- The broker with its publishers' and subscribers' handlers; `locked` are the
mutexes of `box_mutexes` that are held. -/
structure SubscriberState where
  broker : Broker
  publishers : Nat → Option PublisherSession
  subscribers : Nat → Option SubscriberSession
  locked : Int → Bool

/-- An event: one of the broker's, which runs to its end; the start of a
subscriber's handler; one of its steps; or a wake-up that nothing has caused. -/
inductive SubscriberEvent where
  | create (boxName : CString) (box : Box)
  | remove (boxName : CString)
  | publisher (k : Nat) (part : PublisherPart)
  | subscribe (k : Nat) (pipeName boxName : CString)
  | step (k : Nat)
  | wakeUp (k : Nat)

/-- Those that wait on the condition variable are woken. -/
def SubscriberSession.signal (boxIndex : Int) (session : SubscriberSession) : SubscriberSession :=
  if session.pc = .waiting boxIndex then { session with pc := .woken boxIndex } else session

/-- From the start of a wait to the `find_box` after it: the session is in
`pthread_cond_wait(&box_conditions[boxIndex], &box_mutexes[boxIndex])`. -/
def SubscriberSession.WaitsAt (boxIndex : Int) (session : SubscriberSession) : Prop :=
  session.pc = .waiting boxIndex ∨ session.pc = .woken boxIndex

namespace SubscriberState

/-- `main`, when `tfs_init` has returned. -/
def start (fs : TfsState) : SubscriberState :=
  ⟨⟨fs, .empty⟩, fun _ => none, fun _ => none, fun _ => false⟩

/-- `pthread_cond_broadcast(&box_conditions[boxIndex])`. -/
def broadcast (boxIndex : Int) (s : SubscriberState) : SubscriberState :=
  { s with subscribers := fun k => (s.subscribers k).map (SubscriberSession.signal boxIndex) }

/-- Session `k` goes on at `pc`. -/
def goTo (k : Nat) (session : SubscriberSession) (pc : SubscriberPc) (s : SubscriberState) :
    SubscriberState :=
  { s with subscribers := Function.update s.subscribers k (some { session with pc := pc }) }

def setLocked (i : Int) (v : Bool) (s : SubscriberState) : SubscriberState :=
  { s with locked := Function.update s.locked i v }

/-- What a publisher's handler does to the broker. -/
def runPublisher (k : Nat) (part : PublisherPart) (s : SubscriberState) :
    Outcome SubscriberState := do
  let (session, b) ← part.run (s.publishers k) s.broker
  return { s with broker := b, publishers := Function.update s.publishers k session }

/-- A publisher's handler goes on.  For a message it takes the mutex of its box,
and waits while that is held; then it signals. -/
def publisherStep (k : Nat) (part : PublisherPart) (s : SubscriberState) :
    Outcome SubscriberState :=
  match part, s.publishers k with
  | .message _, some session =>
    let boxIndex := findBox session.boxName s.broker.table
    if boxIndex = -1 then s.runPublisher k part
    else if s.locked boxIndex then .ok s
    else do
      let s ← s.runPublisher k part
      return s.broadcast boxIndex
  | _, _ => s.runPublisher k part

/-- A subscriber's handler goes on.  What it sends is left out: it does not decide
where the handler goes. -/
def subscriberStep (k : Nat) (session : SubscriberSession) (s : SubscriberState) :
    Outcome SubscriberState :=
  match session.pc with
  | .top =>
    let boxIndex := findBox session.boxName s.broker.table
    -- At the end of the session `boxes[-1].n_subscribers` is read.
    if boxIndex = -1 then .fault else .ok (s.goTo k session (.locking boxIndex))
  | .locking boxIndex =>
    if s.locked boxIndex then .ok s
    else .ok ((s.setLocked boxIndex true).goTo k session (.reading boxIndex boxIndex))
  | .reading held boxIndex => do
    let ((bytesRead, _), fs) ← tfsRead session.boxHandle 1 s.broker.fs
    let s : SubscriberState := { s with broker := { s.broker with fs := fs } }
    -- `pthread_cond_wait` lets go of the mutex that it is given.
    if bytesRead = 0 then return (s.setLocked boxIndex false).goTo k session (.waiting boxIndex)
    return s.goTo k session (.unlocking held boxIndex)
  | .waiting _ => .ok s
  | .woken boxIndex =>
    if s.locked boxIndex then .ok s
    else
      let found := findBox session.boxName s.broker.table
      let s := s.setLocked boxIndex true
      if found = -1 then .ok (s.goTo k session (.unlocking boxIndex found))
      else .ok (s.goTo k session (.reading boxIndex found))
  | .unlocking _ boxIndex =>
    if boxIndex < 0 then .fault -- `box_mutexes[-1]`
    else .ok ((s.setLocked boxIndex false).goTo k session .top)

/-- What an event leads to. -/
def next : SubscriberEvent → SubscriberState → Outcome SubscriberState
  | .create boxName box, s => do
    let (r, b) ← createBox boxName box s.broker
    -- `add_box` initialises the mutex of the slot.
    let s := if r = 0 then s.setLocked s.broker.table.nBoxes false else s
    return { s with broker := b }
  | .remove boxName, s => do
    let boxIndex := findBox boxName s.broker.table
    let (r, b) ← removeBox boxName s.broker
    -- The box's subscribers are woken before it leaves the table.
    let s := if r = 0 then s.broadcast boxIndex else s
    return { s with broker := b }
  | .publisher k part, s => s.publisherStep k part
  | .subscribe k pipeName boxName, s =>
    match s.subscribers k with
    | some _ => .ok s
    | none => do
      let (boxHandle, b) ← registerSubscriber pipeName boxName s.broker
      let session := boxHandle.map fun h => ⟨boxName, h, .top⟩
      return { s with broker := b, subscribers := Function.update s.subscribers k session }
  | .step k, s =>
    match s.subscribers k with
    | none => .ok s
    | some session => s.subscriberStep k session
  | .wakeUp k, s =>
    match s.subscribers k with
    | none => .ok s
    | some session =>
      match session.pc with
      | .waiting boxIndex => .ok (s.goTo k session (.woken boxIndex))
      | _ => .ok s

/-- One event. -/
def step (e : SubscriberEvent) (s : SubscriberState) : Outcome (Unit × SubscriberState) :=
  (s.next e).map fun s => ((), s)

/-- A session that waits for a box in the table waits at the index of the box, and
one that is about to unlock, or to wait, does so with the mutex that it holds. -/
structure Listening (s : SubscriberState) : Prop where
  waits : ∀ k session boxIndex, s.subscribers k = some session → session.WaitsAt boxIndex →
    ∀ i < s.broker.table.nBoxes, s.broker.table.name i = session.boxName → boxIndex = i
  unlocks : ∀ k session held boxIndex, s.subscribers k = some session →
    session.pc = .unlocking held boxIndex ∨ session.pc = .reading held boxIndex → boxIndex = held

/-- A box is removed when no session waits for it or for the last box, which takes
its place; and a session starts to wait with the index that its box has. -/
def Permitted : SubscriberEvent → SubscriberState → Prop
  | .remove boxName, s => RemovesBox boxName s.broker → findBox boxName s.broker.table ≠ -1 →
      ∀ k session boxIndex, s.subscribers k = some session → session.WaitsAt boxIndex →
        session.boxName ≠ boxName ∧
          session.boxName ≠ s.broker.table.name (s.broker.table.nBoxes - 1)
  | .step k, s => ∀ session held boxIndex bytes fs, s.subscribers k = some session →
      session.pc = .reading held boxIndex →
      tfsRead session.boxHandle 1 s.broker.fs = .ok ((0, bytes), fs) →
      findBox session.boxName s.broker.table = boxIndex
  | _, _ => True

/-! ### The invariant -/

/-- The indices that a session holds are those of its box, and of its mutex. -/
def Attends (t : BoxTable) (session : SubscriberSession) : Prop :=
  match session.pc with
  | .top => True
  | .locking boxIndex => boxIndex ≠ -1
  | .reading held boxIndex => boxIndex = held ∧ boxIndex ≠ -1
  | .waiting boxIndex | .woken boxIndex =>
    ∃ i < t.nBoxes, t.name i = session.boxName ∧ boxIndex = i
  | .unlocking held boxIndex => boxIndex = held

structure Inv (s : SubscriberState) : Prop where
  distinct : s.broker.table.Distinct
  attends : ∀ k session, s.subscribers k = some session → Attends s.broker.table session

variable {s s' : SubscriberState} {t t' : BoxTable} {k : Nat} {session : SubscriberSession}
  {q : CString} {boxIndex : Int} {b : Broker} {o : Option SubscriberSession}

theorem inv_start (fs : TfsState) : (start fs).Inv :=
  ⟨fun i hi => absurd hi (Nat.not_lt_zero i), fun _ _ h => (by cases h)⟩

theorem Attends.of_waitsAt (h : Attends t session) (hw : session.WaitsAt boxIndex) :
    ∃ i < t.nBoxes, t.name i = session.boxName ∧ boxIndex = i := by
  rw [Attends] at h
  rcases hw with hw | hw
  · rw [hw] at h
    exact h
  · rw [hw] at h
    exact h

theorem Inv.listening (h : s.Inv) : s.Listening := by
  refine ⟨fun k session boxIndex hk hw i hi hname => ?_, fun k session held boxIndex hk hpc => ?_⟩
  · obtain ⟨j, hj, hname', rfl⟩ := (h.attends k session hk).of_waitsAt hw
    rw [h.distinct j hj i hi (hname'.trans hname.symm)]
  · have hat := h.attends k session hk
    rw [Attends] at hat
    rcases hpc with hpc | hpc
    · rw [hpc] at hat
      exact hat
    · rw [hpc] at hat
      exact hat.1

/-- Only the box of a session that waits has to stay where it is. -/
theorem Attends.mono (h : Attends t session)
    (hstay : ∀ boxIndex, session.WaitsAt boxIndex → ∀ i < t.nBoxes, t.name i = session.boxName →
      i < t'.nBoxes ∧ t'.name i = session.boxName) : Attends t' session := by
  rw [Attends] at h ⊢
  cases hpc : session.pc with
  | waiting boxIndex =>
    rw [hpc] at h
    obtain ⟨i, hi, hname, rfl⟩ := h
    obtain ⟨hi', hname'⟩ := hstay _ (Or.inl hpc) i hi hname
    exact ⟨i, hi', hname', rfl⟩
  | woken boxIndex =>
    rw [hpc] at h
    obtain ⟨i, hi, hname, rfl⟩ := h
    obtain ⟨hi', hname'⟩ := hstay _ (Or.inr hpc) i hi hname
    exact ⟨i, hi', hname', rfl⟩
  | _ =>
    rw [hpc] at h
    exact h

theorem Attends.signal (h : Attends t session) : Attends t (session.signal boxIndex) := by
  rw [SubscriberSession.signal]
  split
  case isTrue hpc =>
    rw [Attends, hpc] at h
    exact h
  case isFalse => exact h

theorem Inv.broadcast (h : s.Inv) : (s.broadcast boxIndex).Inv := by
  refine ⟨h.distinct, fun k session hk => ?_⟩
  obtain ⟨session', hk', rfl⟩ := Option.map_eq_some_iff.mp hk
  exact (h.attends k session' hk').signal

theorem Inv.update (h : s.Inv) (ho : ∀ session, o = some session → Attends s.broker.table session) :
    Inv { s with subscribers := Function.update s.subscribers k o } := by
  refine ⟨h.distinct, fun k' session hk' => ?_⟩
  dsimp only at hk'
  by_cases heq : k' = k
  · rw [heq, Function.update_self] at hk'
    exact ho session hk'
  · rw [Function.update_of_ne heq] at hk'
    exact h.attends k' session hk'

theorem Inv.goTo {pc : SubscriberPc} (h : s.Inv)
    (hpc : Attends s.broker.table { session with pc := pc }) : (s.goTo k session pc).Inv :=
  h.update fun _ heq => Option.some.inj heq ▸ hpc

theorem Inv.setLocked {i : Int} {v : Bool} (h : s.Inv) : (s.setLocked i v).Inv :=
  ⟨h.distinct, h.attends⟩

/-! ### The events -/

/-- Events that leave the names of the boxes. -/
theorem Inv.setBroker (h : s.Inv) (hn : b.table.nBoxes = s.broker.table.nBoxes)
    (hname : b.table.name = s.broker.table.name) : Inv { s with broker := b } := by
  refine ⟨h.distinct.congr hn hname, fun k session hk => (h.attends k session hk).mono ?_⟩
  intro boxIndex _ i hi hi'
  rw [hn, hname]
  exact ⟨hi, hi'⟩

theorem Inv.create {box : Box} {r : Int} (h : s.Inv) (hc : createBox q box s.broker = .ok (r, b)) :
    Inv { s with broker := b } := by
  rcases createBox_table hc with ⟨-, htable⟩ | ⟨-, hopens, hadd⟩
  · exact h.setBroker (by rw [htable]) (by rw [htable])
  · obtain ⟨-, hn, -, hother⟩ := BoxTable.addBox_ok hadd
    refine ⟨h.distinct.addBox hadd (BoxTable.findBox_eq_neg.mp hopens.1), fun k session hk =>
      (h.attends k session hk).mono fun boxIndex _ i hi hname => ⟨?_, ?_⟩⟩
    · show i < b.table.nBoxes
      omega
    · show (b.table.boxes i).boxName = session.boxName
      rw [hother i (by omega)]
      exact hname

theorem Inv.remove {r : Int} (h : s.Inv) (hc : removeBox q s.broker = .ok (r, b))
    (hok : Permitted (.remove q) s) : Inv { s with broker := b } := by
  rcases removeBox_table hc with ⟨-, htable⟩ | ⟨-, hremoves, r, hr, hfind, hname, hdelete⟩
  · exact h.setBroker (by rw [htable]) (by rw [htable])
  · obtain ⟨-, -, hn, -⟩ := BoxTable.deleteBox_ok hdelete
    refine ⟨h.distinct.deleteBox hdelete, fun k session hk => (h.attends k session hk).mono ?_⟩
    intro boxIndex hw i hi hi'
    obtain ⟨hq, hlast⟩ := hok hremoves (by omega) k session boxIndex hk hw
    -- The box is neither the one removed nor the one that takes its place.
    have hir : i ≠ r := by
      rintro rfl
      exact hq (hi'.symm.trans hname)
    have hil : i ≠ s.broker.table.nBoxes - 1 := by
      rintro rfl
      exact hlast hi'.symm
    have hi₂ : i < b.table.nBoxes := by omega
    refine ⟨hi₂, ?_⟩
    show b.table.name i = session.boxName
    rw [BoxTable.name_deleteBox hdelete hi₂, BoxTable.movedFrom, if_neg hir]
    exact hi'

/-- No part of a publisher's handler renames a box. -/
theorem names_run {part : PublisherPart} {p p' : Option PublisherSession} {b b' : Broker}
    (h : part.run p b = .ok (p', b')) :
    b'.table.nBoxes = b.table.nBoxes ∧ b'.table.name = b.table.name := by
  cases PublisherPart.run_spec h with
  | register hc =>
    rcases publisherFunction_table hc with ⟨-, htable⟩ | ⟨i, -, -, -, -, htable⟩
    · rw [htable]
      exact ⟨rfl, rfl⟩
    · rw [htable]
      exact ⟨rfl, BoxTable.name_modify fun _ => rfl⟩
  | message hc =>
    rcases receiveMessage_table hc with ⟨-, -, htable⟩ | ⟨i, -, -, -, htable⟩
    · rw [htable]
      exact ⟨rfl, rfl⟩
    · rw [htable]
      exact ⟨rfl, BoxTable.name_modify fun _ => rfl⟩
  | disconnect hc =>
    rw [endSession_table hc]
    split
    · exact ⟨rfl, rfl⟩
    · exact ⟨rfl, BoxTable.name_modify fun _ => rfl⟩
  | idle => exact ⟨rfl, rfl⟩

theorem Inv.runPublisher {part : PublisherPart} (h : s.Inv)
    (hc : s.runPublisher k part = .ok s') : s'.Inv := by
  obtain ⟨⟨p, b⟩, hrun, hc⟩ := Outcome.bind_eq_ok.mp hc
  obtain rfl := Outcome.ok.inj hc
  obtain ⟨hn, hname⟩ := names_run hrun
  have hinv := h.setBroker hn hname
  exact ⟨hinv.distinct, hinv.attends⟩

theorem Inv.publisherStep {part : PublisherPart} (h : s.Inv)
    (hc : s.publisherStep k part = .ok s') : s'.Inv := by
  unfold SubscriberState.publisherStep at hc
  split at hc
  · dsimp only at hc
    split at hc
    · exact h.runPublisher hc
    · split at hc
      · obtain rfl := Outcome.ok.inj hc
        exact h
      · obtain ⟨s₁, hrun, hc⟩ := Outcome.bind_eq_ok.mp hc
        obtain rfl := Outcome.ok.inj hc
        exact (h.runPublisher hrun).broadcast
  · exact h.runPublisher hc

theorem Inv.subscriberStep (h : s.Inv) (hk : s.subscribers k = some session)
    (hc : s.subscriberStep k session = .ok s') (hok : Permitted (.step k) s) : s'.Inv := by
  have hat := h.attends k session hk
  rw [Attends] at hat
  rw [SubscriberState.subscriberStep] at hc
  cases hpc : session.pc with
  | top =>
    rw [hpc] at hc
    dsimp only at hc
    split at hc
    · cases hc
    · obtain rfl := Outcome.ok.inj hc
      exact h.goTo (by assumption)
  | locking boxIndex =>
    rw [hpc] at hc hat
    dsimp only at hc
    split at hc
    · obtain rfl := Outcome.ok.inj hc
      exact h
    · obtain rfl := Outcome.ok.inj hc
      exact h.setLocked.goTo ⟨rfl, hat⟩
  | reading held boxIndex =>
    rw [hpc] at hc hat
    obtain ⟨⟨⟨bytesRead, bytes⟩, fs⟩, hread, hc⟩ := Outcome.bind_eq_ok.mp hc
    have hinv : Inv { s with broker := { s.broker with fs := fs } } := h.setBroker rfl rfl
    dsimp only at hc
    split at hc
    case isTrue hzero =>
      subst hzero
      obtain rfl := Outcome.ok.inj hc
      have hfind := hok session held boxIndex bytes fs hk hpc hread
      obtain ⟨i, hi, hfi, hname⟩ := BoxTable.of_findBox (by rw [hfind]; exact hat.2)
      exact hinv.setLocked.goTo ⟨i, hi, hname, hfind.symm.trans hfi⟩
    case isFalse =>
      obtain rfl := Outcome.ok.inj hc
      exact hinv.goTo hat.1
  | waiting boxIndex =>
    rw [hpc] at hc
    obtain rfl := Outcome.ok.inj hc
    exact h
  | woken boxIndex =>
    rw [hpc] at hc hat
    -- The box is still where the session has waited.
    obtain ⟨i, hi, hname, rfl⟩ := hat
    have hfind : findBox session.boxName s.broker.table = i :=
      (BoxTable.findBox_eq h.distinct hi).mpr hname
    dsimp only at hc
    rw [hfind] at hc
    split at hc
    · obtain rfl := Outcome.ok.inj hc
      exact h
    · rw [if_neg (by omega)] at hc
      obtain rfl := Outcome.ok.inj hc
      exact h.setLocked.goTo ⟨rfl, by omega⟩
  | unlocking held boxIndex =>
    rw [hpc] at hc
    dsimp only at hc
    split at hc
    · cases hc
    · obtain rfl := Outcome.ok.inj hc
      exact h.setLocked.goTo trivial

theorem Inv.next {e : SubscriberEvent} (h : s.Inv) (hok : Permitted e s) (hc : s.next e = .ok s') :
    s'.Inv := by
  cases e with
  | create boxName box =>
    obtain ⟨⟨r, b⟩, hcreate, hc⟩ := Outcome.bind_eq_ok.mp hc
    obtain rfl := Outcome.ok.inj hc
    have hinv := h.create hcreate
    split
    · exact hinv.setLocked
    · exact hinv
  | remove boxName =>
    obtain ⟨⟨r, b⟩, hremove, hc⟩ := Outcome.bind_eq_ok.mp hc
    obtain rfl := Outcome.ok.inj hc
    have hinv := h.remove hremove hok
    split
    · exact hinv.broadcast
    · exact hinv
  | publisher k part => exact h.publisherStep hc
  | subscribe k pipeName boxName =>
    rw [SubscriberState.next] at hc
    split at hc
    · obtain rfl := Outcome.ok.inj hc
      exact h
    · obtain ⟨⟨boxHandle, b⟩, hregister, hc⟩ := Outcome.bind_eq_ok.mp hc
      obtain rfl := Outcome.ok.inj hc
      obtain ⟨hn, hname⟩ := registerSubscriber_table hregister
      refine (h.setBroker hn hname).update fun session hsession => ?_
      obtain ⟨boxHandle', -, rfl⟩ := Option.map_eq_some_iff.mp hsession
      trivial
  | step k =>
    rw [SubscriberState.next] at hc
    split at hc
    · obtain rfl := Outcome.ok.inj hc
      exact h
    case h_2 session hk => exact h.subscriberStep hk hc hok
  | wakeUp k =>
    rw [SubscriberState.next] at hc
    split at hc
    · obtain rfl := Outcome.ok.inj hc
      exact h
    case h_2 session hk =>
      split at hc
      case h_1 boxIndex hpc =>
        obtain rfl := Outcome.ok.inj hc
        exact h.goTo ((h.attends k session hk).of_waitsAt (Or.inl hpc))
      · obtain rfl := Outcome.ok.inj hc
        exact h

/-- **The step lemma.** -/
theorem Inv.step {e : SubscriberEvent} {r : Unit} (h : s.Inv) (hok : Permitted e s)
    (hstep : step e s = .ok (r, s')) : s'.Inv := by
  obtain ⟨s₁, hnext, heq⟩ := Outcome.map_eq_ok.mp hstep
  obtain ⟨-, rfl⟩ := Prod.mk.inj heq
  exact h.next hok hnext

theorem subscribers_create {box : Box} {r : Unit} (hstep : step (.create q box) s = .ok (r, s')) :
    s'.subscribers = s.subscribers := by
  obtain ⟨s₁, hnext, heq⟩ := Outcome.map_eq_ok.mp hstep
  obtain ⟨-, rfl⟩ := Prod.mk.inj heq
  obtain ⟨⟨r₁, b⟩, -, hc⟩ := Outcome.bind_eq_ok.mp hnext
  obtain rfl := Outcome.ok.inj hc
  dsimp only
  split
  · rfl
  · rfl

end SubscriberState

open SubscriberState in
/-- **Listening**: as long as no removal takes away or moves the box of a session
that waits, and no session starts to wait at an old index, every session that waits
does so where its publisher signals, and unlocks the mutex that it holds. -/
theorem listening_of_permitted {fs : TfsState} {es : List SubscriberEvent} {rs : List Unit}
    {s : SubscriberState} (hrun : Outcome.runList step es (start fs) = .ok (rs, s))
    (hok : ∀ e s', Outcome.Reaches step es (start fs) e s' → Permitted e s') : s.Listening :=
  (Outcome.runList_invariant_of_reaches (fun _ _ _ _ h hok hstep => h.step hok hstep) hok
    (inv_start fs) hrun).listening

/-- Two boxes, of which the second goes; then a subscriber waits on the first. -/
def waitsOnBox : List SubscriberEvent :=
  [.create (.ofBuffer [97]) .zero, .create (.ofBuffer [98]) .zero, .remove (.ofBuffer [98]),
    .subscribe 0 (.ofBuffer [112]) (.ofBuffer [97]), .step 0, .step 0, .step 0]

open SubscriberState in
theorem listening_waitsOnBox : ∃ rs s,
    Outcome.runList step waitsOnBox (start initial) = .ok (rs, s) ∧ s.Listening := by
  have h : (step (.create (.ofBuffer [97]) .zero) (start initial) >>= fun s₁ =>
      step (.create (.ofBuffer [98]) .zero) s₁.2 >>= fun s₂ =>
      step (.remove (.ofBuffer [98])) s₂.2 >>= fun s₃ =>
      step (.subscribe 0 (.ofBuffer [112]) (.ofBuffer [97])) s₃.2 >>= fun s₄ =>
      step (.step 0) s₄.2 >>= fun s₅ =>
      step (.step 0) s₅.2 >>= fun s₆ =>
      (step (.step 0) s₆.2).map fun s₇ =>
        ([s₄.2, s₅.2, s₆.2, s₇.2].map fun s => (s.subscribers 0).map SubscriberSession.pc,
          (s₆.2.subscribers 0).map SubscriberSession.boxName,
          findBox (.ofBuffer [97]) s₆.2.broker.table)) =
      .ok ([some .top, some (.locking 0), some (.reading 0 0), some (.waiting 0)],
        some (.ofBuffer [97]), 0) := by
    decide +kernel
  obtain ⟨⟨r₁, s₁⟩, h₁, h⟩ := Outcome.bind_eq_ok.mp h
  obtain ⟨⟨r₂, s₂⟩, h₂, h⟩ := Outcome.bind_eq_ok.mp h
  obtain ⟨⟨r₃, s₃⟩, h₃, h⟩ := Outcome.bind_eq_ok.mp h
  obtain ⟨⟨r₄, s₄⟩, h₄, h⟩ := Outcome.bind_eq_ok.mp h
  obtain ⟨⟨r₅, s₅⟩, h₅, h⟩ := Outcome.bind_eq_ok.mp h
  obtain ⟨⟨r₆, s₆⟩, h₆, h⟩ := Outcome.bind_eq_ok.mp h
  obtain ⟨⟨r₇, s₇⟩, h₇, h⟩ := Outcome.map_eq_ok.mp h
  simp only [List.map_cons, List.map_nil, Prod.mk.injEq, List.cons.injEq] at h
  obtain ⟨⟨hs₄, hs₅, hs₆, -⟩, hname, hfind⟩ := h
  have hrun : Outcome.runList step waitsOnBox (start initial) =
      .ok ([r₁, r₂, r₃, r₄, r₅, r₆, r₇], s₇) := by
    simp [waitsOnBox, Outcome.runList, h₁, h₂, h₃, h₄, h₅, h₆, h₇]
  refine ⟨_, s₇, hrun, listening_of_permitted hrun fun e s' hreach => ?_⟩
  -- The states in which the seven events happen.
  rcases Outcome.reaches_cons.mp hreach with ⟨rfl, rfl⟩ | ⟨r, s, h₁', hreach⟩
  · trivial
  obtain ⟨rfl, rfl⟩ := Prod.mk.inj (Outcome.ok.inj (h₁.symm.trans h₁'))
  rcases Outcome.reaches_cons.mp hreach with ⟨rfl, rfl⟩ | ⟨r, s, h₂', hreach⟩
  · trivial
  obtain ⟨rfl, rfl⟩ := Prod.mk.inj (Outcome.ok.inj (h₂.symm.trans h₂'))
  rcases Outcome.reaches_cons.mp hreach with ⟨rfl, rfl⟩ | ⟨r, s, h₃', hreach⟩
  · intro _ _ k session boxIndex hk
    rw [subscribers_create h₂, subscribers_create h₁] at hk
    cases hk
  obtain ⟨rfl, rfl⟩ := Prod.mk.inj (Outcome.ok.inj (h₃.symm.trans h₃'))
  rcases Outcome.reaches_cons.mp hreach with ⟨rfl, rfl⟩ | ⟨r, s, h₄', hreach⟩
  · trivial
  obtain ⟨rfl, rfl⟩ := Prod.mk.inj (Outcome.ok.inj (h₄.symm.trans h₄'))
  rcases Outcome.reaches_cons.mp hreach with ⟨rfl, rfl⟩ | ⟨r, s, h₅', hreach⟩
  · intro session held boxIndex bytes fs hk hpc
    rw [hk, Option.map_some, hpc] at hs₄
    cases hs₄
  obtain ⟨rfl, rfl⟩ := Prod.mk.inj (Outcome.ok.inj (h₅.symm.trans h₅'))
  rcases Outcome.reaches_cons.mp hreach with ⟨rfl, rfl⟩ | ⟨r, s, h₆', hreach⟩
  · intro session held boxIndex bytes fs hk hpc
    rw [hk, Option.map_some, hpc] at hs₅
    cases hs₅
  obtain ⟨rfl, rfl⟩ := Prod.mk.inj (Outcome.ok.inj (h₆.symm.trans h₆'))
  rcases Outcome.reaches_cons.mp hreach with ⟨rfl, rfl⟩ | ⟨r, s, h₇', hreach⟩
  · intro session held boxIndex bytes fs hk hpc _
    rw [hk, Option.map_some, Option.some.injEq] at hname hs₆
    obtain ⟨-, rfl⟩ := SubscriberPc.reading.inj (hpc.symm.trans hs₆)
    rw [hname]
    exact hfind
  · exact absurd hreach Outcome.reaches_nil

/-- Two boxes, a subscriber that waits on the second one, and the removal of the
first, which puts the second in its place. -/
def movedBox : List SubscriberEvent :=
  [.create (.ofBuffer [97]) .zero, .create (.ofBuffer [98]) .zero,
    .subscribe 0 (.ofBuffer [112]) (.ofBuffer [98]), .step 0, .step 0, .step 0,
    .remove (.ofBuffer [97])]

open SubscriberState in
/-- A publisher of the box signals at `0` from now on. -/
theorem not_listening_movedBox : ∃ rs s,
    Outcome.runList step movedBox (start initial) = .ok (rs, s) ∧ ¬ s.Listening := by
  have h : (Outcome.runList step movedBox (start initial)).map (fun p =>
      (p.2.broker.table.nBoxes, p.2.broker.table.name 0,
        (p.2.subscribers 0).map fun session => (session.boxName, session.pc))) =
      .ok (1, .ofBuffer [98], some (.ofBuffer [98], .waiting 1)) := by
    decide +kernel
  obtain ⟨⟨rs, s⟩, hrun, hs⟩ := Outcome.map_eq_ok.mp h
  simp only [Prod.mk.injEq, Option.map_eq_some_iff] at hs
  obtain ⟨hn, hname, session, hsession, hbox, hpc⟩ := hs
  refine ⟨rs, s, hrun, fun hlistening => ?_⟩
  have heq := hlistening.waits 0 session 1 hsession (Or.inl hpc) 0 (by omega)
    (hname.trans hbox.symm)
  exact absurd heq (by decide)

end Mbroker
