/-
The open files of the handlers.

A handler holds the handle that it is going to close.  A file that it opens for
itself and does not close stays in the table of open files when it has returned:
that is every file that `publisher_function` opens, and the one of a subscriber whose
box has gone before `read_messages` starts.

* `Program.effect` — what a call does to the table, and to what the handler holds;
* `BrokerState.Holding` — different handlers hold different open files;
* **`ownEffect_eq_zero_iff`** — a handler that has returned has left the table as it was
  exactly when none of its steps leaked, and a broker none of whose handlers leak
  is back where it was once they have all returned.
-/
import Mbroker.BrokerRuns
import Mbroker.TfsOpenFiles

namespace Mbroker

open Tfs

/-! ### What a handler holds -/

/-- A handle that has been given. -/
def given (boxHandle : Int) : Option Int := if boxHandle = -1 then none else some boxHandle

/-- The handle that `recieve_messages_from_publisher` is going to close. -/
def PublisherFrame.held (f : PublisherFrame) : Option Int :=
  match f.place with
  | .tfsOpen | .findBox | .nPublishers | .setNPublishers | .setPublisher | .tfsReopen => none
  | .openPipe => if f.ver then given f.sessionHandle else none
  | .closeRejected | .dequeueRejected | .returned => none
  | _ => given f.sessionHandle

/-- The handle that `read_messages` is going to close. -/
def SubscriberFrame.held (f : SubscriberFrame) : Option Int :=
  match f.place with
  | .findFirst | .findSecond | .incNSubscribers | .addSubscriber | .tfsOpen => none
  | .openPipe | .closeRejected => if f.boxIndex = -1 then none else given f.boxHandle
  | .dequeueRejected | .closePipe | .dequeue | .returned => none
  | _ => given f.boxHandle

def CreateFrame.held (f : CreateFrame) : Option Int :=
  match f.place with
  | .tfsClose => given f.boxHandle
  | _ => none

def Program.held : Program → Option Int
  | .publisher f => f.held
  | .subscriber f => f.held
  | .create f => f.held
  | _ => none

/-- The step opens a file that is not closed, or finds out that it is not going to be:
an open of `publisher_function`, that of a publisher which is turned away, and
`register_subscriber` when the box has gone. -/
def Program.Leaks (b : Broker) : Program → Prop
  | .publisher f => (f.place = .tfsOpen ∨ f.place = .tfsReopen ∧ f.ver = false) ∧
      b.fs.InDir f.boxName ∧ ¬ b.fs.NoHandle
  | .subscriber f => f.place = .findBox ∧ f.boxHandle ≠ -1 ∧ ¬ b.table.Holds f.boxName
  | _ => False

/-- The next step of the handler leaks. -/
def BrokerTurn.Leaks : BrokerTurn → BrokerState → Prop
  | .step k _, s => ∃ p ∈ s.handlers k, p.Leaks s.broker
  | .start _ _ _, _ => False

/-- The entries that the steps of handler `k` have taken, less those they have freed. -/
def ownEffect (k : Nat) : List BrokerTurn → BrokerState → ℤ
  | [], _ => 0
  | t :: turns, s =>
    match BrokerState.step t s with
    | .ok (_, s') =>
      (if t.handler = k then (s'.broker.fs.openFiles.card : ℤ) - s.broker.fs.openFiles.card else 0) +
        ownEffect k turns s'
    | _ => 0

/-! ### What a call does -/

section Calls

variable {b b' : Broker} {call : Call} {a env : Answer} {boxName : CString} {mode : Nat}
  {boxHandle : Int} {p p' : Program}

/-- A call that neither opens nor closes a file. -/
def Call.KeepsOpenFiles : Call → Prop
  | .tfs (.tfsOpen _ _) => False
  | .tfs (.tfsClose _) => False
  | _ => True

theorem perform_openFiles (hs : b.fs.Inv) (h : perform call env b = .ok (a, b'))
    (hc : call.KeepsOpenFiles) : b'.fs.openFiles = b.fs.openFiles := by
  rcases perform_fs h with heq | ⟨c, r, rfl, hcall, -⟩
  · rw [heq]
  · refine (hs.openFiles_of_tfsCall hcall).of_other ?_ ?_
    · rintro name mode rfl
      exact hc
    · rintro fhandle rfl
      exact hc

theorem perform_tfsOpen {name : Option CString} (hs : b.fs.Inv)
    (h : perform (.tfs (.tfsOpen name mode)) env b = .ok (a, b')) :
    a.ret = -1 ∧ b'.fs.openFiles = b.fs.openFiles ∨
      ∃ f : Nat, a.ret = f ∧ f ∉ b.fs.openFiles ∧ b'.fs.openFiles = insert f b.fs.openFiles := by
  obtain ⟨⟨r, fs⟩, hcall, h⟩ := Outcome.bind_eq_ok.mp h
  obtain ⟨rfl, rfl⟩ := Prod.mk.inj (Outcome.ok.inj h)
  exact (hs.openFiles_of_tfsCall hcall).of_open

/-- The opens of `publisher_function` and `register_subscriber`. -/
theorem perform_tfsOpen_ne_neg (hs : b.fs.Inv) (hm : mode &&& tfsOCreat = 0)
    (h : perform (.tfs (.tfsOpen (some (boxPath boxName)) mode)) env b = .ok (a, b')) :
    a.ret ≠ -1 ↔ b.fs.InDir boxName ∧ ¬ b.fs.NoHandle := by
  obtain ⟨⟨r, fs⟩, hcall, h⟩ := Outcome.bind_eq_ok.mp h
  obtain ⟨rfl, rfl⟩ := Prod.mk.inj (Outcome.ok.inj h)
  obtain ⟨⟨r, fs⟩, hopen, hcall⟩ := Outcome.bind_eq_ok.mp hcall
  obtain ⟨rfl, rfl⟩ := Prod.mk.inj (Outcome.ok.inj hcall)
  exact hs.tfsOpen_ne_neg_iff (p := boxPath boxName) rfl hm hopen

theorem perform_tfsClose (hs : b.fs.Inv)
    (h : perform (.tfs (.tfsClose boxHandle)) env b = .ok (a, b')) :
    (∀ f : Nat, boxHandle = f → f ∉ b.fs.openFiles) ∧ b'.fs.openFiles = b.fs.openFiles ∨
      ∃ f : Nat, boxHandle = f ∧ f ∈ b.fs.openFiles ∧
        b'.fs.openFiles = b.fs.openFiles.erase f := by
  obtain ⟨⟨r, fs⟩, hcall, h⟩ := Outcome.bind_eq_ok.mp h
  obtain ⟨rfl, rfl⟩ := Prod.mk.inj (Outcome.ok.inj h)
  exact (hs.openFiles_of_tfsCall hcall).of_close

/-- What a step of a handler does to the table, and to what the handler holds. -/
inductive Program.Effect (b b' : Broker) (p p' : Program) : Prop where
  | same (hopen : b'.fs.openFiles = b.fs.openFiles) (hheld : p'.held = p.held)
      (hleak : ¬ p.Leaks b)
  | took (f : Nat) (hf : f ∉ b.fs.openFiles) (hopen : b'.fs.openFiles = insert f b.fs.openFiles)
      (hheld : p.held = none) (hheld' : p'.held = some (f : Int)) (hleak : ¬ p.Leaks b)
  | gave (f : Nat) (hf : f ∈ b.fs.openFiles) (hopen : b'.fs.openFiles = b.fs.openFiles.erase f)
      (hheld : p.held = some (f : Int)) (hheld' : p'.held = none) (hleak : ¬ p.Leaks b)
  | left (f : Nat) (hf : f ∉ b.fs.openFiles) (hopen : b'.fs.openFiles = insert f b.fs.openFiles)
      (hheld : p.held = none) (hheld' : p'.held = none) (hleak : p.Leaks b)
  | forgot (boxHandle : Int) (hopen : b'.fs.openFiles = b.fs.openFiles)
      (hheld : p.held = some boxHandle) (hheld' : p'.held = none) (hleak : p.Leaks b)

/-- What the handler holds is open. -/
def Program.HoldsOpen (p : Program) (b : Broker) : Prop :=
  ∀ boxHandle, p.held = some boxHandle → ∃ f : Nat, boxHandle = f ∧ f ∈ b.fs.openFiles

theorem given_neg : given (-1) = none := if_pos rfl

theorem given_natCast (f : Nat) : given (f : Int) = some (f : Int) := if_neg (by omega)

/-- An open whose handle is going to be closed. -/
theorem Program.Effect.of_open {name : Option CString} (hs : b.fs.Inv)
    (hperform : perform (.tfs (.tfsOpen name mode)) env b = .ok (a, b')) (hheld : p.held = none)
    (hheld' : p'.held = given a.ret) (hleak : ¬ p.Leaks b) : p.Effect b b' p' := by
  rcases perform_tfsOpen hs hperform with ⟨hret, hopen⟩ | ⟨f, hret, hf, hopen⟩
  · rw [hret, given_neg] at hheld'
    exact .same hopen (hheld'.trans hheld.symm) hleak
  · rw [hret, given_natCast] at hheld'
    exact .took f hf hopen hheld hheld' hleak

/-- An open whose handle is not. -/
theorem Program.Effect.of_leak {name : Option CString} (hs : b.fs.Inv)
    (hperform : perform (.tfs (.tfsOpen name mode)) env b = .ok (a, b')) (hheld : p.held = none)
    (hheld' : p'.held = none) (hleak : a.ret ≠ -1 ↔ p.Leaks b) : p.Effect b b' p' := by
  rcases perform_tfsOpen hs hperform with ⟨hret, hopen⟩ | ⟨f, hret, hf, hopen⟩
  · exact .same hopen (hheld'.trans hheld.symm) (hleak.not.mp (not_not.mpr hret))
  · exact .left f hf hopen hheld hheld' (hleak.mp (by omega))

theorem Program.Effect.of_close (hs : b.fs.Inv) (hholds : p.HoldsOpen b)
    (hperform : perform (.tfs (.tfsClose boxHandle)) env b = .ok (a, b'))
    (hheld : p.held = given boxHandle) (hheld' : p'.held = none) (hleak : ¬ p.Leaks b) :
    p.Effect b b' p' := by
  rcases perform_tfsClose hs hperform with ⟨hclosed, hopen⟩ | ⟨f, rfl, hf, hopen⟩
  · -- It is not open, so it has not been given.
    refine .same hopen ?_ hleak
    rw [hheld', hheld, given]
    split
    · rfl
    case isFalse hne =>
      obtain ⟨f, hf, hmem⟩ := hholds boxHandle (hheld.trans (if_neg hne))
      exact absurd hmem (hclosed f hf)
  · exact .gave f hf hopen (hheld.trans (given_natCast f)) hheld' hleak

/-! ### The handlers, step by step -/

theorem ReplyFrame.keepsOpenFiles {f : ReplyFrame} (h : f.call = some call) :
    call.KeepsOpenFiles := by
  obtain ⟨place, code, pipeName, returnCode, managerPipe⟩ := f
  cases place <;> cases h <;> trivial

theorem CreateFrame.effect {f : CreateFrame} (hs : b.fs.Inv)
    (hholds : (Program.create f).HoldsOpen b) (hcall : f.call = some call)
    (hperform : perform call env b = .ok (a, b')) :
    (Program.create f).Effect b b' (.create (f.resume a)) := by
  obtain ⟨place, pipeName, boxName, box, boxHandle⟩ := f
  cases place with
  | findBox =>
    cases hcall
    refine .same (perform_openFiles hs hperform trivial) ?_ not_false
    rw [resume]
    dsimp only
    split
    · rfl
    · rfl
  | tfsOpen =>
    cases hcall
    refine .of_open hs hperform rfl ?_ not_false
    rw [resume]
    dsimp only
    split
    case isTrue hneg => exact (if_pos hneg).symm
    case isFalse => rfl
  | tfsClose =>
    cases hcall
    exact .of_close hs hholds hperform rfl rfl not_false
  | addBox =>
    cases hcall
    exact .same (perform_openFiles hs hperform trivial) rfl not_false
  | reply r => exact .same (perform_openFiles hs hperform (r.keepsOpenFiles hcall)) rfl not_false

theorem RemoveFrame.keepsOpenFiles {f : RemoveFrame} (h : f.call = some call) :
    call.KeepsOpenFiles := by
  obtain ⟨place, pipeName, boxName, boxIndex⟩ := f
  cases place with
  | reply r => exact r.keepsOpenFiles h
  | _ => cases h; trivial

theorem ListFrame.keepsOpenFiles {f : ListFrame} (h : f.call = some call) :
    call.KeepsOpenFiles := by
  obtain ⟨place, pipeName, manPipe, i, replyBox⟩ := f
  cases place <;> cases h <;> trivial

/-- The places of a publisher's handler where it opens or closes a file. -/
def PublisherPlace.UsesHandle (place : PublisherPlace) : Prop :=
  place = .tfsOpen ∨ place = .tfsReopen ∨ place = .tfsClose

theorem PublisherFrame.keepsOpenFiles {f : PublisherFrame} (h : f.call = some call)
    (hplace : ¬ f.place.UsesHandle) : call.KeepsOpenFiles := by
  obtain ⟨place, pipeName, boxName, boxHandle, boxIndex, ver, sessionHandle, pubPipe, buffer⟩ := f
  cases place with
  | tfsOpen => exact absurd (Or.inl rfl) hplace
  | tfsReopen => exact absurd (Or.inr (Or.inl rfl)) hplace
  | tfsClose => exact absurd (Or.inr (Or.inr rfl)) hplace
  | returned => cases h
  | _ => cases h; trivial

/-- Elsewhere it goes on holding what it holds. -/
theorem PublisherFrame.held_resume {f f' : PublisherFrame} (h : f.resume a = .ok f')
    (hplace : ¬ f.place.UsesHandle) : f'.held = f.held := by
  obtain ⟨place, pipeName, boxName, boxHandle, boxIndex, ver, sessionHandle, pubPipe, buffer⟩ := f
  rw [resume] at h
  cases place with
  | tfsOpen => exact absurd (Or.inl rfl) hplace
  | tfsReopen => exact absurd (Or.inr (Or.inl rfl)) hplace
  | tfsClose => exact absurd (Or.inr (Or.inr rfl)) hplace
  | openPipe =>
    cases ver with
    | true =>
      obtain rfl := Outcome.ok.inj h
      rfl
    | false =>
      obtain rfl := Outcome.ok.inj h
      rfl
  | findBox | nPublishers | findAgain =>
    dsimp only at h
    split at h <;> (obtain rfl := Outcome.ok.inj h; rfl)
  | readCode =>
    dsimp only at h
    split at h
    · obtain rfl := Outcome.ok.inj h
      rfl
    · split at h <;> (obtain rfl := Outcome.ok.inj h; rfl)
  | readMessage =>
    dsimp only at h
    split at h
    · obtain rfl := Outcome.ok.inj h
      rfl
    · cases h
  | _ =>
    obtain rfl := Outcome.ok.inj h
    rfl

theorem PublisherFrame.effect {f f' : PublisherFrame} (hs : b.fs.Inv)
    (hholds : (Program.publisher f).HoldsOpen b) (hcall : f.call = some call)
    (hperform : perform call env b = .ok (a, b')) (hresume : f.resume a = .ok f') :
    (Program.publisher f).Effect b b' (.publisher f') := by
  by_cases hplace : f.place.UsesHandle
  · obtain ⟨place, pipeName, boxName, boxHandle, boxIndex, ver, sessionHandle, pubPipe, buffer⟩ := f
    rcases hplace with rfl | rfl | rfl
    · -- The handle of `publisher_function` is never closed.
      cases hcall
      obtain rfl := Outcome.ok.inj hresume
      refine .of_leak hs hperform rfl rfl ((perform_tfsOpen_ne_neg hs rfl hperform).trans ?_)
      exact ⟨fun h => ⟨Or.inl rfl, h⟩, fun h => h.2⟩
    · cases hcall
      obtain rfl := Outcome.ok.inj hresume
      cases ver with
      | true =>
        -- The session closes this handle when it ends.
        refine .of_open hs hperform rfl rfl ?_
        rintro ⟨h | ⟨-, h⟩, -⟩ <;> cases h
      | false =>
        -- A publisher that is turned away returns without closing it.
        refine .of_leak hs hperform rfl rfl ((perform_tfsOpen_ne_neg hs rfl hperform).trans ?_)
        exact ⟨fun h => ⟨Or.inr ⟨rfl, rfl⟩, h⟩, fun h => h.2⟩
    · cases hcall
      obtain rfl := Outcome.ok.inj hresume
      refine .of_close hs hholds hperform rfl rfl ?_
      rintro ⟨h | ⟨h, -⟩, -⟩ <;> cases h
  · refine .same (perform_openFiles hs hperform (f.keepsOpenFiles hcall hplace))
      (held_resume hresume hplace) ?_
    rintro ⟨h | ⟨h, -⟩, -⟩
    · exact hplace (Or.inl h)
    · exact hplace (Or.inr (Or.inl h))

/-- The places of a subscriber's handler where it opens or closes its file, or gives up. -/
def SubscriberPlace.UsesHandle (place : SubscriberPlace) : Prop :=
  place = .tfsOpen ∨ place = .findBox ∨ place = .tfsClose

theorem SubscriberFrame.keepsOpenFiles {f : SubscriberFrame} (h : f.call = some call)
    (hplace : ¬ f.place.UsesHandle) : call.KeepsOpenFiles := by
  obtain ⟨place, pipeName, boxName, boxIndex, num, boxHandle, subscriberPipe, charBuffer, buffer,
    i⟩ := f
  cases place with
  | tfsOpen => exact absurd (Or.inl rfl) hplace
  | tfsClose => exact absurd (Or.inr (Or.inr rfl)) hplace
  | returned => cases h
  | _ => cases h; trivial

/-- The loop is only started with a file. -/
theorem SubscriberFrame.held_startLoop (f : SubscriberFrame) :
    f.startLoop.held = if f.boxIndex = -1 then none else given f.boxHandle := by
  rw [startLoop]
  split
  case isTrue h =>
    rcases h with h | h
    · rw [h, given_neg, ite_self]
      rfl
    · rw [if_pos h]
      rfl
  case isFalse h =>
    rw [not_or] at h
    rw [if_neg h.2]
    rfl

theorem SubscriberFrame.held_storeChar {f f' : SubscriberFrame} (h : f.storeChar = .ok f') :
    f'.held = given f.boxHandle := by
  obtain ⟨-, ⟨-, rfl⟩ | ⟨-, rfl⟩⟩ := storeChar_cases h
  · rfl
  · rfl

theorem SubscriberFrame.held_resume {f f' : SubscriberFrame} (h : f.resume a = .ok f')
    (hplace : ¬ f.place.UsesHandle) : f'.held = f.held := by
  obtain ⟨place, pipeName, boxName, boxIndex, num, boxHandle, subscriberPipe, charBuffer, buffer,
    i⟩ := f
  rw [resume] at h
  cases place with
  | tfsOpen => exact absurd (Or.inl rfl) hplace
  | findBox => exact absurd (Or.inr (Or.inl rfl)) hplace
  | tfsClose => exact absurd (Or.inr (Or.inr rfl)) hplace
  | openPipe =>
    dsimp only at h
    split at h
    · obtain rfl := Outcome.ok.inj h
      exact held_startLoop _
    · obtain rfl := Outcome.ok.inj h
      rfl
  | closeRejected =>
    obtain rfl := Outcome.ok.inj h
    exact held_startLoop _
  | tfsRead =>
    dsimp only at h
    split at h
    · obtain rfl := Outcome.ok.inj h
      rfl
    · have hheld := held_storeChar h
      exact hheld
  | closeWoken => exact held_storeChar h
  | findFirst | findSecond | findAgain | lock | findWoken | writeCode | writeMessage
  | nSubscribers =>
    dsimp only at h
    split at h <;> (obtain rfl := Outcome.ok.inj h; rfl)
  | _ =>
    obtain rfl := Outcome.ok.inj h
    rfl

theorem SubscriberFrame.effect {f f' : SubscriberFrame} (hs : b.fs.Inv)
    (hholds : (Program.subscriber f).HoldsOpen b) (hcall : f.call = some call)
    (hperform : perform call env b = .ok (a, b')) (hresume : f.resume a = .ok f') :
    (Program.subscriber f).Effect b b' (.subscriber f') := by
  by_cases hplace : f.place.UsesHandle
  · obtain ⟨place, pipeName, boxName, boxIndex, num, boxHandle, subscriberPipe, charBuffer, buffer,
      i⟩ := f
    rcases hplace with rfl | rfl | rfl
    · cases hcall
      obtain rfl := Outcome.ok.inj hresume
      exact .of_open hs hperform rfl rfl fun hleak => nomatch hleak.1
    · -- Whether the box has gone decides what becomes of the handle.
      cases hcall
      obtain ⟨rfl, rfl⟩ := Prod.mk.inj (Outcome.ok.inj hperform)
      obtain rfl := Outcome.ok.inj hresume
      by_cases hbox : b.table.Holds boxName
      · have hfind := BoxTable.findBox_ne_neg.mpr hbox
        exact .same rfl (if_neg hfind) fun hleak => hleak.2.2 hbox
      · have hfind := not_not.mp (BoxTable.findBox_ne_neg.not.mpr hbox)
        by_cases hne : boxHandle = -1
        · exact .same rfl ((if_pos hfind).trans (if_pos hne).symm) fun hleak => hleak.2.1 hne
        · exact .forgot boxHandle rfl (if_neg hne) (if_pos hfind) ⟨rfl, hne, hbox⟩
    · cases hcall
      obtain rfl := Outcome.ok.inj hresume
      exact .of_close hs hholds hperform rfl rfl fun hleak => nomatch hleak.1
  · refine .same (perform_openFiles hs hperform (f.keepsOpenFiles hcall hplace))
      (held_resume hresume hplace) fun hleak => hplace (Or.inr (Or.inl hleak.1))

/-- **What a step of a handler does.** -/
theorem Program.effect (hs : b.fs.Inv) (hholds : p.HoldsOpen b) (hcall : p.call = some call)
    (hperform : perform call env b = .ok (a, b')) (hresume : p.resume a = .ok p') :
    p.Effect b b' p' := by
  cases p with
  | publisher f =>
    obtain ⟨f', hf, hresume⟩ := Outcome.bind_eq_ok.mp hresume
    obtain rfl := Outcome.ok.inj hresume
    exact PublisherFrame.effect hs hholds hcall hperform hf
  | subscriber f =>
    obtain ⟨f', hf, hresume⟩ := Outcome.bind_eq_ok.mp hresume
    obtain rfl := Outcome.ok.inj hresume
    exact SubscriberFrame.effect hs hholds hcall hperform hf
  | create f =>
    obtain rfl := Outcome.ok.inj hresume
    exact CreateFrame.effect hs hholds hcall hperform
  | remove f =>
    obtain rfl := Outcome.ok.inj hresume
    exact .same (perform_openFiles hs hperform (RemoveFrame.keepsOpenFiles hcall)) rfl not_false
  | list f =>
    obtain rfl := Outcome.ok.inj hresume
    exact .same (perform_openFiles hs hperform (ListFrame.keepsOpenFiles hcall)) rfl not_false

/-- A handler that has just been started holds nothing. -/
theorem Program.held_start (client : Client) (locals : Locals) :
    (start client locals).held = none := by
  cases client <;> rfl

/-- Nor does one that has returned. -/
theorem Program.held_of_returned (h : p.call = none) : p.held = none := by
  cases p with
  | publisher f =>
    obtain ⟨place, pipeName, boxName, boxHandle, boxIndex, ver, sessionHandle, pubPipe, buffer⟩ := f
    cases place <;> first | rfl | cases h
  | subscriber f =>
    obtain ⟨place, pipeName, boxName, boxIndex, num, boxHandle, subscriberPipe, charBuffer, buffer,
      i⟩ := f
    cases place <;> first | rfl | cases h
  | create f =>
    obtain ⟨place, pipeName, boxName, box, boxHandle⟩ := f
    cases place <;> first | rfl | cases h
  | remove f => rfl
  | list f => rfl

/-- A step that leaks is a call. -/
theorem Program.not_leaks_of_returned (h : p.call = none) : ¬ p.Leaks b := by
  cases p with
  | publisher f =>
    obtain ⟨place, pipeName, boxName, boxHandle, boxIndex, ver, sessionHandle, pubPipe, buffer⟩ := f
    rintro ⟨rfl | ⟨rfl, -⟩, -⟩ <;> cases h
  | subscriber f =>
    obtain ⟨place, pipeName, boxName, boxIndex, num, boxHandle, subscriberPipe, charBuffer, buffer,
      i⟩ := f
    rintro ⟨rfl, -⟩
    cases h
  | create f => exact not_false
  | remove f => exact not_false
  | list f => exact not_false

/-- In numbers. -/
theorem Program.Effect.card (h : p.Effect b b' p') :
    ((b'.fs.openFiles.card : ℤ) - b.fs.openFiles.card =
        (p'.held.elim 0 fun _ => 1) - p.held.elim 0 fun _ => 1) ∧ ¬ p.Leaks b ∨
      ((b'.fs.openFiles.card : ℤ) - b.fs.openFiles.card =
        (p'.held.elim 0 fun _ => 1) - (p.held.elim 0 fun _ => 1) + 1) ∧ p.Leaks b := by
  cases h with
  | same hopen hheld hleak =>
    refine Or.inl ⟨?_, hleak⟩
    rw [hopen, hheld, sub_self, sub_self]
  | took f hf hopen hheld hheld' hleak =>
    refine Or.inl ⟨?_, hleak⟩
    rw [hopen, Finset.card_insert_of_notMem hf, hheld, hheld']
    simp
  | gave f hf hopen hheld hheld' hleak =>
    refine Or.inl ⟨?_, hleak⟩
    rw [hopen, ← Finset.card_erase_add_one hf, hheld, hheld']
    simp
  | left f hf hopen hheld hheld' hleak =>
    refine Or.inr ⟨?_, hleak⟩
    rw [hopen, Finset.card_insert_of_notMem hf, hheld, hheld']
    simp
  | forgot boxHandle hopen hheld hheld' hleak =>
    refine Or.inr ⟨?_, hleak⟩
    rw [hopen, hheld, hheld']
    simp

end Calls

/-! ### All handlers together -/

namespace BrokerState

variable {s s' : BrokerState} {t : BrokerTurn} {k : Nat} {p p' : Program} {call : Call}
  {a env : Answer} {b b' b₀ : Broker} {r : Unit} {turns : List BrokerTurn} {rs : List Unit}

/-- Some handler holds the open file. -/
def HeldBy (f : Nat) (s : BrokerState) : Prop :=
  ∃ k p, s.handlers k = some p ∧ p.held = some (f : Int)

/-- What the handlers hold is open, and no two of them hold the same. -/
structure Holding (s : BrokerState) : Prop where
  fs : s.broker.fs.Inv
  holdsOpen : ∀ k p, s.handlers k = some p → p.HoldsOpen s.broker
  own : ∀ k k' p p' boxHandle, s.handlers k = some p → s.handlers k' = some p' →
    p.held = some boxHandle → p'.held = some boxHandle → k = k'

theorem holding_start (hb : b₀.fs.Inv) : (start b₀).Holding :=
  ⟨hb, fun _ _ h => (by cases h), fun _ _ _ _ _ h => (by cases h)⟩

/-- A handler is put in place that holds what the others do not. -/
theorem Holding.setHandler (h : s.Holding) (hfs : b.fs.Inv) (hp : p.HoldsOpen b)
    (hothers : ∀ k' p' boxHandle, k' ≠ k → s.handlers k' = some p' → p'.held = some boxHandle →
      (∃ f : Nat, boxHandle = f ∧ f ∈ b.fs.openFiles) ∧ p.held ≠ some boxHandle) :
    ({ s with broker := b }.setHandler k p).Holding := by
  refine ⟨hfs, fun k' p' hk' => ?_, fun k₁ k₂ p₁ p₂ boxHandle h₁ h₂ hp₁ hp₂ => ?_⟩
  · rcases handlers_setHandler hk' with ⟨-, rfl⟩ | ⟨hne, hold⟩
    · exact hp
    · exact fun boxHandle hheld => (hothers k' p' boxHandle hne hold hheld).1
  · rcases handlers_setHandler h₁ with ⟨rfl, rfl⟩ | ⟨hne₁, hold₁⟩
    · rcases handlers_setHandler h₂ with ⟨rfl, -⟩ | ⟨hne₂, hold₂⟩
      · rfl
      · exact absurd hp₁ (hothers k₂ p₂ boxHandle hne₂ hold₂ hp₂).2
    · rcases handlers_setHandler h₂ with ⟨rfl, rfl⟩ | ⟨-, hold₂⟩
      · exact absurd hp₂ (hothers k₁ p₁ boxHandle hne₁ hold₁ hp₁).2
      · exact h.own k₁ k₂ p₁ p₂ boxHandle hold₁ hold₂ hp₁ hp₂

theorem Holding.effect (h : s.Holding) (hk : s.handlers k = some p) (hfs : b.fs.Inv)
    (heffect : p.Effect s.broker b p') : ({ s with broker := b }.setHandler k p').Holding := by
  have hothers : ∀ k' p₁ boxHandle, k' ≠ k → s.handlers k' = some p₁ → p₁.held = some boxHandle →
      (∃ f : Nat, boxHandle = f ∧ f ∈ s.broker.fs.openFiles) ∧ p.held ≠ some boxHandle :=
    fun k' p₁ boxHandle hne hk' hheld => ⟨h.holdsOpen k' p₁ hk' boxHandle hheld,
      fun hp => hne (h.own k' k p₁ p boxHandle hk' hk hheld hp)⟩
  cases heffect with
  | same hopen hheld =>
    refine h.setHandler hfs (fun boxHandle hp' => ?_) ?_
    · rw [hopen]
      exact h.holdsOpen k p hk boxHandle (hheld ▸ hp')
    · rw [hopen, hheld]
      exact hothers
  | took f hf hopen _ hheld' =>
    -- A new handle is held by nobody else.
    refine h.setHandler hfs (fun boxHandle hp' => ?_) fun k' p₁ boxHandle hne hk' hheld => ?_
    · rw [hheld'] at hp'
      exact ⟨f, (Option.some.inj hp').symm, hopen ▸ Finset.mem_insert_self _ _⟩
    · obtain ⟨f', rfl, hf'⟩ := (hothers k' p₁ boxHandle hne hk' hheld).1
      refine ⟨⟨f', rfl, hopen ▸ Finset.mem_insert_of_mem hf'⟩, fun hp' => hf ?_⟩
      obtain rfl : f = f' := Int.natCast_inj.mp (Option.some.inj (hheld'.symm.trans hp'))
      exact hf'
  | gave f hf hopen hheld hheld' =>
    -- The others hold other handles, which stay open.
    refine h.setHandler hfs (fun boxHandle hp' => ?_) fun k' p₁ boxHandle hne hk' hheld₁ => ?_
    · rw [hheld'] at hp'
      cases hp'
    · obtain ⟨⟨f', rfl, hf'⟩, hdiff⟩ := hothers k' p₁ boxHandle hne hk' hheld₁
      refine ⟨⟨f', rfl, hopen ▸ Finset.mem_erase.mpr ⟨?_, hf'⟩⟩, by rw [hheld']; nofun⟩
      rintro rfl
      exact hdiff hheld
  | left f hf hopen _ hheld' =>
    refine h.setHandler hfs (fun boxHandle hp' => ?_) fun k' p₁ boxHandle hne hk' hheld => ?_
    · rw [hheld'] at hp'
      cases hp'
    · obtain ⟨f', rfl, hf'⟩ := (hothers k' p₁ boxHandle hne hk' hheld).1
      exact ⟨⟨f', rfl, hopen ▸ Finset.mem_insert_of_mem hf'⟩, by rw [hheld']; nofun⟩
  | forgot boxHandle hopen _ hheld' =>
    refine h.setHandler hfs (fun boxHandle hp' => ?_) fun k' p₁ boxHandle hne hk' hheld => ?_
    · rw [hheld'] at hp'
      cases hp'
    · rw [hopen]
      exact ⟨(hothers k' p₁ boxHandle hne hk' hheld).1, by rw [hheld']; nofun⟩

/-- What a handler holds, in numbers. -/
def heldCount (k : Nat) (s : BrokerState) : ℤ :=
  match s.handlers k with
  | some p => p.held.elim 0 fun _ => 1
  | none => 0

theorem heldCount_of_handlers (h : s'.handlers k = s.handlers k) :
    heldCount k s' = heldCount k s := by
  rw [heldCount, heldCount, h]

theorem heldCount_eq (h : s.handlers k = some p) : heldCount k s = p.held.elim 0 fun _ => 1 := by
  rw [heldCount, h]

/-- The handlers other than the one that makes the step. -/
theorem heldCount_step_ne (hstep : step t s = .ok (r, s')) (hk : t.handler ≠ k) :
    heldCount k s' = heldCount k s :=
  heldCount_of_handlers (handlers_step_ne hstep (Ne.symm hk))

/-- **A step takes as many entries as its handler then holds more**, and one more when it
leaks. -/
theorem Holding.step (h : s.Holding) (hstep : step t s = .ok (r, s')) : s'.Holding ∧
    (((s'.broker.fs.openFiles.card : ℤ) - s.broker.fs.openFiles.card =
        heldCount t.handler s' - heldCount t.handler s) ∧ ¬ t.Leaks s ∨
      ((s'.broker.fs.openFiles.card : ℤ) - s.broker.fs.openFiles.card =
        heldCount t.handler s' - heldCount t.handler s + 1) ∧ t.Leaks s) := by
  rcases step_cases hstep with ⟨rfl, hreturned⟩ | ⟨k, client, locals, rfl, hk, rfl⟩ |
    ⟨k, env, p, call, a, b, p', rfl, hk, hcall, hperform, hresume, rfl⟩
  · refine ⟨h, Or.inl ⟨by rw [sub_self, sub_self], fun hleaks => ?_⟩⟩
    -- Nothing happens.
    cases t with
    | start => exact hleaks
    | step k env =>
      obtain ⟨p, hp, hleak⟩ := hleaks
      exact Program.not_leaks_of_returned (hreturned k env p rfl hp) hleak
  · refine ⟨h.setHandler (b := s.broker) h.fs (fun boxHandle hp => ?_) ?_, Or.inl ⟨?_, not_false⟩⟩
    -- The handler that is started holds nothing yet.
    · rw [Program.held_start] at hp
      cases hp
    · refine fun k' p' boxHandle _ hk' hheld => ⟨h.holdsOpen k' p' hk' boxHandle hheld, ?_⟩
      rw [Program.held_start]
      nofun
    · have hafter : heldCount k (s.setHandler k (.start client locals)) = 0 := by
        rw [heldCount_eq handlers_setHandler_self, Program.held_start]
        rfl
      have hbefore : heldCount k s = 0 := by rw [heldCount, hk]
      show (s.broker.fs.openFiles.card : ℤ) - s.broker.fs.openFiles.card =
        heldCount k (s.setHandler k (.start client locals)) - heldCount k s
      omega
  · have heffect := Program.effect h.fs (h.holdsOpen k p hk) hcall hperform hresume
    have hleaks : BrokerTurn.Leaks (.step k env) s ↔ p.Leaks s.broker := by
      constructor
      · rintro ⟨q, hq, hleak⟩
        obtain rfl := Option.some.inj (hk.symm.trans hq)
        exact hleak
      · exact fun hleak => ⟨p, hk, hleak⟩
    refine ⟨h.effect hk (fsInv_step h.fs hstep) heffect, ?_⟩
    rw [hleaks, BrokerTurn.handler, heldCount_eq handlers_setHandler_self, heldCount_eq hk]
    exact heffect.card

/-- Handler `k` does not leak. -/
def NoLeakOf (k : Nat) (t : BrokerTurn) (s : BrokerState) : Prop := t.handler = k → ¬ t.Leaks s

/-- **What a handler has done over a run**: it has taken what it holds more, and something
besides exactly when a step of it has leaked. -/
theorem Holding.ownEffect (h : s.Holding)
    (hrun : Outcome.runList BrokerState.step turns s = .ok (rs, s')) :
    heldCount k s' - heldCount k s ≤ Mbroker.ownEffect k turns s ∧
      (Mbroker.ownEffect k turns s = heldCount k s' - heldCount k s ↔
        Outcome.Meets (NoLeakOf k) BrokerState.step turns s) := by
  induction turns generalizing s rs with
  | nil =>
    obtain ⟨-, rfl⟩ := Prod.mk.inj (Outcome.ok.inj hrun)
    rw [Mbroker.ownEffect, sub_self]
    exact ⟨le_rfl, iff_of_true rfl trivial⟩
  | cons t turns ih =>
    obtain ⟨r, s₁, rs', hstep, hrun, -⟩ := Outcome.runList_cons_eq_ok.mp hrun
    obtain ⟨h₁, heffect⟩ := h.step hstep
    obtain ⟨hle, hiff⟩ := ih h₁ hrun
    rw [Mbroker.ownEffect, Outcome.Meets, hstep]
    dsimp only
    -- Only the steps of `k` count, and each of them adds what it takes.
    rw [← hiff]
    by_cases hk : t.handler = k
    · subst hk
      rw [if_pos rfl]
      rcases heffect with ⟨heq, hno⟩ | ⟨heq, hleak⟩
      · refine ⟨by omega, fun heq' => ⟨fun _ => hno, by omega⟩, fun hmeets => by omega⟩
      · refine ⟨by omega, fun heq' => absurd heq' (by omega), fun hmeets => ?_⟩
        exact absurd hleak (hmeets.1 rfl)
    · have hsame := heldCount_step_ne hstep hk
      rw [if_neg hk, zero_add]
      refine ⟨by omega, fun heq' => ⟨fun h => absurd h hk, by omega⟩, fun hmeets => by omega⟩

/-- The open files are those of `T` and what the handlers hold. -/
structure Balanced (T : Finset Nat) (s : BrokerState) : Prop where
  mem : ∀ f, f ∈ s.broker.fs.openFiles ↔ f ∈ T ∨ s.HeldBy f
  apart : ∀ f ∈ T, ¬ s.HeldBy f

/-- Another handler than `k` holds the open file. -/
def HeldByOther (k f : Nat) (s : BrokerState) : Prop :=
  ∃ k' p, k' ≠ k ∧ s.handlers k' = some p ∧ p.held = some (f : Int)

theorem heldBy_iff {f : Nat} (hk : s.handlers k = some p) :
    s.HeldBy f ↔ p.held = some (f : Int) ∨ s.HeldByOther k f := by
  constructor
  · rintro ⟨k', q, hk', hq⟩
    by_cases hne : k' = k
    · subst hne
      obtain rfl := Option.some.inj (hk.symm.trans hk')
      exact Or.inl hq
    · exact Or.inr ⟨k', q, hne, hk', hq⟩
  · rintro (hp | ⟨k', q, -, hk', hq⟩)
    · exact ⟨k, p, hk, hp⟩
    · exact ⟨k', q, hk', hq⟩

theorem heldBy_setHandler {f : Nat} : ({ s with broker := b }.setHandler k p').HeldBy f ↔
    p'.held = some (f : Int) ∨ s.HeldByOther k f := by
  rw [heldBy_iff handlers_setHandler_self, HeldByOther, HeldByOther]
  refine or_congr Iff.rfl (exists_congr fun k' => exists_congr fun q => ?_)
  refine and_congr_right fun hne => ?_
  rw [handlers_setHandler_ne hne]

theorem balanced_start : (start b₀).Balanced b₀.fs.openFiles := by
  have hno : ∀ f, ¬ (start b₀).HeldBy f := by
    rintro f ⟨k, p, hk, -⟩
    cases hk
  exact ⟨fun f => (or_iff_left (hno f)).symm, fun f _ => hno f⟩

variable {T : Finset Nat}

theorem Balanced.effect (h : s.Balanced T) (hs : s.Holding) (hk : s.handlers k = some p)
    (heffect : p.Effect s.broker b p') (hno : ¬ p.Leaks s.broker) :
    ({ s with broker := b }.setHandler k p').Balanced T := by
  cases heffect with
  | same hopen hheld =>
    have hsame : ∀ f, ({ s with broker := b }.setHandler k p').HeldBy f ↔ s.HeldBy f := by
      intro f
      rw [heldBy_setHandler, hheld, heldBy_iff hk]
    refine ⟨fun f => ?_, fun f hf => (hsame f).not.mpr (h.apart f hf)⟩
    rw [hsame, ← h.mem]
    show f ∈ b.fs.openFiles ↔ _
    rw [hopen]
  | took g hg hopen hheld hheld' =>
    have hnew : ∀ f, ({ s with broker := b }.setHandler k p').HeldBy f ↔ f = g ∨ s.HeldBy f := by
      intro f
      rw [heldBy_setHandler, hheld', heldBy_iff hk, hheld]
      simp [eq_comm]
    refine ⟨fun f => ?_, fun f hf hheld₁ => ?_⟩
    · rw [hnew, or_left_comm, ← h.mem]
      show f ∈ b.fs.openFiles ↔ _
      rw [hopen, Finset.mem_insert]
    · rcases (hnew f).mp hheld₁ with rfl | hheld₁
      · exact hg ((h.mem f).mpr (Or.inl hf))
      · exact h.apart f hf hheld₁
  | gave g hg hopen hheld hheld' =>
    have hnew : ∀ f, ({ s with broker := b }.setHandler k p').HeldBy f ↔ s.HeldBy f ∧ f ≠ g := by
      intro f
      rw [heldBy_setHandler, hheld', heldBy_iff hk, hheld]
      constructor
      · rintro (heq | hother)
        · cases heq
        · refine ⟨Or.inr hother, ?_⟩
          rintro rfl
          obtain ⟨k', q, hne, hk', hq⟩ := hother
          exact hne (hs.own k' k q p _ hk' hk hq hheld)
      · rintro ⟨heq | hother, hne⟩
        · exact absurd (Int.natCast_inj.mp (Option.some.inj heq)).symm hne
        · exact Or.inr hother
    -- The handle is not one of `T`: those are held by nobody.
    have hgT : g ∉ T := fun hgT => h.apart g hgT ⟨k, p, hk, hheld⟩
    refine ⟨fun f => ?_, fun f hf hheld₁ => h.apart f hf ((hnew f).mp hheld₁).1⟩
    rw [hnew]
    show f ∈ b.fs.openFiles ↔ _
    rw [hopen, Finset.mem_erase, h.mem]
    constructor
    · rintro ⟨hne, hf | hf⟩
      · exact Or.inl hf
      · exact Or.inr ⟨hf, hne⟩
    · rintro (hf | ⟨hf, hne⟩)
      · exact ⟨fun heq => hgT (heq ▸ hf), Or.inl hf⟩
      · exact ⟨hne, Or.inr hf⟩
  | left _ _ _ _ _ hleak => exact absurd hleak hno
  | forgot _ _ _ _ hleak => exact absurd hleak hno

theorem Balanced.step (h : s.Balanced T) (hs : s.Holding) (hno : ¬ t.Leaks s)
    (hstep : BrokerState.step t s = .ok (r, s')) : s'.Balanced T := by
  rcases step_cases hstep with ⟨rfl, -⟩ | ⟨k, client, locals, rfl, hk, rfl⟩ |
    ⟨k, env, p, call, a, b, p', rfl, hk, hcall, hperform, hresume, rfl⟩
  · exact h
  · have hsame : ∀ f, (s.setHandler k (.start client locals)).HeldBy f ↔ s.HeldBy f := by
      intro f
      refine (heldBy_setHandler (b := s.broker)).trans ?_
      rw [Program.held_start]
      constructor
      · rintro (heq | ⟨k', q, -, hk', hq⟩)
        · cases heq
        · exact ⟨k', q, hk', hq⟩
      · rintro ⟨k', q, hk', hq⟩
        refine Or.inr ⟨k', q, ?_, hk', hq⟩
        rintro rfl
        rw [hk] at hk'
        cases hk'
    exact ⟨fun f => (h.mem f).trans (or_congr Iff.rfl (hsame f).symm),
      fun f hf => (hsame f).not.mpr (h.apart f hf)⟩
  · exact h.effect hs hk (Program.effect hs.fs (hs.holdsOpen k p hk) hcall hperform hresume)
      fun hleak => hno ⟨p, hk, hleak⟩

end BrokerState

open BrokerState in
/-- **A handler that has returned has left the number of open files as it was exactly
when it has not leaked**; and when none does, the table of open files is back where
it was once they have all returned. -/
theorem ownEffect_eq_zero_iff {b₀ : Broker} {turns : List BrokerTurn} {rs : List Unit}
    {s : BrokerState} (hb : b₀.fs.Inv)
    (hrun : Outcome.runList step turns (start b₀) = .ok (rs, s)) :
    (∀ k p, s.handlers k = some p → p.call = none →
      (ownEffect k turns (start b₀) = 0 ↔ Outcome.Meets (NoLeakOf k) step turns (start b₀))) ∧
    (Outcome.Meets (fun t s => ¬ t.Leaks s) step turns (start b₀) →
      (∀ k p, s.handlers k = some p → p.call = none) →
      s.broker.fs.openFiles = b₀.fs.openFiles) := by
  refine ⟨fun k p hk hreturned => ?_, fun hmeets hreturned => ?_⟩
  · have hafter : heldCount k s = 0 := by
      rw [heldCount_eq hk, Program.held_of_returned hreturned]
      rfl
    have hbefore : heldCount k (start b₀) = 0 := rfl
    obtain ⟨-, hiff⟩ := (holding_start hb).ownEffect (k := k) hrun
    rw [hafter, hbefore, sub_zero] at hiff
    exact hiff
  · have hinv : ∀ (t : BrokerTurn) (s : BrokerState) (r : Unit) (s' : BrokerState),
        s.Holding ∧ s.Balanced b₀.fs.openFiles → ¬ t.Leaks s → step t s = .ok (r, s') →
        s'.Holding ∧ s'.Balanced b₀.fs.openFiles :=
      fun t s r s' hs hno hstep => ⟨(hs.1.step hstep).1, hs.2.step hs.1 hno hstep⟩
    obtain ⟨-, hbalanced⟩ := Outcome.runList_invariant_of_reaches hinv
      (fun t s' hreach => hmeets.reaches hreach) ⟨holding_start hb, balanced_start⟩ hrun
    ext f
    refine (hbalanced.mem f).trans (or_iff_left ?_)
    rintro ⟨k, p, hk, hheld⟩
    rw [Program.held_of_returned (hreturned k p hk)] at hheld
    cases hheld

/-- Box `a` gets a subscriber, and is removed before the subscriber has read anything. -/
def removedWhileServed : List BrokerTurn :=
  createA ++ .start 1 (.subscriber pipeP nameA) ⟨.zero, 0, []⟩ :: List.replicate 7 (.step 1 {}) ++
    .start 2 (.remove pipeQ nameA) ⟨.zero, 0, []⟩ :: List.replicate 8 (.step 2 { ret := 1 }) ++
    List.replicate 6 (.step 1 {})

open BrokerState in
theorem noLeak_removedWhileServed : ∃ rs s,
    Outcome.runList step removedWhileServed (start ⟨initial, .empty⟩) = .ok (rs, s) ∧
      (∃ p, s.handlers 1 = some p ∧ p.call = none) ∧
      Outcome.Meets (NoLeakOf 1) step removedWhileServed (start ⟨initial, .empty⟩) := by
  have hresult : (Outcome.runList step removedWhileServed (start ⟨initial, .empty⟩)).map (fun p =>
      (p.2.handlers 1).any fun q => q.call.isNone) = .ok true := by
    decide +kernel
  obtain ⟨⟨rs, s⟩, hrun, hreturned⟩ := Outcome.map_eq_ok.mp hresult
  obtain ⟨p, hk, hnone⟩ := (Option.any_eq_true _ _).mp hreturned
  have hcall : p.call = none := Option.isNone_iff_eq_none.mp hnone
  have hinv : initial.Inv := (started_initial.fresh inRange_tfsDefaultParams).inv
  refine ⟨rs, s, hrun, ⟨p, hk, hcall⟩, ?_⟩
  exact ((ownEffect_eq_zero_iff hinv hrun).1 1 p hk hcall).mp (by decide +kernel)

/-- A publisher of box `a` comes and goes. -/
def onePublisher : List BrokerTurn :=
  createA ++ .start 1 (.publisher pipeP nameA) ⟨.zero, 0, []⟩ :: List.replicate 12 (.step 1 {})

open BrokerState in
/-- Its handler has returned, and has left a file open. -/
theorem leak_onePublisher : ∃ rs s,
    Outcome.runList step onePublisher (start ⟨initial, .empty⟩) = .ok (rs, s) ∧
      (∃ p, s.handlers 1 = some p ∧ p.call = none) ∧
      ownEffect 1 onePublisher (start ⟨initial, .empty⟩) = 1 := by
  have hresult : (Outcome.runList step onePublisher (start ⟨initial, .empty⟩)).map (fun p =>
      (p.2.handlers 1).any fun q => q.call.isNone) = .ok true := by
    decide +kernel
  obtain ⟨⟨rs, s⟩, hrun, hreturned⟩ := Outcome.map_eq_ok.mp hresult
  obtain ⟨p, hk, hnone⟩ := (Option.any_eq_true _ _).mp hreturned
  exact ⟨rs, s, hrun, ⟨p, hk, Option.isNone_iff_eq_none.mp hnone⟩, by decide +kernel⟩

end Mbroker
