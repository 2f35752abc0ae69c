/-
A removal and the subscribers that wait.

`remove_box` wakes the sessions that wait on the condition variable of its box and then
deletes the box, without the mutex of the box.  Here are its calls and those of any
number of sessions of the box, with the mutexes and who sleeps on which condition
variable; a session that sleeps may wake up by itself.

* `RemovalState.sync` — when a lock or a wait returns;
* `RemovalState.Inv` — the sessions sleep where the removal is going to broadcast;
* **`noneLeft_of_permitted`** — as long as no session goes to sleep after the broadcast,
  none sleeps once the removal has been answered;
* `not_noneLeft_sleptLate` — the session that does so stays asleep.
-/
import Mbroker.BrokerRuns

namespace Mbroker

open Tfs

/-- Whether a session sleeps in its `pthread_cond_wait`; once woken it still needs the
mutex. -/
inductive Sleep where
  | awake
  | asleep
  | woken
deriving DecidableEq

/-- The removal of a box, and the sessions of its subscribers. -/
structure RemovalState (ι : Type) where
  broker : Broker
  remover : RemoveFrame
  sessions : ι → SubscriberFrame
  sleep : ι → Sleep
  locked : Int → Bool

inductive RemovalTurn (ι : Type) where
  | remover (env : Answer)
  | session (k : ι) (env : Answer)
  | wakeUp (k : ι)

namespace RemovalState

variable {ι : Type}

/-- Everybody is at the start. -/
def start (b : Broker) (boxName managerPipe : CString) (pipes : ι → CString) (locals : ι → Locals) :
    RemovalState ι where
  broker := b
  remover := ⟨.tfsUnlink, managerPipe, boxName, 0⟩
  sessions := fun k =>
    ⟨.findFirst, pipes k, boxName, 0, false, 0, 0, (locals k).charBuffer, (locals k).buffer, 0⟩
  sleep := fun _ => .awake
  locked := fun _ => false

def setLocked (i : Int) (l : Bool) (s : RemovalState ι) : RemovalState ι :=
  { s with locked := Function.update s.locked i l }

/-- `pthread_cond_broadcast`. -/
def wakeAll (call : Call) (s : RemovalState ι) : RemovalState ι :=
  match call with
  | .condBroadcast i =>
    { s with sleep := fun k =>
      if s.sleep k = .asleep ∧ (s.sessions k).boxIndex = i then .woken else s.sleep k }
  | _ => s

variable [DecidableEq ι]

def setSleep (k : ι) (sl : Sleep) (s : RemovalState ι) : RemovalState ι :=
  { s with sleep := Function.update s.sleep k sl }

/-- What a call of session `k` does to the mutexes and to its sleep, and whether it
returns. -/
def sync (k : ι) (env : Answer) (call : Call) (s : RemovalState ι) : Bool × RemovalState ι :=
  match call with
  | .mutexLock i =>
    if env.ret ≠ 0 then (true, s)
    else if s.locked i then (false, s)
    else (true, s.setLocked i true)
  | .mutexUnlock i => (true, s.setLocked i false)
  | .condWait i =>
    match s.sleep k with
    | .awake => (false, (s.setLocked i false).setSleep k .asleep)
    | .asleep => (false, s)
    | .woken => if s.locked i then (false, s) else (true, (s.setLocked i true).setSleep k .awake)
  | _ => (true, s)

/-- A turn. -/
def step : RemovalTurn ι → RemovalState ι → Outcome (Unit × RemovalState ι)
  | .remover env, s =>
    match s.remover.call with
    | none => .ok ((), s)
    | some call => do
      let (a, b) ← perform call env s.broker
      return ((), { s.wakeAll call with broker := b, remover := s.remover.resume a })
  | .session k env, s =>
    match (s.sessions k).call with
    | none => .ok ((), s)
    | some call =>
      let (returns, s') := s.sync k env call
      if returns then do
        let (a, b) ← perform call env s.broker
        let f ← (s.sessions k).resume a
        return ((), { s' with broker := b, sessions := Function.update s.sessions k f })
      else .ok ((), s')
  | .wakeUp k, s => .ok ((), if s.sleep k = .asleep then s.setSleep k .woken else s)

end RemovalState

/-- `delete_box` has run. -/
def RemoveFrame.Deleted (f : RemoveFrame) : Prop := ∃ r, f.place = .reply r ∧ r.returnCode = 0

/-- So has the broadcast. -/
def RemoveFrame.Broadcasted (f : RemoveFrame) : Prop := f.place = .deleteBox ∨ f.Deleted

/-- The manager has been told of the success. -/
def RemoveFrame.Replied (f : RemoveFrame) : Prop :=
  ∃ r, f.place = .reply r ∧ r.returnCode = 0 ∧ (r.place = .dequeue ∨ r.place = .returned)

namespace RemovalState

variable {ι : Type}

/-- Once the removal has been answered, no session of the box sleeps. -/
def NoneLeft (s : RemovalState ι) : Prop := s.remover.Replied → ∀ k, s.sleep k ≠ .asleep

/-- A session that goes to sleep does so before the broadcast. -/
def Permitted : RemovalTurn ι → RemovalState ι → Prop
  | .session k _, s => (s.sessions k).place = .wait → s.sleep k = .awake → ¬ s.remover.Broadcasted
  | _, _ => True

end RemovalState

/-! ### The programs -/

section Frames

variable {f f' : SubscriberFrame} {g : RemoveFrame} {a : Answer} {call : Call}

/-- Where the session uses the index of its box to wait. -/
def SubscriberFrame.AtBox (f : SubscriberFrame) : Prop :=
  f.place = .lock ∨ f.place = .tfsRead ∨ f.place = .wait

theorem SubscriberFrame.of_storeChar (h : f.storeChar = .ok f') :
    f'.boxName = f.boxName ∧ ¬ f'.AtBox := by
  obtain ⟨-, ⟨-, rfl⟩ | ⟨-, rfl⟩⟩ := storeChar_cases h
  · exact ⟨rfl, by rintro (h | h | h) <;> cases h⟩
  · exact ⟨rfl, by rintro (h | h | h) <;> cases h⟩

theorem SubscriberFrame.of_startLoop (f : SubscriberFrame) :
    f.startLoop.boxName = f.boxName ∧ ¬ f.startLoop.AtBox := by
  rw [startLoop]
  split
  · exact ⟨rfl, by rintro (h | h | h) <;> cases h⟩
  · exact ⟨rfl, by rintro (h | h | h) <;> cases h⟩

/-- **The index that a session waits with** is one that `find_box` has just given, or the
one that it has had. -/
theorem SubscriberFrame.index_resume (h : f.resume a = .ok f') : f'.boxName = f.boxName ∧
    (f'.AtBox → f.AtBox ∧ f'.boxIndex = f.boxIndex ∨
      f.call = some (.findBox f.boxName) ∧ f'.boxIndex = a.ret) := by
  obtain ⟨place, pipeName, boxName, boxIndex, num, boxHandle, subscriberPipe, charBuffer, buffer,
    i⟩ := f
  rw [resume] at h
  cases place with
  | lock =>
    dsimp only at h
    split at h
    · obtain rfl := Outcome.ok.inj h
      exact ⟨rfl, by rintro (h | h | h) <;> cases h⟩
    · obtain rfl := Outcome.ok.inj h
      exact ⟨rfl, fun _ => Or.inl ⟨Or.inl rfl, rfl⟩⟩
  | tfsRead =>
    dsimp only at h
    split at h
    · obtain rfl := Outcome.ok.inj h
      exact ⟨rfl, fun _ => Or.inl ⟨Or.inr (Or.inl rfl), rfl⟩⟩
    · obtain ⟨hname, hno⟩ := of_storeChar h
      exact ⟨hname, fun hat => absurd hat hno⟩
  | findAgain | findWoken =>
    dsimp only at h
    split at h
    · obtain rfl := Outcome.ok.inj h
      exact ⟨rfl, by rintro (h | h | h) <;> cases h⟩
    · obtain rfl := Outcome.ok.inj h
      exact ⟨rfl, fun _ => Or.inr ⟨rfl, rfl⟩⟩
  | closeWoken =>
    obtain ⟨hname, hno⟩ := of_storeChar h
    exact ⟨hname, fun hat => absurd hat hno⟩
  | openPipe =>
    dsimp only at h
    split at h
    · obtain rfl := Outcome.ok.inj h
      obtain ⟨hname, hno⟩ := of_startLoop { (⟨.openPipe, pipeName, boxName, boxIndex, num, boxHandle,
        subscriberPipe, charBuffer, buffer, i⟩ : SubscriberFrame) with subscriberPipe := a.ret }
      exact ⟨hname, fun hat => absurd hat hno⟩
    · obtain rfl := Outcome.ok.inj h
      exact ⟨rfl, by rintro (h | h | h) <;> cases h⟩
  | closeRejected =>
    obtain rfl := Outcome.ok.inj h
    obtain ⟨hname, hno⟩ := of_startLoop ⟨.closeRejected, pipeName, boxName, boxIndex, num, boxHandle,
      subscriberPipe, charBuffer, buffer, i⟩
    exact ⟨hname, fun hat => absurd hat hno⟩
  | findFirst | findSecond | writeCode | writeMessage | nSubscribers =>
    dsimp only at h
    split at h
    · obtain rfl := Outcome.ok.inj h
      exact ⟨rfl, by rintro (h | h | h) <;> cases h⟩
    · obtain rfl := Outcome.ok.inj h
      exact ⟨rfl, by rintro (h | h | h) <;> cases h⟩
  | _ =>
    obtain rfl := Outcome.ok.inj h
    exact ⟨rfl, by rintro (h | h | h) <;> cases h⟩

/-- Once answered, an answer stays what it is. -/
theorem RemoveFrame.deleted_resume : (g.resume a).Deleted ↔ g.Deleted ∨ g.place = .deleteBox := by
  obtain ⟨place, pipeName, boxName, boxIndex⟩ := g
  rw [resume]
  cases place with
  | tfsUnlink | findBox =>
    dsimp only
    split
    · exact iff_of_false (by rintro ⟨r, h, hr⟩; cases h; cases hr)
        (by rintro (⟨r, h, -⟩ | h) <;> cases h)
    · exact iff_of_false (by rintro ⟨r, h, -⟩; cases h) (by rintro (⟨r, h, -⟩ | h) <;> cases h)
  | broadcast =>
    exact iff_of_false (by rintro ⟨r, h, -⟩; cases h) (by rintro (⟨r, h, -⟩ | h) <;> cases h)
  | deleteBox => exact iff_of_true ⟨_, rfl, rfl⟩ (Or.inr rfl)
  | reply r =>
    have hcode : (r.resume a).returnCode = r.returnCode := r.returnCode_resume
    constructor
    · rintro ⟨r', h, hr'⟩
      obtain rfl := RemovePlace.reply.inj h
      exact Or.inl ⟨r, rfl, hcode ▸ hr'⟩
    · rintro (⟨r', h, hr'⟩ | h)
      · obtain rfl := RemovePlace.reply.inj h
        exact ⟨_, rfl, hcode.trans hr'⟩
      · cases h

theorem RemoveFrame.boxName_resume : (g.resume a).boxName = g.boxName := by
  obtain ⟨place, pipeName, boxName, boxIndex⟩ := g
  rw [resume]
  cases place with
  | tfsUnlink | findBox =>
    dsimp only
    split <;> rfl
  | _ => rfl

/-- `remove_box` broadcasts where `find_box` has found the box. -/
theorem RemoveFrame.of_resume_broadcast (h : (g.resume a).place = .broadcast) :
    g.place = .findBox ∧ g.call = some (.findBox g.boxName) ∧ (g.resume a).boxIndex = a.ret := by
  obtain ⟨place, pipeName, boxName, boxIndex⟩ := g
  rw [resume] at h ⊢
  cases place with
  | findBox =>
    dsimp only at h ⊢
    split at h
    · cases h
    case isFalse hret =>
      rw [if_neg hret]
      exact ⟨rfl, rfl, rfl⟩
  | tfsUnlink =>
    dsimp only at h
    split at h <;> cases h
  | _ => cases h

theorem RemoveFrame.of_resume_deleteBox (h : (g.resume a).place = .deleteBox) :
    g.place = .broadcast ∧ g.call = some (.condBroadcast g.boxIndex) := by
  obtain ⟨place, pipeName, boxName, boxIndex⟩ := g
  rw [resume] at h
  cases place with
  | broadcast => exact ⟨rfl, rfl⟩
  | tfsUnlink | findBox =>
    dsimp only at h
    split at h <;> cases h
  | _ => cases h

theorem RemoveFrame.not_deleted (h : ∀ r, g.place ≠ .reply r) : ¬ g.Deleted :=
  fun ⟨r, hr, _⟩ => h r hr

/-- The calls of a session leave the boxes. -/
theorem SubscriberFrame.keepsBoxes (h : f.call = some call) : call.KeepsBoxes :=
  (Program.keepsNames (p := .subscriber f) not_false h).boxes

/-- So do those of a removal, but for the deletion. -/
theorem RemoveFrame.keepsBoxes (h : g.call = some call) (hplace : g.place ≠ .deleteBox) :
    call.KeepsBoxes := by
  obtain ⟨place, pipeName, boxName, boxIndex⟩ := g
  cases place with
  | deleteBox => exact absurd rfl hplace
  | reply r => exact (r.keepsNames h).boxes
  | _ => cases h; trivial

end Frames

namespace RemovalState

variable {ι : Type} {s s' : RemovalState ι} {t : RemovalTurn ι} {k : ι} {boxName : CString} {i₀ : Int}
  {call : Call} {a env : Answer} {b : Broker} {r : Unit}

/-- **The invariant**: until the box is deleted it is at `i₀`, and so are the sessions
that wait for it; none sleeps after the broadcast. -/
structure Inv (boxName : CString) (i₀ : Int) (s : RemovalState ι) : Prop where
  removerName : s.remover.boxName = boxName
  sessionName : ∀ k, (s.sessions k).boxName = boxName
  found : ¬ s.remover.Deleted → findBox boxName s.broker.table = i₀
  index : ¬ s.remover.Deleted → ∀ k, (s.sessions k).AtBox → (s.sessions k).boxIndex = i₀
  target : s.remover.place = .broadcast → s.remover.boxIndex = i₀
  waits : ∀ k, s.sleep k = .asleep → (s.sessions k).place = .wait
  woken : s.remover.Broadcasted → ∀ k, s.sleep k ≠ .asleep

theorem inv_start (b : Broker) (boxName managerPipe : CString) (pipes : ι → CString)
    (locals : ι → Locals) :
    (start b boxName managerPipe pipes locals).Inv boxName (findBox boxName b.table) where
  removerName := rfl
  sessionName := fun _ => rfl
  found := fun _ => rfl
  index := fun _ _ h => by rcases h with h | h | h <;> cases h
  target := fun h => by cases h
  waits := fun _ h => by cases h
  woken := fun _ _ => nofun

/-- **A turn of the removal.** -/
theorem Inv.remover (h : s.Inv boxName i₀) (hcall : s.remover.call = some call)
    (hperform : perform call env s.broker = .ok (a, b)) :
    Inv boxName i₀ { s.wakeAll call with broker := b, remover := s.remover.resume a } := by
  have hsessions : (s.wakeAll call).sessions = s.sessions := by
    cases call <;> rfl
  have hsleep : ∀ k, (s.wakeAll call).sleep k = .asleep → s.sleep k = .asleep := by
    intro k hk
    cases call with
    | condBroadcast i =>
      rw [wakeAll] at hk
      dsimp only at hk
      split at hk
      · cases hk
      · exact hk
    | _ => exact hk
  have hdeleted := RemoveFrame.deleted_resume (g := s.remover) (a := a)
  refine ⟨RemoveFrame.boxName_resume.trans h.removerName, ?_, ?_, ?_, ?_, ?_, ?_⟩
  · rw [hsessions]
    exact h.sessionName
  · intro hno
    rw [hdeleted, not_or] at hno
    obtain ⟨hn, hname⟩ := perform_names hperform (s.remover.keepsBoxes hcall hno.2)
    exact (BoxTable.findBox_congr hn hname).trans (h.found hno.1)
  · intro hno
    rw [hdeleted, not_or] at hno
    rw [hsessions]
    exact h.index hno.1
  · intro hplace
    obtain ⟨hfind, hcall', hindex⟩ := RemoveFrame.of_resume_broadcast hplace
    obtain rfl := Option.some.inj (hcall'.symm.trans hcall)
    obtain ⟨rfl, -⟩ := Prod.mk.inj (Outcome.ok.inj hperform)
    refine hindex.trans ?_
    rw [h.removerName]
    exact h.found (RemoveFrame.not_deleted fun r => by rw [hfind]; nofun)
  · intro k hk
    rw [hsessions]
    exact h.waits k (hsleep k hk)
  · rintro (hplace | hdel) k hk
    · -- The broadcast reaches those who sleep.
      obtain ⟨hbroadcast, hcall'⟩ := RemoveFrame.of_resume_deleteBox hplace
      obtain rfl := Option.some.inj (hcall'.symm.trans hcall)
      have hnot : ¬ s.remover.Deleted := RemoveFrame.not_deleted fun r => by rw [hbroadcast]; nofun
      have hasleep := hsleep k hk
      have hindex : (s.sessions k).boxIndex = s.remover.boxIndex :=
        (h.index hnot k (Or.inr (Or.inr (h.waits k hasleep)))).trans (h.target hbroadcast).symm
      rw [wakeAll] at hk
      dsimp only at hk
      rw [if_pos ⟨hasleep, hindex⟩] at hk
      cases hk
    · rcases hdeleted.mp hdel with hdel | hplace
      · exact h.woken (Or.inr hdel) k (hsleep k hk)
      · exact h.woken (Or.inl hplace) k (hsleep k hk)

/-! ### The turns of the sessions -/

variable [DecidableEq ι]

/-- What a call of session `k` does to its sleep. -/
theorem sync_cases (k : ι) (env : Answer) (call : Call) (s : RemovalState ι) :
    (s.sync k env call).2.broker = s.broker ∧ (s.sync k env call).2.remover = s.remover ∧
      (s.sync k env call).2.sessions = s.sessions ∧
      ((s.sync k env call).2.sleep = s.sleep ∧
          ((s.sync k env call).1 = true → ∀ i, call ≠ .condWait i) ∨
        (∃ i, call = .condWait i ∧ s.sleep k = .awake ∧ (s.sync k env call).1 = false ∧
          (s.sync k env call).2.sleep = Function.update s.sleep k .asleep) ∨
        ∃ i, call = .condWait i ∧ s.sleep k = .woken ∧
          (s.sync k env call).2.sleep = Function.update s.sleep k .awake) := by
  cases call with
  | mutexLock i =>
    rw [sync]
    split
    · exact ⟨rfl, rfl, rfl, Or.inl ⟨rfl, fun _ _ => nofun⟩⟩
    · split
      · exact ⟨rfl, rfl, rfl, Or.inl ⟨rfl, fun _ _ => nofun⟩⟩
      · exact ⟨rfl, rfl, rfl, Or.inl ⟨rfl, fun _ _ => nofun⟩⟩
  | condWait i =>
    rw [sync]
    cases hk : s.sleep k with
    | awake => exact ⟨rfl, rfl, rfl, Or.inr (Or.inl ⟨i, rfl, rfl, rfl, rfl⟩)⟩
    | asleep => exact ⟨rfl, rfl, rfl, Or.inl ⟨rfl, nofun⟩⟩
    | woken =>
      dsimp only
      split
      · exact ⟨rfl, rfl, rfl, Or.inl ⟨rfl, nofun⟩⟩
      · exact ⟨rfl, rfl, rfl, Or.inr (Or.inr ⟨i, rfl, rfl, rfl⟩)⟩
  | _ => exact ⟨rfl, rfl, rfl, Or.inl ⟨rfl, fun _ _ => nofun⟩⟩

theorem condWait_of_wait {f : SubscriberFrame} (hplace : f.place = .wait)
    (hcall : f.call = some call) : call = .condWait f.boxIndex := by
  rw [SubscriberFrame.call, hplace] at hcall
  exact (Option.some.inj hcall).symm

theorem wait_of_condWait {f : SubscriberFrame} {i : Int} (hcall : f.call = some (.condWait i)) :
    f.place = .wait := by
  obtain ⟨place, pipeName, boxName, boxIndex, num, boxHandle, subscriberPipe, charBuffer, buffer,
    n⟩ := f
  cases place with
  | wait => rfl
  | _ => cases hcall

/-- The mutexes and the condition variables. -/
theorem Inv.sync (h : s.Inv boxName i₀) (hcall : (s.sessions k).call = some call)
    (hok : Permitted (.session k env) s) : (s.sync k env call).2.Inv boxName i₀ ∧
      ((s.sync k env call).1 = true → (s.sync k env call).2.sleep k ≠ .asleep) := by
  obtain ⟨hbroker, hremover, hsessions, hsleep⟩ := sync_cases k env call s
  -- Whoever sleeps now has slept before, or is `k`, in its wait before the broadcast.
  have hasleep : ∀ k', (s.sync k env call).2.sleep k' = .asleep → s.sleep k' = .asleep ∨
      k' = k ∧ (s.sessions k).place = .wait ∧ ¬ s.remover.Broadcasted := by
    intro k' hk'
    rcases hsleep with ⟨heq, -⟩ | ⟨i, rfl, hawake, -, heq⟩ | ⟨i, -, -, heq⟩
    · exact Or.inl (heq ▸ hk')
    · by_cases hkk : k' = k
      · exact Or.inr ⟨hkk, wait_of_condWait hcall, hok (wait_of_condWait hcall) hawake⟩
      · rw [heq, Function.update_of_ne hkk] at hk'
        exact Or.inl hk'
    · by_cases hkk : k' = k
      · rw [heq, hkk, Function.update_self] at hk'
        cases hk'
      · rw [heq, Function.update_of_ne hkk] at hk'
        exact Or.inl hk'
  refine ⟨⟨?_, ?_, ?_, ?_, ?_, fun k' hk' => ?_, fun hb k' hk' => ?_⟩, fun hret hk => ?_⟩
  · rw [hremover]
    exact h.removerName
  · rw [hsessions]
    exact h.sessionName
  · rw [hremover, hbroker]
    exact h.found
  · rw [hremover, hsessions]
    exact h.index
  · rw [hremover]
    exact h.target
  · rw [hsessions]
    rcases hasleep k' hk' with hk' | ⟨rfl, hwait, -⟩
    · exact h.waits k' hk'
    · exact hwait
  · rw [hremover] at hb
    rcases hasleep k' hk' with hk' | ⟨-, -, hno⟩
    · exact h.woken hb k' hk'
    · exact hno hb
  · rcases hsleep with ⟨heq, hno⟩ | ⟨i, -, -, hfalse, -⟩ | ⟨i, -, -, heq⟩
    · exact hno hret _ (condWait_of_wait (h.waits k (heq ▸ hk)) hcall)
    · rw [hfalse] at hret
      cases hret
    · rw [heq, Function.update_self] at hk
      cases hk

/-- **A call of a session that returns.** -/
theorem Inv.session {f : SubscriberFrame} (h : s.Inv boxName i₀) (hawake : s.sleep k ≠ .asleep)
    (hcall : (s.sessions k).call = some call) (hperform : perform call env s.broker = .ok (a, b))
    (hresume : (s.sessions k).resume a = .ok f) :
    Inv boxName i₀ { s with broker := b, sessions := Function.update s.sessions k f } := by
  obtain ⟨hn, hname⟩ := perform_names hperform ((s.sessions k).keepsBoxes hcall)
  obtain ⟨hfname, hindex⟩ := SubscriberFrame.index_resume hresume
  refine ⟨h.removerName, fun k' => ?_, fun hno => ?_, fun hno k' hat => ?_, h.target,
    fun k' hk' => ?_, h.woken⟩
  · dsimp only
    by_cases hk : k' = k
    · subst hk
      rw [Function.update_self, hfname]
      exact h.sessionName k'
    · rw [Function.update_of_ne hk]
      exact h.sessionName k'
  · exact (BoxTable.findBox_congr hn hname).trans (h.found hno)
  · dsimp only at hat ⊢
    by_cases hk : k' = k
    · subst hk
      rw [Function.update_self] at hat ⊢
      -- It waits with the index that it had, or with the one that `find_box` gives now.
      rcases hindex hat with ⟨hat, heq⟩ | ⟨hfind, heq⟩
      · exact heq.trans (h.index hno k' hat)
      · obtain rfl := Option.some.inj (hfind.symm.trans hcall)
        obtain ⟨rfl, -⟩ := Prod.mk.inj (Outcome.ok.inj hperform)
        refine heq.trans ?_
        rw [h.sessionName]
        exact h.found hno
    · rw [Function.update_of_ne hk] at hat ⊢
      exact h.index hno k' hat
  · have hk : k' ≠ k := by
      rintro rfl
      exact hawake hk'
    dsimp only
    rw [Function.update_of_ne hk]
    exact h.waits k' hk'

theorem Inv.step (h : s.Inv boxName i₀) (hok : Permitted t s)
    (hstep : RemovalState.step t s = .ok (r, s')) : s'.Inv boxName i₀ := by
  cases t with
  | remover env =>
    rw [RemovalState.step] at hstep
    split at hstep
    case h_1 =>
      obtain ⟨-, rfl⟩ := Prod.mk.inj (Outcome.ok.inj hstep)
      exact h
    case h_2 call hcall =>
      obtain ⟨⟨a, b⟩, hperform, hstep⟩ := Outcome.bind_eq_ok.mp hstep
      obtain ⟨-, rfl⟩ := Prod.mk.inj (Outcome.ok.inj hstep)
      exact h.remover hcall hperform
  | session k env =>
    rw [RemovalState.step] at hstep
    split at hstep
    case h_1 =>
      obtain ⟨-, rfl⟩ := Prod.mk.inj (Outcome.ok.inj hstep)
      exact h
    case h_2 call hcall =>
      obtain ⟨hsync, hreturns⟩ := h.sync hcall hok
      obtain ⟨hbroker, -, hsessions, -⟩ := sync_cases k env call s
      dsimp only at hstep
      split at hstep
      case isTrue hret =>
        obtain ⟨⟨a, b⟩, hperform, hstep⟩ := Outcome.bind_eq_ok.mp hstep
        obtain ⟨f, hresume, hstep⟩ := Outcome.bind_eq_ok.mp hstep
        obtain ⟨-, rfl⟩ := Prod.mk.inj (Outcome.ok.inj hstep)
        rw [← hsessions] at hcall hresume ⊢
        rw [← hbroker] at hperform
        exact hsync.session (hreturns hret) hcall hperform hresume
      case isFalse =>
        obtain ⟨-, rfl⟩ := Prod.mk.inj (Outcome.ok.inj hstep)
        exact hsync
  | wakeUp k =>
    obtain ⟨-, rfl⟩ := Prod.mk.inj (Outcome.ok.inj hstep)
    split
    case isTrue =>
      -- A spurious wake-up puts nobody to sleep.
      have hasleep : ∀ k', (s.setSleep k .woken).sleep k' = .asleep → s.sleep k' = .asleep := by
        intro k' hk'
        rw [setSleep] at hk'
        dsimp only at hk'
        by_cases hk : k' = k
        · rw [hk, Function.update_self] at hk'
          cases hk'
        · rw [Function.update_of_ne hk] at hk'
          exact hk'
      exact ⟨h.removerName, h.sessionName, h.found, h.index, h.target,
        fun k' hk' => h.waits k' (hasleep k' hk'), fun hb k' hk' => h.woken hb k' (hasleep k' hk')⟩
    case isFalse => exact h

end RemovalState

open RemovalState in
/-- **No subscriber is left asleep by a removal**, in every run in which no session
goes to sleep after the broadcast. -/
theorem noneLeft_of_permitted {ι : Type} [DecidableEq ι] {b : Broker}
    {boxName managerPipe : CString} {pipes : ι → CString} {locals : ι → Locals}
    {turns : List (RemovalTurn ι)} {rs : List Unit} {s : RemovalState ι}
    (hok : Outcome.Meets Permitted step turns (start b boxName managerPipe pipes locals))
    (hrun : Outcome.runList step turns (start b boxName managerPipe pipes locals) = .ok (rs, s)) :
    s.NoneLeft := by
  have h : s.Inv boxName (findBox boxName b.table) := Outcome.runList_invariant_of_reaches
    (fun t s r s' hs hok hstep => hs.step hok hstep) (fun t s' hreach => hok.reaches hreach)
    (inv_start b boxName managerPipe pipes locals) hrun
  rintro ⟨r, hr, hcode, -⟩
  exact h.woken (Or.inr ⟨r, hr, hcode⟩)

instance : ∀ g : RemoveFrame, Decidable g.Deleted
  | ⟨.reply r, _, _, _⟩ => decidable_of_iff (r.returnCode = 0)
      ⟨fun h => ⟨r, rfl, h⟩, fun ⟨_, hr, h⟩ => RemovePlace.reply.inj hr ▸ h⟩
  | ⟨.tfsUnlink, _, _, _⟩ => isFalse fun ⟨_, h, _⟩ => RemovePlace.noConfusion h
  | ⟨.findBox, _, _, _⟩ => isFalse fun ⟨_, h, _⟩ => RemovePlace.noConfusion h
  | ⟨.broadcast, _, _, _⟩ => isFalse fun ⟨_, h, _⟩ => RemovePlace.noConfusion h
  | ⟨.deleteBox, _, _, _⟩ => isFalse fun ⟨_, h, _⟩ => RemovePlace.noConfusion h

instance {ι : Type} : ∀ (t : RemovalTurn ι) (s : RemovalState ι),
    Decidable (RemovalState.Permitted t s)
  | .session k _, s => inferInstanceAs (Decidable ((s.sessions k).place = .wait →
      s.sleep k = .awake → ¬ (s.remover.place = .deleteBox ∨ s.remover.Deleted)))
  | .remover _, _ => inferInstanceAs (Decidable True)
  | .wakeUp _, _ => inferInstanceAs (Decidable True)

/-- The answer has been sent, and what it says. -/
def RemoveFrame.answered (g : RemoveFrame) : Bool :=
  match g.place with
  | .reply r => r.returnCode == 0 && (r.place == .dequeue || r.place == .returned)
  | _ => false

theorem RemoveFrame.replied_of_answered {g : RemoveFrame} (h : g.answered = true) : g.Replied := by
  obtain ⟨place, pipeName, boxName, boxIndex⟩ := g
  cases place with
  | reply r =>
    obtain ⟨hcode, hplace⟩ := Bool.and_eq_true_iff.mp h
    refine ⟨r, rfl, beq_iff_eq.mp hcode, ?_⟩
    simpa using hplace
  | _ => cases h

/-- Box `a`, its subscriber and its removal. -/
def removalOfA (b : Broker) : RemovalState Unit :=
  .start b (.ofBuffer [97]) (.ofBuffer [112]) (fun _ => .ofBuffer [113]) fun _ => ⟨.zero, 0, []⟩

/-- The subscriber sleeps before the removal starts. -/
def sleptBefore : List (RemovalTurn Unit) :=
  List.replicate 11 (.session () {}) ++ List.replicate 7 (.remover { ret := 1 })

/-- The subscriber is about to sleep at the broadcast. -/
def sleptLate : List (RemovalTurn Unit) :=
  List.replicate 10 (.session () {}) ++ List.replicate 3 (.remover { ret := 1 }) ++
    [.session () {}] ++ List.replicate 4 (.remover { ret := 1 })

open RemovalState in
theorem noneLeft_sleptBefore : ∃ b rs s, createBox (.ofBuffer [97]) .zero ⟨initial, .empty⟩ =
    .ok (0, b) ∧ Outcome.runList step sleptBefore (removalOfA b) = .ok (rs, s) ∧
      s.remover.Replied ∧ s.NoneLeft := by
  have hresult : (createBox (.ofBuffer [97]) .zero ⟨initial, .empty⟩).map (fun p =>
      (p.1, decide (Outcome.Meets Permitted step sleptBefore (removalOfA p.2)),
        (Outcome.runList step sleptBefore (removalOfA p.2)).map fun q => q.2.remover.answered)) =
      .ok (0, true, .ok true) := by
    decide +kernel
  obtain ⟨⟨r, b⟩, hcreate, hb⟩ := Outcome.map_eq_ok.mp hresult
  simp only [Prod.mk.injEq, decide_eq_true_eq] at hb
  obtain ⟨rfl, hok, hrun⟩ := hb
  obtain ⟨⟨rs, s⟩, hrun, hreplied⟩ := Outcome.map_eq_ok.mp hrun
  exact ⟨b, rs, s, hcreate, hrun, RemoveFrame.replied_of_answered hreplied,
    noneLeft_of_permitted hok hrun⟩

open RemovalState in
/-- The removal has been answered, and the subscriber sleeps on. -/
theorem not_noneLeft_sleptLate : ∃ b rs s, createBox (.ofBuffer [97]) .zero ⟨initial, .empty⟩ =
    .ok (0, b) ∧ Outcome.runList step sleptLate (removalOfA b) = .ok (rs, s) ∧ ¬ s.NoneLeft := by
  have hresult : (createBox (.ofBuffer [97]) .zero ⟨initial, .empty⟩).map (fun p =>
      (p.1, (Outcome.runList step sleptLate (removalOfA p.2)).map fun q =>
        (q.2.remover.answered, q.2.sleep ()))) = .ok (0, .ok (true, .asleep)) := by
    decide +kernel
  obtain ⟨⟨r, b⟩, hcreate, hb⟩ := Outcome.map_eq_ok.mp hresult
  obtain ⟨rfl, hrun⟩ := Prod.mk.inj hb
  obtain ⟨⟨rs, s⟩, hrun, hs⟩ := Outcome.map_eq_ok.mp hrun
  obtain ⟨hreplied, hasleep⟩ := Prod.mk.inj hs
  exact ⟨b, rs, s, hcreate, hrun, fun hnone =>
    hnone (RemoveFrame.replied_of_answered hreplied) () hasleep⟩

end Mbroker
