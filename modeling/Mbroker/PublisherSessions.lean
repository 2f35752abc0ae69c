/-
One publisher on a box.

Creations, removals and the three parts of a publisher's handler, one after the
other.  `n_publishers` is the flag by which a second publisher is turned away; a
session clears it at the end through the index it last found, which by then may
be that of another box, or of none.

* `PublisherState.Inv` — the flags of the boxes are their sessions;
* **`exclusive_of_permitted`** — they are, as long as no box gets the name of a
  session that goes on, and no session ends with a wrong index;
* `not_exclusive_removedBefore` — a box in front is removed, and the publisher of
  the box behind it leaves.
-/
import Mbroker.Handlers
import Mbroker.TfsRuns

namespace Mbroker

open Tfs

/-- The broker, and the publishers' handlers that wait for their client. -/
structure PublisherState where
  broker : Broker
  sessions : Nat → Option PublisherSession

/-- What the client of a handler does. -/
inductive PublisherPart where
  | register (pipeName boxName : CString)
  | message (buffer : List UInt8)
  | disconnect

/-- An event, which runs to its end before the next one. -/
inductive PublisherEvent where
  | create (boxName : CString) (box : Box)
  | remove (boxName : CString)
  | publisher (k : Nat) (part : PublisherPart)

/-- A part of a publisher's handler, which has no session before it starts and
after it has ended. -/
def PublisherPart.run : PublisherPart → Option PublisherSession → Broker →
    Outcome (Option PublisherSession × Broker)
  | .register pipeName boxName, none, b => publisherFunction pipeName boxName b
  | .message buffer, some session, b => receiveMessage buffer session b
  | .disconnect, some session, b => do
    let b ← endSession session b
    return (none, b)
  | _, session, b => .ok (session, b)

/-- What a part of a handler comes to: there is nothing for it to do before the handler starts
and after it has ended, and a handler starts once. -/
inductive PublisherPart.RunSpec (b : Broker) :
    PublisherPart → Option PublisherSession → Option PublisherSession → Broker → Prop where
  | register {pipeName boxName : CString} {o : Option PublisherSession} {b' : Broker}
      (hc : publisherFunction pipeName boxName b = .ok (o, b')) :
      RunSpec b (.register pipeName boxName) none o b'
  | message {buffer : List UInt8} {session : PublisherSession} {o : Option PublisherSession}
      {b' : Broker} (hc : receiveMessage buffer session b = .ok (o, b')) :
      RunSpec b (.message buffer) (some session) o b'
  | disconnect {session : PublisherSession} {b' : Broker} (hc : endSession session b = .ok b') :
      RunSpec b .disconnect (some session) none b'
  | idle {part : PublisherPart} {o : Option PublisherSession}
      (hnone : ∀ buffer, part = .message buffer → o = none) : RunSpec b part o o b

theorem PublisherPart.run_spec {part : PublisherPart} {o o' : Option PublisherSession}
    {b b' : Broker} (h : part.run o b = .ok (o', b')) : part.RunSpec b o o' b' := by
  match part, o, h with
  | .register _ _, none, h => exact .register h
  | .message _, some _, h => exact .message h
  | .disconnect, some _, h =>
    obtain ⟨b₁, hend, hret⟩ := Outcome.bind_eq_ok.mp h
    obtain ⟨rfl, rfl⟩ := Prod.mk.inj (Outcome.ok.inj hret)
    exact .disconnect hend
  | .register _ _, some _, h =>
    obtain ⟨rfl, rfl⟩ := Prod.mk.inj (Outcome.ok.inj h)
    exact .idle nofun
  | .message _, none, h =>
    obtain ⟨rfl, rfl⟩ := Prod.mk.inj (Outcome.ok.inj h)
    exact .idle fun _ _ => rfl
  | .disconnect, none, h =>
    obtain ⟨rfl, rfl⟩ := Prod.mk.inj (Outcome.ok.inj h)
    exact .idle nofun

namespace PublisherState

/-- `main`, when `tfs_init` has returned. -/
def start (fs : TfsState) : PublisherState := ⟨⟨fs, .empty⟩, fun _ => none⟩

/-- One event. -/
def step : PublisherEvent → PublisherState → Outcome (Unit × PublisherState)
  | .create boxName box, s => do
    let (_, b) ← createBox boxName box s.broker
    return ((), { s with broker := b })
  | .remove boxName, s => do
    let (_, b) ← removeBox boxName s.broker
    return ((), { s with broker := b })
  | .publisher k part, s => do
    let (session, b) ← part.run (s.sessions k) s.broker
    return ((), ⟨b, Function.update s.sessions k session⟩)

/-- What an event comes to. -/
inductive StepSpec (s : PublisherState) : PublisherEvent → PublisherState → Prop where
  | create {boxName : CString} {box : Box} {r : Int} {b : Broker}
      (hc : createBox boxName box s.broker = .ok (r, b)) :
      StepSpec s (.create boxName box) { s with broker := b }
  | remove {boxName : CString} {r : Int} {b : Broker}
      (hc : removeBox boxName s.broker = .ok (r, b)) :
      StepSpec s (.remove boxName) { s with broker := b }
  | publisher {k : Nat} {part : PublisherPart} {o : Option PublisherSession} {b : Broker}
      (hc : part.run (s.sessions k) s.broker = .ok (o, b)) :
      StepSpec s (.publisher k part) ⟨b, Function.update s.sessions k o⟩

theorem step_spec {s s' : PublisherState} {e : PublisherEvent} {r : Unit}
    (h : step e s = .ok (r, s')) : StepSpec s e s' := by
  cases e with
  | create boxName box =>
    obtain ⟨⟨r₁, b⟩, hc, hret⟩ := Outcome.bind_eq_ok.mp h
    obtain ⟨-, rfl⟩ := Prod.mk.inj (Outcome.ok.inj hret)
    exact .create hc
  | remove boxName =>
    obtain ⟨⟨r₁, b⟩, hc, hret⟩ := Outcome.bind_eq_ok.mp h
    obtain ⟨-, rfl⟩ := Prod.mk.inj (Outcome.ok.inj hret)
    exact .remove hc
  | publisher k part =>
    obtain ⟨⟨o, b⟩, hc, hret⟩ := Outcome.bind_eq_ok.mp h
    obtain ⟨-, rfl⟩ := Prod.mk.inj (Outcome.ok.inj hret)
    exact .publisher hc

/-- A session is active on the box `q`. -/
def Active (sessions : Nat → Option PublisherSession) (q : CString) : Prop :=
  ∃ k session, sessions k = some session ∧ session.boxName = q

/-- A box has at most one session, and the flag of its record says whether it has
one. -/
def Exclusive (s : PublisherState) : Prop :=
  ∀ i < s.broker.table.nBoxes,
    (∀ k k' p p', s.sessions k = some p → s.sessions k' = some p' →
      p.boxName = s.broker.table.name i → p'.boxName = s.broker.table.name i → k = k') ∧
    ((s.broker.table.boxes i).nPublishers = 1 ↔ Active s.sessions (s.broker.table.name i))

/-- No box is created under the name of a session; and a session ends with the
index of its own box or, when that is gone, with one whose flag is not up. -/
def Permitted : PublisherEvent → PublisherState → Prop
  | .create boxName _, s => OpensNewBox boxName s.broker → ¬ Active s.sessions boxName
  | .publisher k .disconnect, s => ∀ p, s.sessions k = some p →
      (∀ i < s.broker.table.nBoxes, s.broker.table.name i = p.boxName → p.boxIndex = i) ∧
        ((∀ i < s.broker.table.nBoxes, s.broker.table.name i ≠ p.boxName) →
          ∀ i < s.broker.table.nBoxes, p.boxIndex = i →
            (s.broker.table.boxes i).nPublishers ≠ 1)
  | _, _ => True

/-! ### The invariant -/

/-- No two sessions are on boxes of one name. -/
def Apart (sessions : Nat → Option PublisherSession) : Prop :=
  ∀ k k' p p', sessions k = some p → sessions k' = some p' → p.boxName = p'.boxName → k = k'

/-- The flag of each box says whether it has a session. -/
def Flagged (t : BoxTable) (sessions : Nat → Option PublisherSession) : Prop :=
  ∀ i < t.nBoxes, ((t.boxes i).nPublishers = 1 ↔ Active sessions (t.name i))

structure Inv (s : PublisherState) : Prop where
  distinct : s.broker.table.Distinct
  apart : Apart s.sessions
  flagged : Flagged s.broker.table s.sessions
  index : ∀ k p, s.sessions k = some p → 0 ≤ p.boxIndex

variable {s s' : PublisherState} {t t' : BoxTable}
  {sessions sessions' : Nat → Option PublisherSession}
  {k : Nat} {p p' : PublisherSession} {q : CString} {i : Nat} {b : Broker}

theorem inv_start (fs : TfsState) : (start fs).Inv :=
  ⟨fun i hi => absurd hi (Nat.not_lt_zero i), fun _ _ _ _ h => (by cases h),
    fun i hi => absurd hi (Nat.not_lt_zero i), fun _ _ h => (by cases h)⟩

theorem Inv.exclusive (h : s.Inv) : s.Exclusive := fun i hi =>
  ⟨fun k k' p p' hk hk' hp hp' => h.apart k k' p p' hk hk' (hp.trans hp'.symm), h.flagged i hi⟩

/-! ### Sessions that come and go -/

theorem active_update_of_ne {o : Option PublisherSession}
    (hk : ∀ p, sessions k = some p → p.boxName ≠ q)
    (ho : ∀ p, o = some p → p.boxName ≠ q) :
    Active (Function.update sessions k o) q ↔ Active sessions q := by
  constructor
  · rintro ⟨k', p', hk', hp'⟩
    by_cases heq : k' = k
    · subst heq
      rw [Function.update_self] at hk'
      exact absurd hp' (ho p' hk')
    · rw [Function.update_of_ne heq] at hk'
      exact ⟨k', p', hk', hp'⟩
  · rintro ⟨k', p', hk', hp'⟩
    have heq : k' ≠ k := by
      rintro rfl
      exact hk p' hk' hp'
    exact ⟨k', p', by rw [Function.update_of_ne heq]; exact hk', hp'⟩

theorem active_update_some (hp : p.boxName = q) : Active (Function.update sessions k (some p)) q :=
  ⟨k, p, Function.update_self _ _ _, hp⟩

/-- The session of a box was the only one. -/
theorem not_active_update_none (h : Apart sessions) (hk : sessions k = some p)
    (hp : p.boxName = q) :
    ¬ Active (Function.update sessions k none) q := by
  rintro ⟨k', p', hk', hp'⟩
  by_cases heq : k' = k
  · subst heq
    simp at hk'
  · rw [Function.update_of_ne heq] at hk'
    exact heq (h k' k p' p hk' hk (hp'.trans hp.symm))

theorem Apart.update {o : Option PublisherSession} (h : Apart sessions)
    (ho : ∀ p k' p', o = some p → k' ≠ k → sessions k' = some p' → p.boxName ≠ p'.boxName) :
    Apart (Function.update sessions k o) := by
  intro k₁ k₂ p₁ p₂ h₁ h₂ heq
  by_cases hk₁ : k₁ = k
  · by_cases hk₂ : k₂ = k
    · rw [hk₁, hk₂]
    · rw [hk₁, Function.update_self] at h₁
      rw [Function.update_of_ne hk₂] at h₂
      exact absurd heq (ho p₁ k₂ p₂ h₁ hk₂ h₂)
  · rw [Function.update_of_ne hk₁] at h₁
    by_cases hk₂ : k₂ = k
    · rw [hk₂, Function.update_self] at h₂
      exact absurd heq.symm (ho p₂ k₁ p₁ h₂ hk₁ h₁)
    · rw [Function.update_of_ne hk₂] at h₂
      exact h k₁ k₂ p₁ p₂ h₁ h₂ heq

theorem index_update {o : Option PublisherSession} (h : ∀ k p, sessions k = some p → 0 ≤ p.boxIndex)
    (ho : ∀ p, o = some p → 0 ≤ p.boxIndex) (k' : Nat) (p' : PublisherSession)
    (hk' : Function.update sessions k o k' = some p') : 0 ≤ p'.boxIndex := by
  by_cases heq : k' = k
  · subst heq
    rw [Function.update_self] at hk'
    exact ho p' hk'
  · rw [Function.update_of_ne heq] at hk'
    exact h k' p' hk'

/-! ### Boxes that come and go -/

theorem Flagged.addBox {box : Box} (h : Flagged t sessions) (hadd : addBox box t = .ok t')
    (hflag : box.nPublishers = 0) (hnew : ¬ Active sessions box.boxName) : Flagged t' sessions := by
  obtain ⟨-, hn, hself, hother⟩ := BoxTable.addBox_ok hadd
  intro i hi
  by_cases heq : i = t.nBoxes
  · rw [BoxTable.name, heq, hself, hflag]
    simpa using hnew
  · rw [BoxTable.name, hother i heq]
    exact h i (by omega)

theorem Flagged.deleteBox (h : Flagged t sessions) (hdelete : deleteBox i t = .ok t') :
    Flagged t' sessions := by
  obtain ⟨-, -, hn, hboxes⟩ := BoxTable.deleteBox_ok hdelete
  intro j hj
  rw [BoxTable.name_deleteBox hdelete hj, hboxes j hj]
  exact h _ (BoxTable.movedFrom_lt (hn ▸ hj))

/-- The flag of one box is set to what its sessions have come to. -/
theorem Flagged.modify {f : Box → Box} (h : Flagged t sessions)
    (hname : ∀ box, (f box).boxName = box.boxName)
    (hother : ∀ j < t.nBoxes, j ≠ i → (Active sessions' (t.name j) ↔ Active sessions (t.name j)))
    (hself : i < t.nBoxes → ((f (t.boxes i)).nPublishers = 1 ↔ Active sessions' (t.name i))) :
    Flagged (t.modify i f) sessions' := by
  intro j hj
  rw [BoxTable.name_modify hname]
  by_cases hji : j = i
  · subst hji
    rw [BoxTable.boxes_modify_self]
    exact hself hj
  · rw [BoxTable.boxes_modify_ne hji, hother j hj hji]
    exact h j hj

/-! ### The events -/

theorem Inv.create {box : Box} {r : Int} (h : s.Inv) (hc : createBox q box s.broker = .ok (r, b))
    (hok : OpensNewBox q s.broker → ¬ Active s.sessions q) : Inv { s with broker := b } := by
  rcases createBox_table hc with ⟨-, htable⟩ | ⟨-, hopens, hadd⟩
  · exact ⟨htable ▸ h.distinct, h.apart, htable ▸ h.flagged, h.index⟩
  · exact ⟨h.distinct.addBox hadd (BoxTable.findBox_eq_neg.mp hopens.1), h.apart,
      h.flagged.addBox hadd rfl (hok hopens), h.index⟩

theorem Inv.remove {r : Int} (h : s.Inv) (hc : removeBox q s.broker = .ok (r, b)) :
    Inv { s with broker := b } := by
  rcases removeBox_table hc with ⟨-, htable⟩ | ⟨-, -, i, -, -, -, hdelete⟩
  · exact ⟨htable ▸ h.distinct, h.apart, htable ▸ h.flagged, h.index⟩
  · exact ⟨h.distinct.deleteBox hdelete, h.apart, h.flagged.deleteBox hdelete, h.index⟩

theorem Inv.register {pipeName : CString} {o : Option PublisherSession} (h : s.Inv)
    (hk : s.sessions k = none) (hc : publisherFunction pipeName q s.broker = .ok (o, b)) :
    Inv ⟨b, Function.update s.sessions k o⟩ := by
  rcases publisherFunction_table hc with ⟨rfl, htable⟩ |
    ⟨i, hi, hname, hflag, ⟨boxHandle, rfl⟩, htable⟩
  · rw [← hk, Function.update_eq_self]
    exact ⟨htable ▸ h.distinct, h.apart, htable ▸ h.flagged, h.index⟩
  · -- The flag is down, so the box has no session.
    have hnone : ¬ Active s.sessions q := hname ▸ (h.flagged i hi).not.mp hflag
    have hother : ∀ p, s.sessions k = some p → p.boxName ≠ s.broker.table.name i := fun p hp => by
      rw [hk] at hp
      cases hp
    refine ⟨?_, ?_, ?_, ?_⟩
    · rw [htable]
      exact h.distinct.congr rfl (BoxTable.name_modify fun _ => rfl)
    · refine h.apart.update fun p k' p' hp hk' hp' heq => hnone ⟨k', p', hp', ?_⟩
      obtain rfl := Option.some.inj hp
      exact heq.symm
    · rw [htable]
      refine h.flagged.modify (fun _ => rfl) (fun j hj hji => ?_) fun _ => ?_
      · refine active_update_of_ne (fun p hp => ?_) fun p hp => ?_
        · rw [hk] at hp
          cases hp
        · obtain rfl := Option.some.inj hp
          exact fun heq => hji (h.distinct j hj i hi (heq.symm.trans hname.symm))
      · simpa using active_update_some hname.symm
    · refine index_update h.index fun p hp => ?_
      obtain rfl := Option.some.inj hp
      simp

theorem Inv.message {buffer : List UInt8} {o : Option PublisherSession} (h : s.Inv)
    (hk : s.sessions k = some p) (hc : receiveMessage buffer p s.broker = .ok (o, b)) :
    Inv ⟨b, Function.update s.sessions k o⟩ := by
  rcases receiveMessage_table hc with ⟨rfl, hgone, htable⟩ | ⟨i, hi, hname, rfl, htable⟩
  · -- The box has been removed: its session ends, and no other box had it.
    refine ⟨htable ▸ h.distinct, h.apart.update fun _ _ _ hp => (by cases hp), ?_,
      index_update h.index fun _ hp => by cases hp⟩
    rw [htable]
    intro i hi
    rw [h.flagged i hi]
    refine (active_update_of_ne (fun p' hp' => ?_) fun _ hp => by cases hp).symm
    obtain rfl := Option.some.inj (hk.symm.trans hp')
    exact (hgone i hi).symm
  · have hactive : ∀ q, Active (Function.update s.sessions k (some { p with boxIndex := i })) q ↔
        Active s.sessions q := by
      intro q
      by_cases hq : p.boxName = q
      · exact ⟨fun _ => ⟨k, p, hk, hq⟩, fun _ => active_update_some hq⟩
      · refine active_update_of_ne (fun p' hp' => ?_) fun p' hp' => ?_
        · obtain rfl := Option.some.inj (hk.symm.trans hp')
          exact hq
        · obtain rfl := Option.some.inj hp'
          exact hq
    refine ⟨?_, ?_, ?_, ?_⟩
    · rw [htable]
      exact h.distinct.congr rfl (BoxTable.name_modify fun _ => rfl)
    · refine h.apart.update fun p₁ k' p' hp₁ hk' hp' heq => ?_
      obtain rfl := Option.some.inj hp₁
      exact hk' (h.apart k' k p' p hp' hk heq.symm)
    · rw [htable]
      refine h.flagged.modify (fun _ => rfl) (fun j _ _ => hactive _) fun hi => ?_
      rw [hactive]
      exact h.flagged i hi
    · refine index_update h.index fun p' hp' => ?_
      obtain rfl := Option.some.inj hp'
      simp

theorem Inv.disconnect (h : s.Inv) (hk : s.sessions k = some p) (hc : endSession p s.broker = .ok b)
    (hok : Permitted (.publisher k .disconnect) s) :
    Inv ⟨b, Function.update s.sessions k none⟩ := by
  obtain ⟨hown, hgone⟩ := hok p hk
  have htable := endSession_table hc
  have hindex := h.index k p hk
  rw [if_neg (by omega)] at htable
  -- The sessions of the other boxes go on.
  have hother : ∀ q, p.boxName ≠ q →
      (Active (Function.update s.sessions k none) q ↔ Active s.sessions q) := by
    refine fun q hq => active_update_of_ne (fun p' hp' => ?_) fun _ hp => by cases hp
    obtain rfl := Option.some.inj (hk.symm.trans hp')
    exact hq
  refine ⟨?_, h.apart.update fun _ _ _ hp => (by cases hp), ?_, index_update h.index fun _ hp => by cases hp⟩
  · rw [htable]
    exact h.distinct.congr rfl (BoxTable.name_modify fun _ => rfl)
  rw [htable]
  by_cases hmem : ∃ i < s.broker.table.nBoxes, s.broker.table.name i = p.boxName
  · obtain ⟨i, hi, hname⟩ := hmem
    rw [hown i hi hname, Int.toNat_natCast]
    refine h.flagged.modify (fun _ => rfl) (fun j hj hji => hother _ ?_) fun _ => ?_
    · exact fun heq => hji (h.distinct j hj i hi (heq.symm.trans hname.symm))
    · simpa using not_active_update_none h.apart hk hname.symm
  · push Not at hmem
    refine h.flagged.modify (fun _ => rfl) (fun j hj _ => hother _ (hmem j hj).symm) fun hi => ?_
    rw [hother _ (hmem _ hi).symm, ← h.flagged _ hi]
    simpa using hgone hmem _ hi (Int.toNat_of_nonneg hindex).symm

theorem Inv.publisher {part : PublisherPart} {o : Option PublisherSession} (h : s.Inv)
    (hok : Permitted (.publisher k part) s) (hc : part.run (s.sessions k) s.broker = .ok (o, b)) :
    Inv ⟨b, Function.update s.sessions k o⟩ := by
  have hspec := PublisherPart.run_spec hc
  generalize hk : s.sessions k = before at hspec
  cases hspec with
  | register hc => exact h.register hk hc
  | message hc => exact h.message hk hc
  | disconnect hc => exact h.disconnect hk hc hok
  | idle =>
    rw [← hk, Function.update_eq_self]
    exact h

/-- **The step lemma.** -/
theorem Inv.step {e : PublisherEvent} {r : Unit} (h : s.Inv) (hok : Permitted e s)
    (hstep : step e s = .ok (r, s')) : s'.Inv := by
  cases step_spec hstep with
  | create hc => exact h.create hc hok
  | remove hc => exact h.remove hc
  | publisher hc => exact h.publisher hok hc

/-- The handlers that an event is not about are left as they are. -/
theorem sessions_step {e : PublisherEvent} {r : Unit}
    (hstep : PublisherState.step e s = .ok (r, s'))
    (hk : ∀ part, e ≠ .publisher k part) : s'.sessions k = s.sessions k := by
  cases step_spec hstep with
  | create => rfl
  | remove => rfl
  | @publisher k' part =>
    refine Function.update_of_ne ?_ _ _
    rintro rfl
    exact hk part rfl

theorem sessions_run {es : List PublisherEvent} {rs : List Unit}
    (hrun : Outcome.runList PublisherState.step es s = .ok (rs, s'))
    (hk : ∀ e ∈ es, ∀ part, e ≠ .publisher k part) : s'.sessions k = s.sessions k := by
  induction es generalizing s rs with
  | nil =>
    obtain ⟨-, rfl⟩ := Prod.mk.inj (Outcome.ok.inj hrun)
    rfl
  | cons e es ih =>
    obtain ⟨r, s₁, rs', hstep, hrest, -⟩ := Outcome.runList_cons_eq_ok.mp hrun
    rw [ih hrest fun e' he' => hk e' (List.mem_cons_of_mem e he'),
      sessions_step hstep (hk e List.mem_cons_self)]

end PublisherState

open PublisherState in
/-- **Publisher exclusivity.**  When no box is created under the name of a session
that goes on, and no session ends with the index of another box while its own is
there or while that one has a session, every box has at most one session and a
flag that says whether it has one. -/
theorem exclusive_of_permitted {fs : TfsState} {es : List PublisherEvent} {rs : List Unit}
    {s : PublisherState} (hrun : Outcome.runList step es (start fs) = .ok (rs, s))
    (hok : ∀ e s', Outcome.Reaches step es (start fs) e s' → Permitted e s') : s.Exclusive :=
  (Outcome.runList_invariant_of_reaches (fun _ _ _ _ h hok hstep => h.step hok hstep) hok
    (inv_start fs) hrun).exclusive

/-- Two boxes, a publisher on the first one, and the removal of the other. -/
def removedBehind : List PublisherEvent :=
  [.create (.ofBuffer [97]) .zero, .publisher 0 (.register (.ofBuffer [112]) (.ofBuffer [97])),
    .create (.ofBuffer [98]) .zero, .remove (.ofBuffer [98]), .publisher 0 .disconnect]

open PublisherState in
theorem exclusive_removedBehind : ∃ rs s,
    Outcome.runList step removedBehind (start initial) = .ok (rs, s) ∧ s.Exclusive := by
  have h : (step (.create (.ofBuffer [97]) .zero) (start initial) >>= fun s₁ =>
      step (.publisher 0 (.register (.ofBuffer [112]) (.ofBuffer [97]))) s₁.2 >>= fun s₂ =>
      step (.create (.ofBuffer [98]) .zero) s₂.2 >>= fun s₃ =>
      step (.remove (.ofBuffer [98])) s₃.2 >>= fun s₄ =>
      (step (.publisher 0 .disconnect) s₄.2).map fun _ =>
        ((s₂.2.sessions 0).map PublisherSession.boxName, s₄.2.broker.table.nBoxes,
          s₄.2.broker.table.name 0, (s₄.2.sessions 0).map fun p => (p.boxName, p.boxIndex))) =
      .ok (some (.ofBuffer [97]), 1, .ofBuffer [97], some (.ofBuffer [97], 0)) := by
    decide +kernel
  obtain ⟨⟨r₁, s₁⟩, h₁, h⟩ := Outcome.bind_eq_ok.mp h
  obtain ⟨⟨r₂, s₂⟩, h₂, h⟩ := Outcome.bind_eq_ok.mp h
  obtain ⟨⟨r₃, s₃⟩, h₃, h⟩ := Outcome.bind_eq_ok.mp h
  obtain ⟨⟨r₄, s₄⟩, h₄, h⟩ := Outcome.bind_eq_ok.mp h
  obtain ⟨⟨r₅, s₅⟩, h₅, h⟩ := Outcome.map_eq_ok.mp h
  simp only [Prod.mk.injEq] at h
  obtain ⟨hs₂, hn, hname, hs₄⟩ := h
  have hrun : Outcome.runList step removedBehind (start initial) =
      .ok ([r₁, r₂, r₃, r₄, r₅], s₅) := by
    simp [removedBehind, Outcome.runList, h₁, h₂, h₃, h₄, h₅]
  refine ⟨_, s₅, hrun, exclusive_of_permitted hrun fun e s' hreach => ?_⟩
  -- The states in which the five events happen.
  rcases Outcome.reaches_cons.mp hreach with ⟨rfl, rfl⟩ | ⟨r, s, h₁', hreach⟩
  · rintro - ⟨k, p, hk, -⟩
    cases hk
  obtain ⟨rfl, rfl⟩ := Prod.mk.inj (Outcome.ok.inj (h₁.symm.trans h₁'))
  rcases Outcome.reaches_cons.mp hreach with ⟨rfl, rfl⟩ | ⟨r, s, h₂', hreach⟩
  · trivial
  obtain ⟨rfl, rfl⟩ := Prod.mk.inj (Outcome.ok.inj (h₂.symm.trans h₂'))
  rcases Outcome.reaches_cons.mp hreach with ⟨rfl, rfl⟩ | ⟨r, s, h₃', hreach⟩
  · rintro - ⟨k, p, hk, hp⟩
    by_cases hk0 : k = 0
    · subst hk0
      rw [hk, Option.map_some, Option.some.injEq, hp] at hs₂
      exact absurd hs₂ (by decide)
    · rw [sessions_step h₂ fun part heq => hk0 (PublisherEvent.publisher.inj heq).1.symm,
        sessions_step h₁ fun part heq => by cases heq] at hk
      cases hk
  obtain ⟨rfl, rfl⟩ := Prod.mk.inj (Outcome.ok.inj (h₃.symm.trans h₃'))
  rcases Outcome.reaches_cons.mp hreach with ⟨rfl, rfl⟩ | ⟨r, s, h₄', hreach⟩
  · trivial
  obtain ⟨rfl, rfl⟩ := Prod.mk.inj (Outcome.ok.inj (h₄.symm.trans h₄'))
  rcases Outcome.reaches_cons.mp hreach with ⟨rfl, rfl⟩ | ⟨r, s, h₅', hreach⟩
  · intro p hp
    rw [hp, Option.map_some, Option.some.injEq, Prod.mk.injEq] at hs₄
    refine ⟨fun i hi _ => by omega, fun hgone => absurd hname ?_⟩
    rw [← hs₄.1]
    exact hgone 0 (by omega)
  · exact absurd hreach Outcome.reaches_nil

/-- Two boxes, a publisher on the second one, and the removal of the first, which
puts the second in its place. -/
def removedBefore : List PublisherEvent :=
  [.create (.ofBuffer [97]) .zero, .create (.ofBuffer [98]) .zero,
    .publisher 0 (.register (.ofBuffer [112]) (.ofBuffer [98])), .remove (.ofBuffer [97]),
    .publisher 0 .disconnect]

open PublisherState in
/-- The flag that is cleared is the one at the old index, and the box's own stays. -/
theorem not_exclusive_removedBefore : ∃ rs s,
    Outcome.runList step removedBefore (start initial) = .ok (rs, s) ∧ ¬ s.Exclusive := by
  have h : (Outcome.runList step removedBefore (start initial)).map (fun p =>
      (p.2.broker.table.nBoxes, (p.2.broker.table.boxes 0).nPublishers,
        (p.2.sessions 0).map PublisherSession.boxIndex)) = .ok (1, 1, none) := by
    decide +kernel
  obtain ⟨⟨rs, s⟩, hrun, hs⟩ := Outcome.map_eq_ok.mp h
  simp only [Prod.mk.injEq, Option.map_eq_none_iff] at hs
  obtain ⟨hn, hflag, hnone⟩ := hs
  refine ⟨rs, s, hrun, fun hex => ?_⟩
  obtain ⟨k, p, hk, -⟩ := (hex 0 (by omega)).2.mp hflag
  by_cases hk0 : k = 0
  · rw [hk0, hnone] at hk
    cases hk
  · have hsame : s.sessions k = (start initial).sessions k := by
      refine sessions_run hrun fun e he part heq => ?_
      subst heq
      simp [removedBefore] at he
      omega
    rw [hsame] at hk
    cases hk

end Mbroker
