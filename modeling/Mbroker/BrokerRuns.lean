/-
All handlers on one broker.

Handlers are started and make their calls in any order; each call works on the boxes
and on the file system as it is then.  A run goes on up to a process exit or
undefined behaviour.

* `perform_sameNames` — most calls leave the names of the boxes and of the files;
* `BrokerState.Inv` — what the names are while a box is created or removed;
* **`contained_of_alone`** — as long as creations and removals do not overlap, every box has a
  file, and the array of boxes is large enough.
-/
import Mbroker.Programs
import Mbroker.TfsNames
import Mbroker.TfsRuns

namespace Mbroker

open Tfs

/-- A request that creates or removes a box. -/
def Client.ChangesBoxes : Client → Prop
  | .create _ _ => True
  | .remove _ _ => True
  | _ => False

/-- The broker and its handlers. -/
structure BrokerState where
  broker : Broker
  handlers : Nat → Option Program

/-- A turn: handler `k` is started, or makes its next call. -/
inductive BrokerTurn where
  | start (k : Nat) (client : Client) (locals : Locals)
  | step (k : Nat) (env : Answer)

namespace BrokerState

/-- No handler has been started. -/
def start (b : Broker) : BrokerState := ⟨b, fun _ => none⟩

def setHandler (k : Nat) (p : Program) (s : BrokerState) : BrokerState :=
  { s with handlers := Function.update s.handlers k (some p) }

/-- A turn. -/
def step : BrokerTurn → BrokerState → Outcome (Unit × BrokerState)
  | .start k client locals, s =>
    match s.handlers k with
    | none => .ok ((), s.setHandler k (.start client locals))
    | some _ => .ok ((), s)
  | .step k env, s =>
    match s.handlers k with
    | none => .ok ((), s)
    | some p =>
      match p.call with
      | none => .ok ((), s)
      | some call => do
        let (a, b) ← perform call env s.broker
        let p ← p.resume a
        return ((), { s with broker := b }.setHandler k p)

/-- Creations and removals do not overlap. -/
def Alone : BrokerTurn → BrokerState → Prop
  | .start _ client _, s => client.ChangesBoxes → ∀ k p, s.handlers k = some p → ¬ p.ChangesBoxes
  | .step _ _, _ => True

variable {s s' : BrokerState} {t : BrokerTurn} {k : Nat} {p p' : Program} {call : Call}
  {a env : Answer} {b b' : Broker} {r : Unit}

/-- **What a turn can do.** -/
theorem step_cases (h : step t s = .ok (r, s')) :
    (s' = s ∧ ∀ k env p, t = .step k env → s.handlers k = some p → p.call = none) ∨
      (∃ k client locals, t = .start k client locals ∧ s.handlers k = none ∧
        s' = s.setHandler k (.start client locals)) ∨
      ∃ k env p call a b p', t = .step k env ∧ s.handlers k = some p ∧ p.call = some call ∧
        perform call env s.broker = .ok (a, b) ∧ p.resume a = .ok p' ∧
        s' = { s with broker := b }.setHandler k p' := by
  cases t with
  | start k client locals =>
    rw [step] at h
    split at h
    · obtain ⟨-, rfl⟩ := Prod.mk.inj (Outcome.ok.inj h)
      exact Or.inr (Or.inl ⟨k, client, locals, rfl, ‹_›, rfl⟩)
    · obtain ⟨-, rfl⟩ := Prod.mk.inj (Outcome.ok.inj h)
      exact Or.inl ⟨rfl, fun _ _ _ ht => (by cases ht)⟩
  | step k env =>
    rw [step] at h
    split at h
    case h_1 hk =>
      obtain ⟨-, rfl⟩ := Prod.mk.inj (Outcome.ok.inj h)
      refine Or.inl ⟨rfl, fun k' env' p ht hp => ?_⟩
      cases ht
      rw [hk] at hp
      cases hp
    case h_2 p hk =>
      split at h
      case h_1 hcall =>
        obtain ⟨-, rfl⟩ := Prod.mk.inj (Outcome.ok.inj h)
        refine Or.inl ⟨rfl, fun k' env' p' ht hp => ?_⟩
        cases ht
        obtain rfl := Option.some.inj (hk.symm.trans hp)
        exact hcall
      case h_2 call hcall =>
        obtain ⟨⟨a, b⟩, hperform, h⟩ := Outcome.bind_eq_ok.mp h
        obtain ⟨p', hresume, h⟩ := Outcome.bind_eq_ok.mp h
        obtain ⟨-, rfl⟩ := Prod.mk.inj (Outcome.ok.inj h)
        exact Or.inr (Or.inr ⟨k, env, p, call, a, b, p', rfl, hk, hcall, hperform, hresume, rfl⟩)

end BrokerState

/-! ### The calls that leave the names -/

/-- A call that adds or removes no box and no file. -/
def Call.KeepsNames : Call → Prop
  | .addBox _ => False
  | .deleteBox _ => False
  | .tfs call => TfsState.KeepsNames call
  | _ => True

/-- The boxes and the files have the same names, the boxes in the same places. -/
structure Broker.SameNames (b b' : Broker) : Prop where
  nBoxes : b'.table.nBoxes = b.table.nBoxes
  name : b'.table.name = b.table.name
  fs : b.fs.SameNames b'.fs

section Names

variable {b b' : Broker} {call : Call} {a env : Answer} {i : Int} {q : CString} {p p' : Program}

theorem atBox_eq_ok {access : Nat → Outcome (Answer × Broker)} {r : Answer × Broker} :
    atBox i access = .ok r ↔ (0 ≤ i ∧ i.toNat < maxBoxes) ∧ access i.toNat = .ok r := by
  rw [atBox]
  split
  · simp
    omega
  · constructor
    · exact fun h => ⟨by omega, h⟩
    · exact fun h => h.2

theorem atBox_of_mem {access : Nat → Outcome (Answer × Broker)} (h : 0 ≤ i ∧ i.toNat < maxBoxes) :
    atBox i access = access i.toNat := by
  rw [atBox, if_neg (by omega)]

/-- A call that adds or removes no box. -/
def Call.KeepsBoxes : Call → Prop
  | .addBox _ => False
  | .deleteBox _ => False
  | _ => True

/-- A call that changes neither `n_subscribers` nor `subscriber_index` of a box. -/
def Call.KeepsCounts : Call → Prop
  | .addBox _ => False
  | .deleteBox _ => False
  | .addSubscriberToBox _ _ => False
  | .incNSubscribers _ => False
  | .decNSubscribers _ => False
  | _ => True

/-- What a call does to the broker: nothing; a call of the file system; an assignment to
fields of a record, of which the name is none; or a change of the array. -/
inductive PerformSpec (b : Broker) : Call → Answer → Broker → Prop where
  | same {call : Call} {a : Answer} : PerformSpec b call a b
  | files {c : TfsCall} {r : Reply} {fs : TfsState} (h : tfsCall c b.fs = .ok (r, fs)) :
      PerformSpec b (.tfs c) { ret := r.ret, bytes := r.bytes } { b with fs := fs }
  | record {call : Call} (i : Nat) (f : Box → Box)
      (hname : ∀ box, (f box).boxName = box.boxName)
      (hcounts : call.KeepsCounts → ∀ box, (f box).nSubscribers = box.nSubscribers ∧
        (f box).subscriberIndex = box.subscriberIndex) :
      PerformSpec b call {} { b with table := b.table.modify i f }
  | addBox {box : Box} {table : BoxTable} (h : addBox box b.table = .ok table) :
      PerformSpec b (.addBox box) {} { b with table := table }
  | deleteBox {i : Int} {table : BoxTable} (h : deleteBox i b.table = .ok table) :
      PerformSpec b (.deleteBox i) {} { b with table := table }
  | addSubscriber {i : Int} {pipeName : CString} {table : BoxTable}
      (h : addSubscriberToBox i.toNat pipeName b.table = .ok table) :
      PerformSpec b (.addSubscriberToBox i pipeName) {} { b with table := table }

theorem perform_spec (h : perform call env b = .ok (a, b')) : PerformSpec b call a b' := by
  cases call with
  | addBox | deleteBox =>
    obtain ⟨table, htable, h⟩ := Outcome.bind_eq_ok.mp h
    obtain ⟨rfl, rfl⟩ := Prod.mk.inj (Outcome.ok.inj h)
    constructor
    exact htable
  | tfs call =>
    obtain ⟨⟨r, fs⟩, hcall, h⟩ := Outcome.bind_eq_ok.mp h
    obtain ⟨rfl, rfl⟩ := Prod.mk.inj (Outcome.ok.inj h)
    exact .files hcall
  | addSubscriberToBox =>
    rw [perform] at h
    obtain ⟨-, h⟩ := atBox_eq_ok.mp h
    obtain ⟨table, hadd, h⟩ := Outcome.bind_eq_ok.mp h
    obtain ⟨rfl, rfl⟩ := Prod.mk.inj (Outcome.ok.inj h)
    exact .addSubscriber hadd
  | incNSubscribers | decNSubscribers =>
    rw [perform] at h
    obtain ⟨-, h⟩ := atBox_eq_ok.mp h
    obtain ⟨rfl, rfl⟩ := Prod.mk.inj (Outcome.ok.inj h)
    exact .record _ _ (fun _ => rfl) fun hc => hc.elim
  | setNPublishers | setPublisher | addBoxSize | markLast | clearLast =>
    rw [perform] at h
    obtain ⟨-, h⟩ := atBox_eq_ok.mp h
    obtain ⟨rfl, rfl⟩ := Prod.mk.inj (Outcome.ok.inj h)
    exact .record _ _ (fun _ => rfl) fun _ _ => ⟨rfl, rfl⟩
  | nPublishers | copyBox | mutexLock | mutexUnlock | condWait | condBroadcast =>
    rw [perform] at h
    obtain ⟨-, h⟩ := atBox_eq_ok.mp h
    obtain ⟨rfl, rfl⟩ := Prod.mk.inj (Outcome.ok.inj h)
    exact .same
  | nSubscribers =>
    rw [perform] at h
    split at h
    · obtain ⟨rfl, rfl⟩ := Prod.mk.inj (Outcome.ok.inj h)
      exact .same
    · obtain ⟨rfl, rfl⟩ := Prod.mk.inj (Outcome.ok.inj h)
      exact .same
  | findBox | nBoxes | openPipe | readPipe | write | close | pcqDequeue | exit =>
    obtain ⟨rfl, rfl⟩ := Prod.mk.inj (Outcome.ok.inj h)
    exact .same

theorem perform_names (h : perform call env b = .ok (a, b')) (hc : call.KeepsBoxes) :
    b'.table.nBoxes = b.table.nBoxes ∧ b'.table.name = b.table.name := by
  cases perform_spec h with
  | same => exact ⟨rfl, rfl⟩
  | files => exact ⟨rfl, rfl⟩
  | record i f hname => exact ⟨rfl, BoxTable.name_modify hname⟩
  | addBox => exact hc.elim
  | deleteBox => exact hc.elim
  | addSubscriber hadd => exact BoxTable.of_addSubscriberToBox hadd

/-- A call of the file system, or one that leaves it alone. -/
theorem perform_fs (h : perform call env b = .ok (a, b')) : b'.fs = b.fs ∨
    ∃ c r, call = .tfs c ∧ tfsCall c b.fs = .ok (r, b'.fs) ∧ a.ret = r.ret := by
  cases perform_spec h with
  | files hcall => exact Or.inr ⟨_, _, rfl, hcall, rfl⟩
  | _ => exact Or.inl rfl

theorem Call.KeepsNames.boxes (h : call.KeepsNames) : call.KeepsBoxes := by
  cases call with
  | addBox => exact h
  | deleteBox => exact h
  | _ => trivial

theorem perform_sameNames (hs : b.fs.Inv) (hc : call.KeepsNames)
    (h : perform call env b = .ok (a, b')) : b.SameNames b' ∧ b'.fs.Inv := by
  obtain ⟨hn, hname⟩ := perform_names h hc.boxes
  rcases perform_fs h with heq | ⟨c, r, rfl, hcall, -⟩
  · refine ⟨⟨hn, hname, ?_⟩, heq ▸ hs⟩
    rw [heq]
    exact TfsState.sameNames_refl b.fs
  · exact ⟨⟨hn, hname, hs.sameNames_of_tfsCall hc hcall⟩, hs.tfsCall hcall⟩

theorem ReplyFrame.keepsNames {f : ReplyFrame} (h : f.call = some call) : call.KeepsNames := by
  obtain ⟨place, code, pipeName, returnCode, managerPipe⟩ := f
  cases place <;> cases h <;> trivial

/-- The reply is decided before it is sent. -/
theorem ReplyFrame.returnCode_resume (f : ReplyFrame) :
    (f.resume a).returnCode = f.returnCode := by
  obtain ⟨place, c, pipeName, returnCode, managerPipe⟩ := f
  rw [resume]
  cases place with
  | writeCode =>
    dsimp only
    split <;> rfl
  | writeReply =>
    dsimp only
    split
    · rfl
    · split <;> rfl
  | _ => rfl

/-- Publishers, subscribers and listings leave the names. -/
theorem Program.keepsNames (hp : ¬ p.ChangesBoxes) (h : p.call = some call) : call.KeepsNames := by
  cases p with
  | publisher f =>
    obtain ⟨place, pipeName, boxName, boxHandle, boxIndex, ver, sessionHandle, pubPipe, buffer⟩ := f
    cases place <;> cases h <;> trivial
  | subscriber f =>
    obtain ⟨place, pipeName, boxName, boxIndex, num, boxHandle, subscriberPipe, charBuffer, buffer,
      i⟩ := f
    cases place <;> cases h <;> trivial
  | create f =>
    refine absurd (fun hnone => ?_) hp
    rw [show f.call = some call from h] at hnone
    cases hnone
  | remove f =>
    refine absurd (fun hnone => ?_) hp
    rw [show f.call = some call from h] at hnone
    cases hnone
  | list f =>
    obtain ⟨place, pipeName, manPipe, i, replyBox⟩ := f
    cases place <;> cases h <;> trivial

/-- And they do not turn into anything else. -/
theorem Program.changesBoxes_resume (h : p.call = some call) (hp : p.resume a = .ok p')
    (hp' : p'.ChangesBoxes) : p.ChangesBoxes := by
  cases p with
  | publisher f =>
    obtain ⟨f', -, h⟩ := Outcome.bind_eq_ok.mp hp
    obtain rfl := Outcome.ok.inj h
    exact hp'
  | subscriber f =>
    obtain ⟨f', -, h⟩ := Outcome.bind_eq_ok.mp hp
    obtain rfl := Outcome.ok.inj h
    exact hp'
  | create f => exact fun hnone => (by rw [show f.call = some call from h] at hnone; cases hnone)
  | remove f => exact fun hnone => (by rw [show f.call = some call from h] at hnone; cases hnone)
  | list f =>
    obtain rfl := Outcome.ok.inj hp
    exact hp'

end Names

/-! ### What the names are meanwhile -/

/-- Every box has a file, and no two boxes have one name. -/
structure Broker.Contained (b : Broker) : Prop where
  distinct : b.table.Distinct
  names : ∀ q, b.table.Holds q → b.fs.InDir q

/-- The same, but for the file of a box that is being removed. -/
structure Broker.ContainedBut (boxName : CString) (b : Broker) : Prop where
  distinct : b.table.Distinct
  names : ∀ q, b.table.Holds q → q ≠ boxName → b.fs.InDir q

/-- What holds when `create_box` gets to a place. -/
def CreateFrame.Expects (f : CreateFrame) (b : Broker) : Prop :=
  b.Contained ∧
    match f.place with
    | .findBox => True
    | .tfsOpen => ¬ b.table.Holds f.boxName
    | .tfsClose | .addBox =>
      ¬ b.table.Holds f.boxName ∧ b.fs.InDir f.boxName ∧ f.box.boxName = f.boxName
    | .reply _ => True

/-- What holds when `remove_box` gets to a place. -/
def RemoveFrame.Expects (f : RemoveFrame) (b : Broker) : Prop :=
  match f.place with
  | .tfsUnlink => b.Contained
  | .findBox => b.ContainedBut f.boxName
  | .broadcast | .deleteBox =>
    b.ContainedBut f.boxName ∧ ∃ i < b.table.nBoxes, f.boxIndex = i ∧ b.table.name i = f.boxName
  | .reply _ => b.Contained

def Program.Expects (p : Program) (b : Broker) : Prop :=
  match p with
  | .create f => f.Expects b
  | .remove f => f.Expects b
  | _ => True

/-- The bounds of the array and of the directory. -/
structure Broker.Bounded (b : Broker) : Prop where
  fs : b.fs.Inv
  params : b.fs.fsParams = tfsDefaultParams
  nBoxes_le : b.table.nBoxes ≤ b.fs.maxDirEntries

namespace BrokerState

structure Inv (s : BrokerState) : Prop where
  bounded : s.broker.Bounded
  one : ∀ k k' p p', s.handlers k = some p → s.handlers k' = some p' →
    p.ChangesBoxes → p'.ChangesBoxes → k = k'
  idle : (∀ k p, s.handlers k = some p → ¬ p.ChangesBoxes) → s.broker.Contained
  busy : ∀ k p, s.handlers k = some p → p.ChangesBoxes → p.Expects s.broker

end BrokerState

section Expects

variable {b b' : Broker} {call : Call} {a env : Answer} {q boxName : CString} {p p' : Program}

theorem Broker.SameNames.holds (h : b.SameNames b') : b'.table.Holds q ↔ b.table.Holds q := by
  rw [BoxTable.Holds, BoxTable.Holds, h.nBoxes, h.name]

theorem Broker.SameNames.contained (h : b.SameNames b') (hb : b.Contained) : b'.Contained :=
  ⟨hb.distinct.congr h.nBoxes h.name, fun q hq => (h.fs.1 q).mpr (hb.names q (h.holds.mp hq))⟩

theorem Broker.SameNames.containedBut (h : b.SameNames b') (hb : b.ContainedBut boxName) :
    b'.ContainedBut boxName :=
  ⟨hb.distinct.congr h.nBoxes h.name,
    fun q hq hne => (h.fs.1 q).mpr (hb.names q (h.holds.mp hq) hne)⟩

theorem Broker.SameNames.bounded (h : b.SameNames b') (hb : b.Bounded) (hs : b'.fs.Inv) :
    b'.Bounded := by
  refine ⟨hs, h.fs.2.trans hb.params, ?_⟩
  rw [h.nBoxes, TfsState.maxDirEntries, h.fs.2]
  exact hb.nBoxes_le

/-- The directory is smaller than the array. -/
theorem Broker.Bounded.nBoxes_lt (h : b.Bounded) : b.table.nBoxes < maxBoxes := by
  have hle := h.nBoxes_le
  have hentries : b.fs.maxDirEntries = 23 := by rw [TfsState.maxDirEntries, h.params]; rfl
  rw [hentries] at hle
  exact lt_of_le_of_lt hle (by decide)

theorem Broker.Contained.nBoxes_le (h : b.Contained) : b.table.nBoxes ≤ b.fs.maxDirEntries :=
  TfsState.card_names h.distinct fun i hi => h.names _ ⟨i, hi, rfl⟩

/-- Without its box, the file is not missed. -/
theorem Broker.ContainedBut.contained (h : b.ContainedBut boxName) (hno : ¬ b.table.Holds boxName) :
    b.Contained :=
  ⟨h.distinct, fun q hq => h.names q hq fun heq => hno (heq ▸ hq)⟩

/-- A step that leaves the names leaves the bounds. -/
theorem Broker.Bounded.perform (hb : b.Bounded) (h : Mbroker.perform call env b = .ok (a, b'))
    (hc : call.KeepsNames) : b.SameNames b' ∧ b'.Bounded := by
  obtain ⟨hsame, hs⟩ := perform_sameNames hb.fs hc h
  exact ⟨hsame, hsame.bounded hb hs⟩

/-- `create_box` goes on. -/
theorem CreateFrame.expects_resume {f : CreateFrame} (hb : b.Bounded) (h : f.Expects b)
    (hcall : f.call = some call) (hperform : perform call env b = .ok (a, b')) :
    (f.resume a).Expects b' ∧ b'.Bounded := by
  obtain ⟨hcontained, h⟩ := h
  obtain ⟨place, pipeName, boxName, box, boxHandle⟩ := f
  rw [resume]
  cases place with
  | findBox =>
    cases hcall
    obtain ⟨rfl, rfl⟩ := Prod.mk.inj (Outcome.ok.inj hperform)
    dsimp only
    split
    case isTrue => exact ⟨⟨hcontained, trivial⟩, hb⟩
    case isFalse hfind => exact ⟨⟨hcontained, BoxTable.findBox_ne_neg.not.mp hfind⟩, hb⟩
  | tfsOpen =>
    cases hcall
    obtain ⟨⟨r, fs⟩, htfs, hperform⟩ := Outcome.bind_eq_ok.mp hperform
    obtain ⟨⟨boxHandle, fs⟩, hopen, htfs⟩ := Outcome.bind_eq_ok.mp htfs
    obtain ⟨rfl, rfl⟩ := Prod.mk.inj (Outcome.ok.inj htfs)
    obtain ⟨rfl, rfl⟩ := Prod.mk.inj (Outcome.ok.inj hperform)
    -- The file may be in the directory even if it could not be opened.
    obtain ⟨hkept, hnew, hparams⟩ := hb.fs.names_of_tfsOpen hopen
    have hcontained' : Broker.Contained { b with fs := fs } :=
      ⟨hcontained.distinct, fun q hq => hkept q (hcontained.names q hq)⟩
    have hb' : Broker.Bounded { b with fs := fs } :=
      ⟨hb.fs.of_tfsOpen hopen, hparams.trans hb.params, hcontained'.nBoxes_le⟩
    dsimp only
    split
    case isTrue => exact ⟨⟨hcontained', trivial⟩, hb'⟩
    case isFalse hr => exact ⟨⟨hcontained', h, hnew hr, rfl⟩, hb'⟩
  | tfsClose =>
    cases hcall
    obtain ⟨hsame, hb'⟩ := hb.perform hperform trivial
    obtain ⟨hno, hin, hname⟩ := h
    exact ⟨⟨hsame.contained hcontained, hsame.holds.not.mpr hno, (hsame.fs.1 _).mpr hin, hname⟩, hb'⟩
  | addBox =>
    cases hcall
    obtain ⟨table, hadd, hperform⟩ := Outcome.bind_eq_ok.mp hperform
    obtain ⟨rfl, rfl⟩ := Prod.mk.inj (Outcome.ok.inj hperform)
    -- The name is new in the table, and it is that of a file.
    obtain ⟨hno, hin, hname⟩ := h
    have hname : box.boxName = boxName := hname
    have hcontained' : Broker.Contained { b with table := table } := by
      refine ⟨hcontained.distinct.addBox hadd fun i hi heq => hno ⟨i, hi, heq.trans hname⟩,
        fun q hq => ?_⟩
      rcases (BoxTable.holds_addBox hadd).mp hq with hq | rfl
      · exact hcontained.names q hq
      · exact hname ▸ hin
    exact ⟨⟨hcontained', trivial⟩, hb.fs, hb.params, hcontained'.nBoxes_le⟩
  | reply r =>
    obtain ⟨hsame, hb'⟩ := hb.perform hperform (r.keepsNames hcall)
    exact ⟨⟨hsame.contained hcontained, trivial⟩, hb'⟩

/-- `remove_box` goes on. -/
theorem RemoveFrame.expects_resume {f : RemoveFrame} (hb : b.Bounded) (h : f.Expects b)
    (hcall : f.call = some call) (hperform : perform call env b = .ok (a, b')) :
    (f.resume a).Expects b' ∧ b'.Bounded := by
  obtain ⟨place, pipeName, boxName, boxIndex⟩ := f
  rw [resume]
  cases place with
  | tfsUnlink =>
    cases hcall
    have h : b.Contained := h
    obtain ⟨⟨r, fs⟩, htfs, hperform⟩ := Outcome.bind_eq_ok.mp hperform
    obtain ⟨⟨boxHandle, fs⟩, hunlink, htfs⟩ := Outcome.bind_eq_ok.mp htfs
    obtain ⟨rfl, rfl⟩ := Prod.mk.inj (Outcome.ok.inj htfs)
    obtain ⟨rfl, rfl⟩ := Prod.mk.inj (Outcome.ok.inj hperform)
    dsimp only
    -- The file goes before its box does.
    rcases hb.fs.names_of_tfsUnlink hunlink with ⟨rfl, rfl⟩ | ⟨rfl, -, hparams, hnames⟩
    · rw [if_pos rfl]
      exact ⟨h, hb⟩
    · rw [if_neg (by omega)]
      refine ⟨⟨h.distinct, fun q hq hne => (hnames q).mpr ⟨h.names q hq, hne⟩⟩,
        hb.fs.of_tfsUnlink hunlink, hparams.trans hb.params, ?_⟩
      show b.table.nBoxes ≤ fs.maxDirEntries
      rw [TfsState.maxDirEntries, hparams]
      exact hb.nBoxes_le
  | findBox =>
    cases hcall
    have h : b.ContainedBut boxName := h
    obtain ⟨rfl, rfl⟩ := Prod.mk.inj (Outcome.ok.inj hperform)
    dsimp only
    split
    case isTrue hfind =>
      -- No box misses the file.
      exact ⟨h.contained fun hheld => BoxTable.findBox_ne_neg.mpr hheld hfind, hb⟩
    case isFalse hfind =>
      obtain ⟨i, hi, hfi, hname⟩ := BoxTable.of_findBox hfind
      exact ⟨⟨h, i, hi, hfi, hname⟩, hb⟩
  | broadcast =>
    cases hcall
    obtain ⟨h, i, hi, hindex, hname⟩ := h
    obtain ⟨hsame, hb'⟩ := hb.perform hperform trivial
    refine ⟨⟨hsame.containedBut h, i, ?_, hindex, ?_⟩, hb'⟩
    · rw [hsame.nBoxes]
      exact hi
    · rw [hsame.name]
      exact hname
  | deleteBox =>
    cases hcall
    obtain ⟨h, i, hi, hindex, hname⟩ := h
    obtain ⟨table, hdelete, hperform⟩ := Outcome.bind_eq_ok.mp hperform
    obtain ⟨rfl, rfl⟩ := Prod.mk.inj (Outcome.ok.inj hperform)
    obtain rfl : boxIndex = i := hindex
    have hname : b.table.name i = boxName := hname
    have hcontained : Broker.Contained { b with table := table } := by
      refine ⟨h.distinct.deleteBox hdelete, fun q hq => ?_⟩
      obtain ⟨hq, hne⟩ := (h.distinct.holds_deleteBox hdelete hi).mp hq
      exact h.names q hq fun heq => hne (hname.trans heq.symm)
    exact ⟨hcontained, hb.fs, hb.params, hcontained.nBoxes_le⟩
  | reply r =>
    obtain ⟨hsame, hb'⟩ := hb.perform hperform (r.keepsNames hcall)
    exact ⟨hsame.contained h, hb'⟩

/-- What is left when `remove_box` has returned. -/
theorem RemoveFrame.Expects.contained {f : RemoveFrame} (h : f.Expects b) (hcall : f.call = none) :
    b.Contained := by
  obtain ⟨place, pipeName, boxName, boxIndex⟩ := f
  cases place with
  | reply r => exact h
  | _ => cases hcall

/-- **A creation or a removal goes on.** -/
theorem Program.expects_resume (hb : b.Bounded) (h : p.Expects b) (hp : p.ChangesBoxes)
    (hcall : p.call = some call) (hperform : perform call env b = .ok (a, b'))
    (hresume : p.resume a = .ok p') :
    p'.Expects b' ∧ b'.Bounded ∧ (¬ p'.ChangesBoxes → b'.Contained) := by
  cases p with
  | create f =>
    obtain rfl := Outcome.ok.inj hresume
    obtain ⟨hexpects, hb'⟩ := CreateFrame.expects_resume hb h hcall hperform
    exact ⟨hexpects, hb', fun _ => hexpects.1⟩
  | remove f =>
    obtain rfl := Outcome.ok.inj hresume
    obtain ⟨hexpects, hb'⟩ := RemoveFrame.expects_resume hb h hcall hperform
    exact ⟨hexpects, hb', fun hno => RemoveFrame.Expects.contained hexpects (not_not.mp hno)⟩
  | publisher f => exact hp.elim
  | subscriber f => exact hp.elim
  | list f => exact hp.elim

/-- What another handler expects is not touched by a step that leaves the names. -/
theorem Program.Expects.sameNames (h : p.Expects b) (hsame : b.SameNames b') : p.Expects b' := by
  have hbox : ∀ {i : Nat} {q : CString}, i < b.table.nBoxes → b.table.name i = q →
      i < b'.table.nBoxes ∧ b'.table.name i = q := by
    intro i q hi hq
    rw [hsame.nBoxes, hsame.name]
    exact ⟨hi, hq⟩
  cases p with
  | create f =>
    obtain ⟨place, pipeName, boxName, box, boxHandle⟩ := f
    obtain ⟨hcontained, h⟩ := h
    refine ⟨hsame.contained hcontained, ?_⟩
    cases place with
    | findBox => trivial
    | tfsOpen => exact hsame.holds.not.mpr h
    | tfsClose => exact ⟨hsame.holds.not.mpr h.1, (hsame.fs.1 _).mpr h.2.1, h.2.2⟩
    | addBox => exact ⟨hsame.holds.not.mpr h.1, (hsame.fs.1 _).mpr h.2.1, h.2.2⟩
    | reply r => trivial
  | remove f =>
    obtain ⟨place, pipeName, boxName, boxIndex⟩ := f
    cases place with
    | tfsUnlink => exact hsame.contained h
    | findBox => exact hsame.containedBut h
    | broadcast =>
      obtain ⟨h, i, hi, hindex, hname⟩ := h
      exact ⟨hsame.containedBut h, i, (hbox hi hname).1, hindex, (hbox hi hname).2⟩
    | deleteBox =>
      obtain ⟨h, i, hi, hindex, hname⟩ := h
      exact ⟨hsame.containedBut h, i, (hbox hi hname).1, hindex, (hbox hi hname).2⟩
    | reply r => exact hsame.contained h
  | publisher f => trivial
  | subscriber f => trivial
  | list f => trivial

/-- A handler that has just been started. -/
theorem Program.changesBoxes_start (client : Client) (locals : Locals) :
    (start client locals).ChangesBoxes ↔ client.ChangesBoxes := by
  cases client with
  | create => exact ⟨fun _ => trivial, fun _ => nofun⟩
  | remove => exact ⟨fun _ => trivial, fun _ => nofun⟩
  | _ => exact Iff.rfl

theorem Program.expects_start (h : b.Contained) (client : Client) (locals : Locals) :
    (start client locals).Expects b := by
  cases client with
  | create => exact ⟨h, trivial⟩
  | remove => exact h
  | _ => trivial

end Expects

namespace BrokerState

variable {s s' : BrokerState} {t : BrokerTurn} {k : Nat} {p p' : Program} {call : Call}
  {a env : Answer} {b b' : Broker} {r : Unit}

theorem inv_start {fs : TfsState} (h : Started none fs) : (start ⟨fs, .empty⟩).Inv := by
  have hfresh := h.fresh inRange_tfsDefaultParams
  refine ⟨⟨hfresh.inv, h.fsParams inRange_tfsDefaultParams, Nat.zero_le _⟩,
    fun _ _ _ _ h => (by cases h), fun _ => ⟨?_, ?_⟩, fun _ _ h => (by cases h)⟩
  · exact fun i hi => absurd hi (Nat.not_lt_zero i)
  · exact fun q ⟨i, hi, _⟩ => absurd hi (Nat.not_lt_zero i)

/-- The file system keeps its invariant, whatever the handlers do. -/
theorem fsInv_step (hs : s.broker.fs.Inv) (h : BrokerState.step t s = .ok (r, s')) :
    s'.broker.fs.Inv := by
  rcases step_cases h with ⟨rfl, -⟩ | ⟨k, client, locals, -, -, rfl⟩ |
    ⟨k, env, p, call, a, b, p', -, -, -, hperform, -, rfl⟩
  · exact hs
  · exact hs
  · rcases perform_fs hperform with heq | ⟨c, r, -, hcall, -⟩
    · show b.fs.Inv
      rw [heq]
      exact hs
    · exact hs.tfsCall hcall

@[simp] theorem handlers_setHandler_self : (s.setHandler k p).handlers k = some p :=
  Function.update_self _ _ _

theorem handlers_setHandler_ne {k' : Nat} (h : k' ≠ k) :
    (s.setHandler k p).handlers k' = s.handlers k' := Function.update_of_ne h _ _

theorem handlers_setHandler {k' : Nat} (h : (s.setHandler k p).handlers k' = some p') :
    k' = k ∧ p' = p ∨ k' ≠ k ∧ s.handlers k' = some p' := by
  by_cases hk : k' = k
  · subst hk
    rw [handlers_setHandler_self] at h
    exact Or.inl ⟨rfl, (Option.some.inj h).symm⟩
  · rw [handlers_setHandler_ne hk] at h
    exact Or.inr ⟨hk, h⟩

/-- A handler is started. -/
theorem Inv.start (h : s.Inv) {client : Client} {locals : Locals} (hk : s.handlers k = none)
    (halone : client.ChangesBoxes → ∀ k p, s.handlers k = some p → ¬ p.ChangesBoxes) :
    (s.setHandler k (.start client locals)).Inv := by
  have hother : ∀ k' p', k' ≠ k → s.handlers k' = some p' → p'.ChangesBoxes →
      ¬ client.ChangesBoxes := fun k' p' _ hk' hp' hc => halone hc k' p' hk' hp'
  refine ⟨h.bounded, fun k₁ k₂ p₁ p₂ h₁ h₂ hp₁ hp₂ => ?_, fun hidle => h.idle fun k' p' hk' => ?_,
    fun k' p' hk' hp' => ?_⟩
  · rcases handlers_setHandler h₁ with ⟨rfl, rfl⟩ | ⟨hne₁, hk₁⟩
    · rcases handlers_setHandler h₂ with ⟨rfl, -⟩ | ⟨hne₂, hk₂⟩
      · rfl
      · exact absurd ((Program.changesBoxes_start _ _).mp hp₁) (hother _ _ hne₂ hk₂ hp₂)
    · rcases handlers_setHandler h₂ with ⟨rfl, rfl⟩ | ⟨-, hk₂⟩
      · exact absurd ((Program.changesBoxes_start _ _).mp hp₂) (hother _ _ hne₁ hk₁ hp₁)
      · exact h.one _ _ _ _ hk₁ hk₂ hp₁ hp₂
  · refine hidle k' p' ?_
    have hne : k' ≠ k := by
      rintro rfl
      rw [hk] at hk'
      cases hk'
    rw [handlers_setHandler_ne hne]
    exact hk'
  · rcases handlers_setHandler hk' with ⟨rfl, rfl⟩ | ⟨-, hold⟩
    · have hclient := (Program.changesBoxes_start _ _).mp hp'
      -- Nobody else changes the boxes, so they are as they should be.
      exact Program.expects_start (h.idle (halone hclient)) _ _
    · exact h.busy k' p' hold hp'

/-- A handler makes a call. -/
theorem Inv.perform (h : s.Inv) (hk : s.handlers k = some p) (hcall : p.call = some call)
    (hperform : Mbroker.perform call env s.broker = .ok (a, b)) (hresume : p.resume a = .ok p') :
    ({ s with broker := b }.setHandler k p').Inv := by
  have hone : ∀ k₁ k₂ p₁ p₂, ({ s with broker := b }.setHandler k p').handlers k₁ = some p₁ →
      ({ s with broker := b }.setHandler k p').handlers k₂ = some p₂ → p₁.ChangesBoxes →
      p₂.ChangesBoxes → k₁ = k₂ := by
    intro k₁ k₂ p₁ p₂ h₁ h₂ hp₁ hp₂
    rcases handlers_setHandler h₁ with ⟨rfl, rfl⟩ | ⟨-, hk₁⟩
    · have hp := Program.changesBoxes_resume hcall hresume hp₁
      rcases handlers_setHandler h₂ with ⟨rfl, -⟩ | ⟨-, hk₂⟩
      · rfl
      · exact h.one _ _ _ _ hk hk₂ hp hp₂
    · rcases handlers_setHandler h₂ with ⟨rfl, rfl⟩ | ⟨-, hk₂⟩
      · exact h.one _ _ _ _ hk₁ hk hp₁ (Program.changesBoxes_resume hcall hresume hp₂)
      · exact h.one _ _ _ _ hk₁ hk₂ hp₁ hp₂
  by_cases hp : p.ChangesBoxes
  · -- It is the only creation or removal.
    obtain ⟨hexpects, hb, hreturned⟩ :=
      Program.expects_resume h.bounded (h.busy k p hk hp) hp hcall hperform hresume
    refine ⟨hb, hone, fun hidle => hreturned (hidle k p' handlers_setHandler_self),
      fun k' q hk' hq => ?_⟩
    rcases handlers_setHandler hk' with ⟨-, rfl⟩ | ⟨hne, hold⟩
    · exact hexpects
    · exact absurd (h.one _ _ _ _ hold hk hq hp) hne
  · obtain ⟨hsame, hb⟩ := h.bounded.perform hperform (Program.keepsNames hp hcall)
    have hp' : ¬ p'.ChangesBoxes := fun hc => hp (Program.changesBoxes_resume hcall hresume hc)
    refine ⟨hb, hone, fun hidle => hsame.contained (h.idle fun k' q hk' => ?_),
      fun k' q hk' hq => ?_⟩
    · by_cases hne : k' = k
      · subst hne
        obtain rfl := Option.some.inj (hk.symm.trans hk')
        exact hp
      · exact hidle k' q ((handlers_setHandler_ne hne).trans hk')
    · rcases handlers_setHandler hk' with ⟨-, rfl⟩ | ⟨-, hold⟩
      · exact absurd hq hp'
      · exact (h.busy k' q hold hq).sameNames hsame

theorem Inv.step (h : s.Inv) (hok : Alone t s) (hstep : step t s = .ok (r, s')) : s'.Inv := by
  rcases step_cases hstep with ⟨rfl, -⟩ | ⟨k, client, locals, rfl, hk, rfl⟩ |
    ⟨k, env, p, call, a, b, p', rfl, hk, hcall, hperform, hresume, rfl⟩
  · exact h
  · exact h.start hk hok
  · exact h.perform hk hcall hperform hresume

end BrokerState

/-- What calls `delete_box` is a removal that has found its box. -/
theorem Program.Expects.nBoxes_ne_zero {p : Program} {b : Broker} {i : Int} (h : p.Expects b)
    (hcall : p.call = some (.deleteBox i)) : b.table.nBoxes ≠ 0 := by
  cases p with
  | remove f =>
    obtain ⟨place, pipeName, boxName, boxIndex⟩ := f
    cases place with
    | deleteBox =>
      obtain ⟨-, i, hi, -⟩ := h
      exact Nat.ne_of_gt (Nat.zero_lt_of_lt hi)
    | reply r => exact (r.keepsNames hcall).elim
    | _ => cases hcall
  | create f =>
    obtain ⟨place, pipeName, boxName, box, boxHandle⟩ := f
    cases place with
    | reply r => exact (r.keepsNames hcall).elim
    | _ => cases hcall
  | publisher f => exact (Program.keepsNames (p := .publisher f) not_false hcall).elim
  | subscriber f => exact (Program.keepsNames (p := .subscriber f) not_false hcall).elim
  | list f => exact (Program.keepsNames (p := .list f) not_false hcall).elim

open BrokerState in
/-- **The boxes and the directory.**  While no box is created or removed, the names of
the boxes are distinct, and those of files; there are never more boxes than entries
in the directory, so that `add_box` stays in the array, and `delete_box` has a box
to remove. -/
theorem contained_of_alone {fs : TfsState} {turns : List BrokerTurn} {rs : List Unit} {s : BrokerState}
    (hfs : Started none fs) (halone : Outcome.Meets Alone step turns (start ⟨fs, .empty⟩))
    (hrun : Outcome.runList step turns (start ⟨fs, .empty⟩) = .ok (rs, s)) :
    ((∀ k p, s.handlers k = some p → ¬ p.ChangesBoxes) →
        s.broker.table.Distinct ∧
          ∀ i < s.broker.table.nBoxes, s.broker.fs.InDir (s.broker.table.name i)) ∧
      s.broker.table.nBoxes ≤ s.broker.fs.maxDirEntries ∧
      (∀ k p box, s.handlers k = some p → p.call = some (.addBox box) →
        s.broker.table.nBoxes < maxBoxes) ∧
      ∀ k p i, s.handlers k = some p → p.call = some (.deleteBox i) →
        s.broker.table.nBoxes ≠ 0 := by
  have h : s.Inv := Outcome.runList_invariant_of_reaches
    (fun t s r s' hs hok hstep => hs.step hok hstep) (fun t s' hreach => halone.reaches hreach)
    (inv_start hfs) hrun
  refine ⟨fun hidle => ?_, h.bounded.nBoxes_le, fun _ _ _ _ _ => h.bounded.nBoxes_lt,
    fun k p i hk hcall => ?_⟩
  · obtain ⟨hdistinct, hnames⟩ := h.idle hidle
    exact ⟨hdistinct, fun i hi => hnames _ ⟨i, hi, rfl⟩⟩
  · have hp : p.ChangesBoxes := by
      by_contra hno
      exact (Program.keepsNames hno hcall).elim
    exact (h.busy k p hk hp).nBoxes_ne_zero hcall

/-- The handler that a turn is about. -/
def BrokerTurn.handler : BrokerTurn → Nat
  | .start k _ _ => k
  | .step k _ => k

/-- The other handlers stay where they are. -/
theorem BrokerState.handlers_step_ne {s s' : BrokerState} {t : BrokerTurn} {r : Unit} {k : Nat}
    (h : step t s = .ok (r, s')) (hk : k ≠ t.handler) : s'.handlers k = s.handlers k := by
  rcases step_cases h with ⟨rfl, -⟩ | ⟨k', client, locals, rfl, -, rfl⟩ |
    ⟨k', env, p, call, a, b, p', rfl, -, -, -, -, rfl⟩
  · rfl
  · exact handlers_setHandler_ne hk
  · exact handlers_setHandler_ne hk

/-- A program whose handler has returned changes no boxes. -/
theorem Program.not_changesBoxes_of_returned {p : Program} (h : p.call = none) :
    ¬ p.ChangesBoxes := by
  cases p with
  | create f => exact fun hp => hp h
  | remove f => exact fun hp => hp h
  | publisher f => exact not_false
  | subscriber f => exact not_false
  | list f => exact not_false

/-- A box is created. -/
def createA : List BrokerTurn :=
  .start 0 (.create pipeP nameA) ⟨.zero, 0, []⟩ :: List.replicate 9 (.step 0 { ret := 1 })

theorem handler_of_mem_createA {t : BrokerTurn} (h : t ∈ createA) : t.handler = 0 := by
  rcases List.mem_cons.mp h with rfl | h
  · rfl
  · rw [List.eq_of_mem_replicate h]
    rfl

open BrokerState in
theorem contained_createA :
    ∃ rs s, Outcome.runList step createA (start ⟨initial, .empty⟩) = .ok (rs, s) ∧
      s.broker.table.nBoxes = 1 ∧ s.broker.fs.InDir (.ofBuffer [97]) := by
  have halone : Outcome.Meets Alone step createA (start ⟨initial, .empty⟩) := by
    refine ⟨fun _ _ _ h => (by cases h), Outcome.meets_of_forall fun t ht s => ?_⟩
    obtain rfl := List.eq_of_mem_replicate ht
    trivial
  have hresult : (Outcome.runList step createA (start ⟨initial, .empty⟩)).map (fun p =>
      (p.2.broker.table.nBoxes, p.2.broker.table.name 0,
        decide ((p.2.handlers 0).all fun p => p.call.isNone))) =
      .ok (1, .ofBuffer [97], true) := by
    decide +kernel
  obtain ⟨⟨rs, s⟩, hrun, hs⟩ := Outcome.map_eq_ok.mp hresult
  simp only [Prod.mk.injEq, decide_eq_true_eq] at hs
  obtain ⟨hn, hname, hreturned⟩ := hs
  -- There is only one handler, and it has returned.
  have hother : ∀ k ≠ 0, s.handlers k = none := by
    have hstep : ∀ t s r s', (∀ k ≠ 0, s.handlers k = none) → t.handler = 0 →
        step t s = .ok (r, s') → ∀ k ≠ 0, s'.handlers k = none := by
      intro t s r s' hs ht hstep k hk
      rw [handlers_step_ne hstep (ht ▸ hk)]
      exact hs k hk
    refine Outcome.runList_invariant_of_reaches hstep (fun t s' hreach => ?_) (fun _ _ => rfl) hrun
    exact (Outcome.meets_of_forall fun t ht _ => handler_of_mem_createA ht).reaches hreach
  have hidle : ∀ k p, s.handlers k = some p → ¬ p.ChangesBoxes := by
    intro k p hk
    by_cases hk0 : k = 0
    · subst hk0
      rw [hk] at hreturned
      exact Program.not_changesBoxes_of_returned (by simpa using hreturned)
    · rw [hother k hk0] at hk
      cases hk
  obtain ⟨-, hnames⟩ := (contained_of_alone started_initial halone hrun).1 hidle
  exact ⟨rs, s, hrun, hn, hname ▸ hnames 0 (by omega)⟩

end Mbroker
