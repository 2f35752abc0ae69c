/-
How many subscribers a box has.

`register_subscriber` counts a session before `tfs_open` has succeeded, `create_box` counts
from 0 whoever is still in the loop of `read_messages`, and `delete_box` moves the
count of the last box but not its `subscriber_index`.

Creations, removals and registrations run to their end, in any order; a session in its
loop, a publisher's handler or a listing goes on by one call at a time, whenever.

* `Program.Settled.resume` — what a session in its loop can do: it leaves the loop only
  when its box is not there;
* `CountState.Inv` — the counts, and how far each `subscriber_index` is ahead of them;
* **`accounted_of_permitted`** — as long as there is a file handle for every session, no box
  is created for a session that is still there, and no box gets a place with an index
  that is too far ahead, the counts are right and the names stay in their array;
* `not_accounted_fullTable` — sessions that get no handle.
-/
import Mbroker.OpenFiles
import Mathlib.Data.Set.Card

namespace Mbroker

open Tfs

/-! ### Sessions -/

/-- The handler is in the loop of `read_messages`. -/
def SubscriberFrame.InLoop (f : SubscriberFrame) : Prop :=
  match f.place with
  | .findAgain | .lock | .tfsRead | .wait | .findWoken | .closeWoken | .writeCode | .writeMessage
  | .unlock => True
  | _ => False

/-- The handler has left it, with the index -1. -/
def SubscriberFrame.Ended (f : SubscriberFrame) : Prop :=
  match f.place with
  | .closeRemoved | .nSubscribers => f.boxIndex = -1
  | .tfsClose | .closePipe | .dequeue | .returned => True
  | _ => False

/-- The session of a subscriber is in its loop, for the box of this name. -/
def Program.ServesBox (boxName : CString) : Program → Prop
  | .subscriber f => f.boxName = boxName ∧ f.InLoop
  | _ => False

/-- The sessions that are in their loop for the box of this name. -/
def BrokerState.sessions (boxName : CString) (s : BrokerState) : Set Nat :=
  {k | ∃ p, s.handlers k = some p ∧ p.ServesBox boxName}

/-- The process exits. -/
def Program.Exits (p : Program) : Bool :=
  match p.call with
  | some .exit => true
  | _ => false

/-- The broker with its handlers; `zeroed` are the places of the boxes that have been
created with `subscriber_index = 0`. -/
structure CountState where
  state : BrokerState
  zeroed : Nat → Bool

/-- A request, or a step of the handler of one. -/
inductive CountEvent where
  | request (k : Nat) (client : Client) (locals : Locals) (pipe : Int)
  | step (k : Nat) (env : Answer)

namespace CountState

/-- `main`, when `tfs_init` has returned. -/
def start (fs : TfsState) : CountState := ⟨.start ⟨fs, .empty⟩, fun _ => false⟩

def broker (s : CountState) : Broker := s.state.broker

def table (s : CountState) : BoxTable := s.state.broker.table

def setBroker (b : Broker) (s : CountState) : CountState :=
  { s with state := { s.state with broker := b } }

/-- A request of which nothing is under way yet. -/
def request (k : Nat) (client : Client) (locals : Locals) (pipe : Int) (s : CountState) :
    Outcome CountState :=
  match client with
  | .create _ boxName => do
    let (r, b) ← createBox boxName.1 locals.box s.broker
    let zeroed := if r = 0 then
        Function.update s.zeroed s.table.nBoxes (locals.box.subscriberIndex == 0)
      else s.zeroed
    return { s.setBroker b with zeroed := zeroed }
  | .remove _ boxName => do
    let boxIndex := findBox boxName.1 s.table
    let (r, b) ← removeBox boxName.1 s.broker
    let zeroed := if r = 0 then fun j => s.zeroed (s.table.movedFrom boxIndex.toNat j) else s.zeroed
    return { s.setBroker b with zeroed := zeroed }
  | .subscriber pipeName boxName => do
    let (boxHandle, b) ← registerSubscriber pipeName.1 boxName.1 s.broker
    match boxHandle with
    | none => return s.setBroker b
    | some boxHandle =>
      let f := subscriberSession pipeName.1 boxName.1 boxHandle pipe locals b.table
      return { s with state := { s.state with broker := b }.setHandler k (.subscriber f) }
  | client => .ok { s with state := s.state.setHandler k (.start client locals) }

/-- An event; an exit ends the run. -/
def next : CountEvent → CountState → Outcome CountState
  | .request k client locals pipe, s =>
    match s.state.handlers k with
    | some _ => .ok s
    | none => s.request k client locals pipe
  | .step k env, s => do
    let (_, state) ← BrokerState.step (.step k env) s.state
    if (state.handlers k).any Program.Exits then .panic "exit(EXIT_FAILURE)"
    else return { s with state := state }

def step (e : CountEvent) (s : CountState) : Outcome (Unit × CountState) :=
  (s.next e).map fun s => ((), s)

/-- The number of sessions that are in their loop for the box of this name. -/
noncomputable def serving (boxName : CString) (s : CountState) : ℕ∞ :=
  (s.state.sessions boxName).encard

/-- Of a box that has been created with `subscriber_index = 0`, `n_subscribers` is the number
of its sessions, and `subscriber_index`, where `add_subscriber_to_box` writes, is in its
array. -/
structure Accounted (s : CountState) : Prop where
  counted : ∀ i < s.table.nBoxes, s.zeroed i →
    (s.table.boxes i).nSubscribers = s.serving (s.table.name i)
  inArray : ∀ i < s.table.nBoxes, s.zeroed i → (s.table.boxes i).subscriberIndex < maxBoxes

/-- A box is created when no session of its name is in its loop; a removal moves a box to
a place whose `subscriber_index` is ahead of its subscribers by 47 at most; and a session
is registered when there is an entry in the table of open files. -/
def Permitted : CountEvent → CountState → Prop
  | .request _ (.create _ boxName) locals _, s =>
    locals.box.subscriberIndex = 0 → OpensNewBox boxName.1 s.broker →
      ∀ k p, s.state.handlers k = some p → ¬ p.ServesBox boxName.1
  | .request _ (.remove _ boxName) _ _, s => ∀ i, i + 1 < s.table.nBoxes →
      s.table.name i = boxName.1 → s.zeroed (s.table.nBoxes - 1) →
      0 ≤ (s.table.boxes i).subscriberIndex ∧ (s.table.boxes i).subscriberIndex ≤
        (s.table.boxes (s.table.nBoxes - 1)).nSubscribers + 47
  | .request _ (.subscriber _ boxName) _ _, s => ∀ i < s.table.nBoxes,
      s.table.name i = boxName.1 → s.zeroed i → ¬ s.broker.fs.NoHandle
  | _, _ => True

end CountState

/-! ### The steps of the handlers -/

section Handlers

variable {b b' : Broker} {call : Call} {a env : Answer} {boxName : CString} {p p' : Program}
  {f f' : SubscriberFrame}

/-- A handler that creates no box, removes none and registers nobody: when it is one of a
subscriber, the session is in its loop or after it. -/
def Program.Settled : Program → Prop
  | .subscriber f => f.InLoop ∧ f.boxHandle ≠ -1 ∨ f.Ended
  | .create _ => False
  | .remove _ => False
  | _ => True

theorem perform_counts (h : perform call env b = .ok (a, b')) (hc : call.KeepsCounts) (j : Nat) :
    (b'.table.boxes j).nSubscribers = (b.table.boxes j).nSubscribers ∧
      (b'.table.boxes j).subscriberIndex = (b.table.boxes j).subscriberIndex := by
  cases perform_spec h with
  | same => exact ⟨rfl, rfl⟩
  | files => exact ⟨rfl, rfl⟩
  | record i f _ hcounts =>
    dsimp only
    by_cases hj : j = i
    · rw [hj, BoxTable.boxes_modify_self]
      exact hcounts hc _
    · rw [BoxTable.boxes_modify_ne hj]
      exact ⟨rfl, rfl⟩
  | _ => exact hc.elim

theorem Program.Settled.not_changesBoxes (h : p.Settled) : ¬ p.ChangesBoxes := by
  cases p with
  | create => exact h.elim
  | remove => exact h.elim
  | _ => exact not_false

theorem Program.Settled.keepsCounts (h : p.Settled) (hcall : p.call = some call) :
    call.KeepsCounts := by
  cases p with
  | create => exact h.elim
  | remove => exact h.elim
  | publisher f =>
    obtain ⟨place, pipeName, boxName, boxHandle, boxIndex, ver, sessionHandle, pubPipe, buffer⟩ := f
    cases place <;> cases hcall <;> trivial
  | list f =>
    obtain ⟨place, pipeName, manPipe, i, replyBox⟩ := f
    cases place <;> cases hcall <;> trivial
  | subscriber f =>
    obtain ⟨place, pipeName, boxName, boxIndex, num, boxHandle, subscriberPipe, charBuffer, buffer,
      i⟩ := f
    cases place with
    | incNSubscribers | addSubscriber | decNSubscribers => exact (h.elim And.left id).elim
    | _ => cases hcall <;> trivial

theorem SubscriberFrame.inLoop_storeChar (h : f.storeChar = .ok f') :
    f'.boxName = f.boxName ∧ f'.boxHandle = f.boxHandle ∧ f'.InLoop := by
  obtain ⟨-, ⟨-, rfl⟩ | ⟨-, rfl⟩⟩ := storeChar_cases h
  · exact ⟨rfl, rfl, trivial⟩
  · exact ⟨rfl, rfl, trivial⟩

/-- **A session in its loop goes on**: it leaves the loop only when its box is not there. -/
theorem SubscriberFrame.InLoop.resume (h : f.InLoop) (hcall : f.call = some call)
    (hperform : perform call env b = .ok (a, b')) (hresume : f.resume a = .ok f')
    (hexit : f'.place ≠ .exit) : f'.boxName = f.boxName ∧ f'.boxHandle = f.boxHandle ∧
      (f'.InLoop ∨ f'.Ended ∧ ¬ f'.InLoop ∧ ¬ b.table.Holds f.boxName) := by
  obtain ⟨place, pipeName, boxName, boxIndex, num, boxHandle, subscriberPipe, charBuffer, buffer,
    i⟩ := f
  rw [SubscriberFrame.resume] at hresume
  cases place with
  | findAgain =>
    cases hcall
    obtain ⟨rfl, -⟩ := Prod.mk.inj (Outcome.ok.inj hperform)
    dsimp only at hresume
    split at hresume
    case isTrue hfind =>
      obtain rfl := Outcome.ok.inj hresume
      refine ⟨rfl, rfl, Or.inr ⟨hfind, not_false, fun hbox => ?_⟩⟩
      exact BoxTable.findBox_ne_neg.mpr hbox hfind
    case isFalse =>
      obtain rfl := Outcome.ok.inj hresume
      exact ⟨rfl, rfl, Or.inl trivial⟩
  | tfsRead =>
    dsimp only at hresume
    split at hresume
    · obtain rfl := Outcome.ok.inj hresume
      exact ⟨rfl, rfl, Or.inl trivial⟩
    · obtain ⟨hname, hhandle, hloop⟩ := inLoop_storeChar hresume
      exact ⟨hname, hhandle, Or.inl hloop⟩
  | closeWoken =>
    obtain ⟨hname, hhandle, hloop⟩ := inLoop_storeChar hresume
    exact ⟨hname, hhandle, Or.inl hloop⟩
  | lock | findWoken | writeCode | writeMessage =>
    dsimp only at hresume
    split at hresume
    · obtain rfl := Outcome.ok.inj hresume
      first
        | exact ⟨rfl, rfl, Or.inl trivial⟩
        | exact absurd rfl hexit
    · obtain rfl := Outcome.ok.inj hresume
      exact ⟨rfl, rfl, Or.inl trivial⟩
  | wait | unlock =>
    obtain rfl := Outcome.ok.inj hresume
    exact ⟨rfl, rfl, Or.inl trivial⟩
  | _ => exact h.elim

/-- A session that has ended stays so: `n_subscribers` is not touched. -/
theorem SubscriberFrame.Ended.resume (h : f.Ended) (hresume : f.resume a = .ok f') :
    f'.Ended ∧ ¬ f'.InLoop := by
  obtain ⟨place, pipeName, boxName, boxIndex, num, boxHandle, subscriberPipe, charBuffer, buffer,
    i⟩ := f
  rw [SubscriberFrame.resume] at hresume
  cases place with
  | nSubscribers =>
    obtain rfl : boxIndex = -1 := h
    dsimp only at hresume
    rw [if_neg (by omega)] at hresume
    obtain rfl := Outcome.ok.inj hresume
    exact ⟨trivial, not_false⟩
  | closeRemoved | tfsClose | closePipe | dequeue | returned =>
    obtain rfl := Outcome.ok.inj hresume
    exact ⟨h, not_false⟩
  | _ => exact h.elim

theorem SubscriberFrame.Ended.not_inLoop (h : f.Ended) : ¬ f.InLoop := by
  rw [Ended] at h
  rw [InLoop]
  split at h <;> simp_all

/-- No session of a box that is there starts or ends. -/
theorem Program.Settled.resume (h : p.Settled) (hcall : p.call = some call)
    (hperform : perform call env b = .ok (a, b')) (hresume : p.resume a = .ok p')
    (hexit : p'.Exits = false) :
    p'.Settled ∧ ∀ q, b.table.Holds q → (p'.ServesBox q ↔ p.ServesBox q) := by
  cases p with
  | create => exact h.elim
  | remove => exact h.elim
  | publisher f =>
    obtain ⟨f', -, hresume⟩ := Outcome.bind_eq_ok.mp hresume
    obtain rfl := Outcome.ok.inj hresume
    exact ⟨trivial, fun _ _ => Iff.rfl⟩
  | list f =>
    obtain rfl := Outcome.ok.inj hresume
    exact ⟨trivial, fun _ _ => Iff.rfl⟩
  | subscriber f =>
    obtain ⟨f', hf, hresume⟩ := Outcome.bind_eq_ok.mp hresume
    obtain rfl := Outcome.ok.inj hresume
    rcases h with ⟨hloop, hhandle⟩ | hended
    · have hplace : f'.place ≠ .exit := by
        intro hplace
        rw [Exits, Program.call, SubscriberFrame.call, hplace] at hexit
        cases hexit
      obtain ⟨hname, hhandle', hloop' | ⟨hended, hnot, hbox⟩⟩ :=
        hloop.resume hcall hperform hf hplace
      · refine ⟨Or.inl ⟨hloop', hhandle'.symm ▸ hhandle⟩, fun _ _ => ?_⟩
        exact and_congr (by rw [hname]) (iff_of_true hloop' hloop)
      · refine ⟨Or.inr hended, fun q hheld => iff_of_false (fun hserves => hnot hserves.2) ?_⟩
        rintro ⟨rfl, -⟩
        exact hbox hheld
    · obtain ⟨hended', hnot⟩ := hended.resume hf
      refine ⟨Or.inr hended', fun _ _ => iff_of_false (fun hserves => hnot hserves.2) ?_⟩
      rintro ⟨-, hloop⟩
      exact hended.not_inLoop hloop

end Handlers

/-! ### The requests -/

section Requests

variable {boxName pipeName : CString} {box : Box} {b b' : Broker} {r : Int} {fs : TfsState}

/-- What is open stays open. -/
structure Broker.KeepsFiles (b b' : Broker) : Prop where
  inv : b'.fs.Inv
  openFiles : b.fs.openFiles ⊆ b'.fs.openFiles
  params : b'.fs.fsParams = b.fs.fsParams

theorem createBox_files (hb : b.Contained) (hs : b.fs.Inv)
    (h : createBox boxName box b = .ok (r, b')) : b.KeepsFiles b' ∧ b'.Contained := by
  cases createBox_spec h with
  | held => exact ⟨⟨hs, subset_rfl, rfl⟩, hb⟩
  | notOpened hbox hopen =>
    obtain ⟨hkept, -, hparams⟩ := hs.names_of_tfsOpen hopen
    refine ⟨⟨hs.of_tfsOpen hopen, ?_, hparams⟩, hb.distinct, fun q hq => hkept q (hb.names q hq)⟩
    rcases hs.openFiles_of_tfsOpen hopen with ⟨-, hopenFiles⟩ | ⟨f, hf, -⟩
    · exact hopenFiles.ge
    · omega
  | @added boxHandle _ fs _ _ hbox hne hopen hclose hadd =>
    obtain ⟨hkept, hnew, hparams⟩ := hs.names_of_tfsOpen hopen
    have hopenFiles := hs.openFiles_of_open_close hopen hne hclose
    have hs₁ := (hs.of_tfsOpen hopen).of_tfsClose hclose
    obtain ⟨_, _, hclose', heq, -⟩ := TfsState.tfsClose_withHandles fs boxHandle
    obtain ⟨-, rfl⟩ := Prod.mk.inj (Outcome.ok.inj (hclose'.symm.trans hclose))
    rw [heq] at hs₁ hopenFiles ⊢
    refine ⟨⟨hs₁, hopenFiles.ge, hparams⟩,
      hb.distinct.addBox hadd fun i hi hname => hbox ⟨i, hi, hname⟩, fun q hq => ?_⟩
    refine TfsState.inDir_withHandles.mpr ?_
    rcases (BoxTable.holds_addBox hadd).mp hq with hq | rfl
    · exact hkept q (hb.names q hq)
    · exact hnew hne

theorem removeBox_files (hb : b.Contained) (hs : b.fs.Inv)
    (h : removeBox boxName b = .ok (r, b')) : b.KeepsFiles b' ∧ b'.Contained := by
  cases removeBox_spec h with
  | notUnlinked hunlink =>
    rcases hs.names_of_tfsUnlink hunlink with ⟨-, rfl⟩ | ⟨hneg, -⟩
    · exact ⟨⟨hs, subset_rfl, rfl⟩, hb⟩
    · cases hneg
  | notFound hne hunlink hbox =>
    rcases hs.names_of_tfsUnlink hunlink with ⟨hneg, -⟩ | ⟨-, -, hparams, hnames⟩
    · exact absurd hneg hne
    · refine ⟨⟨hs.of_tfsUnlink hunlink, (hs.openFiles_of_tfsUnlink hunlink).ge, hparams⟩,
        hb.distinct, fun q hq => (hnames q).mpr ⟨hb.names q hq, ?_⟩⟩
      rintro rfl
      exact hbox hq
  | deleted hne hunlink hi hfind hname hdelete =>
    rcases hs.names_of_tfsUnlink hunlink with ⟨hneg, -⟩ | ⟨-, -, hparams, hnames⟩
    · exact absurd hneg hne
    · refine ⟨⟨hs.of_tfsUnlink hunlink, (hs.openFiles_of_tfsUnlink hunlink).ge, hparams⟩,
        hb.distinct.deleteBox hdelete, fun q hq => (hnames q).mpr ?_⟩
      obtain ⟨hq, hne⟩ := (hb.distinct.holds_deleteBox hdelete hi).mp hq
      exact ⟨hb.names q hq, fun heq => hne (hname.trans heq.symm)⟩

/-- A file that is opened, and not created. -/
theorem Broker.Contained.open {boxHandle : Int} (hb : b.Contained) (hs : b.fs.Inv)
    (hopen : tfsOpen (some (boxPath boxName)) 0 b.fs = .ok (boxHandle, b'.fs))
    (hn : b'.table.nBoxes = b.table.nBoxes) (hname : b'.table.name = b.table.name) :
    b.KeepsFiles b' ∧ b'.Contained ∧ (boxHandle = -1 ∨
      ∃ f : Nat, boxHandle = f ∧ f ∉ b.fs.openFiles ∧ b'.fs.openFiles = insert f b.fs.openFiles) := by
  have hopen' : tfsCall (.tfsOpen (some (boxPath boxName)) 0) b.fs =
      .ok ({ ret := boxHandle }, b'.fs) := by
    rw [tfsCall, hopen]
    rfl
  have hsame : b.SameNames b' := ⟨hn, hname, hs.sameNames_of_tfsCall (c := .tfsOpen _ 0) rfl hopen'⟩
  have hs' := hs.of_tfsOpen hopen
  rcases hs.openFiles_of_tfsOpen hopen with ⟨hneg, hopenFiles⟩ | ⟨f, hf, hnew, hopenFiles⟩
  · exact ⟨⟨hs', hopenFiles.ge, hsame.fs.2⟩, hsame.contained hb, Or.inl hneg⟩
  · refine ⟨⟨hs', ?_, hsame.fs.2⟩, hsame.contained hb, Or.inr ⟨f, hf, hnew, hopenFiles⟩⟩
    rw [hopenFiles]
    exact Finset.subset_insert f _

end Requests

/-! ### The sessions of a box -/

namespace BrokerState

variable {s : BrokerState} {b : Broker} {k : Nat} {p p' : Program} {boxName : CString}

theorem mem_sessions_setHandler_ne {k' : Nat} (h : k' ≠ k) :
    k' ∈ (s.setHandler k p).sessions boxName ↔ k' ∈ s.sessions boxName := by
  refine exists_congr fun q => ?_
  rw [handlers_setHandler_ne h]

theorem mem_sessions_setHandler_self :
    k ∈ (s.setHandler k p).sessions boxName ↔ p.ServesBox boxName := by
  constructor
  · rintro ⟨q, hq, hserves⟩
    rw [handlers_setHandler_self] at hq
    exact Option.some.inj hq ▸ hserves
  · exact fun h => ⟨p, handlers_setHandler_self, h⟩

/-- A handler that goes on as it was. -/
theorem sessions_setHandler (h : p.ServesBox boxName ↔ k ∈ s.sessions boxName) :
    (s.setHandler k p).sessions boxName = s.sessions boxName := by
  ext k'
  by_cases hk : k' = k
  · rw [hk, mem_sessions_setHandler_self, h]
  · exact mem_sessions_setHandler_ne hk

/-- A new session. -/
theorem sessions_setHandler_new (h : p.ServesBox boxName) :
    (s.setHandler k p).sessions boxName = insert k (s.sessions boxName) := by
  ext k'
  by_cases hk : k' = k
  · rw [hk]
    exact iff_of_true (mem_sessions_setHandler_self.mpr h) (Set.mem_insert k _)
  · rw [mem_sessions_setHandler_ne hk, Set.mem_insert_iff, or_iff_right hk]

theorem mem_sessions_of_handler (hk : s.handlers k = some p) :
    k ∈ s.sessions boxName ↔ p.ServesBox boxName := by
  constructor
  · rintro ⟨q, hq, hserves⟩
    exact Option.some.inj (hk.symm.trans hq) ▸ hserves
  · exact fun h => ⟨p, hk, h⟩

theorem not_mem_sessions (hk : s.handlers k = none) : k ∉ s.sessions boxName := by
  rintro ⟨p, hp, -⟩
  rw [hk] at hp
  cases hp

/-- In its loop, a session holds the file that it reads. -/
theorem held_of_servesBox (hp : p.Settled) (h : p.ServesBox boxName) : p.held ≠ none := by
  cases p with
  | subscriber f =>
    rcases hp with ⟨hloop, hhandle⟩ | hended
    · have hheld : f.held = given f.boxHandle := by
        rw [SubscriberFrame.InLoop] at hloop
        rw [SubscriberFrame.held]
        split at hloop <;> simp_all
      rw [Program.held, hheld, given, if_neg hhandle]
      exact Option.some_ne_none _
    · exact absurd h.2 hended.not_inLoop
  | _ => exact h.elim

/-- **Every session has an open file of its own.** -/
theorem Holding.encard_sessions_le (h : s.Holding)
    (hsettled : ∀ k p, s.handlers k = some p → p.Settled) :
    (s.sessions boxName).encard ≤ s.broker.fs.fsParams.maxOpenFilesCount := by
  have hfile : ∀ k ∈ s.sessions boxName, ∃ f ∈ s.broker.fs.openFiles, ∃ p,
      s.handlers k = some p ∧ p.held = some (f : Int) := by
    rintro k ⟨p, hk, hserves⟩
    obtain ⟨boxHandle, hheld⟩ :=
      Option.ne_none_iff_exists'.mp (held_of_servesBox (hsettled k p hk) hserves)
    obtain ⟨f, rfl, hf⟩ := h.holdsOpen k p hk boxHandle hheld
    exact ⟨f, hf, p, hk, hheld⟩
  -- The files that the sessions hold are different ones.
  choose! file hfile hheld using hfile
  have hinj : Set.InjOn file (s.sessions boxName) := by
    intro k hk k' hk' heq
    obtain ⟨p, hp, hfp⟩ := hheld k hk
    obtain ⟨p', hp', hfp'⟩ := hheld k' hk'
    exact h.own k k' p p' (file k) hp hp' hfp (heq ▸ hfp')
  calc (s.sessions boxName).encard
      ≤ (s.broker.fs.openFiles : Set Nat).encard :=
        Set.encard_le_encard_of_injOn (fun k hk => hfile k hk) hinj
    _ = s.broker.fs.openFiles.card := Set.encard_coe_eq_coe_finsetCard _
    _ ≤ s.broker.fs.fsParams.maxOpenFilesCount := by exact_mod_cast SlotTable.card_used_le

/-- What is held stays open. -/
theorem Holding.setBroker (h : s.Holding) (hs : b.fs.Inv)
    (hsub : s.broker.fs.openFiles ⊆ b.fs.openFiles) : Holding { s with broker := b } := by
  refine ⟨hs, fun k p hk boxHandle hheld => ?_, h.own⟩
  obtain ⟨f, hf, hmem⟩ := h.holdsOpen k p hk boxHandle hheld
  exact ⟨f, hf, hsub hmem⟩

end BrokerState

/-! ### The invariant -/

namespace CountState

variable {s s' : CountState} {e : CountEvent} {state : BrokerState} {b : Broker} {k : Nat}
  {p p' : Program} {client : Client} {locals : Locals} {pipe r : Int} {boxName pipeName : CString}

/-- The box has been counted `n` times, and `subscriber_index` is ahead of that by 47 at most. -/
structure Counted (box : Box) (n : ℕ∞) : Prop where
  count : box.nSubscribers = n
  nonneg : 0 ≤ box.subscriberIndex
  ahead : box.subscriberIndex ≤ box.nSubscribers + 47

structure Inv (s : CountState) : Prop where
  holding : s.state.Holding
  params : s.broker.fs.fsParams = tfsDefaultParams
  contained : s.broker.Contained
  settled : ∀ k p, s.state.handlers k = some p → p.Settled
  counted : ∀ i < s.table.nBoxes, s.zeroed i →
    Counted (s.table.boxes i) (s.state.sessions (s.table.name i)).encard

theorem inv_start {fs : TfsState} (h : Started none fs) : (start fs).Inv := by
  have hinv := BrokerState.inv_start h
  exact ⟨BrokerState.holding_start hinv.bounded.fs, hinv.bounded.params,
    hinv.idle fun _ _ h => (by cases h), fun _ _ h => (by cases h),
    fun i hi => absurd hi (Nat.not_lt_zero i)⟩

theorem Inv.accounted (h : s.Inv) : s.Accounted := by
  refine ⟨fun i hi hzeroed => (h.counted i hi hzeroed).count, fun i hi hzeroed => ?_⟩
  obtain ⟨hcount, -, hahead⟩ := h.counted i hi hzeroed
  -- There are 16 entries in the table of open files.
  have hle : (s.state.sessions (s.table.name i)).encard ≤ _ :=
    h.holding.encard_sessions_le h.settled
  rw [← hcount, show s.state.broker.fs.fsParams = tfsDefaultParams from h.params] at hle
  have hle : (s.table.boxes i).nSubscribers ≤ 16 := by exact_mod_cast hle
  rw [maxBoxes]
  omega

theorem Counted.congr {box box' : Box} {n : ℕ∞} (h : Counted box n)
    (hcount : box'.nSubscribers = box.nSubscribers)
    (hindex : box'.subscriberIndex = box.subscriberIndex) : Counted box' n := by
  obtain ⟨h₁, h₂, h₃⟩ := h
  rw [← hcount] at h₁ h₃
  rw [← hindex] at h₂ h₃
  exact ⟨h₁, h₂, h₃⟩

/-- What leaves the boxes, their counts and their sessions. -/
theorem Inv.keep (h : s.Inv) (hholding : state.Holding)
    (hparams : state.broker.fs.fsParams = s.broker.fs.fsParams)
    (hcontained : state.broker.Contained)
    (hsettled : ∀ k p, state.handlers k = some p → p.Settled)
    (hn : state.broker.table.nBoxes = s.table.nBoxes)
    (hname : state.broker.table.name = s.table.name)
    (hcounts : ∀ j, (state.broker.table.boxes j).nSubscribers = (s.table.boxes j).nSubscribers ∧
      (state.broker.table.boxes j).subscriberIndex = (s.table.boxes j).subscriberIndex)
    (hsessions : ∀ q, s.table.Holds q → state.sessions q = s.state.sessions q) :
    Inv { s with state := state } := by
  refine ⟨hholding, hparams.trans h.params, hcontained, hsettled, fun i hi hzeroed => ?_⟩
  have hi : i < s.table.nBoxes := hn ▸ hi
  show Counted (state.broker.table.boxes i) (state.sessions (state.broker.table.name i)).encard
  rw [hname, hsessions _ ⟨i, hi, rfl⟩]
  exact (h.counted i hi hzeroed).congr (hcounts i).1 (hcounts i).2

/-- What leaves the boxes and the handlers. -/
theorem Inv.setBroker (h : s.Inv) (hkeeps : s.broker.KeepsFiles b) (hcontained : b.Contained)
    (htable : b.table = s.table) : (s.setBroker b).Inv := by
  refine h.keep (h.holding.setBroker hkeeps.inv hkeeps.openFiles) hkeeps.params hcontained h.settled
    ?_ ?_ (fun j => ?_) (fun _ _ => rfl)
  · exact congrArg BoxTable.nBoxes htable
  · exact congrArg BoxTable.name htable
  · dsimp only
    rw [htable]
    exact ⟨rfl, rfl⟩

theorem Inv.create {box : Box} (h : s.Inv) (hc : createBox boxName box s.broker = .ok (r, b))
    (hok : box.subscriberIndex = 0 → OpensNewBox boxName s.broker →
      ∀ k p, s.state.handlers k = some p → ¬ p.ServesBox boxName) :
    Inv { s.setBroker b with
      zeroed := if r = 0 then
          Function.update s.zeroed s.table.nBoxes (box.subscriberIndex == 0)
        else s.zeroed } := by
  obtain ⟨hkeeps, hcontained⟩ := createBox_files h.contained h.holding.fs hc
  rcases createBox_table hc with ⟨rfl, htable⟩ | ⟨rfl, hopens, hadd⟩
  · exact h.setBroker hkeeps hcontained htable
  · rw [if_pos rfl]
    obtain ⟨-, hn, hself, hother⟩ := BoxTable.addBox_ok hadd
    refine ⟨h.holding.setBroker hkeeps.inv hkeeps.openFiles, hkeeps.params.trans h.params, hcontained,
      h.settled, fun i hi hzeroed => ?_⟩
    have hi : i < b.table.nBoxes := hi
    show Counted (b.table.boxes i) (s.state.sessions (b.table.boxes i).boxName).encard
    have hzeroed : Function.update s.zeroed s.table.nBoxes (box.subscriberIndex == 0) i = true :=
      hzeroed
    by_cases hnew : i = s.table.nBoxes
    · -- The new box has no sessions.
      rw [hnew, Function.update_self, beq_iff_eq] at hzeroed
      have hnone : s.state.sessions boxName = ∅ := by
        refine Set.eq_empty_of_forall_notMem ?_
        rintro k ⟨p, hk, hserves⟩
        exact hok hzeroed hopens k p hk hserves
      rw [hnew, show b.table.boxes s.table.nBoxes = _ from hself]
      dsimp only
      rw [hnone, Set.encard_empty]
      exact ⟨rfl, hzeroed.ge, by dsimp only; omega⟩
    · rw [Function.update_of_ne hnew] at hzeroed
      rw [hother i hnew]
      refine h.counted i ?_ hzeroed
      have hn : b.table.nBoxes = s.table.nBoxes + 1 := hn
      omega

/-- The last box takes the place of the one that is removed. -/
theorem Inv.remove (h : s.Inv) (hc : removeBox boxName s.broker = .ok (r, b))
    (hok : ∀ i, i + 1 < s.table.nBoxes → s.table.name i = boxName →
      s.zeroed (s.table.nBoxes - 1) → 0 ≤ (s.table.boxes i).subscriberIndex ∧
        (s.table.boxes i).subscriberIndex ≤
          (s.table.boxes (s.table.nBoxes - 1)).nSubscribers + 47) :
    Inv { s.setBroker b with
      zeroed := if r = 0 then
          fun j => s.zeroed (s.table.movedFrom (findBox boxName s.table).toNat j)
        else s.zeroed } := by
  obtain ⟨hkeeps, hcontained⟩ := removeBox_files h.contained h.holding.fs hc
  rcases removeBox_table hc with ⟨rfl, htable⟩ | ⟨rfl, -, r, hr, hfind, hname, hdelete⟩
  · exact h.setBroker hkeeps hcontained htable
  · rw [if_pos rfl, show findBox boxName s.table = r from hfind, Int.toNat_natCast]
    obtain ⟨-, -, hn, hboxes⟩ := BoxTable.deleteBox_ok hdelete
    refine ⟨h.holding.setBroker hkeeps.inv hkeeps.openFiles, hkeeps.params.trans h.params, hcontained,
      h.settled, fun i hi hzeroed => ?_⟩
    have hi : i < b.table.nBoxes := hi
    have hn : b.table.nBoxes = s.table.nBoxes - 1 := hn
    have hzeroed : s.zeroed (s.table.movedFrom r i) = true := hzeroed
    have hcounted := h.counted _ (BoxTable.movedFrom_lt (hn ▸ hi)) hzeroed
    show Counted (b.table.boxes i) (s.state.sessions (b.table.boxes i).boxName).encard
    rw [hboxes i hi]
    show Counted ((s.table.boxes i).swapped (s.table.boxes (s.table.movedFrom r i)))
      (s.state.sessions (s.table.name (s.table.movedFrom r i))).encard
    by_cases hir : i = r
    · -- The count is moved, the index is not.
      subst hir
      have hfrom : s.table.movedFrom i i = s.table.nBoxes - 1 := if_pos rfl
      rw [hfrom] at hcounted hzeroed ⊢
      obtain ⟨hnonneg, hahead⟩ := hok i (by omega) hname hzeroed
      exact ⟨hcounted.count, hnonneg, hahead⟩
    · have hfrom : s.table.movedFrom r i = i := if_neg hir
      rw [hfrom] at hcounted ⊢
      exact hcounted.congr rfl rfl

/-- A session is counted that gets no handle: that of a box which was not created with 0. -/
theorem Inv.countOnly {i : Nat} (h : s.Inv) (hkeeps : s.broker.KeepsFiles b)
    (hcontained : b.Contained) (hregistered : s.table.Registered i b.table)
    (hi : s.zeroed i = false) :
    (s.setBroker b).Inv := by
  refine ⟨h.holding.setBroker hkeeps.inv hkeeps.openFiles, hkeeps.params.trans h.params, hcontained,
    h.settled, fun j hj hzeroed => ?_⟩
  have hji : j ≠ i := by
    rintro rfl
    exact absurd (hi.symm.trans hzeroed) (by decide)
  have hj : j < s.table.nBoxes := hregistered.nBoxes ▸ hj
  show Counted (b.table.boxes j) (s.state.sessions (b.table.name j)).encard
  rw [hregistered.other j hji, hregistered.name]
  exact h.counted j hj hzeroed

/-- A session is counted, and gets into its loop with a handle of its own. -/
theorem Inv.newSession {i f : Nat} {session : SubscriberFrame} (h : s.Inv)
    (hk : s.state.handlers k = none) (hkeeps : s.broker.KeepsFiles b) (hcontained : b.Contained)
    (hf : f ∉ s.broker.fs.openFiles) (hf' : f ∈ b.fs.openFiles)
    (hi : i < s.table.nBoxes) (hregistered : s.table.Registered i b.table)
    (hname : session.boxName = s.table.name i) (hplace : session.place = .findAgain)
    (hhandle : session.boxHandle = f) :
    Inv { s with state := { s.state with broker := b }.setHandler k (.subscriber session) } := by
  have hheld : (Program.subscriber session).held = some (f : Int) := by
    rw [Program.held, SubscriberFrame.held, hplace, hhandle]
    exact given_natCast f
  have hserves : ∀ q, (Program.subscriber session).ServesBox q ↔ s.table.name i = q := by
    intro q
    rw [Program.ServesBox, SubscriberFrame.InLoop, hplace, hname]
    exact and_iff_left trivial
  have hholding : BrokerState.Holding
      ({ s.state with broker := b }.setHandler k (.subscriber session)) := by
    refine h.holding.setHandler hkeeps.inv (fun boxHandle hheld' => ?_)
      fun k' p' boxHandle _ hk' hheld' => ?_
    · exact ⟨f, Option.some.inj (hheld'.symm.trans hheld), hf'⟩
    · obtain ⟨g, rfl, hg⟩ := h.holding.holdsOpen k' p' hk' boxHandle hheld'
      refine ⟨⟨g, rfl, hkeeps.openFiles hg⟩, fun heq => hf ?_⟩
      obtain rfl := Int.natCast_inj.mp (Option.some.inj (hheld.symm.trans heq))
      exact hg
  refine ⟨hholding, hkeeps.params.trans h.params, hcontained, fun k' p hk' => ?_,
    fun j hj hzeroed => ?_⟩
  · rcases BrokerState.handlers_setHandler hk' with ⟨-, rfl⟩ | ⟨-, hold⟩
    · refine Or.inl ⟨?_, by omega⟩
      rw [SubscriberFrame.InLoop, hplace]
      trivial
    · exact h.settled k' p hold
  · have hj : j < s.table.nBoxes := hregistered.nBoxes ▸ hj
    have hcounted := h.counted j hj hzeroed
    show Counted (b.table.boxes j) (({ s.state with broker := b }.setHandler k
      (.subscriber session)).sessions (b.table.name j)).encard
    rw [hregistered.name]
    by_cases hji : j = i
    · subst hji
      have hinsert : ({ s.state with broker := b }.setHandler k (.subscriber session)).sessions
          (s.table.name j) = insert k (s.state.sessions (s.table.name j)) :=
        BrokerState.sessions_setHandler_new ((hserves _).mpr rfl)
      -- The count, the index and the sessions become one more.
      rw [hinsert, Set.encard_insert_of_notMem (BrokerState.not_mem_sessions hk)]
      obtain ⟨hcount, hnonneg, hahead⟩ := hcounted
      have hcount' := hregistered.count
      have hindex' := hregistered.index
      refine ⟨?_, by omega, by omega⟩
      rw [hcount']
      exact_mod_cast congrArg (· + 1) hcount
    · rw [hregistered.other j hji, BrokerState.sessions_setHandler]
      · exact hcounted
      · refine iff_of_false (fun hs => hji ?_) (BrokerState.not_mem_sessions hk)
        exact h.contained.distinct j hj i hi ((hserves _).mp hs).symm

theorem Inv.subscribe {pipeName : Name pipeNameSize} {boxName : Name boxNameSize} (h : s.Inv)
    (hk : s.state.handlers k = none)
    (hc : s.request k (.subscriber pipeName boxName) locals pipe = .ok s')
    (hok : Permitted (.request k (.subscriber pipeName boxName) locals pipe) s) : s'.Inv := by
  obtain ⟨⟨o, b⟩, hregister, hc⟩ := Outcome.bind_eq_ok.mp hc
  obtain ⟨boxHandle, hopen, hcases⟩ := registerSubscriber_cases hregister
  rcases hcases with ⟨-, rfl, htable⟩ | ⟨i, hi, hname, rfl, hregistered⟩
  · obtain ⟨hkeeps, hcontained, -⟩ := h.contained.open h.holding.fs hopen
      (congrArg BoxTable.nBoxes htable) (congrArg BoxTable.name htable)
    obtain rfl := Outcome.ok.inj hc
    exact h.setBroker hkeeps hcontained htable
  · obtain ⟨hkeeps, hcontained, rfl | ⟨f, rfl, hf, hopenFiles⟩⟩ :=
      h.contained.open h.holding.fs hopen hregistered.nBoxes hregistered.name
    · obtain rfl := Outcome.ok.inj hc
      -- There is no handle, so the box has not been created with `subscriber_index = 0`.
      refine h.countOnly hkeeps hcontained hregistered ?_
      by_contra hzeroed
      refine (h.holding.fs.tfsOpen_ne_neg_iff (p := boxPath boxName.1) rfl rfl hopen).mpr
        ⟨h.contained.names _ ⟨i, hi, hname⟩, hok i hi hname ?_⟩ rfl
      simpa using hzeroed
    · rw [if_neg (by omega)] at hc
      obtain rfl := Outcome.ok.inj hc
      exact h.newSession hk hkeeps hcontained hf (hopenFiles ▸ Finset.mem_insert_self f _) hi
        hregistered hname.symm rfl rfl

/-- Publishers and listings. -/
theorem Inv.started (h : s.Inv) (hk : s.state.handlers k = none)
    (hsettled : (Program.start client locals).Settled)
    (hserves : ∀ q, ¬ (Program.start client locals).ServesBox q) :
    Inv { s with state := s.state.setHandler k (.start client locals) } := by
  refine h.keep ?_ rfl h.contained (fun k' p hk' => ?_) rfl rfl (fun _ => ⟨rfl, rfl⟩) fun q _ => ?_
  · refine h.holding.setHandler (b := s.state.broker) h.holding.fs (fun boxHandle hheld => ?_)
      fun k' p' boxHandle _ hk' hheld => ⟨h.holding.holdsOpen k' p' hk' boxHandle hheld, ?_⟩
    · rw [Program.held_start] at hheld
      cases hheld
    · rw [Program.held_start]
      exact (Option.some_ne_none _).symm
  · rcases BrokerState.handlers_setHandler hk' with ⟨-, rfl⟩ | ⟨-, hold⟩
    · exact hsettled
    · exact h.settled k' p hold
  · exact BrokerState.sessions_setHandler
      (iff_of_false (hserves q) (BrokerState.not_mem_sessions hk))

theorem Inv.request (h : s.Inv) (hk : s.state.handlers k = none)
    (hok : Permitted (.request k client locals pipe) s)
    (hc : s.request k client locals pipe = .ok s') : s'.Inv := by
  cases client with
  | create managerPipe boxName =>
    obtain ⟨⟨r, b⟩, hcreate, hc⟩ := Outcome.bind_eq_ok.mp hc
    obtain rfl := Outcome.ok.inj hc
    exact h.create hcreate hok
  | remove managerPipe boxName =>
    obtain ⟨⟨r, b⟩, hremove, hc⟩ := Outcome.bind_eq_ok.mp hc
    obtain rfl := Outcome.ok.inj hc
    exact h.remove hremove hok
  | subscriber pipeName boxName => exact h.subscribe hk hc hok
  | publisher pipeName boxName =>
    obtain rfl := Outcome.ok.inj hc
    exact h.started hk trivial fun _ => not_false
  | list pipeName =>
    obtain rfl := Outcome.ok.inj hc
    exact h.started hk trivial fun _ => not_false

/-- A handler goes on. -/
theorem Inv.handler {env : Answer} {u : Unit} (h : s.Inv)
    (hstep : BrokerState.step (.step k env) s.state = .ok (u, state))
    (hexit : (state.handlers k).any Program.Exits = false) : Inv { s with state := state } := by
  have hholding := (h.holding.step hstep).1
  rcases BrokerState.step_cases hstep with ⟨rfl, -⟩ | ⟨_, _, _, ht, -, -⟩ |
    ⟨k', env', p, call, a, b, p', ht, hk, hcall, hperform, hresume, rfl⟩
  · exact h
  · cases ht
  · cases ht
    -- The handler registers nobody, and leaves the loop only when its box has gone.
    have hsettled := h.settled k p hk
    rw [BrokerState.handlers_setHandler_self, Option.any_some] at hexit
    obtain ⟨hsame, -⟩ := perform_sameNames h.holding.fs
      (Program.keepsNames hsettled.not_changesBoxes hcall) hperform
    refine h.keep hholding hsame.fs.2 (hsame.contained h.contained) (fun k' q hk' => ?_) hsame.nBoxes
      hsame.name (perform_counts hperform (hsettled.keepsCounts hcall)) fun q hq => ?_
    · rcases BrokerState.handlers_setHandler hk' with ⟨-, rfl⟩ | ⟨-, hold⟩
      · exact (hsettled.resume hcall hperform hresume hexit).1
      · exact h.settled k' q hold
    · refine BrokerState.sessions_setHandler ?_
      rw [(hsettled.resume hcall hperform hresume hexit).2 q hq]
      exact (BrokerState.mem_sessions_of_handler hk).symm

theorem Inv.step {r : Unit} (h : s.Inv) (hok : Permitted e s)
    (hstep : CountState.step e s = .ok (r, s')) : s'.Inv := by
  obtain ⟨s₁, hnext, heq⟩ := Outcome.map_eq_ok.mp hstep
  obtain ⟨-, rfl⟩ := Prod.mk.inj heq
  cases e with
  | request k client locals pipe =>
    rw [next] at hnext
    split at hnext
    · obtain rfl := Outcome.ok.inj hnext
      exact h
    case h_2 hk => exact h.request hk hok hnext
  | step k env =>
    obtain ⟨⟨u, state⟩, hturn, hnext⟩ := Outcome.bind_eq_ok.mp hnext
    dsimp only at hnext
    split at hnext
    · cases hnext
    case isFalse hexit =>
      obtain rfl := Outcome.ok.inj hnext
      exact h.handler hturn (by simpa using hexit)

end CountState

open CountState in
/-- **The subscribers of a box are counted, and the next one is written into its array**,
in every run in which no session is left without a handle, no box is created for a
session that is still there, and no removal moves a box to an index too far ahead. -/
theorem accounted_of_permitted {fs : TfsState} {es : List CountEvent} {rs : List Unit}
    {s : CountState} (hfs : Started none fs) (hok : Outcome.Meets Permitted step es (start fs))
    (hrun : Outcome.runList step es (start fs) = .ok (rs, s)) : s.Accounted := by
  have h : s.Inv := Outcome.runList_invariant_of_reaches
    (fun e s r s' hs hok hstep => hs.step hok hstep) (fun e s' hreach => hok.reaches hreach)
    (inv_start hfs) hrun
  exact h.accounted

/-- Box `a` gets a subscriber, whose session goes on. -/
def oneSubscriber : List CountEvent :=
  .request 0 (.create pipeQ nameA) ⟨.zero, 0, []⟩ 0 ::
    .request 1 (.subscriber pipeP nameA) ⟨.zero, 0, []⟩ 0 :: List.replicate 5 (.step 1 {})

open CountState in
theorem accounted_oneSubscriber : ∃ rs s,
    Outcome.runList step oneSubscriber (start initial) = .ok (rs, s) ∧ s.table.nBoxes = 1 ∧
      (s.table.boxes 0).nSubscribers = 1 ∧ s.Accounted := by
  have hcreate : (step (.request 0 (.create pipeQ nameA) ⟨.zero, 0, []⟩ 0) (start initial)).map
      (fun p => (p.2.broker.fs.fsParams.maxOpenFilesCount,
        p.2.broker.fs.freeOpenFileEntries 0 == .taken)) = .ok (16, false) := by
    decide +kernel
  have hresult : (Outcome.runList step oneSubscriber (start initial)).map (fun p =>
      (p.2.table.nBoxes, (p.2.table.boxes 0).nSubscribers)) = .ok (1, 1) := by
    decide +kernel
  obtain ⟨⟨r₁, s₁⟩, h₁, hs₁⟩ := Outcome.map_eq_ok.mp hcreate
  obtain ⟨hcount₁, hfree⟩ : s₁.broker.fs.fsParams.maxOpenFilesCount = 16 ∧ _ := Prod.mk.inj hs₁
  obtain ⟨⟨rs, s⟩, hrun, hs⟩ := Outcome.map_eq_ok.mp hresult
  obtain ⟨hn, hcount⟩ := Prod.mk.inj hs
  have hok : Outcome.Meets Permitted step oneSubscriber (start initial) := by
    refine ⟨fun _ _ _ _ h => (by cases h), ?_⟩
    rw [h₁]
    refine ⟨fun _ _ _ _ hfull => ?_, ?_⟩
    · rw [hfull 0 (by omega)] at hfree
      cases hfree
    · split
      · refine Outcome.meets_of_forall fun e he s => ?_
        obtain rfl := List.eq_of_mem_replicate he
        trivial
      · trivial
  exact ⟨rs, s, hrun, hn, hcount, accounted_of_permitted started_initial hok hrun⟩

/-- The handler that an event is about. -/
def CountEvent.handler : CountEvent → Nat
  | .request k _ _ _ => k
  | .step k _ => k

theorem CountState.handlers_step_ne {e : CountEvent} {s s' : CountState} {r : Unit} {k : Nat}
    (h : step e s = .ok (r, s')) (hk : k ≠ e.handler) :
    s'.state.handlers k = s.state.handlers k := by
  obtain ⟨s₁, hnext, heq⟩ := Outcome.map_eq_ok.mp h
  obtain ⟨-, rfl⟩ := Prod.mk.inj heq
  cases e with
  | request k' client locals pipe =>
    rw [next] at hnext
    split at hnext
    · obtain rfl := Outcome.ok.inj hnext
      rfl
    · cases client with
      | create | remove =>
        obtain ⟨⟨r, b⟩, -, hnext⟩ := Outcome.bind_eq_ok.mp hnext
        obtain rfl := Outcome.ok.inj hnext
        rfl
      | subscriber pipeName boxName =>
        obtain ⟨⟨o, b⟩, -, hnext⟩ := Outcome.bind_eq_ok.mp hnext
        cases o with
        | none =>
          obtain rfl := Outcome.ok.inj hnext
          rfl
        | some boxHandle =>
          obtain rfl := Outcome.ok.inj hnext
          exact BrokerState.handlers_setHandler_ne hk
      | publisher | list =>
        obtain rfl := Outcome.ok.inj hnext
        exact BrokerState.handlers_setHandler_ne hk
  | step k' env =>
    obtain ⟨⟨u, state⟩, hturn, hnext⟩ := Outcome.bind_eq_ok.mp hnext
    dsimp only at hnext
    split at hnext
    · cases hnext
    · obtain rfl := Outcome.ok.inj hnext
      exact BrokerState.handlers_step_ne hturn hk

/-- It is the handler of a subscriber. -/
def Program.IsSubscriber : Program → Bool
  | .subscriber _ => true
  | _ => false

/-- A publisher of box `a`, seven that are turned away, and a subscriber. -/
def fullTable : List CountEvent :=
  .request 8 (.create pipeQ nameA) ⟨.zero, 0, []⟩ 0 ::
    ((List.range 8).map fun k => .request k (.publisher pipeP nameA) ⟨.zero, 0, []⟩ 0 ::
      List.replicate 7 (.step k {})).flatten ++
    [.request 8 (.subscriber pipeP nameA) ⟨.zero, 0, []⟩ 0]

open CountState in
/-- The subscriber is counted, and has been turned away. -/
theorem not_accounted_fullTable : ∃ rs s,
    Outcome.runList step fullTable (start initial) = .ok (rs, s) ∧
      (s.table.boxes 0).nSubscribers = 1 ∧ s.serving (.ofBuffer [97]) = 0 ∧ ¬ s.Accounted := by
  have hresult : (Outcome.runList step fullTable (start initial)).map (fun p =>
      (p.2.table.nBoxes, p.2.table.name 0, (p.2.table.boxes 0).nSubscribers, p.2.zeroed 0,
        (List.range 9).all fun k => !(p.2.state.handlers k).any Program.IsSubscriber)) =
      .ok (1, .ofBuffer [97], 1, true, true) := by
    decide +kernel
  obtain ⟨⟨rs, s⟩, hrun, hs⟩ := Outcome.map_eq_ok.mp hresult
  simp only [Prod.mk.injEq, List.all_eq_true, List.mem_range] at hs
  obtain ⟨hn, hname, hcount, hzeroed, hfew⟩ := hs
  -- There are no other handlers.
  have hothers : ∀ k, 9 ≤ k → s.state.handlers k = none := by
    have hstep : ∀ e s r s', (∀ k, 9 ≤ k → s.state.handlers k = none) → e.handler < 9 →
        step e s = .ok (r, s') → ∀ k, 9 ≤ k → s'.state.handlers k = none := by
      intro e s r s' hs he hstep k hk
      rw [handlers_step_ne hstep (by omega)]
      exact hs k hk
    refine Outcome.runList_invariant_of_reaches hstep (fun e s' hreach => ?_) (fun _ _ => rfl) hrun
    have hall : ∀ e ∈ fullTable, e.handler < 9 := by decide
    exact (Outcome.meets_of_forall fun e he _ => hall e he).reaches hreach
  have hnone : s.serving (.ofBuffer [97]) = 0 := by
    refine Set.encard_eq_zero.mpr (Set.eq_empty_of_forall_notMem ?_)
    rintro k ⟨p, hk, hserves⟩
    by_cases hlt : k < 9
    · have hnot := hfew k hlt
      rw [hk, Option.any_some] at hnot
      cases p with
      | subscriber f => cases hnot
      | _ => exact hserves
    · rw [hothers k (by omega)] at hk
      cases hk
  refine ⟨rs, s, hrun, hcount, hnone, fun haccounted => ?_⟩
  have heq := haccounted.counted 0 (by omega) hzeroed
  rw [hname, hnone, hcount] at heq
  exact absurd heq (by decide)

end Mbroker
