/-
The handlers of the broker, each run on its own.

`create_box` and `remove_box` run to their end.  A publisher's handler stops
whenever it waits for its client: `publisherFunction` takes it to the first
message, `receiveMessage` through one, and `endSession` from the end of the
client's pipe to its own.  `registerSubscriber` takes a subscriber's handler to
its loop.

* `createBox_spec`, `removeBox_spec`, `publisherFunction_spec`, `receiveMessage_spec`,
  `registerSubscriber_cases` — the ways in which they end;
* `createBox_table`, `removeBox_table`, `publisherFunction_table`,
  `receiveMessage_table`, `endSession_table` — what each does to the boxes.
-/
import Mbroker.Boxes
import Mbroker.TfsOperations

namespace Mbroker

open Tfs

/-- The file system and the boxes. -/
structure Broker where
  fs : TfsState
  table : BoxTable

/-- `'/'` before the name of a box. -/
def boxPath (q : CString) : CString :=
  ⟨47 :: q.bytes, by
    rw [List.mem_cons, not_or]
    exact ⟨by decide, q.noNul⟩⟩

theorem skipSlash_boxPath (q : CString) : skipSlash (boxPath q) = q := rfl

/-- `create_box`: the return code of the reply.  `box` is its local variable,
whose other fields stay as they are. -/
def createBox (boxName : CString) (box : Box) (b : Broker) : Outcome (Int × Broker) :=
  if findBox boxName b.table ≠ -1 then .ok (-1, b) -- the box already exists
  else do
    let (boxHandle, fs) ← tfsOpen (some (boxPath boxName)) tfsOCreat b.fs
    if boxHandle = -1 then return (-1, { b with fs := fs })
    let box := { box with boxSize := 0, nPublishers := 0, nSubscribers := 0, boxName := boxName }
    let (_, fs) ← tfsClose boxHandle fs
    let table ← addBox box b.table
    return (0, ⟨fs, table⟩)

/-- `remove_box`: the return code of the reply. -/
def removeBox (boxName : CString) (b : Broker) : Outcome (Int × Broker) := do
  let (boxHandle, fs) ← tfsUnlink (some (boxPath boxName)) b.fs
  if boxHandle = -1 then return (-1, { b with fs := fs })
  let boxIndex := findBox boxName b.table
  if boxIndex = -1 then return (-1, { b with fs := fs })
  let table ← deleteBox boxIndex b.table
  return (0, ⟨fs, table⟩)

/-- A publisher's handler between two messages: its request's box, the handle of
`recieve_messages_from_publisher` and its `box_index`. -/
structure PublisherSession where
  boxName : CString
  boxHandle : Int
  boxIndex : Int

/-- `publisher_function` up to the first message; without a session, the
publisher has been turned away. -/
def publisherFunction (pipeName boxName : CString) (b : Broker) :
    Outcome (Option PublisherSession × Broker) := do
  let (boxHandle, fs) ← tfsOpen (some (boxPath boxName)) tfsOAppend b.fs
  let boxIndex := findBox boxName b.table
  -- `recieve_messages_from_publisher` opens the file again, registered or not.
  if boxIndex = -1 ∨ boxHandle = -1 then
    let (_, fs) ← tfsOpen (some (boxPath boxName)) tfsOAppend fs
    return (none, { b with fs := fs })
  if (b.table.boxes boxIndex.toNat).nPublishers = 1 then
    let (_, fs) ← tfsOpen (some (boxPath boxName)) tfsOAppend fs
    return (none, { b with fs := fs })
  let table := b.table.modify boxIndex.toNat fun box =>
    { box with nPublishers := 1, publisher := pipeName }
  let (sessionHandle, fs) ← tfsOpen (some (boxPath boxName)) tfsOAppend fs
  return (some ⟨boxName, sessionHandle, boxIndex⟩, ⟨fs, table⟩)

/-- What `recieve_messages_from_publisher` writes under the mutex of the box. -/
def writeSection (boxHandle : Int) (buffer : List UInt8) (s : TfsState) : Outcome TfsState := do
  let message := CString.ofBuffer buffer
  let (_, s) ← tfsWrite boxHandle message.bytes s
  let (_, s) ← tfsWrite boxHandle [0] s
  return s

/-- `recieve_messages_from_publisher` on one message; the session ends when its
box is not in the table.  A message without a NUL is copied past its buffer. -/
def receiveMessage (buffer : List UInt8) (session : PublisherSession) (b : Broker) :
    Outcome (Option PublisherSession × Broker) :=
  let boxIndex := findBox session.boxName b.table
  if boxIndex = -1 then do
    let (_, fs) ← tfsClose session.boxHandle b.fs
    return (none, { b with fs := fs })
  else if 0 ∉ buffer then .fault
  else do
    let fs ← writeSection session.boxHandle buffer b.fs
    let table := b.table.modify boxIndex.toNat fun box =>
      { box with boxSize := box.boxSize + (CString.ofBuffer buffer).strlen }
    return (some { session with boxIndex := boxIndex }, ⟨fs, table⟩)

/-- The end of `recieve_messages_from_publisher`, when the client has closed its
pipe. -/
def endSession (session : PublisherSession) (b : Broker) : Outcome Broker := do
  let table := if session.boxIndex = -1 then b.table
    else b.table.modify session.boxIndex.toNat fun box => { box with nPublishers := 0 }
  let (_, fs) ← tfsClose session.boxHandle b.fs
  return ⟨fs, table⟩

/-- `register_subscriber`, and `read_messages` up to its loop: the handle that the
loop reads from, if it gets there. -/
def registerSubscriber (pipeName boxName : CString) (b : Broker) : Outcome (Option Int × Broker) :=
  let boxIndex := findBox boxName b.table
  if boxIndex = -1 then do
    let (_, fs) ← tfsOpen (some (boxPath boxName)) 0 b.fs
    return (none, { b with fs := fs })
  else do
    let table := b.table.modify boxIndex.toNat fun box =>
      { box with nSubscribers := box.nSubscribers + 1 }
    let table ← addSubscriberToBox boxIndex.toNat pipeName table
    let (boxHandle, fs) ← tfsOpen (some (boxPath boxName)) 0 b.fs
    if boxHandle = -1 then return (none, ⟨fs, table⟩)
    return (some boxHandle, ⟨fs, table⟩)

/-! ### What the handlers do to the boxes -/

section Tables

variable {boxName pipeName : CString} {box : Box} {b b' : Broker} {r : Int}
  {session : PublisherSession} {session' : Option PublisherSession} {buffer : List UInt8}
  {o : Option Int}

/-- How `create_box` ends: there is such a box, the file cannot be opened, or the box is added. -/
inductive CreateSpec (boxName : CString) (box : Box) (b : Broker) : Int → Broker → Prop where
  | held (h : b.table.Holds boxName) : CreateSpec boxName box b (-1) b
  | notOpened {fs : TfsState} (hbox : ¬ b.table.Holds boxName)
      (hopen : tfsOpen (some (boxPath boxName)) tfsOCreat b.fs = .ok (-1, fs)) :
      CreateSpec boxName box b (-1) { b with fs := fs }
  | added {boxHandle closed : Int} {fs fs₁ : TfsState} {table : BoxTable}
      (hbox : ¬ b.table.Holds boxName) (hne : boxHandle ≠ -1)
      (hopen : tfsOpen (some (boxPath boxName)) tfsOCreat b.fs = .ok (boxHandle, fs))
      (hclose : tfsClose boxHandle fs = .ok (closed, fs₁))
      (hadd : addBox { box with
        boxSize := 0, nPublishers := 0, nSubscribers := 0, boxName := boxName } b.table = .ok table) :
      CreateSpec boxName box b 0 ⟨fs₁, table⟩

theorem createBox_spec (h : createBox boxName box b = .ok (r, b')) :
    CreateSpec boxName box b r b' := by
  rw [createBox] at h
  split at h
  case isTrue hfind =>
    obtain ⟨rfl, rfl⟩ := Prod.mk.inj (Outcome.ok.inj h)
    exact .held (BoxTable.findBox_ne_neg.mp hfind)
  case isFalse hfind =>
    have hbox := BoxTable.findBox_ne_neg.not.mp hfind
    obtain ⟨⟨boxHandle, fs⟩, hopen, h⟩ := Outcome.bind_eq_ok.mp h
    dsimp only at h
    split at h
    case isTrue hneg =>
      obtain ⟨rfl, rfl⟩ := Prod.mk.inj (Outcome.ok.inj h)
      exact .notOpened hbox (hneg ▸ hopen)
    case isFalse hne =>
      obtain ⟨⟨closed, fs₁⟩, hclose, h⟩ := Outcome.bind_eq_ok.mp h
      obtain ⟨table, hadd, h⟩ := Outcome.bind_eq_ok.mp h
      obtain ⟨rfl, rfl⟩ := Prod.mk.inj (Outcome.ok.inj h)
      exact .added hbox hne hopen hclose hadd

/-- `create_box` gets as far as the file of a new box. -/
def OpensNewBox (boxName : CString) (b : Broker) : Prop :=
  findBox boxName b.table = -1 ∧
    ∃ h fs, tfsOpen (some (boxPath boxName)) tfsOCreat b.fs = .ok (h, fs) ∧ h ≠ -1

instance (boxName : CString) (b : Broker) : Decidable (OpensNewBox boxName b) :=
  inferInstanceAs (Decidable (_ ∧ _))

theorem createBox_table (h : createBox boxName box b = .ok (r, b')) :
    r = -1 ∧ b'.table = b.table ∨ r = 0 ∧ OpensNewBox boxName b ∧
      addBox { box with boxSize := 0, nPublishers := 0, nSubscribers := 0, boxName := boxName }
        b.table = .ok b'.table := by
  cases createBox_spec h with
  | held => exact Or.inl ⟨rfl, rfl⟩
  | notOpened => exact Or.inl ⟨rfl, rfl⟩
  | added hbox hne hopen _ hadd =>
    exact Or.inr ⟨rfl, ⟨not_not.mp (BoxTable.findBox_ne_neg.not.mpr hbox), _, _, hopen, hne⟩, hadd⟩

/-- How `remove_box` ends: there is no such file, no such box, or the box is deleted. -/
inductive RemoveSpec (boxName : CString) (b : Broker) : Int → Broker → Prop where
  | notUnlinked {fs : TfsState}
      (hunlink : tfsUnlink (some (boxPath boxName)) b.fs = .ok (-1, fs)) :
      RemoveSpec boxName b (-1) { b with fs := fs }
  | notFound {r : Int} {fs : TfsState} (hne : r ≠ -1)
      (hunlink : tfsUnlink (some (boxPath boxName)) b.fs = .ok (r, fs))
      (hbox : ¬ b.table.Holds boxName) : RemoveSpec boxName b (-1) { b with fs := fs }
  | deleted {r : Int} {fs : TfsState} {i : Nat} {table : BoxTable} (hne : r ≠ -1)
      (hunlink : tfsUnlink (some (boxPath boxName)) b.fs = .ok (r, fs)) (hi : i < b.table.nBoxes)
      (hfind : findBox boxName b.table = i) (hname : b.table.name i = boxName)
      (hdelete : deleteBox i b.table = .ok table) : RemoveSpec boxName b 0 ⟨fs, table⟩

theorem removeBox_spec (h : removeBox boxName b = .ok (r, b')) : RemoveSpec boxName b r b' := by
  obtain ⟨⟨unlinked, fs⟩, hunlink, h⟩ := Outcome.bind_eq_ok.mp h
  dsimp only at h
  split at h
  case isTrue hneg =>
    obtain ⟨rfl, rfl⟩ := Prod.mk.inj (Outcome.ok.inj h)
    exact .notUnlinked (hneg ▸ hunlink)
  case isFalse hne =>
    split at h
    case isTrue hfind =>
      obtain ⟨rfl, rfl⟩ := Prod.mk.inj (Outcome.ok.inj h)
      exact .notFound hne hunlink fun hheld => BoxTable.findBox_ne_neg.mpr hheld hfind
    case isFalse hfind =>
      obtain ⟨table, hdelete, h⟩ := Outcome.bind_eq_ok.mp h
      obtain ⟨rfl, rfl⟩ := Prod.mk.inj (Outcome.ok.inj h)
      obtain ⟨i, hi, hfi, hname⟩ := BoxTable.of_findBox hfind
      exact .deleted hne hunlink hi hfi hname (hfi ▸ hdelete)

/-- `remove_box` gets as far as the table. -/
def RemovesBox (boxName : CString) (b : Broker) : Prop :=
  ∃ h fs, tfsUnlink (some (boxPath boxName)) b.fs = .ok (h, fs) ∧ h ≠ -1

instance (boxName : CString) (b : Broker) : Decidable (RemovesBox boxName b) :=
  inferInstanceAs (Decidable (∃ _ _, _ ∧ _))

theorem removeBox_table (h : removeBox boxName b = .ok (r, b')) :
    r = -1 ∧ b'.table = b.table ∨ r = 0 ∧ RemovesBox boxName b ∧
      ∃ i < b.table.nBoxes, findBox boxName b.table = i ∧ b.table.name i = boxName ∧
        deleteBox i b.table = .ok b'.table := by
  cases removeBox_spec h with
  | notUnlinked => exact Or.inl ⟨rfl, rfl⟩
  | notFound => exact Or.inl ⟨rfl, rfl⟩
  | deleted hne hunlink hi hfind hname hdelete =>
    exact Or.inr ⟨rfl, ⟨_, _, hunlink, hne⟩, _, hi, hfind, hname, hdelete⟩

/-- How `publisher_function` gets to the first message: the publisher is turned away, or it has
the box.  The file is opened twice, and the session has the second handle. -/
inductive PublisherSpec (pipeName boxName : CString) (b : Broker) :
    Option PublisherSession → Broker → Prop where
  | turnedAway {r₁ r₂ : Int} {fs₁ fs₂ : TfsState}
      (hopen₁ : tfsOpen (some (boxPath boxName)) tfsOAppend b.fs = .ok (r₁, fs₁))
      (hopen₂ : tfsOpen (some (boxPath boxName)) tfsOAppend fs₁ = .ok (r₂, fs₂)) :
      PublisherSpec pipeName boxName b none { b with fs := fs₂ }
  | registered {i : Nat} {r₁ r₂ : Int} {fs₁ fs₂ : TfsState}
      (hopen₁ : tfsOpen (some (boxPath boxName)) tfsOAppend b.fs = .ok (r₁, fs₁))
      (hopen₂ : tfsOpen (some (boxPath boxName)) tfsOAppend fs₁ = .ok (r₂, fs₂))
      (hi : i < b.table.nBoxes) (hname : b.table.name i = boxName)
      (hflag : (b.table.boxes i).nPublishers ≠ 1) :
      PublisherSpec pipeName boxName b (some ⟨boxName, r₂, i⟩)
        ⟨fs₂, b.table.modify i fun box => { box with nPublishers := 1, publisher := pipeName }⟩

theorem publisherFunction_spec (h : publisherFunction pipeName boxName b = .ok (session', b')) :
    PublisherSpec pipeName boxName b session' b' := by
  obtain ⟨⟨r₁, fs₁⟩, hopen₁, h⟩ := Outcome.bind_eq_ok.mp h
  dsimp only at h
  split at h
  · obtain ⟨⟨r₂, fs₂⟩, hopen₂, h⟩ := Outcome.bind_eq_ok.mp h
    obtain ⟨rfl, rfl⟩ := Prod.mk.inj (Outcome.ok.inj h)
    exact .turnedAway hopen₁ hopen₂
  case isFalse hfind =>
    rw [not_or] at hfind
    obtain ⟨i, hi, hfi, hname⟩ := BoxTable.of_findBox hfind.1
    rw [hfi, Int.toNat_natCast] at h
    split at h
    · obtain ⟨⟨r₂, fs₂⟩, hopen₂, h⟩ := Outcome.bind_eq_ok.mp h
      obtain ⟨rfl, rfl⟩ := Prod.mk.inj (Outcome.ok.inj h)
      exact .turnedAway hopen₁ hopen₂
    case isFalse hflag =>
      obtain ⟨⟨r₂, fs₂⟩, hopen₂, h⟩ := Outcome.bind_eq_ok.mp h
      obtain ⟨rfl, rfl⟩ := Prod.mk.inj (Outcome.ok.inj h)
      exact .registered hopen₁ hopen₂ hi hname hflag

theorem publisherFunction_table (h : publisherFunction pipeName boxName b = .ok (session', b')) :
    session' = none ∧ b'.table = b.table ∨
      ∃ i < b.table.nBoxes, b.table.name i = boxName ∧ (b.table.boxes i).nPublishers ≠ 1 ∧
        (∃ boxHandle, session' = some ⟨boxName, boxHandle, i⟩) ∧
        b'.table = b.table.modify i fun box =>
          { box with nPublishers := 1, publisher := pipeName } := by
  cases publisherFunction_spec h with
  | turnedAway => exact Or.inl ⟨rfl, rfl⟩
  | registered _ _ hi hname hflag => exact Or.inr ⟨_, hi, hname, hflag, ⟨_, rfl⟩, rfl⟩

/-- How `recieve_messages_from_publisher` gets through a message: its box is gone and the
session ends, or the message is written. -/
inductive ReceiveSpec (buffer : List UInt8) (session : PublisherSession) (b : Broker) :
    Option PublisherSession → Broker → Prop where
  | gone {closed : Int} {fs : TfsState} (hbox : ¬ b.table.Holds session.boxName)
      (hclose : tfsClose session.boxHandle b.fs = .ok (closed, fs)) :
      ReceiveSpec buffer session b none { b with fs := fs }
  | written {i : Nat} {fs : TfsState} (hi : i < b.table.nBoxes)
      (hname : b.table.name i = session.boxName) (hnul : 0 ∈ buffer)
      (hwrite : writeSection session.boxHandle buffer b.fs = .ok fs) :
      ReceiveSpec buffer session b (some { session with boxIndex := i })
        ⟨fs, b.table.modify i fun box =>
          { box with boxSize := box.boxSize + (CString.ofBuffer buffer).strlen }⟩

theorem receiveMessage_spec (h : receiveMessage buffer session b = .ok (session', b')) :
    ReceiveSpec buffer session b session' b' := by
  rw [receiveMessage] at h
  dsimp only at h
  split at h
  case isTrue hfind =>
    obtain ⟨⟨closed, fs⟩, hclose, h⟩ := Outcome.bind_eq_ok.mp h
    obtain ⟨rfl, rfl⟩ := Prod.mk.inj (Outcome.ok.inj h)
    exact .gone (fun hheld => BoxTable.findBox_ne_neg.mpr hheld hfind) hclose
  case isFalse hfind =>
    obtain ⟨i, hi, hfi, hname⟩ := BoxTable.of_findBox hfind
    rw [hfi, Int.toNat_natCast] at h
    split at h
    · cases h
    case isFalse hnul =>
      obtain ⟨fs, hwrite, h⟩ := Outcome.bind_eq_ok.mp h
      obtain ⟨rfl, rfl⟩ := Prod.mk.inj (Outcome.ok.inj h)
      exact .written hi hname (not_not.mp hnul) hwrite

theorem receiveMessage_written {i : Nat} {fs : TfsState}
    (hfind : findBox session.boxName b.table = i) (hnul : 0 ∈ buffer)
    (hwrite : writeSection session.boxHandle buffer b.fs = .ok fs) :
    receiveMessage buffer session b =
      .ok (some { session with boxIndex := i }, ⟨fs, b.table.modify i fun box =>
        { box with boxSize := box.boxSize + (CString.ofBuffer buffer).strlen }⟩) := by
  rw [receiveMessage, hfind]
  dsimp only
  rw [if_neg (by omega), if_neg (not_not.mpr hnul), hwrite]
  rfl

theorem receiveMessage_table (h : receiveMessage buffer session b = .ok (session', b')) :
    session' = none ∧ (∀ i < b.table.nBoxes, b.table.name i ≠ session.boxName) ∧
        b'.table = b.table ∨
      ∃ i < b.table.nBoxes, b.table.name i = session.boxName ∧
        session' = some { session with boxIndex := i } ∧
        b'.table = b.table.modify i fun box =>
          { box with boxSize := box.boxSize + (CString.ofBuffer buffer).strlen } := by
  cases receiveMessage_spec h with
  | gone hbox =>
    exact Or.inl ⟨rfl, fun i hi hname => hbox ⟨i, hi, hname⟩, rfl⟩
  | written hi hname => exact Or.inr ⟨_, hi, hname, rfl, rfl⟩

/-- Box `i` gets a subscriber. -/
structure BoxTable.Registered (t : BoxTable) (i : Nat) (t' : BoxTable) : Prop where
  nBoxes : t'.nBoxes = t.nBoxes
  name : t'.name = t.name
  count : (t'.boxes i).nSubscribers = (t.boxes i).nSubscribers + 1
  index : (t'.boxes i).subscriberIndex = (t.boxes i).subscriberIndex + 1
  other : ∀ j ≠ i, t'.boxes j = t.boxes j

theorem BoxTable.registered {t t' : BoxTable} {i : Nat}
    (h : addSubscriberToBox i pipeName (t.modify i fun box =>
      { box with nSubscribers := box.nSubscribers + 1 }) = .ok t') : t.Registered i t' := by
  rw [addSubscriberToBox, boxes_modify_self] at h
  dsimp only at h
  split at h
  · cases h
  · obtain rfl := Outcome.ok.inj h
    refine ⟨rfl, ?_, ?_, ?_, fun j hj => ?_⟩
    · refine (name_modify ?_).trans (name_modify ?_)
      · exact fun _ => rfl
      · exact fun _ => rfl
    · rw [boxes_modify_self, boxes_modify_self]
    · rw [boxes_modify_self]
    · rw [boxes_modify_ne hj, boxes_modify_ne hj]

/-- What `register_subscriber` does: when there is such a box, it is counted whether or not
its file can be opened. -/
theorem registerSubscriber_cases (h : registerSubscriber pipeName boxName b = .ok (o, b')) :
    ∃ boxHandle, tfsOpen (some (boxPath boxName)) 0 b.fs = .ok (boxHandle, b'.fs) ∧
      (¬ b.table.Holds boxName ∧ o = none ∧ b'.table = b.table ∨
        ∃ i < b.table.nBoxes, b.table.name i = boxName ∧
          (o = if boxHandle = -1 then none else some boxHandle) ∧ b.table.Registered i b'.table) := by
  rw [registerSubscriber] at h
  dsimp only at h
  split at h
  case isTrue hfind =>
    obtain ⟨⟨boxHandle, fs⟩, hopen, h⟩ := Outcome.bind_eq_ok.mp h
    obtain ⟨rfl, rfl⟩ := Prod.mk.inj (Outcome.ok.inj h)
    exact ⟨boxHandle, hopen,
      Or.inl ⟨fun hheld => BoxTable.findBox_ne_neg.mpr hheld hfind, rfl, rfl⟩⟩
  case isFalse hfind =>
    obtain ⟨i, hi, hfi, hname⟩ := BoxTable.of_findBox hfind
    rw [hfi, Int.toNat_natCast] at h
    obtain ⟨table, hadd, h⟩ := Outcome.bind_eq_ok.mp h
    obtain ⟨⟨boxHandle, fs⟩, hopen, h⟩ := Outcome.bind_eq_ok.mp h
    have hregistered := BoxTable.registered hadd
    dsimp only at h
    split at h
    case isTrue hneg =>
      obtain ⟨rfl, rfl⟩ := Prod.mk.inj (Outcome.ok.inj h)
      exact ⟨boxHandle, hopen, Or.inr ⟨i, hi, hname, (if_pos hneg).symm, hregistered⟩⟩
    case isFalse hne =>
      obtain ⟨rfl, rfl⟩ := Prod.mk.inj (Outcome.ok.inj h)
      exact ⟨boxHandle, hopen, Or.inr ⟨i, hi, hname, (if_neg hne).symm, hregistered⟩⟩

theorem registerSubscriber_table (h : registerSubscriber pipeName boxName b = .ok (o, b')) :
    b'.table.nBoxes = b.table.nBoxes ∧ b'.table.name = b.table.name := by
  obtain ⟨boxHandle, -, ⟨-, -, htable⟩ | ⟨i, -, -, -, hregistered⟩⟩ := registerSubscriber_cases h
  · rw [htable]
    exact ⟨rfl, rfl⟩
  · exact ⟨hregistered.nBoxes, hregistered.name⟩

theorem endSession_table (h : endSession session b = .ok b') :
    b'.table = if session.boxIndex = -1 then b.table
      else b.table.modify session.boxIndex.toNat fun box => { box with nPublishers := 0 } := by
  obtain ⟨⟨r, fs⟩, -, h⟩ := Outcome.bind_eq_ok.mp h
  obtain rfl := Outcome.ok.inj h
  rfl

end Tables

end Mbroker
