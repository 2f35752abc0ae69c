/-
What has not been assigned, and where it gets to.

`create_box` puts its variable `box` in the table when it has assigned four of the fields; a
reply's `error_message` is padded by `fill_string`, which takes what happens to lie in it for a
string.  Here the handlers work on the bytes, one request at a time, and what they find in these
variables is given with each request.

* `RecordBroker.createBox_toBroker`, `removeBox_toBroker`, `runPublisher_toBroker`,
  `registerSubscriber_toBroker` — the handlers on the bytes, as the handlers on the boxes;
* `RecordBroker.Agrees.handle`, `RecordBroker.Agrees.run` — two brokers whose assigned bytes
  agree;
* **`run_eq_of_undisclosed`** — the same gets out of both, as long as nothing does that has not
  been assigned;
* `not_same_replyX` — a reply that starts with what lay in it.
-/
import Mbroker.BoxRecords
import Mbroker.Delivery
import Mbroker.PublisherSessions

namespace Mbroker

open Tfs

/-! ### Replies -/

/-- `box_reply_t`. -/
structure BoxReply where
  returnCode : Int
  errorMessage : CharArray messageSize

def couldntCreateBox : CString := .ofBuffer ("Couldn't create box".toUTF8.toList)

def couldntRemoveBox : CString := .ofBuffer ("Couldn't remove box".toUTF8.toList)

namespace BoxReply

/-- The reply, as `write` sends it. -/
def bytes (reply : BoxReply) : List UInt8 :=
  Memory.intBytes reply.returnCode ++ reply.errorMessage.bytes

/-- `reply_to_box_creation`, up to the writes; `reply` is its local variable. -/
def replyToBoxCreation (n : Nat) (reply : BoxReply) : Outcome BoxReply := do
  let reply : BoxReply ←
    if n = 0 then do
      let errorMessage ← reply.errorMessage.fillString
      let errorMessage ← errorMessage.strcpy couldntCreateBox
      pure ⟨-1, errorMessage⟩
    else pure { reply with returnCode := 0 }
  let errorMessage ← reply.errorMessage.fillString
  return { reply with errorMessage := errorMessage }

/-- `reply_to_box_removal`, up to the writes; `reply` is its local variable. -/
def replyToBoxRemoval (n : Nat) (reply : BoxReply) : Outcome BoxReply := do
  let errorMessage ← reply.errorMessage.fillString
  if n = 0 then do
    let errorMessage ← errorMessage.strcpy couldntRemoveBox
    return ⟨-1, errorMessage⟩
  else return ⟨0, errorMessage⟩

end BoxReply

/-! ### Handlers -/

/-- What a request finds in the variables that it has not assigned: `box` in `create_box`, and
`reply` in the function that replies. -/
structure Uninitialised where
  box : BoxRecord
  reply : BoxReply

/-- A subscriber's handler: its request, and what it has read and sent. -/
structure Reader where
  pipeName : CString
  boxName : CString
  session : Subscriber

/-- The broker, with its publishers and its subscribers. -/
structure RecordBroker where
  fs : TfsState
  table : RecordTable
  publishers : Nat → Option PublisherSession
  subscribers : Nat → Option Reader

/-- What the broker lets out of its memory: bytes for a client, and the index at which a
subscriber is stored. -/
inductive Event where
  | write (pipeName : CString) (bytes : List UInt8)
  | subscriberIndex (i : Int)
deriving DecidableEq

/-- A request, or what a client does later on.  The variables that come with some of them
are not among those of `Uninitialised`. -/
inductive Request where
  | create (pipeName boxName : CString)
  | remove (pipeName boxName : CString)
  | list (pipeName : CString) (replyBox : BoxRecord)
  | publisher (k : Nat) (part : PublisherPart)
  | subscribe (k : Nat) (pipeName boxName : CString) (charBuffer : UInt8)
      (buffer : CharArray messageSize)
  | deliver (k : Nat)

namespace RecordBroker

/-- `main`, when `tfs_init` has returned. -/
def start (fs : TfsState) : RecordBroker := ⟨fs, .empty, fun _ => none, fun _ => none⟩

/-- The broker whose boxes have the strings for fields. -/
def toBroker (b : RecordBroker) : Broker := ⟨b.fs, b.table.toTable⟩

/-- `find_box`. -/
def findBox (boxName : CString) (b : RecordBroker) : Int := Mbroker.findBox boxName b.table.toTable

/-- `create_box`, up to its reply: the argument `n` of that, and the broker. -/
def createBox (boxName : CString) (box : BoxRecord) (b : RecordBroker) :
    Outcome (Nat × RecordBroker) :=
  if b.findBox boxName ≠ -1 then .ok (0, b) -- the box already exists
  else do
    let (boxHandle, fs) ← tfsOpen (some (boxPath boxName)) tfsOCreat b.fs
    if boxHandle = -1 then return (0, { b with fs := fs })
    let name ← box.boxName.strcpy boxName
    let box := { box with boxSize := 0, nPublishers := 0, nSubscribers := 0, boxName := name }
    let (_, fs) ← tfsClose boxHandle fs
    let table ← b.table.addBox box
    return (1, { b with fs := fs, table := table })

/-- `remove_box`, up to its reply.  A subscriber that its broadcast wakes up goes on with its
next `deliver`; `delete_box` comes back from the pipe of the publisher. -/
def removeBox (boxName : CString) (b : RecordBroker) : Outcome (Nat × RecordBroker) := do
  let (boxHandle, fs) ← tfsUnlink (some (boxPath boxName)) b.fs
  if boxHandle = -1 then return (0, { b with fs := fs })
  let boxIndex := b.findBox boxName
  if boxIndex = -1 then return (0, { b with fs := fs })
  let table ← b.table.deleteBox boxIndex
  return (1, { b with fs := fs, table := table })

/-- `publisher_function`, up to the first message. -/
def publisherFunction (pipeName boxName : CString) (b : RecordBroker) :
    Outcome (Option PublisherSession × RecordBroker) := do
  let (boxHandle, fs) ← tfsOpen (some (boxPath boxName)) tfsOAppend b.fs
  let boxIndex := b.findBox boxName
  if boxIndex = -1 ∨ boxHandle = -1 then
    let (_, fs) ← tfsOpen (some (boxPath boxName)) tfsOAppend fs
    return (none, { b with fs := fs })
  if (b.table.boxes boxIndex.toNat).nPublishers = 1 then
    let (_, fs) ← tfsOpen (some (boxPath boxName)) tfsOAppend fs
    return (none, { b with fs := fs })
  let publisher ← (b.table.boxes boxIndex.toNat).publisher.strcpy pipeName
  let table := b.table.modify boxIndex.toNat fun box =>
    { box with nPublishers := 1, publisher := publisher }
  let (sessionHandle, fs) ← tfsOpen (some (boxPath boxName)) tfsOAppend fs
  return (some ⟨boxName, sessionHandle, boxIndex⟩, { b with fs := fs, table := table })

/-- `recieve_messages_from_publisher` on one message. -/
def receiveMessage (buffer : List UInt8) (session : PublisherSession) (b : RecordBroker) :
    Outcome (Option PublisherSession × RecordBroker) :=
  let boxIndex := b.findBox session.boxName
  if boxIndex = -1 then do
    let (_, fs) ← tfsClose session.boxHandle b.fs
    return (none, { b with fs := fs })
  else if 0 ∉ buffer then .fault
  else do
    let fs ← writeSection session.boxHandle buffer b.fs
    let table := b.table.modify boxIndex.toNat fun box =>
      { box with boxSize := box.boxSize + (CString.ofBuffer buffer).strlen }
    return (some { session with boxIndex := boxIndex }, { b with fs := fs, table := table })

/-- The end of `recieve_messages_from_publisher`. -/
def endSession (session : PublisherSession) (b : RecordBroker) : Outcome RecordBroker := do
  let table := if session.boxIndex = -1 then b.table
    else b.table.modify session.boxIndex.toNat fun box => { box with nPublishers := 0 }
  let (_, fs) ← tfsClose session.boxHandle b.fs
  return { b with fs := fs, table := table }

/-- A part of a publisher's handler. -/
def runPublisher : PublisherPart → Option PublisherSession → RecordBroker →
    Outcome (Option PublisherSession × RecordBroker)
  | .register pipeName boxName, none, b => publisherFunction pipeName boxName b
  | .message buffer, some session, b => receiveMessage buffer session b
  | .disconnect, some session, b => do
    let b ← endSession session b
    return (none, b)
  | _, session, b => .ok (session, b)

/-- `register_subscriber`, and `read_messages` up to its loop. -/
def registerSubscriber (pipeName boxName : CString) (b : RecordBroker) :
    Outcome (Option Int × RecordBroker) :=
  let boxIndex := b.findBox boxName
  if boxIndex = -1 then do
    let (_, fs) ← tfsOpen (some (boxPath boxName)) 0 b.fs
    return (none, { b with fs := fs })
  else do
    let table := b.table.modify boxIndex.toNat fun box =>
      { box with nSubscribers := box.nSubscribers + 1 }
    let table ← table.addSubscriberToBox boxIndex.toNat pipeName
    let (boxHandle, fs) ← tfsOpen (some (boxPath boxName)) 0 b.fs
    if boxHandle = -1 then return (none, { b with fs := fs, table := table })
    return (some boxHandle, { b with fs := fs, table := table })

/-- A round of the loop of `read_messages`. -/
def readMessages (reader : Reader) (b : RecordBroker) :
    Outcome (List Event × Option Reader × TfsState) :=
  if b.findBox reader.boxName = -1 then
    -- A wait that ends without a box goes on with the old `char_buffer` and a closed pipe; what
    -- is not the end of a message is stored, and then `box_mutexes[-1]` is unlocked.
    if reader.session.waiting then
      if messageSize ≤ reader.session.i ∨ reader.session.charBuffer ≠ 0 then .fault
      else .panic "exit(EXIT_FAILURE)"
    else do
      let (_, fs) ← tfsClose reader.session.boxHandle b.fs
      return ([], none, fs)
  else do
    let (session, fs) ← readSection reader.session b.fs
    let sent := session.sent.drop reader.session.sent.length
    return (sent.flatMap fun message =>
      [.write reader.pipeName [message.1], .write reader.pipeName message.2],
      some { reader with session := session }, fs)

/-- A request, handled to its end, or to where it waits for its client. -/
def handle : Request → Uninitialised → RecordBroker → Outcome (List Event × RecordBroker)
  | .create pipeName boxName, u, b => do
    let (n, b) ← createBox boxName u.box b
    let reply ← u.reply.replyToBoxCreation n
    return ([.write pipeName [4], .write pipeName reply.bytes], b)
  | .remove pipeName boxName, u, b => do
    let (n, b) ← removeBox boxName b
    let reply ← u.reply.replyToBoxRemoval n
    return ([.write pipeName [6], .write pipeName reply.bytes], b)
  | .list pipeName replyBox, _, b => do
    let (writes, table) ← b.table.replyToListBoxes replyBox
    return (writes.map (.write pipeName), { b with table := table })
  | .publisher k part, _, b => do
    let (session, b) ← runPublisher part (b.publishers k) b
    return ([], { b with publishers := Function.update b.publishers k session })
  | .subscribe k pipeName boxName charBuffer buffer, _, b =>
    match b.subscribers k with
    | some _ => .ok ([], b)
    | none => do
      let (boxHandle, b) ← registerSubscriber pipeName boxName b
      let reader := boxHandle.map fun h =>
        { pipeName := pipeName, boxName := boxName
          session := { boxHandle := h, charBuffer := charBuffer, buffer := buffer.bytes, i := 0 } }
      return ([], { b with subscribers := Function.update b.subscribers k reader })
  | .deliver k, _, b =>
    match b.subscribers k with
    | none => .ok ([], b)
    | some reader => do
      let (events, reader, fs) ← readMessages reader b
      return (events, { b with fs := fs, subscribers := Function.update b.subscribers k reader })

/-- The index that `add_subscriber_to_box` uses, within the array or not. -/
def indexUsed : Request → RecordBroker → List Event
  | .subscribe k _ boxName _ _, b =>
    if b.subscribers k = none ∧ b.findBox boxName ≠ -1 then
      [.subscriberIndex (b.table.boxes (b.findBox boxName).toNat).subscriberIndex]
    else []
  | _, _ => []

/-- Requests, one after the other: what gets out, and how it ends. -/
def run : List (Request × Uninitialised) → RecordBroker → List Event × Outcome RecordBroker
  | [], b => ([], .ok b)
  | (request, u) :: requests, b =>
    match handle request u b with
    | .ok (events, b') =>
      let (events', o) := run requests b'
      (indexUsed request b ++ events ++ events', o)
    | .panic msg => (indexUsed request b, .panic msg)
    | .fault => (indexUsed request b, .fault)

end RecordBroker

/-! ### The boxes of the records -/

namespace RecordBroker

section ToBroker

variable {b b' : RecordBroker} {boxName pipeName : CString} {box : BoxRecord} {n : Nat}
  {session : PublisherSession} {session' : Option PublisherSession} {buffer : List UInt8}
  {o : Option Int}

theorem findBox_toBroker : Mbroker.findBox boxName b.toBroker.table = b.findBox boxName := rfl

theorem toBroker_modify {fs : TfsState} {j : Nat} {f : BoxRecord → BoxRecord} {g : Box → Box}
    (h : (f (b.table.boxes j)).toBox = g (b.table.boxes j).toBox) :
    Broker.mk fs (b.table.toTable.modify j g) =
      toBroker { b with fs := fs, table := b.table.modify j f } := by
  rw [toBroker, RecordTable.modify_toTable h]

theorem createBox_toBroker (h : b.createBox boxName box = .ok (n, b')) :
    Mbroker.createBox boxName box.toBox b.toBroker = .ok ((n : Int) - 1, b'.toBroker) := by
  rw [createBox] at h
  rw [Mbroker.createBox, findBox_toBroker]
  split at h
  case isTrue hfind =>
    obtain ⟨rfl, rfl⟩ := Prod.mk.inj (Outcome.ok.inj h)
    exact if_pos hfind
  case isFalse hfind =>
    rw [if_neg hfind]
    obtain ⟨⟨boxHandle, fs⟩, hopen, h⟩ := Outcome.bind_eq_ok.mp h
    refine Outcome.bind_eq_ok.mpr ⟨_, hopen, ?_⟩
    dsimp only at h ⊢
    split at h
    case isTrue hneg =>
      obtain ⟨rfl, rfl⟩ := Prod.mk.inj (Outcome.ok.inj h)
      exact if_pos hneg
    case isFalse hne =>
      rw [if_neg hne]
      obtain ⟨name, hname, h⟩ := Outcome.bind_eq_ok.mp h
      obtain ⟨⟨closed, fs₁⟩, hclose, h⟩ := Outcome.bind_eq_ok.mp h
      obtain ⟨table, hadd, h⟩ := Outcome.bind_eq_ok.mp h
      obtain ⟨rfl, rfl⟩ := Prod.mk.inj (Outcome.ok.inj h)
      have hadd' := RecordTable.addBox_toTable hadd
      rw [BoxRecord.toBox, CharArray.text_strcpy hname] at hadd'
      exact Outcome.bind_eq_ok.mpr ⟨_, hclose, Outcome.bind_eq_ok.mpr ⟨_, hadd', rfl⟩⟩

theorem removeBox_toBroker (h : b.removeBox boxName = .ok (n, b')) :
    Mbroker.removeBox boxName b.toBroker = .ok ((n : Int) - 1, b'.toBroker) := by
  obtain ⟨⟨unlinked, fs⟩, hunlink, h⟩ := Outcome.bind_eq_ok.mp h
  refine Outcome.bind_eq_ok.mpr ⟨_, hunlink, ?_⟩
  dsimp only at h ⊢
  split at h
  case isTrue hneg =>
    obtain ⟨rfl, rfl⟩ := Prod.mk.inj (Outcome.ok.inj h)
    exact if_pos hneg
  case isFalse hne =>
    rw [if_neg hne, findBox_toBroker]
    split at h
    case isTrue hfind =>
      obtain ⟨rfl, rfl⟩ := Prod.mk.inj (Outcome.ok.inj h)
      exact if_pos hfind
    case isFalse hfind =>
      rw [if_neg hfind]
      obtain ⟨table, hdelete, h⟩ := Outcome.bind_eq_ok.mp h
      obtain ⟨rfl, rfl⟩ := Prod.mk.inj (Outcome.ok.inj h)
      exact Outcome.bind_eq_ok.mpr ⟨_, RecordTable.deleteBox_toTable hdelete, rfl⟩

theorem publisherFunction_toBroker (h : b.publisherFunction pipeName boxName = .ok (session', b')) :
    Mbroker.publisherFunction pipeName boxName b.toBroker = .ok (session', b'.toBroker) := by
  obtain ⟨⟨boxHandle, fs⟩, hopen, h⟩ := Outcome.bind_eq_ok.mp h
  refine Outcome.bind_eq_ok.mpr ⟨_, hopen, ?_⟩
  dsimp only at h ⊢
  rw [findBox_toBroker]
  split at h
  case isTrue hfind =>
    rw [if_pos hfind]
    obtain ⟨⟨reopened, fs₁⟩, hreopen, h⟩ := Outcome.bind_eq_ok.mp h
    obtain ⟨rfl, rfl⟩ := Prod.mk.inj (Outcome.ok.inj h)
    exact Outcome.bind_eq_ok.mpr ⟨_, hreopen, rfl⟩
  case isFalse hfind =>
    have hboxes : (b.toBroker.table.boxes (b.findBox boxName).toNat).nPublishers =
        (b.table.boxes (b.findBox boxName).toNat).nPublishers := rfl
    rw [if_neg hfind, hboxes]
    split at h
    case isTrue hone =>
      rw [if_pos hone]
      obtain ⟨⟨reopened, fs₁⟩, hreopen, h⟩ := Outcome.bind_eq_ok.mp h
      obtain ⟨rfl, rfl⟩ := Prod.mk.inj (Outcome.ok.inj h)
      exact Outcome.bind_eq_ok.mpr ⟨_, hreopen, rfl⟩
    case isFalse hne =>
      rw [if_neg hne]
      obtain ⟨publisher, hpublisher, h⟩ := Outcome.bind_eq_ok.mp h
      obtain ⟨⟨reopened, fs₁⟩, hreopen, h⟩ := Outcome.bind_eq_ok.mp h
      obtain ⟨rfl, rfl⟩ := Prod.mk.inj (Outcome.ok.inj h)
      refine Outcome.bind_eq_ok.mpr ⟨_, hreopen, congrArg (fun c : Broker => Outcome.ok
        (some (PublisherSession.mk boxName reopened (b.findBox boxName)), c)) ?_⟩
      refine toBroker_modify ?_
      rw [BoxRecord.toBox, CharArray.text_strcpy hpublisher]
      rfl

theorem receiveMessage_toBroker (h : b.receiveMessage buffer session = .ok (session', b')) :
    Mbroker.receiveMessage buffer session b.toBroker = .ok (session', b'.toBroker) := by
  rw [receiveMessage] at h
  rw [Mbroker.receiveMessage, findBox_toBroker]
  dsimp only at h ⊢
  split at h
  case isTrue hfind =>
    rw [if_pos hfind]
    obtain ⟨⟨closed, fs⟩, hclose, h⟩ := Outcome.bind_eq_ok.mp h
    obtain ⟨rfl, rfl⟩ := Prod.mk.inj (Outcome.ok.inj h)
    exact Outcome.bind_eq_ok.mpr ⟨_, hclose, rfl⟩
  case isFalse hfind =>
    rw [if_neg hfind]
    split at h
    · cases h
    case isFalse hnul =>
      rw [if_neg hnul]
      obtain ⟨fs, hwrite, h⟩ := Outcome.bind_eq_ok.mp h
      obtain ⟨rfl, rfl⟩ := Prod.mk.inj (Outcome.ok.inj h)
      exact Outcome.bind_eq_ok.mpr ⟨_, hwrite, congrArg (fun c : Broker => Outcome.ok
        (some { session with boxIndex := b.findBox session.boxName }, c)) (toBroker_modify rfl)⟩

theorem endSession_toBroker (h : b.endSession session = .ok b') :
    Mbroker.endSession session b.toBroker = .ok b'.toBroker := by
  obtain ⟨⟨closed, fs⟩, hclose, h⟩ := Outcome.bind_eq_ok.mp h
  obtain rfl := Outcome.ok.inj h
  refine Outcome.bind_eq_ok.mpr ⟨_, hclose, ?_⟩
  by_cases hindex : session.boxIndex = -1
  · rw [if_pos hindex, if_pos hindex]
    rfl
  · rw [if_neg hindex, if_neg hindex]
    exact congrArg Outcome.ok (toBroker_modify rfl)

theorem runPublisher_toBroker {part : PublisherPart} {o o' : Option PublisherSession}
    (h : b.runPublisher part o = .ok (o', b')) :
    part.run o b.toBroker = .ok (o', b'.toBroker) := by
  rw [runPublisher.eq_def] at h
  split at h
  · exact publisherFunction_toBroker h
  · exact receiveMessage_toBroker h
  · obtain ⟨b₁, hend, h⟩ := Outcome.bind_eq_ok.mp h
    obtain ⟨rfl, rfl⟩ := Prod.mk.inj (Outcome.ok.inj h)
    exact Outcome.bind_eq_ok.mpr ⟨_, endSession_toBroker hend, rfl⟩
  · obtain ⟨rfl, rfl⟩ := Prod.mk.inj (Outcome.ok.inj h)
    rw [PublisherPart.run.eq_def]
    split <;> simp_all

theorem registerSubscriber_toBroker (hname : pipeName.strlen < pipeNameSize)
    (h : b.registerSubscriber pipeName boxName = .ok (o, b')) :
    Mbroker.registerSubscriber pipeName boxName b.toBroker = .ok (o, b'.toBroker) := by
  rw [registerSubscriber] at h
  rw [Mbroker.registerSubscriber, findBox_toBroker]
  dsimp only at h ⊢
  split at h
  case isTrue hfind =>
    rw [if_pos hfind]
    obtain ⟨⟨boxHandle, fs⟩, hopen, h⟩ := Outcome.bind_eq_ok.mp h
    obtain ⟨rfl, rfl⟩ := Prod.mk.inj (Outcome.ok.inj h)
    exact Outcome.bind_eq_ok.mpr ⟨_, hopen, rfl⟩
  case isFalse hfind =>
    rw [if_neg hfind]
    obtain ⟨table, hadd, h⟩ := Outcome.bind_eq_ok.mp h
    obtain ⟨⟨boxHandle, fs⟩, hopen, h⟩ := Outcome.bind_eq_ok.mp h
    have htable : (b.table.modify (b.findBox boxName).toNat fun box =>
          { box with nSubscribers := box.nSubscribers + 1 }).toTable =
        b.table.toTable.modify (b.findBox boxName).toNat fun box =>
          { box with nSubscribers := box.nSubscribers + 1 } := RecordTable.modify_toTable rfl
    have hadd' := RecordTable.addSubscriberToBox_toTable hname hadd
    rw [htable] at hadd'
    refine Outcome.bind_eq_ok.mpr ⟨_, hadd', Outcome.bind_eq_ok.mpr ⟨_, hopen, ?_⟩⟩
    dsimp only at h ⊢
    split at h
    case isTrue hneg =>
      obtain ⟨rfl, rfl⟩ := Prod.mk.inj (Outcome.ok.inj h)
      exact if_pos hneg
    case isFalse hne =>
      obtain ⟨rfl, rfl⟩ := Prod.mk.inj (Outcome.ok.inj h)
      exact if_neg hne

end ToBroker

end RecordBroker

/-! ### Memory that differs in what has not been assigned -/

section Agreement

open Outcome

variable {size : Nat} {q : CString}

/-- The parts of a record that have been assigned agree. -/
structure BoxRecord.Agrees (r r' : BoxRecord) : Prop where
  boxName : r.boxName.text = r'.boxName.text
  boxSize : r.boxSize = r'.boxSize
  nPublishers : r.nPublishers = r'.nPublishers
  nSubscribers : r.nSubscribers = r'.nSubscribers

/-- And so do the others, but for `last`. -/
structure BoxRecord.SameRest (r r' : BoxRecord) : Prop where
  boxName : r.boxName.rest = r'.boxName.rest
  publisher : r.publisher = r'.publisher
  subscribers : ∀ k < maxBoxes, r.subscribers k = r'.subscribers k
  subscriberIndex : r.subscriberIndex = r'.subscriberIndex

instance (r r' : BoxRecord) : Decidable (r.SameRest r') :=
  decidable_of_iff
    (r.boxName.rest = r'.boxName.rest ∧ r.publisher = r'.publisher ∧
      (∀ k < maxBoxes, r.subscribers k = r'.subscribers k) ∧
      r.subscriberIndex = r'.subscriberIndex)
    ⟨fun ⟨hn, hp, hs, hi⟩ => ⟨hn, hp, hs, hi⟩, fun h => ⟨h.1, h.2, h.3, h.4⟩⟩

/-- The same boxes, in records whose assigned parts agree. -/
structure RecordTable.Agrees (t t' : RecordTable) : Prop where
  nBoxes : t.nBoxes = t'.nBoxes
  boxes : ∀ i, (t.boxes i).Agrees (t'.boxes i)

structure RecordBroker.Agrees (b b' : RecordBroker) : Prop where
  fs : b.fs = b'.fs
  table : b.table.Agrees b'.table
  publishers : b.publishers = b'.publishers
  subscribers : b.subscribers = b'.subscribers

theorem BoxRecord.Agrees.refl (r : BoxRecord) : r.Agrees r := ⟨rfl, rfl, rfl, rfl⟩

theorem RecordBroker.Agrees.refl (b : RecordBroker) : b.Agrees b :=
  ⟨rfl, ⟨rfl, fun _ => .refl _⟩, rfl, rfl⟩

theorem strcpy_related (dest dest' : CharArray size) (q : CString) :
    Related (fun a a' => a.text = a'.text) (dest.strcpy q) (dest'.strcpy q) := by
  by_cases h : q.strlen < size
  · obtain ⟨a, ha⟩ : ∃ a, dest.strcpy q = .ok a := CharArray.strcpy_returns h
    obtain ⟨a', ha'⟩ : ∃ a', dest'.strcpy q = .ok a' := CharArray.strcpy_returns h
    rw [ha, ha']
    exact .ok ((CharArray.text_strcpy ha).trans (CharArray.text_strcpy ha').symm)
  · rw [CharArray.strcpy_fault h, CharArray.strcpy_fault h]
    exact .fault

/-- Of two strings it is only known whether they fit. -/
theorem strcpy_related_of_fits {q' : CString} (dest dest' : CharArray size)
    (h : q.strlen < size ↔ q'.strlen < size) :
    Related (fun _ _ => True) (dest.strcpy q) (dest'.strcpy q') := by
  by_cases hq : q.strlen < size
  · obtain ⟨a, ha⟩ : ∃ a, dest.strcpy q = .ok a := CharArray.strcpy_returns hq
    obtain ⟨a', ha'⟩ : ∃ a', dest'.strcpy q' = .ok a' := CharArray.strcpy_returns (h.mp hq)
    rw [ha, ha']
    exact .ok trivial
  · rw [CharArray.strcpy_fault hq, CharArray.strcpy_fault (h.not.mp hq)]
    exact .fault

/-- A record in which everything agrees. -/
theorem BoxRecord.Agrees.bytesBeforeLast {r r' : BoxRecord} (h : r.Agrees r')
    (hrest : r.SameRest r') :
    r.bytesBeforeLast = r'.bytesBeforeLast := by
  have hname : r.boxName = r'.boxName := CharArray.eq_of_text_rest h.boxName hrest.boxName
  have hsubscribers : ((List.range maxBoxes).flatMap fun k => (r.subscribers k).bytes) =
      (List.range maxBoxes).flatMap fun k => (r'.subscribers k).bytes := by
    refine List.flatMap_congr fun k hk => ?_
    rw [hrest.subscribers k (List.mem_range.mp hk)]
  rw [BoxRecord.bytesBeforeLast, BoxRecord.bytesBeforeLast, hname, hrest.publisher, h.boxSize,
    h.nPublishers, h.nSubscribers, hsubscribers, hrest.subscriberIndex]

theorem swapped_related {box box' other other' : BoxRecord} (hother : other.Agrees other')
    (hpublisher : other.publisher.Terminated ↔ other'.publisher.Terminated) :
    Related BoxRecord.Agrees (box.swapped other) (box'.swapped other') := by
  rw [BoxRecord.swapped, BoxRecord.swapped, hother.boxName]
  refine (strcpy_related _ _ _).bind fun name name' hname => ?_
  refine (strcpy_related_of_fits _ _ hpublisher).bind fun publisher publisher' _ => ?_
  exact .ok ⟨hname, hother.boxSize, hother.nPublishers, hother.nSubscribers⟩

namespace RecordTable.Agrees

variable {t t' : RecordTable} {box box' : BoxRecord} {f f' : BoxRecord → BoxRecord}

theorem update {boxes boxes' : Nat → BoxRecord} (h : ∀ i, (boxes i).Agrees (boxes' i))
    (hbox : box.Agrees box') (j i : Nat) :
    (Function.update boxes j box i).Agrees (Function.update boxes' j box' i) := by
  by_cases hi : i = j
  · subst hi
    rw [Function.update_self, Function.update_self]
    exact hbox
  · rw [Function.update_of_ne hi, Function.update_of_ne hi]
    exact h i

theorem modify (h : t.Agrees t') (j : Nat)
    (hf : (f (t.boxes j)).Agrees (f' (t'.boxes j))) : (t.modify j f).Agrees (t'.modify j f') :=
  ⟨h.nBoxes, update h.boxes hf j⟩

theorem addBox (h : t.Agrees t') (hbox : box.Agrees box') :
    Related RecordTable.Agrees (t.addBox box) (t'.addBox box') := by
  rw [RecordTable.addBox, RecordTable.addBox, ← h.nBoxes]
  split
  · exact .fault
  · exact .ok ⟨rfl, update h.boxes hbox _⟩

/-- A removal copies the names of two publishers. -/
theorem deleteBox {i : Int} (h : t.Agrees t')
    (hpublisher : ∀ j, j = i.toNat ∨ j = t.nBoxes - 1 →
      ((t.boxes j).publisher.Terminated ↔ (t'.boxes j).publisher.Terminated)) :
    Related RecordTable.Agrees (t.deleteBox i) (t'.deleteBox i) := by
  rw [RecordTable.deleteBox, RecordTable.deleteBox, ← h.nBoxes]
  split
  · exact .fault
  · refine (swapped_related (h.boxes _) (hpublisher _ (Or.inr rfl))).bind fun box box' hbox => ?_
    refine (swapped_related (h.boxes _) (hpublisher _ (Or.inl rfl))).bind fun last last' hlast => ?_
    exact .ok ⟨rfl, update (update h.boxes hbox _) hlast _⟩

theorem addSubscriberToBox {j : Nat} {pipeName : CString} (h : t.Agrees t')
    (hindex : (t.boxes j).subscriberIndex = (t'.boxes j).subscriberIndex) :
    Related RecordTable.Agrees (t.addSubscriberToBox j pipeName)
      (t'.addSubscriberToBox j pipeName) := by
  rw [RecordTable.addSubscriberToBox, RecordTable.addSubscriberToBox, ← hindex]
  split
  · exact .fault
  · have hj := h.boxes j
    exact .ok (h.modify j ⟨hj.boxName, hj.boxSize, hj.nPublishers, hj.nSubscribers⟩)

theorem setLast (h : t.Agrees t') (v : UInt8) : (t.setLast v).Agrees (t'.setLast v) := by
  have hlast := h.boxes (t.nBoxes - 1)
  rw [RecordTable.setLast, RecordTable.setLast, ← h.nBoxes]
  exact h.modify _ ⟨hlast.boxName, hlast.boxSize, hlast.nPublishers, hlast.nSubscribers⟩

/-- A record that is sent, of the last box or of another. -/
theorem bytes_eq (h : t.Agrees t') {i : Nat} (hi : i < t.nBoxes)
    (hrest : (t.boxes i).SameRest (t'.boxes i))
    (hlast : i + 1 < t.nBoxes → (t.boxes i).last = (t'.boxes i).last) :
    ((t.setLast 1).boxes i).bytes = ((t'.setLast 1).boxes i).bytes := by
  have hbytes := (h.boxes i).bytesBeforeLast hrest
  by_cases hlt : i + 1 < t.nBoxes
  · have hne : i ≠ t.nBoxes - 1 := by omega
    have hne' : i ≠ t'.nBoxes - 1 := h.nBoxes ▸ hne
    rw [RecordTable.setLast, RecordTable.setLast, RecordTable.modify, RecordTable.modify]
    dsimp only
    rw [Function.update_of_ne hne, Function.update_of_ne hne', BoxRecord.bytes, BoxRecord.bytes,
      hbytes, hlast hlt]
  · obtain rfl : i = t.nBoxes - 1 := by omega
    rw [RecordTable.setLast, RecordTable.setLast, RecordTable.modify, RecordTable.modify, ← h.nBoxes]
    dsimp only
    rw [Function.update_self, Function.update_self]
    exact congrArg (· ++ [1]) hbytes

/-- **A listing** in which everything that is sent agrees. -/
theorem replyToListBoxes (h : t.Agrees t') (replyBox : BoxRecord)
    (hrest : ∀ i < t.nBoxes, (t.boxes i).SameRest (t'.boxes i) ∧
      (i + 1 < t.nBoxes → (t.boxes i).last = (t'.boxes i).last)) :
    Related (fun p p' => p.1 = p'.1 ∧ p.2.Agrees p'.2) (t.replyToListBoxes replyBox)
      (t'.replyToListBoxes replyBox) := by
  rw [RecordTable.replyToListBoxes, RecordTable.replyToListBoxes, ← h.nBoxes]
  split
  · refine related_bind _ fun publisher => related_bind _ fun boxName => ?_
    exact .ok ⟨rfl, h⟩
  · split
    · exact .fault
    · have hrecords : (List.range t.nBoxes).map (fun i => ((t.setLast 1).boxes i).bytes) =
          (List.range t'.nBoxes).map fun i => ((t'.setLast 1).boxes i).bytes := by
        rw [← h.nBoxes]
        refine List.map_congr_left fun i hi => ?_
        have hi' : i < t.nBoxes := List.mem_range.mp hi
        exact h.bytes_eq hi' (hrest i hi').1 (hrest i hi').2
      exact .ok ⟨congrArg (List.cons [8]) hrecords, (h.setLast 1).setLast 0⟩

end RecordTable.Agrees

/-! ### One request -/

namespace BoxReply

variable {reply reply' : BoxReply} {n : Nat}

/-- A creation that fails sends its message and NULs, one that succeeds what it has found. -/
theorem replyToBoxCreation_eq (h : reply.errorMessage.Terminated)
    (h' : reply'.errorMessage.Terminated)
    (htext : n ≠ 0 → reply.errorMessage.text = reply'.errorMessage.text) :
    reply.replyToBoxCreation n = reply'.replyToBoxCreation n := by
  rw [replyToBoxCreation, replyToBoxCreation]
  by_cases hn : n = 0
  · rw [if_pos hn, if_pos hn]
    have hfits : couldntCreateBox.strlen < messageSize := by decide +kernel
    obtain ⟨a, c, ha, hc, htext, -⟩ := CharArray.strcpy_fillString h hfits
    obtain ⟨a', c', ha', hc', htext', -⟩ := CharArray.strcpy_fillString h' hfits
    have hcc' : c.text = c'.text := htext.trans htext'.symm
    simp only [ha, ha', hc, hc', ok_bind, pure_eq_ok, CharArray.fillString_congr hcc']
  · rw [if_neg hn, if_neg hn]
    simp only [ok_bind, pure_eq_ok, CharArray.fillString_congr (htext hn)]

/-- Of a message that is padded, what lies behind a shorter one. -/
theorem drop_padded {size k : Nat} {q q' : CString} (h : q.bytes.drop k = q'.bytes.drop k) :
    (padded size q).drop k = (padded size q').drop k := by
  have hlen := congrArg List.length h
  rw [List.length_drop, List.length_drop] at hlen
  rw [padded, padded, List.drop_append, List.drop_append, h, List.drop_replicate,
    List.drop_replicate, CString.strlen, CString.strlen]
  congr 2
  omega

/-- A removal that fails leaves what lies behind its message as it was. -/
theorem replyToBoxRemoval_eq (h : reply.errorMessage.Terminated)
    (h' : reply'.errorMessage.Terminated)
    (htext : n ≠ 0 → reply.errorMessage.text = reply'.errorMessage.text)
    (hdrop : n = 0 → reply.errorMessage.text.bytes.drop (couldntRemoveBox.strlen + 1) =
      reply'.errorMessage.text.bytes.drop (couldntRemoveBox.strlen + 1)) :
    reply.replyToBoxRemoval n = reply'.replyToBoxRemoval n := by
  rw [replyToBoxRemoval, replyToBoxRemoval]
  by_cases hn : n = 0
  · have hfits : couldntRemoveBox.strlen < messageSize := by decide +kernel
    obtain ⟨a, c, ha, hc, -, hbytes⟩ := CharArray.strcpy_fillString h hfits
    obtain ⟨a', c', ha', hc', -, hbytes'⟩ := CharArray.strcpy_fillString h' hfits
    have hcc' : c = c' := by
      ext1
      rw [hbytes, hbytes', drop_padded (hdrop hn)]
    simp only [ha, ha', ok_bind, if_pos hn, hc, hc', hcc']
  · simp only [CharArray.fillString_congr (htext hn), if_neg hn]

end BoxReply

namespace RecordBroker

/-- A removal gets as far as `delete_box`. -/
def Deletes (boxName : CString) (b : RecordBroker) : Prop :=
  RemovesBox boxName b.toBroker ∧ b.findBox boxName ≠ -1

instance (boxName : CString) (b : RecordBroker) : Decidable (b.Deletes boxName) :=
  inferInstanceAs (Decidable (_ ∧ _))

/-- What has not been assigned does not get out.  A creation that succeeds sends the string that
it finds in `error_message`; a removal does so too, and one that fails sends what lies behind its
own message.  The removal of a box copies the name of its publisher and of the last box's.  A
listing sends the records as they are, with the mark in the last one, and a subscriber is stored
at the index that it finds. -/
def Undisclosed : Request × Uninitialised × Uninitialised → RecordBroker × RecordBroker → Prop
  | (.create _ boxName, u, u'), (b, _) =>
    u.reply.errorMessage.Terminated ∧ u'.reply.errorMessage.Terminated ∧
      (OpensNewBox boxName b.toBroker → u.reply.errorMessage.text = u'.reply.errorMessage.text)
  | (.remove _ boxName, u, u'), (b, b') =>
    u.reply.errorMessage.Terminated ∧ u'.reply.errorMessage.Terminated ∧
      (b.Deletes boxName → u.reply.errorMessage.text = u'.reply.errorMessage.text ∧
        ∀ j, j = (b.findBox boxName).toNat ∨ j = b.table.nBoxes - 1 →
          ((b.table.boxes j).publisher.Terminated ↔ (b'.table.boxes j).publisher.Terminated)) ∧
      (¬ b.Deletes boxName →
        u.reply.errorMessage.text.bytes.drop (couldntRemoveBox.strlen + 1) =
          u'.reply.errorMessage.text.bytes.drop (couldntRemoveBox.strlen + 1))
  | (.list _ _, _, _), (b, b') => ∀ i < b.table.nBoxes,
      (b.table.boxes i).SameRest (b'.table.boxes i) ∧
        (i + 1 < b.table.nBoxes → (b.table.boxes i).last = (b'.table.boxes i).last)
  | (.subscribe k _ boxName _ _, _, _), (b, b') =>
    b.subscribers k = none → b.findBox boxName ≠ -1 →
      (b.table.boxes (b.findBox boxName).toNat).subscriberIndex =
        (b'.table.boxes (b.findBox boxName).toNat).subscriberIndex
  | _, _ => True

instance : ∀ t s, Decidable (Undisclosed t s)
  | (.create _ _, _, _), (_, _) => inferInstanceAs (Decidable (_ ∧ _ ∧ (_ → _)))
  | (.remove _ boxName, _, _), (b, b') =>
    have : Decidable (∀ j, j = (b.findBox boxName).toNat ∨ j = b.table.nBoxes - 1 →
        ((b.table.boxes j).publisher.Terminated ↔ (b'.table.boxes j).publisher.Terminated)) :=
      decidable_of_iff (_ ∧ _) (by simp only [forall_eq_or_imp, forall_eq]; rfl)
    inferInstanceAs (Decidable (_ ∧ _ ∧ (_ → _ ∧ _) ∧ (_ → _)))
  | (.list _ _, _, _), (_, _) => inferInstanceAs (Decidable (∀ i < _, _))
  | (.publisher _ _, _, _), (_, _) => inferInstanceAs (Decidable True)
  | (.subscribe k _ _ _ _, _, _), (b, _) =>
    have : Decidable (b.subscribers k = none) :=
      decidable_of_iff (b.subscribers k).isNone (by simp)
    inferInstanceAs (Decidable (_ → _ → _))
  | (.deliver _, _, _), (_, _) => inferInstanceAs (Decidable True)

/-- A request, handled by both. -/
def both (t : Request × Uninitialised × Uninitialised) (s : RecordBroker × RecordBroker) :
    Outcome (Unit × RecordBroker × RecordBroker) := do
  let (_, b) ← handle t.1 t.2.1 s.1
  let (_, b') ← handle t.1 t.2.2 s.2
  return ((), b, b')

variable {b b' : RecordBroker} {boxName pipeName : CString} {n : Nat} {α : Type}

/-- The same result, in brokers that agree. -/
def Same (p p' : α × RecordBroker) : Prop := p.1 = p'.1 ∧ p.2.Agrees p'.2

namespace Agrees

theorem findBox (h : b.Agrees b') (q : CString) : b.findBox q = b'.findBox q := by
  refine BoxTable.findBox_congr h.table.nBoxes ?_
  funext i
  exact (h.table.boxes i).boxName

theorem withFs (h : b.Agrees b') (fs : TfsState) :
    Agrees { b with fs := fs } { b' with fs := fs } :=
  ⟨rfl, h.table, h.publishers, h.subscribers⟩

theorem withTable {table table' : RecordTable} (h : b.Agrees b') (htable : table.Agrees table')
    (fs : TfsState) :
    Agrees { b with fs := fs, table := table } { b' with fs := fs, table := table' } :=
  ⟨rfl, htable, h.publishers, h.subscribers⟩

theorem createBox (h : b.Agrees b') (box box' : BoxRecord) :
    Related Same (b.createBox boxName box) (b'.createBox boxName box') := by
  rw [RecordBroker.createBox, RecordBroker.createBox, ← h.findBox, ← h.fs]
  split
  · exact .ok ⟨rfl, h⟩
  · refine related_bind _ fun r => ?_
    obtain ⟨boxHandle, fs⟩ := r
    dsimp only
    split
    · exact .ok ⟨rfl, h.withFs fs⟩
    · refine (strcpy_related _ _ _).bind fun name name' hname => related_bind _ fun r => ?_
      refine Related.bind (h.table.addBox ?_) fun table table' htable => ?_
      · exact ⟨hname, rfl, rfl, rfl⟩
      · exact .ok ⟨rfl, h.withTable htable _⟩

theorem removeBox (h : b.Agrees b') (hpublisher : b.Deletes boxName →
      ∀ j, j = (b.findBox boxName).toNat ∨ j = b.table.nBoxes - 1 →
        ((b.table.boxes j).publisher.Terminated ↔ (b'.table.boxes j).publisher.Terminated)) :
    Related Same (b.removeBox boxName) (b'.removeBox boxName) := by
  rw [RecordBroker.removeBox, RecordBroker.removeBox, ← h.findBox, ← h.fs]
  cases hunlink : tfsUnlink (some (boxPath boxName)) b.fs with
  | panic msg => exact .panic msg
  | fault => exact .fault
  | ok r =>
    obtain ⟨boxHandle, fs⟩ := r
    rw [ok_bind, ok_bind]
    dsimp only
    split
    · exact .ok ⟨rfl, h.withFs fs⟩
    case isFalse hne =>
      split
      · exact .ok ⟨rfl, h.withFs fs⟩
      case isFalse hfind =>
        have hdeletes : b.Deletes boxName := ⟨⟨boxHandle, fs, hunlink, hne⟩, hfind⟩
        refine (h.table.deleteBox (hpublisher hdeletes)).bind fun table table' htable => ?_
        exact .ok ⟨rfl, h.withTable htable fs⟩

theorem publisherFunction (h : b.Agrees b') :
    Related Same (b.publisherFunction pipeName boxName)
      (b'.publisherFunction pipeName boxName) := by
  rw [RecordBroker.publisherFunction, RecordBroker.publisherFunction, ← h.findBox, ← h.fs]
  refine related_bind _ fun r => ?_
  obtain ⟨boxHandle, fs⟩ := r
  have hbox := h.table.boxes (b.findBox boxName).toNat
  dsimp only
  rw [← hbox.nPublishers]
  split
  · exact related_bind _ fun r => .ok ⟨rfl, h.withFs _⟩
  · split
    · exact related_bind _ fun r => .ok ⟨rfl, h.withFs _⟩
    · refine (strcpy_related _ _ _).bind fun publisher publisher' _ => related_bind _ fun r => ?_
      refine .ok ⟨rfl, h.withTable (h.table.modify _ ?_) _⟩
      exact ⟨hbox.boxName, hbox.boxSize, rfl, hbox.nSubscribers⟩

theorem receiveMessage {buffer : List UInt8} {session : PublisherSession} (h : b.Agrees b') :
    Related Same (b.receiveMessage buffer session) (b'.receiveMessage buffer session) := by
  rw [RecordBroker.receiveMessage, RecordBroker.receiveMessage, ← h.findBox, ← h.fs]
  dsimp only
  split
  · exact related_bind _ fun r => .ok ⟨rfl, h.withFs _⟩
  · split
    · exact .fault
    · have hbox := h.table.boxes (b.findBox session.boxName).toNat
      refine related_bind _ fun fs => .ok ⟨rfl, h.withTable (h.table.modify _ ?_) _⟩
      exact ⟨hbox.boxName, congrArg (· + _) hbox.boxSize, hbox.nPublishers, hbox.nSubscribers⟩

theorem endSession {session : PublisherSession} (h : b.Agrees b') :
    Related Agrees (b.endSession session) (b'.endSession session) := by
  rw [RecordBroker.endSession, RecordBroker.endSession, ← h.fs]
  refine related_bind _ fun r => .ok (h.withTable ?_ _)
  split
  · exact h.table
  · have hbox := h.table.boxes session.boxIndex.toNat
    exact h.table.modify _ ⟨hbox.boxName, hbox.boxSize, rfl, hbox.nSubscribers⟩

theorem runPublisher {part : PublisherPart} {session : Option PublisherSession} (h : b.Agrees b') :
    Related Same (RecordBroker.runPublisher part session b)
      (RecordBroker.runPublisher part session b') := by
  cases part with
  | register pipeName boxName =>
    cases session with
    | none => exact h.publisherFunction
    | some session => exact .ok ⟨rfl, h⟩
  | message buffer =>
    cases session with
    | none => exact .ok ⟨rfl, h⟩
    | some session => exact h.receiveMessage
  | disconnect =>
    cases session with
    | none => exact .ok ⟨rfl, h⟩
    | some session => exact h.endSession.bind fun c c' hc => .ok ⟨rfl, hc⟩

theorem registerSubscriber (h : b.Agrees b') (hindex : b.findBox boxName ≠ -1 →
      (b.table.boxes (b.findBox boxName).toNat).subscriberIndex =
        (b'.table.boxes (b.findBox boxName).toNat).subscriberIndex) :
    Related Same (b.registerSubscriber pipeName boxName)
      (b'.registerSubscriber pipeName boxName) := by
  rw [RecordBroker.registerSubscriber, RecordBroker.registerSubscriber, ← h.findBox, ← h.fs]
  dsimp only
  split
  · exact related_bind _ fun r => .ok ⟨rfl, h.withFs _⟩
  case isFalse hfind =>
    have hbox := h.table.boxes (b.findBox boxName).toNat
    have hcounted : RecordTable.Agrees
        (b.table.modify (b.findBox boxName).toNat fun box =>
          { box with nSubscribers := box.nSubscribers + 1 })
        (b'.table.modify (b.findBox boxName).toNat fun box =>
          { box with nSubscribers := box.nSubscribers + 1 }) :=
      h.table.modify _
        ⟨hbox.boxName, hbox.boxSize, hbox.nPublishers, congrArg (· + 1) hbox.nSubscribers⟩
    refine (hcounted.addSubscriberToBox ?_).bind fun table table' htable => ?_
    · rw [RecordTable.modify, RecordTable.modify]
      dsimp only
      rw [Function.update_self, Function.update_self]
      exact hindex hfind
    · refine related_bind _ fun r => ?_
      split
      · exact .ok ⟨rfl, h.withTable htable _⟩
      · exact .ok ⟨rfl, h.withTable htable _⟩

theorem readMessages (h : b.Agrees b') (reader : Reader) :
    b.readMessages reader = b'.readMessages reader := by
  rw [RecordBroker.readMessages, RecordBroker.readMessages, h.findBox, h.fs]

end Agrees

theorem opensNewBox {box : BoxRecord} (h : b.createBox boxName box = .ok (n, b')) (hn : n ≠ 0) :
    OpensNewBox boxName b.toBroker := by
  rcases createBox_table (createBox_toBroker h) with ⟨hneg, -⟩ | ⟨-, hopens, -⟩
  · exact absurd hneg (by omega)
  · exact hopens

theorem deletes_iff (h : b.removeBox boxName = .ok (n, b')) : n ≠ 0 ↔ b.Deletes boxName := by
  have hremove := removeBox_toBroker h
  generalize hr : (n : Int) - 1 = r at hremove
  generalize b'.toBroker = c at hremove
  cases removeBox_spec hremove with
  | notUnlinked hunlink =>
    refine iff_of_false (by omega) ?_
    rintro ⟨⟨unlinked, fs, hunlink', hne⟩, -⟩
    exact hne (Prod.mk.inj (Outcome.ok.inj (hunlink'.symm.trans hunlink))).1
  | notFound hne hunlink hbox =>
    refine iff_of_false (by omega) fun hdeletes => hbox ?_
    exact BoxTable.findBox_ne_neg.mp hdeletes.2
  | deleted hne hunlink hi hfind hname hdelete =>
    refine iff_of_true (by omega) ⟨⟨_, _, hunlink, hne⟩, ?_⟩
    rw [← findBox_toBroker, hfind]
    omega

/-- **The step lemma**: what gets out is the same, and the brokers agree afterwards. -/
theorem Agrees.handle {request : Request} {u u' : Uninitialised} (h : b.Agrees b')
    (hok : Undisclosed (request, u, u') (b, b')) :
    Related Same (handle request u b) (handle request u' b') := by
  cases request with
  | create pipeName boxName =>
    obtain ⟨hterm, hterm', htext⟩ := hok
    refine (h.createBox u.box u'.box).with_eq.bind fun p p' hp => ?_
    obtain ⟨n, c⟩ := p
    obtain ⟨n', c'⟩ := p'
    obtain ⟨⟨rfl, hc⟩, hcreate⟩ := hp
    dsimp only at hcreate ⊢
    rw [BoxReply.replyToBoxCreation_eq hterm hterm' fun hn => htext (opensNewBox hcreate hn)]
    exact related_bind _ fun reply => .ok ⟨rfl, hc⟩
  | remove pipeName boxName =>
    obtain ⟨hterm, hterm', htext, hdrop⟩ := hok
    refine (h.removeBox fun hdeletes => (htext hdeletes).2).with_eq.bind fun p p' hp => ?_
    obtain ⟨n, c⟩ := p
    obtain ⟨n', c'⟩ := p'
    obtain ⟨⟨rfl, hc⟩, hremove⟩ := hp
    dsimp only at hremove ⊢
    rw [BoxReply.replyToBoxRemoval_eq hterm hterm' (fun hn => (htext ((deletes_iff hremove).mp hn)).1)
      fun hn => hdrop fun hdeletes => (deletes_iff hremove).mpr hdeletes hn]
    exact related_bind _ fun reply => .ok ⟨rfl, hc⟩
  | list pipeName replyBox =>
    refine (h.table.replyToListBoxes replyBox hok).bind fun p p' hp => ?_
    exact .ok ⟨congrArg (List.map (Event.write pipeName)) hp.1, h.fs, hp.2, h.publishers,
      h.subscribers⟩
  | publisher k part =>
    rw [RecordBroker.handle, RecordBroker.handle, ← h.publishers]
    refine h.runPublisher.bind fun p p' hp => ?_
    exact .ok ⟨rfl, hp.2.fs, hp.2.table, by rw [hp.1, hp.2.publishers], hp.2.subscribers⟩
  | subscribe k pipeName boxName charBuffer buffer =>
    rw [RecordBroker.handle, RecordBroker.handle, ← h.subscribers]
    cases hk : b.subscribers k with
    | some reader => exact .ok ⟨rfl, h⟩
    | none =>
      refine (h.registerSubscriber (hok hk)).bind fun p p' hp => ?_
      exact .ok ⟨rfl, hp.2.fs, hp.2.table, hp.2.publishers, by rw [hp.1, hp.2.subscribers]⟩
  | deliver k =>
    rw [RecordBroker.handle, RecordBroker.handle, ← h.subscribers]
    cases b.subscribers k with
    | none => exact .ok ⟨rfl, h⟩
    | some reader =>
      dsimp only
      rw [h.readMessages]
      exact related_bind _ fun p => .ok ⟨rfl, rfl, h.table, h.publishers, rfl⟩

theorem Agrees.indexUsed {request : Request} {u u' : Uninitialised} (h : b.Agrees b')
    (hok : Undisclosed (request, u, u') (b, b')) : indexUsed request b = indexUsed request b' := by
  cases request with
  | subscribe k pipeName boxName charBuffer buffer =>
    rw [RecordBroker.indexUsed, RecordBroker.indexUsed, ← h.subscribers, ← h.findBox]
    split
    case isTrue hfirst => rw [hok hfirst.1 hfirst.2]
    case isFalse => rfl
  | _ => rfl

/-- **The run lemma.** -/
theorem Agrees.run {ts : List (Request × Uninitialised × Uninitialised)} (h : b.Agrees b')
    (hok : Meets Undisclosed both ts (b, b')) :
    (run (ts.map fun t => (t.1, t.2.1)) b).1 = (run (ts.map fun t => (t.1, t.2.2)) b').1 ∧
      Related Agrees (run (ts.map fun t => (t.1, t.2.1)) b).2
        (run (ts.map fun t => (t.1, t.2.2)) b').2 := by
  induction ts generalizing b b' with
  | nil => exact ⟨rfl, .ok h⟩
  | cons t ts ih =>
    obtain ⟨request, u, u'⟩ := t
    obtain ⟨hfirst, hrest⟩ := hok
    have hindex := h.indexUsed hfirst
    have hstep := h.handle hfirst
    rw [both] at hrest
    rw [List.map_cons, List.map_cons, RecordBroker.run, RecordBroker.run]
    dsimp only at hrest ⊢
    generalize RecordBroker.handle request u b = x at hstep hrest ⊢
    generalize RecordBroker.handle request u' b' = x' at hstep hrest ⊢
    cases hstep with
    | ok hp =>
      rename_i p p'
      obtain ⟨events, c⟩ := p
      obtain ⟨events', c'⟩ := p'
      obtain ⟨rfl, hc⟩ := hp
      obtain ⟨hevents, hend⟩ := ih hc hrest
      exact ⟨congrArg₂ _ (congrArg (· ++ events) hindex) hevents, hend⟩
    | panic msg => exact ⟨hindex, .panic msg⟩
    | fault => exact ⟨hindex, .fault⟩

end RecordBroker

end Agreement

open Outcome RecordBroker in
/-- **Two runs that differ in what lies in the uninitialised variables only**: what gets out is
the same as long as none of it gets out. -/
theorem run_eq_of_undisclosed {ts : List (Request × Uninitialised × Uninitialised)}
    {b : RecordBroker} (hok : Meets Undisclosed both ts (b, b)) :
    (run (ts.map fun t => (t.1, t.2.1)) b).1 = (run (ts.map fun t => (t.1, t.2.2)) b).1 ∧
      Related (fun _ _ => True) (run (ts.map fun t => (t.1, t.2.1)) b).2
        (run (ts.map fun t => (t.1, t.2.2)) b).2 := by
  obtain ⟨hevents, hend⟩ := (Agrees.refl b).run hok
  exact ⟨hevents, hend.mono fun _ _ _ => trivial⟩

/-- Variables in which there are NULs only. -/
def cleared : Uninitialised := ⟨.zero, 0, .zero⟩

/-- The same, with an `x` in `box.publisher`. -/
def publisherX : Uninitialised :=
  { cleared with box := { BoxRecord.zero with publisher := .strncpy (.ofBuffer [120]) } }

/-- The same, with an `x` in `reply.error_message`. -/
def replyX : Uninitialised := { cleared with reply := ⟨0, .strncpy (.ofBuffer [120])⟩ }

/-- The boxes `a` and `b` are created; `a` gets a publisher, the boxes are listed, and a
subscriber of `a` gets a message. -/
def messageToSubscriber : List (Request × Uninitialised × Uninitialised) :=
  [(.create (.ofBuffer [112]) (.ofBuffer [97]), publisherX, cleared),
    (.create (.ofBuffer [112]) (.ofBuffer [98]), cleared, cleared),
    (.publisher 0 (.register (.ofBuffer [113]) (.ofBuffer [97])), cleared, cleared),
    (.list (.ofBuffer [112]) .zero, cleared, cleared),
    (.subscribe 0 (.ofBuffer [114]) (.ofBuffer [97]) 0 .zero, cleared, cleared),
    (.publisher 0 (.message [120, 0]), cleared, cleared),
    (.deliver 0, cleared, cleared),
    (.deliver 0, cleared, cleared)]

open Outcome RecordBroker in
theorem same_messageToSubscriber :
    (run (messageToSubscriber.map fun t => (t.1, t.2.1)) (start initial)).1 =
      (run (messageToSubscriber.map fun t => (t.1, t.2.2)) (start initial)).1 :=
  (run_eq_of_undisclosed (by decide +kernel :
    Meets Undisclosed both messageToSubscriber (start initial, start initial))).1

open RecordBroker in
/-- The reply to a creation starts with the `x` that was in it. -/
theorem not_same_replyX :
    (run [(.create (.ofBuffer [112]) (.ofBuffer [97]), replyX)] (start initial)).1 ≠
      (run [(.create (.ofBuffer [112]) (.ofBuffer [97]), cleared)] (start initial)).1 := by
  decide +kernel

end Mbroker
