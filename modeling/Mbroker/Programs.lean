/-
The handlers of the broker, as programs.

A handler is the variables of its C functions and the place where it is; there it
makes one `Call` of something outside of them (the boxes, the file system, a pipe, a
mutex, the queue), and the `Answer` takes it to its next place.  Nothing is said
here of who answers, so what holds for every answer holds however the handlers
are interleaved.

* `Program.call`, `Program.resume` — the next call, and what is done with its answer;
* `perform` — the calls that work on the boxes and the file system.
-/
import Mbroker.Handlers
import Mbroker.RegisterPipe

namespace Mbroker

open Tfs

/-- What is written to a pipe. -/
inductive Written where
  | code (code : UInt8)
  | message (buffer : List UInt8)
  | reply (returnCode : Int)
  | record (box : Box)

/-- What a handler does outside its own variables. -/
inductive Call where
  | findBox (boxName : CString)
  | addBox (box : Box)
  | deleteBox (boxIndex : Int)
  | addSubscriberToBox (boxIndex : Int) (pipeName : CString)
  | tfs (call : TfsCall)
  | nPublishers (boxIndex : Int)
  | setNPublishers (boxIndex : Int) (n : Nat)
  | setPublisher (boxIndex : Int) (pipeName : CString)
  | addBoxSize (boxIndex : Int) (n : Nat)
  | nSubscribers (boxIndex : Int)
  | incNSubscribers (boxIndex : Int)
  | decNSubscribers (boxIndex : Int)
  | nBoxes
  | markLast
  | copyBox (i : Nat)
  | clearLast
  | mutexLock (boxIndex : Int)
  | mutexUnlock (boxIndex : Int)
  | condWait (boxIndex : Int)
  | condBroadcast (boxIndex : Int)
  | openPipe (pipeName : CString) (mode : Char)
  | readPipe (pipe : Int) (size : Nat)
  | write (pipe : Int) (content : Written)
  | close (pipe : Int)
  | pcqDequeue
  | exit

/-- What a call gives back: its return value, the bytes that it has put into a
buffer, and the record that it has copied. -/
structure Answer where
  ret : Int := 0
  bytes : List UInt8 := []
  box : Box := .zero

/-- What the variables that are not initialised hold. -/
structure Locals where
  box : Box
  charBuffer : UInt8
  buffer : List UInt8

/-! ### Replies to a manager -/

inductive ReplyPlace where
  | openPipe
  | writeCode
  | writeReply
  | close
  | dequeue
  | returned
  | exit
deriving DecidableEq

/-- `reply_to_box_creation` or `reply_to_box_removal`; the latter leaves the pipe
open. -/
structure ReplyFrame where
  place : ReplyPlace
  code : UInt8
  pipeName : CString
  returnCode : Int
  managerPipe : Int
deriving DecidableEq

def replyToBoxCreation (pipeName : CString) (returnCode : Int) : ReplyFrame :=
  ⟨.openPipe, 4, pipeName, returnCode, 0⟩

def replyToBoxRemoval (pipeName : CString) (returnCode : Int) : ReplyFrame :=
  ⟨.openPipe, 6, pipeName, returnCode, 0⟩

namespace ReplyFrame

def call (f : ReplyFrame) : Option Call :=
  match f.place with
  | .openPipe => some (.openPipe f.pipeName 'w')
  | .writeCode => some (.write f.managerPipe (.code f.code))
  | .writeReply => some (.write f.managerPipe (.reply f.returnCode))
  | .close => some (.close f.managerPipe)
  | .dequeue => some .pcqDequeue
  | .returned => none
  | .exit => some .exit

def resume (f : ReplyFrame) (a : Answer) : ReplyFrame :=
  match f.place with
  | .openPipe => { f with managerPipe := a.ret, place := .writeCode }
  | .writeCode => if a.ret < 1 then { f with place := .exit } else { f with place := .writeReply }
  | .writeReply =>
    if a.ret < 1 then { f with place := .exit }
    else if f.code = 4 then { f with place := .close }
    else { f with place := .dequeue }
  | .close => { f with place := .dequeue }
  | .dequeue => { f with place := .returned }
  | .returned => f
  | .exit => f

end ReplyFrame

/-! ### `create_box` -/

inductive CreatePlace where
  | findBox
  | tfsOpen
  | tfsClose
  | addBox
  | reply (f : ReplyFrame)
deriving DecidableEq

structure CreateFrame where
  place : CreatePlace
  pipeName : CString
  boxName : CString
  box : Box
  boxHandle : Int

namespace CreateFrame

def call (f : CreateFrame) : Option Call :=
  match f.place with
  | .findBox => some (.findBox f.boxName)
  | .tfsOpen => some (.tfs (.tfsOpen (some (boxPath f.boxName)) tfsOCreat))
  | .tfsClose => some (.tfs (.tfsClose f.boxHandle))
  | .addBox => some (.addBox f.box)
  | .reply r => r.call

def resume (f : CreateFrame) (a : Answer) : CreateFrame :=
  match f.place with
  | .findBox =>
    -- the box already exists
    if a.ret ≠ -1 then { f with place := .reply (replyToBoxCreation f.pipeName (-1)) }
    else { f with place := .tfsOpen }
  | .tfsOpen =>
    if a.ret = -1 then { f with place := .reply (replyToBoxCreation f.pipeName (-1)) }
    else
      { f with
        place := .tfsClose
        boxHandle := a.ret
        box := { f.box with boxSize := 0, nPublishers := 0, nSubscribers := 0, boxName := f.boxName } }
  | .tfsClose => { f with place := .addBox }
  | .addBox => { f with place := .reply (replyToBoxCreation f.pipeName 0) }
  | .reply r => { f with place := .reply (r.resume a) }

end CreateFrame

/-! ### `remove_box` -/

inductive RemovePlace where
  | tfsUnlink
  | findBox
  | broadcast
  | deleteBox
  | reply (f : ReplyFrame)
deriving DecidableEq

structure RemoveFrame where
  place : RemovePlace
  pipeName : CString
  boxName : CString
  boxIndex : Int

namespace RemoveFrame

def call (f : RemoveFrame) : Option Call :=
  match f.place with
  | .tfsUnlink => some (.tfs (.tfsUnlink (some (boxPath f.boxName))))
  | .findBox => some (.findBox f.boxName)
  | .broadcast => some (.condBroadcast f.boxIndex)
  | .deleteBox => some (.deleteBox f.boxIndex)
  | .reply r => r.call

def resume (f : RemoveFrame) (a : Answer) : RemoveFrame :=
  match f.place with
  | .tfsUnlink =>
    if a.ret = -1 then { f with place := .reply (replyToBoxRemoval f.pipeName (-1)) }
    else { f with place := .findBox }
  | .findBox =>
    if a.ret = -1 then
      { f with place := .reply (replyToBoxRemoval f.pipeName (-1)), boxIndex := a.ret }
    else { f with place := .broadcast, boxIndex := a.ret }
  | .broadcast => { f with place := .deleteBox }
  | .deleteBox => { f with place := .reply (replyToBoxRemoval f.pipeName 0) }
  | .reply r => { f with place := .reply (r.resume a) }

end RemoveFrame

/-! ### `list_boxes` -/

inductive ListPlace where
  | openPipe
  | writeCode
  | nBoxes
  | writeNone
  | markLast
  | test
  | copyBox
  | writeBox
  | clearLast
  | dequeue
  | returned
  | exit
deriving DecidableEq

structure ListFrame where
  place : ListPlace
  pipeName : CString
  manPipe : Int
  i : Nat
  replyBox : Box

namespace ListFrame

def call (f : ListFrame) : Option Call :=
  match f.place with
  | .openPipe => some (.openPipe f.pipeName 'w')
  | .writeCode => some (.write f.manPipe (.code 8))
  | .nBoxes => some .nBoxes
  | .writeNone => some (.write f.manPipe (.record f.replyBox))
  | .markLast => some .markLast
  | .test => some .nBoxes
  | .copyBox => some (.copyBox f.i)
  | .writeBox => some (.write f.manPipe (.record f.replyBox))
  | .clearLast => some .clearLast
  | .dequeue => some .pcqDequeue
  | .returned => none
  | .exit => some .exit

def resume (f : ListFrame) (a : Answer) : ListFrame :=
  match f.place with
  | .openPipe => { f with place := .writeCode, manPipe := a.ret }
  | .writeCode => if a.ret < 1 then { f with place := .exit } else { f with place := .nBoxes }
  | .nBoxes =>
    if a.ret = 0 then
      { f with
        place := .writeNone
        replyBox := { f.replyBox with
          last := 1, publisher := .empty, boxName := .empty,
          boxSize := 0, nPublishers := 0, nSubscribers := 0 } }
    else { f with place := .markLast }
  | .writeNone => if a.ret < 1 then { f with place := .exit } else { f with place := .dequeue }
  | .markLast => { f with place := .test, i := 0 }
  | .test => if (f.i : Int) < a.ret then { f with place := .copyBox } else { f with place := .clearLast }
  | .copyBox => { f with place := .writeBox, replyBox := a.box }
  | .writeBox =>
    if a.ret < 1 then { f with place := .exit } else { f with place := .test, i := f.i + 1 }
  | .clearLast => { f with place := .dequeue }
  | .dequeue => { f with place := .returned }
  | .returned => f
  | .exit => f

end ListFrame

/-! ### `publisher_function` and `recieve_messages_from_publisher` -/

inductive PublisherPlace where
  | tfsOpen
  | findBox
  | nPublishers
  | setNPublishers
  | setPublisher
  | tfsReopen
  | openPipe
  | closeRejected
  | dequeueRejected
  | readCode
  | findAgain
  | closeRemoved
  | readMessage
  | lock
  | writeMessage
  | writeNul
  | addBoxSize
  | broadcast
  | unlock
  | clearNPublishers
  | closePipe
  | dequeue
  | tfsClose
  | returned
deriving DecidableEq

/-- `boxHandle` is the variable of `publisher_function`, `sessionHandle` that of
`recieve_messages_from_publisher`. -/
structure PublisherFrame where
  place : PublisherPlace
  pipeName : CString
  boxName : CString
  boxHandle : Int
  boxIndex : Int
  ver : Bool
  sessionHandle : Int
  pubPipe : Int
  buffer : List UInt8

namespace PublisherFrame

/-- The message that is written to the box. -/
def message (f : PublisherFrame) : CString := CString.ofBuffer f.buffer

def call (f : PublisherFrame) : Option Call :=
  match f.place with
  | .tfsOpen => some (.tfs (.tfsOpen (some (boxPath f.boxName)) tfsOAppend))
  | .findBox => some (.findBox f.boxName)
  | .nPublishers => some (.nPublishers f.boxIndex)
  | .setNPublishers => some (.setNPublishers f.boxIndex 1)
  | .setPublisher => some (.setPublisher f.boxIndex f.pipeName)
  | .tfsReopen => some (.tfs (.tfsOpen (some (boxPath f.boxName)) tfsOAppend))
  | .openPipe => some (.openPipe f.pipeName 'r')
  | .closeRejected => some (.close f.pubPipe)
  | .dequeueRejected => some .pcqDequeue
  | .readCode => some (.readPipe f.pubPipe 1)
  | .findAgain => some (.findBox f.boxName)
  | .closeRemoved => some (.close f.pubPipe)
  | .readMessage => some (.readPipe f.pubPipe messageSize)
  | .lock => some (.mutexLock f.boxIndex)
  | .writeMessage => some (.tfs (.tfsWrite f.sessionHandle f.message.bytes))
  | .writeNul => some (.tfs (.tfsWrite f.sessionHandle [0]))
  | .addBoxSize => some (.addBoxSize f.boxIndex f.message.strlen)
  | .broadcast => some (.condBroadcast f.boxIndex)
  | .unlock => some (.mutexUnlock f.boxIndex)
  | .clearNPublishers => some (.setNPublishers f.boxIndex 0)
  | .closePipe => some (.close f.pubPipe)
  | .dequeue => some .pcqDequeue
  | .tfsClose => some (.tfs (.tfsClose f.sessionHandle))
  | .returned => none

/-- A message without a NUL is copied past its buffer. -/
def resume (f : PublisherFrame) (a : Answer) : Outcome PublisherFrame :=
  match f.place with
  | .tfsOpen => .ok { f with place := .findBox, boxHandle := a.ret }
  | .findBox =>
    if a.ret = -1 ∨ f.boxHandle = -1 then
      .ok { f with place := .tfsReopen, boxIndex := a.ret, ver := false }
    else .ok { f with place := .nPublishers, boxIndex := a.ret }
  | .nPublishers =>
    if a.ret = 1 then .ok { f with place := .tfsReopen, ver := false }
    else .ok { f with place := .setNPublishers }
  | .setNPublishers => .ok { f with place := .setPublisher }
  | .setPublisher => .ok { f with place := .tfsReopen, ver := true }
  | .tfsReopen => .ok { f with place := .openPipe, sessionHandle := a.ret }
  | .openPipe =>
    if f.ver then .ok { f with place := .readCode, pubPipe := a.ret }
    else .ok { f with place := .closeRejected, pubPipe := a.ret }
  | .closeRejected => .ok { f with place := .dequeueRejected }
  | .dequeueRejected => .ok { f with place := .returned }
  | .readCode =>
    if 0 < a.ret ∧ a.bytes.head? = some 9 then .ok { f with place := .findAgain }
    else if f.boxIndex ≠ -1 then .ok { f with place := .clearNPublishers }
    else .ok { f with place := .dequeue }
  | .findAgain =>
    if a.ret = -1 then .ok { f with place := .closeRemoved, boxIndex := a.ret }
    else .ok { f with place := .readMessage, boxIndex := a.ret }
  | .closeRemoved => .ok { f with place := .dequeue }
  | .readMessage =>
    let buffer := readInto f.buffer a.bytes
    if 0 ∈ buffer then .ok { f with place := .lock, buffer := buffer } else .fault
  | .lock => .ok { f with place := .writeMessage }
  | .writeMessage => .ok { f with place := .writeNul }
  | .writeNul => .ok { f with place := .addBoxSize }
  | .addBoxSize => .ok { f with place := .broadcast }
  | .broadcast => .ok { f with place := .unlock }
  | .unlock => .ok { f with place := .readCode }
  | .clearNPublishers => .ok { f with place := .closePipe }
  | .closePipe => .ok { f with place := .dequeue }
  | .dequeue => .ok { f with place := .tfsClose }
  | .tfsClose => .ok { f with place := .returned }
  | .returned => .ok f

end PublisherFrame

/-! ### `register_subscriber` and `read_messages` -/

inductive SubscriberPlace where
  | findFirst
  | findSecond
  | incNSubscribers
  | addSubscriber
  | tfsOpen
  | findBox
  | openPipe
  | closeRejected
  | dequeueRejected
  | findAgain
  | closeRemoved
  | lock
  | tfsRead
  | wait
  | findWoken
  | closeWoken
  | writeCode
  | writeMessage
  | unlock
  | nSubscribers
  | decNSubscribers
  | tfsClose
  | closePipe
  | dequeue
  | returned
  | exit
deriving DecidableEq

/-- The variables of `register_subscriber` and `read_messages`; the `box_handle` of
the former is only compared with 0. -/
structure SubscriberFrame where
  place : SubscriberPlace
  pipeName : CString
  boxName : CString
  boxIndex : Int
  num : Bool
  boxHandle : Int
  subscriberPipe : Int
  charBuffer : UInt8
  buffer : List UInt8
  i : Nat

namespace SubscriberFrame

def call (f : SubscriberFrame) : Option Call :=
  match f.place with
  | .findFirst => some (.findBox f.boxName)
  | .findSecond => some (.findBox f.boxName)
  | .incNSubscribers => some (.incNSubscribers f.boxIndex)
  | .addSubscriber => some (.addSubscriberToBox f.boxIndex f.pipeName)
  | .tfsOpen => some (.tfs (.tfsOpen (some (boxPath f.boxName)) 0))
  | .findBox => some (.findBox f.boxName)
  | .openPipe => some (.openPipe f.pipeName 'w')
  | .closeRejected => some (.close f.subscriberPipe)
  | .dequeueRejected => some .pcqDequeue
  | .findAgain => some (.findBox f.boxName)
  | .closeRemoved => some (.close f.subscriberPipe)
  | .lock => some (.mutexLock f.boxIndex)
  | .tfsRead => some (.tfs (.tfsRead f.boxHandle 1))
  | .wait => some (.condWait f.boxIndex)
  | .findWoken => some (.findBox f.boxName)
  | .closeWoken => some (.close f.subscriberPipe)
  | .writeCode => some (.write f.subscriberPipe (.code 10))
  | .writeMessage => some (.write f.subscriberPipe (.message f.buffer))
  | .unlock => some (.mutexUnlock f.boxIndex)
  | .nSubscribers => some (.nSubscribers f.boxIndex)
  | .decNSubscribers => some (.decNSubscribers f.boxIndex)
  | .tfsClose => some (.tfs (.tfsClose f.boxHandle))
  | .closePipe => some (.close f.subscriberPipe)
  | .dequeue => some .pcqDequeue
  | .returned => none
  | .exit => some .exit

/-- The check of `read_messages` before its loop. -/
def startLoop (f : SubscriberFrame) : SubscriberFrame :=
  if f.boxHandle = -1 ∨ f.boxIndex = -1 then { f with place := .dequeueRejected }
  else { f with place := .findAgain, i := 0 }

/-- What follows the inner loop: `char_buffer` ends a message, or is stored. -/
def storeChar (f : SubscriberFrame) : Outcome SubscriberFrame :=
  if messageSize ≤ f.i then .fault
  else if f.charBuffer = 0 then
    .ok { f with place := .writeCode, buffer := fillString messageSize (f.buffer.set f.i 0) }
  else .ok { f with place := .unlock, buffer := f.buffer.set f.i f.charBuffer, i := f.i + 1 }

def resume (f : SubscriberFrame) (a : Answer) : Outcome SubscriberFrame :=
  match f.place with
  | .findFirst =>
    if a.ret < 0 then .ok { f with place := .tfsOpen, num := false }
    else .ok { f with place := .findSecond }
  | .findSecond =>
    if a.ret = -1 then .ok { f with place := .tfsOpen, boxIndex := a.ret, num := false }
    else .ok { f with place := .incNSubscribers, boxIndex := a.ret }
  | .incNSubscribers => .ok { f with place := .addSubscriber }
  | .addSubscriber => .ok { f with place := .tfsOpen, num := true }
  | .tfsOpen => .ok { f with place := .findBox, boxHandle := a.ret }
  | .findBox => .ok { f with place := .openPipe, boxIndex := a.ret }
  | .openPipe =>
    if f.num then .ok { f with subscriberPipe := a.ret }.startLoop
    else .ok { f with place := .closeRejected, subscriberPipe := a.ret }
  | .closeRejected => .ok f.startLoop
  | .dequeueRejected => .ok { f with place := .returned }
  | .findAgain =>
    if a.ret = -1 then .ok { f with place := .closeRemoved, boxIndex := a.ret }
    else .ok { f with place := .lock, boxIndex := a.ret }
  | .closeRemoved => .ok { f with place := .nSubscribers }
  | .lock => if a.ret ≠ 0 then .ok { f with place := .exit } else .ok { f with place := .tfsRead }
  | .tfsRead =>
    if a.ret = 0 then .ok { f with place := .wait }
    else { f with charBuffer := a.bytes.headD f.charBuffer }.storeChar
  | .wait => .ok { f with place := .findWoken }
  | .findWoken =>
    if a.ret = -1 then .ok { f with place := .closeWoken, boxIndex := a.ret }
    else .ok { f with place := .tfsRead, boxIndex := a.ret }
  | .closeWoken => f.storeChar -- `bytes_read` is 0, and `char_buffer` is an old one
  | .writeCode =>
    if a.ret < 1 then .ok { f with place := .exit } else .ok { f with place := .writeMessage }
  | .writeMessage =>
    if a.ret < 1 then .ok { f with place := .exit }
    else .ok { f with place := .unlock, buffer := List.replicate messageSize 0, i := 0 }
  | .unlock => .ok { f with place := .findAgain }
  | .nSubscribers =>
    if 0 < a.ret ∧ 0 ≤ f.boxIndex then .ok { f with place := .decNSubscribers }
    else .ok { f with place := .tfsClose }
  | .decNSubscribers => .ok { f with place := .tfsClose }
  | .tfsClose => .ok { f with place := .closePipe }
  | .closePipe => .ok { f with place := .dequeue }
  | .dequeue => .ok { f with place := .returned }
  | .returned => .ok f
  | .exit => .ok f

/-- What `storeChar` can do: the byte fits in the buffer, and either it ends the message,
which is then written, or it is stored and the loop goes on. -/
theorem storeChar_cases {f f' : SubscriberFrame} (h : f.storeChar = .ok f') :
    f.i < messageSize ∧
      (f.charBuffer = 0 ∧
          f' = { f with
            place := .writeCode, buffer := fillString messageSize (f.buffer.set f.i 0) } ∨
        f.charBuffer ≠ 0 ∧
          f' = { f with
            place := .unlock, buffer := f.buffer.set f.i f.charBuffer, i := f.i + 1 }) := by
  rw [storeChar] at h
  split at h
  case isTrue => cases h
  case isFalse hfits =>
    refine ⟨Nat.lt_of_not_le hfits, ?_⟩
    split at h
    case isTrue hchar => exact Or.inl ⟨hchar, (Outcome.ok.inj h).symm⟩
    case isFalse hchar => exact Or.inr ⟨hchar, (Outcome.ok.inj h).symm⟩

end SubscriberFrame

/-- What `read_messages` starts its loop with. -/
def subscriberSession (pipeName boxName : CString) (boxHandle : Int) (pipe : Int) (locals : Locals)
    (t : BoxTable) : SubscriberFrame :=
  ⟨.findAgain, pipeName, boxName, findBox boxName t, true, boxHandle, pipe, locals.charBuffer,
    locals.buffer, 0⟩

/-! ### All handlers -/

inductive Program where
  | publisher (f : PublisherFrame)
  | subscriber (f : SubscriberFrame)
  | create (f : CreateFrame)
  | remove (f : RemoveFrame)
  | list (f : ListFrame)

namespace Program

/-- A handler that is started, with a copy of its arguments. -/
def start : Client → Locals → Program
  | .publisher pipeName boxName, l =>
    .publisher ⟨.tfsOpen, pipeName.1, boxName.1, 0, 0, false, 0, 0, l.buffer⟩
  | .subscriber pipeName boxName, l =>
    .subscriber ⟨.findFirst, pipeName.1, boxName.1, 0, false, 0, 0, l.charBuffer, l.buffer, 0⟩
  | .create pipeName boxName, l => .create ⟨.findBox, pipeName.1, boxName.1, l.box, 0⟩
  | .remove pipeName boxName, _ => .remove ⟨.tfsUnlink, pipeName.1, boxName.1, 0⟩
  | .list pipeName, l => .list ⟨.openPipe, pipeName.1, 0, 0, l.box⟩

/-- The next call; none, when the handler has returned. -/
def call : Program → Option Call
  | .publisher f => f.call
  | .subscriber f => f.call
  | .create f => f.call
  | .remove f => f.call
  | .list f => f.call

/-- What the handler does with the answer. -/
def resume (a : Answer) : Program → Outcome Program
  | .publisher f => do
    let f ← f.resume a
    return .publisher f
  | .subscriber f => do
    let f ← f.resume a
    return .subscriber f
  | .create f => .ok (.create (f.resume a))
  | .remove f => .ok (.remove (f.resume a))
  | .list f => .ok (.list (f.resume a))

/-- A creation or a removal that is under way. -/
def ChangesBoxes : Program → Prop
  | .create f => f.call ≠ none
  | .remove f => f.call ≠ none
  | _ => False

end Program

/-! ### The boxes and the file system -/

/-- An access to `boxes[i]`. -/
def atBox (i : Int) (access : Nat → Outcome (Answer × Broker)) : Outcome (Answer × Broker) :=
  if i < 0 ∨ maxBoxes ≤ i.toNat then .fault else access i.toNat

/-- A call on the broker.  `env` is the answer to those that it does not decide: the
clients' pipes, the mutexes, the queue. -/
def perform (c : Call) (env : Answer) (b : Broker) : Outcome (Answer × Broker) :=
  match c with
  | .findBox boxName => .ok ({ ret := findBox boxName b.table }, b)
  | .addBox box => do
    let table ← addBox box b.table
    return ({}, { b with table := table })
  | .deleteBox boxIndex => do
    let table ← deleteBox boxIndex b.table
    return ({}, { b with table := table })
  | .addSubscriberToBox boxIndex pipeName => atBox boxIndex fun i => do
    let table ← addSubscriberToBox i pipeName b.table
    return ({}, { b with table := table })
  | .tfs call => do
    let (r, fs) ← tfsCall call b.fs
    return ({ ret := r.ret, bytes := r.bytes }, { b with fs := fs })
  | .nPublishers boxIndex => atBox boxIndex fun i =>
    .ok ({ ret := (b.table.boxes i).nPublishers }, b)
  | .setNPublishers boxIndex n => atBox boxIndex fun i =>
    .ok ({}, { b with table := b.table.modify i fun box => { box with nPublishers := n } })
  | .setPublisher boxIndex pipeName => atBox boxIndex fun i =>
    .ok ({}, { b with table := b.table.modify i fun box => { box with publisher := pipeName } })
  | .addBoxSize boxIndex n => atBox boxIndex fun i =>
    .ok ({}, { b with table := b.table.modify i fun box => { box with boxSize := box.boxSize + n } })
  | .nSubscribers boxIndex =>
    -- `read_messages` looks at this field before it looks at the index: outside of the
    -- array there is some number.
    if boxIndex < 0 ∨ maxBoxes ≤ boxIndex.toNat then .ok (env, b)
    else .ok ({ ret := (b.table.boxes boxIndex.toNat).nSubscribers }, b)
  | .incNSubscribers boxIndex => atBox boxIndex fun i =>
    .ok ({}, { b with table := b.table.modify i fun box =>
      { box with nSubscribers := box.nSubscribers + 1 } })
  | .decNSubscribers boxIndex => atBox boxIndex fun i =>
    .ok ({}, { b with table := b.table.modify i fun box =>
      { box with nSubscribers := (box.nSubscribers + 2 ^ 64 - 1) % 2 ^ 64 } })
  | .nBoxes => .ok ({ ret := b.table.nBoxes }, b)
  | .markLast => atBox (b.table.nBoxes - 1) fun i =>
    .ok ({}, { b with table := b.table.modify i fun box => { box with last := 1 } })
  | .copyBox i => atBox i fun i => .ok ({ box := b.table.boxes i }, b)
  | .clearLast => atBox (b.table.nBoxes - 1) fun i =>
    .ok ({}, { b with table := b.table.modify i fun box => { box with last := 0 } })
  | .mutexLock boxIndex => atBox boxIndex fun _ => .ok (env, b)
  | .mutexUnlock boxIndex => atBox boxIndex fun _ => .ok (env, b)
  | .condWait boxIndex => atBox boxIndex fun _ => .ok (env, b)
  | .condBroadcast boxIndex => atBox boxIndex fun _ => .ok (env, b)
  | _ => .ok (env, b)

end Mbroker
