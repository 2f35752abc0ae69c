/-
From the standard input of publishers to the standard output of subscribers.

A `Relay` is a box, the publisher that is connected to it and the subscribers that
are: the main loops of `pub.c` and `sub.c`, the handlers of the broker, and the pipe
between each client and its handler.  The steps are single writes and reads of the
pipes, and the sections that the handlers run under the mutex of the box.  A handler
that is sending a message to its client holds the mutex meanwhile.

* `PublisherMain.step`, `PublisherHandler.step`, `SubscriberMain.step` — the loops,
  from one wait to the next;
* `Relay.Act`, `Relay.Step` — what the programs on a box do, and what happens to it:
  clients come whose `tfs_open` succeeds, conditions wake up without a signal, other
  handlers call the file system.
-/
import Mbroker.Delivery
import Mbroker.Pipes
import Mbroker.PublisherClient

namespace Mbroker

open Tfs Delimited

/-! ### The publisher's client -/

/-- Where `main` of `pub.c` is in its loop. -/
inductive PublisherMainPc where
  | readLine
  | writeCode
  | writeMessage
  | done
deriving DecidableEq

/-- The loop of `main` in `pub.c`. -/
structure PublisherMain where
  stdin : List UInt8
  str : CharArray messageSize
  message : CharArray messageSize
  pc : PublisherMainPc := .readLine

/-- One step of the loop, if it does not have to wait; at the end of its input, the client closes
the pipe. -/
def PublisherMain.step (capacity : Nat) (c : PublisherMain) (pipe : Pipe UInt8) :
    Outcome (Option (PublisherMain × Pipe UInt8)) :=
  match c.pc with
  | .readLine =>
    match fgets c.str c.stdin with
    | none => .ok (some ({ c with pc := .done }, pipe.close))
    | some (str, rest) => do
      let message ← toMessage str c.message
      return some ({ stdin := rest, str := str, message := message, pc := .writeCode }, pipe)
  | .writeCode =>
    .ok ((pipe.write capacity [9]).map fun pipe => ({ c with pc := .writeMessage }, pipe))
  | .writeMessage =>
    .ok ((pipe.write capacity c.message.bytes).map fun pipe => ({ c with pc := .readLine }, pipe))
  | .done => .ok none

/-- What it has begun to write. -/
def PublisherMain.toWrite (c : PublisherMain) : List (List UInt8) :=
  match c.pc with
  | .writeCode => [[9], c.message.bytes]
  | .writeMessage => [c.message.bytes]
  | .readLine | .done => []

/-! ### Its handler -/

theorem length_readFrom {size : Nat} (a : CharArray size) (bs : List UInt8) :
    ((bs ++ a.bytes.drop bs.length).take size).length = size := by
  have ha := a.length_bytes
  rw [List.length_take, List.length_append, List.length_drop]
  omega

/-- `read_pipe(rx, array, size)`: what is read is written over the start of the array. -/
def CharArray.readFrom {size : Nat} (a : CharArray size) (bs : List UInt8) : CharArray size :=
  ⟨(bs ++ a.bytes.drop bs.length).take size, length_readFrom a bs⟩

theorem CharArray.bytes_readFrom {size : Nat} (a : CharArray size) {bs : List UInt8}
    (h : bs.length = size) : (a.readFrom bs).bytes = bs := List.take_left' h

/-- Where `recieve_messages_from_publisher` is in its loop. -/
inductive PublisherHandlerPc where
  | readCode
  | readMessage
  | write
  | leave
deriving DecidableEq

/-- The loop of `recieve_messages_from_publisher`. -/
structure PublisherHandler where
  boxHandle : Int
  code : UInt8
  message : CharArray messageSize
  buffer : CharArray messageSize
  pc : PublisherHandlerPc := .readCode

/-- A read of the loop, if there is something to read. -/
def PublisherHandler.step (h : PublisherHandler) (pipe : Pipe UInt8) :
    Outcome (Option (PublisherHandler × Pipe UInt8)) :=
  match h.pc with
  | .readCode =>
    .ok ((pipe.read 1).map fun (bytes, pipe) =>
      let code := bytes.headD h.code
      let pc := if 0 < bytes.length ∧ code = 9 then .readMessage else .leave
      ({ h with code := code, pc := pc }, pipe))
  | .readMessage =>
    match pipe.read messageSize with
    | none => .ok none
    | some (bytes, pipe) => do
      let buffer := h.buffer.readFrom bytes
      let message ← h.message.strcpyFrom buffer
      let message := message.set buffer.text.strlen 0
      return some ({ h with message := message, buffer := buffer, pc := .write }, pipe)
  | .write | .leave => .ok none

/-- A publisher's client, its handler and the pipe between them. -/
structure PublisherLink where
  client : PublisherMain
  pipe : Pipe UInt8 := {}
  handler : PublisherHandler

/-! ### The subscribers -/

/-- Where `main` of `sub.c` is in its loop. -/
inductive SubscriberMainPc where
  | readCode
  | readMessage
  | done
deriving DecidableEq

/-- The loop of `main` in `sub.c`, and what it has printed. -/
structure SubscriberMain where
  code : UInt8
  message : CharArray messageSize
  pc : SubscriberMainPc := .readCode
  stdout : List UInt8 := []
  nMessages : Nat := 0

/-- A read of the loop, if there is something to read, and what is printed then. -/
def SubscriberMain.step (c : SubscriberMain) (pipe : Pipe UInt8) :
    Outcome (Option (SubscriberMain × Pipe UInt8)) :=
  match c.pc with
  | .readCode =>
    .ok ((pipe.read 1).map fun (bytes, pipe) =>
      let pc := if 0 < bytes.length then .readMessage else .done
      ({ c with code := bytes.headD c.code, pc := pc }, pipe))
  | .readMessage =>
    match pipe.read messageSize with
    | none => .ok none
    | some (bytes, pipe) =>
      let message := c.message.readFrom bytes
      if c.code = 10 then
        -- `fprintf(stdout, "%s\n", message)`
        if message.Terminated then
          .ok (some ({ c with
            message := .zero
            pc := .readCode
            stdout := c.stdout ++ (message.text.bytes ++ [newline])
            nMessages := c.nMessages + 1 }, pipe))
        else .fault
      else .ok (some ({ c with message := message, pc := .readCode }, pipe))
  | .done => .ok none

/-- A subscriber's client, its handler, what that has begun to write to the client, and the pipe
between them. -/
structure SubscriberLink where
  session : Subscriber
  writing : List (List UInt8) := []
  pipe : Pipe UInt8 := {}
  client : SubscriberMain

/-- What a section sends, as the writes that it takes. -/
def Subscriber.newWrites (sub sub' : Subscriber) : List (List UInt8) :=
  (sub'.sent.drop sub.sent.length).flatMap fun d => [[d.1], d.2]

/-! ### The box -/

/-- A box, its publisher and its subscribers; what has been published on it, and the inputs of the
publishers that it has had. -/
structure Relay where
  fs : TfsState
  publisher : Option PublisherLink
  subscribers : Nat → Option SubscriberLink
  published : List CString
  inputs : List (List UInt8)

namespace Relay

/-- A box without clients. -/
def start (s : TfsState) : Relay := ⟨s, none, fun _ => none, [], []⟩

/-- The sessions of the box. -/
def channel (c : Relay) : Channel where
  fs := c.fs
  publisher := c.publisher.map fun p => p.handler.boxHandle
  subscribers := fun k => (c.subscribers k).map SubscriberLink.session
  published := c.published

/-- No handler has the mutex of the box. -/
def Free (c : Relay) : Prop := ∀ k l, c.subscribers k = some l → l.writing = []

def setSubscriber (c : Relay) (k : Nat) (l : SubscriberLink) : Relay :=
  { c with subscribers := Function.update c.subscribers k (some l) }

/-- `pthread_cond_broadcast`. -/
def wake (l : SubscriberLink) : SubscriberLink := { l with session := l.session.wake }

/-- What the programs on a box do.  The end of `recieve_messages_from_publisher` is one step. -/
inductive Act (q : FileName) (capacity : Nat) : Relay → Relay → Prop
  | client {c : Relay} {p : PublisherLink} {client : PublisherMain} {pipe : Pipe UInt8}
      (hp : c.publisher = some p)
      (hstep : p.client.step capacity p.pipe = .ok (some (client, pipe))) :
      Act q capacity c { c with publisher := some { p with client := client, pipe := pipe } }
  | handler {c : Relay} {p : PublisherLink} {handler : PublisherHandler} {pipe : Pipe UInt8}
      (hp : c.publisher = some p) (hstep : p.handler.step p.pipe = .ok (some (handler, pipe))) :
      Act q capacity c { c with publisher := some { p with handler := handler, pipe := pipe } }
  | publish {c : Relay} {p : PublisherLink} {fs' : TfsState} (hp : c.publisher = some p)
      (hpc : p.handler.pc = .write) (hfree : c.Free)
      (hwrite : writeSection p.handler.boxHandle p.handler.message.bytes c.fs = .ok fs') :
      Act q capacity c { c with
        fs := fs'
        publisher := some { p with handler := { p.handler with pc := .readCode } }
        subscribers := fun k => (c.subscribers k).map wake
        published := c.published ++ [p.handler.message.text] }
  | leave {c : Relay} {p : PublisherLink} {r : Int} {fs' : TfsState} (hp : c.publisher = some p)
      (hpc : p.handler.pc = .leave) (hclose : tfsClose p.handler.boxHandle c.fs = .ok (r, fs')) :
      Act q capacity c { c with fs := fs', publisher := none }
  | read {c : Relay} {l : SubscriberLink} {sub' : Subscriber} {fs' : TfsState} (k : Nat)
      (hl : c.subscribers k = some l) (hwaiting : l.session.waiting = false) (hfree : c.Free)
      (hread : readSection l.session c.fs = .ok (sub', fs')) :
      Act q capacity c (setSubscriber { c with fs := fs' } k
        { l with session := sub', writing := l.session.newWrites sub' })
  | write {c : Relay} {l : SubscriberLink} {bs : List UInt8} {rest : List (List UInt8)}
      {pipe : Pipe UInt8} (k : Nat) (hl : c.subscribers k = some l) (hw : l.writing = bs :: rest)
      (hwrite : l.pipe.write capacity bs = some pipe) :
      Act q capacity c (c.setSubscriber k { l with writing := rest, pipe := pipe })
  | print {c : Relay} {l : SubscriberLink} {client : SubscriberMain} {pipe : Pipe UInt8} (k : Nat)
      (hl : c.subscribers k = some l) (hstep : l.client.step l.pipe = .ok (some (client, pipe))) :
      Act q capacity c (c.setSubscriber k { l with client := client, pipe := pipe })

/-- And what happens on it: a publisher connects, when there is none, with its input; a subscriber
connects; a wait ends without a signal; another handler calls the file system.  What the variables
of a program hold at its start is not known.  The clients are those whose session has got a handle:
where `tfs_open` fails, the code goes on with a publisher whose messages are lost, and leaves a
subscriber alone with its pipe. -/
inductive Step (q : FileName) (capacity : Nat) : Relay → Relay → Prop
  | act {c c' : Relay} (h : Act q capacity c c') : Step q capacity c c'
  | connect {c : Relay} {h : Int} {fs' : TfsState} (stdin : List UInt8) (hnul : 0 ∉ stdin)
      (str message message' buffer : CharArray messageSize) (code : UInt8)
      (hnone : c.publisher = none)
      (hopen : tfsOpen (some (boxPath q.1)) tfsOAppend c.fs = .ok (h, fs')) (hh : h ≠ -1) :
      Step q capacity c { c with
        fs := fs'
        publisher := some {
          client := { stdin := stdin, str := str, message := message }
          handler := { boxHandle := h, code := code, message := message', buffer := buffer } }
        inputs := c.inputs ++ [stdin] }
  | attach {c : Relay} {h : Int} {fs' : TfsState} (k : Nat) (charBuffer code : UInt8)
      (buffer message : CharArray messageSize) (hnone : c.subscribers k = none)
      (hopen : tfsOpen (some (boxPath q.1)) 0 c.fs = .ok (h, fs')) (hh : h ≠ -1) :
      Step q capacity c (setSubscriber { c with fs := fs' } k {
        session := { boxHandle := h, charBuffer := charBuffer, buffer := buffer.bytes, i := 0 }
        client := { code := code, message := message } })
  | wakeUp {c : Relay} {l : SubscriberLink} (k : Nat) (hl : c.subscribers k = some l) :
      Step q capacity c (c.setSubscriber k (wake l))
  | other {c : Relay} {r : Reply} {fs' : TfsState} (call : TfsCall)
      (helse : c.channel.Elsewhere q call) (hcall : tfsCall call c.fs = .ok (r, fs')) :
      Step q capacity c { c with fs := fs' }

/-- Nothing is left to do: there is no publisher, and every subscriber waits, with nothing on its
way to its client. -/
def Quiet (c : Relay) : Prop :=
  c.publisher = none ∧ ∀ k l, c.subscribers k = some l →
    l.session.waiting = true ∧ l.writing = [] ∧ l.pipe.bytes = [] ∧ l.client.pc = .readCode

/-- The messages that an input is made into. -/
def texts (stdin : List UInt8) : List CString :=
  (chunks newline (messageSize - 2) stdin).map fun chunk => .ofBuffer chunk.dropLast

/-- The messages of all publishers. -/
def allTexts (c : Relay) : List CString := c.inputs.flatMap texts

end Relay

end Mbroker
