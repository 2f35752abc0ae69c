/-
What comes in, copied from array to array.

A request is two arrays of characters, one after the other, and a message is one; none has to
have a NUL in it.  The main loop copies the strings of a request for the thread, the handler
copies them again, and then the name of the box behind a `'/'`, into the record of the box, and
the name of the pipe into the publisher of the box and behind `"/tmp/"`.  A `strcpy` from an
array without a NUL reads past it, and one of a string that does not fit writes past the other.

* `createBox_eq`, `removeBox_eq`, `publisherFunction_eq`, `registerSubscriber_eq`,
  `receiveMessage_eq` — the handlers on the arrays, when there is a NUL in each, as the handlers
  on the strings;
* **`staysInside_iff`** — they are the same exactly when there is a NUL in each;
* `not_staysInside_fullBoxName` — a box name that fills its array.
-/
import Mbroker.BoxRecords
import Mbroker.Handlers

namespace Mbroker

open Outcome Tfs

/-! ### Requests -/

/-- `register_request_t`. -/
structure RegisterRequest where
  clientNamePipePath : CharArray pipeNameSize
  boxName : CharArray boxNameSize

/-- `thread_args`. -/
structure ThreadArgs where
  clientNamePipePath : CharArray pipeNameSize
  boxName : CharArray boxNameSize

/-- `sizeof(register_request_t)`. -/
def sizeofRegisterRequest : Nat := pipeNameSize + boxNameSize

/-- `TMP_SIZE`. -/
def tmpSize : Nat := 5

namespace CharArray

variable (body : CharArray sizeofRegisterRequest)

theorem length_take_body : (body.bytes.take pipeNameSize).length = pipeNameSize := by
  rw [List.length_take, body.length_bytes]
  rfl

theorem length_drop_body : (body.bytes.drop pipeNameSize).length = boxNameSize := by
  rw [List.length_drop, body.length_bytes]
  rfl

end CharArray

/-- `box_request`, when the main loop has read the bytes of a request into it. -/
def RegisterRequest.ofBody (body : CharArray sizeofRegisterRequest) : RegisterRequest where
  clientNamePipePath := ⟨body.bytes.take pipeNameSize, body.length_take_body⟩
  boxName := ⟨body.bytes.drop pipeNameSize, body.length_drop_body⟩

/-- The arrays that the strings of a request are copied into, with what lies in them: those of
the main loop and of the handler's functions, the one that `open_pipe` allocates, and the two of
the box. -/
structure Arrays where
  args : ThreadArgs
  request : RegisterRequest
  boxPath : CharArray (boxNameSize + 1)
  sessionPath : CharArray (boxNameSize + 1)
  src : CharArray (pipeNameSize + tmpSize)
  boxName : CharArray boxNameSize
  publisher : CharArray pipeNameSize

/-- The arrays, with nothing but NULs in them. -/
def Arrays.zero : Arrays := ⟨⟨.zero, .zero⟩, ⟨.zero, .zero⟩, .zero, .zero, .zero, .zero, .zero⟩

namespace Wire

theorem length_tail (path : CharArray (boxNameSize + 1)) :
    path.bytes.tail.length = boxNameSize := by
  rw [List.length_tail, path.length_bytes]
  rfl

theorem length_cons (c : UInt8) (rest : CharArray boxNameSize) :
    (c :: rest.bytes).length = boxNameSize + 1 := by
  rw [List.length_cons, rest.length_bytes]

theorem length_drop_src (src : CharArray (pipeNameSize + tmpSize)) :
    (src.bytes.drop tmpSize).length = pipeNameSize := by
  rw [List.length_drop, src.length_bytes]
  rfl

/-- `box_name[0] = '/'` and `strcpy(box_name + 1, name)`. -/
def slashed (path : CharArray (boxNameSize + 1)) (name : CharArray boxNameSize) :
    Outcome (CharArray (boxNameSize + 1)) := do
  let rest ← CharArray.strcpyFrom ⟨path.bytes.tail, length_tail path⟩ name
  return ⟨47 :: rest.bytes, length_cons 47 rest⟩

/-- `"/tmp/"` before the name of a pipe. -/
def tmpPath (pipeName : CString) : List UInt8 := "/tmp/".toUTF8.toList ++ pipeName.bytes

/-- What `open_pipe` opens: `strcpy(src, "/tmp/")` and `strcat(src, pipename)`. -/
def openPipe (src : CharArray (pipeNameSize + tmpSize)) (pipename : CharArray pipeNameSize) :
    Outcome (List UInt8) := do
  let rest ← CharArray.strcpyFrom ⟨src.bytes.drop tmpSize, length_drop_src src⟩ pipename
  return tmpPath rest.text

/-- The strings of a request, copied for the thread. -/
def copyToArgs (boxRequest : RegisterRequest) (args : ThreadArgs) : Outcome ThreadArgs := do
  let path ← args.clientNamePipePath.strcpyFrom boxRequest.clientNamePipePath
  let name ← args.boxName.strcpyFrom boxRequest.boxName
  return ⟨path, name⟩

/-- The strings of a request, copied by the thread. -/
def copyToRequest (arguments : ThreadArgs) (request : RegisterRequest) :
    Outcome RegisterRequest := do
  let path ← request.clientNamePipePath.strcpyFrom arguments.clientNamePipePath
  let name ← request.boxName.strcpyFrom arguments.boxName
  return ⟨path, name⟩

/-- A case of the `switch` in `main_thread_function`, and the handler that it starts. -/
def serve {ρ : Type} (handler : ThreadArgs → Arrays → Broker → Outcome ρ)
    (body : CharArray sizeofRegisterRequest) (l : Arrays) (b : Broker) : Outcome ρ := do
  let args ← copyToArgs (.ofBody body) l.args
  handler args l b

/-- A reply: the pipe that it goes to, and the return code. -/
def reply (request : RegisterRequest) (l : Arrays) (returnCode : Int) (b : Broker) :
    Outcome (List UInt8 × Int × Broker) := do
  let pipe ← openPipe l.src request.clientNamePipePath
  return (pipe, returnCode, b)

/-- `create_box`. -/
def createBox (box : Box) (arguments : ThreadArgs) (l : Arrays) (b : Broker) :
    Outcome (List UInt8 × Int × Broker) := do
  let boxRequest ← copyToRequest arguments l.request
  if findBox boxRequest.boxName.text b.table ≠ -1 then reply boxRequest l (-1) b
  else
    let path ← slashed l.boxPath boxRequest.boxName
    let (boxHandle, fs) ← tfsOpen (some path.text) tfsOCreat b.fs
    if boxHandle = -1 then reply boxRequest l (-1) { b with fs := fs }
    else
      let name ← l.boxName.strcpyFrom boxRequest.boxName
      let box := { box with boxSize := 0, nPublishers := 0, nSubscribers := 0, boxName := name.text }
      let (_, fs) ← tfsClose boxHandle fs
      let table ← addBox box b.table
      reply boxRequest l 0 ⟨fs, table⟩

/-- `remove_box`. -/
def removeBox (arguments : ThreadArgs) (l : Arrays) (b : Broker) :
    Outcome (List UInt8 × Int × Broker) := do
  let boxRequest ← copyToRequest arguments l.request
  let path ← slashed l.boxPath boxRequest.boxName
  let (boxHandle, fs) ← tfsUnlink (some path.text) b.fs
  if boxHandle = -1 then reply boxRequest l (-1) { b with fs := fs }
  else
    let boxIndex := findBox boxRequest.boxName.text b.table
    if boxIndex = -1 then reply boxRequest l (-1) { b with fs := fs }
    else
      let table ← deleteBox boxIndex b.table
      reply boxRequest l 0 ⟨fs, table⟩

/-- What `recieve_messages_from_publisher` and `read_messages` start with: the file and the pipe
that they open. -/
def openBoth (mode : Nat) (request : RegisterRequest) (l : Arrays) (fs : TfsState) :
    Outcome (List UInt8 × Int × TfsState) := do
  let path ← slashed l.sessionPath request.boxName
  let (boxHandle, fs) ← tfsOpen (some path.text) mode fs
  let pipe ← openPipe l.src request.clientNamePipePath
  return (pipe, boxHandle, fs)

/-- `publisher_function`, up to the first message. -/
def publisherFunction (arguments : ThreadArgs) (l : Arrays) (b : Broker) :
    Outcome (List UInt8 × Option PublisherSession × Broker) := do
  let request ← copyToRequest arguments l.request
  let path ← slashed l.boxPath request.boxName
  let (boxHandle, fs) ← tfsOpen (some path.text) tfsOAppend b.fs
  let boxIndex := findBox request.boxName.text b.table
  if boxIndex = -1 ∨ boxHandle = -1 then
    let (pipe, _, fs) ← openBoth tfsOAppend request l fs
    return (pipe, none, { b with fs := fs })
  if (b.table.boxes boxIndex.toNat).nPublishers = 1 then
    let (pipe, _, fs) ← openBoth tfsOAppend request l fs
    return (pipe, none, { b with fs := fs })
  let publisher ← l.publisher.strcpyFrom arguments.clientNamePipePath
  let table := b.table.modify boxIndex.toNat fun box =>
    { box with nPublishers := 1, publisher := publisher.text }
  let (pipe, sessionHandle, fs) ← openBoth tfsOAppend request l fs
  return (pipe, some ⟨request.boxName.text, sessionHandle, boxIndex⟩, ⟨fs, table⟩)

/-- `register_subscriber`, and `read_messages` up to its loop. -/
def registerSubscriber (arguments : ThreadArgs) (l : Arrays) (b : Broker) :
    Outcome (List UInt8 × Option Int × Broker) := do
  let request ← copyToRequest arguments l.request
  let boxIndex := findBox request.boxName.text b.table
  if boxIndex = -1 then
    let (pipe, _, fs) ← openBoth 0 request l b.fs
    return (pipe, none, { b with fs := fs })
  let table := b.table.modify boxIndex.toNat fun box =>
    { box with nSubscribers := box.nSubscribers + 1 }
  let table ← addSubscriberToBox boxIndex.toNat request.clientNamePipePath.text table
  let (pipe, boxHandle, fs) ← openBoth 0 request l b.fs
  if boxHandle = -1 then return (pipe, none, ⟨fs, table⟩)
  return (pipe, some boxHandle, ⟨fs, table⟩)

/-- `recieve_messages_from_publisher` on one message. -/
def receiveMessage (buffer message : CharArray messageSize) (session : PublisherSession)
    (b : Broker) : Outcome (Option PublisherSession × Broker) :=
  let boxIndex := findBox session.boxName b.table
  if boxIndex = -1 then do
    let (_, fs) ← tfsClose session.boxHandle b.fs
    return (none, { b with fs := fs })
  else do
    let message ← message.strcpyFrom buffer
    let message := message.set buffer.text.strlen 0
    let (_, fs) ← tfsWrite session.boxHandle message.text.bytes b.fs
    let (_, fs) ← tfsWrite session.boxHandle [0] fs
    let table := b.table.modify boxIndex.toNat fun box =>
      { box with boxSize := box.boxSize + message.text.strlen }
    return (some { session with boxIndex := boxIndex }, ⟨fs, table⟩)

/-! ### The strings -/

/-- Both arrays of a request have a NUL, and the strings in them are these two. -/
def Holds (path : CharArray pipeNameSize) (name : CharArray boxNameSize)
    (pipeName boxName : CString) : Prop :=
  (path.Terminated ∧ name.Terminated) ∧ path.text = pipeName ∧ name.text = boxName

section Copies

variable {pipeName boxName : CString} {body : CharArray sizeofRegisterRequest}
  {request : RegisterRequest} {arguments : ThreadArgs} {l : Arrays} {b : Broker}

theorem slashed_returns (path : CharArray (boxNameSize + 1)) {name : CharArray boxNameSize}
    (h : name.Terminated) : ∃ p, slashed path name = .ok p ∧ p.text = boxPath name.text := by
  obtain ⟨rest, hrest, htext, -⟩ :=
    CharArray.strcpyFrom_returns (⟨path.bytes.tail, length_tail path⟩) h (le_refl _)
  rw [slashed, hrest, Outcome.ok_bind]
  refine ⟨_, rfl, ?_⟩
  rw [← htext]
  rfl

theorem openPipe_eq (src : CharArray (pipeNameSize + tmpSize)) {path : CharArray pipeNameSize}
    (h : path.Terminated) : openPipe src path = .ok (tmpPath path.text) := by
  obtain ⟨rest, hrest, htext, -⟩ :=
    CharArray.strcpyFrom_returns (⟨src.bytes.drop tmpSize, length_drop_src src⟩) h
      (le_refl _)
  rw [openPipe, hrest, Outcome.ok_bind, htext]
  rfl

theorem copyToArgs_returns (args : ThreadArgs)
    (h : Holds request.clientNamePipePath request.boxName pipeName boxName) :
    ∃ args', copyToArgs request args = .ok args' ∧
      Holds args'.clientNamePipePath args'.boxName pipeName boxName := by
  obtain ⟨⟨hpath, hname⟩, rfl, rfl⟩ := h
  obtain ⟨path, hcopy, htext, hnul⟩ :=
    CharArray.strcpyFrom_returns args.clientNamePipePath hpath (le_refl _)
  obtain ⟨name, hcopy', htext', hnul'⟩ :=
    CharArray.strcpyFrom_returns args.boxName hname (le_refl _)
  rw [copyToArgs, hcopy, Outcome.ok_bind, hcopy', Outcome.ok_bind]
  exact ⟨_, rfl, ⟨hnul, hnul'⟩, htext, htext'⟩

theorem copyToRequest_returns (request : RegisterRequest)
    (h : Holds arguments.clientNamePipePath arguments.boxName pipeName boxName) :
    ∃ request', copyToRequest arguments request = .ok request' ∧
      Holds request'.clientNamePipePath request'.boxName pipeName boxName := by
  obtain ⟨⟨hpath, hname⟩, rfl, rfl⟩ := h
  obtain ⟨path, hcopy, htext, hnul⟩ :=
    CharArray.strcpyFrom_returns request.clientNamePipePath hpath (le_refl _)
  obtain ⟨name, hcopy', htext', hnul'⟩ :=
    CharArray.strcpyFrom_returns request.boxName hname (le_refl _)
  rw [copyToRequest, hcopy, Outcome.ok_bind, hcopy', Outcome.ok_bind]
  exact ⟨_, rfl, ⟨hnul, hnul'⟩, htext, htext'⟩

/-- A request without a NUL in one of its arrays does not get past the main loop. -/
theorem copyToArgs_fault (args : ThreadArgs)
    (h : ¬ (request.clientNamePipePath.Terminated ∧ request.boxName.Terminated)) :
    copyToArgs request args = .fault := by
  by_cases hpath : request.clientNamePipePath.Terminated
  · obtain ⟨path, hcopy, -, -⟩ :=
      CharArray.strcpyFrom_returns args.clientNamePipePath hpath (le_refl _)
    have hname : ¬ request.boxName.Terminated := fun hname => h ⟨hpath, hname⟩
    rw [copyToArgs, hcopy, Outcome.ok_bind, CharArray.strcpyFrom_fault hname]
    rfl
  · rw [copyToArgs, CharArray.strcpyFrom_fault hpath]
    rfl

theorem reply_eq (h : Holds request.clientNamePipePath request.boxName pipeName boxName)
    (returnCode : Int) :
    reply request l returnCode b = .ok (tmpPath pipeName, returnCode, b) := by
  rw [reply, openPipe_eq l.src h.1.1, h.2.1]
  rfl

theorem openBoth_eq (mode : Nat) (fs : TfsState)
    (h : Holds request.clientNamePipePath request.boxName pipeName boxName) :
    openBoth mode request l fs =
      (tfsOpen (some (boxPath boxName)) mode fs).map (Prod.mk (tmpPath pipeName)) := by
  obtain ⟨path, hpath, htext⟩ := slashed_returns l.sessionPath h.1.2
  rw [openBoth, hpath, Outcome.ok_bind, htext, h.2.2]
  cases tfsOpen (some (boxPath boxName)) mode fs with
  | ok r =>
    rw [Outcome.ok_bind, openPipe_eq l.src h.1.1, h.2.1]
    rfl
  | panic msg => rfl
  | fault => rfl

theorem createBox_eq (box : Box)
    (h : Holds arguments.clientNamePipePath arguments.boxName pipeName boxName) :
    createBox box arguments l b =
      (Mbroker.createBox boxName box b).map (Prod.mk (tmpPath pipeName)) := by
  obtain ⟨request, hcopy, hr⟩ := copyToRequest_returns l.request h
  obtain ⟨path, hpath, hpathText⟩ := slashed_returns l.boxPath hr.1.2
  obtain ⟨name, hname, hnameText, -⟩ :=
    CharArray.strcpyFrom_returns l.boxName hr.1.2 (le_refl _)
  simp only [createBox, Mbroker.createBox, hcopy, hpath, hname, hpathText, hnameText, hr.2.2,
    reply_eq hr, ok_bind, pure_eq_ok]
  split
  · rfl
  · rw [map_bind]
    refine bind_congr fun r _ => ?_
    split
    · rfl
    · rw [map_bind]
      refine bind_congr fun r' _ => ?_
      rw [map_bind]
      rfl

theorem removeBox_eq (h : Holds arguments.clientNamePipePath arguments.boxName pipeName boxName) :
    removeBox arguments l b =
      (Mbroker.removeBox boxName b).map (Prod.mk (tmpPath pipeName)) := by
  obtain ⟨request, hcopy, hr⟩ := copyToRequest_returns l.request h
  obtain ⟨path, hpath, hpathText⟩ := slashed_returns l.boxPath hr.1.2
  simp only [removeBox, Mbroker.removeBox, hcopy, hpath, hpathText, hr.2.2, reply_eq hr, ok_bind,
    pure_eq_ok, map_bind]
  refine bind_congr fun r _ => ?_
  split
  · rfl
  · split
    · rfl
    · rw [map_bind]
      rfl

theorem publisherFunction_eq
    (h : Holds arguments.clientNamePipePath arguments.boxName pipeName boxName) :
    publisherFunction arguments l b =
      (Mbroker.publisherFunction pipeName boxName b).map (Prod.mk (tmpPath pipeName)) := by
  obtain ⟨request, hcopy, hr⟩ := copyToRequest_returns l.request h
  obtain ⟨path, hpath, hpathText⟩ := slashed_returns l.boxPath hr.1.2
  obtain ⟨publisher, hpublisher, htext, -⟩ :=
    CharArray.strcpyFrom_returns l.publisher h.1.1 (le_refl _)
  simp only [publisherFunction, Mbroker.publisherFunction, hcopy, hpath, hpublisher, hpathText,
    htext, h.2.1, hr.2.2, openBoth_eq _ _ hr, ok_bind, pure_eq_ok, map_bind, bind_map]
  refine bind_congr fun r _ => ?_
  split
  · rw [map_bind]
    rfl
  · split
    · rw [map_bind]
      rfl
    · rw [map_bind]
      rfl

theorem registerSubscriber_eq
    (h : Holds arguments.clientNamePipePath arguments.boxName pipeName boxName) :
    registerSubscriber arguments l b =
      (Mbroker.registerSubscriber pipeName boxName b).map (Prod.mk (tmpPath pipeName)) := by
  obtain ⟨request, hcopy, hr⟩ := copyToRequest_returns l.request h
  simp only [registerSubscriber, Mbroker.registerSubscriber, hcopy, hr.2.1, hr.2.2,
    openBoth_eq _ _ hr, ok_bind, pure_eq_ok, bind_map]
  split
  · rw [map_bind]
    rfl
  · rw [map_bind]
    refine bind_congr fun table _ => ?_
    rw [map_bind]
    refine bind_congr fun r _ => ?_
    split
    · rfl
    · rfl

end Copies

section Messages

variable {buffer message : CharArray messageSize} {session : PublisherSession} {b : Broker}

/-- A message with a NUL: the handler on the message up to it. -/
theorem receiveMessage_eq (h : buffer.Terminated) :
    receiveMessage buffer message session b =
      Mbroker.receiveMessage buffer.text.terminated session b := by
  obtain ⟨copy, hcopy, -, -⟩ :=
    CharArray.strcpyFrom_returns message h (le_refl _)
  have htext : CString.ofBuffer buffer.text.terminated = buffer.text :=
    CString.ofBuffer_terminated buffer.text []
  have hnul : ¬ 0 ∉ buffer.text.terminated := by simp [CString.terminated]
  simp only [receiveMessage, Mbroker.receiveMessage, writeSection, hcopy, if_neg hnul, htext,
    CharArray.text_set_strcpyFrom hcopy, ok_bind]
  split
  · rfl
  · rw [bind_assoc]
    refine bind_congr fun r _ => ?_
    rw [bind_assoc]
    rfl

/-- A message without a NUL, for a box that is there. -/
theorem receiveMessage_fault (h : ¬ buffer.Terminated)
    (hbox : findBox session.boxName b.table ≠ -1) :
    receiveMessage buffer message session b = .fault := by
  rw [receiveMessage, if_neg hbox, CharArray.strcpyFrom_fault h]
  rfl

end Messages

end Wire

/-! ### Any bytes -/

/-- The first array of a request, up to a NUL. -/
def pipeNameOf (body : CharArray sizeofRegisterRequest) : CString :=
  .ofBuffer (body.bytes.take pipeNameSize)

/-- The second array of a request, up to a NUL. -/
def boxNameOf (body : CharArray sizeofRegisterRequest) : CString :=
  .ofBuffer (body.bytes.drop pipeNameSize)

/-- Whatever lies in the arrays that are copied to, no copy leaves them, and the handlers act on
the strings that the arrays of a request and of a message hold up to a NUL. -/
structure StaysInside (body : CharArray sizeofRegisterRequest) (buffer : CharArray messageSize) :
    Prop where
  createBox : ∀ box l b, Wire.serve (Wire.createBox box) body l b =
    (Mbroker.createBox (boxNameOf body) box b).map (Prod.mk (Wire.tmpPath (pipeNameOf body)))
  removeBox : ∀ l b, Wire.serve Wire.removeBox body l b =
    (Mbroker.removeBox (boxNameOf body) b).map (Prod.mk (Wire.tmpPath (pipeNameOf body)))
  publisherFunction : ∀ l b, Wire.serve Wire.publisherFunction body l b =
    (Mbroker.publisherFunction (pipeNameOf body) (boxNameOf body) b).map
      (Prod.mk (Wire.tmpPath (pipeNameOf body)))
  registerSubscriber : ∀ l b, Wire.serve Wire.registerSubscriber body l b =
    (Mbroker.registerSubscriber (pipeNameOf body) (boxNameOf body) b).map
      (Prod.mk (Wire.tmpPath (pipeNameOf body)))
  receiveMessage : ∀ message session b, Wire.receiveMessage buffer message session b =
    Mbroker.receiveMessage (CString.ofBuffer buffer.bytes).terminated session b

section Bytes

variable {body : CharArray sizeofRegisterRequest} {buffer : CharArray messageSize}

theorem serve_eq {ρ : Type} {handler : ThreadArgs → Arrays → Broker → Outcome ρ}
    {named : Broker → Outcome ρ} (hpath : 0 ∈ body.bytes.take pipeNameSize)
    (hname : 0 ∈ body.bytes.drop pipeNameSize)
    (h : ∀ arguments l b, Wire.Holds arguments.clientNamePipePath arguments.boxName
      (pipeNameOf body) (boxNameOf body) → handler arguments l b = named b) (l : Arrays)
    (b : Broker) : Wire.serve handler body l b = named b := by
  have hbody : Wire.Holds (RegisterRequest.ofBody body).clientNamePipePath
      (RegisterRequest.ofBody body).boxName (pipeNameOf body) (boxNameOf body) :=
    ⟨⟨CharArray.terminated_iff.mpr hpath, CharArray.terminated_iff.mpr hname⟩, rfl, rfl⟩
  obtain ⟨args, hargs, hholds⟩ := Wire.copyToArgs_returns l.args hbody
  rw [Wire.serve, hargs, Outcome.ok_bind, h args l b hholds]

/-- A table with one box. -/
def BoxTable.single (boxName : CString) : BoxTable :=
  ⟨fun _ => { Box.zero with boxName := boxName }, 1, fun _ => true⟩

theorem findBox_single (boxName : CString) : findBox boxName (.single boxName) = 0 := by
  have hfit : SlotTable.firstFit (fun i => (BoxTable.single boxName).name i == boxName)
      (BoxTable.single boxName).nBoxes = some 0 := by
    simp [BoxTable.single, BoxTable.name, SlotTable.firstFit]
  rw [findBox, hfit]
  rfl

/-- A box of the name is there: nothing but the copies can go wrong. -/
theorem terminated_of_createBox (l : Arrays) (box : Box) (fs : TfsState)
    (h : Wire.serve (Wire.createBox box) body l ⟨fs, .single (boxNameOf body)⟩ =
      (Mbroker.createBox (boxNameOf body) box ⟨fs, .single (boxNameOf body)⟩).map
        (Prod.mk (Wire.tmpPath (pipeNameOf body)))) :
    0 ∈ body.bytes.take pipeNameSize ∧ 0 ∈ body.bytes.drop pipeNameSize := by
  by_contra hno
  have hbody : ¬ ((RegisterRequest.ofBody body).clientNamePipePath.Terminated ∧
      (RegisterRequest.ofBody body).boxName.Terminated) := by
    rw [CharArray.terminated_iff, CharArray.terminated_iff]
    exact hno
  have hfind : findBox (boxNameOf body) (.single (boxNameOf body)) ≠ -1 := by
    rw [findBox_single]
    decide
  rw [Wire.serve, Wire.copyToArgs_fault l.args hbody, Mbroker.createBox, if_pos hfind] at h
  cases h

/-- A box for the message, and no file: nothing but the copy can go wrong. -/
theorem terminated_of_receiveMessage (boxName : CString) (message : CharArray messageSize)
    (fs : TfsState)
    (h : Wire.receiveMessage buffer message ⟨boxName, -1, 0⟩ ⟨fs, .single boxName⟩ =
      Mbroker.receiveMessage (CString.ofBuffer buffer.bytes).terminated ⟨boxName, -1, 0⟩
        ⟨fs, .single boxName⟩) : 0 ∈ buffer.bytes := by
  by_contra hno
  have hbuffer : ¬ buffer.Terminated := fun hterm => hno (CharArray.terminated_iff.mp hterm)
  have hfind : findBox boxName (.single boxName) ≠ -1 := by
    rw [findBox_single]
    decide
  have hnul : ¬ 0 ∉ (CString.ofBuffer buffer.bytes).terminated := by simp [CString.terminated]
  have hclosed : ∀ bs, tfsWrite (-1) bs fs = .ok (-1, fs) := fun _ => rfl
  rw [Wire.receiveMessage_fault hbuffer hfind, Mbroker.receiveMessage, if_neg hfind, if_neg hnul]
    at h
  simp only [writeSection, hclosed, ok_bind, pure_eq_ok] at h
  cases h

/-- **Malformed data stays inside its arrays** exactly when it is not malformed: there is a NUL
in the name of the pipe, in the name of the box, and in the message. -/
theorem staysInside_iff (body : CharArray sizeofRegisterRequest) (buffer : CharArray messageSize) :
    StaysInside body buffer ↔ 0 ∈ body.bytes.take pipeNameSize ∧
      0 ∈ body.bytes.drop pipeNameSize ∧ 0 ∈ buffer.bytes := by
  constructor
  · intro h
    obtain ⟨hpath, hname⟩ :=
      terminated_of_createBox .zero .zero .uninitialised (h.createBox _ _ _)
    exact ⟨hpath, hname,
      terminated_of_receiveMessage .empty .zero .uninitialised (h.receiveMessage _ _ _)⟩
  · rintro ⟨hpath, hname, hbuffer⟩
    refine ⟨fun box => ?_, ?_, ?_, ?_, fun message session b => ?_⟩
    · exact serve_eq hpath hname fun _ _ _ => Wire.createBox_eq box
    · exact serve_eq hpath hname fun _ _ _ => Wire.removeBox_eq
    · exact serve_eq hpath hname fun _ _ _ => Wire.publisherFunction_eq
    · exact serve_eq hpath hname fun _ _ _ => Wire.registerSubscriber_eq
    · exact Wire.receiveMessage_eq (CharArray.terminated_iff.mpr hbuffer)

end Bytes

theorem length_fullBoxName :
    (padded pipeNameSize (.ofBuffer [112]) ++ List.replicate boxNameSize 97).length =
      sizeofRegisterRequest := by
  decide +kernel

/-- A request from the pipe `"p"` for a box whose name is as long as its array. -/
def fullBoxName : CharArray sizeofRegisterRequest := ⟨_, length_fullBoxName⟩

/-- The name of the box is read past its end. -/
theorem not_staysInside_fullBoxName : ¬ StaysInside fullBoxName .zero := by
  intro h
  have hname : 0 ∉ fullBoxName.bytes.drop pipeNameSize := by decide +kernel
  exact hname (terminated_of_createBox .zero .zero .uninitialised (h.createBox _ _ _)).2

end Mbroker
