/-
The register pipe, from the clients to `main_thread_function`.

A client writes the code of its request and then, in a second write, the body
that goes with that code; the main loop reads a code, and then as many bytes as
that code has.  Nothing on the pipe says where a request starts.

* `RegisterPipe.Inv` — while no client writes its code between the two writes of
  another one, what is on the pipe is the rest of a sequence of whole requests,
  the last of which may lack its body;
* **`framed_of_alone`** — then every request is dispatched once, as it was sent;
* `not_framed_codesFirst` — two publishers, whose codes come first and whose
  bodies come second.
-/
import Mbroker.Schedule
import Mbroker.Utils
import Mathlib.Data.Fintype.Basic
import Mathlib.Data.Multiset.Basic

namespace Mbroker

/-- A name, as the arrays of a request hold it: with its NUL it fits. -/
abbrev Name (size : Nat) := { q : CString // q.strlen < size }

/-- A client, and what it asks for. -/
inductive Client where
  | publisher (pipeName : Name pipeNameSize) (boxName : Name boxNameSize)
  | subscriber (pipeName : Name pipeNameSize) (boxName : Name boxNameSize)
  | create (pipeName : Name pipeNameSize) (boxName : Name boxNameSize)
  | remove (pipeName : Name pipeNameSize) (boxName : Name boxNameSize)
  | list (pipeName : Name pipeNameSize)
deriving DecidableEq

/-- `register_request_t`. -/
def registerRequest (pipeName : Name pipeNameSize) (boxName : Name boxNameSize) : List UInt8 :=
  padded pipeNameSize pipeName.1 ++ padded boxNameSize boxName.1

namespace Client

/-- The first write. -/
def code : Client → UInt8
  | publisher _ _ => 1
  | subscriber _ _ => 2
  | create _ _ => 3
  | remove _ _ => 5
  | list _ => 7

/-- The second write. -/
def body : Client → List UInt8
  | publisher pipeName boxName => registerRequest pipeName boxName
  | subscriber pipeName boxName => registerRequest pipeName boxName
  | create pipeName boxName => registerRequest pipeName boxName
  | remove pipeName boxName => registerRequest pipeName boxName
  | list pipeName => padded pipeNameSize pipeName.1

/-- The request, as the main loop is to dispatch it. -/
def request (c : Client) : UInt8 × List UInt8 := (c.code, c.body)

end Client

/-! ### The main loop -/

/-- The cases of `main_thread_function`: how many bytes follow a code. -/
def bodySize (code : UInt8) : Option Nat :=
  if code = 1 ∨ code = 2 ∨ code = 3 ∨ code = 5 then some (pipeNameSize + boxNameSize)
  else if code = 7 then some pipeNameSize
  else none

/-- Where the main loop is. -/
inductive Position where
  | atCode
  | atBody
  | exited
deriving DecidableEq

/-- The variables of `main_thread_function`, and the requests it has dispatched. -/
structure MainLoop where
  position : Position
  code : UInt8
  boxRequest : List UInt8
  pipeName : List UInt8
  dispatched : List (UInt8 × List UInt8)

/-- What a buffer holds after a read: the bytes read, and the rest of what it held. -/
def readInto (buffer got : List UInt8) : List UInt8 := got ++ buffer.drop got.length

namespace MainLoop

/-- How many bytes the next `read_pipe` asks for. -/
def size (m : MainLoop) : Nat :=
  match m.position with
  | .atCode => 1
  | .atBody => (bodySize m.code).getD 0
  | .exited => 0

/-- What the loop does with the bytes of a read; at the end of an iteration
`code` is 0. -/
def receive (m : MainLoop) (got : List UInt8) : MainLoop :=
  match m.position with
  | .atCode =>
    let code := got.headD m.code
    if (bodySize code).isSome then { m with position := .atBody, code := code }
    else { m with code := 0 }
  | .atBody =>
    if got = [] then { m with position := .exited }
    else if m.code = 7 then
      let pipeName := readInto m.pipeName got
      { m with
        position := .atCode
        code := 0
        pipeName := pipeName
        dispatched := m.dispatched ++ [(m.code, pipeName)] }
    else
      let boxRequest := readInto m.boxRequest got
      { m with
        position := .atCode
        code := 0
        boxRequest := boxRequest
        dispatched := m.dispatched ++ [(m.code, boxRequest)] }
  | .exited => m

end MainLoop

/-! ### The pipe -/

/-- How far a client has got. -/
inductive Stage where
  | idle
  | opened
  | codeSent
  | done
deriving DecidableEq

/-- The clients, the bytes on the pipe and the main loop; `order` is the order in
which the codes were written. -/
structure RegisterPipe (ι : Type) where
  stage : ι → Stage
  bytes : List UInt8
  main : MainLoop
  order : List ι

/-- Whose turn it is. -/
inductive Turn (ι : Type) where
  | openPipe (i : ι)
  | writeCode (i : ι)
  | writeBody (i : ι)
  | read

namespace RegisterPipe

variable {ι : Type}

/-- Before any client: the variables of the main loop are not initialized. -/
def start (code : UInt8) (boxRequest pipeName : List UInt8) : RegisterPipe ι :=
  ⟨fun _ => .idle, [], ⟨.atCode, code, boxRequest, pipeName, []⟩, []⟩

/-- `read` would give 0: clients have come, and none has the pipe open. -/
def AtEof (c : RegisterPipe ι) : Prop :=
  (∃ i, c.stage i = .done) ∧ ∀ i, c.stage i = .idle ∨ c.stage i = .done

/-- Every client has sent its request, and the pipe is empty. -/
def Settled (c : RegisterPipe ι) : Prop := (∀ i, c.stage i = .done) ∧ c.bytes = []

/-- A client writes its code when no other is between its two writes. -/
def Alone : Turn ι → RegisterPipe ι → Prop
  | .writeCode _, c => ∀ j, c.stage j ≠ .codeSent
  | _, _ => True

variable [Fintype ι] [DecidableEq ι]

instance (c : RegisterPipe ι) : Decidable c.AtEof := by
  unfold AtEof
  infer_instance

instance (c : RegisterPipe ι) : Decidable c.Settled := by
  unfold Settled
  infer_instance

instance : (t : Turn ι) → (c : RegisterPipe ι) → Decidable (Alone t c)
  | .writeCode _, c => inferInstanceAs (Decidable (∀ j, c.stage j ≠ .codeSent))
  | .openPipe _, _ => inferInstanceAs (Decidable True)
  | .writeBody _, _ => inferInstanceAs (Decidable True)
  | .read, _ => inferInstanceAs (Decidable True)

/-- One turn.  A read blocks while the pipe is empty and some client has it open,
or none has opened it yet. -/
def step (client : ι → Client) : Turn ι → RegisterPipe ι → RegisterPipe ι
  | .openPipe i, c =>
    if c.stage i = .idle then { c with stage := Function.update c.stage i .opened } else c
  | .writeCode i, c =>
    if c.stage i = .opened then
      { c with
        stage := Function.update c.stage i .codeSent
        bytes := c.bytes ++ [(client i).code]
        order := c.order ++ [i] }
    else c
  | .writeBody i, c =>
    if c.stage i = .codeSent then
      { c with
        stage := Function.update c.stage i .done
        bytes := c.bytes ++ (client i).body }
    else c
  | .read, c =>
    if c.bytes = [] ∧ ¬ c.AtEof then c
    else
      { c with
        bytes := c.bytes.drop c.main.size
        main := c.main.receive (c.bytes.take c.main.size) }

omit [DecidableEq ι] in
/-- What is dispatched is a permutation of the requests, or on the way to one. -/
structure Framed (client : ι → Client) (c : RegisterPipe ι) : Prop where
  alive : c.main.position ≠ .exited
  sound : (c.main.dispatched : Multiset (UInt8 × List UInt8)) ≤
    Finset.univ.val.map fun i => (client i).request
  complete : c.Settled → (c.main.dispatched : Multiset (UInt8 × List UInt8)) =
    Finset.univ.val.map fun i => (client i).request

end RegisterPipe

/-! ### Requests -/

theorem Name.length_padded {size : Nat} (q : Name size) : (padded size q.1).length = size :=
  Mbroker.length_padded (Nat.le_of_lt q.2)

theorem bodySize_code (c : Client) : bodySize c.code = some c.body.length := by
  cases c <;> simp [bodySize, Client.code, Client.body, registerRequest, Name.length_padded]

theorem body_ne_nil (c : Client) : c.body ≠ [] := by
  have h := bodySize_code c
  intro hnil
  rw [hnil] at h
  cases c <;> simp [bodySize, Client.code, pipeNameSize] at h

/-- A read that gives a whole body replaces what the buffer held. -/
theorem readInto_eq {buffer got : List UInt8} (h : got.length = buffer.length) :
    readInto buffer got = got := by
  rw [readInto, h, List.drop_length, List.append_nil]

namespace RegisterPipe

variable {ι : Type} {client : ι → Client} {c : RegisterPipe ι} {served full : List ι}
  {last : Option ι} {i : ι}

/-- What is on the pipe when the main loop is at a code: the requests `full`, and
the code of `last`. -/
def unread (client : ι → Client) (full : List ι) (last : Option ι) : List UInt8 :=
  (full.flatMap fun i => (client i).code :: (client i).body) ++
    (last.map fun i => (client i).code).toList

theorem unread_cons (full : List ι) (last : Option ι) : unread client (i :: full) last =
    (client i).code :: ((client i).body ++ unread client full last) := by
  simp [unread]

theorem unread_code (full : List ι) :
    unread client full none ++ [(client i).code] = unread client full (some i) := by
  simp [unread]

theorem unread_body (full : List ι) :
    unread client full (some i) ++ (client i).body = unread client (full ++ [i]) none := by
  simp [unread]

/-- Where the main loop is in what it has still to read: at a code, at a body, or
at a body that has not been written. -/
inductive Reading (client : ι → Client) (m : MainLoop) (bytes : List UInt8) :
    List ι → Option ι → Prop
  | atCode {full : List ι} {last : Option ι} (hpos : m.position = .atCode)
      (hcode : m.code = 0 ∨ m.dispatched = []) (hbytes : bytes = unread client full last) :
      Reading client m bytes full last
  | atBody {full : List ι} {last : Option ι} (j : ι) (hpos : m.position = .atBody)
      (hcode : m.code = (client j).code)
      (hbytes : bytes = (client j).body ++ unread client full last) :
      Reading client m bytes (j :: full) last
  | waiting (j : ι) (hpos : m.position = .atBody) (hcode : m.code = (client j).code)
      (hbytes : bytes = []) : Reading client m bytes [] (some j)

/-- The invariant: the requests of `served` have been dispatched, those of `full`
are whole, and `last` is between its two writes. -/
structure Inv (client : ι → Client) (c : RegisterPipe ι) (served full : List ι) (last : Option ι) :
    Prop where
  order : c.order = served ++ full ++ last.toList
  nodup : c.order.Nodup
  done : ∀ i, c.stage i = .done ↔ i ∈ served ++ full
  codeSent : ∀ i, c.stage i = .codeSent ↔ last = some i
  dispatched : c.main.dispatched = served.map fun i => (client i).request
  boxRequest : c.main.boxRequest.length = pipeNameSize + boxNameSize
  pipeName : c.main.pipeName.length = pipeNameSize
  reading : Reading client c.main c.bytes full last

theorem Inv.mem_order (h : c.Inv client served full last) (i : ι) :
    i ∈ c.order ↔ c.stage i = .done ∨ c.stage i = .codeSent := by
  rw [h.order, List.mem_append, h.done, h.codeSent, Option.mem_toList]

/-! ### The turns of the clients -/

section Clients

variable [DecidableEq ι]

theorem Inv.openPipe (h : c.Inv client served full last) (hi : c.stage i = .idle) :
    Inv client { c with stage := Function.update c.stage i .opened } served full last := by
  have hstage : ∀ j st, st ≠ .idle → st ≠ .opened →
      (Function.update c.stage i .opened j = st ↔ c.stage j = st) := by
    intro j st hidle hopened
    by_cases hj : j = i
    · subst hj
      simp [hi, hidle.symm, hopened.symm]
    · simp [hj]
  exact ⟨h.order, h.nodup, fun j => (hstage j .done (by decide) (by decide)).trans (h.done j),
    fun j => (hstage j .codeSent (by decide) (by decide)).trans (h.codeSent j), h.dispatched,
    h.boxRequest, h.pipeName, h.reading⟩

theorem Inv.writeCode (h : c.Inv client served full last) (hi : c.stage i = .opened)
    (halone : ∀ j, c.stage j ≠ .codeSent) :
    Inv client { c with
      stage := Function.update c.stage i .codeSent
      bytes := c.bytes ++ [(client i).code]
      order := c.order ++ [i] } served full (some i) := by
  have hlast : last = none := by
    cases last with
    | none => rfl
    | some j => exact absurd ((h.codeSent j).mpr rfl) (halone j)
  subst hlast
  have hnew : i ∉ c.order := by
    rw [h.mem_order, hi]
    simp
  refine ⟨?_, ?_, fun j => ?_, fun j => ?_, h.dispatched, h.boxRequest, h.pipeName, ?_⟩
  · have horder := h.order
    simp only [Option.toList_none, List.append_nil] at horder
    rw [horder]
    rfl
  · rw [List.nodup_append]
    exact ⟨h.nodup, List.nodup_singleton i, fun a ha b hb heq =>
      hnew (List.mem_singleton.mp hb ▸ heq ▸ ha)⟩
  · rw [← h.done]
    by_cases hj : j = i
    · subst hj
      simp [hi]
    · simp [hj]
  · by_cases hj : j = i
    · subst hj
      simp
    · simp [hj, halone j, Ne.symm hj]
  · -- The code comes after whole requests.
    cases h.reading with
    | atCode hpos hcode hbytes => exact .atCode hpos hcode (by rw [hbytes, unread_code])
    | atBody j hpos hcode hbytes =>
      exact .atBody j hpos hcode (by rw [hbytes, List.append_assoc, unread_code])

theorem Inv.writeBody (h : c.Inv client served full last) (hi : c.stage i = .codeSent) :
    Inv client { c with
      stage := Function.update c.stage i .done
      bytes := c.bytes ++ (client i).body } served (full ++ [i]) none := by
  obtain rfl := (h.codeSent i).mp hi
  refine ⟨?_, h.nodup, fun j => ?_, fun j => ?_, h.dispatched, h.boxRequest, h.pipeName, ?_⟩
  · rw [h.order]
    simp
  · rw [← List.append_assoc, List.mem_append, ← h.done, List.mem_singleton]
    by_cases hj : j = i
    · subst hj
      simp
    · simp [hj]
  · by_cases hj : j = i
    · subst hj
      simp
    · simp [hj, h.codeSent, Ne.symm hj]
  · cases h.reading with
    | atCode hpos hcode hbytes => exact .atCode hpos hcode (by rw [hbytes, unread_body])
    | atBody j hpos hcode hbytes =>
      refine .atBody j hpos hcode ?_
      show c.bytes ++ (client i).body = _
      rw [hbytes, List.append_assoc, unread_body]
      rfl
    | waiting j hpos hcode hbytes =>
      -- It is the body that the main loop waits for.
      refine .atBody i hpos hcode ?_
      rw [hbytes]
      simp [unread]

end Clients

/-! ### The turns of the main loop -/

/-- At the end of the file there is no code. -/
theorem receive_nil {m : MainLoop} (hpos : m.position = .atCode) (hcode : m.code = 0) :
    m.receive [] = m := by
  obtain ⟨pos, code, boxRequest, pipeName, dispatched⟩ := m
  obtain rfl : pos = .atCode := hpos
  obtain rfl : code = 0 := hcode
  rfl

/-- A code is read. -/
theorem receive_code {m : MainLoop} (hpos : m.position = .atCode) (j : ι) :
    m.receive [(client j).code] = { m with position := .atBody, code := (client j).code } := by
  simp [MainLoop.receive, hpos, bodySize_code]

/-- A body is read, and the request is dispatched. -/
theorem receive_body {m : MainLoop} {j : ι} (hpos : m.position = .atBody)
    (hcode : m.code = (client j).code) (hbox : m.boxRequest.length = pipeNameSize + boxNameSize)
    (hname : m.pipeName.length = pipeNameSize) :
    (m.receive (client j).body).position = .atCode ∧ (m.receive (client j).body).code = 0 ∧
      (m.receive (client j).body).dispatched = m.dispatched ++ [(client j).request] ∧
      (m.receive (client j).body).boxRequest.length = pipeNameSize + boxNameSize ∧
      (m.receive (client j).body).pipeName.length = pipeNameSize := by
  have hsize := bodySize_code (client j)
  rw [MainLoop.receive, hpos]
  dsimp only
  rw [if_neg (body_ne_nil _), hcode]
  by_cases h7 : (client j).code = 7
  · have hlen : (client j).body.length = m.pipeName.length := by
      rw [h7] at hsize
      rw [hname, ← Option.some.inj hsize]
    rw [if_pos h7, readInto_eq hlen]
    exact ⟨rfl, rfl, rfl, hbox, hlen.trans hname⟩
  · have hlen : (client j).body.length = m.boxRequest.length := by
      rw [hbox]
      revert h7 hsize
      cases client j <;> simp [bodySize, Client.code] <;> omega
    rw [if_neg h7, readInto_eq hlen]
    exact ⟨rfl, rfl, rfl, hlen.trans hbox, hname⟩

/-- One read. -/
theorem Inv.read (h : c.Inv client served full last) (hread : c.bytes ≠ [] ∨ c.AtEof) :
    ∃ served' full', Inv client { c with
      bytes := c.bytes.drop c.main.size
      main := c.main.receive (c.bytes.take c.main.size) } served' full' last := by
  cases h.reading with
  | atCode hpos hcode hbytes =>
    have hsize : c.main.size = 1 := by rw [MainLoop.size, hpos]
    rw [hsize]
    cases full with
    | nil =>
      cases last with
      | none =>
        -- Nothing to read: `code` is still 0.
        have hnil : c.bytes = [] := hbytes
        obtain ⟨⟨i, hi⟩, -⟩ := hread.resolve_left fun hne => hne hnil
        have hserved : i ∈ served := by simpa using (h.done i).mp hi
        have hzero : c.main.code = 0 := by
          refine hcode.resolve_right fun hd => ?_
          rw [h.dispatched, List.map_eq_nil_iff] at hd
          rw [hd] at hserved
          cases hserved
        refine ⟨served, [], ?_⟩
        rw [hnil, List.take_nil, List.drop_nil, receive_nil hpos hzero, ← hnil]
        exact h
      | some j =>
        have hone : c.bytes = [(client j).code] := by simpa [unread] using hbytes
        rw [hone, List.take_one, List.drop_one]
        simp only [List.head?_cons, Option.toList_some, List.tail_cons]
        rw [receive_code hpos]
        exact ⟨served, [], h.order, h.nodup, h.done, h.codeSent, h.dispatched, h.boxRequest,
          h.pipeName, .waiting j rfl rfl rfl⟩
    | cons j full =>
      rw [unread_cons] at hbytes
      rw [hbytes, List.take_one, List.drop_one]
      simp only [List.head?_cons, Option.toList_some, List.tail_cons]
      rw [receive_code hpos]
      exact ⟨served, j :: full, h.order, h.nodup, h.done, h.codeSent, h.dispatched, h.boxRequest,
        h.pipeName, .atBody j rfl rfl rfl⟩
  | atBody j hpos hcode hbytes =>
    rename_i rest
    have hsize : c.main.size = (client j).body.length := by
      rw [MainLoop.size, hpos, hcode]
      dsimp only
      rw [bodySize_code]
      rfl
    obtain ⟨hpos', hcode', hdisp, hbox, hname⟩ := receive_body hpos hcode h.boxRequest h.pipeName
    rw [hsize, hbytes, List.take_left, List.drop_left]
    refine ⟨served ++ [j], rest, ?_, h.nodup, fun i => ?_, h.codeSent, ?_, hbox, hname,
      .atCode hpos' (Or.inl hcode') rfl⟩
    · rw [h.order]
      simp
    · rw [h.done]
      simp
    · rw [hdisp, h.dispatched, List.map_append]
      rfl
  | waiting j hpos hcode hbytes =>
    -- Client `j` has the pipe open.
    have hj := (h.codeSent j).mpr rfl
    obtain ⟨-, hclosed⟩ := hread.resolve_left fun hne => hne hbytes
    rcases hclosed j with hidle | hdone
    · rw [hj] at hidle
      cases hidle
    · rw [hj] at hdone
      cases hdone

theorem inv_start {code : UInt8} {boxRequest pipeName : List UInt8}
    (hbox : boxRequest.length = pipeNameSize + boxNameSize)
    (hname : pipeName.length = pipeNameSize) :
    (start code boxRequest pipeName : RegisterPipe ι).Inv client [] [] none :=
  ⟨rfl, List.nodup_nil, fun _ => by simp [start], fun _ => by simp [start], rfl, hbox, hname,
    .atCode rfl (Or.inr rfl) rfl⟩

/-- **The step lemma.** -/
theorem inv_step [Fintype ι] [DecidableEq ι] {t : Turn ι}
    (h : ∃ served full last, c.Inv client served full last)
    (halone : Alone t c) : ∃ served full last, (step client t c).Inv client served full last := by
  obtain ⟨served, full, last, h⟩ := h
  cases t with
  | openPipe i =>
    rw [step]
    split
    · exact ⟨_, _, _, h.openPipe ‹_›⟩
    · exact ⟨_, _, _, h⟩
  | writeCode i =>
    rw [step]
    split
    · exact ⟨_, _, _, h.writeCode ‹_› halone⟩
    · exact ⟨_, _, _, h⟩
  | writeBody i =>
    rw [step]
    split
    · exact ⟨_, _, _, h.writeBody ‹_›⟩
    · exact ⟨_, _, _, h⟩
  | read =>
    rw [step]
    split
    · exact ⟨_, _, _, h⟩
    case isFalse hread =>
      obtain ⟨served', full', h'⟩ := h.read (by tauto)
      exact ⟨_, _, _, h'⟩

theorem Inv.framed [Fintype ι] (h : c.Inv client served full last) : c.Framed client := by
  have horder := h.nodup
  rw [h.order, List.append_assoc] at horder
  have hnodup : (served : Multiset ι).Nodup := (List.nodup_append.mp horder).1
  refine ⟨?_, ?_, fun hsettled => ?_⟩
  · cases h.reading with
    | atCode hpos => simp [hpos]
    | atBody j hpos => simp [hpos]
    | waiting j hpos => simp [hpos]
  · rw [h.dispatched, ← Multiset.map_coe]
    exact Multiset.map_le_map ((Multiset.le_iff_subset hnodup).mpr fun i _ => Finset.mem_univ_val i)
  · obtain ⟨hdone, hbytes⟩ := hsettled
    have hlast : last = none := by
      cases last with
      | none => rfl
      | some j =>
        have hj := (h.codeSent j).mpr rfl
        rw [hdone j] at hj
        cases hj
    subst hlast
    have hfull : full = [] := by
      cases h.reading with
      | atCode _ _ hunread =>
        cases full with
        | nil => rfl
        | cons j full =>
          rw [hbytes, unread_cons] at hunread
          cases hunread
      | atBody j _ _ hunread =>
        rw [hbytes] at hunread
        exact absurd (List.append_eq_nil_iff.mp hunread.symm).1 (body_ne_nil _)
    subst hfull
    have hall : (served : Multiset ι) = Finset.univ.val := by
      refine (Multiset.Nodup.ext hnodup Finset.univ.nodup).mpr fun i => ?_
      simpa using (h.done i).mp (hdone i)
    rw [h.dispatched, ← Multiset.map_coe, hall]

end RegisterPipe

open RegisterPipe in
/-- **Framing.**  When every client writes its code while no other is between its
two writes, the main loop dispatches the requests, in the order of the codes. -/
theorem framed_of_alone {ι : Type} [Fintype ι] [DecidableEq ι] {client : ι → Client}
    {turns : List (Turn ι)} {code : UInt8} {boxRequest pipeName : List UInt8}
    (hbox : boxRequest.length = pipeNameSize + boxNameSize) (hname : pipeName.length = pipeNameSize)
    (halone : Schedule.Meets Alone (step client) turns (start code boxRequest pipeName)) :
    (Schedule.run (step client) turns (start code boxRequest pipeName)).Framed client ∧
      (Schedule.run (step client) turns (start code boxRequest pipeName)).main.dispatched <+:
        (Schedule.run (step client) turns (start code boxRequest pipeName)).order.map
          fun i => (client i).request := by
  have h := Schedule.run_invariant (I := fun c => ∃ served full last, c.Inv client served full last)
    (fun t c h halone => inv_step h halone) halone ⟨_, _, _, inv_start hbox hname⟩
  obtain ⟨served, full, last, h⟩ := h
  refine ⟨h.framed, ?_⟩
  rw [h.dispatched, h.order, List.append_assoc, List.map_append]
  exact List.prefix_append _ _

/-- Names of one letter. -/
def pipeP : Name pipeNameSize := ⟨.ofBuffer [112], by decide⟩
def pipeQ : Name pipeNameSize := ⟨.ofBuffer [113], by decide⟩
def nameA : Name boxNameSize := ⟨.ofBuffer [97], by decide⟩
def nameB : Name boxNameSize := ⟨.ofBuffer [98], by decide⟩

/-- Two publishers, of the boxes `a` and `b`. -/
def twoPublishers : Fin 2 → Client
  | 0 => .publisher pipeP nameA
  | 1 => .publisher pipeQ nameB

/-- The clients' turns, from a main loop whose variables happen to be zero. -/
def twoPublishersAfter (turns : List (Turn (Fin 2))) : RegisterPipe (Fin 2) :=
  Schedule.run (RegisterPipe.step twoPublishers) turns
    (RegisterPipe.start 0 (List.replicate 288 0) (List.replicate 256 0))

/-- One publisher after the other; the second code is written before the first
request has been read. -/
def oneByOne : List (Turn (Fin 2)) :=
  [.openPipe 0, .openPipe 1, .writeCode 1, .writeBody 1, .read, .writeCode 0, .read, .writeBody 0,
    .read, .read]

theorem framed_oneByOne :
    (twoPublishersAfter oneByOne).Settled ∧ (twoPublishersAfter oneByOne).Framed twoPublishers :=
  ⟨by decide +kernel,
    (framed_of_alone List.length_replicate List.length_replicate (by decide +kernel)).1⟩

/-- Both codes, and then both bodies. -/
def codesFirst : List (Turn (Fin 2)) :=
  [.openPipe 0, .openPipe 1, .writeCode 0, .writeCode 1, .writeBody 0, .writeBody 1] ++
    List.replicate 291 .read

/-- The first body read starts with the second code, and every byte after it is
taken for a code. -/
theorem not_framed_codesFirst :
    (twoPublishersAfter codesFirst).Settled ∧
      (twoPublishersAfter codesFirst).main.dispatched =
        [(1, 1 :: (twoPublishers 0).body.take 287)] ∧
      ¬ (twoPublishersAfter codesFirst).Framed twoPublishers := by
  have hsettled : (twoPublishersAfter codesFirst).Settled := by decide +kernel
  have hdispatched : (twoPublishersAfter codesFirst).main.dispatched =
      [(1, 1 :: (twoPublishers 0).body.take 287)] := by
    decide +kernel
  refine ⟨hsettled, hdispatched, fun hframed => ?_⟩
  -- One request has been dispatched, of two.
  have hcard := congrArg Multiset.card (hframed.complete hsettled)
  rw [hdispatched, Multiset.card_map] at hcard
  simp at hcard

end Mbroker
