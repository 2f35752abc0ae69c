/-
From the main loop to the handlers.

Every handler gets a pointer to the same variables of the main loop: `args`, or
`pipe_name` for a listing.  The loop fills them, waits for room in the queue and
starts the handler, which copies the fields one by one in its own time; a
publisher reads the name of its pipe once more after it has registered.

The elements of the queue are never looked at, so the queue is its size.

* `HandOff.Inv` — as long as no field is filled while a handler has still to copy
  it, the fields hold what every handler has still to copy;
* **`handedOff_of_unread`** — then each request is handled once, with its names;
* `not_handedOff_refilled` — the second request replaces the first one's names.
-/
import Mbroker.RegisterPipe

namespace Mbroker

/-- What a handler can be given a pointer to. -/
inductive Field where
  | argsPipeName
  | argsBoxName
  | pipeName
deriving DecidableEq

namespace Client

/-- The name that a request has for a field. -/
def field : Client → Field → CString
  | publisher pipeName boxName, f => if f = .argsBoxName then boxName.1 else pipeName.1
  | subscriber pipeName boxName, f => if f = .argsBoxName then boxName.1 else pipeName.1
  | create pipeName boxName, f => if f = .argsBoxName then boxName.1 else pipeName.1
  | remove pipeName boxName, f => if f = .argsBoxName then boxName.1 else pipeName.1
  | list pipeName, _ => pipeName.1

/-- What the handler of a request copies before it does anything else. -/
def copies : Client → List Field
  | publisher _ _ => [.argsPipeName, .argsBoxName]
  | subscriber _ _ => [.argsPipeName, .argsBoxName]
  | create _ _ => [.argsPipeName, .argsBoxName]
  | remove _ _ => [.argsPipeName, .argsBoxName]
  | list _ => [.pipeName]

/-- What it copies later: `publisher_function` copies the pipe's name into the
record of the box. -/
def lateCopies : Client → List Field
  | publisher _ _ => [.argsPipeName]
  | _ => []

end Client

/-- A handler that has been started: what it has still to copy, and what it has. -/
structure Handler where
  request : Client
  todo : List Field
  got : List CString
  returned : Bool

/-- A handler gets the names of its request, if the fields stay as they are. -/
structure Handler.Ok (args : Field → CString) (h : Handler) : Prop where
  fresh : ∀ f ∈ h.todo, args f = h.request.field f
  names : h.got ++ h.todo.map h.request.field <+:
    (h.request.copies ++ h.request.lateCopies).map h.request.field
  copies : h.request.copies.map h.request.field <+: h.got ++ h.todo.map h.request.field
  whole : h.todo ≠ [] →
    h.got.length + h.todo.length = h.request.copies.length + h.request.lateCopies.length
  returned : h.returned = true → h.todo = []

namespace Handler

variable {h : Handler} {args args' : Field → CString} {f : Field} {todo : List Field}
  {request : Client}

theorem Ok.congr (hh : h.Ok args) (hargs : ∀ f ∈ h.todo, args' f = args f) : h.Ok args' :=
  ⟨fun f hf => (hargs f hf).trans (hh.fresh f hf), hh.names, hh.copies, hh.whole, hh.returned⟩

/-- The handler of a request that is filled in. -/
theorem ok_spawn (hfilled : ∀ f ∈ request.copies ++ request.lateCopies, args f = request.field f) :
    Ok args ⟨request, request.copies ++ request.lateCopies, [], false⟩ := by
  refine ⟨hfilled, List.prefix_rfl, ?_, fun _ => by simp, fun hr => by cases hr⟩
  rw [List.nil_append, List.map_append]
  exact List.prefix_append _ _

/-- A field is copied. -/
theorem Ok.copy (hh : h.Ok args) (htodo : h.todo = f :: todo) :
    Ok args { h with todo := todo, got := h.got ++ [args f] } := by
  have hf : args f = h.request.field f := hh.fresh f (htodo ▸ List.mem_cons_self)
  -- What has been copied and what is to be copied stay the same list.
  have hgot : (h.got ++ [args f]) ++ todo.map h.request.field =
      h.got ++ h.todo.map h.request.field := by
    rw [htodo, hf]
    simp
  refine ⟨?_, hgot ▸ hh.names, hgot ▸ hh.copies, fun _ => ?_, fun hret => ?_⟩
  · exact fun f' hf' => hh.fresh f' (htodo ▸ List.mem_cons_of_mem f hf')
  · have hwhole := hh.whole (by simp [htodo])
    rw [htodo, List.length_cons] at hwhole
    show (h.got ++ [args f]).length + todo.length =
      h.request.copies.length + h.request.lateCopies.length
    rw [List.length_append, List.length_singleton]
    omega
  · have hnil := hh.returned hret
    rw [htodo] at hnil
    cases hnil

/-- The late copies are left out. -/
theorem Ok.reject (hh : h.Ok args) (hlate : h.todo = h.request.lateCopies) :
    Ok args { h with todo := [] } := by
  have hgot : h.got <+: (h.request.copies ++ h.request.lateCopies).map h.request.field :=
    (List.prefix_append _ _).trans hh.names
  refine ⟨fun _ hf => (by cases hf), ?_, ?_, fun hne => absurd rfl hne, fun _ => rfl⟩
  · rw [List.map_nil, List.append_nil]
    exact hgot
  · rw [List.map_nil, List.append_nil]
    by_cases hnil : h.todo = []
    · have hcopies := hh.copies
      rwa [hnil, List.map_nil, List.append_nil] at hcopies
    · -- Both are beginnings of one list, and of the same length.
      have hwhole := hh.whole hnil
      rw [hlate] at hwhole
      refine List.prefix_of_prefix_length_le ?_ hgot ?_
      · rw [List.map_append]
        exact List.prefix_append _ _
      · show (h.request.copies.map h.request.field).length ≤ h.got.length
        rw [List.length_map]
        omega

end Handler

/-- Where the main loop is in the handling of a request. -/
inductive Phase where
  | ready
  | filling (request : Client)
  | filled (request : Client)
  | enqueued (request : Client)

/-- The main loop with the requests that are still to come, the variables it
shares with the handlers, and the handlers in the order of their creation. -/
structure HandOff where
  requests : List Client
  phase : Phase
  args : Field → CString
  queueSize : Nat
  handlers : List Handler

/-- Whose turn it is: the main loop, a handler, or a publisher's handler that
does not get to register. -/
inductive HandOffTurn where
  | main
  | handler (k : Nat)
  | reject (k : Nat)

namespace HandOff

/-- Before the first request: `args` and `pipe_name` are not initialized. -/
def start (requests : List Client) (args : Field → CString) : HandOff :=
  ⟨requests, .ready, args, 0, []⟩

/-- The main loop's turn: it copies one name, puts the handler in the queue when
there is room, or creates it. -/
def mainTurn (capacity : Nat) (c : HandOff) : HandOff :=
  match c.phase with
  | .ready =>
    match c.requests with
    | [] => c
    | .list pipeName :: rest =>
      { c with
        requests := rest
        phase := .filled (.list pipeName)
        args := Function.update c.args .pipeName pipeName.1 }
    | request :: rest =>
      { c with
        requests := rest
        phase := .filling request
        args := Function.update c.args .argsPipeName (request.field .argsPipeName) }
  | .filling request =>
    { c with
      phase := .filled request
      args := Function.update c.args .argsBoxName (request.field .argsBoxName) }
  | .filled request =>
    if c.queueSize = capacity then c -- `pcq_enqueue` waits
    else { c with phase := .enqueued request, queueSize := c.queueSize + 1 }
  | .enqueued request =>
    { c with
      phase := .ready
      handlers := c.handlers ++
        [⟨request, request.copies ++ request.lateCopies, [], false⟩] }

/-- A handler's turn: it copies a field, or it ends with `pcq_dequeue`. -/
def handlerTurn (k : Nat) (c : HandOff) : HandOff :=
  match c.handlers[k]? with
  | none => c
  | some h =>
    match h.todo with
    | f :: todo => { c with handlers := c.handlers.set k { h with todo := todo, got := h.got ++ [c.args f] } }
    | [] =>
      if h.returned ∨ c.queueSize = 0 then c
      else
        { c with
          queueSize := c.queueSize - 1
          handlers := c.handlers.set k { h with returned := true } }

/-- A publisher that may not publish copies nothing more. -/
def rejectTurn (k : Nat) (c : HandOff) : HandOff :=
  match c.handlers[k]? with
  | none => c
  | some h =>
    if h.todo = h.request.lateCopies then
      { c with handlers := c.handlers.set k { h with todo := [] } }
    else c

def step (capacity : Nat) : HandOffTurn → HandOff → HandOff
  | .main, c => c.mainTurn capacity
  | .handler k, c => c.handlerTurn k
  | .reject k, c => c.rejectTurn k

/-- The field that the main loop's next turn fills. -/
def fills (c : HandOff) : Option Field :=
  match c.phase with
  | .ready =>
    match c.requests with
    | [] => none
    | .list _ :: _ => some .pipeName
    | _ :: _ => some .argsPipeName
  | .filling _ => some .argsBoxName
  | .filled _ => none
  | .enqueued _ => none

/-- The main loop fills a field only when no handler has still to copy it. -/
def Unread : HandOffTurn → HandOff → Prop
  | .main, c => ∀ h ∈ c.handlers, ∀ f ∈ h.todo, c.fills ≠ some f
  | _, _ => True

instance : (t : HandOffTurn) → (c : HandOff) → Decidable (Unread t c)
  | .main, c => inferInstanceAs (Decidable (∀ h ∈ c.handlers, ∀ f ∈ h.todo, c.fills ≠ some f))
  | .handler _, _ => inferInstanceAs (Decidable True)
  | .reject _, _ => inferInstanceAs (Decidable True)

/-- The request that the main loop is at. -/
def current (c : HandOff) : Option Client :=
  match c.phase with
  | .ready => none
  | .filling request => some request
  | .filled request => some request
  | .enqueued request => some request

/-- Every request has one handler, or will have; and a handler has copied the
names of its request, all of them before it returns. -/
structure HandedOff (requests : List Client) (c : HandOff) : Prop where
  once : c.handlers.map Handler.request ++ c.current.toList ++ c.requests = requests
  names : ∀ h ∈ c.handlers,
    h.got <+: (h.request.copies ++ h.request.lateCopies).map h.request.field
  complete : ∀ h ∈ c.handlers, h.returned = true → h.request.copies.map h.request.field <+: h.got

/-! ### The invariant -/

variable {requests : List Client} {c : HandOff} {h h' : Handler} {f : Field} {k capacity : Nat}

/-- What the main loop has filled for the request that it is at. -/
def Filled (c : HandOff) : Prop :=
  match c.phase with
  | .ready => True
  | .filling request => ∀ f ∈ request.copies ++ request.lateCopies,
      f ≠ .argsBoxName → c.args f = request.field f
  | .filled request => ∀ f ∈ request.copies ++ request.lateCopies, c.args f = request.field f
  | .enqueued request => ∀ f ∈ request.copies ++ request.lateCopies, c.args f = request.field f

structure Inv (requests : List Client) (c : HandOff) : Prop where
  once : c.handlers.map Handler.request ++ c.current.toList ++ c.requests = requests
  handlers : ∀ h ∈ c.handlers, h.Ok c.args
  filled : c.Filled

/-- Filling a field that no handler has still to copy. -/
theorem Inv.ok_update (hc : c.Inv requests) {v : CString}
    (hunread : ∀ h ∈ c.handlers, ∀ f ∈ h.todo, c.fills ≠ some f) (hf : c.fills = some f)
    (hh : h ∈ c.handlers) : h.Ok (Function.update c.args f v) := by
  refine (hc.handlers h hh).congr fun f' hf' => Function.update_of_ne ?_ _ _
  rintro rfl
  exact hunread h hh f' hf' hf

theorem Inv.main (hc : c.Inv requests)
    (hunread : ∀ h ∈ c.handlers, ∀ f ∈ h.todo, c.fills ≠ some f) :
    (c.mainTurn capacity).Inv requests := by
  obtain ⟨rs, phase, args, queueSize, handlers⟩ := c
  have honce := hc.once
  have hfilled := hc.filled
  cases phase with
  | ready =>
    cases rs with
    | nil => exact hc
    | cons request rest =>
      cases request with
      | list pipeName =>
        refine ⟨by simpa [mainTurn, current] using honce, fun h hh => hc.ok_update hunread rfl hh, ?_⟩
        intro f hf
        obtain rfl : f = .pipeName := by simpa [Client.copies, Client.lateCopies] using hf
        simp [mainTurn, Client.field]
      | _ =>
        refine ⟨by simpa [mainTurn, current] using honce, fun h hh => hc.ok_update hunread rfl hh, ?_⟩
        intro f hf hne
        obtain rfl : f = .argsPipeName := by
          simpa [Client.copies, Client.lateCopies, hne] using hf
        simp [mainTurn]
  | filling request =>
    refine ⟨honce, fun h hh => hc.ok_update hunread rfl hh, ?_⟩
    intro f hf
    by_cases hbox : f = .argsBoxName
    · subst hbox
      simp [mainTurn]
    · exact (Function.update_of_ne hbox _ _).trans (hfilled f hf hbox)
  | filled request =>
    rw [mainTurn]
    dsimp only
    split
    · exact hc
    · exact ⟨honce, hc.handlers, hfilled⟩
  | enqueued request =>
    refine ⟨by simpa [mainTurn, current] using honce, ?_, trivial⟩
    intro h hh
    rcases List.mem_append.mp hh with hh | hh
    · exact hc.handlers h hh
    · obtain rfl := List.mem_singleton.mp hh
      exact Handler.ok_spawn hfilled

/-- One handler has gone on with its request. -/
theorem Inv.setHandler (queueSize : Nat) (hc : c.Inv requests) (hk : c.handlers[k]? = some h)
    (hreq : h'.request = h.request) (hok : h'.Ok c.args) :
    Inv requests { c with queueSize := queueSize, handlers := c.handlers.set k h' } := by
  refine ⟨?_, ?_, hc.filled⟩
  · have hmap : (c.handlers.set k h').map Handler.request = c.handlers.map Handler.request := by
      rw [List.map_set, hreq]
      obtain ⟨hlt, rfl⟩ := List.getElem?_eq_some_iff.mp hk
      have hlt' : k < (c.handlers.map Handler.request).length := by rwa [List.length_map]
      rw [← List.getElem_map Handler.request (h := hlt'), List.set_getElem_self]
    show (c.handlers.set k h').map Handler.request ++ c.current.toList ++ c.requests = requests
    rw [hmap]
    exact hc.once
  · intro h₁ hh₁
    rcases List.mem_or_eq_of_mem_set hh₁ with hh₁ | rfl
    · exact hc.handlers h₁ hh₁
    · exact hok

theorem Inv.handler (hc : c.Inv requests) : (c.handlerTurn k).Inv requests := by
  rw [handlerTurn]
  cases hk : c.handlers[k]? with
  | none => exact hc
  | some h =>
    have hok := hc.handlers h (List.mem_of_getElem? hk)
    cases htodo : h.todo with
    | nil =>
      simp only [htodo]
      split
      · exact hc
      · refine hc.setHandler _ hk rfl ⟨?_, ?_, ?_, fun hne => absurd rfl hne, fun _ => rfl⟩
        · simp
        · exact htodo ▸ hok.names
        · exact htodo ▸ hok.copies
    | cons f todo =>
      simp only [htodo]
      exact hc.setHandler c.queueSize hk rfl (hok.copy htodo)

theorem Inv.reject (hc : c.Inv requests) : (c.rejectTurn k).Inv requests := by
  rw [rejectTurn]
  cases hk : c.handlers[k]? with
  | none => exact hc
  | some h =>
    have hok := hc.handlers h (List.mem_of_getElem? hk)
    dsimp only
    split
    case isTrue hlate => exact hc.setHandler c.queueSize hk rfl (hok.reject hlate)
    case isFalse => exact hc

/-- **The step lemma.** -/
theorem Inv.step {t : HandOffTurn} (hc : c.Inv requests) (hunread : Unread t c) :
    (step capacity t c).Inv requests := by
  cases t with
  | main => exact hc.main hunread
  | handler k => exact hc.handler
  | reject k => exact hc.reject

theorem inv_start (requests : List Client) (args : Field → CString) :
    (start requests args).Inv requests :=
  ⟨rfl, fun h hh => (by cases hh), trivial⟩

theorem Inv.handedOff (hc : c.Inv requests) : c.HandedOff requests := by
  refine ⟨hc.once, fun h hh => ?_, fun h hh hret => ?_⟩
  · exact (List.prefix_append _ _).trans (hc.handlers h hh).names
  · have hcopies := (hc.handlers h hh).copies
    rwa [(hc.handlers h hh).returned hret, List.map_nil, List.append_nil] at hcopies

end HandOff

open HandOff in
/-- **The hand-off.**  When the main loop fills no field that a handler has still
to copy, every request has one handler, which acts on its names. -/
theorem handedOff_of_unread {requests : List Client} {args : Field → CString} {capacity : Nat}
    {turns : List HandOffTurn}
    (hunread : Schedule.Meets Unread (step capacity) turns (start requests args)) :
    (Schedule.run (step capacity) turns (start requests args)).HandedOff requests :=
  (Schedule.run_invariant (I := Inv requests) (fun _ _ hc hunread => hc.step hunread) hunread
    (inv_start requests args)).handedOff

/-- Two managers, which ask for the boxes `a` and `b`. -/
def twoCreations : List Client := [.create pipeP nameA, .create pipeQ nameB]

/-- The turns on the two requests, with room for one handler in the queue. -/
def twoCreationsAfter (turns : List HandOffTurn) : HandOff :=
  Schedule.run (HandOff.step 1) turns (HandOff.start twoCreations fun _ => .empty)

/-- The first handler has returned when the second request is filled in. -/
def inTurn : List HandOffTurn :=
  [.main, .main, .main, .main, .handler 0, .handler 0, .main, .main, .main, .handler 0, .main,
    .main, .handler 1, .handler 1, .handler 1]

theorem handedOff_inTurn : (twoCreationsAfter inTurn).HandedOff twoCreations ∧
    (twoCreationsAfter inTurn).handlers.map Handler.got =
      [[.ofBuffer [112], .ofBuffer [97]], [.ofBuffer [113], .ofBuffer [98]]] :=
  ⟨handedOff_of_unread (by decide +kernel), by decide +kernel⟩

/-- The second request is filled in before the first handler has copied its
names. -/
def refilled : List HandOffTurn :=
  [.main, .main, .main, .main, .main, .main, .handler 0, .handler 0, .handler 0, .main, .main,
    .handler 1, .handler 1, .handler 1]

/-- Both handlers create the box `b`. -/
theorem not_handedOff_refilled :
    (twoCreationsAfter refilled).handlers.map Handler.got =
        [[.ofBuffer [113], .ofBuffer [98]], [.ofBuffer [113], .ofBuffer [98]]] ∧
      ¬ (twoCreationsAfter refilled).HandedOff twoCreations := by
  refine ⟨by decide +kernel, fun hc => ?_⟩
  have hnames : ∀ h ∈ (twoCreationsAfter refilled).handlers,
      h.got <+: (h.request.copies ++ h.request.lateCopies).map h.request.field := hc.names
  revert hnames
  decide +kernel

end Mbroker
