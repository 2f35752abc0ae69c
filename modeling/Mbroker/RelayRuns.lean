/-
Runs of a relay.

* `PublisherLink.Pending` — what a publisher has still to publish: the message that its
  handler has in hand, those on their way to it, and those that its input will be made into;
* `SubscriberLink.Prints` — what a subscriber has been sent: what its client has printed, and
  what is on its way to it;
* `Relay.Inv.step` — every step keeps these, and the sessions on the file of the box;
* `Relay.Inv.stdout_prefix`, `Relay.Inv.stdout_quiet` — what a subscriber has printed is, line
  for line, a prefix of those of the publishers' messages that fit in the file of the box, and
  it is all of them when nothing is left to do.
-/
import Mbroker.Relay

namespace Mbroker

open Tfs Delimited Relay

/-! ### What is still to be published -/

namespace Relay

theorem texts_nil : texts [] = [] := by
  rw [texts, chunks_nil, List.map_nil]

theorem texts_of_ne_nil {stdin : List UInt8} (h : stdin ≠ []) :
    texts stdin = .ofBuffer (nextChunk newline (messageSize - 1) stdin).dropLast ::
      texts (stdin.drop (nextChunk newline (messageSize - 1) stdin).length) := by
  rw [texts, chunks_of_ne_nil _ h]
  rfl

end Relay

/-- The message that the handler has in hand. -/
def PublisherHandler.inHand (h : PublisherHandler) : List CString :=
  match h.pc with
  | .write => [h.message.text]
  | .readCode | .readMessage | .leave => []

/-- `ms` is still to be published. -/
structure PublisherLink.Pending (p : PublisherLink) (ms : List CString) : Prop where
  noNul : 0 ∉ p.client.stdin
  onWay : ∃ onWay : List CString, (∀ m ∈ onWay, m.strlen < messageSize) ∧
    Pipe.Carries 9 messageSize p.client.toWrite p.pipe (p.handler.pc = .readMessage)
      (onWay.map (padded messageSize)) ∧
    ms = p.handler.inHand ++ onWay ++ texts p.client.stdin
  inHand : ∀ m ∈ p.handler.inHand, m.strlen < messageSize
  closed : p.pipe.closed = true ↔ p.client.pc = .done
  done : p.client.pc = .done → p.client.stdin = []
  leave : p.handler.pc = .leave → ms = [] ∧ p.client.pc = .done

namespace PublisherLink

variable {p : PublisherLink} {ms : List CString} {capacity : Nat} {pipe : Pipe UInt8}
  {client : PublisherMain}

theorem pending_start {stdin : List UInt8} {str message message' buffer : CharArray messageSize}
    {h : Int} {code : UInt8} (hnul : 0 ∉ stdin) :
    Pending {
      client := { stdin := stdin, str := str, message := message }
      handler := { boxHandle := h, code := code, message := message', buffer := buffer } }
      (texts stdin) where
  noNul := hnul
  onWay := ⟨[], fun _ hm => absurd hm List.not_mem_nil, Pipe.carries_nil 9 messageSize, rfl⟩
  inHand := fun _ hm => absurd hm List.not_mem_nil
  closed := ⟨nofun, nofun⟩
  done := nofun
  leave := nofun

theorem fgets_eq_none {str : CharArray messageSize} {stdin : List UInt8} :
    fgets str stdin = none ↔ stdin = [] := by
  rw [fgets]
  split <;> simp_all

/-- While the client runs, the pipe is open, and the handler stays. -/
theorem Pending.running (h : p.Pending ms) (hpc : p.client.pc ≠ .done) :
    p.pipe.closed = false ∧ p.handler.pc ≠ .leave := by
  refine ⟨?_, fun hl => hpc (h.leave hl).2⟩
  by_contra hclosed
  exact hpc (h.closed.mp (by simpa using hclosed))

/-- The client goes on. -/
theorem Pending.goOn (h : p.Pending ms) (hpc : p.client.pc ≠ .done) (hpc' : client.pc ≠ .done)
    (hclosed : pipe.closed = p.pipe.closed) (hnul : 0 ∉ client.stdin)
    (honWay : ∃ onWay : List CString, (∀ m ∈ onWay, m.strlen < messageSize) ∧
      Pipe.Carries 9 messageSize client.toWrite pipe (p.handler.pc = .readMessage)
        (onWay.map (padded messageSize)) ∧
      ms = p.handler.inHand ++ onWay ++ texts client.stdin) :
    Pending { p with client := client, pipe := pipe } ms := by
  obtain ⟨hopen, hleave⟩ := h.running hpc
  refine ⟨hnul, honWay, h.inHand, ?_, fun hd => absurd hd hpc', fun hl => absurd hl hleave⟩
  show pipe.closed = true ↔ client.pc = .done
  rw [hclosed, hopen]
  exact iff_of_false nofun hpc'

/-- The next line is made into a message. -/
theorem Pending.readLine {str : CharArray messageSize} {rest : List UInt8} (h : p.Pending ms)
    (hpc : p.client.pc = .readLine) (hsome : fgets p.client.str p.client.stdin = some (str, rest)) :
    ∃ message, toMessage str p.client.message = .ok message ∧
      Pending { p with client :=
        { stdin := rest, str := str, message := message, pc := .writeCode } } ms := by
  have hne' : p.client.pc ≠ .done := by
    rw [hpc]
    nofun
  obtain ⟨hopen, -⟩ := h.running hne'
  obtain ⟨onWay, hshort, hcarries, hms⟩ := h.onWay
  obtain ⟨hne, rfl, hstr⟩ := fgets_eq_some hsome
  -- The line, and its text.
  have hchunk : 0 ∉ nextChunk newline (messageSize - 1) p.client.stdin :=
    fun hmem => h.noNul ((isPrefix_nextChunk newline (messageSize - 1) _).subset hmem)
  have hlen : (nextChunk newline (messageSize - 1) p.client.stdin).length < messageSize :=
    Nat.lt_of_le_of_lt (length_nextChunk_le newline (messageSize - 1) _) (by decide)
  have hlast : 0 ∉ (nextChunk newline (messageSize - 1) p.client.stdin).dropLast :=
    fun hmem => hchunk (List.dropLast_subset _ hmem)
  have hstrlen : (CString.ofBuffer
      (nextChunk newline (messageSize - 1) p.client.stdin).dropLast).strlen < messageSize := by
    rw [CString.strlen_ofBuffer hlast, List.length_dropLast]
    omega
  obtain ⟨message, hm, hbytes⟩ := toMessage_returns p.client.message hchunk
    (nextChunk_ne_nil newline (messageSize - 2) hne) hlen hstr
  refine ⟨message, hm, h.goOn hne' nofun rfl (fun hmem => h.noNul (List.mem_of_mem_drop hmem))
    ⟨onWay ++ [.ofBuffer (nextChunk newline (messageSize - 1) p.client.stdin).dropLast], ?_, ?_, ?_⟩⟩
  · intro m hm
    rcases List.mem_append.mp hm with hmem | hmem
    · exact hshort m hmem
    · exact List.mem_singleton.mp hmem ▸ hstrlen
  · rw [PublisherMain.toWrite, hpc] at hcarries
    have hsent := hcarries.send (length_padded hstrlen.le) hopen
    rw [← hbytes] at hsent
    rwa [List.map_append, List.map_singleton, ← hbytes]
  · rw [hms, texts_of_ne_nil hne, List.append_assoc, List.append_assoc, List.append_assoc,
      List.singleton_append]

/-- **A step of the client.** -/
theorem Pending.clientStep (h : p.Pending ms) (capacity : Nat) :
    (∃ r, p.client.step capacity p.pipe = .ok r) ∧
      ∀ client pipe, p.client.step capacity p.pipe = .ok (some (client, pipe)) →
        Pending { p with client := client, pipe := pipe } ms := by
  obtain ⟨onWay, hshort, hcarries, hms⟩ := h.onWay
  rw [PublisherMain.toWrite] at hcarries
  rw [PublisherMain.step]
  cases hpc : p.client.pc with
  | readLine =>
    rw [hpc] at hcarries
    dsimp only at hcarries ⊢
    split
    case h_1 hnone =>
      -- The input has ended.
      obtain ⟨-, hleave⟩ := h.running (by rw [hpc]; nofun)
      refine ⟨⟨_, rfl⟩, fun client pipe hstep => ?_⟩
      obtain ⟨rfl, rfl⟩ := Prod.mk.inj (Option.some.inj (Outcome.ok.inj hstep))
      exact ⟨h.noNul, ⟨onWay, hshort, hcarries.close, hms⟩, h.inHand, iff_of_true rfl rfl,
        fun _ => fgets_eq_none.mp hnone, fun hl => absurd hl hleave⟩
    case h_2 str rest hsome =>
      obtain ⟨message, hm, hpending⟩ := h.readLine hpc hsome
      rw [hm, Outcome.ok_bind]
      refine ⟨⟨_, rfl⟩, fun client pipe hstep => ?_⟩
      obtain ⟨rfl, rfl⟩ := Prod.mk.inj (Option.some.inj (Outcome.ok.inj hstep))
      exact hpending
  | writeCode =>
    rw [hpc] at hcarries
    refine ⟨⟨_, rfl⟩, fun client pipe hstep => ?_⟩
    obtain ⟨pipe', hwrite, heq⟩ := Option.map_eq_some_iff.mp (Outcome.ok.inj hstep)
    obtain ⟨rfl, rfl⟩ := Prod.mk.inj heq
    refine h.goOn (by rw [hpc]; nofun) nofun ?_ h.noNul ⟨onWay, hshort, hcarries.write hwrite, hms⟩
    rw [Pipe.write_eq_some hwrite]
  | writeMessage =>
    rw [hpc] at hcarries
    refine ⟨⟨_, rfl⟩, fun client pipe hstep => ?_⟩
    obtain ⟨pipe', hwrite, heq⟩ := Option.map_eq_some_iff.mp (Outcome.ok.inj hstep)
    obtain ⟨rfl, rfl⟩ := Prod.mk.inj heq
    refine h.goOn (by rw [hpc]; nofun) nofun ?_ h.noNul ⟨onWay, hshort, hcarries.write hwrite, hms⟩
    rw [Pipe.write_eq_some hwrite]
  | done => exact ⟨⟨_, rfl⟩, fun client pipe hstep => by cases hstep⟩

/-- **A read of the handler**: it takes a code, the end of the pipe, or a whole message. -/
theorem Pending.handlerStep (h : p.Pending ms) :
    (∃ r, p.handler.step p.pipe = .ok r) ∧
      ∀ handler pipe, p.handler.step p.pipe = .ok (some (handler, pipe)) →
        handler.boxHandle = p.handler.boxHandle ∧
          Pending { p with handler := handler, pipe := pipe } ms := by
  obtain ⟨onWay, hshort, hcarries, hms⟩ := h.onWay
  rw [PublisherHandler.inHand] at hms
  rw [PublisherHandler.step]
  cases hpc : p.handler.pc with
  | readCode =>
    rw [hpc] at hcarries hms
    refine ⟨⟨_, rfl⟩, fun handler pipe hstep => ?_⟩
    obtain ⟨⟨bytes, pipe'⟩, hread, heq⟩ := Option.map_eq_some_iff.mp (Outcome.ok.inj hstep)
    obtain ⟨rfl, rfl⟩ := Prod.mk.inj heq
    refine ⟨rfl, ?_⟩
    rcases hcarries.readCode hread with ⟨rfl, hnone, hclosed, rfl⟩ | ⟨rfl, -, hclosed, hcarries'⟩
    · -- The client has closed the pipe, and all that it wrote has been read.
      have hdone := h.closed.mp hclosed
      have honWay : onWay = [] := List.map_eq_nil_iff.mp hnone
      have hend : ms = [] := by
        rw [hms, honWay, h.done hdone, texts_nil]
        rfl
      exact ⟨h.noNul, ⟨onWay, hshort, hcarries, hms⟩, fun _ hm => absurd hm List.not_mem_nil,
        h.closed, h.done, fun _ => ⟨hend, hdone⟩⟩
    · refine ⟨h.noNul, ⟨onWay, hshort, hcarries', hms⟩, fun _ hm => absurd hm List.not_mem_nil,
        by rw [hclosed]; exact h.closed, h.done, ?_⟩
      intro hleave
      cases hleave
  | readMessage =>
    rw [hpc] at hcarries hms
    dsimp only
    split
    case h_1 => exact ⟨⟨_, rfl⟩, fun handler pipe hstep => by cases hstep⟩
    case h_2 bytes pipe' hread =>
      obtain ⟨rest, hrest, hclosed, hcarries'⟩ := hcarries.readMessage hread
      obtain ⟨m, onWay', rfl, rfl, rfl⟩ := List.map_eq_cons_iff.mp hrest
      have hm := hshort m List.mem_cons_self
      -- The buffer is the message that was sent, and its text is copied.
      have hbuffer : (p.handler.buffer.readFrom (padded messageSize m)).text = m := by
        rw [CharArray.text, CharArray.bytes_readFrom _ (length_padded hm.le), ofBuffer_padded hm]
      have hterm : (p.handler.buffer.readFrom (padded messageSize m)).Terminated := by
        rw [CharArray.Terminated, hbuffer]
        exact hm
      obtain ⟨copy, hcopy, -⟩ :=
        CharArray.strcpyFrom_returns p.handler.message hterm (le_refl messageSize)
      have htext := CharArray.text_set_strcpyFrom hcopy
      rw [hcopy, Outcome.ok_bind]
      refine ⟨⟨_, rfl⟩, fun handler pipe hstep => ?_⟩
      obtain ⟨rfl, rfl⟩ := Prod.mk.inj (Option.some.inj (Outcome.ok.inj hstep))
      refine ⟨rfl, h.noNul, ⟨onWay', fun m' hm' => hshort m' (List.mem_cons_of_mem m hm'),
        hcarries', ?_⟩, ?_, by rw [hclosed]; exact h.closed, h.done, ?_⟩
      · rw [hms, PublisherHandler.inHand]
        dsimp only
        rw [htext, hbuffer]
        rfl
      · intro m' hm'
        rw [List.mem_singleton.mp hm', htext, hbuffer]
        exact hm
      · intro hleave
        cases hleave
  | write => exact ⟨⟨_, rfl⟩, fun handler pipe hstep => by cases hstep⟩
  | leave => exact ⟨⟨_, rfl⟩, fun handler pipe hstep => by cases hstep⟩

/-- The message in hand is published. -/
theorem Pending.publish (h : p.Pending ms) (hpc : p.handler.pc = .write) :
    p.handler.message.text.strlen < messageSize ∧ ∃ rest, ms = p.handler.message.text :: rest ∧
      Pending { p with handler := { p.handler with pc := .readCode } } rest := by
  obtain ⟨onWay, hshort, hcarries, hms⟩ := h.onWay
  have hinHand := h.inHand
  rw [PublisherHandler.inHand, hpc] at hms hinHand
  rw [hpc] at hcarries
  exact ⟨hinHand _ List.mem_cons_self, _, hms, h.noNul, ⟨onWay, hshort, hcarries, rfl⟩,
    fun _ hm => absurd hm List.not_mem_nil, h.closed, h.done, nofun⟩

end PublisherLink

/-! ### What has been printed -/

/-- A message that a subscriber's handler can send. -/
def Sendable (m : List UInt8) : Prop := 0 ∉ m ∧ m.length < messageSize

/-- The text of what is sent. -/
theorem ofBuffer_payload {m : List UInt8} (h : 0 ∉ m) :
    (CString.ofBuffer (payload m).2).bytes = m := by
  show (CString.ofBuffer (m ++ List.replicate (messageSize - m.length) 0)).bytes = m
  cases messageSize - m.length with
  | zero => rw [List.replicate_zero, List.append_nil, CString.bytes_ofBuffer h]
  | succ n =>
    rw [List.replicate_succ]
    exact congrArg CString.bytes (CString.ofBuffer_terminated ⟨m, h⟩ _)

theorem Sendable.length_payload {m : List UInt8} (h : Sendable m) :
    (payload m).2.length = messageSize :=
  length_padded (q := ⟨m, h.1⟩) h.2.le

/-- Two lists of messages that can be sent are sent alike only if they are the same. -/
theorem eq_of_map_payload {ms ms' : List (List UInt8)} (hms : ∀ m ∈ ms, Sendable m)
    (hms' : ∀ m ∈ ms', Sendable m) (h : ms.map payload = ms'.map payload) : ms = ms' := by
  have hread : ∀ ms : List (List UInt8), (∀ m ∈ ms, Sendable m) →
      (ms.map payload).map (fun d => (CString.ofBuffer d.2).bytes) = ms := by
    intro ms hms
    rw [List.map_map]
    exact (List.map_congr_left fun m hm => ofBuffer_payload (hms m hm).1).trans (List.map_id ms)
  rw [← hread ms hms, h, hread ms' hms']

/-- What has been sent has been printed, or is on its way. -/
structure SubscriberLink.Prints (l : SubscriberLink) : Prop where
  onWay : ∃ printed onWay : List (List UInt8), l.session.sent = (printed ++ onWay).map payload ∧
    (∀ m ∈ printed ++ onWay, Sendable m) ∧ l.client.stdout = frame newline printed ∧
    l.client.nMessages = printed.length ∧
    Pipe.Carries 10 messageSize l.writing l.pipe (l.client.pc = .readMessage)
      (onWay.map fun m => (payload m).2)
  code : l.client.pc = .readMessage → l.client.code = 10
  opened : l.pipe.closed = false
  running : l.client.pc ≠ .done

namespace SubscriberLink

variable {l : SubscriberLink} {sub' : Subscriber} {s s' : TfsState}

/-- A write to the client. -/
theorem Prints.write {bs : List UInt8} {rest : List (List UInt8)} {capacity : Nat}
    {pipe : Pipe UInt8} (h : l.Prints) (hw : l.writing = bs :: rest)
    (hwrite : l.pipe.write capacity bs = some pipe) :
    Prints { l with writing := rest, pipe := pipe } := by
  obtain ⟨printed, onWay, hsent, hall, hstdout, hn, hcarries⟩ := h.onWay
  rw [hw] at hcarries
  refine ⟨⟨printed, onWay, hsent, hall, hstdout, hn, hcarries.write hwrite⟩, h.code, ?_, h.running⟩
  show pipe.closed = false
  rw [Pipe.write_eq_some hwrite]
  exact h.opened

/-- **A read of the client**: it takes a code, or a whole message, which it prints. -/
theorem Prints.clientStep (h : l.Prints) :
    (∃ r, l.client.step l.pipe = .ok r) ∧
      ∀ client pipe, l.client.step l.pipe = .ok (some (client, pipe)) →
        Prints { l with client := client, pipe := pipe } := by
  obtain ⟨printed, onWay, hsent, hall, hstdout, hn, hcarries⟩ := h.onWay
  rw [SubscriberMain.step]
  cases hpc : l.client.pc with
  | readCode =>
    rw [hpc] at hcarries
    refine ⟨⟨_, rfl⟩, fun client pipe hstep => ?_⟩
    obtain ⟨⟨bytes, pipe'⟩, hread, heq⟩ := Option.map_eq_some_iff.mp (Outcome.ok.inj hstep)
    obtain ⟨rfl, rfl⟩ := Prod.mk.inj heq
    rcases hcarries.readCode hread with ⟨-, -, hclosed, -⟩ | ⟨rfl, -, hclosed, hcarries'⟩
    · -- The handler does not close the pipe.
      rw [h.opened] at hclosed
      cases hclosed
    · refine ⟨⟨printed, onWay, hsent, hall, hstdout, hn, hcarries'⟩, fun _ => rfl,
        hclosed.trans h.opened, ?_⟩
      intro hdone
      cases hdone
  | readMessage =>
    rw [hpc] at hcarries
    dsimp only
    split
    case h_1 => exact ⟨⟨_, rfl⟩, fun client pipe hstep => by cases hstep⟩
    case h_2 bytes pipe' hread =>
      obtain ⟨rest, hrest, hclosed, hcarries'⟩ := hcarries.readMessage hread
      obtain ⟨m, onWay', rfl, rfl, rfl⟩ := List.map_eq_cons_iff.mp hrest
      have hm : Sendable m := hall m (by simp)
      have hbytes := CharArray.bytes_readFrom l.client.message hm.length_payload
      have htext : (l.client.message.readFrom (payload m).2).text.bytes = m := by
        rw [CharArray.text, hbytes, ofBuffer_payload hm.1]
      have hterm : (l.client.message.readFrom (payload m).2).Terminated := by
        rw [CharArray.Terminated, CString.strlen, htext]
        exact hm.2
      rw [if_pos (h.code hpc), if_pos hterm, htext]
      refine ⟨⟨_, rfl⟩, fun client pipe hstep => ?_⟩
      obtain ⟨rfl, rfl⟩ := Prod.mk.inj (Option.some.inj (Outcome.ok.inj hstep))
      have happend : printed ++ m :: onWay' = printed ++ [m] ++ onWay' := List.append_cons _ _ _
      refine ⟨⟨printed ++ [m], onWay', ?_, ?_, ?_, ?_, hcarries'⟩, ?_, hclosed.trans h.opened,
        ?_⟩
      · rw [← happend]
        exact hsent
      · rw [← happend]
        exact hall
      · show l.client.stdout ++ (m ++ [newline]) = _
        rw [hstdout, frame_append, frame_singleton]
      · show l.client.nMessages + 1 = _
        rw [hn, List.length_append, List.length_singleton]
      · intro hcode
        cases hcode
      · intro hdone
        cases hdone
  | done => exact absurd hpc h.running

/-- A section starts to wait, or deals with one character. -/
theorem readSection_cases {sub : Subscriber} (h : readSection sub s = .ok (sub', s')) :
    sub' = { sub with waiting := true } ∨ ∃ c, sub.storeChar c = .ok sub' := by
  obtain ⟨⟨⟨n, bytes⟩, s₁⟩, -, h⟩ := Outcome.bind_eq_ok.mp h
  dsimp only at h
  split at h
  · obtain ⟨rfl, -⟩ := Prod.mk.inj (Outcome.ok.inj h)
    exact Or.inl rfl
  · obtain ⟨sub₁, hstore, h⟩ := Outcome.bind_eq_ok.mp h
    obtain ⟨rfl, -⟩ := Prod.mk.inj (Outcome.ok.inj h)
    exact Or.inr ⟨_, hstore⟩

/-- It sends nothing, or one message. -/
theorem readSection_sent {sub : Subscriber} (h : readSection sub s = .ok (sub', s')) :
    sub'.sent = sub.sent ∨ ∃ bs, sub'.sent = sub.sent ++ [delivery bs] := by
  rcases readSection_cases h with rfl | ⟨c, hstore⟩
  · exact Or.inl rfl
  · rw [Subscriber.storeChar] at hstore
    split at hstore
    · cases hstore
    · split at hstore
      · obtain rfl := Outcome.ok.inj hstore
        exact Or.inr ⟨_, rfl⟩
      · obtain rfl := Outcome.ok.inj hstore
        exact Or.inl rfl

/-- What is to be written then. -/
theorem newWrites_cases {sub : Subscriber} {ms : List (List UInt8)}
    (hsent : sub'.sent = ms.map payload) (hall : ∀ m ∈ ms, Sendable m)
    (h : readSection sub s = .ok (sub', s')) :
    sub'.sent = sub.sent ∧ sub.newWrites sub' = [] ∨
      ∃ m, Sendable m ∧ sub'.sent = sub.sent ++ [payload m] ∧
        sub.newWrites sub' = [[10], (payload m).2] := by
  rcases readSection_sent h with hsame | ⟨bs, hnew⟩
  · refine Or.inl ⟨hsame, ?_⟩
    rw [Subscriber.newWrites, hsame, List.drop_length]
    rfl
  · -- The message that was completed last.
    obtain ⟨before, last, rfl, -, hlast⟩ := List.map_eq_append_iff.mp (hsent.symm.trans hnew)
    obtain ⟨m, rest, rfl, hm, -⟩ := List.map_eq_cons_iff.mp hlast
    refine Or.inr ⟨m, hall m (by simp), by rw [hnew, hm], ?_⟩
    rw [Subscriber.newWrites, hnew, List.drop_left' rfl, ← hm]
    rfl

/-- **A section** of the handler, after which what it sends is to be written. -/
theorem Prints.section {completed : List (List UInt8)} (h : l.Prints) (hw : l.writing = [])
    (hread : readSection l.session s = .ok (sub', s')) (hsent' : sub'.sent = completed.map payload)
    (hall' : ∀ m ∈ completed, Sendable m) :
    Prints { l with session := sub', writing := l.session.newWrites sub' } := by
  obtain ⟨printed, onWay, hsent, hall, hstdout, hn, hcarries⟩ := h.onWay
  rw [hw] at hcarries
  rcases newWrites_cases hsent' hall' hread with ⟨hsame, hnone⟩ | ⟨m, hsend, hnew, hone⟩
  · rw [hnone]
    exact ⟨⟨printed, onWay, hsame.trans hsent, hall, hstdout, hn, hcarries⟩, h.code, h.opened,
      h.running⟩
  · rw [hone]
    refine ⟨⟨printed, onWay ++ [m], ?_, ?_, hstdout, hn, ?_⟩, h.code, h.opened, h.running⟩
    · show sub'.sent = _
      simp only [hnew, hsent, List.map_append, List.map_cons, List.map_nil, List.append_assoc]
    · intro m' hm'
      rw [← List.append_assoc] at hm'
      rcases List.mem_append.mp hm' with hmem | hmem
      · exact hall m' hmem
      · exact List.mem_singleton.mp hmem ▸ hsend
    · rw [List.map_append]
      exact hcarries.send hsend.length_payload h.opened

end SubscriberLink

/-! ### Runs -/

namespace Relay

variable {q : FileName} {capacity : Nat} {c c' : Relay} {a a' : FileStore tfsDefaultParams}
  {s fs' : TfsState} {k : Nat} {l : SubscriberLink} {p : PublisherLink}

/-- The publisher's messages: those published, and those that are still to be. -/
def Accounted (published : List CString) : Option PublisherLink → List CString → Prop
  | none, ms => published = ms
  | some p, ms => ∃ rest, p.Pending rest ∧ published ++ rest = ms

/-- The invariant of a relay. -/
structure Inv (q : FileName) (c : Relay) (a : FileStore tfsDefaultParams) : Prop where
  sessions : c.channel.Sessions q a
  file : a.file q = (frame 0 (c.published.map CString.bytes)).take messageSize
  accounted : Accounted c.published c.publisher c.allTexts
  prints : ∀ k l, c.subscribers k = some l → l.Prints

theorem inv_start (hs : Started none s) : ∃ a, (start s).Inv q a := by
  obtain ⟨a, hi, hfile⟩ := Channel.sessions_start (q := q) hs
  exact ⟨a, hi, hfile, rfl, fun _ _ h => by cases h⟩

theorem channel_subscribers (hl : c.subscribers k = some l) :
    c.channel.subscribers k = some l.session := by
  show (c.subscribers k).map SubscriberLink.session = _
  rw [hl, Option.map_some]

theorem channel_publisher (hp : c.publisher = some p) :
    c.channel.publisher = some p.handler.boxHandle := by
  show c.publisher.map _ = _
  rw [hp, Option.map_some]

theorem channel_setSubscriber (c : Relay) (k : Nat) (l : SubscriberLink) :
    (c.setSubscriber k l).channel =
      { c.channel with subscribers := Function.update c.channel.subscribers k (some l.session) } := by
  have hupdate := Function.comp_update (Option.map SubscriberLink.session) c.subscribers k (some l)
  simp only [setSubscriber, channel]
  congr 1

/-- A subscriber's link changes, but not its session. -/
theorem channel_setSubscriber_self (hl : c.subscribers k = some l) {l' : SubscriberLink}
    (h : l'.session = l.session) : (c.setSubscriber k l').channel = c.channel := by
  have hself : c.channel.subscribers k = some l'.session := by
    rw [channel_subscribers hl, h]
  rw [channel_setSubscriber, ← hself, Function.update_eq_self]

theorem prints_setSubscriber (h : ∀ k l, c.subscribers k = some l → l.Prints) (k : Nat)
    (hl : l.Prints) : ∀ k' l', (c.setSubscriber k l).subscribers k' = some l' → l'.Prints := by
  intro k' l' h'
  rcases Channel.subscribers_update h' with ⟨-, h'⟩ | ⟨-, h'⟩
  · exact Option.some.inj h' ▸ hl
  · exact h k' l' h'

/-- A step of a link that does not show in the box. -/
theorem Inv.setLink (hi : c.Inv q a) (hl : c.subscribers k = some l) {l' : SubscriberLink}
    (hsession : l'.session = l.session) (hprints : l'.Prints) : (c.setSubscriber k l').Inv q a :=
  ⟨by rw [channel_setSubscriber_self hl hsession]; exact hi.sessions, hi.file, hi.accounted,
    prints_setSubscriber hi.prints k hprints⟩

/-- What a subscriber has completed can be sent. -/
theorem sendable_completed {off : Nat} (hfile : (a.file q).length ≤ messageSize) :
    ∀ m ∈ (feedAll 0 {} ((a.file q).take off)).completed, Sendable m := by
  intro m hm
  obtain ⟨hnul, hlen⟩ := mem_completed hm
  rw [List.length_take] at hlen
  exact ⟨hnul, by omega⟩

theorem Inv.publish (hi : c.Inv q a) (hp : c.publisher = some p) (hpc : p.handler.pc = .write) :
    ∃ fs' a', writeSection p.handler.boxHandle p.handler.message.bytes c.fs = .ok fs' ∧
      Inv q { c with
        fs := fs'
        publisher := some { p with handler := { p.handler with pc := .readCode } }
        subscribers := fun k => (c.subscribers k).map wake
        published := c.published ++ [p.handler.message.text] } a' := by
  obtain ⟨ms, hpending, haccounted⟩ : ∃ rest, p.Pending rest ∧ c.published ++ rest = c.allTexts := by
    have h := hi.accounted
    rwa [hp] at h
  obtain ⟨hlen, rest, rfl, hpending'⟩ := hpending.publish hpc
  obtain ⟨fs', a', hwrite, hsessions, hfile⟩ := hi.sessions.publish
    (c.published ++ [p.handler.message.text]) (channel_publisher hp) hlen
  -- The section writes the text of the message.
  have hsame : writeSection p.handler.boxHandle p.handler.message.bytes c.fs = .ok fs' := by
    rw [← hwrite, writeSection, writeSection, ofBuffer_padded hlen]
    rfl
  refine ⟨fs', a', hsame, ?_, ?_, ?_, ?_⟩
  · convert hsessions using 1
    simp only [channel, hp, Option.map_some, Option.map_map]
    rfl
  · have hblock : tfsDefaultParams.blockSize = messageSize := rfl
    rw [hfile, hi.file, hblock, FileStore.take_take_append, List.map_append, frame_append,
      List.map_singleton, frame_singleton]
  · refine ⟨rest, hpending', Eq.trans ?_ haccounted⟩
    exact List.append_assoc _ _ _
  · intro k l hl
    obtain ⟨l₀, hl₀, rfl⟩ := Option.map_eq_some_iff.mp hl
    have h := hi.prints k l₀ hl₀
    exact ⟨h.onWay, h.code, h.opened, h.running⟩

theorem Inv.readSection (hi : c.Inv q a) (hl : c.subscribers k = some l) (hw : l.writing = []) :
    ∃ sub' fs' a', Mbroker.readSection l.session c.fs = .ok (sub', fs') ∧
      (setSubscriber { c with fs := fs' } k
        { l with session := sub', writing := l.session.newWrites sub' }).Inv q a' := by
  obtain ⟨sub', fs', a', hread, hsessions, hfile⟩ :=
    hi.sessions.readSection (channel_subscribers hl)
  obtain ⟨f, off, -, -, hhas, -⟩ := hsessions.subscriber k sub' (Function.update_self _ _ _)
  refine ⟨sub', fs', a', hread, ?_, hfile.trans hi.file, hi.accounted, ?_⟩
  · rw [channel_setSubscriber]
    exact hsessions
  · refine prints_setSubscriber (c := { c with fs := fs' }) hi.prints k ?_
    exact (hi.prints k l hl).section hw hread hhas.sent
      (sendable_completed (a'.length_file_le q))

/-- The step lemma, for what the programs do. -/
theorem Inv.act (hi : c.Inv q a) (hact : Act q capacity c c') : ∃ a', c'.Inv q a' := by
  cases hact with
  | client hp hstep =>
    have haccounted := hi.accounted
    rw [hp] at haccounted
    obtain ⟨rest, hpending, htexts⟩ := haccounted
    refine ⟨a, ?_, hi.file, ⟨rest, (hpending.clientStep capacity).2 _ _ hstep, htexts⟩, hi.prints⟩
    have hsessions := hi.sessions
    rw [channel, hp] at hsessions
    exact hsessions
  | handler hp hstep =>
    have haccounted := hi.accounted
    rw [hp] at haccounted
    obtain ⟨rest, hpending, htexts⟩ := haccounted
    obtain ⟨hhandle, hpending'⟩ := hpending.handlerStep.2 _ _ hstep
    refine ⟨a, ?_, hi.file, ⟨rest, hpending', htexts⟩, hi.prints⟩
    have hsessions := hi.sessions
    rw [channel, hp, Option.map_some, ← hhandle] at hsessions
    exact hsessions
  | publish hp hpc hfree hwrite =>
    obtain ⟨fs', a', hwrite', hi'⟩ := hi.publish hp hpc
    obtain rfl := Outcome.ok.inj (hwrite.symm.trans hwrite')
    exact ⟨a', hi'⟩
  | @leave p _ _ hp hpc hclose =>
    have haccounted := hi.accounted
    rw [hp] at haccounted
    obtain ⟨rest, hpending, htexts⟩ := haccounted
    obtain ⟨a', hsessions, hfile⟩ := hi.sessions.closePublisher (channel_publisher hp) hclose
    refine ⟨a', hsessions, hfile.trans hi.file, ?_, hi.prints⟩
    rw [(hpending.leave hpc).1, List.append_nil] at htexts
    exact htexts
  | read k hl hwaiting hfree hread =>
    obtain ⟨sub', fs', a', hread', hi'⟩ := hi.readSection hl (hfree k _ hl)
    obtain ⟨rfl, rfl⟩ := Prod.mk.inj (Outcome.ok.inj (hread.symm.trans hread'))
    exact ⟨a', hi'⟩
  | write k hl hw hwrite => exact ⟨a, hi.setLink hl rfl ((hi.prints k _ hl).write hw hwrite)⟩
  | print k hl hstep => exact ⟨a, hi.setLink hl rfl ((hi.prints k _ hl).clientStep.2 _ _ hstep)⟩

/-- **The step lemma.** -/
theorem Inv.step (hi : c.Inv q a) (hstep : Step q capacity c c') : ∃ a', c'.Inv q a' := by
  cases hstep with
  | act hact => exact hi.act hact
  | @connect h fs' stdin hnul str message message' buffer code hnone hopen hh =>
    obtain ⟨a', hsessions, hfile⟩ := hi.sessions.openPublisher hopen hh
    refine ⟨a', hsessions, hfile.trans hi.file, ⟨texts stdin, PublisherLink.pending_start hnul, ?_⟩,
      hi.prints⟩
    have haccounted := hi.accounted
    rw [hnone] at haccounted
    have hall : c.published = c.allTexts := haccounted
    rw [hall, allTexts, allTexts, List.flatMap_append]
    simp
  | @attach h fs' k charBuffer code buffer message hnone hopen hh =>
    obtain ⟨a', hsessions, hfile⟩ := hi.sessions.attach k buffer.length_bytes hopen hh
    refine ⟨a', ?_, hfile.trans hi.file, hi.accounted, ?_⟩
    · rw [channel_setSubscriber]
      exact hsessions
    · refine prints_setSubscriber (c := { c with fs := fs' }) hi.prints k ?_
      exact ⟨⟨[], [], rfl, fun _ hm => absurd hm List.not_mem_nil, rfl, rfl,
        Pipe.carries_nil 10 messageSize⟩, nofun, rfl, nofun⟩
  | @wakeUp l k hl =>
    have hsub := channel_subscribers hl
    have h := hi.prints k l hl
    refine ⟨a, ?_, hi.file, hi.accounted,
      prints_setSubscriber hi.prints k ⟨h.onWay, h.code, h.opened, h.running⟩⟩
    rw [channel_setSubscriber]
    have hatt := hi.sessions.subscriber k l.session hsub
    have hsame : a.file q = a.file q ++ [] := (List.append_nil _).symm
    have hwoken := hatt.grow hsame rfl
    have hfresh := hi.sessions.not_held_dropSubscriber hsub
    have hset := (hi.sessions.dropSubscriber k).setSubscriber (k := k) hwoken hfresh
    simp only [Function.update_idem] at hset
    exact hset
  | other call helse hcall =>
    obtain ⟨a', hsessions, hfile⟩ := hi.sessions.other helse hcall
    exact ⟨a', hsessions, hfile.trans hi.file, hi.accounted, hi.prints⟩

/-- The run lemma. -/
theorem inv_of_run (hs : Started none s)
    (hrun : Relation.ReflTransGen (Step q capacity) (start s) c) : ∃ a, c.Inv q a := by
  induction hrun with
  | refl => exact inv_start hs
  | tail _ hstep ih =>
    obtain ⟨a, hi⟩ := ih
    exact hi.step hstep

/-! ### What is printed -/

theorem delimited_texts (ms : List CString) : ∀ m ∈ ms.map CString.bytes, (0 : UInt8) ∉ m := by
  intro m hm
  obtain ⟨m, -, rfl⟩ := List.mem_map.mp hm
  exact m.noNul

/-- What is published is a part of the publishers' messages, and all of them when there is no
publisher. -/
theorem Accounted.published_le {published ms : List CString} {o : Option PublisherLink}
    (h : Accounted published o ms) : published <+: ms := by
  cases o with
  | none =>
    have hall : published = ms := h
    rw [hall]
  | some p =>
    obtain ⟨rest, -, rfl⟩ := h
    exact List.prefix_append _ _

/-- What has been printed, beside what the subscriber has read. -/
theorem Inv.printed (hi : c.Inv q a) (hl : c.subscribers k = some l) :
    ∃ f off printed onWay, a.handle? l.session.boxHandle = some (f, ⟨q, off⟩) ∧
      l.client.stdout = frame newline printed ∧
      printed ++ onWay = (feedAll 0 {} ((a.file q).take off)).completed ∧
      (l.writing = [] → l.pipe.bytes = [] → onWay = []) := by
  obtain ⟨f, off, hh, -, hhas, -⟩ := hi.sessions.subscriber k _ (channel_subscribers hl)
  obtain ⟨printed, onWay, hsent, hall, hstdout, -, hcarries⟩ := (hi.prints k l hl).onWay
  have hfile := a.length_file_le q
  refine ⟨f, off, printed, onWay, hh, hstdout, ?_, fun hw hempty => ?_⟩
  · exact eq_of_map_payload hall (sendable_completed hfile) (hsent.symm.trans hhas.sent)
  · rw [hw] at hcarries
    exact List.map_eq_nil_iff.mp (hcarries.drained (by decide) hempty).2

/-- What a subscriber has printed is a prefix of the messages that fit. -/
theorem Inv.stdout_prefix (hi : c.Inv q a) (hl : c.subscribers k = some l) :
    l.client.stdout <+:
      frame newline (fitting messageSize (c.allTexts.map CString.bytes)) := by
  obtain ⟨f, off, printed, onWay, -, hstdout, hprinted, -⟩ := hi.printed hl
  have hfits : fitting messageSize (c.published.map CString.bytes) <+:
      fitting messageSize (c.allTexts.map CString.bytes) :=
    fitting_mono messageSize (hi.accounted.published_le.map CString.bytes)
  have hread : (feedAll 0 {} ((a.file q).take off)).completed <+:
      (feedAll 0 {} (a.file q)).completed := by
    have hsplit := completed_feedAll (d := (0 : UInt8)) (feedAll 0 {} ((a.file q).take off))
      ((a.file q).drop off)
    rwa [← feedAll_append, List.take_append_drop] at hsplit
  rw [hi.file, completed_take (delimited_texts _), ← hi.file, ← hprinted] at hread
  obtain ⟨rest, hrest⟩ := ((List.prefix_append _ _).trans hread).trans hfits
  rw [hstdout, ← hrest, frame_append]
  exact List.prefix_append _ _

/-- It is all of them when nothing is left to do. -/
theorem Inv.stdout_quiet (hi : c.Inv q a) (hquiet : c.Quiet) (hl : c.subscribers k = some l) :
    l.client.stdout = frame newline (fitting messageSize (c.allTexts.map CString.bytes)) := by
  obtain ⟨hnone, hsubs⟩ := hquiet
  obtain ⟨hwaiting, hwriting, hempty, -⟩ := hsubs k l hl
  obtain ⟨f, off, printed, onWay, hh, hstdout, hprinted, hdelivered⟩ := hi.printed hl
  obtain ⟨f', off', hh', -, -, hend⟩ := hi.sessions.subscriber k _ (channel_subscribers hl)
  have hoff : off = (a.file q).length := by
    obtain ⟨-, he⟩ := Prod.mk.inj (Option.some.inj (hh.symm.trans hh'))
    exact (Handle.mk.inj he).2.trans (hend hwaiting)
  have hall : c.published = c.allTexts := by
    have haccounted := hi.accounted
    rwa [hnone] at haccounted
  rw [hdelivered hwriting hempty, List.append_nil, hoff, List.take_length, hi.file,
    completed_take (delimited_texts _), hall] at hprinted
  rw [hstdout, hprinted]

end Relay

end Mbroker
