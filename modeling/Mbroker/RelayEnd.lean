/-
A relay comes to rest.

What the programs on a box have left to do gets less with every step: there is less
for the publisher to send and for its handler to publish, or as much, and less for the
subscribers to read, to be sent and to print.  A step is possible as long as anything is
left, if a message fits in a pipe.

* `act_rank` — every step of the programs lowers the rank;
* `quiet_iff` — no step is possible exactly when nothing is left to do;
* **`relayed`** — what a subscriber has printed is a beginning of the messages that fit;
* **`relay_completes`** — wherever the clients are when it begins, what the programs then do comes
  to an end, in whatever order they do it, and at the end the publishers are gone and every
  subscriber has printed all the messages that fit;
* **`lines_relayed`** — lines that are not too long come out as they went in.
-/
import Mbroker.RelayRuns

namespace Mbroker

open Tfs Delimited Relay

/-! ### What is left to do -/

/-- What a subscriber's session has read of the file. -/
def Subscriber.received (sub : Subscriber) : Nat :=
  (sub.sent.map fun d => (CString.ofBuffer d.2).strlen + 1).sum + sub.i

/-- How much a publisher's client has left to do; a byte of its input can be a message. -/
def PublisherMain.rank (c : PublisherMain) : Nat :=
  c.stdin.length * (messageSize + 4) +
    match c.pc with
    | .readLine => 1
    | .writeCode => messageSize + 4
    | .writeMessage => messageSize + 2
    | .done => 0

def PublisherHandler.rank (h : PublisherHandler) : Nat :=
  match h.pc with
  | .readCode | .readMessage => 1
  | .write => 2
  | .leave => 0

def PublisherLink.rank (p : PublisherLink) : Nat :=
  p.client.rank + p.pipe.bytes.length + p.handler.rank + 1

/-- How much a subscriber has left to do; a byte of the file can complete a message. -/
def SubscriberLink.rank (l : SubscriberLink) : Nat :=
  (messageSize - l.session.received) * (2 * messageSize + 5) +
    (l.writing.map fun bs => 2 * bs.length + 1).sum + l.pipe.bytes.length +
    if l.session.waiting then 0 else 1

/-- What is left to do on a box, with subscribers below `n`. -/
def Relay.rank (n : Nat) (c : Relay) : Nat × Nat :=
  ((c.publisher.map PublisherLink.rank).getD 0,
    ∑ k ∈ Finset.range n, ((c.subscribers k).map SubscriberLink.rank).getD 0)

/-! ### What a step does to it -/

section Sections

variable {sub sub' : Subscriber} {s s' : TfsState} {bs : List UInt8}

theorem Subscriber.Has.received (h : sub.Has bs) : sub.received = bs.length := by
  have hsum : (sub.sent.map fun d => (CString.ofBuffer d.2).strlen + 1) =
      (feedAll 0 {} bs).completed.map fun m => m.length + 1 := by
    rw [h.sent, List.map_map]
    refine List.map_congr_left fun m hm => ?_
    exact congrArg (fun bs => bs.length + 1) (ofBuffer_payload (mem_completed hm).1)
  rw [Subscriber.received, hsum, h.index, sum_feedAll]
  simp

/-- The rank of what a section sends. -/
theorem sum_newWrites_le {ms : List (List UInt8)} (hsent : sub'.sent = ms.map payload)
    (hall : ∀ m ∈ ms, Sendable m) (h : readSection sub s = .ok (sub', s')) :
    ((sub.newWrites sub').map fun bs => 2 * bs.length + 1).sum ≤ 2 * messageSize + 4 := by
  rcases SubscriberLink.newWrites_cases hsent hall h with ⟨-, hnone⟩ | ⟨m, hm, -, hone⟩
  · rw [hnone]
    exact Nat.zero_le _
  · rw [hone]
    simp only [List.map_cons, List.map_nil, List.sum_cons, List.sum_nil, List.length_singleton,
      hm.length_payload]
    omega

end Sections

/-! #### The publisher -/

section Publisher

variable {p : PublisherLink} {ms : List CString} {capacity : Nat}

/-- A step of the client lowers the rank. -/
theorem clientStep_rank {client : PublisherMain} {pipe : Pipe UInt8}
    (h : p.client.step capacity p.pipe = .ok (some (client, pipe))) :
    client.rank + pipe.bytes.length < p.client.rank + p.pipe.bytes.length := by
  rw [PublisherMain.step] at h
  rw [PublisherMain.rank, PublisherMain.rank]
  cases hpc : p.client.pc with
  | readLine =>
    rw [hpc] at h
    dsimp only at h
    split at h
    case h_1 =>
      obtain ⟨rfl, rfl⟩ := Prod.mk.inj (Option.some.inj (Outcome.ok.inj h))
      simp [Pipe.close]
    case h_2 str rest hsome =>
      obtain ⟨message, -, h⟩ := Outcome.bind_eq_ok.mp h
      obtain ⟨rfl, rfl⟩ := Prod.mk.inj (Option.some.inj (Outcome.ok.inj h))
      have hlt := length_of_fgets hsome
      have hmul := Nat.mul_le_mul_right (messageSize + 4) (Nat.succ_le_of_lt hlt)
      rw [Nat.succ_mul] at hmul
      dsimp only
      omega
  | writeCode =>
    rw [hpc] at h
    obtain ⟨pipe', hwrite, heq⟩ := Option.map_eq_some_iff.mp (Outcome.ok.inj h)
    obtain ⟨rfl, rfl⟩ := Prod.mk.inj heq
    rw [Pipe.write_eq_some hwrite]
    simp only [List.length_append, List.length_singleton]
    omega
  | writeMessage =>
    rw [hpc] at h
    obtain ⟨pipe', hwrite, heq⟩ := Option.map_eq_some_iff.mp (Outcome.ok.inj h)
    obtain ⟨rfl, rfl⟩ := Prod.mk.inj heq
    rw [Pipe.write_eq_some hwrite]
    simp only [List.length_append, p.client.message.length_bytes]
    omega
  | done =>
    rw [hpc] at h
    cases h

/-- So does a read of the handler. -/
theorem handlerStep_rank {handler : PublisherHandler} {pipe : Pipe UInt8} (hp : p.Pending ms)
    (h : p.handler.step p.pipe = .ok (some (handler, pipe))) :
    handler.rank + pipe.bytes.length < p.handler.rank + p.pipe.bytes.length := by
  rw [PublisherHandler.step] at h
  rw [PublisherHandler.rank, PublisherHandler.rank]
  cases hpc : p.handler.pc with
  | readCode =>
    rw [hpc] at h
    obtain ⟨⟨bytes, pipe'⟩, hread, heq⟩ := Option.map_eq_some_iff.mp (Outcome.ok.inj h)
    obtain ⟨rfl, rfl⟩ := Prod.mk.inj heq
    obtain ⟨rfl, rfl, -⟩ := Pipe.read_eq_some hread
    have hlen : (p.pipe.bytes.drop 1).length ≤ p.pipe.bytes.length := by
      rw [List.length_drop]
      exact Nat.sub_le _ _
    dsimp only
    by_cases hgot : 0 < (p.pipe.bytes.take 1).length ∧
        (p.pipe.bytes.take 1).headD p.handler.code = 9
    · rw [if_pos hgot]
      have hpos := hgot.1
      rw [List.length_take] at hpos
      rw [List.length_drop]
      dsimp only
      omega
    · rw [if_neg hgot]
      dsimp only
      omega
  | readMessage =>
    obtain ⟨onWay, hshort, hcarries, -⟩ := hp.onWay
    rw [hpc] at hcarries h
    dsimp only at h
    split at h
    case h_1 => cases h
    case h_2 bytes pipe' hread =>
      obtain ⟨copy, -, h⟩ := Outcome.bind_eq_ok.mp h
      obtain ⟨rfl, rfl⟩ := Prod.mk.inj (Option.some.inj (Outcome.ok.inj h))
      -- The read takes a whole message.
      obtain ⟨rest, hrest, -, -⟩ := hcarries.readMessage hread
      have hlen : bytes.length = messageSize := hcarries.size bytes (hrest ▸ List.mem_cons_self)
      obtain ⟨rfl, rfl, -⟩ := Pipe.read_eq_some hread
      rw [List.length_take] at hlen
      rw [List.length_drop]
      have hsize : 1 < messageSize := by decide
      dsimp only
      omega
  | write =>
    rw [hpc] at h
    cases h
  | leave =>
    rw [hpc] at h
    cases h

end Publisher

/-! #### The subscribers -/

section Subscribers

variable {l : SubscriberLink} {s s' : TfsState} {sub' : Subscriber}

/-- A read of the client lowers the rank. -/
theorem subscriberStep_rank {client : SubscriberMain} {pipe : Pipe UInt8} (hl : l.Prints)
    (h : l.client.step l.pipe = .ok (some (client, pipe))) :
    pipe.bytes.length < l.pipe.bytes.length := by
  -- It takes something, since the pipe is open.
  have hread : ∀ {n bytes pipe'}, 0 < n → l.pipe.read n = some (bytes, pipe') →
      pipe'.bytes.length < l.pipe.bytes.length := by
    intro n bytes pipe' hn hread
    obtain ⟨-, rfl, hend⟩ := Pipe.read_eq_some hread
    have hne : l.pipe.bytes ≠ [] := fun hempty => by
      have hclosed := hend hempty
      rw [hl.opened] at hclosed
      cases hclosed
    have hpos := List.length_pos_iff.mpr hne
    show (l.pipe.bytes.drop n).length < _
    rw [List.length_drop]
    omega
  rw [SubscriberMain.step] at h
  cases hpc : l.client.pc with
  | readCode =>
    rw [hpc] at h
    obtain ⟨⟨bytes, pipe'⟩, hsome, heq⟩ := Option.map_eq_some_iff.mp (Outcome.ok.inj h)
    obtain ⟨-, rfl⟩ := Prod.mk.inj heq
    exact hread Nat.one_pos hsome
  | readMessage =>
    rw [hpc] at h
    dsimp only at h
    split at h
    case h_1 => cases h
    case h_2 bytes pipe' hsome =>
      have hlt := hread (by decide) hsome
      split at h
      · split at h
        · obtain ⟨-, rfl⟩ := Prod.mk.inj (Option.some.inj (Outcome.ok.inj h))
          exact hlt
        · cases h
      · obtain ⟨-, rfl⟩ := Prod.mk.inj (Option.some.inj (Outcome.ok.inj h))
        exact hlt
  | done => exact absurd hpc hl.running

/-- A section lowers the rank: the session waits then, or has read one more character. -/
theorem section_rank {q : FileName} {a : FileStore tfsDefaultParams}
    (hatt : Attached q a l.session) (hsize : (a.file q).length ≤ messageSize) (hs : Sim s a)
    (hw : l.writing = []) (hwaiting : l.session.waiting = false)
    (h : readSection l.session s = .ok (sub', s')) :
    SubscriberLink.rank { l with session := sub', writing := l.session.newWrites sub' } < l.rank := by
  obtain ⟨sub₁, s₁, a₁, hread, -, hfile, -, ⟨-, off₁, -, hoff₁, hhas₁, -⟩, -⟩ :=
    sim_readSection hs hatt hsize
  obtain ⟨rfl, rfl⟩ := Prod.mk.inj (Outcome.ok.inj (h.symm.trans hread))
  obtain ⟨f, off, hh, hoff, hhas, -⟩ := hatt
  rw [SubscriberLink.rank, SubscriberLink.rank, hw, hwaiting]
  rcases SubscriberLink.readSection_cases h with rfl | ⟨c, hstore⟩
  · have hnone : l.session.newWrites { l.session with waiting := true } = [] := by
      rw [Subscriber.newWrites, List.drop_length]
      rfl
    have hsame : ({ l.session with waiting := true } : Subscriber).received =
        l.session.received := rfl
    rw [hnone, hsame]
    simp only [List.map_nil, List.sum_nil, Bool.false_eq_true, if_false, if_true]
    omega
  · have hi : l.session.i < messageSize := by
      by_contra hle
      rw [Subscriber.storeChar, if_pos (Nat.le_of_not_lt hle)] at hstore
      cases hstore
    obtain ⟨sub₂, hstore₂, hhas₂, -, hwaiting₂⟩ := hhas.storeChar hi c
    obtain rfl := Outcome.ok.inj (hstore.symm.trans hstore₂)
    have hwrites := sum_newWrites_le hhas₁.sent
      (sendable_completed (by rw [hfile]; exact hsize)) h
    -- One more character has been read, and there was one.
    have hmore : sub'.received = l.session.received + 1 := by
      rw [hhas₂.received, hhas.received, List.length_append, List.length_singleton]
    have hle : sub'.received ≤ messageSize := by
      rw [hhas₁.received, List.length_take, hfile]
      omega
    have hmul : (messageSize - l.session.received) * (2 * messageSize + 5) =
        (messageSize - sub'.received) * (2 * messageSize + 5) + (2 * messageSize + 5) := by
      rw [← Nat.succ_mul]
      congr 1
      omega
    rw [hmul, hwaiting₂]
    simp only [List.map_nil, List.sum_nil, Bool.false_eq_true, if_false]
    omega

end Subscribers

/-! ### No step for ever -/

namespace Relay

variable {q : FileName} {capacity n : Nat} {c c' : Relay} {a : FileStore tfsDefaultParams}
  {s : TfsState} {k : Nat} {l : SubscriberLink} {p : PublisherLink}

/-- One subscriber has less to do. -/
theorem rank_setSubscriber {fs' : TfsState} {l' : SubscriberLink} (hn : k < n)
    (hl : c.subscribers k = some l) (h : l'.rank < l.rank) :
    Prod.Lex (· < ·) (· < ·) (rank n (setSubscriber { c with fs := fs' } k l')) (rank n c) := by
  refine Prod.Lex.right _ (Finset.sum_lt_sum (fun j _ => ?_) ⟨k, Finset.mem_range.mpr hn, ?_⟩)
  · show ((Function.update c.subscribers k (some l') j).map _).getD 0 ≤ _
    by_cases hj : j = k
    · rw [hj, Function.update_self, hl]
      exact h.le
    · rw [Function.update_of_ne hj]
  · show ((Function.update c.subscribers k (some l') k).map _).getD 0 < _
    rw [Function.update_self, hl]
    exact h

/-- **Every step of the programs lowers the rank.** -/
theorem act_rank (hi : c.Inv q a) (hn : ∀ k l, c.subscribers k = some l → k < n)
    (hact : Act q capacity c c') : Prod.Lex (· < ·) (· < ·) (rank n c') (rank n c) := by
  cases hact with
  | client hp hstep =>
    refine Prod.Lex.left _ _ ?_
    have hlt := clientStep_rank hstep
    rw [hp]
    simp only [Option.map_some, Option.getD_some, PublisherLink.rank]
    omega
  | handler hp hstep =>
    have haccounted := hi.accounted
    rw [hp] at haccounted
    obtain ⟨rest, hpending, -⟩ := haccounted
    refine Prod.Lex.left _ _ ?_
    have hlt := handlerStep_rank hpending hstep
    rw [hp]
    simp only [Option.map_some, Option.getD_some, PublisherLink.rank]
    omega
  | publish hp hpc hfree hwrite =>
    refine Prod.Lex.left _ _ ?_
    rw [hp]
    simp only [Option.map_some, Option.getD_some, PublisherLink.rank, PublisherHandler.rank, hpc]
    omega
  | leave hp hpc hclose =>
    refine Prod.Lex.left _ _ ?_
    rw [hp]
    simp only [Option.map_some, Option.map_none, Option.getD_some, Option.getD_none,
      PublisherLink.rank]
    omega
  | read k hl hwaiting hfree hread =>
    have hatt := hi.sessions.subscriber k _ (channel_subscribers hl)
    exact rank_setSubscriber (hn k _ hl) hl
      (section_rank hatt (a.length_file_le q) hi.sessions.sim (hfree k _ hl) hwaiting hread)
  | write k hl hw hwrite =>
    refine rank_setSubscriber (hn k _ hl) hl ?_
    rw [SubscriberLink.rank, SubscriberLink.rank, hw, Pipe.write_eq_some hwrite]
    simp only [List.map_cons, List.sum_cons, List.length_append]
    omega
  | print k hl hstep =>
    refine rank_setSubscriber (hn k _ hl) hl ?_
    have hlt := subscriberStep_rank (hi.prints k _ hl) hstep
    rw [SubscriberLink.rank, SubscriberLink.rank]
    dsimp only
    omega

/-! ### What stays -/

theorem act_subscribers (hact : Act q capacity c c') (k : Nat) :
    (c'.subscribers k).isSome = (c.subscribers k).isSome := by
  have hset : ∀ {fs' : TfsState} {j l l'}, c.subscribers j = some l →
      ((setSubscriber { c with fs := fs' } j l').subscribers k).isSome =
        (c.subscribers k).isSome := by
    intro fs' j l l' hl
    show (Function.update c.subscribers j (some l') k).isSome = _
    by_cases hk : k = j
    · rw [hk, Function.update_self, hl]
      rfl
    · rw [Function.update_of_ne hk]
  cases hact with
  | client => rfl
  | handler => rfl
  | publish => exact Option.isSome_map
  | leave => rfl
  | read j hl => exact hset hl
  | write j hl => exact hset hl
  | print j hl => exact hset hl

theorem bound_of_act (hn : ∀ k l, c.subscribers k = some l → k < n) (hact : Act q capacity c c') :
    ∀ k l, c'.subscribers k = some l → k < n := by
  intro k l hl
  have hsome := act_subscribers hact k
  rw [hl] at hsome
  obtain ⟨l₀, hl₀⟩ := Option.isSome_iff_exists.mp hsome.symm
  exact hn k l₀ hl₀

theorem act_inputs (hact : Act q capacity c c') : c'.inputs = c.inputs := by
  cases hact <;> rfl

/-! ### There is a step -/

/-- A client that there is something for can read. -/
theorem exists_print (h : l.Prints) (hne : l.pipe.bytes ≠ []) :
    ∃ client pipe, l.client.step l.pipe = .ok (some (client, pipe)) := by
  have hread : ∀ {n}, l.pipe.read n ≠ none := fun hnone => hne (Pipe.read_eq_none.mp hnone).1
  obtain ⟨r, hr⟩ := h.clientStep.1
  rcases r with _ | ⟨client, pipe⟩
  · rw [SubscriberMain.step] at hr
    cases hpc : l.client.pc with
    | readCode =>
      rw [hpc] at hr
      exact absurd (Option.map_eq_none_iff.mp (Outcome.ok.inj hr)) hread
    | readMessage =>
      rw [hpc] at hr
      dsimp only at hr
      split at hr
      case h_1 hnone => exact absurd hnone hread
      case h_2 =>
        split at hr
        · split at hr <;> cases hr
        · cases hr
    | done => exact absurd hpc h.running
  · exact ⟨client, pipe, hr⟩

/-- So can a handler, also at the end of the pipe. -/
theorem exists_handlerStep {ms : List CString} (h : p.Pending ms)
    (hpc : p.handler.pc = .readCode ∨ p.handler.pc = .readMessage)
    (hready : ¬ (p.pipe.bytes = [] ∧ p.pipe.closed = false)) :
    ∃ handler pipe, p.handler.step p.pipe = .ok (some (handler, pipe)) := by
  have hread : ∀ {n}, p.pipe.read n ≠ none := fun hnone => hready (Pipe.read_eq_none.mp hnone)
  obtain ⟨r, hr⟩ := h.handlerStep.1
  rcases r with _ | ⟨handler, pipe⟩
  · rw [PublisherHandler.step] at hr
    rcases hpc with hpc | hpc
    · rw [hpc] at hr
      exact absurd (Option.map_eq_none_iff.mp (Outcome.ok.inj hr)) hread
    · rw [hpc] at hr
      dsimp only at hr
      split at hr
      case h_1 hnone => exact absurd hnone hread
      case h_2 =>
        obtain ⟨copy, -, hr⟩ := Outcome.bind_eq_ok.mp hr
        cases hr
  · exact ⟨handler, pipe, hr⟩

/-- A publisher's client that has not finished can go on while the pipe is empty. -/
theorem exists_clientStep {ms : List CString} (h : p.Pending ms) (hcap : messageSize ≤ capacity)
    (hempty : p.pipe.bytes = []) (hpc : p.client.pc ≠ .done) :
    ∃ client pipe, p.client.step capacity p.pipe = .ok (some (client, pipe)) := by
  have hsize : 1 ≤ messageSize := by decide
  have hwrite : ∀ {bs : List UInt8}, bs.length ≤ messageSize → p.pipe.write capacity bs ≠ none := by
    intro bs hbs hnone
    obtain ⟨pipe, hsome⟩ := Pipe.exists_write hempty (hbs.trans hcap)
    rw [hnone] at hsome
    cases hsome
  obtain ⟨r, hr⟩ := (h.clientStep capacity).1
  rcases r with _ | ⟨client, pipe⟩
  · rw [PublisherMain.step] at hr
    cases hstate : p.client.pc with
    | readLine =>
      rw [hstate] at hr
      dsimp only at hr
      split at hr
      · cases hr
      · obtain ⟨message, -, hr⟩ := Outcome.bind_eq_ok.mp hr
        cases hr
    | writeCode =>
      rw [hstate] at hr
      exact absurd (Option.map_eq_none_iff.mp (Outcome.ok.inj hr)) (hwrite hsize)
    | writeMessage =>
      rw [hstate] at hr
      exact absurd (Option.map_eq_none_iff.mp (Outcome.ok.inj hr))
        (hwrite p.client.message.length_bytes.le)
    | done => exact absurd hstate hpc
  · exact ⟨client, pipe, hr⟩

/-- A handler that is sending a message can go on, or its client can. -/
theorem exists_act_of_writing (hi : c.Inv q a) (hcap : messageSize ≤ capacity)
    (hl : c.subscribers k = some l) (hw : l.writing ≠ []) : ∃ c', Act q capacity c c' := by
  have hprints := hi.prints k l hl
  obtain ⟨bs, rest, hwriting⟩ := List.exists_cons_of_ne_nil hw
  by_cases hempty : l.pipe.bytes = []
  · obtain ⟨printed, onWay, -, -, -, -, hcarries⟩ := hprints.onWay
    have hlen := hcarries.length_le (by decide) bs (hwriting ▸ List.mem_cons_self)
    obtain ⟨pipe, hwrite⟩ := Pipe.exists_write hempty (hlen.trans hcap)
    exact ⟨_, .write k hl hwriting hwrite⟩
  · obtain ⟨client, pipe, hstep⟩ := exists_print hprints hempty
    exact ⟨_, .print k hl hstep⟩

/-- While there is a publisher, there is a step. -/
theorem exists_act_of_publisher (hi : c.Inv q a) (hcap : messageSize ≤ capacity) (hfree : c.Free)
    (hp : c.publisher = some p) : ∃ c', Act q capacity c c' := by
  have haccounted := hi.accounted
  rw [hp] at haccounted
  obtain ⟨rest, hpending, -⟩ := haccounted
  have hreads : p.handler.pc = .readCode ∨ p.handler.pc = .readMessage →
      ∃ c', Act q capacity c c' := by
    intro hpc
    by_cases hready : p.pipe.bytes = [] ∧ p.pipe.closed = false
    · -- The client has not closed the pipe, so it has not finished.
      obtain ⟨client, pipe, hstep⟩ := exists_clientStep hpending hcap hready.1 fun hdone => by
        have hclosed := hpending.closed.mpr hdone
        rw [hready.2] at hclosed
        cases hclosed
      exact ⟨_, .client hp hstep⟩
    · obtain ⟨handler, pipe, hstep⟩ := exists_handlerStep hpending hpc hready
      exact ⟨_, .handler hp hstep⟩
  cases hpc : p.handler.pc with
  | readCode => exact hreads (Or.inl hpc)
  | readMessage => exact hreads (Or.inr hpc)
  | write =>
    obtain ⟨fs', -, hwrite, -⟩ := hi.publish hp hpc
    exact ⟨_, .publish hp hpc hfree hwrite⟩
  | leave =>
    obtain ⟨fs', hcall, -⟩ := hi.sessions.sim.call (c := .tfsClose p.handler.boxHandle) trivial
    obtain ⟨⟨r, s₁⟩, hclose, -⟩ := Outcome.bind_eq_ok.mp hcall
    exact ⟨_, .leave hp hpc hclose⟩

/-- **No step is possible exactly when nothing is left to do.** -/
theorem quiet_iff (hi : c.Inv q a) (hcap : messageSize ≤ capacity) :
    c.Quiet ↔ ∀ c', ¬ Act q capacity c c' := by
  constructor
  · rintro ⟨hnone, hsubs⟩ c' hact
    cases hact with
    | client hp => rw [hnone] at hp; cases hp
    | handler hp => rw [hnone] at hp; cases hp
    | publish hp => rw [hnone] at hp; cases hp
    | leave hp => rw [hnone] at hp; cases hp
    | read k hl hwaiting =>
      rw [(hsubs k _ hl).1] at hwaiting
      cases hwaiting
    | write k hl hw =>
      rw [(hsubs k _ hl).2.1] at hw
      cases hw
    | @print l client pipe k hl hstep =>
      obtain ⟨-, -, hempty, hpc⟩ := hsubs k l hl
      rw [SubscriberMain.step, hpc] at hstep
      dsimp only at hstep
      rw [Pipe.read_eq_none.mpr ⟨hempty, (hi.prints k l hl).opened⟩] at hstep
      cases hstep
  · intro hstuck
    have hno : ¬ ∃ c', Act q capacity c c' := not_exists.mpr hstuck
    have hfree : c.Free := fun k l hl => by
      by_contra hw
      exact hno (exists_act_of_writing hi hcap hl hw)
    refine ⟨?_, fun k l hl => ?_⟩
    · cases hp : c.publisher with
      | none => rfl
      | some p => exact absurd (exists_act_of_publisher hi hcap hfree hp) hno
    · have hprints := hi.prints k l hl
      have hw := hfree k l hl
      have hempty : l.pipe.bytes = [] := by
        by_contra hne
        obtain ⟨client, pipe, hstep⟩ := exists_print hprints hne
        exact hno ⟨_, .print k hl hstep⟩
      refine ⟨?_, hw, hempty, ?_⟩
      · by_contra hwaiting
        obtain ⟨sub', fs', -, hread, -⟩ := hi.readSection hl hw
        exact hno ⟨_, .read k hl (by simpa using hwaiting) hfree hread⟩
      · -- Its client is not in the middle of a message.
        obtain ⟨printed, onWay, -, -, -, -, hcarries⟩ := hprints.onWay
        rw [hw] at hcarries
        have hcode := (hcarries.drained (by decide) hempty).1
        cases hpc : l.client.pc with
        | readCode => rfl
        | readMessage => simp [hpc] at hcode
        | done => exact absurd hpc hprints.running

/-! ### Completion -/

/-- The subscribers are finitely many. -/
theorem exists_bound (hrun : Relation.ReflTransGen (Step q capacity) (start s) c) :
    ∃ n, ∀ k l, c.subscribers k = some l → k < n := by
  induction hrun with
  | refl => exact ⟨0, fun k l hl => by cases hl⟩
  | tail _ hstep ih =>
    obtain ⟨n, hn⟩ := ih
    cases hstep with
    | act hact => exact ⟨n, bound_of_act hn hact⟩
    | connect => exact ⟨n, hn⟩
    | attach j =>
      refine ⟨max n (j + 1), fun k l hl => ?_⟩
      rcases Channel.subscribers_update hl with ⟨rfl, -⟩ | ⟨-, hl⟩
      · omega
      · exact lt_max_of_lt_left (hn k l hl)
    | wakeUp j hj =>
      refine ⟨n, fun k l hl => ?_⟩
      rcases Channel.subscribers_update hl with ⟨rfl, -⟩ | ⟨-, hl⟩
      · exact hn k _ hj
      · exact hn k l hl
    | other => exact ⟨n, hn⟩

/-- What the programs do from a state on comes to an end. -/
theorem acc_act (hi : ∃ a, c.Inv q a) (hn : ∀ k l, c.subscribers k = some l → k < n) :
    Acc (fun x y => Act q capacity y x) c := by
  have hwf : WellFounded (Prod.Lex (· < ·) (· < ·) : Nat × Nat → Nat × Nat → Prop) :=
    WellFounded.prod_lex Nat.lt_wfRel.wf Nat.lt_wfRel.wf
  generalize hr : rank n c = r
  induction r using hwf.induction generalizing c with
  | _ r ih =>
    obtain ⟨a, hi⟩ := hi
    refine Acc.intro c fun c' hact => ?_
    exact ih (rank n c') (hr ▸ act_rank hi hn hact) (hi.act hact) (bound_of_act hn hact) rfl

/-- What acts on a relay leave as it is. -/
theorem of_acts (hacts : Relation.ReflTransGen (Act q capacity) c c') :
    c'.inputs = c.inputs ∧ ∀ k, (c'.subscribers k).isSome = (c.subscribers k).isSome := by
  induction hacts with
  | refl => exact ⟨rfl, fun _ => rfl⟩
  | tail _ hact ih =>
    exact ⟨(act_inputs hact).trans ih.1, fun k => (act_subscribers hact k).trans (ih.2 k)⟩

/-- From a state where every run is finite, one comes to a state without steps. -/
theorem exists_stuck {α : Type} {r : α → α → Prop} {x : α} (h : Acc (fun y z => r z y) x) :
    ∃ y, Relation.ReflTransGen r x y ∧ ∀ z, ¬ r y z := by
  induction h with
  | intro x _ ih =>
    by_cases hstep : ∃ y, r x y
    · obtain ⟨y, hy⟩ := hstep
      obtain ⟨z, hz, hstuck⟩ := ih y hy
      exact ⟨z, Relation.ReflTransGen.head hy hz, hstuck⟩
    · exact ⟨x, .refl, not_exists.mp hstep⟩

end Relay

/-! ### Whole lines -/

namespace Relay

variable {q : FileName} {capacity : Nat} {c : Relay} {s : TfsState} {stdin : List UInt8}

theorem noNul_of_run (hrun : Relation.ReflTransGen (Step q capacity) (start s) c) :
    ∀ stdin ∈ c.inputs, 0 ∉ stdin := by
  induction hrun with
  | refl => exact fun _ h => absurd h List.not_mem_nil
  | tail _ hstep ih =>
    cases hstep with
    | act hact =>
      rw [act_inputs hact]
      exact ih
    | connect stdin hnul =>
      intro stdin' hmem
      rcases List.mem_append.mp hmem with hmem | hmem
      · exact ih stdin' hmem
      · exact List.mem_singleton.mp hmem ▸ hnul
    | attach => exact ih
    | wakeUp => exact ih
    | other => exact ih

/-- The lines of an input: each ends with a newline, and fits in the buffer. -/
def Lines (stdin : List UInt8) : Prop :=
  ∃ lines, (∀ line ∈ lines, newline ∉ line ∧ line.length ≤ messageSize - 2) ∧
    stdin = frame newline lines

/-- The messages of lines are the lines. -/
theorem frame_texts (hnul : 0 ∉ stdin) (h : Lines stdin) :
    frame newline ((texts stdin).map CString.bytes) = stdin := by
  obtain ⟨lines, hlines, rfl⟩ := h
  rw [texts, chunks_frame hlines, List.map_map, List.map_map]
  congr 1
  refine (List.map_congr_left fun line hmem => ?_).trans (List.map_id lines)
  have hline : 0 ∉ line := fun hzero => hnul <| by
    rw [frame]
    exact List.mem_flatMap.mpr ⟨line, hmem, List.mem_append_left _ hzero⟩
  show (CString.ofBuffer (line ++ [newline]).dropLast).bytes = line
  rw [List.dropLast_concat, CString.bytes_ofBuffer hline]

/-- The messages of all publishers, as lines, are their inputs, one after the other. -/
theorem frame_allTexts (hnul : ∀ stdin ∈ c.inputs, 0 ∉ stdin) (h : ∀ stdin ∈ c.inputs, Lines stdin) :
    frame newline (c.allTexts.map CString.bytes) = c.inputs.flatten := by
  rw [allTexts, List.map_flatMap]
  generalize c.inputs = inputs at hnul h
  induction inputs with
  | nil => rfl
  | cons stdin inputs ih =>
    obtain ⟨hstdin, hinputs⟩ := List.forall_mem_cons.mp hnul
    obtain ⟨hlines, hrest⟩ := List.forall_mem_cons.mp h
    rw [List.flatMap_cons, frame_append, frame_texts hstdin hlines, ih hinputs hrest,
      List.flatten_cons]

end Relay

/-! ### A line -/

/-- The line `x`. -/
def lineX : List UInt8 := [120, newline]

open Relay in
/-- A publisher with one line, and a subscriber. -/
theorem exists_run_lineX (capacity : Nat) : ∃ c : Relay,
    Relation.ReflTransGen (Step boxA capacity) (start initial) c ∧ c.inputs = [lineX] ∧
      (c.subscribers 0).isSome := by
  have h : (tfsCall (.tfsOpen (some (boxPath boxA.1)) tfsOCreat) initial >>= fun r₀ =>
      tfsOpen (some (boxPath boxA.1)) tfsOAppend r₀.2 >>= fun r₁ =>
      (tfsOpen (some (boxPath boxA.1)) 0 r₁.2).map fun r₂ => (r₁.1, r₂.1)) = .ok (1, 2) := by
    decide +kernel
  obtain ⟨⟨r₀, s₀⟩, hcreate, h⟩ := Outcome.bind_eq_ok.mp h
  obtain ⟨⟨h₁, s₁⟩, hopen₁, h⟩ := Outcome.bind_eq_ok.mp h
  obtain ⟨⟨h₂, s₂⟩, hopen₂, h⟩ := Outcome.map_eq_ok.mp h
  simp only [Prod.mk.injEq] at h
  obtain ⟨rfl, rfl⟩ := h
  have helse : (start initial).channel.Elsewhere boxA
      (.tfsOpen (some (boxPath boxA.1)) tfsOCreat) := by
    show tfsOCreat &&& tfsOTrunc = 0
    rfl
  have run₁ : Relation.ReflTransGen (Step boxA capacity) (start initial)
      { start initial with fs := s₀ } := .single (Step.other _ helse hcreate)
  have run₂ := run₁.tail
    (Step.connect lineX (by decide) .zero .zero .zero .zero 0 rfl hopen₁ (by decide))
  have run₃ := run₂.tail (Step.attach 0 0 0 .zero .zero rfl hopen₂ (by decide))
  exact ⟨_, run₃, rfl, rfl⟩

open Relay in
/-- The line, when it has come through. -/
theorem exists_quiet_lineX : ∃ (c : Relay) (l : SubscriberLink),
    Relation.ReflTransGen (Step boxA messageSize) (start initial) c ∧ c.Quiet ∧
      c.inputs = [lineX] ∧ c.subscribers 0 = some l := by
  obtain ⟨c, hrun, hinputs, hsome⟩ := exists_run_lineX messageSize
  obtain ⟨n, hn⟩ := exists_bound hrun
  obtain ⟨c', hacts, hstuck⟩ := exists_stuck (acc_act (inv_of_run started_initial hrun) hn)
  have hrun' : Relation.ReflTransGen (Step boxA messageSize) (start initial) c' :=
    hrun.trans (hacts.lift id fun _ _ h => Step.act h)
  obtain ⟨a, hi⟩ := inv_of_run started_initial hrun'
  obtain ⟨hinputs', hsubs⟩ := of_acts hacts
  obtain ⟨l, hl⟩ := Option.isSome_iff_exists.mp ((hsubs 0).trans hsome)
  exact ⟨c', l, hrun', (quiet_iff hi (le_refl _)).mpr hstuck, hinputs'.trans hinputs, hl⟩

theorem lines_lineX : ∀ stdin ∈ [lineX], Relay.Lines stdin := by
  refine List.forall_mem_singleton.mpr ⟨[[120]], ?_, rfl⟩
  decide

/-- The messages of the line that fit. -/
theorem fitting_lineX {c : Relay} (hinputs : c.inputs = [lineX]) :
    frame newline (fitting messageSize (c.allTexts.map CString.bytes)) = lineX := by
  have hall : frame newline (c.allTexts.map CString.bytes) = lineX := by
    rw [Relay.frame_allTexts (by rw [hinputs]; decide) (hinputs ▸ lines_lineX), hinputs]
    rfl
  rw [fitting_eq_self (by rw [hall]; decide : (frame newline _).length ≤ messageSize), hall]

/-! ### From end to end -/

open Relay in
/-- **From publishers to subscribers.**  In every run, what a subscriber has printed is, line for
line, a prefix of those messages of the publishers that fit in the file of the box, and all of them
when nothing is left to do; and every step of a program returns, the `tfs_close` at the end of a
publisher's session included. -/
theorem relayed {q : FileName} {capacity : Nat} {s : TfsState} {c : Relay} (hs : Started none s)
    (hrun : Relation.ReflTransGen (Step q capacity) (start s) c) :
    (∀ k l, c.subscribers k = some l →
      l.client.stdout <+: frame newline (fitting messageSize (c.allTexts.map CString.bytes)) ∧
        (c.Quiet → l.client.stdout =
          frame newline (fitting messageSize (c.allTexts.map CString.bytes))) ∧
        (∃ r, l.client.step l.pipe = .ok r) ∧
        (l.writing = [] → ∃ r, readSection l.session c.fs = .ok r)) ∧
      ∀ p, c.publisher = some p →
        (∃ r, p.client.step capacity p.pipe = .ok r) ∧ (∃ r, p.handler.step p.pipe = .ok r) ∧
          (p.handler.pc = .write → ∃ fs',
            writeSection p.handler.boxHandle p.handler.message.bytes c.fs = .ok fs') ∧
          (p.handler.pc = .leave → ∃ r, tfsClose p.handler.boxHandle c.fs = .ok r) := by
  obtain ⟨a, hi⟩ := inv_of_run hs hrun
  refine ⟨fun k l hl => ⟨hi.stdout_prefix hl, fun hquiet => hi.stdout_quiet hquiet hl,
    (hi.prints k l hl).clientStep.1, fun hw => ?_⟩, fun p hp => ?_⟩
  · obtain ⟨sub', fs', -, hread, -⟩ := hi.readSection hl hw
    exact ⟨_, hread⟩
  · have haccounted := hi.accounted
    rw [hp] at haccounted
    obtain ⟨rest, hpending, -⟩ := haccounted
    refine ⟨(hpending.clientStep capacity).1, hpending.handlerStep.1, fun hpc => ?_, fun _ => ?_⟩
    · obtain ⟨fs', -, hwrite, -⟩ := hi.publish hp hpc
      exact ⟨fs', hwrite⟩
    · obtain ⟨fs', hcall, -⟩ := hi.sessions.sim.call (c := .tfsClose p.handler.boxHandle) trivial
      obtain ⟨r, hclose, -⟩ := Outcome.bind_eq_ok.mp hcall
      exact ⟨r, hclose⟩

open Relay in
theorem relayed_lineX : ∃ (c : Relay) (l : SubscriberLink),
    Relation.ReflTransGen (Step boxA messageSize) (start initial) c ∧
      c.subscribers 0 = some l ∧ l.client.stdout = lineX := by
  obtain ⟨c, l, hrun, hquiet, hinputs, hl⟩ := exists_quiet_lineX
  have h := ((relayed started_initial hrun).1 0 l hl).2.1 hquiet
  exact ⟨c, l, hrun, hl, h.trans (fitting_lineX hinputs)⟩

open Relay in
/-- **A relay comes to rest.**  From every state that a run leads to, what the programs do comes to
an end, whatever the order of their steps; and where it does, the publishers have left, and every
subscriber has printed all the messages that fit in the file of the box. -/
theorem relay_completes {q : FileName} {capacity : Nat} {s : TfsState} {c : Relay}
    (hs : Started none s) (hcap : messageSize ≤ capacity)
    (hrun : Relation.ReflTransGen (Step q capacity) (start s) c) :
    Acc (fun x y => Act q capacity y x) c ∧
      ∀ c', Relation.ReflTransGen (Act q capacity) c c' → (∀ c'', ¬ Act q capacity c' c'') →
        c'.publisher = none ∧ ∀ k, (c.subscribers k).isSome → ∃ l, c'.subscribers k = some l ∧
          l.client.stdout =
            frame newline (fitting messageSize (c.allTexts.map CString.bytes)) := by
  obtain ⟨n, hn⟩ := exists_bound hrun
  refine ⟨acc_act (inv_of_run hs hrun) hn, fun c' hacts hstuck => ?_⟩
  have hrun' : Relation.ReflTransGen (Step q capacity) (start s) c' :=
    hrun.trans (hacts.lift id fun _ _ h => Step.act h)
  obtain ⟨a, hi⟩ := inv_of_run hs hrun'
  obtain ⟨hinputs, hsubs⟩ := of_acts hacts
  have hquiet := (quiet_iff hi hcap).mpr hstuck
  refine ⟨hquiet.1, fun k hk => ?_⟩
  obtain ⟨l, hl⟩ := Option.isSome_iff_exists.mp ((hsubs k).trans hk)
  refine ⟨l, hl, ?_⟩
  rw [hi.stdout_quiet hquiet hl, allTexts, allTexts, hinputs]

open Relay in
theorem relay_completes_lineX : ∃ c : Relay,
    Relation.ReflTransGen (Step boxA messageSize) (start initial) c ∧
      ∃ c', Relation.ReflTransGen (Act boxA messageSize) c c' ∧ c'.publisher = none ∧
        ∃ l, c'.subscribers 0 = some l ∧ l.client.stdout = lineX := by
  obtain ⟨c, hrun, hinputs, hsome⟩ := exists_run_lineX messageSize
  obtain ⟨hacc, hend⟩ := relay_completes started_initial (le_refl _) hrun
  obtain ⟨c', hacts, hstuck⟩ := exists_stuck hacc
  obtain ⟨hnone, hsubs⟩ := hend c' hacts hstuck
  obtain ⟨l, hl, hstdout⟩ := hsubs 0 hsome
  exact ⟨c, hrun, c', hacts, hnone, l, hl, hstdout.trans (fitting_lineX hinputs)⟩

open Relay in
/-- **Lines come out as they went in.**  When every line ends with a newline and has at most 1022
other bytes, what a subscriber has printed is a prefix of the inputs of the publishers, one after
the other; when nothing is left to do it is the inputs, if they are no longer than a block. -/
theorem lines_relayed {q : FileName} {capacity : Nat} {s : TfsState} {c : Relay}
    (hs : Started none s) (hrun : Relation.ReflTransGen (Step q capacity) (start s) c)
    (hlines : ∀ stdin ∈ c.inputs, Lines stdin) {k : Nat} {l : SubscriberLink}
    (hl : c.subscribers k = some l) :
    l.client.stdout <+: c.inputs.flatten ∧
      (c.Quiet → c.inputs.flatten.length ≤ messageSize → l.client.stdout = c.inputs.flatten) := by
  obtain ⟨a, hi⟩ := inv_of_run hs hrun
  have hall := frame_allTexts (noNul_of_run hrun) hlines
  refine ⟨?_, fun hquiet hsize => ?_⟩
  · obtain ⟨rest, hrest⟩ := fitting_prefix messageSize (c.allTexts.map CString.bytes)
    have hsplit :=
      frame_append newline (fitting messageSize (c.allTexts.map CString.bytes)) rest
    rw [hrest, hall] at hsplit
    rw [hsplit]
    exact (hi.stdout_prefix hl).trans (List.prefix_append _ _)
  · have hfits : fitting messageSize (c.allTexts.map CString.bytes) =
        c.allTexts.map CString.bytes := fitting_eq_self (hall ▸ hsize)
    rw [hi.stdout_quiet hquiet hl, hfits, hall]

open Relay in
/-- The line is printed. -/
theorem lines_relayed_lineX : ∃ (c : Relay) (l : SubscriberLink),
    Relation.ReflTransGen (Step boxA messageSize) (start initial) c ∧
      c.subscribers 0 = some l ∧ l.client.stdout = lineX := by
  obtain ⟨c, l, hrun, hquiet, hinputs, hl⟩ := exists_quiet_lineX
  have hflatten : c.inputs.flatten = lineX := by
    rw [hinputs]
    rfl
  have hsize : c.inputs.flatten.length ≤ messageSize := by
    rw [hflatten]
    decide
  have h := (lines_relayed started_initial hrun (hinputs ▸ lines_lineX) hl).2 hquiet hsize
  exact ⟨c, l, hrun, hl, h.trans hflatten⟩

end Mbroker
