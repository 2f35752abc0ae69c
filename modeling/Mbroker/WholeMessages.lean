/-
Whole messages.

A publication is two calls of `tfs_write`, one for the message and one for its NUL, whose results
are not looked at; a call stores what there is room for in the block of the file.

* `writeSection_atEnd` — what the two calls store;
* `Publications` — a box, its session, and what each publication has made of the file;
* **`whole_iff`** — the file is made of whole messages exactly in the runs in which there is
  always room for the message and its NUL, or none at all;
* `not_whole_twoMessages` — a message that fills the block but for less than the next one.
-/
import Mbroker.Delimited
import Mbroker.PublisherSessions
import Mbroker.TfsFileEnds

namespace Mbroker

open Tfs Delimited

/-! ### What a publication stores -/

section WriteSection

variable {fs : TfsState} {boxHandle : Int} {q : CString} {f j : Nat} {buffer : List UInt8}

/-- Nothing is written to a handle that is not open. -/
theorem writeSection_closed (h : getOpenFileEntry boxHandle fs = none) :
    writeSection boxHandle buffer fs = .ok fs := by
  have hclosed : ∀ data, tfsWrite boxHandle data fs = .ok (-1, fs) := by
    intro data
    rw [tfsWrite, h]
  rw [writeSection, hclosed, Outcome.ok_bind]
  dsimp only
  rw [hclosed]
  rfl

/-- The message and its NUL are stored as far as there is room. -/
theorem writeSection_atEnd (hs : fs.Inv) (h : fs.AtEndOf boxHandle q f j)
    (hlen : (CString.ofBuffer buffer).strlen < 2 ^ 63) :
    ∃ fs', writeSection boxHandle buffer fs = .ok fs' ∧ fs'.Inv ∧ fs'.AtEndOf boxHandle q f j ∧
      fs'.contents j =
        fs.contents j ++ (CString.ofBuffer buffer).terminated.take (fs.room j) ∧
      ∀ p ≠ q, fs'.readFile p = fs.readFile p := by
  obtain ⟨r₁, fs₁, hw₁, hs₁, h₁, hcont₁, hroom₁, hother₁⟩ := hs.tfsWrite_atEnd h hlen
  have hnul : ([0] : List UInt8).length < 2 ^ 63 := by norm_num
  obtain ⟨r₂, fs₂, hw₂, hs₂, h₂, hcont₂, -, hother₂⟩ := hs₁.tfsWrite_atEnd h₁ hnul
  refine ⟨fs₂, ?_, hs₂, h₂, ?_, fun p hp => (hother₂ p hp).trans (hother₁ p hp)⟩
  · rw [writeSection, hw₁, Outcome.ok_bind]
    dsimp only
    rw [hw₂]
    rfl
  · rw [hcont₂, hcont₁, hroom₁, CString.terminated, List.take_append, List.append_assoc]

/-- A message is not longer than the buffer of a client. -/
theorem strlen_lt_of_length (h : buffer.length = messageSize) :
    (CString.ofBuffer buffer).strlen < 2 ^ 63 := by
  refine (CString.strlen_ofBuffer_le buffer).trans_lt ?_
  rw [h]
  decide

/-- The same for a handle that need not be open. -/
theorem writeSection_spec {data : List UInt8} (hs : fs.Inv) (h : fs.AtEnd boxHandle q)
    (hfile : fs.readFile q = some data) (hlen : (CString.ofBuffer buffer).strlen < 2 ^ 63) :
    ∃ fs', writeSection boxHandle buffer fs = .ok fs' ∧ fs'.Inv ∧ fs'.AtEnd boxHandle q ∧
      fs'.readFile q =
        some (data ++ (CString.ofBuffer buffer).terminated.take (fs.roomAt boxHandle)) ∧
      ∀ p ≠ q, fs'.readFile p = fs.readFile p := by
  rcases hs.atEnd_cases h with hnone | ⟨f, j, hend⟩
  · refine ⟨fs, writeSection_closed (TfsState.entryOf_eq_none.mp hnone), hs, h, ?_, fun _ _ => rfl⟩
    rw [hfile, TfsState.roomAt_of_none hnone, List.take_zero, List.append_nil]
  · obtain ⟨fs', hwrite, hs', hend', hcont, hother⟩ := writeSection_atEnd hs hend hlen
    refine ⟨fs', hwrite, hs', hs'.atEnd_of_atEndOf hend', ?_, hother⟩
    rw [hs.readFile_of_hasFile hend.file] at hfile
    rw [hs'.readFile_of_hasFile hend'.file, hcont, hend.roomAt, Option.some.inj hfile]

end WriteSection

/-! ### A box and what is published on it -/

/-- A message, and the file of its box before and after. -/
structure Publication where
  before : List UInt8
  message : CString
  after : List UInt8

/-- The message has been stored with its NUL, or not at all. -/
def Publication.Whole (p : Publication) : Prop :=
  p.after = p.before ++ p.message.terminated ∨ p.after = p.before

/-- The broker, the session on a box, and the publications so far. -/
structure Publications where
  broker : Broker
  session : Option PublisherSession
  log : List Publication

/-- A part of a publisher's handler, or what other handlers do meanwhile: a call to TécnicoFS, or
a change of the array of boxes. -/
inductive BoxEvent where
  | publisher (part : PublisherPart)
  | call (c : TfsCall)
  | table (t : BoxTable)

namespace Publications

/-- A box without a session. -/
def start (b : Broker) : Publications := ⟨b, none, []⟩

/-- The file of the box. -/
def file (q : CString) (b : Broker) : List UInt8 := (b.fs.readFile q).getD []

/-- The log once a part of the handler has run. -/
def logged (q : CString) (t : Publications) (b : Broker) : PublisherPart → List Publication
  | .message buffer =>
    if t.session.isSome then t.log ++ [⟨file q t.broker, .ofBuffer buffer, file q b⟩] else t.log
  | _ => t.log

/-- One event. -/
def step (q : CString) : BoxEvent → Publications → Outcome (Unit × Publications)
  | .publisher part, t => do
    let (session, b) ← part.run t.session t.broker
    return ((), ⟨b, session, t.logged q b part⟩)
  | .call c, t => do
    let (_, fs) ← tfsCall c t.broker.fs
    return ((), { t with broker := { t.broker with fs := fs } })
  | .table table, t => .ok ((), { t with broker := { t.broker with table := table } })

/-- The call leaves the file of the box and the handle of the session as they are. -/
def Leaves (q : CString) (c : TfsCall) (t : Publications) : Prop :=
  match tfsCall c t.broker.fs with
  | .ok (_, fs) => fs.readFile q = t.broker.fs.readFile q ∧
      ∀ session ∈ t.session,
        fs.entryOf session.boxHandle = t.broker.fs.entryOf session.boxHandle
  | _ => True

/-- The sessions are on the box `q`, one at a time; a message is one buffer of a client; and the
box is neither removed nor used by others. -/
def OnBox (q : CString) : BoxEvent → Publications → Prop
  | .publisher (.register _ boxName), _ => boxName = q
  | .publisher (.message buffer), _ => buffer.length = messageSize ∧ 0 ∈ buffer
  | .publisher .disconnect, _ => True
  | .call c, t => Leaves q c t
  | .table table, _ => table.Holds q

/-- There is room for the message and its NUL, or none at all. -/
def Fits : BoxEvent → Publications → Prop
  | .publisher (.message buffer), t => ∀ session ∈ t.session,
    t.broker.fs.roomAt session.boxHandle = 0 ∨
      (CString.ofBuffer buffer).strlen < t.broker.fs.roomAt session.boxHandle
  | _, _ => True

instance (q : CString) (c : TfsCall) (t : Publications) : Decidable (Leaves q c t) :=
  match h : tfsCall c t.broker.fs with
  | .ok (_, fs) => decidable_of_iff (fs.readFile q = t.broker.fs.readFile q ∧
      ∀ session ∈ t.session,
        fs.entryOf session.boxHandle = t.broker.fs.entryOf session.boxHandle) (by rw [Leaves, h])
  | .panic _ => decidable_of_iff True (by rw [Leaves, h])
  | .fault => decidable_of_iff True (by rw [Leaves, h])

instance (q : CString) : ∀ (e : BoxEvent) (t : Publications), Decidable (OnBox q e t)
  | .publisher (.register _ boxName), _ => inferInstanceAs (Decidable (boxName = q))
  | .publisher (.message buffer), _ =>
    inferInstanceAs (Decidable (buffer.length = messageSize ∧ 0 ∈ buffer))
  | .publisher .disconnect, _ => inferInstanceAs (Decidable True)
  | .call c, t => inferInstanceAs (Decidable (Leaves q c t))
  | .table table, _ => inferInstanceAs (Decidable (table.Holds q))

instance : ∀ (e : BoxEvent) (t : Publications), Decidable (Fits e t)
  | .publisher (.message buffer), t =>
    inferInstanceAs (Decidable (∀ session ∈ t.session,
      t.broker.fs.roomAt session.boxHandle = 0 ∨
        (CString.ofBuffer buffer).strlen < t.broker.fs.roomAt session.boxHandle))
  | .publisher (.register _ _), _ | .publisher .disconnect, _ | .call _, _ | .table _, _ =>
    inferInstanceAs (Decidable True)

/-- Every message has been stored whole or not at all, and the file is made of messages, each
with its NUL. -/
structure Whole (q : CString) (t : Publications) : Prop where
  log : ∀ p ∈ t.log, p.Whole
  file : ∃ ms, (∀ m ∈ ms, 0 ∉ m) ∧ t.broker.fs.readFile q = some (frame 0 ms)

/-- **The invariant**: the handle of the session is where the file ends. -/
structure Inv (q : CString) (t : Publications) : Prop where
  fs : t.broker.fs.Inv
  held : t.broker.table.Holds q
  whole : t.Whole q
  session : ∀ session ∈ t.session,
    session.boxName = q ∧ t.broker.fs.AtEnd session.boxHandle q

variable {q : CString} {t t' : Publications} {b : Broker} {buffer : List UInt8} {c : TfsCall}
  {e : BoxEvent} {fs : TfsState} {o : Option PublisherSession} {session : PublisherSession}

theorem inv_start (hs : b.fs.Inv) (hheld : b.table.Holds q) {ms : List (List UInt8)}
    (hms : ∀ m ∈ ms, 0 ∉ m) (hfile : b.fs.readFile q = some (frame 0 ms)) : (start b).Inv q :=
  ⟨hs, hheld, ⟨fun _ hp => absurd hp List.not_mem_nil, ms, hms, hfile⟩, nofun⟩

/-- What leaves the file as it is. -/
theorem Whole.congr (h : t.Whole q) (hlog : t'.log = t.log)
    (hfile : t'.broker.fs.readFile q = t.broker.fs.readFile q) : t'.Whole q := by
  refine ⟨hlog ▸ h.log, ?_⟩
  rw [hfile]
  exact h.file

/-! ### The sessions -/

theorem Inv.register {pipeName : CString} (ht : t.Inv q)
    (h : publisherFunction pipeName q t.broker = .ok (o, b)) : Inv q ⟨b, o, t.log⟩ := by
  obtain ⟨ms, hms, hfile⟩ := ht.whole.file
  have hopened : ∀ {r₁ r₂ : Int} {fs₁ fs₂ : TfsState},
      tfsOpen (some (boxPath q)) tfsOAppend t.broker.fs = .ok (r₁, fs₁) →
      tfsOpen (some (boxPath q)) tfsOAppend fs₁ = .ok (r₂, fs₂) →
      fs₂.Inv ∧ fs₂.readFile q = some (frame 0 ms) ∧ fs₂.AtEnd r₂ q := by
    intro r₁ r₂ fs₁ fs₂ hopen₁ hopen₂
    have hs₁ := ht.fs.of_tfsOpen hopen₁
    have hfile₁ := ht.fs.readFile_of_tfsOpen_some (by decide) hopen₁ hfile
    have hfile₂ := hs₁.readFile_of_tfsOpen_some (by decide) hopen₂ hfile₁
    have hend := hs₁.atEnd_of_tfsOpen (by decide) (by decide) hopen₂
    rw [skipSlash_boxPath] at hend
    exact ⟨hs₁.of_tfsOpen hopen₂, hfile₂, hend⟩
  cases publisherFunction_spec h with
  | turnedAway hopen₁ hopen₂ =>
    obtain ⟨hs, hfile', -⟩ := hopened hopen₁ hopen₂
    exact ⟨hs, ht.held, ⟨ht.whole.log, ms, hms, hfile'⟩, nofun⟩
  | registered hopen₁ hopen₂ =>
    obtain ⟨hs, hfile', hend⟩ := hopened hopen₁ hopen₂
    refine ⟨hs, (BoxTable.holds_modify ?_).mpr ht.held, ⟨ht.whole.log, ms, hms, hfile'⟩, ?_⟩
    · exact fun _ => rfl
    · rintro session ⟨⟩
      exact ⟨rfl, hend⟩

theorem Inv.disconnect (ht : t.Inv q) (h : endSession session t.broker = .ok b) :
    Inv q ⟨b, none, t.log⟩ := by
  have htable := endSession_table h
  obtain ⟨⟨r, fs⟩, hclose, hret⟩ := Outcome.bind_eq_ok.mp h
  obtain rfl := Outcome.ok.inj hret
  refine ⟨ht.fs.of_tfsClose hclose, ?_, ?_, nofun⟩
  · rw [htable]
    split
    · exact ht.held
    · refine (BoxTable.holds_modify ?_).mpr ht.held
      exact fun _ => rfl
  · exact ht.whole.congr rfl (congrFun (TfsState.readFile_of_tfsClose hclose) q)

/-! ### A message -/

/-- What is stored is whole when it is all of the message and its NUL, or nothing. -/
theorem whole_take_iff {bs : List UInt8} {m : CString} {n : Nat} :
    Publication.Whole ⟨bs, m, bs ++ m.terminated.take n⟩ ↔ n = 0 ∨ m.strlen < n := by
  rw [Publication.Whole]
  dsimp only
  rw [List.append_cancel_left_eq, List.append_right_eq_self, ← List.length_eq_zero_iff,
    List.take_eq_self_iff, List.length_take, CString.length_terminated]
  omega

/-- The publication of a message. -/
theorem Inv.receive (ht : t.Inv q) (hsession : t.session = some session)
    (hlen : buffer.length = messageSize) (hnul : 0 ∈ buffer) :
    ∃ o b, receiveMessage buffer session t.broker = .ok (o, b) ∧ b.fs.Inv ∧ b.table.Holds q ∧
      (∀ session ∈ o, session.boxName = q ∧ b.fs.AtEnd session.boxHandle q) ∧
      b.fs.readFile q = some (file q t.broker ++
        (CString.ofBuffer buffer).terminated.take (t.broker.fs.roomAt session.boxHandle)) := by
  obtain ⟨hq, hend⟩ := ht.session session hsession
  obtain ⟨ms, -, hread⟩ := ht.whole.file
  have hdata : frame 0 ms = file q t.broker := by
    rw [file, hread]
    rfl
  rw [hdata] at hread
  obtain ⟨fs, hwrite, hs, hend', hfile, -⟩ :=
    writeSection_spec ht.fs hend hread (strlen_lt_of_length hlen)
  obtain ⟨i, hi, hfi, hname⟩ := BoxTable.of_findBox (BoxTable.findBox_ne_neg.mpr ht.held)
  have hfind : findBox session.boxName t.broker.table = i := hq ▸ hfi
  have hcall := receiveMessage_written hfind hnul hwrite
  refine ⟨_, _, hcall, hs, ?_, ?_, hfile⟩
  · refine (BoxTable.holds_modify ?_).mpr ht.held
    exact fun _ => rfl
  · rintro session' ⟨⟩
    exact ⟨hq, hend'⟩

theorem Inv.message (ht : t.Inv q) (hsession : t.session = some session)
    (hkind : OnBox q (.publisher (.message buffer)) t)
    (hfits : Fits (.publisher (.message buffer)) t)
    (h : receiveMessage buffer session t.broker = .ok (o, b)) :
    Inv q ⟨b, o, t.log ++ [⟨file q t.broker, .ofBuffer buffer, file q b⟩]⟩ := by
  obtain ⟨hlen, hnul⟩ := hkind
  obtain ⟨o', b', hcall, hs, hheld, hnew, hfile⟩ := ht.receive hsession hlen hnul
  obtain ⟨rfl, rfl⟩ := Prod.mk.inj (Outcome.ok.inj (hcall.symm.trans h))
  have hroom := hfits session hsession
  obtain ⟨ms, hms, hbefore⟩ := ht.whole.file
  have hbefore' : file q t.broker = frame 0 ms := by
    rw [file, hbefore]
    rfl
  have hafter : file q b' = file q t.broker ++
      (CString.ofBuffer buffer).terminated.take (t.broker.fs.roomAt session.boxHandle) := by
    rw [file, hfile]
    rfl
  refine ⟨hs, hheld, ⟨fun p hp => ?_, ?_⟩, hnew⟩
  · rcases List.mem_append.mp hp with hp | hp
    · exact ht.whole.log p hp
    · obtain rfl := List.mem_singleton.mp hp
      rw [hafter]
      exact whole_take_iff.mpr hroom
  · dsimp only
    rw [hfile, hbefore']
    rcases hroom with hnone | hroom
    · exact ⟨ms, hms, by rw [hnone, List.take_zero, List.append_nil]⟩
    · refine ⟨ms ++ [(CString.ofBuffer buffer).bytes], fun m hm => ?_, ?_⟩
      · rcases List.mem_append.mp hm with hm | hm
        · exact hms m hm
        · rw [List.mem_singleton.mp hm]
          exact (CString.ofBuffer buffer).noNul
      · rw [List.take_of_length_le, frame_append, frame_singleton, CString.terminated]
        rw [CString.length_terminated]
        exact hroom

/-! ### The events -/

theorem Inv.publisher {part : PublisherPart} (ht : t.Inv q) (hkind : OnBox q (.publisher part) t)
    (hfits : Fits (.publisher part) t) (h : part.run t.session t.broker = .ok (o, b)) :
    Inv q ⟨b, o, t.logged q b part⟩ := by
  have hspec := PublisherPart.run_spec h
  generalize hsession : t.session = before at hspec
  cases hspec with
  | @register pipeName boxName _ _ hc =>
    obtain rfl : boxName = q := hkind
    exact ht.register hc
  | message hc =>
    rw [logged, hsession]
    exact ht.message hsession hkind hfits hc
  | disconnect hc => exact ht.disconnect hc
  | idle hnone =>
    have hlog : t.logged q t.broker part = t.log := by
      cases part with
      | register pipeName boxName => rfl
      | message buffer =>
        rw [logged, hsession, hnone buffer rfl]
        rfl
      | disconnect => rfl
    rw [hlog, ← hsession]
    exact ht

/-- What other handlers do to the file system. -/
theorem Inv.call {r : Reply} (ht : t.Inv q) (hkind : Leaves q c t)
    (h : tfsCall c t.broker.fs = .ok (r, fs)) :
    Inv q { t with broker := { t.broker with fs := fs } } := by
  rw [Leaves, h] at hkind
  obtain ⟨hfile, hhandle⟩ := hkind
  have hs := ht.fs.tfsCall h
  obtain ⟨ms, -, hread⟩ := ht.whole.file
  refine ⟨hs, ht.held, ht.whole.congr rfl hfile, fun session hsession => ?_⟩
  obtain ⟨hq, hend⟩ := ht.session session hsession
  have hentry := hhandle session hsession
  rcases ht.fs.atEnd_cases hend with hnone | ⟨f, j, hend⟩
  · exact ⟨hq, TfsState.atEnd_of_none (hentry.trans hnone)⟩
  · have hsome : fs.readFile q ≠ none := by
      rw [hfile, hread]
      nofun
    have hj := ht.fs.hasFile_of_tfsCall h hend.file hsome
    have hcont : fs.contents j = t.broker.fs.contents j := by
      rw [hs.readFile_of_hasFile hj, ht.fs.readFile_of_hasFile hend.file] at hfile
      exact Option.some.inj hfile
    have hsize : (fs.inodeTable j).iSize = (t.broker.fs.inodeTable j).iSize := by
      rw [← TfsState.length_contents, hcont, TfsState.length_contents]
    rw [hend.entryOf, ← hsize] at hentry
    obtain ⟨f', hend'⟩ := TfsState.atEndOf_of_entryOf hentry hj
    exact ⟨hq, hs.atEnd_of_atEndOf hend'⟩

/-- **The step lemma.** -/
theorem Inv.step {r : Unit} (ht : t.Inv q) (hkind : OnBox q e t) (hfits : Fits e t)
    (h : Publications.step q e t = .ok (r, t')) : t'.Inv q := by
  cases e with
  | publisher part =>
    obtain ⟨⟨o, b⟩, hpart, hret⟩ := Outcome.bind_eq_ok.mp h
    obtain ⟨-, rfl⟩ := Prod.mk.inj (Outcome.ok.inj hret)
    exact ht.publisher hkind hfits hpart
  | call c =>
    obtain ⟨⟨r', fs⟩, hcall, hret⟩ := Outcome.bind_eq_ok.mp h
    obtain ⟨-, rfl⟩ := Prod.mk.inj (Outcome.ok.inj hret)
    exact ht.call hkind hcall
  | table table =>
    obtain ⟨-, rfl⟩ := Prod.mk.inj (Outcome.ok.inj h)
    exact ⟨ht.fs, hkind, ht.whole.congr rfl rfl, ht.session⟩

/-- A message for which there is some room, but not enough. -/
theorem Inv.not_whole (ht : t.Inv q) (hkind : OnBox q e t) (hno : ¬ Fits e t) :
    ∃ r t', Publications.step q e t = .ok (r, t') ∧ ¬ t'.Whole q := by
  obtain ⟨buffer, rfl⟩ : ∃ buffer, e = .publisher (.message buffer) := by
    match e, hno with
    | .publisher (.message buffer), _ => exact ⟨buffer, rfl⟩
    | .publisher (.register _ _), hno => exact absurd trivial hno
    | .publisher .disconnect, hno => exact absurd trivial hno
    | .call _, hno => exact absurd trivial hno
    | .table _, hno => exact absurd trivial hno
  obtain ⟨hlen, hnul⟩ := hkind
  rw [Fits] at hno
  push Not at hno
  obtain ⟨session, hsession, hsome, hfew⟩ := hno
  replace hsession : t.session = some session := hsession
  obtain ⟨o, b, hcall, -, -, -, hfile⟩ := ht.receive hsession hlen hnul
  have hstep : Publications.step q (.publisher (.message buffer)) t = .ok ((), ⟨b, o,
      t.log ++ [⟨file q t.broker, .ofBuffer buffer, file q b⟩]⟩) := by
    rw [Publications.step, hsession]
    show (receiveMessage buffer session t.broker >>= _) = _
    rw [hcall, Outcome.ok_bind]
    dsimp only
    rw [logged, hsession]
    rfl
  refine ⟨(), _, hstep, fun hwhole => ?_⟩
  have hlast := hwhole.log _ (List.mem_append_right _ List.mem_cons_self)
  rw [show file q b = _ from congrArg (Option.getD · []) hfile, Option.getD_some] at hlast
  exact absurd (whole_take_iff.mp hlast) (not_or.mpr ⟨hsome, by omega⟩)

end Publications

open Publications in
/-- **Whole messages.**  In a state that TécnicoFS can get to, sessions publish on a box one after
the other, and the box is neither removed nor used by others.  After every step each message has
been stored whole or not at all, and the file is made of whole messages, in exactly the runs in
which, at each message that goes to a handle that is open, there is no room at the end of the
file, or room for the message and its NUL. -/
theorem whole_iff {fs₀ fs : TfsState} {cs : List TfsCall} {replies : List Reply}
    {table : BoxTable} {q : CString} {ms : List (List UInt8)} {es : List BoxEvent}
    (hinit : Started none fs₀) (hcalls : runCalls cs fs₀ = .ok (replies, fs))
    (hheld : table.Holds q) (hms : ∀ m ∈ ms, 0 ∉ m) (hfile : fs.readFile q = some (frame 0 ms))
    (hkind : Outcome.Meets (OnBox q) (step q) es (start ⟨fs, table⟩)) :
    (∀ n rs t, Outcome.runList (step q) (es.take n) (start ⟨fs, table⟩) = .ok (rs, t) →
        t.Whole q) ↔ Outcome.Meets Fits (step q) es (start ⟨fs, table⟩) := by
  have hs := (hinit.fresh inRange_tfsDefaultParams).inv.runCalls hcalls
  refine Outcome.good_iff_meets_of_kind (I := fun t => t.Inv q) ?_ ?_ ?_ hkind
    (inv_start hs hheld hms hfile)
  · exact fun e t r t' ht hkind hfits hstep => ht.step hkind hfits hstep
  · exact fun t ht => ht.whole
  · exact fun e t ht hkind hno => ht.not_whole hkind hno

/-- What `create_box` does to the file system for the box `a`, and its record. -/
def newFile : List TfsCall :=
  [.tfsOpen (some (boxPath (.ofBuffer [97]))) tfsOCreat, .tfsClose 0]

def oneBox : BoxTable :=
  { BoxTable.empty with boxes := fun _ => { Box.zero with boxName := .ofBuffer [97] }, nBoxes := 1 }

/-- Two publishers, one after the other, the second when another file has been opened. -/
def twoSessions : List BoxEvent :=
  [.publisher (.register (.ofBuffer [112]) (.ofBuffer [97])),
    .publisher (.message (120 :: List.replicate 1023 0)), .publisher .disconnect,
    .call (.tfsOpen (some (boxPath (.ofBuffer [98]))) tfsOCreat),
    .publisher (.register (.ofBuffer [112]) (.ofBuffer [97])),
    .publisher (.message (121 :: 122 :: List.replicate 1022 0))]

open Publications in
theorem whole_twoSessions :
    ∃ replies fs, runCalls newFile initial = .ok (replies, fs) ∧
      ∀ n rs t, Outcome.runList (step (.ofBuffer [97])) (twoSessions.take n)
        (start ⟨fs, oneBox⟩) = .ok (rs, t) → t.Whole (.ofBuffer [97]) := by
  have h : (runCalls newFile initial).map (fun p => (p.2.readFile (.ofBuffer [97]),
      decide (Outcome.Meets (OnBox (.ofBuffer [97])) (step (.ofBuffer [97])) twoSessions
        (start ⟨p.2, oneBox⟩)),
      decide (Outcome.Meets Fits (step (.ofBuffer [97])) twoSessions (start ⟨p.2, oneBox⟩)))) =
      .ok (some [], true, true) := by
    decide +kernel
  obtain ⟨⟨replies, fs⟩, hcalls, heq⟩ := Outcome.map_eq_ok.mp h
  simp only [Prod.mk.injEq, decide_eq_true_eq] at heq
  obtain ⟨hfile, hkind, hfits⟩ := heq
  have hheld : oneBox.Holds (.ofBuffer [97]) := ⟨0, Nat.one_pos, rfl⟩
  have hms : ∀ m ∈ ([] : List (List UInt8)), 0 ∉ m := nofun
  exact ⟨replies, fs, hcalls,
    (whole_iff started_initial hcalls hheld hms hfile hkind).mpr hfits⟩

/-- A message of 1000 bytes. -/
def longMessage : List BoxEvent :=
  [.publisher (.register (.ofBuffer [112]) (.ofBuffer [97])),
    .publisher (.message (List.replicate 1000 120 ++ List.replicate 24 0))]

/-- Another one, of 30. -/
def nextMessage : BoxEvent :=
  .publisher (.message (List.replicate 30 121 ++ List.replicate 994 0))

open Publications in
/-- The 23 bytes left in the block get the first ones of the second message. -/
theorem not_whole_twoMessages :
    ∃ replies fs rs t, runCalls newFile initial = .ok (replies, fs) ∧
      fs.readFile (.ofBuffer [97]) = some [] ∧
      Outcome.Meets (OnBox (.ofBuffer [97])) (step (.ofBuffer [97])) (longMessage ++ [nextMessage])
        (start ⟨fs, oneBox⟩) ∧
      Outcome.runList (step (.ofBuffer [97])) (longMessage ++ [nextMessage])
        (start ⟨fs, oneBox⟩) = .ok (rs, t) ∧ ¬ t.Whole (.ofBuffer [97]) := by
  have h : (runCalls newFile initial >>= fun p =>
      (Outcome.runList (step (.ofBuffer [97])) longMessage (start ⟨p.2, oneBox⟩)).map fun r =>
        (p.2.readFile (.ofBuffer [97]),
          decide (Outcome.Meets (OnBox (.ofBuffer [97])) (step (.ofBuffer [97]))
            (longMessage ++ [nextMessage]) (start ⟨p.2, oneBox⟩)),
          decide (Outcome.Meets (fun e t => OnBox (.ofBuffer [97]) e t ∧ Fits e t)
            (step (.ofBuffer [97])) longMessage (start ⟨p.2, oneBox⟩)),
          decide (OnBox (.ofBuffer [97]) nextMessage r.2), decide (Fits nextMessage r.2))) =
      .ok (some [], true, true, true, false) := by
    decide +kernel
  obtain ⟨⟨replies, fs⟩, hcalls, h⟩ := Outcome.bind_eq_ok.mp h
  obtain ⟨⟨rs, t⟩, hrun, heq⟩ := Outcome.map_eq_ok.mp h
  simp only [Prod.mk.injEq, decide_eq_true_eq, decide_eq_false_iff_not] at heq
  obtain ⟨hfile, hkind, hmeets, hlast, hno⟩ := heq
  have hs := (started_initial.fresh inRange_tfsDefaultParams).inv.runCalls hcalls
  have hms : ∀ m ∈ ([] : List (List UInt8)), 0 ∉ m := nofun
  have hstart : (start ⟨fs, oneBox⟩).Inv (.ofBuffer [97]) :=
    inv_start hs ⟨0, Nat.one_pos, rfl⟩ hms hfile
  have ht : t.Inv (.ofBuffer [97]) := by
    refine Outcome.runList_invariant_of_reaches (fun e t r t' ht hok hstep => ?_)
      (fun e t' hreach => hmeets.reaches hreach) hstart hrun
    exact ht.step hok.1 hok.2 hstep
  obtain ⟨r, t', hstep, hbad⟩ := ht.not_whole hlast hno
  refine ⟨replies, fs, rs ++ [r], t', hcalls, hfile, hkind, ?_, hbad⟩
  refine Outcome.runList_append_eq_ok.mpr ⟨rs, t, [r], hrun, ?_, rfl⟩
  exact Outcome.runList_cons_eq_ok.mpr ⟨r, t', [], hstep, rfl, rfl⟩

end Mbroker
