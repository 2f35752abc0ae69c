/-
From a box's publishers to its subscribers.

A `Channel` is one box of the broker: the file system, the publisher session on
the box, the subscriber sessions and the messages published.  Its steps are the
sections that the sessions run under the mutex of the box, and the calls that
other handlers make meanwhile (no box is removed).

* `Channel.Sessions` — the publisher is at the end of the file of the box, and a
  subscriber has sent, and has in its buffer, what the part of the file that it has
  read amounts to;
* `Channel.Inv` — and the file is the messages, each ended by a NUL;
* `Inv.step` — every step keeps it;
* **`delivered`** — in every run, what a subscriber has been sent is a prefix of
  the messages, and all of them once it has nothing left to read.
-/
import Mbroker.Delimited
import Mbroker.Handlers
import Mbroker.TfsRefinement
import Mathlib.Logic.Relation

namespace Mbroker

open Tfs Delimited

/-- A message to a subscriber: the code 10, and the message. -/
def delivery (message : List UInt8) : UInt8 × List UInt8 := (10, message)

/-- A subscriber session: the variables of `read_messages`, and what it has
written to its client. -/
structure Subscriber where
  boxHandle : Int
  charBuffer : UInt8
  buffer : List UInt8
  i : Nat
  waiting : Bool := false
  sent : List (UInt8 × List UInt8) := []

/-- A box, seen by those that publish on it and read from it. -/
structure Channel where
  fs : TfsState
  publisher : Option Int
  subscribers : Nat → Option Subscriber
  published : List CString

namespace Channel

/-- A box without sessions. -/
def start (s : TfsState) : Channel := ⟨s, none, fun _ => none, []⟩

end Channel

/-- What `read_messages` does with a character: the end of a message is sent, and
anything else is stored. -/
def Subscriber.storeChar (sub : Subscriber) (c : UInt8) : Outcome Subscriber :=
  if messageSize ≤ sub.i then .fault
  else if c = 0 then
    .ok { sub with
      charBuffer := c
      buffer := List.replicate messageSize 0
      i := 0
      waiting := false
      sent := sub.sent ++ [delivery (fillString messageSize (sub.buffer.set sub.i 0))] }
  else
    .ok { sub with
      charBuffer := c
      buffer := sub.buffer.set sub.i c
      i := sub.i + 1
      waiting := false }

/-- What `read_messages` does under the mutex, up to where it lets go of it: it
starts to wait, or it has dealt with one character. -/
def readSection (sub : Subscriber) (s : TfsState) : Outcome (Subscriber × TfsState) := do
  let ((bytesRead, bytes), s) ← tfsRead sub.boxHandle 1 s
  if bytesRead = 0 then return ({ sub with waiting := true }, s)
  -- A read that fails leaves `char_buffer` as it was.
  let sub ← sub.storeChar (bytes.headD sub.charBuffer)
  return (sub, s)

/-- `pthread_cond_broadcast`. -/
def Subscriber.wake (sub : Subscriber) : Subscriber := { sub with waiting := false }

namespace Channel

/-- The handle of a session. -/
def Held (c : Channel) (h : Int) : Prop :=
  c.publisher = some h ∨ ∃ k sub, c.subscribers k = some sub ∧ sub.boxHandle = h

/-- A call that another handler can make: one that truncates and removes nothing,
that leaves the handles of the sessions alone, and that does not write to the
file of the box. -/
def Elsewhere (q : FileName) (c : Channel) : TfsCall → Prop
  | .tfsOpen _ mode => mode &&& tfsOTrunc = 0
  | .tfsClose h => ¬ c.Held h
  | .tfsRead h len => ¬ c.Held h ∧ len < 2 ^ 63
  | .tfsWrite h buffer => ¬ c.Held h ∧ buffer.length < 2 ^ 63 ∧
      ∀ f j : Nat, h = f → c.fs.HasFile q.1 j → (c.fs.openFileTable f).ofInumber ≠ j
  | .tfsUnlink _ => False

/-- The messages published so far and `m` fit in the file of the box. -/
def Fits (c : Channel) (m : CString) : Prop :=
  ((c.published ++ [m]).map fun m => m.strlen + 1).sum ≤ tfsDefaultParams.blockSize

/-- The steps of a box and its sessions. -/
inductive Step (q : FileName) : Channel → Channel → Prop
  | openPublisher {c : Channel} {h : Int} {fs' : TfsState} (hnone : c.publisher = none)
      (hopen : tfsOpen (some (boxPath q.1)) tfsOAppend c.fs = .ok (h, fs')) (hh : h ≠ -1) :
      Step q c { c with fs := fs', publisher := some h }
  | publish {c : Channel} {h : Int} {fs' : TfsState} (m : CString) (hpub : c.publisher = some h)
      (hfits : c.Fits m) (hwrite : writeSection h (padded messageSize m) c.fs = .ok fs') :
      Step q c { c with
        fs := fs'
        subscribers := fun k => (c.subscribers k).map Subscriber.wake
        published := c.published ++ [m] }
  | closePublisher {c : Channel} {h r : Int} {fs' : TfsState} (hpub : c.publisher = some h)
      (hclose : tfsClose h c.fs = .ok (r, fs')) :
      Step q c { c with fs := fs', publisher := none }
  | attach {c : Channel} {h : Int} {fs' : TfsState} (k : Nat) (charBuffer : UInt8)
      (buffer : List UInt8) (hnone : c.subscribers k = none) (hbuffer : buffer.length = messageSize)
      (hopen : tfsOpen (some (boxPath q.1)) 0 c.fs = .ok (h, fs')) (hh : h ≠ -1) :
      Step q c { c with
        fs := fs'
        subscribers := Function.update c.subscribers k
          (some { boxHandle := h, charBuffer := charBuffer, buffer := buffer, i := 0 }) }
  | read {c : Channel} {sub sub' : Subscriber} {fs' : TfsState} (k : Nat)
      (hsub : c.subscribers k = some sub) (hread : readSection sub c.fs = .ok (sub', fs')) :
      Step q c { c with fs := fs', subscribers := Function.update c.subscribers k (some sub') }
  | other {c : Channel} {r : Reply} {fs' : TfsState} (call : TfsCall) (helse : c.Elsewhere q call)
      (hcall : tfsCall call c.fs = .ok (r, fs')) : Step q c { c with fs := fs' }

end Channel

/-! ### What a subscriber has received -/

/-- The payload of a message. -/
def payload (m : List UInt8) : UInt8 × List UInt8 :=
  delivery (m ++ List.replicate (messageSize - m.length) 0)

/-- The state of a subscriber that has read `bs`. -/
structure Subscriber.Has (sub : Subscriber) (bs : List UInt8) : Prop where
  sent : sub.sent = (feedAll 0 {} bs).completed.map payload
  index : sub.i = (feedAll 0 {} bs).pending.length
  text : sub.buffer.take sub.i = (feedAll 0 {} bs).pending
  size : sub.buffer.length = messageSize

namespace Subscriber

variable {sub : Subscriber} {bs : List UInt8} {h : Int} {ch : UInt8} {buffer : List UInt8}

theorem has_nil (hbuffer : buffer.length = messageSize) :
    Has { boxHandle := h, charBuffer := ch, buffer := buffer, i := 0 } [] :=
  ⟨rfl, rfl, rfl, hbuffer⟩

theorem Has.wake (hs : sub.Has bs) : sub.wake.Has bs := ⟨hs.sent, hs.index, hs.text, hs.size⟩

/-- The buffer with its NUL is the message. -/
theorem Has.fillString (hs : sub.Has bs) (hi : sub.i < messageSize) :
    delivery (Mbroker.fillString messageSize (sub.buffer.set sub.i 0)) =
      payload (feedAll 0 {} bs).pending := by
  have hlen : sub.i < sub.buffer.length := by rw [hs.size]; exact hi
  have hnul := (pending_feedAll (d := (0 : UInt8)) {} bs (by simp)).2
  have hbuf : sub.buffer.set sub.i 0 =
      (CString.mk _ hnul).bytes ++ 0 :: sub.buffer.drop (sub.i + 1) := by
    rw [List.set_eq_take_append_cons_drop, if_pos hlen, hs.text]
  rw [hbuf, fillString_terminated]
  rfl

/-- A character is received. -/
theorem Has.storeChar (hs : sub.Has bs) (hi : sub.i < messageSize) (c : UInt8) :
    ∃ sub', sub.storeChar c = .ok sub' ∧ sub'.Has (bs ++ [c]) ∧ sub'.boxHandle = sub.boxHandle ∧
      sub'.waiting = false := by
  rw [Subscriber.storeChar, if_neg (Nat.not_le.mpr hi)]
  by_cases hc : c = 0
  · -- The message is complete.
    have hfeed : feedAll 0 {} (bs ++ [c]) =
        ⟨(feedAll 0 {} bs).completed ++ [(feedAll 0 {} bs).pending], []⟩ := by
      rw [feedAll_append, feedAll_singleton, Received.feed, if_pos hc]
    rw [if_pos hc]
    refine ⟨_, rfl, ⟨?_, by rw [hfeed]; rfl, by rw [hfeed]; rfl, List.length_replicate⟩, rfl, rfl⟩
    rw [hfeed, List.map_append, hs.fillString hi, hs.sent]
    rfl
  · have hfeed : feedAll 0 {} (bs ++ [c]) =
        ⟨(feedAll 0 {} bs).completed, (feedAll 0 {} bs).pending ++ [c]⟩ := by
      rw [feedAll_append, feedAll_singleton, Received.feed, if_neg hc]
    have hlen : sub.i < sub.buffer.length := by rw [hs.size]; exact hi
    rw [if_neg hc]
    refine ⟨_, rfl, ⟨?_, ?_, ?_, ?_⟩, rfl, rfl⟩
    · rw [hfeed]
      exact hs.sent
    · rw [hfeed, List.length_append, ← hs.index]
      rfl
    · rw [hfeed, ← hs.text]
      show (sub.buffer.set sub.i c).take (sub.i + 1) = _
      rw [List.take_add_one, List.take_set_of_le (le_refl _), List.getElem?_set_self hlen]
      rfl
    · rw [List.length_set]
      exact hs.size

end Subscriber

/-! ### The calls, on the abstract file system -/

section Calls

variable {p : TfsParams} {s s' : TfsState} {a : FileStore p} {h r : Int} {buffer : List UInt8}
  {name : Option CString} {mode : Nat}

theorem sim_tfsOpen (hs : Sim s a) (hmode : mode &&& tfsOTrunc = 0)
    (hopen : tfsOpen name mode s = .ok (r, s')) :
    r = (a.openFile name mode).1 ∧ Sim s' (a.openFile name mode).2 := by
  have hcall : tfsCall (.tfsOpen name mode) s = .ok (⟨r, []⟩, s') := by
    rw [tfsCall, hopen]
    rfl
  obtain ⟨hret, hsim⟩ := hs.of_call (c := .tfsOpen name mode) (fun hm => absurd hmode hm) hcall
  exact ⟨congrArg Reply.ret hret, hsim⟩

theorem sim_tfsClose (hs : Sim s a) (hclose : tfsClose h s = .ok (r, s')) :
    Sim s' (a.closeFile h).2 := by
  have hcall : tfsCall (.tfsClose h) s = .ok (⟨r, []⟩, s') := by
    rw [tfsCall, hclose]
    rfl
  exact (hs.of_call (c := .tfsClose h) trivial hcall).2

theorem sim_tfsWrite (h : Int) (buffer : List UInt8) (hs : Sim s a)
    (hlen : buffer.length < 2 ^ 63) :
    ∃ s', tfsWrite h buffer s = .ok ((a.writeFile h buffer).1, s') ∧
      Sim s' (a.writeFile h buffer).2 := by
  obtain ⟨s', hcall, hsim⟩ := hs.call (c := .tfsWrite h buffer) hlen
  obtain ⟨⟨r, s₁⟩, hwrite, hret⟩ := Outcome.bind_eq_ok.mp hcall
  obtain ⟨hr, rfl⟩ := Prod.mk.inj (Outcome.ok.inj hret)
  have hr' : r = (a.writeFile h buffer).1 := congrArg Reply.ret hr
  exact ⟨s₁, hr' ▸ hwrite, hsim⟩

theorem sim_tfsRead (hs : Sim s a) : ∃ s', tfsRead h 1 s = .ok ((a.readFile h 1).1, s') ∧
    Sim s' (a.readFile h 1).2 := by
  obtain ⟨s', hcall, hsim⟩ := hs.call (c := .tfsRead h 1) (show 1 < 2 ^ 63 by norm_num)
  obtain ⟨⟨⟨r, bytes⟩, s₁⟩, hread, hret⟩ := Outcome.bind_eq_ok.mp hcall
  obtain ⟨hr, rfl⟩ := Prod.mk.inj (Outcome.ok.inj hret)
  have hr' : (r, bytes) = (a.readFile h 1).1 := congrArg (fun r => (r.ret, r.bytes)) hr
  exact ⟨s₁, hr' ▸ hread, hsim⟩

/-- With the default parameters there are more blocks than files. -/
theorem roomForData_default {a : FileStore tfsDefaultParams} (hs : Sim s a) : a.RoomForData := by
  have hinodes := SlotTable.card_used_le (p := fun i => !isFree s.freeinodeTs i)
    (n := tfsDefaultParams.maxInodeCount)
  have hfilter := Finset.card_filter_le a.files.keys fun q => a.file q ≠ []
  rw [hs.card_inodes] at hinodes
  simp only [FileStore.RoomForData, tfsDefaultParams] at *
  omega

/-- A message is appended to the file of the handle, with its NUL; the file is cut at the size of
a block. -/
theorem sim_writeSection_end {a : FileStore tfsDefaultParams} {q : FileName} {m : CString}
    {f : Fin tfsDefaultParams.maxOpenFilesCount} (hs : Sim s a)
    (hh : a.handle? h = some (f, ⟨q, (a.file q).length⟩)) (hlen : m.strlen < messageSize) :
    ∃ (s' : TfsState) (a' : FileStore tfsDefaultParams),
      writeSection h (padded messageSize m) s = .ok s' ∧ Sim s' a' ∧
        a'.file q = (a.file q ++ (m.bytes ++ [0])).take tfsDefaultParams.blockSize ∧
        a'.handle? h = some (f, ⟨q, (a'.file q).length⟩) ∧
        ∀ h' ≠ h, a'.handle? h' = a.handle? h' := by
  have hmsg : messageSize = 1024 := rfl
  have hbytes : m.bytes.length = m.strlen := rfl
  obtain ⟨s₁, hwrite₁, hsim₁⟩ := sim_tfsWrite h m.bytes hs (by omega)
  obtain ⟨hfile₁, hh₁, hother₁⟩ :=
    FileStore.writeFile_end m.bytes hh (roomForData_default hs)
  rw [← hfile₁] at hh₁
  obtain ⟨s₂, hwrite₂, hsim₂⟩ := sim_tfsWrite h [0] hsim₁ (by simp)
  obtain ⟨hfile₂, hh₂, hother₂⟩ :=
    FileStore.writeFile_end [0] hh₁ (roomForData_default hsim₁)
  refine ⟨s₂, _, ?_, hsim₂, ?_, ?_, fun h' hne => ?_⟩
  · simp only [writeSection, ofBuffer_padded hlen, hwrite₁, Outcome.ok_bind, hwrite₂,
      Outcome.pure_eq_ok]
  · rw [hfile₂, hfile₁, FileStore.take_take_append, List.append_assoc]
  · rw [hh₂, hfile₂]
  · rw [hother₂ h' hne, hother₁ h' hne]

/-- An open gives a handle that was not open, and leaves the others as they are. -/
theorem sim_tfsOpen_handle (hs : Sim s a) (hmode : mode &&& tfsOTrunc = 0)
    (hopen : tfsOpen name mode s = .ok (h, s')) :
    ∃ a' : FileStore p, Sim s' a' ∧ a'.file = a.file ∧
      (∀ h' x, a.handle? h' = some x → a'.handle? h' = some x) ∧
      (h ≠ -1 → a.handle? h = none ∧ ∀ q, fileName? name = some q → ∃ f, a'.handle? h =
        some (f, ⟨q, if mode &&& tfsOAppend ≠ 0 then (a'.file q).length else 0⟩)) := by
  obtain ⟨rfl, hsim⟩ := sim_tfsOpen hs hmode hopen
  rcases a.openFile_cases name hmode with heq | ⟨b, q', hq', hhandles, hfile, heq⟩
  · rw [heq] at hsim ⊢
    exact ⟨a, hsim, rfl, fun _ _ hx => hx, fun hne => absurd rfl hne⟩
  · have hhandle : ∀ h, b.handle? h = a.handle? h := fun h => by
      rw [FileStore.handle?, FileStore.handle?, hhandles]
    rw [heq] at hsim ⊢
    have hfile' : (b.addHandle ⟨q', if mode &&& tfsOAppend ≠ 0 then (a.file q').length else 0⟩).2.file
        = a.file := by
      funext q
      rw [FileStore.file_addHandle, hfile]
    refine ⟨_, hsim, hfile', fun h' x hx => ?_, fun hne => ?_⟩
    · obtain ⟨f, e⟩ := x
      exact FileStore.handle?_addHandle ((hhandle h').trans hx)
    · obtain ⟨hnone, f, hnew⟩ := FileStore.handle?_addHandle_new hne
      refine ⟨(hhandle _).symm.trans hnone, fun q hq => ⟨f, ?_⟩⟩
      obtain rfl : q' = q := Option.some.inj (hq'.symm.trans hq)
      rw [hnew, hfile']

/-- A call of another handler changes neither the file of the box nor the handles of its
sessions. -/
theorem sim_elsewhere {a : FileStore p} {q : FileName} {c : Channel} {call : TfsCall} {r : Reply}
    (hs : Sim c.fs a) (hheld : ∀ h, c.Held h → ∃ x, a.handle? h = some x)
    (helse : c.Elsewhere q call) (hcall : tfsCall call c.fs = .ok (r, s')) :
    ∃ a' : FileStore p, Sim s' a' ∧ a'.file q = a.file q ∧
      ∀ h, c.Held h → a'.handle? h = a.handle? h := by
  have hne : ∀ {h h' : Int}, ¬ c.Held h → c.Held h' → h' ≠ h := fun hh hh' heq => hh (heq ▸ hh')
  cases call with
  | tfsOpen name mode =>
    obtain ⟨⟨ret, s₁⟩, hopen, hret⟩ := Outcome.bind_eq_ok.mp hcall
    obtain ⟨-, rfl⟩ := Prod.mk.inj (Outcome.ok.inj hret)
    obtain ⟨a', hsim, hfile, hkept, -⟩ := sim_tfsOpen_handle hs helse hopen
    refine ⟨a', hsim, by rw [hfile], fun h hh => ?_⟩
    obtain ⟨x, hx⟩ := hheld h hh
    rw [hx, hkept h x hx]
  | tfsClose h =>
    obtain ⟨-, hsim⟩ := hs.of_call (c := .tfsClose h) trivial hcall
    obtain ⟨hfile, hother⟩ := a.closeFile_other q h
    exact ⟨_, hsim, hfile, fun h' hh' => hother h' (hne helse hh')⟩
  | tfsRead h len =>
    obtain ⟨-, hsim⟩ := hs.of_call (c := .tfsRead h len) helse.2 hcall
    obtain ⟨hfile, hother⟩ := a.readFile_other q h len
    exact ⟨_, hsim, hfile, fun h' hh' => hother h' (hne helse.1 hh')⟩
  | tfsWrite h buffer =>
    obtain ⟨hnot, hlen, hfar⟩ := helse
    obtain ⟨-, hsim⟩ := hs.of_call (c := .tfsWrite h buffer) hlen hcall
    have hname : ∀ f e, a.handle? h = some (f, e) → e.name ≠ q := by
      rintro f e he rfl
      obtain ⟨hf, -, -, -, -, j, hj, hq, -⟩ := hs.handle?_eq_some he
      exact hfar f j hf hq hj
    obtain ⟨hfile, hother⟩ := FileStore.writeFile_other buffer hname
    exact ⟨_, hsim, hfile, fun h' hh' => hother h' (hne hnot hh')⟩
  | tfsUnlink target => exact absurd helse id

end Calls

/-! ### The sections -/

/-- A subscriber and its handle: it has read the file up to the offset of the
handle, and it waits only at the end. -/
def Attached {p : TfsParams} (q : FileName) (a : FileStore p) (sub : Subscriber) : Prop :=
  ∃ f off, a.handle? sub.boxHandle = some (f, ⟨q, off⟩) ∧ off ≤ (a.file q).length ∧
    sub.Has ((a.file q).take off) ∧ (sub.waiting = true → off = (a.file q).length)

section Attached

variable {p : TfsParams} {s : TfsState} {q : FileName} {a a' : FileStore p} {sub : Subscriber}
  {bs : List UInt8}

/-- What other sessions do to the file system. -/
theorem Attached.frame (h : Attached q a sub) (hfile : a'.file q = a.file q)
    (hhandle : a'.handle? sub.boxHandle = a.handle? sub.boxHandle) : Attached q a' sub := by
  rw [Attached, hhandle, hfile]
  exact h

/-- The file has grown, and the subscriber is woken. -/
theorem Attached.grow (h : Attached q a sub) (hfile : a'.file q = a.file q ++ bs)
    (hhandle : a'.handle? sub.boxHandle = a.handle? sub.boxHandle) : Attached q a' sub.wake := by
  obtain ⟨f, off, hh, hle, hhas, -⟩ := h
  refine ⟨f, off, hhandle.trans hh, ?_, ?_, fun hw => by cases hw⟩
  · rw [hfile, List.length_append]
    omega
  · rw [hfile, List.take_append_of_le_length hle]
    exact hhas.wake

/-- One character is read, or the subscriber waits at the end. -/
theorem sim_readSection (hs : Sim s a) (h : Attached q a sub)
    (hsize : (a.file q).length ≤ messageSize) :
    ∃ (sub' : Subscriber) (s' : TfsState) (a' : FileStore p),
      readSection sub s = .ok (sub', s') ∧ Sim s' a' ∧ a'.file q = a.file q ∧
        sub'.boxHandle = sub.boxHandle ∧ Attached q a' sub' ∧
        ∀ h' ≠ sub.boxHandle, a'.handle? h' = a.handle? h' := by
  obtain ⟨f, off, hh, hle, hhas, -⟩ := h
  obtain ⟨s', hread, hsim⟩ := sim_tfsRead (h := sub.boxHandle) hs
  obtain ⟨hfile, hother⟩ := a.readFile_other q sub.boxHandle 1
  rw [readSection, hread, Outcome.ok_bind]
  rw [FileStore.readFile, hh] at hsim hfile hother ⊢
  dsimp only at hsim hfile hother ⊢
  rcases Nat.eq_or_lt_of_le hle with rfl | hlt
  · -- Nothing is left to read.
    have hnone : ((a.file q).drop (a.file q).length).take 1 = [] := by simp
    rw [hnone] at hsim hfile hother ⊢
    refine ⟨{ sub with waiting := true }, s', _, rfl, hsim, hfile, rfl, ?_, hother⟩
    refine ⟨f, (a.file q).length, FileStore.handle?_setHandle _ hh, le_refl _, ?_, fun _ => by rw [hfile]⟩
    exact ⟨hhas.sent, hhas.index, hhas.text, hhas.size⟩
  · obtain ⟨c, hc⟩ : ∃ c, (a.file q)[off]? = some c := ⟨_, List.getElem?_eq_getElem hlt⟩
    have hone : ((a.file q).drop off).take 1 = [c] := by
      rw [List.drop_eq_getElem_cons hlt, List.take_succ_cons, List.take_zero]
      rw [List.getElem?_eq_getElem hlt, Option.some.injEq] at hc
      rw [hc]
    have htake : (a.file q).take (off + 1) = (a.file q).take off ++ [c] := by
      rw [List.take_add_one, hc]
      rfl
    have hi : sub.i < messageSize := by
      have hpending := (pending_feedAll (d := (0 : UInt8)) {} ((a.file q).take off) (by simp)).1
      rw [← hhas.index, List.length_take] at hpending
      simp only [List.length_nil] at hpending
      omega
    obtain ⟨sub', hstore, hhas', hhandle, hw⟩ := hhas.storeChar hi c
    have hh' := FileStore.handle?_setHandle ⟨q, off + 1⟩ hh
    rw [hone] at hsim hfile hother ⊢
    refine ⟨sub', s', _, ?_, hsim, hfile, hhandle, ?_, hother⟩
    · simp [hstore]
    · refine ⟨f, off + 1, hhandle ▸ hh', by rw [hfile]; omega, ?_, fun h => by simp [hw] at h⟩
      rw [hfile, htake]
      exact hhas'

/-- The read of a subscriber that is at the end of the file. -/
theorem Attached.tfsRead_eq_zero (hs : Sim s a) (h : Attached q a sub) :
    (∃ fs', tfsRead sub.boxHandle 1 s = .ok ((0, []), fs')) ↔
      ∃ f, a.handle? sub.boxHandle = some (f, ⟨q, (a.file q).length⟩) := by
  obtain ⟨f, off, hh, hle, -⟩ := h
  obtain ⟨s', hread, -⟩ := sim_tfsRead (h := sub.boxHandle) hs
  rw [hread, FileStore.readFile, hh]
  dsimp only
  constructor
  · rintro ⟨fs', heq⟩
    have hbytes := congrArg (fun r => r.1.2) (Outcome.ok.inj heq)
    have hlen := congrArg List.length hbytes
    simp only [List.length_take, List.length_drop, List.length_nil] at hlen
    exact ⟨f, by rw [show off = (a.file q).length by omega]⟩
  · rintro ⟨f', heq⟩
    obtain ⟨-, hoff⟩ := Prod.mk.inj (Option.some.inj heq)
    rw [(Handle.mk.inj hoff).2]
    exact ⟨s', by simp⟩

end Attached

/-! ### Runs -/

theorem fileName?_boxPath (q : FileName) : fileName? (some (boxPath q.1)) = some q := by
  refine fileName?_eq_some ?_ rfl
  have hlen : (boxPath q.1).strlen = q.1.strlen + 1 := rfl
  have hpos := q.2.1
  simp only [validPathname, hlen, Bool.and_eq_true, decide_eq_true_eq, beq_iff_eq]
  exact ⟨by omega, rfl⟩

namespace Channel

variable {q : FileName} {c c' : Channel} {a a' : FileStore tfsDefaultParams} {h : Int}
  {s fs' : TfsState} {k : Nat} {sub : Subscriber} {mode : Nat}

/-- The invariant of a box: its file is what has been published, and its sessions
are on it. -/
structure Inv (q : FileName) (c : Channel) (a : FileStore tfsDefaultParams) : Prop where
  sim : Sim c.fs a
  file : a.file q = frame 0 (c.published.map CString.bytes)
  publisher : ∀ h, c.publisher = some h → ∃ f, a.handle? h = some (f, ⟨q, (a.file q).length⟩)
  subscriber : ∀ k sub, c.subscribers k = some sub → Attached q a sub
  apart : ∀ k sub, c.subscribers k = some sub → c.publisher ≠ some sub.boxHandle
  distinct : ∀ k k' sub sub', c.subscribers k = some sub → c.subscribers k' = some sub' →
    sub.boxHandle = sub'.boxHandle → k = k'

/-- The sessions of a box are on its file, whatever there is in it. -/
structure Sessions (q : FileName) (c : Channel) (a : FileStore tfsDefaultParams) : Prop where
  sim : Sim c.fs a
  publisher : ∀ h, c.publisher = some h → ∃ f, a.handle? h = some (f, ⟨q, (a.file q).length⟩)
  subscriber : ∀ k sub, c.subscribers k = some sub → Attached q a sub
  apart : ∀ k sub, c.subscribers k = some sub → c.publisher ≠ some sub.boxHandle
  distinct : ∀ k k' sub sub', c.subscribers k = some sub → c.subscribers k' = some sub' →
    sub.boxHandle = sub'.boxHandle → k = k'

theorem Inv.sessions (hi : c.Inv q a) : c.Sessions q a :=
  ⟨hi.sim, hi.publisher, hi.subscriber, hi.apart, hi.distinct⟩

theorem Sessions.inv (hi : c.Sessions q a)
    (hfile : a.file q = frame 0 (c.published.map CString.bytes)) : c.Inv q a :=
  ⟨hi.sim, hfile, hi.publisher, hi.subscriber, hi.apart, hi.distinct⟩

theorem sessions_start (hs : Started none s) : ∃ a, (start s).Sessions q a ∧ a.file q = [] := by
  have hfresh := hs.fresh inRange_tfsDefaultParams
  have hparams : s.fsParams = tfsDefaultParams := hs.fsParams inRange_tfsDefaultParams
  have hsim := sim_fresh hfresh
  rw [hparams] at hsim
  exact ⟨_, ⟨hsim, fun _ h => (by cases h), fun _ _ h => (by cases h), fun _ _ h => (by cases h),
    fun _ _ _ _ h => (by cases h)⟩, rfl⟩

/-- The sessions' handles are open. -/
theorem Sessions.held (hi : c.Sessions q a) (hheld : c.Held h) : ∃ x, a.handle? h = some x := by
  rcases hheld with hpub | ⟨k, sub, hsub, rfl⟩
  · obtain ⟨f, hf⟩ := hi.publisher h hpub
    exact ⟨_, hf⟩
  · obtain ⟨f, off, hf, -⟩ := hi.subscriber k sub hsub
    exact ⟨_, hf⟩

/-- The file system changes, but neither the file of the box nor its handles. -/
theorem Sessions.frame (hi : c.Sessions q a) (hsim : Sim fs' a') (hfile : a'.file q = a.file q)
    (hheld : ∀ h, c.Held h → a'.handle? h = a.handle? h) : Sessions q { c with fs := fs' } a' where
  sim := hsim
  publisher h hpub := by
    rw [hheld h (Or.inl hpub), hfile]
    exact hi.publisher h hpub
  subscriber k sub hsub :=
    (hi.subscriber k sub hsub).frame hfile (hheld _ (Or.inr ⟨k, sub, hsub, rfl⟩))
  apart := hi.apart
  distinct := hi.distinct

/-- An open gives a handle that no session has. -/
theorem Sessions.tfsOpen {name : Option CString} (hi : c.Sessions q a)
    (hmode : mode &&& tfsOTrunc = 0) (hopen : Tfs.tfsOpen name mode c.fs = .ok (h, fs')) :
    ∃ a', Sessions q { c with fs := fs' } a' ∧ a'.file q = a.file q ∧ (h ≠ -1 → ¬ c.Held h ∧
      (fileName? name = some q → ∃ f, a'.handle? h =
        some (f, ⟨q, if mode &&& tfsOAppend ≠ 0 then (a'.file q).length else 0⟩))) := by
  obtain ⟨a', hsim, hfile, hkept, hnew⟩ := sim_tfsOpen_handle hi.sim hmode hopen
  have hfileq : a'.file q = a.file q := by rw [hfile]
  refine ⟨a', hi.frame hsim hfileq fun h hheld => ?_, hfileq,
    fun hne => ⟨fun hheld => ?_, ?_⟩⟩
  · obtain ⟨x, hx⟩ := hi.held hheld
    rw [hx, hkept h x hx]
  · obtain ⟨x, hx⟩ := hi.held hheld
    rw [(hnew hne).1] at hx
    cases hx
  · exact (hnew hne).2 q

/-- A call of another handler. -/
theorem Sessions.other {call : TfsCall} {r : Reply} (hi : c.Sessions q a)
    (helse : c.Elsewhere q call) (hcall : tfsCall call c.fs = .ok (r, fs')) :
    ∃ a', Sessions q { c with fs := fs' } a' ∧ a'.file q = a.file q := by
  obtain ⟨a', hsim, hfile, hother⟩ := sim_elsewhere hi.sim (fun h hh => hi.held hh) helse hcall
  exact ⟨a', hi.frame hsim hfile hother, hfile⟩

/-- The message fits in the file. -/
theorem Inv.fits {m : CString} (hi : c.Inv q a) (hfits : c.Fits m) :
    (a.file q).length + (m.strlen + 1) ≤ tfsDefaultParams.blockSize := by
  rw [Fits, List.map_append, List.sum_append] at hfits
  rw [hi.file, length_frame, List.map_map]
  rw [List.map_singleton, List.sum_singleton] at hfits
  exact hfits

/-- The publisher writes, and the subscribers are woken; the file is cut at the size of a block. -/
theorem Sessions.publish {m : CString} (ms : List CString) (hi : c.Sessions q a)
    (hpub : c.publisher = some h) (hlen : m.strlen < messageSize) :
    ∃ fs' a', writeSection h (padded messageSize m) c.fs = .ok fs' ∧
      Sessions q { c with
        fs := fs'
        subscribers := fun k => (c.subscribers k).map Subscriber.wake
        published := ms } a' ∧
      a'.file q = (a.file q ++ (m.bytes ++ [0])).take tfsDefaultParams.blockSize := by
  obtain ⟨f, hf⟩ := hi.publisher h hpub
  obtain ⟨fs', a', hwrite, hsim, hfile, hh, hother⟩ := sim_writeSection_end hi.sim hf hlen
  have hwoken : ∀ {k sub}, (c.subscribers k).map Subscriber.wake = some sub →
      ∃ sub₀, c.subscribers k = some sub₀ ∧ sub₀.wake = sub := Option.map_eq_some_iff.mp
  -- What was in the file stays.
  obtain ⟨more, hmore⟩ : a.file q <+: a'.file q := by
    rw [hfile, List.take_append, List.take_of_length_le (a.length_file_le q)]
    exact List.prefix_append _ _
  refine ⟨fs', a', hwrite, ⟨hsim, ?_, ?_, ?_, ?_⟩, hfile⟩
  · intro h' hpub'
    obtain rfl : h = h' := Option.some.inj (hpub.symm.trans hpub')
    exact ⟨f, hh⟩
  · intro k sub hsub
    obtain ⟨sub₀, hsub₀, rfl⟩ := hwoken hsub
    refine (hi.subscriber k sub₀ hsub₀).grow hmore.symm (hother _ ?_)
    rintro rfl
    exact hi.apart k sub₀ hsub₀ hpub
  · intro k sub hsub
    obtain ⟨sub₀, hsub₀, rfl⟩ := hwoken hsub
    exact hi.apart k sub₀ hsub₀
  · intro k k' sub sub' hsub hsub' heq
    obtain ⟨sub₀, hsub₀, rfl⟩ := hwoken hsub
    obtain ⟨sub₁, hsub₁, rfl⟩ := hwoken hsub'
    exact hi.distinct k k' sub₀ sub₁ hsub₀ hsub₁ heq

theorem Inv.publish {m : CString} (hi : c.Inv q a) (hpub : c.publisher = some h)
    (hfits : c.Fits m) :
    ∃ fs' a', writeSection h (padded messageSize m) c.fs = .ok fs' ∧
      Inv q { c with
        fs := fs'
        subscribers := fun k => (c.subscribers k).map Subscriber.wake
        published := c.published ++ [m] } a' := by
  have hfit := hi.fits hfits
  have hlen : m.strlen < messageSize := by
    rw [show messageSize = tfsDefaultParams.blockSize from rfl]
    omega
  obtain ⟨fs', a', hwrite, hi', hfile⟩ := hi.sessions.publish (c.published ++ [m]) hpub hlen
  refine ⟨fs', a', hwrite, hi'.inv ?_⟩
  have hbytes : m.bytes.length = m.strlen := rfl
  rw [hfile, List.take_of_length_le, hi.file, List.map_append, frame_append]
  · simp
  · rw [List.length_append, List.length_append, List.length_singleton]
    omega

/-- A session ends. -/
theorem Sessions.dropPublisher (hi : c.Sessions q a) : Sessions q { c with publisher := none } a :=
  ⟨hi.sim, fun _ h => (by cases h), hi.subscriber, fun _ _ _ h => (by cases h), hi.distinct⟩

theorem subscribers_update {α : Type} {f : Nat → Option α} {x : α} {o : Option α} {k' : Nat}
    (h : Function.update f k o k' = some x) :
    k' = k ∧ o = some x ∨ k' ≠ k ∧ f k' = some x := by
  by_cases hk : k' = k
  · subst hk
    rw [Function.update_self] at h
    exact Or.inl ⟨rfl, h⟩
  · rw [Function.update_of_ne hk] at h
    exact Or.inr ⟨hk, h⟩

theorem Sessions.dropSubscriber (hi : c.Sessions q a) (k : Nat) :
    Sessions q { c with subscribers := Function.update c.subscribers k none } a := by
  have hsub : ∀ {k' sub}, Function.update c.subscribers k none k' = some sub →
      c.subscribers k' = some sub := by
    intro k' sub h'
    rcases subscribers_update h' with ⟨-, h'⟩ | ⟨-, h'⟩
    · cases h'
    · exact h'
  exact ⟨hi.sim, hi.publisher, fun k' sub h' => hi.subscriber k' sub (hsub h'),
    fun k' sub h' => hi.apart k' sub (hsub h'),
    fun k₁ k₂ sub₁ sub₂ h₁ h₂ => hi.distinct k₁ k₂ sub₁ sub₂ (hsub h₁) (hsub h₂)⟩

/-- A session that has a handle of its own. -/
theorem Sessions.setPublisher {f : Fin tfsDefaultParams.maxOpenFilesCount} (hi : c.Sessions q a)
    (hh : a.handle? h = some (f, ⟨q, (a.file q).length⟩)) (hfresh : ¬ c.Held h) :
    Sessions q { c with publisher := some h } a := by
  refine ⟨hi.sim, ?_, hi.subscriber, ?_, hi.distinct⟩
  · intro h' hpub
    obtain rfl : h = h' := Option.some.inj hpub
    exact ⟨f, hh⟩
  · intro k sub hsub hpub
    exact hfresh (Or.inr ⟨k, sub, hsub, (Option.some.inj hpub).symm⟩)

theorem Sessions.setSubscriber (hi : c.Sessions q a) (hsub : Attached q a sub)
    (hfresh : ¬ c.Held sub.boxHandle) :
    Sessions q { c with subscribers := Function.update c.subscribers k (some sub) } a := by
  have hother : ∀ {k' sub'}, c.subscribers k' = some sub' → sub'.boxHandle ≠ sub.boxHandle :=
    fun h' heq => hfresh (Or.inr ⟨_, _, h', heq⟩)
  refine ⟨hi.sim, hi.publisher, ?_, ?_, ?_⟩
  · intro k' sub' h'
    rcases subscribers_update h' with ⟨-, h'⟩ | ⟨-, h'⟩
    · exact Option.some.inj h' ▸ hsub
    · exact hi.subscriber k' sub' h'
  · intro k' sub' h' hpub
    rcases subscribers_update h' with ⟨-, h'⟩ | ⟨-, h'⟩
    · obtain rfl := Option.some.inj h'
      exact hfresh (Or.inl hpub)
    · exact hi.apart k' sub' h' hpub
  · intro k₁ k₂ sub₁ sub₂ h₁ h₂ heq
    rcases subscribers_update h₁ with ⟨rfl, hk₁⟩ | ⟨-, hk₁⟩
    · rcases subscribers_update h₂ with ⟨rfl, -⟩ | ⟨-, hk₂⟩
      · rfl
      · obtain rfl := Option.some.inj hk₁
        exact absurd heq.symm (hother hk₂)
    · rcases subscribers_update h₂ with ⟨rfl, hk₂⟩ | ⟨-, hk₂⟩
      · obtain rfl := Option.some.inj hk₂
        exact absurd heq (hother hk₁)
      · exact hi.distinct k₁ k₂ sub₁ sub₂ hk₁ hk₂ heq

/-- Without subscriber `k`, its handle is nobody's. -/
theorem Sessions.not_held_dropSubscriber (hi : c.Sessions q a) (hsub : c.subscribers k = some sub) :
    ¬ Held { c with subscribers := Function.update c.subscribers k none } sub.boxHandle := by
  rintro (hpub | ⟨k', sub', h', heq⟩)
  · exact hi.apart k sub hsub hpub
  · rcases subscribers_update h' with ⟨-, h'⟩ | ⟨hne, h'⟩
    · cases h'
    · exact hne (hi.distinct k' k sub' sub h' hsub heq)

/-- The publisher's session starts. -/
theorem Sessions.openPublisher (hi : c.Sessions q a)
    (hopen : Tfs.tfsOpen (some (boxPath q.1)) tfsOAppend c.fs = .ok (h, fs')) (hh : h ≠ -1) :
    ∃ a', Sessions q { c with fs := fs', publisher := some h } a' ∧ a'.file q = a.file q := by
  obtain ⟨a', hi', hfile, hnew⟩ := hi.tfsOpen (by decide) hopen
  obtain ⟨hfresh, hhandle⟩ := hnew hh
  obtain ⟨f, hf⟩ := hhandle (fileName?_boxPath q)
  exact ⟨a', hi'.setPublisher hf hfresh, hfile⟩

/-- The publisher's session ends. -/
theorem Sessions.closePublisher {r : Int} (hi : c.Sessions q a) (hpub : c.publisher = some h)
    (hclose : tfsClose h c.fs = .ok (r, fs')) :
    ∃ a', Sessions q { c with fs := fs', publisher := none } a' ∧ a'.file q = a.file q := by
  have hsim := sim_tfsClose hi.sim hclose
  obtain ⟨hfile, hother⟩ := a.closeFile_other q h
  refine ⟨_, hi.dropPublisher.frame hsim hfile fun h' hh' => hother h' ?_, hfile⟩
  rintro rfl
  rcases hh' with hnone | ⟨k, sub, hsub, rfl⟩
  · cases hnone
  · exact hi.apart k sub hsub hpub

/-- A subscriber's session starts. -/
theorem Sessions.attach {charBuffer : UInt8} {buffer : List UInt8} (hi : c.Sessions q a) (k : Nat)
    (hbuffer : buffer.length = messageSize)
    (hopen : Tfs.tfsOpen (some (boxPath q.1)) 0 c.fs = .ok (h, fs')) (hh : h ≠ -1) :
    ∃ a', Sessions q { c with
      fs := fs'
      subscribers := Function.update c.subscribers k
        (some { boxHandle := h, charBuffer := charBuffer, buffer := buffer, i := 0 }) } a' ∧
      a'.file q = a.file q := by
  obtain ⟨a', hi', hfile, hnew⟩ := hi.tfsOpen (by decide) hopen
  obtain ⟨hfresh, hhandle⟩ := hnew hh
  obtain ⟨f, hf⟩ := hhandle (fileName?_boxPath q)
  refine ⟨a', hi'.setSubscriber ⟨f, 0, hf, Nat.zero_le _, ?_, fun hw => by cases hw⟩ hfresh, hfile⟩
  rw [List.take_zero]
  exact Subscriber.has_nil hbuffer

/-- A read section returns. -/
theorem Sessions.readSection (hi : c.Sessions q a) (hsub : c.subscribers k = some sub) :
    ∃ sub' fs' a', Mbroker.readSection sub c.fs = .ok (sub', fs') ∧
      Sessions q { c with
        fs := fs'
        subscribers := Function.update c.subscribers k (some sub') } a' ∧
      a'.file q = a.file q := by
  have hsize : (a.file q).length ≤ messageSize := a.length_file_le q
  obtain ⟨sub', fs', a', hread, hsim, hfile, hhandle, hatt, hother⟩ :=
    sim_readSection hi.sim (hi.subscriber k sub hsub) hsize
  have hnot := hi.not_held_dropSubscriber hsub
  -- The other sessions are left as they were.
  have hrest := (hi.dropSubscriber k).frame hsim hfile fun h' hh' => hother h' fun heq =>
    hnot (heq ▸ hh')
  have hall := hrest.setSubscriber (k := k) hatt (hhandle ▸ hnot)
  simp only [Function.update_idem] at hall
  exact ⟨sub', fs', a', hread, hall, hfile⟩

theorem Inv.readSection (hi : c.Inv q a) (hsub : c.subscribers k = some sub) :
    ∃ sub' fs' a', Mbroker.readSection sub c.fs = .ok (sub', fs') ∧
      Inv q { c with
        fs := fs'
        subscribers := Function.update c.subscribers k (some sub') } a' := by
  obtain ⟨sub', fs', a', hread, hi', hfile⟩ := hi.sessions.readSection hsub
  exact ⟨sub', fs', a', hread, hi'.inv (hfile.trans hi.file)⟩

/-- **The step lemma.** -/
theorem Inv.step (hi : c.Inv q a) (hstep : Step q c c') : ∃ a', c'.Inv q a' := by
  cases hstep with
  | openPublisher hnone hopen hh =>
    obtain ⟨a', hi', hfile⟩ := hi.sessions.openPublisher hopen hh
    exact ⟨a', hi'.inv (hfile.trans hi.file)⟩
  | publish m hpub hfits hwrite =>
    obtain ⟨fs', a', hwrite', hi'⟩ := hi.publish hpub hfits
    obtain rfl := Outcome.ok.inj (hwrite.symm.trans hwrite')
    exact ⟨a', hi'⟩
  | closePublisher hpub hclose =>
    obtain ⟨a', hi', hfile⟩ := hi.sessions.closePublisher hpub hclose
    exact ⟨a', hi'.inv (hfile.trans hi.file)⟩
  | attach k charBuffer buffer hnone hbuffer hopen hh =>
    obtain ⟨a', hi', hfile⟩ := hi.sessions.attach k hbuffer hopen hh
    exact ⟨a', hi'.inv (hfile.trans hi.file)⟩
  | read k hsub hread =>
    obtain ⟨sub', fs', a', hread', hi'⟩ := hi.readSection hsub
    obtain ⟨rfl, rfl⟩ := Prod.mk.inj (Outcome.ok.inj (hread.symm.trans hread'))
    exact ⟨a', hi'⟩
  | other call helse hcall =>
    obtain ⟨a', hi', hfile⟩ := hi.sessions.other helse hcall
    exact ⟨a', hi'.inv (hfile.trans hi.file)⟩

/-- The run lemma. -/
theorem inv_of_run (hs : Started none s) (hrun : Relation.ReflTransGen (Step q) (start s) c) :
    ∃ a, c.Inv q a := by
  induction hrun with
  | refl =>
    obtain ⟨a, hi, hfile⟩ := sessions_start hs
    exact ⟨a, hi.inv hfile⟩
  | tail _ hstep ih =>
    obtain ⟨a, hi⟩ := ih
    exact hi.step hstep

/-! ### What subscribers are sent -/

theorem delimited (c : Channel) : ∀ m ∈ c.published.map CString.bytes, (0 : UInt8) ∉ m := by
  intro m hm
  obtain ⟨m, -, rfl⟩ := List.mem_map.mp hm
  exact m.noNul

/-- What is sent is a prefix of what is published. -/
theorem Inv.sent_prefix (hi : c.Inv q a) (hsub : c.subscribers k = some sub) :
    sub.sent <+: c.published.map fun m => delivery (padded messageSize m) := by
  obtain ⟨f, off, -, -, hhas, -⟩ := hi.subscriber k sub hsub
  have hbs : (a.file q).take off <+: Delimited.frame 0 (c.published.map CString.bytes) :=
    hi.file ▸ List.take_prefix _ _
  have hpre := completed_prefix c.delimited hbs
  rw [hhas.sent]
  have hmap := hpre.map payload
  rwa [List.map_map] at hmap

/-- A subscriber at the end of the file has sent all of it. -/
theorem Inv.sent_all {f : Fin tfsDefaultParams.maxOpenFilesCount} (hi : c.Inv q a)
    (hsub : c.subscribers k = some sub)
    (hend : a.handle? sub.boxHandle = some (f, ⟨q, (a.file q).length⟩)) :
    sub.sent = c.published.map fun m => delivery (padded messageSize m) := by
  obtain ⟨f', off, hh, -, hhas, -⟩ := hi.subscriber k sub hsub
  obtain ⟨-, hoff⟩ := Prod.mk.inj (Option.some.inj (hh.symm.trans hend))
  rw [(Handle.mk.inj hoff).2, List.take_length, hi.file] at hhas
  rw [hhas.sent, feedAll_frame {} rfl c.delimited, List.nil_append, List.map_map]
  rfl

end Channel

open Channel in
/-- **End-to-end delivery.**  In every run on a box, what a subscriber has been
sent is a prefix of the messages published; it is all of them when the subscriber
waits or has nothing left to read, and a subscriber that waits has nothing left
to read; and the sections of the sessions return. -/
theorem delivered {q : FileName} {s : TfsState} {c : Channel} (hs : Started none s)
    (hrun : Relation.ReflTransGen (Step q) (start s) c) :
    (∀ k sub, c.subscribers k = some sub →
      sub.sent <+: (c.published.map fun m => delivery (padded messageSize m)) ∧
        ((∃ fs', tfsRead sub.boxHandle 1 c.fs = .ok ((0, []), fs')) →
          sub.sent = c.published.map fun m => delivery (padded messageSize m)) ∧
        (sub.waiting = true → ∃ fs', tfsRead sub.boxHandle 1 c.fs = .ok ((0, []), fs')) ∧
        ∃ r, readSection sub c.fs = .ok r) ∧
      ∀ h m, c.publisher = some h → c.Fits m →
        ∃ fs', writeSection h (padded messageSize m) c.fs = .ok fs' := by
  obtain ⟨a, hi⟩ := inv_of_run hs hrun
  refine ⟨fun k sub hsub => ⟨hi.sent_prefix hsub, ?_, ?_, ?_⟩, fun h m hpub hfits => ?_⟩
  · intro hread
    obtain ⟨f, hend⟩ := ((hi.subscriber k sub hsub).tfsRead_eq_zero hi.sim).mp hread
    exact hi.sent_all hsub hend
  · intro hw
    obtain ⟨f, off, hh, -, -, hoff⟩ := hi.subscriber k sub hsub
    exact ((hi.subscriber k sub hsub).tfsRead_eq_zero hi.sim).mpr ⟨f, hoff hw ▸ hh⟩
  · obtain ⟨sub', fs', -, hread, -⟩ := hi.readSection hsub
    exact ⟨_, hread⟩
  · obtain ⟨fs', -, hwrite, -⟩ := hi.publish hpub hfits
    exact ⟨fs', hwrite⟩

/-- The box `a`. -/
def boxA : FileName := ⟨.ofBuffer [97], by decide⟩

/-- The message `x`. -/
def messageX : CString := .ofBuffer [120]

open Channel in
/-- A subscriber that waits has been sent the message published. -/
theorem delivered_messageX : ∃ (c : Channel) (sub : Subscriber),
    Relation.ReflTransGen (Step boxA) (start initial) c ∧ c.subscribers 0 = some sub ∧
      sub.waiting = true ∧ sub.sent = [delivery (padded messageSize messageX)] := by
  have h : (tfsCall (.tfsOpen (some (boxPath boxA.1)) tfsOCreat) initial >>= fun r₀ =>
      tfsOpen (some (boxPath boxA.1)) tfsOAppend r₀.2 >>= fun r₁ =>
      tfsOpen (some (boxPath boxA.1)) 0 r₁.2 >>= fun r₂ =>
      writeSection r₁.1 (padded messageSize messageX) r₂.2 >>= fun s₃ =>
      readSection ⟨r₂.1, 0, List.replicate messageSize 0, 0, false, []⟩ s₃ >>= fun r₄ =>
      readSection r₄.1 r₄.2 >>= fun r₅ =>
      (readSection r₅.1 r₅.2).map fun r₆ => (r₁.1, r₂.1, r₆.1.waiting)) = .ok (1, 2, true) := by
    decide +kernel
  obtain ⟨⟨r₀, s₀⟩, hcreate, h⟩ := Outcome.bind_eq_ok.mp h
  obtain ⟨⟨h₁, s₁⟩, hopen₁, h⟩ := Outcome.bind_eq_ok.mp h
  obtain ⟨⟨h₂, s₂⟩, hopen₂, h⟩ := Outcome.bind_eq_ok.mp h
  obtain ⟨s₃, hwrite, h⟩ := Outcome.bind_eq_ok.mp h
  obtain ⟨⟨sub₄, s₄⟩, hread₄, h⟩ := Outcome.bind_eq_ok.mp h
  obtain ⟨⟨sub₅, s₅⟩, hread₅, h⟩ := Outcome.bind_eq_ok.mp h
  obtain ⟨⟨sub₆, s₆⟩, hread₆, h⟩ := Outcome.map_eq_ok.mp h
  simp only [Prod.mk.injEq] at h
  obtain ⟨rfl, rfl, hw⟩ := h
  have helse : Elsewhere boxA (start initial) (.tfsOpen (some (boxPath boxA.1)) tfsOCreat) := by
    show tfsOCreat &&& tfsOTrunc = 0
    rfl
  have run₁ := Relation.ReflTransGen.single (Step.other _ helse hcreate)
  have run₂ := run₁.tail (Step.openPublisher rfl hopen₁ (by decide))
  have run₃ := run₂.tail
    (Step.attach 0 0 (List.replicate messageSize 0) rfl List.length_replicate hopen₂ (by decide))
  have hfits : ([messageX].map fun m => m.strlen + 1).sum ≤ tfsDefaultParams.blockSize := by decide
  have run₄ := run₃.tail (Step.publish messageX rfl hfits hwrite)
  have run₅ := run₄.tail (Step.read 0 rfl hread₄)
  have run₆ := run₅.tail (Step.read 0 rfl hread₅)
  have run₇ := run₆.tail (Step.read 0 rfl hread₆)
  obtain ⟨-, hall, hwait, -⟩ := (delivered started_initial run₇).1 0 sub₆ rfl
  exact ⟨_, sub₆, run₇, rfl, hw, hall (hwait hw)⟩

end Mbroker
