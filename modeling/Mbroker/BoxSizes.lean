/-
The size of a box.

`list_boxes` answers with `box_size`, which a publication advances by the length of its message,
whatever `tfs_write` has made of it: less may have been stored, for want of room, and the handle
of the session may be one of a file that has been removed since.

* `Broker.SizeInv` — the sizes are those of the files, and a file without a box has no message;
* **`sized_of_stored`** — they stay so in the runs in which every message is stored whole, at the
  end of the file of its box;
* `not_sized_staleSession` — a session that goes on while its box is removed and created again.
-/
import Mbroker.WholeMessages

namespace Mbroker

open Tfs PublisherState

/-- The bytes of a file that are not the NULs behind the messages. -/
def messageBytes (data : List UInt8) : Nat := data.countP (· ≠ 0)

@[simp] theorem messageBytes_nil : messageBytes [] = 0 := rfl

@[simp] theorem messageBytes_append (data data' : List UInt8) :
    messageBytes (data ++ data') = messageBytes data + messageBytes data' :=
  List.countP_append

/-- The bytes of a message are all counted, and its NUL is not. -/
theorem messageBytes_take_terminated (m : CString) (n : Nat) :
    messageBytes (m.terminated.take n) = min n m.strlen := by
  have hall : messageBytes (m.bytes.take n) = (m.bytes.take n).length := by
    refine List.countP_eq_length.mpr fun b hb => ?_
    have hne : b ≠ 0 := fun h0 => m.noNul (h0 ▸ List.mem_of_mem_take hb)
    simpa using hne
  have hnul : messageBytes ([0].take (n - m.strlen)) = 0 := by
    refine List.countP_eq_zero.mpr fun b hb => ?_
    have hzero := List.mem_singleton.mp (List.mem_of_mem_take hb)
    simpa using hzero
  rw [CString.terminated, List.take_append, messageBytes_append, hall, List.length_take]
  exact Nat.add_eq_left.mpr hnul

namespace Broker

/-- The size of each box is the number of message bytes in its file. -/
def Sized (b : Broker) : Prop :=
  ∀ i < b.table.nBoxes, ∃ data, b.fs.readFile (b.table.name i) = some data ∧
    (b.table.boxes i).boxSize = messageBytes data

/-- **The invariant**: the sizes are right, and they will be for a new box. -/
structure SizeInv (b : Broker) : Prop where
  fs : b.fs.Inv
  distinct : b.table.Distinct
  sized : b.Sized
  unheld : ∀ q data, ¬ b.table.Holds q → b.fs.readFile q = some data → messageBytes data = 0

/-- No file has changed, and new ones are empty. -/
def FilesKept (fs fs' : TfsState) : Prop :=
  ∀ q, fs'.readFile q = fs.readFile q ∨ fs.readFile q = none ∧ fs'.readFile q = some []

/-- The boxes are the same ones, with the sizes they had. -/
structure SameSizes (t t' : BoxTable) : Prop where
  nBoxes : t'.nBoxes = t.nBoxes
  name : t'.name = t.name
  boxSize : ∀ i, (t'.boxes i).boxSize = (t.boxes i).boxSize

variable {b b' : Broker} {t t' : BoxTable} {fs fs' fs₁ : TfsState} {q : CString} {box : Box}
  {r : Int} {buffer : List UInt8} {session : PublisherSession} {o : Option PublisherSession}
  {i : Nat}

theorem FilesKept.trans (h : FilesKept fs fs₁) (h' : FilesKept fs₁ fs') :
    FilesKept fs fs' := by
  intro q
  rcases h' q with hq' | ⟨hnone, hnew⟩
  · rw [hq']
    exact h q
  · rcases h q with hq | ⟨hnone', hnew'⟩
    · exact Or.inr ⟨hq.symm.trans hnone, hnew⟩
    · rw [hnew'] at hnone
      cases hnone

theorem filesKept_of_tfsClose {fhandle : Int} (h : tfsClose fhandle fs = .ok (r, fs')) :
    FilesKept fs fs' := fun q => Or.inl (congrFun (TfsState.readFile_of_tfsClose h) q)

theorem sameSizes_refl (t : BoxTable) : SameSizes t t := ⟨rfl, rfl, fun _ => rfl⟩

theorem sameSizes_modify {f : Box → Box} (hname : ∀ box, (f box).boxName = box.boxName)
    (hsize : ∀ box, (f box).boxSize = box.boxSize) : SameSizes t (t.modify i f) := by
  refine ⟨rfl, BoxTable.name_modify hname, fun j => ?_⟩
  by_cases hj : j = i
  · rw [hj, BoxTable.boxes_modify_self, hsize]
  · rw [BoxTable.boxes_modify_ne hj]

theorem SizeInv.of_unheld (h : b.SizeInv) (hfiles : FilesKept b.fs fs')
    (hq : ¬ b.table.Holds q) {data : List UInt8} (hread : fs'.readFile q = some data) :
    messageBytes data = 0 := by
  rcases hfiles q with hsame | ⟨-, hnew⟩
  · exact h.unheld q data hq (hsame.symm.trans hread)
  · rw [hread] at hnew
    rw [Option.some.inj hnew, messageBytes_nil]

/-- What leaves the files and the sizes as they are. -/
theorem SizeInv.congr (h : b.SizeInv) (hs' : fs'.Inv) (hfiles : FilesKept b.fs fs')
    (htable : SameSizes b.table t') : SizeInv ⟨fs', t'⟩ := by
  refine ⟨hs', h.distinct.congr htable.nBoxes htable.name, fun i hi => ?_,
    fun q data hq hread => ?_⟩
  · dsimp only at hi ⊢
    rw [htable.nBoxes] at hi
    obtain ⟨data, hread, hsize⟩ := h.sized i hi
    refine ⟨data, ?_, (htable.boxSize i).trans hsize⟩
    rw [htable.name]
    rcases hfiles (b.table.name i) with hsame | ⟨hnone, -⟩
    · exact hsame.trans hread
    · rw [hread] at hnone
      cases hnone
  · refine h.of_unheld hfiles ?_ hread
    rw [BoxTable.Holds] at hq ⊢
    dsimp only at hq
    rwa [htable.nBoxes, htable.name] at hq

/-! ### Boxes that come and go -/

theorem SizeInv.create (h : b.SizeInv) (hc : createBox q box b = .ok (r, b')) : b'.SizeInv := by
  cases createBox_spec hc with
  | held => exact h
  | notOpened hbox hopen =>
    exact h.congr (h.fs.of_tfsOpen hopen) (h.fs.readFile_of_tfsOpen (by decide) hopen)
      (sameSizes_refl _)
  | @added boxHandle closed fs fs₁ table hbox hne hopen hclose hadd =>
    have hs := h.fs.of_tfsOpen hopen
    have hfiles : FilesKept b.fs fs₁ :=
      FilesKept.trans (h.fs.readFile_of_tfsOpen (by decide) hopen) (filesKept_of_tfsClose hclose)
    have hsame := h.congr (hs.of_tfsClose hclose) hfiles (sameSizes_refl _)
    obtain ⟨-, hn, hself, hother⟩ := BoxTable.addBox_ok hadd
    refine ⟨hsame.fs, h.distinct.addBox hadd fun i hi hname => hbox ⟨i, hi, hname⟩,
      fun i hi => ?_, fun p data hp hread => ?_⟩
    · dsimp only at hi ⊢
      by_cases hi' : i = b.table.nBoxes
      · -- The file of the new box is new too, or has no message in it.
        obtain ⟨-, hin, -⟩ := h.fs.names_of_tfsOpen hopen
        have hread := hs.inDir_iff_readFile.mp (hin hne)
        rw [skipSlash_boxPath, ← TfsState.readFile_of_tfsClose hclose] at hread
        obtain ⟨data, hdata⟩ := Option.ne_none_iff_exists'.mp hread
        rw [BoxTable.name, hi', hself]
        exact ⟨data, hdata, (h.of_unheld hfiles hbox hdata).symm⟩
      · rw [BoxTable.name, hother i hi']
        exact hsame.sized i (by dsimp only; omega)
    · refine hsame.unheld p data (fun hheld => hp ?_) hread
      exact (BoxTable.holds_addBox hadd).mpr (Or.inl hheld)

theorem SizeInv.remove (h : b.SizeInv) (hc : removeBox q b = .ok (r, b')) : b'.SizeInv := by
  have hgone : ∀ {r : Int} {fs : TfsState}, r ≠ -1 →
      tfsUnlink (some (boxPath q)) b.fs = .ok (r, fs) →
      fs.readFile q = none ∧ ∀ p ≠ q, fs.readFile p = b.fs.readFile p := by
    intro r fs hne hunlink
    rcases h.fs.readFile_of_tfsUnlink hunlink with ⟨hr, -⟩ | ⟨-, hnone, hother⟩
    · exact absurd hr hne
    · exact ⟨hnone, hother⟩
  cases removeBox_spec hc with
  | notUnlinked hunlink =>
    rcases h.fs.readFile_of_tfsUnlink hunlink with ⟨-, rfl⟩ | ⟨hr, -⟩
    · exact h
    · cases hr
  | notFound hne hunlink hbox =>
    obtain ⟨hnone, hother⟩ := hgone hne hunlink
    refine ⟨h.fs.of_tfsUnlink hunlink, h.distinct, fun i hi => ?_, fun p data hp hread => ?_⟩
    · obtain ⟨data, hread, hsize⟩ := h.sized i hi
      refine ⟨data, (hother _ fun hname => hbox ⟨i, hi, hname⟩).trans hread, hsize⟩
    · by_cases hpq : p = q
      · subst hpq
        rw [hnone] at hread
        cases hread
      · exact h.unheld p data hp ((hother p hpq).symm.trans hread)
  | @deleted r fs i table hne hunlink hi hfind hname hdelete =>
    obtain ⟨hnone, hother⟩ := hgone hne hunlink
    obtain ⟨-, -, hn, hboxes⟩ := BoxTable.deleteBox_ok hdelete
    refine ⟨h.fs.of_tfsUnlink hunlink, h.distinct.deleteBox hdelete, fun j hj => ?_,
      fun p data hp hread => ?_⟩
    · dsimp only at hj ⊢
      have hj' : j < b.table.nBoxes - 1 := hn ▸ hj
      have hlt := BoxTable.movedFrom_lt (i := i) hj'
      obtain ⟨data, hread, hsize⟩ := h.sized _ hlt
      rw [BoxTable.name_deleteBox hdelete hj, hboxes j hj]
      refine ⟨data, (hother _ fun heq => ?_).trans hread, hsize⟩
      exact BoxTable.movedFrom_ne hj' (h.distinct _ hlt i hi (heq.trans hname.symm))
    · by_cases hpq : p = q
      · subst hpq
        rw [hnone] at hread
        cases hread
      · refine h.unheld p data (fun hheld => hp ?_) ((hother p hpq).symm.trans hread)
        refine (h.distinct.holds_deleteBox hdelete hi).mpr ⟨hheld, ?_⟩
        rw [hname]
        exact Ne.symm hpq

/-! ### The publishers -/

theorem SizeInv.register {pipeName : CString} (h : b.SizeInv)
    (hc : publisherFunction pipeName q b = .ok (o, b')) : b'.SizeInv := by
  have hopened : ∀ {r₁ r₂ : Int} {fs₁ fs₂ : TfsState},
      tfsOpen (some (boxPath q)) tfsOAppend b.fs = .ok (r₁, fs₁) →
      tfsOpen (some (boxPath q)) tfsOAppend fs₁ = .ok (r₂, fs₂) →
      fs₂.Inv ∧ FilesKept b.fs fs₂ := by
    intro r₁ r₂ fs₁ fs₂ hopen₁ hopen₂
    have hs₁ := h.fs.of_tfsOpen hopen₁
    exact ⟨hs₁.of_tfsOpen hopen₂, FilesKept.trans (h.fs.readFile_of_tfsOpen (by decide) hopen₁)
      (hs₁.readFile_of_tfsOpen (by decide) hopen₂)⟩
  cases publisherFunction_spec hc with
  | turnedAway hopen₁ hopen₂ =>
    obtain ⟨hs, hfiles⟩ := hopened hopen₁ hopen₂
    exact h.congr hs hfiles (sameSizes_refl _)
  | registered hopen₁ hopen₂ =>
    obtain ⟨hs, hfiles⟩ := hopened hopen₁ hopen₂
    exact h.congr hs hfiles (sameSizes_modify (fun _ => rfl) fun _ => rfl)

theorem SizeInv.disconnect (h : b.SizeInv) (hc : endSession session b = .ok b') : b'.SizeInv := by
  obtain ⟨⟨closed, fs⟩, hclose, hret⟩ := Outcome.bind_eq_ok.mp hc
  obtain rfl := Outcome.ok.inj hret
  refine h.congr (h.fs.of_tfsClose hclose) (filesKept_of_tfsClose hclose) ?_
  split
  · exact sameSizes_refl _
  · exact sameSizes_modify (fun _ => rfl) fun _ => rfl

theorem name_addSize (t : BoxTable) (i n : Nat) :
    (t.modify i fun box => { box with boxSize := box.boxSize + n }).name = t.name :=
  BoxTable.name_modify fun _ => rfl

/-- A message through the handle of the session's own box. -/
theorem SizeInv.receive (h : b.SizeInv) (hi : i < b.table.nBoxes)
    (hname : b.table.name i = session.boxName)
    (hend : b.fs.AtEnd session.boxHandle session.boxName)
    (hlen : (CString.ofBuffer buffer).strlen < 2 ^ 63) (hnul : 0 ∈ buffer) :
    ∃ fs data, receiveMessage buffer session b =
        .ok (some { session with boxIndex := i }, ⟨fs, b.table.modify i fun box =>
          { box with boxSize := box.boxSize + (CString.ofBuffer buffer).strlen }⟩) ∧
      fs.Inv ∧ (b.table.boxes i).boxSize = messageBytes data ∧
      fs.readFile (b.table.name i) =
        some (data ++ (CString.ofBuffer buffer).terminated.take (b.fs.roomAt session.boxHandle)) ∧
      ∀ q ≠ b.table.name i, fs.readFile q = b.fs.readFile q := by
  obtain ⟨data, hread, hsize⟩ := h.sized i hi
  rw [hname] at hread ⊢
  obtain ⟨fs, hwrite, hs, -, hfile, hother⟩ := writeSection_spec h.fs hend hread hlen
  have hfind := (BoxTable.findBox_eq h.distinct hi).mpr hname
  exact ⟨fs, data, receiveMessage_written hfind hnul hwrite, hs, hsize, hfile, hother⟩

theorem SizeInv.message (h : b.SizeInv)
    (hend : b.table.Holds session.boxName → b.fs.AtEnd session.boxHandle session.boxName ∧
      (CString.ofBuffer buffer).strlen ≤ b.fs.roomAt session.boxHandle)
    (hc : receiveMessage buffer session b = .ok (o, b')) : b'.SizeInv := by
  have hspec := receiveMessage_spec hc
  cases hspec with
  | gone hbox hclose =>
    exact h.congr (h.fs.of_tfsClose hclose) (filesKept_of_tfsClose hclose) (sameSizes_refl _)
  | @written i fs hi hname hnul hwrite =>
    obtain ⟨hend, hroom⟩ := hend ⟨i, hi, hname⟩
    have hlen := hroom.trans_lt (h.fs.roomAt_lt session.boxHandle)
    obtain ⟨fs', data, hcall, hs, hsize, hfile, hother⟩ := h.receive hi hname hend hlen hnul
    obtain rfl : fs' = fs :=
      congrArg (fun p => p.2.fs) (Outcome.ok.inj (hcall.symm.trans hc))
    refine ⟨hs, h.distinct.congr rfl (name_addSize _ _ _), fun k hk => ?_,
      fun q data hq hread => ?_⟩
    · dsimp only at hk ⊢
      rw [name_addSize]
      by_cases hki : k = i
      · subst hki
        refine ⟨_, hfile, ?_⟩
        rw [BoxTable.boxes_modify_self, messageBytes_append, messageBytes_take_terminated,
          Nat.min_eq_right hroom, hsize]
      · obtain ⟨data, hread, hsize⟩ := h.sized k hk
        rw [BoxTable.boxes_modify_ne hki]
        refine ⟨data, (hother _ fun heq => ?_).trans hread, hsize⟩
        exact hki (h.distinct k hk i hi heq)
    · have hq' : ¬ b.table.Holds q := by
        refine fun hheld => hq ((BoxTable.holds_modify ?_).mpr hheld)
        exact fun _ => rfl
      exact h.unheld q data hq' ((hother q fun heq => hq' ⟨i, hi, heq.symm⟩).symm.trans hread)

/-- A message that is counted and not stored. -/
theorem SizeInv.not_sized (h : b.SizeInv) (hheld : b.table.Holds session.boxName)
    (hend : b.fs.AtEnd session.boxHandle session.boxName) (hlen : buffer.length = messageSize)
    (hnul : 0 ∈ buffer)
    (hfew : b.fs.roomAt session.boxHandle < (CString.ofBuffer buffer).strlen) :
    ∃ o b', receiveMessage buffer session b = .ok (o, b') ∧ ¬ b'.Sized := by
  obtain ⟨i, hi, hname⟩ := hheld
  obtain ⟨fs, data, hcall, -, hsize, hfile, -⟩ :=
    h.receive hi hname hend (strlen_lt_of_length hlen) hnul
  refine ⟨_, _, hcall, fun hsized => ?_⟩
  obtain ⟨data', hread, hsize'⟩ := hsized i hi
  dsimp only at hread hsize'
  rw [name_addSize, hfile] at hread
  rw [BoxTable.boxes_modify_self, ← Option.some.inj hread, messageBytes_append,
    messageBytes_take_terminated, Nat.min_eq_left hfew.le, hsize] at hsize'
  dsimp only at hsize'
  omega

end Broker

namespace PublisherState

open Broker

/-- The messages are buffers of clients, and the handles that they go to, if they are open, are
those of the boxes that the messages are for, and at the end of the file. -/
def OwnFile : PublisherEvent → PublisherState → Prop
  | .publisher k (.message buffer), s => ∀ session ∈ s.sessions k,
    (buffer.length = messageSize ∧ 0 ∈ buffer) ∧ (s.broker.table.Holds session.boxName →
      s.broker.fs.AtEnd session.boxHandle session.boxName)
  | _, _ => True

/-- A message for a box in the table goes to the end of the file of the box, and there is room
for it. -/
def Stored : PublisherEvent → PublisherState → Prop
  | .publisher k (.message buffer), s => ∀ session ∈ s.sessions k,
    s.broker.table.Holds session.boxName →
      s.broker.fs.AtEnd session.boxHandle session.boxName ∧
        (CString.ofBuffer buffer).strlen ≤ s.broker.fs.roomAt session.boxHandle
  | _, _ => True

instance : ∀ (e : PublisherEvent) (s : PublisherState), Decidable (OwnFile e s)
  | .publisher k (.message buffer), s => inferInstanceAs (Decidable (∀ session ∈ s.sessions k,
    (buffer.length = messageSize ∧ 0 ∈ buffer) ∧ (s.broker.table.Holds session.boxName →
      s.broker.fs.AtEnd session.boxHandle session.boxName)))
  | .publisher _ (.register _ _), _ | .publisher _ .disconnect, _ | .create _ _, _ | .remove _, _ =>
    inferInstanceAs (Decidable True)

instance : ∀ (e : PublisherEvent) (s : PublisherState), Decidable (Stored e s)
  | .publisher k (.message buffer), s => inferInstanceAs (Decidable (∀ session ∈ s.sessions k,
    s.broker.table.Holds session.boxName →
      s.broker.fs.AtEnd session.boxHandle session.boxName ∧
        (CString.ofBuffer buffer).strlen ≤ s.broker.fs.roomAt session.boxHandle))
  | .publisher _ (.register _ _), _ | .publisher _ .disconnect, _ | .create _ _, _ | .remove _, _ =>
    inferInstanceAs (Decidable True)

variable {s s' : PublisherState} {e : PublisherEvent} {fs : TfsState}

theorem sizeInv_start (hs : fs.Fresh) : (start fs).broker.SizeInv := by
  refine ⟨hs.inv, fun i hi => absurd hi (Nat.not_lt_zero i), fun i hi => absurd hi
    (Nat.not_lt_zero i), fun q data _ hread => ?_⟩
  obtain ⟨j, hj, -⟩ := hs.inv.readFile_eq_some.mp hread
  exact absurd (hs.inv.isFile_of_hasFile hj) (hs.noFile j)

/-- A part of a publisher's handler. -/
theorem sizeInv_publisher {k : Nat} {part : PublisherPart} {o : Option PublisherSession}
    {b : Broker} (h : s.broker.SizeInv) (hok : Stored (.publisher k part) s)
    (hc : part.run (s.sessions k) s.broker = .ok (o, b)) : b.SizeInv := by
  have hspec := PublisherPart.run_spec hc
  generalize hk : s.sessions k = before at hspec
  cases hspec with
  | register hc => exact h.register hc
  | message hc => exact h.message (hok _ hk) hc
  | disconnect hc => exact h.disconnect hc
  | idle => exact h

/-- **The step lemma.** -/
theorem sizeInv_step {r : Unit} (h : s.broker.SizeInv) (hok : Stored e s)
    (hstep : step e s = .ok (r, s')) : s'.broker.SizeInv := by
  cases step_spec hstep with
  | create hc => exact h.create hc
  | remove hc => exact h.remove hc
  | publisher hc => exact sizeInv_publisher h hok hc

/-- A message that is not stored whole, although it goes to the end of its file. -/
theorem not_sized_step (h : s.broker.SizeInv) (hkind : OwnFile e s) (hno : ¬ Stored e s) :
    ∃ r s', step e s = .ok (r, s') ∧ ¬ s'.broker.Sized := by
  obtain ⟨k, buffer, rfl⟩ : ∃ k buffer, e = .publisher k (.message buffer) := by
    match e, hno with
    | .publisher k (.message buffer), _ => exact ⟨k, buffer, rfl⟩
    | .publisher _ (.register _ _), hno => exact absurd trivial hno
    | .publisher _ .disconnect, hno => exact absurd trivial hno
    | .create _ _, hno => exact absurd trivial hno
    | .remove _, hno => exact absurd trivial hno
  rw [Stored] at hno
  push Not at hno
  obtain ⟨session, hk, hheld, hfew⟩ := hno
  obtain ⟨⟨hlen, hnul⟩, hend⟩ := hkind session hk
  obtain ⟨o, b, hc, hbad⟩ :=
    h.not_sized hheld (hend hheld) hlen hnul (hfew (hend hheld))
  have hk : s.sessions k = some session := hk
  refine ⟨(), ⟨b, Function.update s.sessions k o⟩, ?_, hbad⟩
  rw [step, hk]
  show (receiveMessage buffer session s.broker >>= _) = _
  rw [hc]
  rfl

end PublisherState

/-- **Sizes of boxes.**  Boxes are created and removed and messages are published, one event after
the other.  The size of every box is the number of message bytes in its file as long as every
message for a box in the table goes to the end of the file of the box and there is room for it.
In the runs in which the messages go to the ends of the files of their boxes it is not so any more
once there is no room for one. -/
theorem sized_of_stored {fs : TfsState} {es : List PublisherEvent} (hinit : Started none fs) :
    (Outcome.Meets Stored step es (start fs) → ∀ n rs s,
      Outcome.runList step (es.take n) (start fs) = .ok (rs, s) → s.broker.Sized) ∧
    (Outcome.Meets OwnFile step es (start fs) →
      (∀ n rs s, Outcome.runList step (es.take n) (start fs) = .ok (rs, s) → s.broker.Sized) →
        Outcome.Meets Stored step es (start fs)) := by
  have hstart := sizeInv_start (hinit.fresh inRange_tfsDefaultParams)
  constructor
  · intro hstored
    have hall : Outcome.Meets (fun _ _ => True) step es (start fs) :=
      Outcome.meets_of_forall fun _ _ _ => trivial
    refine (Outcome.good_iff_meets_of_kind (I := fun s => s.broker.SizeInv) ?_ ?_ ?_ hstored
      hstart).mpr hall
    · exact fun e s r s' h hok _ hstep => sizeInv_step h hok hstep
    · exact fun s h => h.sized
    · exact fun e s _ _ hno => absurd trivial hno
  · intro hkind
    refine (Outcome.good_iff_meets_of_kind (I := fun s => s.broker.SizeInv) ?_ ?_ ?_ hkind
      hstart).mp
    · exact fun e s r s' h _ hok hstep => sizeInv_step h hok hstep
    · exact fun s h => h.sized
    · exact fun e s h hkind hno => not_sized_step h hkind hno

/-- A box, a message, the removal of the box and its creation again. -/
def oneMessage : List PublisherEvent :=
  [.create (.ofBuffer [97]) .zero, .publisher 0 (.register (.ofBuffer [112]) (.ofBuffer [97])),
    .publisher 0 (.message (120 :: List.replicate 1023 0)), .publisher 0 .disconnect,
    .remove (.ofBuffer [97]), .create (.ofBuffer [97]) .zero]

theorem sized_oneMessage :
    (∀ n rs s, Outcome.runList step (oneMessage.take n) (start initial) = .ok (rs, s) →
      s.broker.Sized) ∧ Outcome.Meets Stored step oneMessage (start initial) := by
  have hstored : Outcome.Meets Stored step oneMessage (start initial) := by
    decide +kernel
  have hkind : Outcome.Meets OwnFile step oneMessage (start initial) := by
    decide +kernel
  have hsized := (sized_of_stored started_initial).1 hstored
  exact ⟨hsized, (sized_of_stored started_initial).2 hkind hsized⟩

/-- A box is removed while it has a session; then another box gets its inode, and the box is
created again. -/
def staleSession : List PublisherEvent :=
  [.create (.ofBuffer [97]) .zero, .publisher 0 (.register (.ofBuffer [112]) (.ofBuffer [97])),
    .remove (.ofBuffer [97]), .create (.ofBuffer [98]) .zero, .create (.ofBuffer [97]) .zero,
    .publisher 0 (.message (120 :: List.replicate 1023 0))]

/-- The message is counted for the one box and stored in the file of the other. -/
theorem not_sized_staleSession : ∃ rs s,
    Outcome.runList step staleSession (start initial) = .ok (rs, s) ∧ ¬ s.broker.Sized := by
  have h : (Outcome.runList step staleSession (start initial)).map (fun p =>
      (p.2.broker.table.nBoxes, p.2.broker.table.name 1, (p.2.broker.table.boxes 1).boxSize,
        p.2.broker.fs.readFile (.ofBuffer [97]))) =
      .ok (2, .ofBuffer [97], 1, some []) := by
    decide +kernel
  obtain ⟨⟨rs, s⟩, hrun, hs⟩ := Outcome.map_eq_ok.mp h
  simp only [Prod.mk.injEq] at hs
  obtain ⟨hn, hname, hsize, hread⟩ := hs
  refine ⟨rs, s, hrun, fun hsized => ?_⟩
  obtain ⟨data, hdata, hcount⟩ := hsized 1 (by omega)
  rw [hname, hread] at hdata
  rw [hsize, ← Option.some.inj hdata] at hcount
  exact absurd hcount (by decide)

end Mbroker
