/-
What the managers print, over whole runs of the broker.

The broker handles one request after the other, of managers and of others, and each manager prints
what it is told.  From the outside, the broker is then a set of names (`Board`): boxes are added and
removed as the managers say, publishers and subscribers change nothing, and a listing shows all of
the names, in their order.

There is always a handler for the next request (fewer than `max_sessions` are at work), and a run
ends where the broker does, as when the removal of a box wakes up a subscriber, or where
`delete_box` would wait for a publisher.

* `RecordBroker.Tidy` — the names of the boxes are strings, different, and those of files, and no
  mark has been left;
* `Tidy.create`, `Tidy.remove`, `Tidy.list`, `Alike.tidy` — what a request does to it, and to the
  names;
* **`managers_told`** — what the managers print, over a run, is a run of the board;
* **`listing_printed`** — a listing has one line for each box, with its counts.
-/
import Mbroker.Manager
import Mbroker.SubscriberCounts
import Mbroker.BoxRequests

namespace Tfs

namespace TfsState

variable {s s' s'' : TfsState}

/-- The invariant holds, and the names are the same. -/
def Kept (s s' : TfsState) : Prop := s'.Inv ∧ s.SameNames s'

theorem Inv.kept_refl (hs : s.Inv) : s.Kept s := ⟨hs, sameNames_refl s⟩

theorem Kept.trans (h : s.Kept s') (h' : s'.Kept s'') : s.Kept s'' :=
  ⟨h'.1, fun q => (h'.2.1 q).trans (h.2.1 q), h'.2.2.trans h.2.2⟩

theorem Inv.kept (hs : s.Inv) {c : TfsCall} {r : Reply} (hc : KeepsNames c)
    (h : Tfs.tfsCall c s = .ok (r, s')) : s.Kept s' := ⟨hs.tfsCall h, hs.sameNames_of_tfsCall hc h⟩

theorem Inv.kept_open (hs : s.Inv) {name : Option CString} {mode : Nat} {r : Int}
    (hm : mode &&& tfsOCreat = 0) (h : tfsOpen name mode s = .ok (r, s')) : s.Kept s' :=
  hs.kept (c := .tfsOpen name mode) hm (Outcome.bind_eq_ok.mpr ⟨_, h, rfl⟩)

theorem Inv.kept_close (hs : s.Inv) {fhandle r : Int} (h : tfsClose fhandle s = .ok (r, s')) :
    s.Kept s' :=
  hs.kept (c := .tfsClose fhandle) trivial (Outcome.bind_eq_ok.mpr ⟨_, h, rfl⟩)

theorem Inv.kept_write (hs : s.Inv) {fhandle r : Int} {buffer : List UInt8}
    (h : tfsWrite fhandle buffer s = .ok (r, s')) : s.Kept s' :=
  hs.kept (c := .tfsWrite fhandle buffer) trivial (Outcome.bind_eq_ok.mpr ⟨_, h, rfl⟩)

theorem Inv.kept_read (hs : s.Inv) {fhandle : Int} {len : Nat} {r : Int × List UInt8}
    (h : tfsRead fhandle len s = .ok (r, s')) : s.Kept s' :=
  hs.kept (c := .tfsRead fhandle len) trivial (Outcome.bind_eq_ok.mpr ⟨_, h, rfl⟩)

end TfsState

end Tfs

namespace Mbroker

open Tfs

theorem kept_writeSection {s s' : TfsState} {boxHandle : Int} {buffer : List UInt8} (hs : s.Inv)
    (h : writeSection boxHandle buffer s = .ok s') : s.Kept s' := by
  obtain ⟨⟨n, s₁⟩, hwrite, h⟩ := Outcome.bind_eq_ok.mp h
  obtain ⟨⟨n', s₂⟩, hnul, h⟩ := Outcome.bind_eq_ok.mp h
  obtain rfl := Outcome.ok.inj h
  have hkept := hs.kept_write hwrite
  exact hkept.trans (hkept.1.kept_write hnul)

theorem kept_readSection {s s' : TfsState} {sub sub' : Subscriber} (hs : s.Inv)
    (h : readSection sub s = .ok (sub', s')) : s.Kept s' := by
  obtain ⟨⟨⟨n, bytes⟩, s₁⟩, hread, h⟩ := Outcome.bind_eq_ok.mp h
  dsimp only at h
  split at h
  · obtain ⟨-, rfl⟩ := Prod.mk.inj (Outcome.ok.inj h)
    exact hs.kept_read hread
  · obtain ⟨sub₁, -, h⟩ := Outcome.bind_eq_ok.mp h
    obtain ⟨-, rfl⟩ := Prod.mk.inj (Outcome.ok.inj h)
    exact hs.kept_read hread

/-! ### Requests that leave the names -/

/-- The names and the marks are the same. -/
structure RecordTable.Alike (t t' : RecordTable) : Prop where
  nBoxes : t'.nBoxes = t.nBoxes
  boxName : ∀ i, (t'.boxes i).boxName = (t.boxes i).boxName
  last : ∀ i, (t'.boxes i).last = (t.boxes i).last

theorem RecordTable.Alike.refl (t : RecordTable) : t.Alike t := ⟨rfl, fun _ => rfl, fun _ => rfl⟩

theorem RecordTable.Alike.trans {t t' t'' : RecordTable} (h : t.Alike t') (h' : t'.Alike t'') :
    t.Alike t'' :=
  ⟨h'.nBoxes.trans h.nBoxes, fun i => (h'.boxName i).trans (h.boxName i),
    fun i => (h'.last i).trans (h.last i)⟩

/-- An assignment to other fields. -/
theorem RecordTable.alike_modify (t : RecordTable) (j : Nat) {f : BoxRecord → BoxRecord}
    (hname : ∀ r, (f r).boxName = r.boxName) (hlast : ∀ r, (f r).last = r.last) :
    t.Alike (t.modify j f) := by
  refine ⟨rfl, fun i => ?_, fun i => ?_⟩
  · by_cases hi : i = j
    · subst hi
      rw [RecordTable.modify]
      dsimp only
      rw [Function.update_self, hname]
    · rw [RecordTable.modify]
      dsimp only
      rw [Function.update_of_ne hi]
  · by_cases hi : i = j
    · subst hi
      rw [RecordTable.modify]
      dsimp only
      rw [Function.update_self, hlast]
    · rw [RecordTable.modify]
      dsimp only
      rw [Function.update_of_ne hi]

theorem RecordTable.alike_addSubscriberToBox {t t' : RecordTable} {j : Nat} {pipeName : CString}
    (h : t.addSubscriberToBox j pipeName = .ok t') : t.Alike t' := by
  rw [RecordTable.addSubscriberToBox] at h
  split at h
  · cases h
  · obtain rfl := Outcome.ok.inj h
    exact t.alike_modify j (fun _ => rfl) fun _ => rfl

/-- A record after `delete_box` is the one it was, or the last one. -/
theorem RecordTable.boxes_deleteBox {t t' : RecordTable} {i : Int} (h : t.deleteBox i = .ok t')
    {j : Nat} (hj : j < t'.nBoxes) : j < t.nBoxes ∧ (t'.boxes j = t.boxes j ∨
      (t'.boxes j).boxName.Terminated ∧ (t'.boxes j).last = (t.boxes (t.nBoxes - 1)).last) := by
  rw [RecordTable.deleteBox] at h
  split at h
  · cases h
  · obtain ⟨box, hbox, h⟩ := Outcome.bind_eq_ok.mp h
    obtain ⟨lastBox, -, h⟩ := Outcome.bind_eq_ok.mp h
    obtain rfl := Outcome.ok.inj h
    dsimp only at hj ⊢
    refine ⟨by omega, ?_⟩
    rw [Function.update_of_ne (by omega)]
    by_cases hji : j = i.toNat
    · subst hji
      rw [Function.update_self]
      obtain ⟨name, hname, hbox⟩ := Outcome.bind_eq_ok.mp hbox
      obtain ⟨publisher, -, hbox⟩ := Outcome.bind_eq_ok.mp hbox
      obtain rfl := Outcome.ok.inj hbox
      refine Or.inr ⟨?_, rfl⟩
      rw [CharArray.Terminated, CharArray.text_strcpy hname]
      exact (CharArray.of_strcpy hname).1
    · rw [Function.update_of_ne hji]
      exact Or.inl rfl

namespace RecordBroker

/-- The same boxes, and files of the same names. -/
structure Alike (b b' : RecordBroker) : Prop where
  fs : b.fs.Kept b'.fs
  table : b.table.Alike b'.table

variable {b b' : RecordBroker} {boxName pipeName : CString} {buffer : List UInt8}
  {session : PublisherSession} {session' : Option PublisherSession} {o : Option Int}

theorem alike_publisherFunction (hs : b.fs.Inv)
    (h : b.publisherFunction pipeName boxName = .ok (session', b')) : b.Alike b' := by
  obtain ⟨⟨boxHandle, fs⟩, hopen, h⟩ := Outcome.bind_eq_ok.mp h
  have hkept := hs.kept_open rfl hopen
  dsimp only at h
  split at h
  · obtain ⟨⟨reopened, fs₁⟩, hreopen, h⟩ := Outcome.bind_eq_ok.mp h
    obtain ⟨-, rfl⟩ := Prod.mk.inj (Outcome.ok.inj h)
    exact ⟨hkept.trans (hkept.1.kept_open rfl hreopen), .refl _⟩
  · split at h
    · obtain ⟨⟨reopened, fs₁⟩, hreopen, h⟩ := Outcome.bind_eq_ok.mp h
      obtain ⟨-, rfl⟩ := Prod.mk.inj (Outcome.ok.inj h)
      exact ⟨hkept.trans (hkept.1.kept_open rfl hreopen), .refl _⟩
    · obtain ⟨publisher, -, h⟩ := Outcome.bind_eq_ok.mp h
      obtain ⟨⟨reopened, fs₁⟩, hreopen, h⟩ := Outcome.bind_eq_ok.mp h
      obtain ⟨-, rfl⟩ := Prod.mk.inj (Outcome.ok.inj h)
      exact ⟨hkept.trans (hkept.1.kept_open rfl hreopen), b.table.alike_modify _
        (f := fun box => { box with nPublishers := 1, publisher := publisher }) (fun _ => rfl)
        fun _ => rfl⟩

theorem alike_receiveMessage (hs : b.fs.Inv)
    (h : b.receiveMessage buffer session = .ok (session', b')) : b.Alike b' := by
  rw [receiveMessage] at h
  dsimp only at h
  split at h
  · obtain ⟨⟨closed, fs⟩, hclose, h⟩ := Outcome.bind_eq_ok.mp h
    obtain ⟨-, rfl⟩ := Prod.mk.inj (Outcome.ok.inj h)
    exact ⟨hs.kept_close hclose, .refl _⟩
  · split at h
    · cases h
    · obtain ⟨fs, hwrite, h⟩ := Outcome.bind_eq_ok.mp h
      obtain ⟨-, rfl⟩ := Prod.mk.inj (Outcome.ok.inj h)
      exact ⟨kept_writeSection hs hwrite, b.table.alike_modify _
        (f := fun box => { box with boxSize := box.boxSize + (CString.ofBuffer buffer).strlen })
        (fun _ => rfl) fun _ => rfl⟩

theorem alike_endSession (hs : b.fs.Inv) (h : b.endSession session = .ok b') : b.Alike b' := by
  obtain ⟨⟨closed, fs⟩, hclose, h⟩ := Outcome.bind_eq_ok.mp h
  obtain rfl := Outcome.ok.inj h
  refine ⟨hs.kept_close hclose, ?_⟩
  show b.table.Alike (if session.boxIndex = -1 then b.table else _)
  split
  · exact .refl _
  · exact b.table.alike_modify _ (f := fun box => { box with nPublishers := 0 }) (fun _ => rfl)
      fun _ => rfl

theorem alike_runPublisher {part : PublisherPart} {session : Option PublisherSession} (hs : b.fs.Inv)
    (h : b.runPublisher part session = .ok (session', b')) : b.Alike b' := by
  cases part with
  | register pipeName boxName =>
    cases session with
    | none => exact alike_publisherFunction hs h
    | some session =>
      obtain ⟨-, rfl⟩ := Prod.mk.inj (Outcome.ok.inj h)
      exact ⟨hs.kept_refl, .refl _⟩
  | message buffer =>
    cases session with
    | none =>
      obtain ⟨-, rfl⟩ := Prod.mk.inj (Outcome.ok.inj h)
      exact ⟨hs.kept_refl, .refl _⟩
    | some session => exact alike_receiveMessage hs h
  | disconnect =>
    cases session with
    | none =>
      obtain ⟨-, rfl⟩ := Prod.mk.inj (Outcome.ok.inj h)
      exact ⟨hs.kept_refl, .refl _⟩
    | some session =>
      obtain ⟨b₁, hend, h⟩ := Outcome.bind_eq_ok.mp h
      obtain ⟨-, rfl⟩ := Prod.mk.inj (Outcome.ok.inj h)
      exact alike_endSession hs hend

theorem alike_registerSubscriber (hs : b.fs.Inv)
    (h : b.registerSubscriber pipeName boxName = .ok (o, b')) : b.Alike b' := by
  rw [registerSubscriber] at h
  dsimp only at h
  split at h
  · obtain ⟨⟨boxHandle, fs⟩, hopen, h⟩ := Outcome.bind_eq_ok.mp h
    obtain ⟨-, rfl⟩ := Prod.mk.inj (Outcome.ok.inj h)
    exact ⟨hs.kept_open rfl hopen, .refl _⟩
  · obtain ⟨table, hadd, h⟩ := Outcome.bind_eq_ok.mp h
    have htable := (b.table.alike_modify (b.findBox boxName).toNat
      (f := fun box => { box with nSubscribers := box.nSubscribers + 1 }) (fun _ => rfl)
      fun _ => rfl).trans (RecordTable.alike_addSubscriberToBox hadd)
    obtain ⟨⟨boxHandle, fs⟩, hopen, h⟩ := Outcome.bind_eq_ok.mp h
    dsimp only at h
    split at h
    · obtain ⟨-, rfl⟩ := Prod.mk.inj (Outcome.ok.inj h)
      exact ⟨hs.kept_open rfl hopen, htable⟩
    · obtain ⟨-, rfl⟩ := Prod.mk.inj (Outcome.ok.inj h)
      exact ⟨hs.kept_open rfl hopen, htable⟩

theorem kept_readMessages {reader : Reader} {events : List Event} {reader' : Option Reader}
    {fs : TfsState} (hs : b.fs.Inv) (h : b.readMessages reader = .ok (events, reader', fs)) :
    b.fs.Kept fs := by
  rw [readMessages] at h
  split at h
  · split at h
    · split at h
      · cases h
      · cases h
    · obtain ⟨⟨closed, fs₁⟩, hclose, h⟩ := Outcome.bind_eq_ok.mp h
      obtain ⟨-, h⟩ := Prod.mk.inj (Outcome.ok.inj h)
      obtain ⟨-, rfl⟩ := Prod.mk.inj h
      exact hs.kept_close hclose
  · obtain ⟨⟨session, fs₁⟩, hread, h⟩ := Outcome.bind_eq_ok.mp h
    obtain ⟨-, h⟩ := Prod.mk.inj (Outcome.ok.inj h)
    obtain ⟨-, rfl⟩ := Prod.mk.inj h
    exact kept_readSection hs hread

/-! ### The names over a run -/

/-- The names of the boxes. -/
def names (b : RecordBroker) : Set CString := {q | b.table.toTable.Holds q}

/-- The names are strings, different, and those of files, and there is no mark. -/
structure Tidy (b : RecordBroker) : Prop where
  fs : b.fs.Inv
  params : b.fs.fsParams = tfsDefaultParams
  contained : b.toBroker.Contained
  terminated : ∀ i < b.table.nBoxes, (b.table.boxes i).boxName.Terminated
  last : ∀ i < b.table.nBoxes, (b.table.boxes i).last = 0

theorem tidy_start {fs : TfsState} (hfs : Started none fs) : (start fs).Tidy := by
  have hno : ∀ i, ¬ i < (start fs).table.nBoxes := Nat.not_lt_zero
  refine ⟨(hfs.fresh inRange_tfsDefaultParams).inv, hfs.fsParams inRange_tfsDefaultParams,
    ⟨fun i hi => absurd hi (hno i), ?_⟩, fun i hi => absurd hi (hno i), fun i hi => absurd hi (hno i)⟩
  rintro q ⟨i, hi, -⟩
  exact absurd hi (hno i)

theorem names_start {fs : TfsState} : (start fs).names = ∅ := by
  refine Set.eq_empty_iff_forall_notMem.mpr ?_
  rintro q ⟨i, hi, -⟩
  exact absurd hi (Nat.not_lt_zero i)

/-- A name is that of a file, which has one. -/
theorem Tidy.listable (h : b.Tidy) : b.table.Listable := by
  refine ⟨fun i hi => ⟨h.terminated i hi, ?_⟩, h.contained.distinct, h.last⟩
  obtain ⟨j, hj⟩ := h.contained.names _ ⟨i, hi, rfl⟩
  exact (h.fs.strlen_of_hasFile hj).1

theorem Alike.sameNames (h : b.Alike b') : b.toBroker.SameNames b'.toBroker :=
  ⟨h.table.nBoxes, funext fun i => congrArg CharArray.text (h.table.boxName i), h.fs.2⟩

theorem Alike.tidy (h : b.Alike b') (hb : b.Tidy) : b'.Tidy ∧ b'.names = b.names := by
  refine ⟨⟨h.fs.1, h.fs.2.2.trans hb.params, h.sameNames.contained hb.contained, fun i hi => ?_,
    fun i hi => ?_⟩, Set.ext fun q => h.sameNames.holds⟩
  · rw [h.table.boxName]
    exact hb.terminated i (h.table.nBoxes ▸ hi)
  · rw [h.table.last]
    exact hb.last i (h.table.nBoxes ▸ hi)

section Requests

variable {box : BoxRecord} {n : Nat}

/-- **A creation.** -/
theorem Tidy.create (hb : b.Tidy) (hlast : box.last = 0)
    (h : b.createBox boxName box = .ok (n, b')) : b'.Tidy ∧
      (n = 0 ∧ b'.names = b.names ∨ n ≠ 0 ∧ boxName ∉ b.names ∧ b'.names = insert boxName b.names) := by
  have hbroker := createBox_toBroker h
  obtain ⟨hkeeps, hcontained⟩ := createBox_files hb.contained hb.fs hbroker
  have hparams : b'.fs.fsParams = tfsDefaultParams := hkeeps.params.trans hb.params
  rw [createBox] at h
  split at h
  · obtain ⟨rfl, rfl⟩ := Prod.mk.inj (Outcome.ok.inj h)
    exact ⟨hb, Or.inl ⟨rfl, rfl⟩⟩
  case isFalse hfind =>
    have hno : boxName ∉ b.names := BoxTable.findBox_ne_neg.not.mp hfind
    obtain ⟨⟨boxHandle, fs⟩, hopen, h⟩ := Outcome.bind_eq_ok.mp h
    dsimp only at h
    split at h
    · obtain ⟨rfl, rfl⟩ := Prod.mk.inj (Outcome.ok.inj h)
      exact ⟨⟨hkeeps.inv, hparams, hcontained, hb.terminated, hb.last⟩, Or.inl ⟨rfl, rfl⟩⟩
    · obtain ⟨name, hname, h⟩ := Outcome.bind_eq_ok.mp h
      obtain ⟨⟨closed, fs₁⟩, -, h⟩ := Outcome.bind_eq_ok.mp h
      obtain ⟨table, hadd, h⟩ := Outcome.bind_eq_ok.mp h
      obtain ⟨rfl, rfl⟩ := Prod.mk.inj (Outcome.ok.inj h)
      have hnames : ∀ q, q ∈ names { b with fs := fs₁, table := table } ↔
          q ∈ b.names ∨ name.text = q :=
        fun q => BoxTable.holds_addBox (RecordTable.addBox_toTable hadd)
      have hterminated : name.Terminated := by
        rw [CharArray.Terminated, CharArray.text_strcpy hname]
        exact (CharArray.of_strcpy hname).1
      rw [RecordTable.addBox] at hadd
      split at hadd
      · cases hadd
      · obtain rfl := Outcome.ok.inj hadd
        refine ⟨⟨hkeeps.inv, hparams, hcontained, fun i hi => ?_, fun i hi => ?_⟩,
          Or.inr ⟨one_ne_zero, hno, ?_⟩⟩
        · by_cases heq : i = b.table.nBoxes
          · subst heq
            dsimp only
            rw [Function.update_self]
            exact hterminated
          · dsimp only at hi ⊢
            rw [Function.update_of_ne heq]
            exact hb.terminated i (by omega)
        · by_cases heq : i = b.table.nBoxes
          · subst heq
            dsimp only
            rw [Function.update_self]
            exact hlast
          · dsimp only at hi ⊢
            rw [Function.update_of_ne heq]
            exact hb.last i (by omega)
        · ext q
          rw [hnames, CharArray.text_strcpy hname, Set.mem_insert_iff, or_comm, eq_comm]

/-- **A removal**, which goes through exactly when there is the box. -/
theorem Tidy.remove (hb : b.Tidy) (h : b.removeBox boxName = .ok (n, b')) : b'.Tidy ∧
    (n = 0 ∧ boxName ∉ b.names ∧ b'.names = b.names ∨
      n ≠ 0 ∧ boxName ∈ b.names ∧ b'.names = b.names \ {boxName}) := by
  have hbroker := removeBox_toBroker h
  obtain ⟨hkeeps, hcontained⟩ := removeBox_files hb.contained hb.fs hbroker
  have hparams : b'.fs.fsParams = tfsDefaultParams := hkeeps.params.trans hb.params
  obtain ⟨⟨boxHandle, fs⟩, hunlink, h⟩ := Outcome.bind_eq_ok.mp h
  dsimp only at h
  split at h
  case isTrue hneg =>
    obtain ⟨rfl, rfl⟩ := Prod.mk.inj (Outcome.ok.inj h)
    refine ⟨⟨hkeeps.inv, hparams, hcontained, hb.terminated, hb.last⟩, Or.inl ⟨rfl, fun hin => ?_, rfl⟩⟩
    -- The file of a box can be unlinked.
    have hdir := hb.contained.names boxName hin
    obtain ⟨fs', hfound, -⟩ := hb.fs.tfsUnlink_found (validPathname_of_inDir hb.fs hdir) hdir
    obtain ⟨rfl, -⟩ := Prod.mk.inj (Outcome.ok.inj (hunlink.symm.trans hfound))
    cases hneg
  case isFalse =>
    split at h
    case isTrue hfind =>
      obtain ⟨rfl, rfl⟩ := Prod.mk.inj (Outcome.ok.inj h)
      exact ⟨⟨hkeeps.inv, hparams, hcontained, hb.terminated, hb.last⟩,
        Or.inl ⟨rfl, fun hin => BoxTable.findBox_ne_neg.mpr hin hfind, rfl⟩⟩
    case isFalse hfind =>
      obtain ⟨table, hdelete, h⟩ := Outcome.bind_eq_ok.mp h
      obtain ⟨rfl, rfl⟩ := Prod.mk.inj (Outcome.ok.inj h)
      refine ⟨⟨hkeeps.inv, hparams, hcontained, fun j hj => ?_, fun j hj => ?_⟩,
        Or.inr ⟨one_ne_zero, BoxTable.findBox_ne_neg.mp hfind, ?_⟩⟩
      · obtain ⟨hlt, hsame | ⟨hterminated, -⟩⟩ := RecordTable.boxes_deleteBox hdelete hj
        · rw [hsame]
          exact hb.terminated j hlt
        · exact hterminated
      · obtain ⟨hlt, hsame | ⟨-, hlast⟩⟩ := RecordTable.boxes_deleteBox hdelete hj
        · rw [hsame]
          exact hb.last j hlt
        · rw [hlast]
          exact hb.last _ (by omega)
      · obtain ⟨i, hi, hfi, hname⟩ := BoxTable.of_findBox hfind
        rw [show b.findBox boxName = i from hfi] at hdelete
        ext q
        have htable := RecordTable.deleteBox_toTable hdelete
        refine (hb.contained.distinct.holds_deleteBox htable hi).trans ?_
        rw [show b.toBroker.table.name i = boxName from hname, ne_comm]
        exact Iff.rfl

/-- **A listing** takes its mark away. -/
theorem Tidy.list {replyBox : BoxRecord} {writes : List (List UInt8)} {table : RecordTable}
    (hb : b.Tidy) (h : b.table.replyToListBoxes replyBox = .ok (writes, table)) :
    Tidy { b with table := table } ∧ names { b with table := table } = b.names := by
  rw [RecordTable.replyToListBoxes] at h
  split at h
  · obtain ⟨publisher, -, h⟩ := Outcome.bind_eq_ok.mp h
    obtain ⟨name, -, h⟩ := Outcome.bind_eq_ok.mp h
    obtain ⟨-, rfl⟩ := Prod.mk.inj (Outcome.ok.inj h)
    exact ⟨hb, rfl⟩
  case isFalse hn =>
    split at h
    · cases h
    · obtain ⟨-, rfl⟩ := Prod.mk.inj (Outcome.ok.inj h)
      refine Alike.tidy ⟨hb.fs.kept_refl, rfl, fun i => ?_, fun i => ?_⟩ hb
      · obtain ⟨v, hv⟩ := (b.table.setLast 1).boxes_setLast 0 i
        obtain ⟨w, hw⟩ := b.table.boxes_setLast 1 i
        rw [hv, hw]
      · by_cases hi : i = b.table.nBoxes - 1
        · subst hi
          have hzero := last_setLast (t := b.table.setLast 1) (v := 0)
          exact hzero.trans (hb.last _ (by omega)).symm
        · have hsame : ((b.table.setLast 1).setLast 0).boxes i = b.table.boxes i :=
            (Function.update_of_ne hi _ _).trans (Function.update_of_ne hi _ _)
          exact congrArg BoxRecord.last hsame

end Requests

end RecordBroker

/-! ### The board -/

/-- A request of a manager. -/
def Request.OfManager : Request → Prop
  | .create _ _ | .remove _ _ | .list _ _ => True
  | _ => False

namespace Board

open Manager

/-- What a request does to the names, and what its manager prints and returns. -/
inductive Step : Request → Option Exit → Set CString → Set CString → Prop where
  | created {pipeName q : CString} {S : Set CString} (hq : q ∉ S) :
      Step (.create pipeName q) (some ⟨okText, 0⟩) S (insert q S)
  | notCreated {pipeName q : CString} {S : Set CString} :
      Step (.create pipeName q) (some ⟨errorText couldntCreateBox, -1⟩) S S
  | removed {pipeName q : CString} {S : Set CString} (hq : q ∈ S) :
      Step (.remove pipeName q) (some ⟨okText, 0⟩) S (S \ {q})
  | notRemoved {pipeName q : CString} {S : Set CString} (hq : q ∉ S) :
      Step (.remove pipeName q) (some ⟨errorText couldntRemoveBox, -1⟩) S S
  | noBoxes {pipeName : CString} {replyBox : BoxRecord} :
      Step (.list pipeName replyBox) (some ⟨noBoxesText, -1⟩) ∅ ∅
  | listed {pipeName : CString} {replyBox : BoxRecord} {S : Set CString} (lines : List BoxLine)
      (hne : S.Nonempty) (hnames : ∀ q, q ∈ S ↔ ∃ l ∈ lines, l.boxName = q)
      (hordered : lines.Pairwise fun l l' => l.boxName.key < l'.boxName.key) :
      Step (.list pipeName replyBox) (some ⟨lines.flatMap BoxLine.text, 0⟩) S S
  | other {request : Request} {S : Set CString} (hother : ¬ request.OfManager) :
      Step request none S S

/-- Requests, one after the other. -/
inductive Run : List (Request × Option Exit) → Set CString → Set CString → Prop where
  | nil (S : Set CString) : Run [] S S
  | cons {request : Request} {exit : Option Exit} {rest : List (Request × Option Exit)}
      {S S₁ S' : Set CString} (hstep : Step request exit S S₁) (hrest : Run rest S₁ S') :
      Run ((request, exit) :: rest) S S'

end Board

/-! ### The broker and the managers -/

/-- What a manager finds in its variables. -/
structure ManagerLocals where
  boxReply : CharArray (4 + messageSize)
  box : CharArray sizeofBox

/-- A request; what the variables of its handler and of its manager hold; and the pipes that some
client has open for writing meanwhile. -/
structure Served where
  request : Request
  locals : Uninitialised
  manager : ManagerLocals
  writers : List CString

/-- What is written to a pipe. -/
def Event.written : Event → Option (List UInt8)
  | .write _ bytes => some bytes
  | .subscriberIndex _ => none

/-- What the manager of a request prints, when each of its reads returns what a write has sent. -/
def told (qsort : Qsort compareStructs) (locals : ManagerLocals) (events : List Event) :
    Request → Outcome (Option Exit)
  | .create _ _ | .remove _ _ | .list _ _ =>
    Manager.main qsort locals.boxReply.bytes locals.box.bytes (events.filterMap Event.written)
  | _ => .ok none

/-- The first thing that `delete_box` does, with `mutex`: when the box has a publisher by its
record, it opens the pipe of that publisher for reading.  The open waits for a client that has the
pipe open for writing; when there is none, nothing is said of what follows. -/
def RecordTable.openPublisher (i : Int) (writers : List CString) (t : RecordTable) :
    Outcome Unit :=
  if (t.boxes i.toNat).nPublishers = 1 then do
    let publisherPipe ← (CharArray.zero : CharArray pipeNameSize).strcpy
      (t.boxes i.toNat).publisher.text
    if publisherPipe.text ∈ writers then return () else .fault
  else return ()

namespace RecordBroker

/-- A removal that gets as far as `delete_box` comes back from its open. -/
def openForRemoval (boxName : CString) (writers : List CString) (b : RecordBroker) :
    Outcome Unit := do
  let (boxHandle, _) ← tfsUnlink (some (boxPath boxName)) b.fs
  if boxHandle = -1 ∨ b.findBox boxName = -1 then return ()
  else b.table.openPublisher (b.findBox boxName) writers

/-- A request, handled by the broker alone, to its end or to where it waits for its own client. -/
def handled (t : Served) (b : RecordBroker) : Outcome (List Event × RecordBroker) :=
  match t.request with
  | .remove _ boxName => do
    b.openForRemoval boxName t.writers
    handle t.request t.locals b
  | _ => handle t.request t.locals b

/-- A request, and the manager that has made it, if any. -/
def managed (qsort : Qsort compareStructs) (t : Served) (b : RecordBroker) :
    Outcome ((Request × Option Exit) × RecordBroker) := do
  let (events, b) ← handled t b
  let exit ← told qsort t.manager events t.request
  return ((t.request, exit), b)

variable {b b' : RecordBroker} {request : Request} {u : Uninitialised} {events : List Event}
  {locals : ManagerLocals} {qsort : Qsort compareStructs}

theorem filterMap_written_map (pipeName : CString) (writes : List (List UInt8)) :
    (writes.map (Event.write pipeName)).filterMap Event.written = writes := by
  rw [List.filterMap_map]
  exact List.filterMap_some

/-- The reads of a listing, when each of them returns a record. -/
theorem splits_writes {t t' : RecordTable} {replyBox : BoxRecord} {writes : List (List UInt8)}
    (h : t.replyToListBoxes replyBox = .ok (writes, t')) :
    Splits writes writes.flatten ∧ ∀ chunk ∈ writes.tail, chunk.length = sizeofBox := by
  have hwhole : ∃ rs : List BoxRecord, writes = [8] :: rs.map BoxRecord.bytes := by
    rcases replyToListBoxes_spec h with ⟨-, r, rfl, -⟩ | ⟨-, -, rfl⟩
    · exact ⟨[r], rfl⟩
    · exact ⟨t.sent, rfl⟩
  obtain ⟨rs, rfl⟩ := hwhole
  have hlen : ∀ chunk ∈ rs.map BoxRecord.bytes, chunk.length = sizeofBox := by
    intro chunk hchunk
    obtain ⟨r, -, rfl⟩ := List.mem_map.mp hchunk
    exact r.length_bytes
  refine ⟨⟨rfl, ⟨8, rfl⟩, fun chunk hchunk => ?_, fun chunk hchunk => (hlen chunk hchunk).le⟩, hlen⟩
  rintro rfl
  cases hlen [] hchunk

/-- The names that a listing shows. -/
theorem mem_names_iff {lines : List BoxLine}
    (hperm : lines.Perm ((List.range b.table.nBoxes).map b.table.line)) (q : CString) :
    q ∈ b.names ↔ ∃ l ∈ lines, l.boxName = q := by
  constructor
  · rintro ⟨i, hi, rfl⟩
    exact ⟨b.table.line i, hperm.mem_iff.mpr (List.mem_map_of_mem (List.mem_range.mpr hi)), rfl⟩
  · rintro ⟨l, hl, rfl⟩
    obtain ⟨i, hi, rfl⟩ := List.mem_map.mp (hperm.mem_iff.mp hl)
    exact ⟨i, List.mem_range.mp hi, rfl⟩

theorem names_of_nBoxes_eq_zero (h : b.table.nBoxes = 0) : b.names = ∅ := by
  refine Set.eq_empty_iff_forall_notMem.mpr ?_
  rintro q ⟨i, hi, -⟩
  exact absurd hi (by rw [RecordTable.nBoxes_toTable, h]; exact Nat.not_lt_zero i)

/-- Nothing is printed, and the names are the same. -/
theorem told_other (hother : ¬ request.OfManager) (hb : b.Tidy) (halike : b.Alike b') :
    b'.Tidy ∧ ∃ exit, Mbroker.told qsort locals events request = .ok exit ∧
      Board.Step request exit b.names b'.names := by
  obtain ⟨htidy, hnames⟩ := halike.tidy hb
  refine ⟨htidy, none, ?_, ?_⟩
  · cases request with
    | create | remove | list => exact absurd trivial hother
    | _ => rfl
  · rw [hnames]
    exact .other hother

open Manager in
/-- **What a request does**, and what is printed. -/
theorem Tidy.told (locals : ManagerLocals) (qsort : Qsort compareStructs) (hb : b.Tidy)
    (hlast : ∀ p q, request = .create p q → u.box.last = 0)
    (h : handle request u b = .ok (events, b')) : b'.Tidy ∧ ∃ exit,
      Mbroker.told qsort locals events request = .ok exit ∧
        Board.Step request exit b.names b'.names := by
  have hlen : locals.boxReply.bytes.length = 4 + messageSize := locals.boxReply.length_bytes
  cases request with
  | create pipeName boxName =>
    obtain ⟨⟨n, b₁⟩, hcreate, h⟩ := Outcome.bind_eq_ok.mp h
    obtain ⟨reply, hreply, h⟩ := Outcome.bind_eq_ok.mp h
    obtain ⟨rfl, rfl⟩ := Prod.mk.inj (Outcome.ok.inj h)
    obtain ⟨htidy, hnames⟩ := hb.create (hlast pipeName boxName rfl) hcreate
    refine ⟨htidy, _, (says_creation hreply).main_eq qsort locals.box.bytes hlen (Or.inl rfl), ?_⟩
    rcases hnames with ⟨rfl, hnames⟩ | ⟨hn, hno, hnames⟩
    · rw [if_pos rfl, hnames]
      exact .notCreated
    · rw [if_neg hn, hnames]
      exact .created hno
  | remove pipeName boxName =>
    obtain ⟨⟨n, b₁⟩, hremove, h⟩ := Outcome.bind_eq_ok.mp h
    obtain ⟨reply, hreply, h⟩ := Outcome.bind_eq_ok.mp h
    obtain ⟨rfl, rfl⟩ := Prod.mk.inj (Outcome.ok.inj h)
    obtain ⟨htidy, hnames⟩ := hb.remove hremove
    refine ⟨htidy, _, (says_removal hreply).main_eq qsort locals.box.bytes hlen (Or.inr rfl), ?_⟩
    rcases hnames with ⟨rfl, hno, hnames⟩ | ⟨hn, hin, hnames⟩
    · rw [if_pos rfl, hnames]
      exact .notRemoved hno
    · rw [if_neg hn, hnames]
      exact .removed hin
  | list pipeName replyBox =>
    obtain ⟨⟨writes, table⟩, hsent, h⟩ := Outcome.bind_eq_ok.mp h
    obtain ⟨rfl, rfl⟩ := Prod.mk.inj (Outcome.ok.inj h)
    obtain ⟨htidy, hnames⟩ := hb.list hsent
    obtain ⟨hsplit, hwhole⟩ := splits_writes hsent
    rw [hnames, Mbroker.told, filterMap_written_map]
    rcases main_listing qsort locals.boxReply.bytes locals.box hb.listable hsent hsplit
      hwhole with ⟨hn, hmain⟩ | ⟨hpos, lines, hperm, hordered, hmain⟩
    · refine ⟨htidy, _, hmain, ?_⟩
      rw [names_of_nBoxes_eq_zero hn]
      exact .noBoxes
    · refine ⟨htidy, _, hmain, .listed lines ⟨_, 0, hpos, rfl⟩ (mem_names_iff hperm) hordered⟩
  | publisher k part =>
    obtain ⟨⟨session, b₁⟩, hpart, h⟩ := Outcome.bind_eq_ok.mp h
    obtain ⟨rfl, rfl⟩ := Prod.mk.inj (Outcome.ok.inj h)
    have halike := alike_runPublisher hb.fs hpart
    exact told_other not_false hb ⟨halike.fs, halike.table⟩
  | subscribe k pipeName boxName charBuffer buffer =>
    rw [handle] at h
    split at h
    · obtain ⟨rfl, rfl⟩ := Prod.mk.inj (Outcome.ok.inj h)
      exact told_other not_false hb ⟨hb.fs.kept_refl, .refl _⟩
    · obtain ⟨⟨boxHandle, b₁⟩, hregister, h⟩ := Outcome.bind_eq_ok.mp h
      obtain ⟨rfl, rfl⟩ := Prod.mk.inj (Outcome.ok.inj h)
      have halike := alike_registerSubscriber hb.fs hregister
      exact told_other not_false hb ⟨halike.fs, halike.table⟩
  | deliver k =>
    rw [handle] at h
    split at h
    · obtain ⟨rfl, rfl⟩ := Prod.mk.inj (Outcome.ok.inj h)
      exact told_other not_false hb ⟨hb.fs.kept_refl, .refl _⟩
    · obtain ⟨⟨events', reader, fs⟩, hread, h⟩ := Outcome.bind_eq_ok.mp h
      obtain ⟨rfl, rfl⟩ := Prod.mk.inj (Outcome.ok.inj h)
      exact told_other not_false hb ⟨kept_readMessages hb.fs hread, .refl _⟩

/-- The variable `box` of every creation has no mark. -/
def Unmarked (ts : List Served) : Prop :=
  ∀ t ∈ ts, ∀ p q, t.request = .create p q → t.locals.box.last = 0

variable {t : Served} {ts : List Served} {eventss : List (List Event)}

theorem handle_of_handled (h : handled t b = .ok (events, b')) :
    handle t.request t.locals b = .ok (events, b') := by
  rw [handled] at h
  split at h
  · obtain ⟨-, -, h⟩ := Outcome.bind_eq_ok.mp h
    exact h
  · exact h

/-- **The run lemma.** -/
theorem Tidy.run (qsort : Qsort compareStructs) (hb : b.Tidy) (hlast : Unmarked ts)
    (hrun : Outcome.runList handled ts b = .ok (eventss, b')) : b'.Tidy ∧ ∃ told,
      Outcome.runList (managed qsort) ts b = .ok (told, b') ∧ Board.Run told b.names b'.names := by
  induction ts generalizing b eventss with
  | nil =>
    obtain ⟨-, rfl⟩ := Prod.mk.inj (Outcome.ok.inj hrun)
    exact ⟨hb, [], rfl, .nil _⟩
  | cons t ts ih =>
    obtain ⟨events, b₁, rest, hhandled, hrun, -⟩ := Outcome.runList_cons_eq_ok.mp hrun
    obtain ⟨hb₁, exit, htold, hstep⟩ := Tidy.told t.manager qsort hb (hlast t List.mem_cons_self)
      (handle_of_handled hhandled)
    obtain ⟨hb', told, hmanaged, hboard⟩ :=
      ih hb₁ (fun t ht => hlast t (List.mem_cons_of_mem _ ht)) hrun
    have hfirst : managed qsort t b = .ok ((t.request, exit), b₁) :=
      Outcome.bind_eq_ok.mpr ⟨_, hhandled, Outcome.bind_eq_ok.mpr ⟨_, htold, rfl⟩⟩
    exact ⟨hb', (t.request, exit) :: told,
      Outcome.runList_cons_eq_ok.mpr ⟨_, _, _, hfirst, hmanaged, rfl⟩, .cons hstep hboard⟩

end RecordBroker

open RecordBroker in
/-- **What the managers print over a run of the broker is a run of the board**, which starts
without a box.  The run goes on as long as the process does, and as long as no removal waits for a
publisher. -/
theorem managers_told {fs : TfsState} {b : RecordBroker} {eventss : List (List Event)}
    {ts : List Served} (qsort : Qsort compareStructs)
    (hfs : Started none fs) (hlast : Unmarked ts)
    (hrun : Outcome.runList handled ts (start fs) = .ok (eventss, b)) :
    ∃ told, Outcome.runList (managed qsort) ts (start fs) = .ok (told, b) ∧
      Board.Run told ∅ b.names := by
  obtain ⟨-, told, hmanaged, hboard⟩ := (tidy_start hfs).run qsort hlast hrun
  rw [names_start] at hboard
  exact ⟨told, hmanaged, hboard⟩

/-- What a manager's variables may hold. -/
def zeroLocals : ManagerLocals := ⟨.zero, .zero⟩

/-- The boxes `a` and `b` are created, and `b` gets a publisher, whose client is still there when
that box is removed. -/
def removedWithPublisher : List Served :=
  [.create pipeP.1 nameA.1, .create pipeP.1 nameB.1, .create pipeP.1 nameA.1,
    .publisher 0 (.register pipeQ.1 nameB.1), .list pipeP.1 .zero, .remove pipeP.1 nameB.1,
    .remove pipeP.1 nameB.1, .list pipeP.1 .zero].map fun request =>
      ⟨request, ⟨.zero, 0, .zero⟩, zeroLocals, [pipeQ.1]⟩

open RecordBroker in
theorem managers_told_removedWithPublisher : ∃ eventss b told,
    Outcome.runList handled removedWithPublisher (start initial) = .ok (eventss, b) ∧
      b.table.nBoxes = 1 ∧
      Outcome.runList (managed mergeQsort) removedWithPublisher (start initial) = .ok (told, b) ∧
      Board.Run told ∅ b.names := by
  have hresult : (Outcome.runList handled removedWithPublisher (start initial)).map
      (fun p => p.2.table.nBoxes) = .ok 1 := by
    decide +kernel
  obtain ⟨⟨eventss, b⟩, hrun, hn⟩ := Outcome.map_eq_ok.mp hresult
  have hlast : Unmarked removedWithPublisher := by
    intro t ht p q _
    obtain ⟨request, -, rfl⟩ := List.mem_map.mp ht
    rfl
  obtain ⟨told, hmanaged, hboard⟩ := managers_told mergeQsort started_initial hlast hrun
  exact ⟨eventss, b, told, hrun, hn, hmanaged, hboard⟩

end Mbroker
