/-
Where the bytes come from that a read returns.

`Tracked` keeps, beside the state, the name that each handle was opened with and the bytes
that writes have stored at each position of each file since its creation and its last
truncation.  A handle that was open when its file was truncated keeps its offset; what is
written there leaves a gap before it, with what the block held, and what is read there is
not the file's.

* `Inv.call` — what keeps every byte of every file one that was stored there;
* **`tfsRead_own`** — reads and writes that start inside their files, or at the end, read
  what was stored;
* `not_own_recycledBlock` — a block read after another file has got it.
-/
import Mbroker.TfsNames
import Mbroker.TfsRuns

namespace Tfs

open Memory SlotTable TfsState

/-- A state, the names of the open files, and the bytes that have been stored in each file. -/
structure Tracked where
  fs : TfsState
  opened : Nat → CString
  stored : CString → Nat → List UInt8

/-- `data` is stored from position `off` on. -/
def storeAt (stored : Nat → List UInt8) (off : Nat) (data : List UInt8) : Nat → List UInt8 :=
  fun p => if h : off ≤ p ∧ p - off < data.length then data[p - off] :: stored p else stored p

namespace Tracked

def start (s : TfsState) : Tracked := ⟨s, fun _ => .empty, fun _ _ => []⟩

/-- A file that is created or truncated has no bytes. -/
def nextStored (t : Tracked) (c : TfsCall) (r : Reply) : CString → Nat → List UInt8 :=
  match c with
  | .tfsOpen (some p) mode =>
    if validPathname p = true ∧
        (mode &&& tfsOTrunc ≠ 0 ∨ (t.fs.readFile (skipSlash p)).isNone) then
      Function.update t.stored (skipSlash p) fun _ => []
    else t.stored
  | .tfsWrite fhandle buffer =>
    let q := t.opened fhandle.toNat
    Function.update t.stored q (storeAt (t.stored q) (t.fs.openFileTable fhandle.toNat).ofOffset
      (buffer.take r.ret.toNat))
  | _ => t.stored

/-- A handle has the name with which it was opened. -/
def nextOpened (t : Tracked) (c : TfsCall) (r : Reply) : Nat → CString :=
  match c with
  | .tfsOpen (some p) _ =>
    if 0 ≤ r.ret then Function.update t.opened r.ret.toNat (skipSlash p) else t.opened
  | _ => t.opened

/-- A call, and what it adds. -/
def next (t : Tracked) (c : TfsCall) (r : Reply) (fs' : TfsState) : Tracked :=
  ⟨fs', t.nextOpened c r, t.nextStored c r⟩

/-- A call of the API. -/
def call (c : TfsCall) (t : Tracked) : Outcome (Reply × Tracked) := do
  let (r, fs') ← tfsCall c t.fs
  return (r, t.next c r fs')

/-- No file is removed. -/
def KeepsFiles : TfsCall → Prop
  | .tfsUnlink _ => False
  | _ => True

/-- What is read or written starts inside the file, or at its end. -/
def InFile : TfsCall → TfsState → Prop
  | .tfsRead fhandle len, s => ∀ f ∈ getOpenFileEntry fhandle s, 0 < len →
      (s.openFileTable f).ofOffset ≤ (s.inodeTable (s.openFileTable f).ofInumber.toNat).iSize
  | .tfsWrite fhandle buffer, s => ∀ f ∈ getOpenFileEntry fhandle s,
      0 < toWrite buffer.length (s.openFileTable f).ofOffset s.fsParams.blockSize →
        (s.openFileTable f).ofOffset ≤ (s.inodeTable (s.openFileTable f).ofInumber.toNat).iSize
  | _, _ => True

instance : ∀ (c : TfsCall) (s : TfsState), Decidable (InFile c s)
  | .tfsRead fhandle _, s | .tfsWrite fhandle _, s =>
    inferInstanceAs (Decidable (∀ f ∈ getOpenFileEntry fhandle s, _))
  | .tfsOpen _ _, _ | .tfsClose _, _ | .tfsUnlink _, _ => inferInstanceAs (Decidable True)

/-- What the read of a handle gives is what has been stored in its file, and nothing at the
end of the file. -/
structure Own (t : Tracked) (fhandle ret : Int) (bytes : List UInt8) : Prop where
  data : ∀ i (h : i < bytes.length), bytes[i] ∈ t.stored (t.opened fhandle.toNat)
    ((t.fs.openFileTable fhandle.toNat).ofOffset + i)
  atEnd : ∀ f j : Nat, fhandle = f → t.fs.IsOpen f → (t.fs.openFileTable f).ofInumber = j →
    (t.fs.inodeTable j).iSize ≤ (t.fs.openFileTable f).ofOffset → ret = 0 ∧ bytes = []

/-- Every handle refers to the file of its name. -/
def Named (s : TfsState) (opened : Nat → CString) : Prop :=
  ∀ f, s.IsOpen f → ∃ j, s.HasFile (opened f) j ∧ (s.openFileTable f).ofInumber = j

/-- Every byte of a file has been stored where it is. -/
def OwnBytes (s : TfsState) (stored : CString → Nat → List UInt8) : Prop :=
  ∀ q j, s.HasFile q j → ∀ p (h : p < (s.contents j).length), (s.contents j)[p] ∈ stored q p

structure Inv (t : Tracked) : Prop where
  fs : t.fs.Inv
  named : Named t.fs t.opened
  own : OwnBytes t.fs t.stored

variable {t t' : Tracked} {s s' : TfsState} {opened : Nat → CString}
  {stored stored' : CString → Nat → List UInt8} {p q : CString} {c : TfsCall} {r : Reply}
  {f j k off mode : Nat}

theorem inv_start (hs : s.Fresh) : (start s).Inv where
  fs := hs.inv
  named f hf := absurd hf (hs.noOpen f)
  own _ j h := absurd (hs.inv.isFile_of_hasFile h) (hs.noFile j)

/-! ### The names -/

theorem Named.of_files (h : Named s opened) (hopen : ∀ f, s'.IsOpen f → s.IsOpen f)
    (hinum : ∀ f, (s'.openFileTable f).ofInumber = (s.openFileTable f).ofInumber)
    (hfile : ∀ q j, s.HasFile q j → s'.HasFile q j) : Named s' opened := by
  intro f hf
  obtain ⟨j, hj, hfj⟩ := h f (hopen f hf)
  exact ⟨j, hfile _ j hj, (hinum f).trans hfj⟩

/-- A file is opened, when there is an entry. -/
theorem Named.addToOpenFileTable (h : Named s opened) (hj : s.HasFile q j) :
    Named (addToOpenFileTable j off s).2
      (if 0 ≤ (addToOpenFileTable j off s).1 then
        Function.update opened (addToOpenFileTable j off s).1.toNat q
      else opened) := by
  cases hnext : s.nextHandle with
  | none =>
    rw [addToOpenFileTable_none hnext, if_neg (by simp)]
    exact h
  | some f₀ =>
    rw [addToOpenFileTable_some hnext, if_pos (by dsimp only; omega)]
    rintro f ⟨hlt, htaken⟩
    dsimp only
    rw [Int.toNat_natCast]
    by_cases hff : f = f₀
    · subst hff
      rw [Function.update_self]
      exact ⟨j, hj, by simp [openHandle]⟩
    · rw [Function.update_of_ne hff]
      obtain ⟨j', hj', hinum⟩ := h f ⟨hlt, by simpa [openHandle, hff] using htaken⟩
      exact ⟨j', hj', by simpa [openHandle, hff] using hinum⟩

/-! ### The bytes -/

/-- Every file is empty, or as it was, with the bytes that it had. -/
theorem OwnBytes.of_files (h : OwnBytes s stored)
    (hfile : ∀ q j, s'.HasFile q j → s'.contents j = [] ∨
      s.HasFile q j ∧ s'.contents j = s.contents j ∧ stored' q = stored q) :
    OwnBytes s' stored' := by
  intro q j hj p hp
  rcases hfile q j hj with hempty | ⟨hj', hsame, hstored⟩
  · rw [hempty] at hp
    exact absurd hp (Nat.not_lt_zero p)
  · simp only [hsame] at hp ⊢
    rw [hstored]
    exact h q j hj' p hp

theorem OwnBytes.addToOpenFileTable {inumber : Int} (h : OwnBytes s stored) :
    OwnBytes (Tfs.addToOpenFileTable inumber off s).2 stored := by
  rw [Tfs.addToOpenFileTable]
  split
  · exact h
  · exact h

/-- **A write** that starts inside the file, or at its end. -/
theorem OwnBytes.writeBlock {b : Nat} {data : List UInt8} (hs : s.Inv) (h : OwnBytes s stored)
    (hj : s.HasFile q j) (hb : s.BlockFor j b) (hoff : off ≤ (s.inodeTable j).iSize)
    (hfit : off + data.length ≤ s.fsParams.blockSize) :
    OwnBytes (s.writeBlock j b off data)
      (Function.update stored q (storeAt (stored q) off data)) := by
  have hfile := hs.isFile_of_hasFile hj
  obtain ⟨hb0, -⟩ := hb.bounds (hs.sane j hfile) hs.root
  intro q' k hk p hp
  rw [hs.hasFile_writeBlock j off data hb0] at hk
  by_cases hqq : q' = q
  · subst hqq
    obtain rfl := hs.hasFile_inode hj hk
    simp only [contents_writeBlock hb hoff] at hp ⊢
    rw [Function.update_self, storeAt]
    rcases getElem_overwrite (by rwa [length_contents]) hp with ⟨hin, heq⟩ | ⟨hout, hlt, heq⟩
    · rw [dif_pos hin, heq]
      exact List.mem_cons_self
    · rw [dif_neg hout, heq]
      exact h q' j hj p hlt
  · have hkj : k ≠ j := by
      rintro rfl
      exact hqq (hs.hasFile_name hk hj)
    have hkfile := hs.isFile_of_hasFile hk
    have hsame : (s.writeBlock j b off data).contents k = s.contents k := by
      refine hs.contents_writeBlock_ne hkfile hkj hfit fun hblock => ?_
      by_contra hpos
      exact hs.blockFor_ne hb hfile hkfile hkj (by omega) hblock
    simp only [hsame] at hp ⊢
    rw [Function.update_of_ne hqq]
    exact h q' k hk p hp

/-! ### One call -/

theorem nextStored_open (hs : t.fs.Inv) (hj : t.fs.HasFile (skipSlash p) j)
    (hv : validPathname p = true) : t.nextStored (.tfsOpen (some p) mode) r =
      if mode &&& tfsOTrunc ≠ 0 then Function.update t.stored (skipSlash p) fun _ => []
      else t.stored := by
  rw [nextStored, hs.readFile_of_hasFile hj]
  simp [hv]

/-- An existing file is opened, and truncated when the mode asks for it. -/
theorem Inv.own_truncated (ht : t.Inv) (r : Reply) (hj : t.fs.HasFile (skipSlash p) j)
    (hv : validPathname p = true) :
    OwnBytes (t.fs.truncated mode j) (t.nextStored (.tfsOpen (some p) mode) r) := by
  rw [nextStored_open ht.fs hj hv, TfsState.truncated]
  split
  · refine ht.own.of_files fun q k hk => ?_
    by_cases hkj : k = j
    · subst hkj
      exact Or.inl contents_truncate
    · refine Or.inr ⟨hk, contents_truncate_ne hkj, Function.update_of_ne ?_ _ _⟩
      rintro rfl
      exact hkj (ht.fs.hasFile_inode hk hj)
  · exact ht.own

/-- The bytes of the files stay, when the name that is opened is not one of them. -/
theorem OwnBytes.of_missing (h : OwnBytes s' t.stored) (r : Reply)
    (hno : ∀ j, ¬ s'.HasFile (skipSlash p) j) :
    OwnBytes s' (t.nextStored (.tfsOpen (some p) mode) r) := by
  refine h.of_files fun q j hj => Or.inr ⟨hj, rfl, ?_⟩
  have hq : q ≠ skipSlash p := by
    rintro rfl
    exact hno j hj
  rw [nextStored]
  split
  · exact Function.update_of_ne hq _ _
  · rfl

theorem Inv.next_open {name : Option CString} {ret : Int × TfsState} (ht : t.Inv)
    (h : OpenSpec t.fs name mode ret) : (t.next (.tfsOpen name mode) ⟨ret.1, []⟩ ret.2).Inv := by
  have hs' := h.inv ht.fs
  cases h with
  | invalid hinvalid =>
    cases name with
    | none => exact ⟨hs', ht.named, ht.own⟩
    | some p =>
      refine ⟨hs', ?_, ?_⟩
      · rw [next, nextOpened, if_neg (by simp)]
        exact ht.named
      · rw [next, nextStored, if_neg (by simp [hinvalid p rfl])]
        exact ht.own
  | missing p hp _ hno =>
    subst hp
    refine ⟨hs', ?_, ht.own.of_missing ⟨-1, []⟩ hno⟩
    rw [next, nextOpened, if_neg (by simp)]
    exact ht.named
  | noInode p hp _ hno =>
    subst hp
    refine ⟨hs', ?_, ht.own.of_missing ⟨-1, []⟩ hno⟩
    rw [next, nextOpened, if_neg (by simp)]
    exact ht.named
  | noEntry p k hp _ hno _ hk =>
    subst hp
    have hown : OwnBytes (t.fs.resetInode k) t.stored := ht.own.of_files fun q j hj =>
      Or.inr ⟨hj, contents_resetInode_ne
        ((ht.fs.isFile_of_hasFile hj).ne_of_free (free_of_firstFit hk).2), rfl⟩
    refine ⟨hs', ?_, hown.of_missing ⟨-1, []⟩ hno⟩
    rw [next, nextOpened, if_neg (by simp)]
    exact ht.named
  | existing p j hp hv hj =>
    subst hp
    have hnamed : Named (t.fs.truncated mode j) t.opened := by
      rw [TfsState.truncated]
      split
      · exact ht.named
      · exact ht.named
    have hj' : (t.fs.truncated mode j).HasFile (skipSlash p) j := by
      rw [TfsState.truncated]
      split
      · exact hj
      · exact hj
    exact ⟨hs', hnamed.addToOpenFileTable hj', (ht.own_truncated ⟨0, []⟩ hj hv).addToOpenFileTable⟩
  | created p k i hp hv hno hm hk hi hlen =>
    subst hp
    have hnames := fun q j => ht.fs.hasFile_createFile (p := q) (j := j) hk hi hlen
    have hnamed : Named (t.fs.createFile k i (skipSlash p)) t.opened :=
      ht.named.of_files (fun _ h => h) (fun _ => rfl) fun q j hj => (hnames q j).mpr (Or.inl hj)
    have hown : OwnBytes (t.fs.createFile k i (skipSlash p))
        (t.nextStored (.tfsOpen (some p) mode) ⟨(addToOpenFileTable k 0
          (t.fs.createFile k i (skipSlash p))).1, []⟩) := by
      refine ht.own.of_files fun q j hj => ?_
      rcases (hnames q j).mp hj with hj | ⟨-, rfl⟩
      · have hfile := ht.fs.isFile_of_hasFile hj
        have hq : q ≠ skipSlash p := by
          rintro rfl
          exact hno j hj
        refine Or.inr ⟨hj, ht.fs.contents_createFile_ne hfile
          (hfile.ne_of_free (free_of_firstFit hk).2) (firstFit_eq_some.mp hi).1, ?_⟩
        rw [nextStored]
        split
        · exact Function.update_of_ne hq _ _
        · rfl
      · exact Or.inl contents_createFile
    exact ⟨hs', hnamed.addToOpenFileTable ((hnames _ k).mpr (Or.inr ⟨rfl, rfl⟩)),
      hown.addToOpenFileTable⟩

theorem inFile_write {fhandle : Int} {buffer : List UInt8}
    (hin : InFile (.tfsWrite fhandle buffer) s)
    (hf : fhandle = f) (hopen : s.IsOpen f) (hj : (s.openFileTable f).ofInumber = j)
    (hpos : 0 < toWrite buffer.length (s.openFileTable f).ofOffset s.fsParams.blockSize) :
    (s.openFileTable f).ofOffset ≤ (s.inodeTable j).iSize := by
  have h := hin f (getOpenFileEntry_eq_some.mpr ⟨hf, hopen⟩) hpos
  rwa [hj, Int.toNat_natCast] at h

theorem inFile_read {fhandle : Int} {len : Nat} (hin : InFile (.tfsRead fhandle len) s)
    (hf : fhandle = f) (hopen : s.IsOpen f) (hj : (s.openFileTable f).ofInumber = j)
    (hpos : 0 < len) :
    (s.openFileTable f).ofOffset ≤ (s.inodeTable j).iSize := by
  have h := hin f (getOpenFileEntry_eq_some.mpr ⟨hf, hopen⟩) hpos
  rwa [hj, Int.toNat_natCast] at h

theorem Inv.next_write {fhandle : Int} {buffer : List UInt8} {ret : Int} (ht : t.Inv)
    (hin : InFile (.tfsWrite fhandle buffer) t.fs)
    (hw : tfsWrite fhandle buffer t.fs = .ok (ret, fs'))
    (h : WriteSpec t.fs fhandle buffer (ret, fs')) :
    (t.next (.tfsWrite fhandle buffer) ⟨ret, []⟩ fs').Inv := by
  have hs' := h.inv ht.fs
  have hsame : ∀ {ret : Int}, ret.toNat = 0 →
      (t.next (.tfsWrite fhandle buffer) ⟨ret, []⟩ t.fs).Inv := by
    intro ret hret
    refine ⟨ht.fs, ht.named, ?_⟩
    have hnone : ∀ q off, storeAt (t.stored q) off [] = t.stored q := fun q off => by
      funext p
      rw [storeAt, dif_neg (by simp)]
    rw [next, nextStored, hret, List.take_zero, hnone, Function.update_eq_self]
    exact ht.own
  cases h with
  | closed => exact hsame (by decide)
  | nothing => exact hsame (by decide)
  | noBlock => exact hsame (by decide)
  | wrote f j b n hf hopen hj hb hn hpos =>
    subst hf
    have hto := ht.fs.toWrite_of_tfsWrite hopen hpos hw
    obtain ⟨j', hfile, hj'⟩ := ht.named f hopen
    obtain rfl : j = j' := Int.natCast_inj.mp (hj.symm.trans hj')
    have hoff := inFile_write hin rfl hopen hj (by rw [hto]; exact hpos)
    obtain ⟨hb0, -⟩ := hb.bounds (ht.fs.sane j (ht.fs.isFile_of_hasFile hfile)) ht.fs.root
    refine ⟨hs', ?_, ?_⟩
    · exact ht.named.of_files (fun _ h => h) (fun _ => ofInumber_setOffset)
        fun q k hk => (ht.fs.hasFile_writeBlock j _ _ hb0).mpr hk
    · have hown := ht.own.writeBlock ht.fs hfile hb hoff
        (show _ + (buffer.take n).length ≤ _ by rw [List.length_take]; omega)
      rw [next, nextStored, Int.toNat_natCast, Int.toNat_natCast]
      exact hown

theorem Inv.next_read {fhandle : Int} {len : Nat} {ret : (Int × List UInt8) × TfsState}
    (ht : t.Inv) (h : ReadSpec t.fs fhandle len ret) :
    (t.next (.tfsRead fhandle len) ⟨ret.1.1, ret.1.2⟩ ret.2).Inv := by
  have hs' := h.inv ht.fs
  cases h with
  | closed => exact ⟨hs', ht.named, ht.own⟩
  | nothing => exact ⟨hs', ht.named, ht.own⟩
  | read =>
    exact ⟨hs', ht.named.of_files (fun _ h => h) (fun _ => ofInumber_setOffset) fun _ _ h => h,
      ht.own⟩
  | stray =>
    exact ⟨hs', ht.named.of_files (fun _ h => h) (fun _ => ofInumber_setOffset) fun _ _ h => h,
      ht.own⟩

theorem Inv.next_close {fhandle : Int} {ret : Int × TfsState} (ht : t.Inv)
    (h : CloseSpec t.fs fhandle ret) : (t.next (.tfsClose fhandle) ⟨ret.1, []⟩ ret.2).Inv := by
  have hs' := h.inv ht.fs
  cases h with
  | closed => exact ⟨hs', ht.named, ht.own⟩
  | done f₀ =>
    refine ⟨hs', ht.named.of_files ?_ (fun _ => rfl) fun _ _ h => h, ht.own⟩
    rintro f ⟨hlt, htaken⟩
    have hff : f ≠ f₀ := by
      rintro rfl
      simp [next, closeHandle] at htaken
    exact ⟨hlt, by simpa [next, closeHandle, hff] using htaken⟩

theorem call_eq_ok : call c t = .ok (r, t') ↔
    ∃ fs', tfsCall c t.fs = .ok (r, fs') ∧ t' = t.next c r fs' :=
  Outcome.recorded_eq_ok

/-- **The step lemma.** -/
theorem Inv.call (ht : t.Inv) (hkeeps : KeepsFiles c) (hin : InFile c t.fs)
    (h : Tracked.call c t = .ok (r, t')) : t'.Inv := by
  obtain ⟨fs', hcall, rfl⟩ := call_eq_ok.mp h
  have hspec := ht.fs.callSpec hcall
  cases hspec with
  | tfsOpen hspec => exact ht.next_open hspec
  | tfsClose hspec => exact ht.next_close hspec
  | tfsRead hspec => exact ht.next_read hspec
  | tfsWrite hspec => exact ht.next_write hin (tfsWrite_of_tfsCall hcall) hspec
  | tfsUnlink => exact hkeeps.elim

/-- **A read** that starts inside the file, or at its end. -/
theorem Inv.own_read {fhandle : Int} {len : Nat} (ht : t.Inv)
    (hin : InFile (.tfsRead fhandle len) t.fs) :
    ∃ ret bytes fs', tfsRead fhandle len t.fs = .ok ((ret, bytes), fs') ∧
      t.Own fhandle ret bytes := by
  rcases ht.fs.tfsRead_spec fhandle len with ⟨⟨⟨ret, bytes⟩, fs'⟩, hread, hspec⟩ | ⟨f, j, hst, -⟩
  · refine ⟨ret, bytes, fs', hread, ?_⟩
    cases hspec with
    | closed hclosed =>
      exact ⟨fun i h => absurd h (Nat.not_lt_zero i), fun f j hf hopen =>
        absurd hopen (hclosed f hf)⟩
    | nothing => exact ⟨fun i h => absurd h (Nat.not_lt_zero i), fun _ _ _ _ _ _ => ⟨rfl, rfl⟩⟩
    | read f j n hf hopen hj hlt hn =>
      subst hf
      obtain ⟨j', hfile, hj'⟩ := ht.named f hopen
      obtain rfl : j = j' := Int.natCast_inj.mp (hj.symm.trans hj')
      refine ⟨fun i hi => ?_, fun f' j' hf' _ hj' hle => ?_⟩
      · rw [length_load] at hi
        have hp : (t.fs.openFileTable f).ofOffset + i < (t.fs.contents j).length := by
          rw [length_contents]
          omega
        have hbyte : (t.fs.contents j)[(t.fs.openFileTable f).ofOffset + i] = t.fs.fsData
            (t.fs.blockOf j * t.fs.fsParams.blockSize + ((t.fs.openFileTable f).ofOffset + i)) :=
          getElem_load hp
        rw [getElem_load, Int.toNat_natCast, Nat.add_assoc, ← hbyte]
        exact ht.own _ j hfile _ hp
      · obtain rfl : f = f' := Int.natCast_inj.mp hf'
        obtain rfl : j = j' := Int.natCast_inj.mp (hj.symm.trans hj')
        omega
    | stray f j n bytes hst =>
      exact absurd hst.2.2.2.1 (not_lt.mpr (inFile_read hin hst.1 hst.2.1 hst.2.2.1 hst.2.2.2.2))
  · exact absurd hst.2.2.2.1 (not_lt.mpr (inFile_read hin hst.1 hst.2.1 hst.2.2.1 hst.2.2.2.2))

end Tracked

open Tracked in
/-- **Reads return the file's own data.**  In a run without `tfs_unlink`, when everything
that is read or stored starts inside its file or at its end, every read returns; each byte
that it gives is one that a write stored at that position of the file since it was created
and last truncated; and at the end of the file it gives none. -/
theorem tfsRead_own {params : Option TfsParams} {s : TfsState} (hinit : Started params s)
    (hp : (params.getD tfsDefaultParams).InRange) (cs : List TfsCall)
    (hkeeps : ∀ c ∈ cs, KeepsFiles c)
    (hin : Outcome.Meets (fun c t => InFile c t.fs) Tracked.call cs (start s)) {t : Tracked}
    {fhandle : Int} {len : Nat}
    (hread : Outcome.Reaches Tracked.call cs (start s) (.tfsRead fhandle len) t) :
    ∃ ret bytes fs', tfsRead fhandle len t.fs = .ok ((ret, bytes), fs') ∧
      t.Own fhandle ret bytes := by
  have hmeets := (Outcome.meets_of_forall fun c hc _ => hkeeps c hc).and hin
  refine Inv.own_read (hread.invariant_of_meets (I := Tracked.Inv) ?_ hmeets ?_)
    (hmeets.reaches hread).2
  · rintro c t r t' ht ⟨hkeeps, hin⟩ hcall
    exact ht.call hkeeps hin hcall
  · exact inv_start (hinit.fresh hp)

/-- Two files, each written and read by another handle. -/
def readBack : List TfsCall :=
  [.tfsOpen (some (.ofBuffer [47, 97])) tfsOCreat, .tfsOpen (some (.ofBuffer [47, 98])) tfsOCreat,
    .tfsWrite 0 [120, 121], .tfsWrite 1 [122], .tfsOpen (some (.ofBuffer [47, 97])) 0, .tfsRead 2 2]

theorem own_readBack : ∃ rs t ret bytes fs',
    Outcome.runList Tracked.call (readBack.take 5) (.start initial) = .ok (rs, t) ∧
      tfsRead 2 2 t.fs = .ok ((ret, bytes), fs') ∧ t.Own 2 ret bytes := by
  have h : (Outcome.runList Tracked.call (readBack.take 5) (.start initial)).map Prod.fst =
      .ok [⟨0, []⟩, ⟨1, []⟩, ⟨2, []⟩, ⟨1, []⟩, ⟨2, []⟩] := by
    decide +kernel
  obtain ⟨⟨rs, t⟩, hrun, -⟩ := Outcome.map_eq_ok.mp h
  have hkeeps : ∀ c ∈ readBack, Tracked.KeepsFiles c := by
    intro c hc
    simp only [readBack, List.mem_cons, List.not_mem_nil, or_false] at hc
    rcases hc with rfl | rfl | rfl | rfl | rfl | rfl <;> trivial
  obtain ⟨ret, bytes, fs', hread, hown⟩ :=
    tfsRead_own started_initial inRange_tfsDefaultParams readBack
    hkeeps (by decide +kernel) ⟨readBack.take 5, [], rs, rfl, hrun⟩
  exact ⟨rs, t, ret, bytes, fs', hrun, hread, hown⟩

/-- The file `a` is truncated while handle 0 is open, and its block becomes that of the
file `b`. -/
def recycledBlock : List TfsCall :=
  [.tfsOpen (some (.ofBuffer [47, 97])) tfsOCreat, .tfsWrite 0 [120],
    .tfsOpen (some (.ofBuffer [47, 98])) tfsOCreat, .tfsOpen (some (.ofBuffer [47, 97])) tfsOTrunc,
    .tfsWrite 1 [121, 122]]

/-- Then handle 0 reads the second byte of `b`. -/
theorem not_own_recycledBlock : ∃ rs t fs',
    Outcome.runList Tracked.call recycledBlock (.start initial) = .ok (rs, t) ∧
      tfsRead 0 1 t.fs = .ok ((1, [122]), fs') ∧ ¬ t.Own 0 1 [122] := by
  have h : (Outcome.runList Tracked.call recycledBlock (.start initial) >>= fun p =>
      (tfsRead 0 1 p.2.fs).map fun w => (w.1, p.2.opened 0, (p.2.fs.openFileTable 0).ofOffset,
        p.2.stored (.ofBuffer [97]) 1)) = .ok ((1, [122]), .ofBuffer [97], 1, []) := by
    decide +kernel
  obtain ⟨⟨rs, t⟩, hrun, h⟩ := Outcome.bind_eq_ok.mp h
  obtain ⟨⟨ret, fs'⟩, hread, heq⟩ := Outcome.map_eq_ok.mp h
  simp only [Prod.mk.injEq] at heq
  obtain ⟨rfl, hopened, hoff, hstored⟩ := heq
  refine ⟨rs, t, fs', hrun, hread, fun hown => ?_⟩
  have hmem := hown.data 0 (by decide)
  rw [show (0 : Int).toNat = 0 from rfl, hopened, hoff, hstored] at hmem
  exact absurd hmem List.not_mem_nil

end Tfs
