/-
Handles in append mode.

`tfs_open` with `TFS_O_APPEND` only sets the offset at which the handle starts, and
`tfs_write` writes at the offset of its handle, so that a handle does not see what the
others have added since.

* `Appending` — a state, the handles of a file that have been opened in append mode, and
  what they have written;
* **`appends_iff`** — the runs in which the file holds it;
* `not_appended_twoHandles` — two handles, each with its own offset.
-/
import Mbroker.TfsNames
import Mbroker.TfsRuns

namespace Tfs

open Memory SlotTable TfsState

/-- A state, the handles opened in append mode, and the data written through them after
what the file held before. -/
structure Appending where
  fs : TfsState
  handles : Finset Nat
  written : List UInt8

namespace Appending

/-- Before the first of them is opened. -/
def start (s : TfsState) (q : CString) : Appending := ⟨s, ∅, (s.readFile q).getD []⟩

/-- A call, and what it adds. -/
def next (t : Appending) (c : TfsCall) (r : Reply) (fs' : TfsState) : Appending :=
  match c with
  | .tfsOpen _ _ => ⟨fs', if 0 ≤ r.ret then insert r.ret.toNat t.handles else t.handles, t.written⟩
  | .tfsClose fhandle => ⟨fs', t.handles.erase fhandle.toNat, t.written⟩
  | .tfsWrite _ buffer => ⟨fs', t.handles, t.written ++ buffer.take r.ret.toNat⟩
  | .tfsRead _ _ => ⟨fs', t.handles, t.written⟩
  | .tfsUnlink _ => ⟨fs', t.handles, t.written⟩

/-- A call of the API. -/
def call (c : TfsCall) (t : Appending) : Outcome (Reply × Appending) := do
  let (r, fs') ← tfsCall c t.fs
  return (r, t.next c r fs')

/-- The file is opened in append mode and not truncated, or one of the handles is used. -/
def AppendsTo (q : CString) : TfsCall → Appending → Prop
  | .tfsOpen name mode, _ =>
    name.map skipSlash = some q ∧ mode &&& tfsOAppend ≠ 0 ∧ mode &&& tfsOTrunc = 0
  | .tfsClose fhandle, t | .tfsRead fhandle _, t | .tfsWrite fhandle _, t =>
    ∃ f ∈ t.handles, fhandle = f
  | .tfsUnlink _, _ => False

/-- The file holds what has been written. -/
def Holds (q : CString) (t : Appending) : Prop := (t.fs.readFile q).getD [] = t.written

instance (q : CString) : ∀ (c : TfsCall) (t : Appending), Decidable (AppendsTo q c t)
  | .tfsOpen _ _, _ => inferInstanceAs (Decidable (_ ∧ _))
  | .tfsClose fhandle, t | .tfsRead fhandle _, t | .tfsWrite fhandle _, t =>
    inferInstanceAs (Decidable (∃ f ∈ t.handles, fhandle = f))
  | .tfsUnlink _, _ => inferInstanceAs (Decidable False)

/-- A write that stores something is at the end of the file. -/
def AtEnd : TfsCall → Appending → Prop
  | .tfsWrite fhandle buffer, t =>
    let file := t.fs.openFileTable fhandle.toNat
    let n := toWrite buffer.length file.ofOffset t.fs.fsParams.blockSize
    0 < n → file.ofOffset + n ≤ t.fs.fsParams.blockSize →
      file.ofOffset = (t.fs.inodeTable file.ofInumber.toNat).iSize
  | _, _ => True

instance : ∀ (c : TfsCall) (t : Appending), Decidable (AtEnd c t)
  | .tfsWrite _ _, _ => inferInstanceAs (Decidable (_ → _ → _))
  | .tfsOpen _ _, _ | .tfsClose _, _ | .tfsRead _ _, _ | .tfsUnlink _, _ =>
    inferInstanceAs (Decidable True)

/-- Handle `f` is one of the file `q`, and not past its end. -/
structure Refers (s : TfsState) (q : CString) (f j : Nat) : Prop where
  isOpen : s.IsOpen f
  file : s.HasFile q j
  inumber : (s.openFileTable f).ofInumber = j
  offset : (s.openFileTable f).ofOffset ≤ (s.inodeTable j).iSize

structure Inv (q : CString) (t : Appending) : Prop where
  fs : t.fs.Inv
  holds : t.Holds q
  handles : ∀ f ∈ t.handles, ∃ j, Refers t.fs q f j

variable {t t' : Appending} {fs' : TfsState} {q : CString} {c : TfsCall} {r : Reply} {f j k : Nat}

theorem inv_start {s : TfsState} (hs : s.Inv) (q : CString) : (start s q).Inv q :=
  ⟨hs, rfl, fun f hf => absurd hf (Finset.notMem_empty f)⟩

/-! ### Opening -/

/-- A new handle of the file. -/
theorem Inv.openHandle {off : Nat} (ht : t.Inv q) (hf : t.fs.nextHandle = some f)
    (hj : t.fs.HasFile q j) (hoff : off ≤ (t.fs.inodeTable j).iSize)
    (hs' : (t.fs.openHandle f j off).Inv) :
    Inv q ⟨t.fs.openHandle f j off, insert f t.handles, t.written⟩ := by
  obtain ⟨hlt, hfree⟩ := free_of_firstFit hf
  refine ⟨hs', ?_, ?_⟩
  · have hread := ht.holds
    rw [Holds, ht.fs.readFile_of_hasFile hj] at hread
    rw [Holds, hs'.readFile_of_hasFile hj]
    exact hread
  · intro f' hf'
    by_cases hff : f' = f
    · subst hff
      exact ⟨j, ⟨hlt, by simp [TfsState.openHandle]⟩, hj, by simp [TfsState.openHandle],
        by simpa [TfsState.openHandle] using hoff⟩
    · obtain ⟨j', hopen, hj', hinum, hle⟩ := ht.handles f' (Finset.mem_of_mem_insert_of_ne hf' hff)
      exact ⟨j', ⟨hopen.1, by simpa [TfsState.openHandle, hff] using hopen.2⟩, hj',
        by simpa [TfsState.openHandle, hff] using hinum,
        by simpa [TfsState.openHandle, hff] using hle⟩

/-- An entry of the table of open files, when there is one. -/
theorem Inv.opened {off : Nat} (ht : t.Inv q) (name : Option CString) (mode : Nat)
    (hj : t.fs.HasFile q j) (hoff : off ≤ (t.fs.inodeTable j).iSize) :
    (t.next (.tfsOpen name mode) ⟨(addToOpenFileTable j off t.fs).1, []⟩
      (addToOpenFileTable j off t.fs).2).Inv q := by
  have hs' : (addToOpenFileTable j off t.fs).2.Inv := by
    have hfile := ht.fs.isFile_of_hasFile hj
    exact ht.fs.addToOpenFileTable hfile
      (hoff.trans ((ht.fs.sane j hfile).1.trans ht.fs.blockSize_le)) rfl
  cases hf : t.fs.nextHandle with
  | none =>
    rw [addToOpenFileTable_none hf, next, if_neg (by simp)]
    exact ht
  | some f =>
    rw [addToOpenFileTable_some hf] at hs' ⊢
    rw [next, if_pos (by dsimp only; omega)]
    exact ht.openHandle hf hj hoff hs'

/-- A file that does not exist has no handle, and nothing has been written to it. -/
theorem Inv.of_missing (ht : t.Inv q) (hno : ∀ j, ¬ t.fs.HasFile q j) :
    t.written = [] ∧ ∀ f, f ∉ t.handles := by
  refine ⟨?_, fun f hf => ?_⟩
  · have hread := ht.holds
    rw [Holds, ht.fs.readFile_eq_none.mpr hno] at hread
    exact hread.symm
  · obtain ⟨j, href⟩ := ht.handles f hf
    exact hno j href.file

theorem Inv.next_open {name : Option CString} {mode : Nat} {ret : Int × TfsState} (ht : t.Inv q)
    (hkind : AppendsTo q (.tfsOpen name mode) t) (h : OpenSpec t.fs name mode ret) :
    (t.next (.tfsOpen name mode) ⟨ret.1, []⟩ ret.2).Inv q := by
  obtain ⟨hname, happend, htrunc⟩ := hkind
  obtain ⟨p, rfl, rfl⟩ := Option.map_eq_some_iff.mp hname
  have hsame : (t.next (.tfsOpen (some p) mode) ⟨-1, []⟩ t.fs).Inv (skipSlash p) := by
    rw [next, if_neg (by simp)]
    exact ht
  cases h with
  | invalid => exact hsame
  | missing => exact hsame
  | noInode => exact hsame
  | existing p' j hp hv hj =>
    obtain rfl := Option.some.inj hp
    have hnot : t.fs.truncated mode j = t.fs := by
      rw [TfsState.truncated, if_neg (not_not.mpr htrunc)]
    rw [hnot]
    refine ht.opened _ mode hj ?_
    rw [openOffset, if_pos happend]
  | noEntry p' k hp hv hno _ hk =>
    obtain rfl := Option.some.inj hp
    obtain ⟨hwritten, hnone⟩ := ht.of_missing hno
    have hfree := (free_of_firstFit hk).2
    have hs' := ht.fs.resetInode (ht.fs.pos_of_free hfree) hfree
    rw [next, if_neg (by simp)]
    refine ⟨hs', ?_, fun f hf => absurd hf (hnone f)⟩
    rw [Holds, hs'.readFile_eq_none.mpr hno, hwritten]
    rfl
  | created p' k i hp hv hno hm hk hi hlen =>
    obtain rfl := Option.some.inj hp
    obtain ⟨hwritten, hnone⟩ := ht.of_missing hno
    have hs' := ht.fs.createFile hk hi (validPathname_strlen hv) hlen hno
    have hj := (ht.fs.hasFile_createFile hk hi hlen).mpr (Or.inr ⟨rfl, rfl⟩)
    have hread := hs'.readFile_of_hasFile hj
    rw [contents_createFile] at hread
    have ht' : Inv (skipSlash p) ⟨t.fs.createFile k i (skipSlash p), t.handles, t.written⟩ := by
      refine ⟨hs', ?_, fun f hf => absurd hf (hnone f)⟩
      rw [Holds, hread, hwritten]
      rfl
    exact ht'.opened (some p) mode hj (Nat.zero_le _)

/-! ### The handles -/

theorem Refers.setOffset {s : TfsState} {off : Nat} (h : Refers s q f j)
    (hoff : (s.openFileTable k).ofInumber = j → off ≤ (s.inodeTable j).iSize) :
    Refers (s.setOffset k off) q f j := by
  refine ⟨h.isOpen, h.file, ofInumber_setOffset.trans h.inumber, ?_⟩
  by_cases hfk : f = k
  · subst hfk
    simpa [TfsState.setOffset] using hoff h.inumber
  · simpa [TfsState.setOffset, hfk] using h.offset

/-- A write leaves the handles where they are, and the file no shorter. -/
theorem Refers.writeBlock {s : TfsState} {b off : Nat} {data : List UInt8} (hs : s.Inv)
    (h : Refers s q f j) (hb : 0 < b) : Refers (s.writeBlock k b off data) q f j := by
  refine ⟨h.isOpen, (hs.hasFile_writeBlock k off data hb).mpr h.file, h.inumber, ?_⟩
  by_cases hjk : j = k
  · subst hjk
    rw [writeBlock_inode]
    exact h.offset.trans (le_max_left _ _)
  · rw [writeBlock_inode_ne hjk]
    exact h.offset

/-- **A write at the end** of the file adds to it. -/
theorem contents_append {s : TfsState} {b : Nat} {data : List UInt8} (hb : s.BlockFor j b) :
    (s.writeBlock j b (s.inodeTable j).iSize data).contents j = s.contents j ++ data := by
  rw [contents_writeBlock hb le_rfl, overwrite]
  have hlen : (s.contents j).length = (s.inodeTable j).iSize := length_contents
  rw [List.take_of_length_le hlen.le, List.drop_eq_nil_of_le (by omega), List.append_nil]

theorem Inv.next_write {fhandle : Int} {buffer : List UInt8} {ret : Int} (ht : t.Inv q)
    (hkind : AppendsTo q (.tfsWrite fhandle buffer) t) (hend : AtEnd (.tfsWrite fhandle buffer) t)
    (hw : tfsWrite fhandle buffer t.fs = .ok (ret, fs'))
    (h : WriteSpec t.fs fhandle buffer (ret, fs')) :
    (t.next (.tfsWrite fhandle buffer) ⟨ret, []⟩ fs').Inv q := by
  have hs' := h.inv ht.fs
  have hsame : ∀ {ret : Int}, ret.toNat = 0 →
      (t.next (.tfsWrite fhandle buffer) ⟨ret, []⟩ t.fs).Inv q := by
    intro ret hret
    rw [next, hret, List.take_zero, List.append_nil]
    exact ht
  obtain ⟨f, hf, rfl⟩ := hkind
  obtain ⟨j, href⟩ := ht.handles f hf
  cases h with
  | closed => exact hsame (by decide)
  | nothing => exact hsame (by decide)
  | noBlock => exact hsame (by decide)
  | wrote f' j' b n hf' hopen hj' hb hn hpos =>
    obtain rfl : f = f' := Int.natCast_inj.mp hf'
    obtain rfl : j = j' := Int.natCast_inj.mp (href.inumber.symm.trans hj')
    have hfile := ht.fs.isFile_of_hasFile href.file
    obtain ⟨hb0, -⟩ := hb.bounds (ht.fs.sane j hfile) ht.fs.root
    have hto := ht.fs.toWrite_of_tfsWrite hopen hpos hw
    have hat : (t.fs.openFileTable f).ofOffset = (t.fs.inodeTable j).iSize := by
      have h := hend (by rw [Int.toNat_natCast, hto]; exact hpos)
        (by rw [Int.toNat_natCast, hto]; omega)
      rwa [Int.toNat_natCast, hj', Int.toNat_natCast] at h
    have hsize : (t.fs.openFileTable f).ofOffset + n ≤
        ((t.fs.writeBlock j b (t.fs.openFileTable f).ofOffset (buffer.take n)).inodeTable j).iSize := by
      rw [writeBlock_inode, List.length_take]
      dsimp only
      omega
    refine ⟨hs', ?_, fun f' hf' => ?_⟩
    · have hread := ht.holds
      rw [Holds, ht.fs.readFile_of_hasFile href.file] at hread
      have hj' := (ht.fs.hasFile_writeBlock j (t.fs.openFileTable f).ofOffset (buffer.take n)
        hb0).mpr href.file
      rw [Holds, next, hs'.readFile_of_hasFile hj', contents_setOffset, hat, contents_append hb]
      exact congrArg (· ++ buffer.take n) hread
    · obtain ⟨j', href'⟩ := ht.handles f' hf'
      obtain rfl := ht.fs.hasFile_inode href.file href'.file
      exact ⟨j, (href'.writeBlock ht.fs hb0).setOffset fun _ => hsize⟩

theorem Inv.next_read {fhandle : Int} {len : Nat} {ret : (Int × List UInt8) × TfsState}
    (ht : t.Inv q) (hkind : AppendsTo q (.tfsRead fhandle len) t)
    (h : ReadSpec t.fs fhandle len ret) :
    (t.next (.tfsRead fhandle len) ⟨ret.1.1, ret.1.2⟩ ret.2).Inv q := by
  have hs' := h.inv ht.fs
  obtain ⟨f, hf, rfl⟩ := hkind
  obtain ⟨j, href⟩ := ht.handles f hf
  cases h with
  | closed => exact ht
  | nothing => exact ht
  | read f' j' n hf' _ hj' hlt hn =>
    obtain rfl : f = f' := Int.natCast_inj.mp hf'
    obtain rfl : j = j' := Int.natCast_inj.mp (href.inumber.symm.trans hj')
    refine ⟨hs', ?_, fun f' hf' => ?_⟩
    · have hread := ht.holds
      rw [Holds, ht.fs.readFile_of_hasFile href.file] at hread
      rw [Holds, next, hs'.readFile_of_hasFile href.file]
      exact hread
    · obtain ⟨j', href'⟩ := ht.handles f' hf'
      obtain rfl := ht.fs.hasFile_inode href.file href'.file
      exact ⟨j, href'.setOffset fun _ => by omega⟩
  | stray f' j' n bytes hst =>
    obtain rfl : f = f' := Int.natCast_inj.mp hst.1
    obtain rfl : j = j' := Int.natCast_inj.mp (href.inumber.symm.trans hst.2.2.1)
    exact absurd hst.2.2.2.1 (not_lt.mpr href.offset)

theorem Inv.next_close {fhandle : Int} {ret : Int × TfsState} (ht : t.Inv q)
    (hkind : AppendsTo q (.tfsClose fhandle) t) (h : CloseSpec t.fs fhandle ret) :
    (t.next (.tfsClose fhandle) ⟨ret.1, []⟩ ret.2).Inv q := by
  have hs' := h.inv ht.fs
  obtain ⟨f, hf, rfl⟩ := hkind
  obtain ⟨j, href⟩ := ht.handles f hf
  cases h with
  | closed hclosed => exact absurd href.isOpen (hclosed f rfl)
  | done f' hf' =>
    obtain rfl : f = f' := Int.natCast_inj.mp hf'
    refine ⟨hs', ?_, fun f' hf' => ?_⟩
    · have hread := ht.holds
      rw [Holds, ht.fs.readFile_of_hasFile href.file] at hread
      rw [Holds, next, hs'.readFile_of_hasFile href.file]
      exact hread
    · obtain ⟨hff, hmem⟩ := Finset.mem_erase.mp hf'
      rw [Int.toNat_natCast] at hff
      obtain ⟨j', hopen, hj', hinum, hle⟩ := ht.handles f' hmem
      refine ⟨j', ⟨hopen.1, ?_⟩, hj', hinum, hle⟩
      simpa [next, closeHandle, hff] using hopen.2

theorem call_eq_ok : call c t = .ok (r, t') ↔
    ∃ fs', tfsCall c t.fs = .ok (r, fs') ∧ t' = t.next c r fs' :=
  Outcome.recorded_eq_ok

/-- **The step lemma.** -/
theorem Inv.call (ht : t.Inv q) (hkind : AppendsTo q c t) (hend : AtEnd c t)
    (h : Appending.call c t = .ok (r, t')) : t'.Inv q := by
  obtain ⟨fs', hcall, rfl⟩ := call_eq_ok.mp h
  have hspec := ht.fs.callSpec hcall
  cases hspec with
  | tfsOpen hspec => exact ht.next_open hkind hspec
  | tfsClose hspec => exact ht.next_close hkind hspec
  | tfsRead hspec => exact ht.next_read hkind hspec
  | tfsWrite hspec => exact ht.next_write hkind hend (tfsWrite_of_tfsCall hcall) hspec
  | tfsUnlink => exact hkind.elim

/-- A write before the end does not make the file as much longer as it should. -/
theorem Inv.not_holds (ht : t.Inv q) (hkind : AppendsTo q c t) (hno : ¬ AtEnd c t) :
    ∃ r t', Appending.call c t = .ok (r, t') ∧ ¬ t'.Holds q := by
  obtain ⟨fhandle, buffer, rfl⟩ : ∃ fhandle buffer, c = .tfsWrite fhandle buffer := by
    cases c with
    | tfsWrite fhandle buffer => exact ⟨fhandle, buffer, rfl⟩
    | _ => exact absurd trivial hno
  obtain ⟨f, hf, rfl⟩ := hkind
  obtain ⟨j, href⟩ := ht.handles f hf
  have hj := href.inumber
  simp only [AtEnd, Int.toNat_natCast, hj] at hno
  push Not at hno
  obtain ⟨hpos, hfit, hne⟩ := hno
  obtain ⟨n, hn⟩ : ∃ n, toWrite buffer.length (t.fs.openFileTable f).ofOffset
    t.fs.fsParams.blockSize = n := ⟨_, rfl⟩
  rw [hn] at hpos hfit
  have hfile := ht.fs.isFile_of_hasFile href.file
  have hlt := lt_of_le_of_ne href.offset hne
  have hb : t.fs.BlockFor j (t.fs.blockOf j) := by rw [BlockFor, if_neg (by omega)]
  obtain ⟨hb0, -⟩ := hb.bounds (ht.fs.sane j hfile) ht.fs.root
  have hw := ht.fs.tfsWrite_eq href.isOpen hj hb hn hpos hfit
  have hcall := tfsCall_tfsWrite hw
  refine ⟨_, _, call_eq_ok.mpr ⟨_, hcall, rfl⟩, fun hholds => ?_⟩
  have hs' := ht.fs.tfsCall hcall
  have hj' := (ht.fs.hasFile_writeBlock j (t.fs.openFileTable f).ofOffset (buffer.take n)
    hb0).mpr href.file
  have hread := ht.holds
  rw [Holds, ht.fs.readFile_of_hasFile href.file] at hread
  rw [Holds, next, hs'.readFile_of_hasFile hj', contents_setOffset, Int.toNat_natCast, ← hread] at hholds
  have hlen := congrArg List.length hholds
  simp only [Option.getD_some, length_contents, writeBlock_inode, List.length_append] at hlen
  have hsize := ht.fs.range.blockSize
  have hoff := (ht.fs.offset f href.isOpen).trans_lt ht.fs.dataSize_lt
  have hcases := toWrite_cases buffer.length hsize hoff
  rw [hn] at hcases
  have htake : (buffer.take n).length = n := by
    rw [List.length_take]
    omega
  omega

end Appending

open Appending in
/-- **Append mode.**  From a state that a run reaches, a file is opened in append mode and
written through those handles.  After every call it holds what it held before and then
the data that the writes have stored, in their order, in exactly the runs in which no
write stores anything before the end of the file. -/
theorem appends_iff {params : Option TfsParams} {s₁ s : TfsState} {ds : List TfsCall}
    {rs : List Reply} (hinit : Started params s₁) (hp : (params.getD tfsDefaultParams).InRange)
    (hrun : runCalls ds s₁ = .ok (rs, s)) (q : CString) (cs : List TfsCall)
    (hkind : Outcome.Meets (AppendsTo q) Appending.call cs (start s q)) :
    (∀ n rs t, Outcome.runList Appending.call (cs.take n) (start s q) = .ok (rs, t) →
        t.Holds q) ↔ Outcome.Meets AtEnd Appending.call cs (start s q) := by
  have hs := (hinit.fresh hp).inv.runCalls hrun
  refine Outcome.good_iff_meets_of_kind (I := fun t => t.Inv q) ?_ ?_ ?_ hkind (inv_start hs q)
  · exact fun c t r t' ht hkind hend hcall => ht.call hkind hend hcall
  · exact fun t ht => ht.holds
  · exact fun c t ht hkind hno => ht.not_holds hkind hno

/-- One handle in append mode. -/
def oneHandle : List TfsCall :=
  [.tfsOpen (some (.ofBuffer [47, 97])) (tfsOCreat ||| tfsOAppend), .tfsWrite 0 [120],
    .tfsWrite 0 [121]]

theorem holds_oneHandle :
    Outcome.Meets Appending.AtEnd Appending.call oneHandle (.start initial (.ofBuffer [97])) ∧
      ∀ n rs t, Outcome.runList Appending.call (oneHandle.take n)
        (.start initial (.ofBuffer [97])) = .ok (rs, t) → t.Holds (.ofBuffer [97]) := by
  have hend : Outcome.Meets Appending.AtEnd Appending.call oneHandle
      (.start initial (.ofBuffer [97])) := by
    decide +kernel
  have hrun : runCalls [] initial = .ok ([], initial) := rfl
  exact ⟨hend, (appends_iff started_initial inRange_tfsDefaultParams hrun (.ofBuffer [97]) oneHandle
    (by decide +kernel)).mpr hend⟩

/-- Two handles in append mode. -/
def twoHandles : List TfsCall :=
  [.tfsOpen (some (.ofBuffer [47, 97])) (tfsOCreat ||| tfsOAppend),
    .tfsOpen (some (.ofBuffer [47, 97])) tfsOAppend, .tfsWrite 0 [120], .tfsWrite 1 [121]]

/-- The byte that was stored through the one is overwritten through the other. -/
theorem not_appended_twoHandles :
    Outcome.Meets (Appending.AppendsTo (.ofBuffer [97])) Appending.call twoHandles
        (.start initial (.ofBuffer [97])) ∧
      ∃ rs t, Outcome.runList Appending.call twoHandles (.start initial (.ofBuffer [97])) =
          .ok (rs, t) ∧ t.written = [120, 121] ∧ t.fs.readFile (.ofBuffer [97]) = some [121] := by
  refine ⟨by decide +kernel, ?_⟩
  have h : (Outcome.runList Appending.call twoHandles (.start initial (.ofBuffer [97]))).map (fun p =>
      (p.2.written, p.2.fs.readFile (.ofBuffer [97]))) = .ok ([120, 121], some [121]) := by
    decide +kernel
  obtain ⟨⟨rs, t⟩, hrun, heq⟩ := Outcome.map_eq_ok.mp h
  exact ⟨rs, t, hrun, Prod.mk.inj heq⟩

end Tfs
