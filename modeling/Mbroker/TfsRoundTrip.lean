/-
What is written to a file is what is read from it later.

After any run a file is opened and emptied, and written in pieces of any sizes.  Then there may
be any calls again, on other files and on this one, as long as none of them empties or removes
it and what they write goes elsewhere.  Once it is opened to be read, in pieces of any sizes,
what comes back is what was written, up to what a block holds.

* `Inv.tfsWrites`, `Inv.tfsReads` — the pieces;
* `Inv.readFile_of_tfsCall` — the calls that leave a file;
* **`written_read`** — the round trip.
-/
import Mbroker.TfsFileEnds

namespace Tfs

open Memory SlotTable TfsState

namespace TfsState

variable {s s' s₁ : TfsState} {p q : CString} {f j k i off mode : Nat} {fhandle r : Int}
  {c : TfsCall} {ret : Reply} {bs : List UInt8}

/-! ### A handle inside a file -/

/-- The handle is the open file `f`, of the file `q` and inode `j`, at an offset. -/
structure OpenAt (s : TfsState) (fhandle : Int) (q : CString) (f j off : Nat) : Prop where
  handle : fhandle = f
  isOpen : s.IsOpen f
  file : s.HasFile q j
  entry : s.openFileTable f = ⟨j, off⟩

theorem OpenAt.atEndOf (h : s.OpenAt fhandle q f j (s.inodeTable j).iSize) :
    s.AtEndOf fhandle q f j := ⟨h.handle, h.isOpen, h.file, h.entry⟩

theorem openAt_addToOpenFileTable (hj : s₁.HasFile q j)
    (hadd : (r, s) = addToOpenFileTable j off s₁) (hr : r ≠ -1) : ∃ f, s.OpenAt r q f j off := by
  cases hf : s₁.nextHandle with
  | none =>
    rw [addToOpenFileTable_none hf] at hadd
    exact absurd (congrArg Prod.fst hadd) hr
  | some f =>
    rw [addToOpenFileTable_some hf] at hadd
    obtain ⟨rfl, rfl⟩ := Prod.mk.inj hadd
    refine ⟨f, rfl, ⟨(free_of_firstFit hf).1, ?_⟩, hj, ?_⟩
    · exact Function.update_self _ _ _
    · exact Function.update_self _ _ _

/-- A file that is opened, and emptied or not in append mode, is at its beginning. -/
theorem Inv.openAt_of_tfsOpen (hs : s.Inv) (hm : mode &&& tfsOTrunc ≠ 0 ∨ mode &&& tfsOAppend = 0)
    (h : tfsOpen (some p) mode s = .ok (r, s')) (hr : r ≠ -1) :
    ∃ f j, s'.OpenAt r (skipSlash p) f j 0 := by
  obtain ⟨ret, hopen, hspec⟩ := hs.tfsOpen_spec (some p) mode
  obtain rfl := Outcome.ok.inj (h.symm.trans hopen)
  generalize hret : (r, s') = ret at hspec
  have hfst : r = ret.1 := congrArg Prod.fst hret
  cases hspec with
  | invalid => exact absurd hfst hr
  | missing => exact absurd hfst hr
  | noInode => exact absurd hfst hr
  | noEntry => exact absurd hfst hr
  | existing p' j hp hv hj =>
    obtain rfl := Option.some.inj hp
    have hfile : (s.truncated mode j).HasFile (skipSlash p) j := by
      rw [TfsState.truncated]
      split
      · exact hasFile_truncate.mpr hj
      · exact hj
    have hoff : (s.truncated mode j).openOffset mode j = 0 := by
      rw [openOffset]
      split
      case isTrue happend =>
        rw [TfsState.truncated, if_pos (hm.resolve_right happend), truncate_inode]
      case isFalse => rfl
    rw [hoff] at hret
    obtain ⟨f, hf⟩ := openAt_addToOpenFileTable hfile hret hr
    exact ⟨f, j, hf⟩
  | created p' k i hp hv hno _ hk hi hlen =>
    obtain rfl := Option.some.inj hp
    have hfile := (hs.hasFile_createFile hk hi hlen).mpr (Or.inr ⟨rfl, rfl⟩)
    obtain ⟨f, hf⟩ := openAt_addToOpenFileTable hfile hret hr
    exact ⟨f, k, hf⟩

/-! ### The files after an open -/

/-- A new file is empty, and the others are what they were. -/
theorem Inv.readFile_of_createFile (hs : s.Inv)
    (hk : firstFit (isFree s.freeinodeTs) s.fsParams.maxInodeCount = some k)
    (hi : firstFit (fun i => dInumber s.fsData 0 i == -1) s.maxDirEntries = some i)
    (hp : 1 ≤ p.strlen) (hlen : p.strlen < maxFileName) (hno : ∀ j, ¬ s.HasFile p j) :
    (s.createFile k i p).readFile p = some [] ∧
      ∀ q ≠ p, (s.createFile k i p).readFile q = s.readFile q := by
  have hfree := (free_of_firstFit hk).2
  have hnew := hs.createFile hk hi hp hlen hno
  have hnames := fun q j => hs.hasFile_createFile (p := q) (j := j) hk hi hlen
  refine ⟨?_, fun q hq => ?_⟩
  · rw [hnew.readFile_of_hasFile ((hnames p k).mpr (Or.inr ⟨rfl, rfl⟩)), contents_createFile]
  · refine readFile_congr hs hnew (fun j => (hnames q j).trans ?_) fun j hj => ?_
    · exact or_iff_left fun heq => hq heq.1
    · have hfile := hs.isFile_of_hasFile hj
      exact hs.contents_createFile_ne hfile (hfile.ne_of_free hfree) (firstFit_eq_some.mp hi).1

/-- An emptied file is empty, and the others are what they were. -/
theorem Inv.readFile_of_truncate (hs : s.Inv) (hj : s.HasFile p j) :
    (s.truncate j).readFile p = some [] ∧ ∀ q ≠ p, (s.truncate j).readFile q = s.readFile q := by
  have hs' := hs.truncate (hs.isFile_of_hasFile hj)
  refine ⟨?_, fun q hq => ?_⟩
  · rw [hs'.readFile_of_hasFile (hasFile_truncate.mpr hj), contents_truncate]
  · refine readFile_congr hs hs' (fun k => hasFile_truncate) fun k hk => contents_truncate_ne ?_
    rintro rfl
    exact hq (hs.hasFile_name hk hj)

/-- **An open** that empties a file: it is empty if it could be opened, and the others are what
they were in any case. -/
theorem Inv.readFile_of_tfsOpen_trunc (hs : s.Inv) (hm : mode &&& tfsOTrunc ≠ 0)
    (h : tfsOpen (some p) mode s = .ok (r, s')) :
    (r ≠ -1 → s'.readFile (skipSlash p) = some []) ∧
      ∀ q ≠ skipSlash p, s'.readFile q = s.readFile q := by
  obtain ⟨ret, hopen, hspec⟩ := hs.tfsOpen_spec (some p) mode
  obtain rfl := Outcome.ok.inj (h.symm.trans hopen)
  have hs' := hspec.inv hs
  generalize hret : (r, s') = ret at hspec
  have hfst : r = ret.1 := congrArg Prod.fst hret
  have hstate : s' = ret.2 := congrArg Prod.snd hret
  cases hspec with
  | invalid => exact ⟨absurd hfst, fun q _ => by rw [hstate]⟩
  | missing => exact ⟨absurd hfst, fun q _ => by rw [hstate]⟩
  | noInode => exact ⟨absurd hfst, fun q _ => by rw [hstate]⟩
  | noEntry p' k _ _ _ _ hk =>
    have hfree := (free_of_firstFit hk).2
    refine ⟨absurd hfst, fun q _ => ?_⟩
    dsimp only at hs'
    rw [hstate] at hs' ⊢
    refine readFile_congr hs hs' (fun j => hasFile_resetInode) fun j hj => ?_
    exact contents_resetInode_ne ((hs.isFile_of_hasFile hj).ne_of_free hfree)
  | existing p' j hp hv hj =>
    obtain rfl := Option.some.inj hp
    obtain ⟨hsame, hother⟩ := hs.readFile_of_truncate hj
    rw [hstate, readFile_addToOpenFileTable, TfsState.truncated, if_pos hm]
    exact ⟨fun _ => hsame, hother⟩
  | created p' k i hp hv hno _ hk hi hlen =>
    obtain rfl := Option.some.inj hp
    obtain ⟨hsame, hother⟩ := hs.readFile_of_createFile hk hi (validPathname_strlen hv) hlen hno
    rw [hstate, readFile_addToOpenFileTable]
    exact ⟨fun _ => hsame, hother⟩

/-! ### The calls that leave a file -/

/-- The call empties the file or removes it, or it writes through a handle of it, or through one
of a file that has been removed. -/
def Touches (s : TfsState) (q : CString) : TfsCall → Prop
  | .tfsOpen name mode => name.map skipSlash = some q ∧ mode &&& tfsOTrunc ≠ 0
  | .tfsWrite fhandle _ => ∃ file ∈ s.entryOf fhandle, findInDir 0 q s = .ok file.ofInumber ∨
      s.freeinodeTs file.ofInumber.toNat = .free
  | .tfsUnlink target => target.map skipSlash = some q
  | .tfsClose _ | .tfsRead _ _ => False

instance (s : TfsState) (q : CString) : ∀ c, Decidable (s.Touches q c)
  | .tfsOpen _ _ => inferInstanceAs (Decidable (_ ∧ _))
  | .tfsWrite fhandle _ => inferInstanceAs (Decidable (∃ file ∈ s.entryOf fhandle, _))
  | .tfsUnlink _ => inferInstanceAs (Decidable (_ = _))
  | .tfsClose _ | .tfsRead _ _ => inferInstanceAs (Decidable False)

/-- What is written through a handle of another file. -/
theorem Inv.readFile_of_writeSpec {buffer : List UInt8} {out : Int × TfsState} (hs : s.Inv)
    (hspec : WriteSpec s fhandle buffer out) (hno : ¬ s.Touches q (.tfsWrite fhandle buffer))
    (hq : s.readFile q = some bs) : out.2.readFile q = some bs := by
  have hs' := hspec.inv hs
  cases hspec with
  | closed => exact hq
  | nothing => exact hq
  | noBlock => exact hq
  | wrote f k b n hf hopen hk hb hn hpos =>
    obtain ⟨k', hk', hk0, hkn, hsane⟩ := hs.handle f hopen
    obtain rfl : k = k' := Int.natCast_inj.mp (hk.symm.trans hk')
    have hentry : s.entryOf fhandle = some (s.openFileTable f) := by
      rw [entryOf, getOpenFileEntry_eq_some.mpr ⟨hf, hopen⟩, Option.map_some]
    obtain ⟨j, hj, -⟩ := hs.readFile_eq_some.mp hq
    have hkj : j ≠ k := by
      rintro rfl
      refine hno ⟨_, hentry, Or.inl ?_⟩
      rcases hs.findInDir_spec q with ⟨j', hj', hfind⟩ | ⟨hnone, -⟩
      · rw [hfind, hk, hs.hasFile_inode hj' hj]
      · exact absurd hj (hnone j)
    have hkfile : s.IsFile k := by
      refine ⟨hk0, hkn, ?_⟩
      cases hfree : s.freeinodeTs k with
      | taken => rfl
      | free => exact absurd ⟨_, hentry, Or.inr (by rw [hk, Int.toNat_natCast, hfree])⟩ hno
    have hb0 := (hb.bounds hsane hs.root).1
    refine (readFile_congr hs hs' (fun l => ?_) fun l hl => ?_).trans hq
    · exact hs.hasFile_writeBlock k _ _ hb0
    · rw [contents_setOffset]
      obtain rfl := hs.hasFile_inode hl hj
      refine hs.contents_writeBlock_other hkfile (hs.isFile_of_hasFile hj) hkj hb ?_
      rw [List.length_take]
      omega

/-- **The step lemma**: a call that does not touch a file leaves it. -/
theorem Inv.readFile_of_tfsCall (hs : s.Inv) (h : Tfs.tfsCall c s = .ok (ret, s'))
    (hno : ¬ s.Touches q c) (hq : s.readFile q = some bs) : s'.readFile q = some bs := by
  cases c with
  | tfsOpen name mode =>
    obtain ⟨⟨r, s₁⟩, hopen, heq⟩ := Outcome.bind_eq_ok.mp h
    obtain ⟨-, rfl⟩ := Prod.mk.inj (Outcome.ok.inj heq)
    by_cases hm : mode &&& tfsOTrunc = 0
    · exact hs.readFile_of_tfsOpen_some hm hopen hq
    · cases name with
      | none =>
        obtain ⟨rfl, rfl⟩ := Prod.mk.inj (Outcome.ok.inj hopen)
        exact hq
      | some p =>
        have hne : q ≠ skipSlash p := fun heq => hno ⟨congrArg some heq.symm, hm⟩
        exact ((hs.readFile_of_tfsOpen_trunc hm hopen).2 q hne).trans hq
  | tfsClose fhandle =>
    obtain ⟨⟨r, s₁⟩, hclose, heq⟩ := Outcome.bind_eq_ok.mp h
    obtain ⟨-, rfl⟩ := Prod.mk.inj (Outcome.ok.inj heq)
    rw [readFile_of_tfsClose hclose, hq]
  | tfsRead fhandle len =>
    have hspec := hs.callSpec h
    generalize hout : (ret, s') = out at hspec
    have hstate : s' = out.2 := congrArg Prod.snd hout
    cases hspec with
    | tfsRead hread =>
      rw [hstate]
      cases hread <;> exact hq
  | tfsWrite fhandle buffer =>
    have hspec := hs.callSpec h
    generalize hout : (ret, s') = out at hspec
    have hstate : s' = out.2 := congrArg Prod.snd hout
    cases hspec with
    | tfsWrite hwrite =>
      rw [hstate]
      exact hs.readFile_of_writeSpec hwrite hno hq
  | tfsUnlink target =>
    obtain ⟨⟨r, s₁⟩, hunlink, heq⟩ := Outcome.bind_eq_ok.mp h
    obtain ⟨-, rfl⟩ := Prod.mk.inj (Outcome.ok.inj heq)
    cases target with
    | none =>
      obtain ⟨rfl, rfl⟩ := Prod.mk.inj (Outcome.ok.inj hunlink)
      exact hq
    | some p =>
      have hne : q ≠ skipSlash p := fun heq => hno (congrArg some heq.symm)
      rcases hs.readFile_of_tfsUnlink hunlink with ⟨-, rfl⟩ | ⟨-, -, hother⟩
      · exact hq
      · exact (hother q hne).trans hq

/-- **The run lemma.** -/
theorem Inv.readFile_of_runCalls {cs : List TfsCall} {rs : List Reply} (hs : s.Inv)
    (h : Tfs.runCalls cs s = .ok (rs, s'))
    (hmeets : Outcome.Meets (fun c s => ¬ s.Touches q c) Tfs.tfsCall cs s)
    (hq : s.readFile q = some bs) : s'.readFile q = some bs := by
  have hstep : ∀ (c : TfsCall) (s : TfsState) (r : Reply) (s' : TfsState),
      s.Inv ∧ s.readFile q = some bs → ¬ s.Touches q c → Tfs.tfsCall c s = .ok (r, s') →
      s'.Inv ∧ s'.readFile q = some bs := by
    rintro c s r s' ⟨hs, hq⟩ hno hc
    exact ⟨hs.tfsCall hc, hs.readFile_of_tfsCall hc hno hq⟩
  exact (Outcome.runList_invariant_of_reaches hstep (fun c s hc => hmeets.reaches hc) ⟨hs, hq⟩ h).2

/-! ### Pieces -/

/-- What there is room for in an empty file: a block, if one is free. -/
def roomWhenEmpty (s : TfsState) : Nat :=
  if firstFit (isFree s.freeBlocks) s.fsParams.maxBlockCount = none then 0 else s.fsParams.blockSize

theorem room_of_contents (h : s.contents j = []) : s.room j = s.roomWhenEmpty := by
  have hz : (s.inodeTable j).iSize = 0 := by rw [← length_contents, h, List.length_nil]
  rw [room, roomWhenEmpty, hz, Nat.sub_zero]
  simp only [true_and]

/-- **The pieces that are written** follow each other in the file, as far as there is room. -/
theorem Inv.tfsWrites {buffers : List (List UInt8)} (hs : s.Inv) (h : s.AtEndOf fhandle q f j)
    (hlen : ∀ buffer ∈ buffers, buffer.length < 2 ^ 63) :
    ∃ rs s', Tfs.runCalls (buffers.map (.tfsWrite fhandle)) s = .ok (rs, s') ∧ s'.Inv ∧
      s'.AtEndOf fhandle q f j ∧
      s'.contents j = s.contents j ++ buffers.flatten.take (s.room j) := by
  induction buffers generalizing s with
  | nil => exact ⟨[], s, rfl, hs, h, by rw [List.flatten_nil, List.take_nil, List.append_nil]⟩
  | cons buffer buffers ih =>
    obtain ⟨n, s₁, hwrite, hs₁, h₁, hcontents, hroom, -⟩ :=
      hs.tfsWrite_atEnd h (hlen buffer List.mem_cons_self)
    obtain ⟨rs, s', hrun, hs', h', hcontents'⟩ :=
      ih hs₁ h₁ fun b hb => hlen b (List.mem_cons_of_mem buffer hb)
    refine ⟨⟨n, []⟩ :: rs, s', ?_, hs', h', ?_⟩
    · exact Outcome.runList_cons_eq_ok.mpr ⟨_, s₁, rs, tfsCall_tfsWrite hwrite, hrun, rfl⟩
    · rw [hcontents', hcontents, hroom, List.flatten_cons, List.take_append, List.append_assoc]

/-- One piece that is read. -/
theorem Inv.tfsRead_openAt (hs : s.Inv) (h : s.OpenAt fhandle q f j off)
    (hoff : off ≤ (s.inodeTable j).iSize) (len : Nat) :
    ∃ (r : Reply) (s' : TfsState), Tfs.tfsCall (.tfsRead fhandle len) s = .ok (r, s') ∧ s'.Inv ∧
      r.ret = r.bytes.length ∧ r.bytes = ((s.contents j).drop off).take len ∧
      s'.OpenAt fhandle q f j (off + r.bytes.length) ∧
      off + r.bytes.length ≤ (s'.inodeTable j).iSize ∧ s'.contents j = s.contents j := by
  obtain ⟨rfl, hopen, hj, hentry⟩ := h
  have hat : (s.openFileTable f).ofOffset = off := by rw [hentry]
  have hinum : (s.openFileTable f).ofInumber = j := by rw [hentry]
  -- The inode is as large as the offset, so that the read does return.
  have hreturn : ∃ ret, Tfs.tfsCall (.tfsRead f len) s = .ok ret := by
    refine hs.tfsCall_returns ?_
    rintro (⟨fhandle, len', f', j', hc, hf, -, hj', hlt, -⟩ | ⟨fhandle, buffer, hc, -⟩)
    · obtain ⟨rfl, rfl⟩ := TfsCall.tfsRead.inj hc
      obtain rfl : f = f' := Int.natCast_inj.mp hf
      obtain rfl : j = j' := Int.natCast_inj.mp (hinum.symm.trans hj')
      omega
    · cases hc
  obtain ⟨⟨r, s'⟩, hret⟩ := hreturn
  refine ⟨r, s', hret, hs.tfsCall hret, ?_⟩
  have hspec := hs.callSpec hret
  generalize hout : (r, s') = out at hspec
  have hreply : r = out.1 := congrArg Prod.fst hout
  have hstate : s' = out.2 := congrArg Prod.snd hout
  cases hspec with
  | tfsRead hread =>
    rw [hreply, hstate]
    cases hread with
    | closed hclosed => exact absurd hopen (hclosed f rfl)
    | nothing f' j' hf' _ hj' hn =>
      obtain rfl : f = f' := Int.natCast_inj.mp hf'
      obtain rfl : j = j' := Int.natCast_inj.mp (hinum.symm.trans hj')
      have hnil : ((s.contents j).drop off).take len = [] := by
        rcases hn with rfl | hend
        · exact List.take_zero
        · rw [List.drop_eq_nil_of_le (by rw [length_contents]; omega), List.take_nil]
      exact ⟨rfl, hnil.symm, ⟨rfl, hopen, hj, hentry⟩, hoff, rfl⟩
    | read f' j' n hf' _ hj' hlt hn =>
      obtain rfl : f = f' := Int.natCast_inj.mp hf'
      obtain rfl : j = j' := Int.natCast_inj.mp (hinum.symm.trans hj')
      rw [hat] at hlt hn ⊢
      dsimp only
      rw [length_load]
      refine ⟨rfl, ?_, ⟨rfl, hopen, hj, ?_⟩, ?_, contents_setOffset⟩
      · rw [contents, drop_take_load _ _ hoff, ← hn]
      · show Function.update s.openFileTable f { s.openFileTable f with ofOffset := _ } f = _
        rw [Function.update_self, hentry]
      · show off + n ≤ (s.inodeTable j).iSize
        omega
    | stray f' j' n bytes hst =>
      obtain rfl : f = f' := Int.natCast_inj.mp hst.1
      obtain rfl : j = j' := Int.natCast_inj.mp (hinum.symm.trans hst.2.2.1)
      have := hst.2.2.2.1
      omega

/-- **The pieces that are read** are what the file has from the offset on. -/
theorem Inv.tfsReads (hs : s.Inv) (h : s.OpenAt fhandle q f j off)
    (hoff : off ≤ (s.inodeTable j).iSize) (lens : List Nat) :
    ∃ rs s', Tfs.runCalls (lens.map (.tfsRead fhandle)) s = .ok (rs, s') ∧
      (∀ ret ∈ rs, ret.ret = ret.bytes.length) ∧
      (rs.map Reply.bytes).flatten = ((s.contents j).drop off).take lens.sum := by
  induction lens generalizing s off with
  | nil => exact ⟨[], s, rfl, nofun, rfl⟩
  | cons len lens ih =>
    obtain ⟨r, s₁, hread, hs₁, hret, hbytes, h₁, hoff₁, hcontents⟩ := hs.tfsRead_openAt h hoff len
    obtain ⟨rs, s', hrun, hrets, hrest⟩ := ih hs₁ h₁ hoff₁
    refine ⟨r :: rs, s', ?_, ?_, ?_⟩
    · exact Outcome.runList_cons_eq_ok.mpr ⟨r, s₁, rs, hread, hrun, rfl⟩
    · exact List.forall_mem_cons.mpr ⟨hret, hrets⟩
    · -- What is left of the file is what is left of it after this piece.
      have hdrop : ((s.contents j).drop off).drop len =
          (s.contents j).drop (off + r.bytes.length) := by
        rw [List.drop_drop, hbytes, List.length_take, List.length_drop]
        rcases Nat.le_total len ((s.contents j).length - off) with hle | hle
        · rw [Nat.min_eq_left hle]
        · rw [List.drop_eq_nil_of_le (by omega), List.drop_eq_nil_of_le (by omega)]
      rw [List.map_cons, List.flatten_cons, hrest, hcontents, hbytes, List.sum_cons, List.take_add,
        hdrop, ← hbytes]

end TfsState

/-! ### The round trip -/

/-- **What is written to a file is what is read from it**, whatever the pieces, and whatever else
is done in between that does not touch it. -/
theorem written_read {params : Option TfsParams} {s s₁ s₂ : TfsState} {before : List TfsCall}
    {rs : List Reply} {path : CString} {mode : Nat} {h : Int} {buffers : List (List UInt8)}
    (hinit : Started params s) (hp : (params.getD tfsDefaultParams).InRange)
    (hbefore : runCalls before s = .ok (rs, s₁))
    (hopen : tfsOpen (some path) mode s₁ = .ok (h, s₂)) (htrunc : mode &&& tfsOTrunc ≠ 0)
    (hh : h ≠ -1) (hlen : ∀ buffer ∈ buffers, buffer.length < 2 ^ 63) :
    ∃ rs s₃, runCalls (buffers.map (.tfsWrite h)) s₂ = .ok (rs, s₃) ∧
      ∀ cs rs s₄, Outcome.Meets (fun c s => ¬ s.Touches (skipSlash path) c) tfsCall cs s₃ →
        runCalls cs s₃ = .ok (rs, s₄) →
      ∀ mode h s₅, mode &&& tfsOTrunc = 0 → mode &&& tfsOAppend = 0 →
        tfsOpen (some path) mode s₄ = .ok (h, s₅) → h ≠ -1 →
      ∀ lens : List Nat, ∃ rs s₆, runCalls (lens.map (.tfsRead h)) s₅ = .ok (rs, s₆) ∧
        (∀ ret ∈ rs, ret.ret = ret.bytes.length) ∧
        (rs.map Reply.bytes).flatten = (buffers.flatten.take s₂.roomWhenEmpty).take lens.sum := by
  have hs₁ : s₁.Inv := (hinit.fresh hp).inv.runCalls hbefore
  have hs₂ := hs₁.of_tfsOpen hopen
  -- The file is empty, and the handle at its beginning, which is its end.
  obtain ⟨f, j, hat⟩ := hs₁.openAt_of_tfsOpen (Or.inl htrunc) hopen hh
  have hempty : s₂.contents j = [] := by
    have hread := (hs₁.readFile_of_tfsOpen_trunc htrunc hopen).1 hh
    exact Option.some.inj ((hs₂.readFile_of_hasFile hat.file).symm.trans hread)
  have hsize : (s₂.inodeTable j).iSize = 0 := by rw [← length_contents, hempty, List.length_nil]
  rw [← hsize] at hat
  obtain ⟨rs, s₃, hrun, hs₃, hend, hcontents⟩ := hs₂.tfsWrites hat.atEndOf hlen
  rw [hempty, List.nil_append, room_of_contents hempty] at hcontents
  refine ⟨rs, s₃, hrun, ?_⟩
  intro cs rs s₄ hmeets hcs mode h s₅ hm hm' hopen' hh' lens
  -- The calls that do not touch the file leave it.
  have hwritten : s₃.readFile (skipSlash path) =
      some (buffers.flatten.take s₂.roomWhenEmpty) := by
    rw [hs₃.readFile_of_hasFile hend.file, hcontents]
  have hs₄ := hs₃.runCalls hcs
  have hq := hs₃.readFile_of_runCalls hcs hmeets hwritten
  have hs₅ := hs₄.of_tfsOpen hopen'
  obtain ⟨f', j', hat'⟩ := hs₄.openAt_of_tfsOpen (Or.inr hm') hopen' hh'
  have hcontents' : s₅.contents j' = buffers.flatten.take s₂.roomWhenEmpty := by
    have hread := hs₄.readFile_of_tfsOpen_some hm hopen' hq
    exact Option.some.inj ((hs₅.readFile_of_hasFile hat'.file).symm.trans hread)
  obtain ⟨rs, s₆, hreads, hrets, hbytes⟩ := hs₅.tfsReads hat' (Nat.zero_le _) lens
  rw [List.drop_zero, hcontents'] at hbytes
  exact ⟨rs, s₆, hreads, hrets, hbytes⟩

/-- While `/a` is written and read, `/b` is written over, removed and put in place again. -/
def aroundFile : List TfsCall :=
  [.tfsClose 1, .tfsWrite 0 [99], .tfsClose 0, .tfsUnlink (some (.ofBuffer [47, 98])),
    .tfsOpen (some (.ofBuffer [47, 98])) tfsOCreat, .tfsWrite 0 [100, 101]]

theorem written_read_aroundFile :
    ∃ rs s₅ s₆, runCalls ([2, 9].map (.tfsRead 1)) s₅ = .ok (rs, s₆) ∧
      (rs.map Reply.bytes).flatten = [120, 121, 122] := by
  have hrun : (do
      let before ← runCalls [.tfsOpen (some (.ofBuffer [47, 98])) tfsOCreat, .tfsWrite 0 [98]]
        initial
      let opened ← tfsOpen (some (.ofBuffer [47, 97])) (tfsOCreat ||| tfsOTrunc) before.2
      let written ← runCalls ([[120, 121], [122]].map (.tfsWrite 1)) opened.2
      let around ← runCalls aroundFile written.2
      let again ← tfsOpen (some (.ofBuffer [47, 97])) 0 around.2
      pure (opened.1, again.1, opened.2.roomWhenEmpty, decide (Outcome.Meets
        (fun c s => ¬ s.Touches (skipSlash (.ofBuffer [47, 97])) c) tfsCall aroundFile
          written.2))) =
      Outcome.ok ((1 : Int), (1 : Int), 1024, true) := by
    decide +kernel
  obtain ⟨⟨rs₁, s₁⟩, hbefore, hrun⟩ := Outcome.bind_eq_ok.mp hrun
  obtain ⟨⟨h, s₂⟩, hopen, hrun⟩ := Outcome.bind_eq_ok.mp hrun
  obtain ⟨⟨rs₃, s₃⟩, hwrites, hrun⟩ := Outcome.bind_eq_ok.mp hrun
  obtain ⟨⟨rs₄, s₄⟩, hcs, hrun⟩ := Outcome.bind_eq_ok.mp hrun
  obtain ⟨⟨h', s₅⟩, hopen', hrun⟩ := Outcome.bind_eq_ok.mp hrun
  simp only [Outcome.pure_eq_ok, Outcome.ok.injEq, Prod.mk.injEq, decide_eq_true_eq] at hrun
  obtain ⟨rfl, rfl, hroom, hmeets⟩ := hrun
  have hlen : ∀ buffer ∈ ([[120, 121], [122]] : List (List UInt8)), buffer.length < 2 ^ 63 := by
    simp
  obtain ⟨rs, s, hrun, hread⟩ := written_read started_initial inRange_tfsDefaultParams hbefore
    hopen (by decide) (by decide) hlen
  obtain ⟨-, rfl⟩ := Prod.mk.inj (Outcome.ok.inj (hwrites.symm.trans hrun))
  obtain ⟨rs₆, s₆, hreads, -, hbytes⟩ := hread aroundFile rs₄ s₄ hmeets hcs 0 1 s₅ (by decide)
    (by decide) hopen' (by decide) [2, 9]
  rw [hroom] at hbytes
  exact ⟨rs₆, s₅, s₆, hreads, hbytes⟩

end Tfs
