/-
What each TécnicoFS operation does, in a state that satisfies the metadata
invariant.

One theorem per operation lists everything it can come to, with the branch of
the source that leads there: `tfsOpen_spec`, `tfsClose_spec`, `tfsWrite_spec`,
`tfsRead_spec`, `tfsUnlink_spec`.  Nothing after this file unfolds an operation.
`tfsCall_inv` is the step lemma of the invariant and `tfsInit_inv` its start.
-/
import Mbroker.TfsInvariant

namespace Tfs

open Memory SlotTable

namespace TfsState

variable {s : TfsState} {i j k f b off mode len n : Nat} {p q : CString} {fhandle : Int}

/-! ### Lookups -/

theorem Inv.dataSize_lt (hs : s.Inv) : s.dataSize < 2 ^ 62 := by
  have h := Nat.mul_lt_mul'' hs.range.blocks hs.range.blockSize
  exact h

theorem Inv.blockSize_le (hs : s.Inv) : s.fsParams.blockSize ≤ s.dataSize :=
  Nat.le_mul_of_pos_left _ hs.root.block

theorem Inv.inodeGet_root (hs : s.Inv) : inodeGet rootDirInum s = .ok 0 := by
  have hv : validInumber rootDirInum s = true := by
    simpa [validInumber, rootDirInum] using hs.root.inode
  rw [inodeGet, hv]
  rfl

theorem inodeGet_eq (hj : j < s.fsParams.maxInodeCount) : inodeGet (j : Int) s = .ok j := by
  have hv : validInumber (j : Int) s = true := by simpa [validInumber] using hj
  rw [inodeGet, hv]
  rfl

theorem dataBlockGet_eq (hb : b < s.fsParams.maxBlockCount) :
    dataBlockGet (b : Int) s = .ok (b * s.fsParams.blockSize) := by
  have hv : validBlockNumber (b : Int) s = true := by simpa [validBlockNumber] using hb
  rw [dataBlockGet, hv]
  rfl

theorem dataBlockFree_eq (hb : b < s.fsParams.maxBlockCount) :
    dataBlockFree (b : Int) s =
      .ok { s with freeBlocks := Function.update s.freeBlocks b .free } := by
  have hv : validBlockNumber (b : Int) s = true := by simpa [validBlockNumber] using hb
  rw [dataBlockFree, hv]
  rfl

theorem RootOk.dataBlockGet (hs : s.RootOk) :
    Tfs.dataBlockGet (s.inodeTable 0).iDataBlock s = .ok 0 := by
  rw [hs.atZero]
  simpa using dataBlockGet_eq hs.block

/-- `find_in_dir` on the root directory. -/
theorem Inv.findInDir_spec (hs : s.Inv) (q : CString) :
    (∃ j, s.HasFile q j ∧ findInDir 0 q s = .ok j) ∨
      (∀ j, ¬ s.HasFile q j) ∧ findInDir 0 q s = .ok (-1) := by
  have hscan : (fun i => dInumber s.fsData 0 i != -1 &&
      strncmp s.fsData (entryAddr 0 i) q maxFileName == 0) = findScan s.fsData 0 q := rfl
  rw [findInDir, if_neg (by simp [hs.root.isDir]), hs.root.dataBlockGet, Outcome.ok_bind, hscan]
  cases hfit : firstFit (findScan s.fsData 0 q) s.maxDirEntries with
  | some i =>
    obtain ⟨hi, hl, hq⟩ := hs.dir.find_eq_some.mp hfit
    obtain ⟨j, hj, -⟩ := hs.entry i hi hl
    exact Or.inl ⟨j, ⟨i, hi, hj, hq⟩, congrArg _ hj⟩
  | none =>
    refine Or.inr ⟨?_, rfl⟩
    rintro j ⟨i, hi, hij, hq⟩
    exact hs.dir.find_eq_none.mp hfit i hi (live_of_inumber hij) hq

theorem tfsLookup_eq (hv : validPathname p = true) (r : Nat) :
    tfsLookup p r s = findInDir r (skipSlash p) s := by
  rw [tfsLookup, hv]
  rfl

/-- `get_open_file_entry` knows the open handles. -/
theorem getOpenFileEntry_eq_some :
    getOpenFileEntry fhandle s = some f ↔ fhandle = f ∧ s.IsOpen f := by
  rw [getOpenFileEntry]
  split
  case isTrue h =>
    simp only [reduceCtorEq, false_iff, not_and]
    rintro rfl ⟨hlt, -⟩
    simp [validFileHandle, hlt] at h
  case isFalse h =>
    have hvalid : 0 ≤ fhandle ∧ fhandle < s.fsParams.maxOpenFilesCount := by
      simpa [validFileHandle] using h
    split
    case isTrue hfree =>
      simp only [reduceCtorEq, false_iff, not_and]
      rintro rfl ⟨-, htaken⟩
      exact hfree htaken
    case isFalse htaken =>
      rw [not_not] at htaken
      constructor
      · intro hf
        obtain rfl : fhandle.toNat = f := by simpa using hf
        exact ⟨by omega, by omega, htaken⟩
      · rintro ⟨rfl, -⟩
        rfl

/-! ### Opening -/

/-- The handle that `add_to_open_file_table` gives. -/
def nextHandle (s : TfsState) : Option Nat :=
  firstFit (isFree s.freeOpenFileEntries) s.fsParams.maxOpenFilesCount

theorem addToOpenFileTable_some (h : s.nextHandle = some f) :
    addToOpenFileTable j off s = ((f : Int), s.openHandle f j off) := by
  rw [nextHandle] at h
  rw [addToOpenFileTable, h]
  rfl

theorem addToOpenFileTable_none (h : s.nextHandle = none) :
    addToOpenFileTable j off s = (-1, s) := by
  rw [nextHandle] at h
  rw [addToOpenFileTable, h]

/-- The state once an existing file has been truncated, if the mode asks for it. -/
def truncated (s : TfsState) (mode j : Nat) : TfsState :=
  if mode &&& tfsOTrunc ≠ 0 then s.truncate j else s

/-- The offset at which a file is opened. -/
def openOffset (s : TfsState) (mode j : Nat) : Nat :=
  if mode &&& tfsOAppend ≠ 0 then (s.inodeTable j).iSize else 0

theorem Inv.truncated (hs : s.Inv) (mode : Nat) (hj : s.IsFile j) : (s.truncated mode j).Inv := by
  rw [TfsState.truncated]
  split
  · exact hs.truncate hj
  · exact hs

/-- What `tfs_open` can come to. -/
inductive OpenSpec (s : TfsState) (name : Option CString) (mode : Nat) : Int × TfsState → Prop where
  | invalid (h : ∀ p, name = some p → validPathname p = false) : OpenSpec s name mode (-1, s)
  | missing (p : CString) (hp : name = some p) (hv : validPathname p = true)
      (hno : ∀ j, ¬ s.HasFile (skipSlash p) j) (hm : mode &&& tfsOCreat = 0) :
      OpenSpec s name mode (-1, s)
  | existing (p : CString) (j : Nat) (hp : name = some p) (hv : validPathname p = true)
      (hj : s.HasFile (skipSlash p) j) :
      OpenSpec s name mode
        (addToOpenFileTable j ((s.truncated mode j).openOffset mode j) (s.truncated mode j))
  | noInode (p : CString) (hp : name = some p) (hv : validPathname p = true)
      (hno : ∀ j, ¬ s.HasFile (skipSlash p) j) (hm : mode &&& tfsOCreat ≠ 0)
      (hfull : firstFit (isFree s.freeinodeTs) s.fsParams.maxInodeCount = none) :
      OpenSpec s name mode (-1, s)
  | noEntry (p : CString) (k : Nat) (hp : name = some p) (hv : validPathname p = true)
      (hno : ∀ j, ¬ s.HasFile (skipSlash p) j) (hm : mode &&& tfsOCreat ≠ 0)
      (hk : firstFit (isFree s.freeinodeTs) s.fsParams.maxInodeCount = some k)
      (hbad : maxFileName ≤ (skipSlash p).strlen ∨
        firstFit (fun i => dInumber s.fsData 0 i == -1) s.maxDirEntries = none) :
      OpenSpec s name mode (-1, s.resetInode k)
  | created (p : CString) (k i : Nat) (hp : name = some p) (hv : validPathname p = true)
      (hno : ∀ j, ¬ s.HasFile (skipSlash p) j) (hm : mode &&& tfsOCreat ≠ 0)
      (hk : firstFit (isFree s.freeinodeTs) s.fsParams.maxInodeCount = some k)
      (hi : firstFit (fun i => dInumber s.fsData 0 i == -1) s.maxDirEntries = some i)
      (hlen : (skipSlash p).strlen < maxFileName) :
      OpenSpec s name mode (addToOpenFileTable k 0 (s.createFile k i (skipSlash p)))

theorem validPathname_strlen (hv : validPathname p = true) : 1 ≤ (skipSlash p).strlen := by
  have h : 1 < p.strlen := by
    simp only [validPathname, Bool.and_eq_true, decide_eq_true_eq] at hv
    exact hv.1
  simp only [skipSlash, CString.strlen, List.length_tail] at *
  omega

/-- The state between `inode_create` and `add_dir_entry`. -/
def takeInode (s : TfsState) (k : Nat) : TfsState :=
  { s.resetInode k with freeinodeTs := Function.update s.freeinodeTs k .taken }

theorem inodeAlloc_eq (hp : 1 ≤ s.fsParams.blockSize) :
    inodeAlloc s = .ok (match firstFit (isFree s.freeinodeTs) s.fsParams.maxInodeCount with
      | some k => ((k : Int), { s with freeinodeTs := Function.update s.freeinodeTs k .taken })
      | none => (-1, s)) := by
  have hbs : ¬ (0 < s.fsParams.maxInodeCount ∧ s.fsParams.blockSize = 0) := by omega
  rw [inodeAlloc, if_neg hbs]
  cases firstFit (isFree s.freeinodeTs) s.fsParams.maxInodeCount <;> rfl

/-- The new inode of `tfs_open`. -/
theorem Inv.inodeCreate_file (hs : s.Inv) :
    inodeCreate .tFile s = .ok (match firstFit (isFree s.freeinodeTs) s.fsParams.maxInodeCount with
      | some k => ((k : Int), s.takeInode k)
      | none => (-1, s)) := by
  rw [inodeCreate, inodeAlloc_eq hs.range.blockSizePos]
  cases firstFit (isFree s.freeinodeTs) s.fsParams.maxInodeCount with
  | none => rfl
  | some k =>
    have hne : (k : Int) ≠ -1 := by omega
    simp [hne, takeInode, TfsState.resetInode, setInode]

theorem RootOk.addDirEntry_fail (hs : s.RootOk) {v : Int}
    (hbad : maxFileName ≤ q.strlen ∨
      firstFit (fun i => dInumber s.fsData 0 i == -1) s.maxDirEntries = none) :
    addDirEntry 0 q v s = .ok (-1, s) := by
  rw [addDirEntry]
  by_cases hlen : q.strlen = 0 ∨ q.strlen > maxFileName - 1
  · rw [if_pos hlen]
  · have hnone := hbad.resolve_left (by simp only [maxFileName] at *; omega)
    rw [if_neg hlen, if_neg (by simp [hs.isDir]), hs.dataBlockGet, Outcome.ok_bind, hnone]
    rfl

theorem RootOk.addDirEntry_eq (hs : s.RootOk) {v : Int} (hq1 : 1 ≤ q.strlen)
    (hq : q.strlen < maxFileName)
    (hi : firstFit (fun i => dInumber s.fsData 0 i == -1) s.maxDirEntries = some i) :
    addDirEntry 0 q v s = .ok (0, { s with fsData := addEntry s.fsData 0 i q v }) := by
  rw [addDirEntry, if_neg (by simp only [maxFileName] at *; omega), if_neg (by simp [hs.isDir]),
    hs.dataBlockGet, Outcome.ok_bind, hi]
  rfl

theorem truncate_of_empty (h : (s.inodeTable j).iSize = 0) : s.truncate j = s := by
  have hinode : { s.inodeTable j with iSize := 0 } = s.inodeTable j := by
    rw [← h]
  rw [TfsState.truncate, releaseBlock, if_neg (by omega), hinode, Function.update_eq_self]

theorem Inv.openTruncate_eq (hs : s.Inv) (hj : s.IsFile j) :
    openTruncate j mode s = .ok (s.truncated mode j) := by
  rw [openTruncate]
  by_cases hm : mode &&& tfsOTrunc ≠ 0
  · rw [TfsState.truncated, if_pos hm]
    by_cases hpos : 0 < (s.inodeTable j).iSize
    · obtain ⟨hblock, -, hlt⟩ := (hs.sane j hj).block hpos
      rw [if_pos ⟨hm, hpos⟩, hblock, dataBlockFree_eq hlt]
      simp [TfsState.truncate, releaseBlock, hpos, setInode]
    · rw [if_neg (fun h => hpos h.2), truncate_of_empty (by omega)]
  · rw [if_neg (fun h => hm h.1), TfsState.truncated, if_neg hm]

/-- Taking a free inode and giving it back leaves the table as it was. -/
theorem update_free_taken {t : Nat → AllocationState} (h : t k = .free) :
    Function.update (Function.update t k .taken) k .free = t := by
  rw [Function.update_idem, ← h, Function.update_eq_self]

theorem free_of_firstFit {t : Nat → AllocationState} {n : Nat}
    (h : firstFit (isFree t) n = some k) : k < n ∧ t k = .free := by
  obtain ⟨hlt, hfree, -⟩ := firstFit_eq_some.mp h
  exact ⟨hlt, by simpa [isFree] using hfree⟩

theorem Inv.pos_of_free (hs : s.Inv) (h : s.freeinodeTs k = .free) : 0 < k := by
  rcases Nat.eq_zero_or_pos k with rfl | hpos
  · rw [hs.root.taken] at h
    cases h
  · exact hpos

theorem Inv.rootOk_takeInode (hs : s.Inv) (hk0 : 0 < k) (hk : s.freeinodeTs k = .free) :
    (s.takeInode k).RootOk := by
  have hr := (hs.resetInode hk0 hk).root
  exact ⟨hr.inode, hr.block, by simpa [takeInode, hk0.ne] using hs.root.taken, hr.isDir, hr.size,
    hr.atZero, hr.blockTaken⟩

/-- The inode of a file that could not be entered in the directory is deleted. -/
theorem inodeDelete_takeInode (hkn : k < s.fsParams.maxInodeCount) (hk : s.freeinodeTs k = .free) :
    inodeDelete (k : Int) (s.takeInode k) = .ok (s.resetInode k) := by
  have hv : validInumber (k : Int) (s.takeInode k) = true := by
    simpa [validInumber, takeInode, TfsState.resetInode, setInode] using hkn
  have htaken : ((s.takeInode k).freeinodeTs (k : Int).toNat == .taken) = true := by
    simp [takeInode]
  have hsize : ¬ ((s.takeInode k).inodeTable (k : Int).toNat).iSize > 0 := by
    simp [takeInode, resetInode_inode]
  rw [inodeDelete, hv, htaken]
  simp only [Outcome.alwaysAssert_true, Outcome.ok_bind, if_neg hsize]
  simp [takeInode, TfsState.resetInode, setInode, update_free_taken hk]

/-- **`tfs_open`.** -/
theorem Inv.tfsOpen_spec (hs : s.Inv) (name : Option CString) (mode : Nat) :
    ∃ r, tfsOpen name mode s = .ok r ∧ OpenSpec s name mode r := by
  cases name with
  | none => exact ⟨_, rfl, .invalid (by simp)⟩
  | some p =>
  by_cases hv : validPathname p = true
  case neg =>
    refine ⟨(-1, s), ?_, .invalid (by simpa using hv)⟩
    simp [tfsOpen, hv]
  case pos =>
  rw [tfsOpen, hv, hs.inodeGet_root]
  simp only [Bool.not_true, Bool.false_eq_true, if_false, Outcome.ok_bind, tfsLookup_eq hv]
  rcases hs.findInDir_spec (skipSlash p) with ⟨j, hj, hfind⟩ | ⟨hno, hfind⟩
  · -- The file already exists.
    have hfile := hs.isFile_of_hasFile hj
    refine ⟨_, ?_, .existing p j rfl hv hj⟩
    rw [hfind, Outcome.ok_bind, if_pos (by omega), inodeGet_eq hfile.2.1, Outcome.ok_bind,
      hs.openTruncate_eq hfile]
    rfl
  · rw [hfind, Outcome.ok_bind, if_neg (by omega)]
    by_cases hm : mode &&& tfsOCreat = 0
    · exact ⟨_, by rw [if_neg (by simpa using hm)]; rfl, .missing p rfl hv hno hm⟩
    rw [if_pos hm, hs.inodeCreate_file]
    cases hk : firstFit (isFree s.freeinodeTs) s.fsParams.maxInodeCount with
    | none => exact ⟨_, rfl, .noInode p rfl hv hno hm hk⟩
    | some k =>
    obtain ⟨hkn, hkfree⟩ := free_of_firstFit hk
    have hk0 := hs.pos_of_free hkfree
    have hroot := hs.rootOk_takeInode hk0 hkfree
    have hne : (k : Int) ≠ -1 := by omega
    simp only [Outcome.ok_bind, if_neg hne]
    by_cases hbad : maxFileName ≤ (skipSlash p).strlen ∨
        firstFit (fun i => dInumber s.fsData 0 i == -1) s.maxDirEntries = none
    · refine ⟨_, ?_, .noEntry p k rfl hv hno hm hk hbad⟩
      rw [hroot.addDirEntry_fail hbad, Outcome.ok_bind, if_pos rfl,
        inodeDelete_takeInode hkn hkfree]
      rfl
    · rw [not_or, not_le] at hbad
      obtain ⟨i, hi⟩ := Option.ne_none_iff_exists'.mp hbad.2
      refine ⟨_, ?_, .created p k i rfl hv hno hm hk hi hbad.1⟩
      rw [hroot.addDirEntry_eq (validPathname_strlen hv) hbad.1 hi, Outcome.ok_bind,
        if_neg (by omega)]
      rfl

/-! ### Closing and removing -/

/-- What `tfs_close` can come to. -/
inductive CloseSpec (s : TfsState) (fhandle : Int) : Int × TfsState → Prop where
  | closed (h : ∀ f : Nat, fhandle = f → ¬ s.IsOpen f) : CloseSpec s fhandle (-1, s)
  | done (f : Nat) (hf : fhandle = f) (hopen : s.IsOpen f) :
    CloseSpec s fhandle (0, s.closeHandle f)

/-- **`tfs_close`.** -/
theorem tfsClose_spec (s : TfsState) (fhandle : Int) :
    ∃ r, tfsClose fhandle s = .ok r ∧ CloseSpec s fhandle r := by
  rw [tfsClose]
  cases h : getOpenFileEntry fhandle s with
  | none =>
    refine ⟨_, rfl, .closed fun f hf hopen => ?_⟩
    rw [getOpenFileEntry_eq_some.mpr ⟨hf, hopen⟩] at h
    cases h
  | some f =>
    obtain ⟨hf, hopen⟩ := getOpenFileEntry_eq_some.mp h
    refine ⟨_, ?_, .done f hf hopen⟩
    have hv : validFileHandle fhandle s = true := by
      subst hf
      simpa [validFileHandle] using hopen.1
    have ht : (s.freeOpenFileEntries fhandle.toNat == .taken) = true := by
      subst hf
      simpa using hopen.2
    rw [removeFromOpenFileTable, hv, ht, hf]
    rfl

/-- What `tfs_unlink` can come to. -/
inductive UnlinkSpec (s : TfsState) (target : Option CString) : Int × TfsState → Prop where
  | invalid (h : ∀ p, target = some p → validPathname p = false) : UnlinkSpec s target (-1, s)
  | missing (p : CString) (hp : target = some p) (hv : validPathname p = true)
      (hno : ∀ j, ¬ s.HasFile (skipSlash p) j) : UnlinkSpec s target (-1, s)
  | removed (p : CString) (j i : Nat) (hp : target = some p) (hv : validPathname p = true)
      (hi : i < s.maxDirEntries) (hij : dInumber s.fsData 0 i = j)
      (hq : NameIs s.fsData 0 i (skipSlash p)) : UnlinkSpec s target (0, s.removeFile j i)

theorem Inv.inodeDelete_eq (hs : s.Inv) (hj : s.IsFile j) :
    inodeDelete (j : Int) s = .ok { s with
      freeBlocks := s.releaseBlock j
      freeinodeTs := Function.update s.freeinodeTs j .free } := by
  have hv : validInumber (j : Int) s = true := by simpa [validInumber] using hj.2.1
  have ht : (s.freeinodeTs (j : Int).toNat == .taken) = true := by simpa using hj.2.2
  rw [inodeDelete, hv, ht]
  simp only [Outcome.alwaysAssert_true, Outcome.ok_bind, Int.toNat_natCast, releaseBlock]
  by_cases hpos : 0 < (s.inodeTable j).iSize
  · obtain ⟨hblock, -, hlt⟩ := (hs.sane j hj).block hpos
    rw [if_pos hpos, if_pos hpos, hblock, dataBlockFree_eq hlt]
    rfl
  · rw [if_neg hpos, if_neg hpos]
    rfl

/-- Once the inode is deleted, the second scan stops at the entry that the first one found. -/
theorem Inv.clearDirEntry_eq (hs : s.Inv) (hi : i < s.maxDirEntries)
    (hij : dInumber s.fsData 0 i = j) (hq : NameIs s.fsData 0 i q) :
    clearDirEntry 0 q { s with
      freeBlocks := s.releaseBlock j
      freeinodeTs := Function.update s.freeinodeTs j .free } = .ok (0, s.removeFile j i) := by
  have hclear := hs.dir.clear_eq_some hi (live_of_inumber hij) hq
  have hget : dataBlockGet (s.inodeTable 0).iDataBlock { s with
      freeBlocks := s.releaseBlock j
      freeinodeTs := Function.update s.freeinodeTs j .free } = .ok 0 := hs.root.dataBlockGet
  rw [clearDirEntry, if_neg (by simp [hs.root.isDir]), hget, Outcome.ok_bind]
  show (match firstFit (fun i => strcmp s.fsData (entryAddr 0 i) q == 0) s.maxDirEntries with
    | some i => _
    | none => _) = _
  rw [hclear]
  rfl

/-- **`tfs_unlink`.** -/
theorem Inv.tfsUnlink_spec (hs : s.Inv) (target : Option CString) :
    ∃ r, tfsUnlink target s = .ok r ∧ UnlinkSpec s target r := by
  cases target with
  | none => exact ⟨_, rfl, .invalid (by simp)⟩
  | some p =>
  by_cases hv : validPathname p = true
  case neg =>
    refine ⟨(-1, s), ?_, .invalid (by simpa using hv)⟩
    simp [tfsUnlink, hv]
  case pos =>
  rw [tfsUnlink, hv, hs.inodeGet_root]
  simp only [Bool.not_true, Bool.false_eq_true, if_false, Outcome.ok_bind, tfsLookup_eq hv]
  rcases hs.findInDir_spec (skipSlash p) with ⟨j, hj, hfind⟩ | ⟨hno, hfind⟩
  · have hfile := hs.isFile_of_hasFile hj
    obtain ⟨i, hi, hij, hq⟩ := hj
    refine ⟨_, ?_, .removed p j i rfl hv hi hij hq⟩
    rw [hfind, Outcome.ok_bind, if_neg (by omega), hs.inodeDelete_eq hfile, Outcome.ok_bind,
      hs.clearDirEntry_eq hi hij hq]
    rfl
  · refine ⟨_, ?_, .missing p rfl hv hno⟩
    rw [hfind, Outcome.ok_bind, if_pos rfl]
    rfl

/-! ### Writing -/

/-- What `tfs_write` can come to when it returns. -/
inductive WriteSpec (s : TfsState) (fhandle : Int) (buffer : List UInt8) :
    Int × TfsState → Prop where
  | closed (h : ∀ f : Nat, fhandle = f → ¬ s.IsOpen f) : WriteSpec s fhandle buffer (-1, s)
  | nothing (f : Nat) (hf : fhandle = f) (hopen : s.IsOpen f)
      (hn : buffer = [] ∨ (s.openFileTable f).ofOffset = s.fsParams.blockSize) :
      WriteSpec s fhandle buffer (0, s)
  | noBlock (f j : Nat) (hf : fhandle = f) (hopen : s.IsOpen f)
      (hj : (s.openFileTable f).ofInumber = j) (hz : (s.inodeTable j).iSize = 0)
      (hfull : firstFit (isFree s.freeBlocks) s.fsParams.maxBlockCount = none)
      (hn : buffer ≠ [] ∧ (s.openFileTable f).ofOffset < s.fsParams.blockSize ∨
        s.fsParams.blockSize < (s.openFileTable f).ofOffset ∨
        2 ^ 64 ≤ buffer.length + (s.openFileTable f).ofOffset) :
      WriteSpec s fhandle buffer (-1, s)
  | wrote (f j b n : Nat) (hf : fhandle = f) (hopen : s.IsOpen f)
      (hj : (s.openFileTable f).ofInumber = j) (hb : s.BlockFor j b)
      (hn : n = min buffer.length (s.fsParams.blockSize - (s.openFileTable f).ofOffset))
      (hpos : 0 < n) :
      WriteSpec s fhandle buffer (n,
        (s.writeBlock j b (s.openFileTable f).ofOffset (buffer.take n)).setOffset f
          ((s.openFileTable f).ofOffset + n))

/-- When `tfs_write` copies past the end of `fs_data`: the handle's offset is
past the end of its block, or the sum that is compared with it wraps. -/
def WildWrite (s : TfsState) (fhandle : Int) (buffer : List UInt8) : Prop :=
  ∃ f : Nat, fhandle = f ∧ s.IsOpen f ∧
    (s.fsParams.blockSize < (s.openFileTable f).ofOffset ∨
      2 ^ 64 ≤ buffer.length + (s.openFileTable f).ofOffset)

/-- The number of bytes that `tfs_write` sets out to write. -/
def toWrite (length off blockSize : Nat) : Nat :=
  if (length + off) % 2 ^ 64 > blockSize then (blockSize + 2 ^ 64 - off) % 2 ^ 64 else length

theorem toWrite_cases (length : Nat) {off blockSize : Nat} (hb : blockSize < 2 ^ 31)
    (hoff : off < 2 ^ 62) :
    toWrite length off blockSize = 0 ∧ (length = 0 ∨ off = blockSize) ∨
      toWrite length off blockSize = min length (blockSize - off) ∧ 0 < length ∧ off < blockSize ∨
      2 ^ 63 ≤ toWrite length off blockSize ∧ (blockSize < off ∨ 2 ^ 64 ≤ length + off) := by
  rw [toWrite]
  split <;> omega

theorem dataBlockAlloc_eq (hp : 1 ≤ s.fsParams.blockSize) :
    dataBlockAlloc s = .ok (match firstFit (isFree s.freeBlocks) s.fsParams.maxBlockCount with
      | some b => ((b : Int), { s with freeBlocks := Function.update s.freeBlocks b .taken })
      | none => (-1, s)) := by
  have hbs : ¬ (0 < s.fsParams.maxBlockCount ∧ s.fsParams.blockSize = 0) := by omega
  rw [dataBlockAlloc, if_neg hbs]
  cases firstFit (isFree s.freeBlocks) s.fsParams.maxBlockCount <;> rfl

/-- The state with block `b` as inode `j`'s, before the copy. -/
def claimBlock (s : TfsState) (j b : Nat) : TfsState :=
  { s with
    freeBlocks := Function.update s.freeBlocks b
      (if (s.inodeTable j).iSize = 0 then .taken else s.freeBlocks b)
    inodeTable := Function.update s.inodeTable j { s.inodeTable j with iDataBlock := b } }

theorem claimBlock_write {data : List UInt8} {n : Nat} (h : data.length = n) :
    (({ s.claimBlock j b with
        fsData := store (s.claimBlock j b).fsData (b * s.fsParams.blockSize + off) data }).setOffset
        f (off + n)).setInode j { (s.claimBlock j b).inodeTable j with
          iSize := max ((s.claimBlock j b).inodeTable j).iSize (off + n) } =
      (s.writeBlock j b off data).setOffset f (off + n) := by
  simp [claimBlock, setInode, TfsState.setOffset, TfsState.writeBlock, h]

theorem dataBlockGet_claimBlock (hb : b < s.fsParams.maxBlockCount) :
    dataBlockGet ((s.claimBlock j b).inodeTable j).iDataBlock (s.claimBlock j b) =
      .ok (b * s.fsParams.blockSize) := by
  rw [show ((s.claimBlock j b).inodeTable j).iDataBlock = (b : Int) by simp [claimBlock]]
  exact @dataBlockGet_eq (s.claimBlock j b) b hb

/-- The block that `tfs_write` settles on. -/
theorem Inv.writeTarget_spec (hs : s.Inv) (hj : s.Sane j) :
    (∃ (b : Nat) (s' : TfsState), writeTarget j s = .ok ((b : Int), s') ∧ s.BlockFor j b ∧
      s'.setInode j { s'.inodeTable j with iDataBlock := b } = s.claimBlock j b) ∨
      (s.inodeTable j).iSize = 0 ∧ writeTarget j s = .ok (-1, s) ∧
        firstFit (isFree s.freeBlocks) s.fsParams.maxBlockCount = none := by
  rw [writeTarget]
  by_cases hz : (s.inodeTable j).iSize = 0
  · rw [if_pos hz, dataBlockAlloc_eq hs.range.blockSizePos]
    cases hb : firstFit (isFree s.freeBlocks) s.fsParams.maxBlockCount with
    | none => exact Or.inr ⟨hz, rfl, rfl⟩
    | some b =>
      refine Or.inl ⟨b, _, rfl, ?_, ?_⟩
      · rw [BlockFor, if_pos hz, hb]
      · simp [claimBlock, setInode, hz]
  · rw [if_neg hz]
    obtain ⟨hblock, -, -⟩ := hj.block (by omega)
    refine Or.inl ⟨s.blockOf j, s, by rw [hblock], ?_, ?_⟩
    · rw [BlockFor, if_neg hz]
    · rw [claimBlock, if_neg hz, Function.update_eq_self]
      rfl

/-- **`tfs_write`.** -/
theorem Inv.tfsWrite_spec (hs : s.Inv) (fhandle : Int) (buffer : List UInt8) :
    (∃ r, tfsWrite fhandle buffer s = .ok r ∧ WriteSpec s fhandle buffer r) ∨
      tfsWrite fhandle buffer s = .fault ∧ WildWrite s fhandle buffer := by
  rw [tfsWrite]
  cases h : getOpenFileEntry fhandle s with
  | none =>
    refine Or.inl ⟨_, rfl, .closed fun f hf hopen => ?_⟩
    rw [getOpenFileEntry_eq_some.mpr ⟨hf, hopen⟩] at h
    cases h
  | some f =>
  obtain ⟨hf, hopen⟩ := getOpenFileEntry_eq_some.mp h
  obtain ⟨j, hj, hj0, hjn, hsane⟩ := hs.handle f hopen
  have hoff := hs.offset f hopen
  have hsize := hs.dataSize_lt
  simp only [hj, inodeGet_eq hjn, Outcome.ok_bind]
  rw [← toWrite]
  have hcases := toWrite_cases buffer.length hs.range.blockSize (hoff.trans_lt hsize)
  generalize hoffEq : (s.openFileTable f).ofOffset = off at hoff hcases ⊢
  generalize toWrite buffer.length off s.fsParams.blockSize = n at hcases ⊢
  by_cases hn0 : n = 0
  · refine Or.inl ⟨_, by rw [if_pos hn0]; rfl, .nothing f hf hopen ?_⟩
    rcases hcases with ⟨-, hc⟩ | ⟨hmin, hpos, hlt⟩ | ⟨hbig, -⟩
    · exact hc.imp List.length_eq_zero_iff.mp hoffEq.trans
    · omega
    · omega
  rw [if_neg hn0]
  rcases hs.writeTarget_spec hsane with ⟨b, s', hw, hb, hclaim⟩ | ⟨hz, hw, hfull⟩
  · rw [hw, Outcome.ok_bind]
    simp only
    rw [if_neg (by omega), hclaim]
    obtain ⟨hb0, hbn⟩ := hb.bounds hsane hs.root
    rw [dataBlockGet_claimBlock hbn, Outcome.ok_bind]
    have hbounds := s.block_bounds hb0 hbn
    have hdata : (s.claimBlock j b).dataSize = s.dataSize := rfl
    rcases hcases with ⟨hc, -⟩ | ⟨hmin, hpos, hlt⟩ | ⟨hbig, hwild⟩
    · omega
    · rw [if_neg (by omega)]
      refine Or.inl ⟨_, rfl, ?_⟩
      have hlen : (buffer.take n).length = n := by
        rw [List.length_take]
        omega
      have hspec : WriteSpec s fhandle buffer _ :=
        .wrote f j b n hf hopen hj hb (hoffEq.symm ▸ hmin) (by omega)
      rw [hoffEq] at hspec
      rw [← claimBlock_write hlen] at hspec
      exact hspec
    · rw [if_pos (by omega)]
      exact Or.inr ⟨rfl, f, hf, hopen, hoffEq.symm ▸ hwild⟩
  · rw [hw, Outcome.ok_bind]
    refine Or.inl ⟨_, by simp only; rw [if_pos ⟨hz, trivial⟩]; rfl,
      .noBlock f j hf hopen hj hz hfull ?_⟩
    rcases hcases with ⟨hc, -⟩ | ⟨hmin, hpos, hlt⟩ | ⟨hbig, hwild⟩
    · omega
    · exact Or.inl ⟨by rintro rfl; simp at hpos, hoffEq.symm ▸ hlt⟩
    · exact Or.inr (hoffEq.symm ▸ hwild)

theorem tfsWrite_open {buffer : List UInt8} (hf : getOpenFileEntry fhandle s = some f)
    (hj : (s.openFileTable f).ofInumber = j) (hjn : j < s.fsParams.maxInodeCount) :
    tfsWrite fhandle buffer s = (do
      let n := toWrite buffer.length (s.openFileTable f).ofOffset s.fsParams.blockSize
      if n = 0 then return (0, s)
      let (bnum, s') ← writeTarget j s
      if (s'.inodeTable j).iSize = 0 ∧ bnum = -1 then return (-1, s')
      let s' := s'.setInode j { s'.inodeTable j with iDataBlock := bnum }
      let block ← dataBlockGet (s'.inodeTable j).iDataBlock s'
      if s'.dataSize < block + (s.openFileTable f).ofOffset + n then .fault
      else
        let m := store s'.fsData (block + (s.openFileTable f).ofOffset) (buffer.take n)
        let s' := { s' with fsData := m }
        let s' := s'.setOffset f ((s.openFileTable f).ofOffset + n)
        let s' := s'.setInode j { s'.inodeTable j with
          iSize := max (s'.inodeTable j).iSize ((s.openFileTable f).ofOffset + n) }
        return (n, s')) := by
  rw [tfsWrite, hf]
  show (inodeGet (s.openFileTable f).ofInumber s >>= _) = _
  unfold toWrite
  rw [hj, inodeGet_eq hjn, Outcome.ok_bind]

/-- A write that stays in the block returns. -/
theorem Inv.tfsWrite_returns (hs : s.Inv) {buffer : List UInt8} (hopen : s.IsOpen f)
    (hfit : (s.openFileTable f).ofOffset +
      toWrite buffer.length (s.openFileTable f).ofOffset s.fsParams.blockSize ≤
        s.fsParams.blockSize) :
    ∃ r, tfsWrite f buffer s = .ok r ∧ WriteSpec s f buffer r := by
  rcases hs.tfsWrite_spec f buffer with h | ⟨hfault, -⟩
  · exact h
  obtain ⟨j, hj, -, hjn, hsane⟩ := hs.handle f hopen
  rw [tfsWrite_open (getOpenFileEntry_eq_some.mpr ⟨rfl, hopen⟩) hj hjn] at hfault
  generalize toWrite buffer.length (s.openFileTable f).ofOffset s.fsParams.blockSize = n at *
  by_cases hn : n = 0
  · simp [hn] at hfault
  rw [if_neg hn] at hfault
  rcases hs.writeTarget_spec hsane with ⟨b, s', hw, hb, hclaim⟩ | ⟨hz, hw, -⟩
  · obtain ⟨hb0, hbn⟩ := hb.bounds hsane hs.root
    have hbounds := s.block_bounds hb0 hbn
    have hdata : (s.claimBlock j b).dataSize = s.dataSize := rfl
    rw [hw, Outcome.ok_bind] at hfault
    simp only at hfault
    rw [if_neg (by omega), hclaim, dataBlockGet_claimBlock hbn, Outcome.ok_bind,
      if_neg (by omega)] at hfault
    cases hfault
  · rw [hw, Outcome.ok_bind] at hfault
    simp only at hfault
    rw [if_pos ⟨hz, trivial⟩] at hfault
    cases hfault

/-- A write that returns a number of bytes has set out to write so many. -/
theorem Inv.toWrite_of_tfsWrite (hs : s.Inv) {buffer : List UInt8} {s' : TfsState}
    (hopen : s.IsOpen f) (hpos : 0 < n) (h : tfsWrite f buffer s = .ok ((n : Int), s')) :
    toWrite buffer.length (s.openFileTable f).ofOffset s.fsParams.blockSize = n := by
  obtain ⟨j, hj, -, hjn, hsane⟩ := hs.handle f hopen
  rw [tfsWrite_open (getOpenFileEntry_eq_some.mpr ⟨rfl, hopen⟩) hj hjn] at h
  generalize toWrite buffer.length (s.openFileTable f).ofOffset s.fsParams.blockSize = m at *
  by_cases hm : m = 0
  · rw [if_pos hm] at h
    have := (Prod.mk.inj (Outcome.ok.inj h)).1
    omega
  rw [if_neg hm] at h
  obtain ⟨⟨bnum, s₁⟩, -, h⟩ := Outcome.bind_eq_ok.mp h
  simp only at h
  split at h
  · have := (Prod.mk.inj (Outcome.ok.inj h)).1
    omega
  obtain ⟨block, -, h⟩ := Outcome.bind_eq_ok.mp h
  split at h
  · cases h
  · have := (Prod.mk.inj (Outcome.ok.inj h)).1
    omega

theorem BlockFor.unique {b' : Nat} (h : s.BlockFor j b) (h' : s.BlockFor j b') : b = b' := by
  rw [BlockFor] at h h'
  split at h
  case isTrue hz =>
    rw [if_pos hz] at h'
    exact Option.some.inj (h.symm.trans h')
  case isFalse hz =>
    rw [if_neg hz] at h'
    exact h.symm.trans h'

/-- **What a write stores** that has a block and stays in it. -/
theorem Inv.tfsWrite_eq (hs : s.Inv) {buffer : List UInt8} (hopen : s.IsOpen f)
    (hj : (s.openFileTable f).ofInumber = j) (hb : s.BlockFor j b)
    (hn : toWrite buffer.length (s.openFileTable f).ofOffset s.fsParams.blockSize = n)
    (hpos : 0 < n)
    (hfit : (s.openFileTable f).ofOffset + n ≤ s.fsParams.blockSize) :
    tfsWrite f buffer s = .ok (n,
      (s.writeBlock j b (s.openFileTable f).ofOffset (buffer.take n)).setOffset f
        ((s.openFileTable f).ofOffset + n)) := by
  obtain ⟨r, hw, hspec⟩ := hs.tfsWrite_returns hopen (hn.symm ▸ hfit)
  rw [hw]
  cases hspec with
  | closed hclosed => exact absurd hopen (hclosed f rfl)
  | nothing f' hf' _ hnone =>
    obtain rfl : f = f' := Int.natCast_inj.mp hf'
    have hoff := (hs.offset f hopen).trans_lt hs.dataSize_lt
    have hzero : buffer.length = 0 ∨ (s.openFileTable f).ofOffset = s.fsParams.blockSize :=
      hnone.imp List.length_eq_zero_iff.mpr id
    have hsize := hs.range.blockSize
    have hcases := toWrite_cases buffer.length hsize hoff
    rw [hn] at hcases
    rcases hcases with ⟨h0, -⟩ | ⟨hmin, -⟩ | ⟨hbig, -⟩ <;> omega
  | noBlock f' j' hf' _ hj' hz hfull =>
    obtain rfl : f = f' := Int.natCast_inj.mp hf'
    obtain rfl : j = j' := Int.natCast_inj.mp (hj.symm.trans hj')
    rw [BlockFor, if_pos hz, hfull] at hb
    cases hb
  | wrote f' j' b' n' hf' _ hj' hb' _ hpos' =>
    obtain rfl : f = f' := Int.natCast_inj.mp hf'
    obtain rfl : j = j' := Int.natCast_inj.mp (hj.symm.trans hj')
    obtain rfl := hb.unique hb'
    obtain rfl := hn.symm.trans (hs.toWrite_of_tfsWrite hopen hpos' hw)
    rfl

/-! ### Reading -/

/-- A read through handle `f` of an inode, `j`, that has become smaller than the
handle's offset. -/
def StaleRead (s : TfsState) (fhandle : Int) (len f j : Nat) : Prop :=
  fhandle = f ∧ s.IsOpen f ∧ (s.openFileTable f).ofInumber = j ∧
    (s.inodeTable j).iSize < (s.openFileTable f).ofOffset ∧ 0 < len

/-- What `tfs_read` can come to when it returns. -/
inductive ReadSpec (s : TfsState) (fhandle : Int) (len : Nat) :
    (Int × List UInt8) × TfsState → Prop where
  | closed (h : ∀ f : Nat, fhandle = f → ¬ s.IsOpen f) : ReadSpec s fhandle len ((-1, []), s)
  | nothing (f j : Nat) (hf : fhandle = f) (hopen : s.IsOpen f)
      (hj : (s.openFileTable f).ofInumber = j)
      (hn : len = 0 ∨ (s.inodeTable j).iSize = (s.openFileTable f).ofOffset) :
      ReadSpec s fhandle len ((0, []), s)
  | read (f j n : Nat) (hf : fhandle = f) (hopen : s.IsOpen f)
      (hj : (s.openFileTable f).ofInumber = j)
      (hlt : (s.openFileTable f).ofOffset < (s.inodeTable j).iSize)
      (hn : n = min ((s.inodeTable j).iSize - (s.openFileTable f).ofOffset) len) (hpos : 0 < n) :
      ReadSpec s fhandle len
        ((n, load s.fsData
          (s.blockOf j * s.fsParams.blockSize + (s.openFileTable f).ofOffset) n),
          s.setOffset f ((s.openFileTable f).ofOffset + n))
  | stray (f j n : Nat) (bytes : List UInt8) (hst : s.StaleRead fhandle len f j)
      (hb : (s.inodeTable j).iDataBlock ≠ -1) (hpos : 0 < n)
      (hfit : (s.openFileTable f).ofOffset + n ≤ s.dataSize) :
      ReadSpec s fhandle len ((n, bytes), s.setOffset f ((s.openFileTable f).ofOffset + n))

/-- The number of bytes that `tfs_read` sets out to read. -/
def toRead (size off len : Nat) : Nat := min ((size + 2 ^ 64 - off) % 2 ^ 64) len

theorem toRead_cases (len : Nat) {size off : Nat} (hsize : size < 2 ^ 31) (hoff : off < 2 ^ 62) :
    toRead size off len = 0 ∧ (len = 0 ∨ size = off) ∨
      toRead size off len = min (size - off) len ∧ 0 < len ∧ off < size ∨
      0 < toRead size off len ∧ 0 < len ∧ size < off := by
  rw [toRead]
  omega

theorem tfsRead_open (hf : getOpenFileEntry fhandle s = some f)
    (hj : (s.openFileTable f).ofInumber = j) (hjn : j < s.fsParams.maxInodeCount) :
    tfsRead fhandle len s = (do
      let n := toRead (s.inodeTable j).iSize (s.openFileTable f).ofOffset len
      if n = 0 then return ((0, []), s)
      let block ← dataBlockGet (s.inodeTable j).iDataBlock s
      if s.dataSize < block + (s.openFileTable f).ofOffset + n then .fault
      else
        return ((n, load s.fsData (block + (s.openFileTable f).ofOffset) n),
          s.setOffset f ((s.openFileTable f).ofOffset + n))) := by
  rw [tfsRead, hf]
  show (inodeGet (s.openFileTable f).ofInumber s >>= _) = _
  unfold toRead
  rw [hj, inodeGet_eq hjn, Outcome.ok_bind]

/-- **`tfs_read`.** -/
theorem Inv.tfsRead_spec (hs : s.Inv) (fhandle : Int) (len : Nat) :
    (∃ r, tfsRead fhandle len s = .ok r ∧ ReadSpec s fhandle len r) ∨
      ∃ f j, s.StaleRead fhandle len f j ∧
        ((s.inodeTable j).iDataBlock = -1 ∧
            tfsRead fhandle len s = .panic "data_block_get: invalid block number" ∨
          (s.inodeTable j).iDataBlock ≠ -1 ∧ tfsRead fhandle len s = .fault) := by
  cases h : getOpenFileEntry fhandle s with
  | none =>
    refine Or.inl ⟨_, by rw [tfsRead, h], .closed fun f hf hopen => ?_⟩
    rw [getOpenFileEntry_eq_some.mpr ⟨hf, hopen⟩] at h
    cases h
  | some f =>
  obtain ⟨hf, hopen⟩ := getOpenFileEntry_eq_some.mp h
  obtain ⟨j, hj, -, hjn, hsane⟩ := hs.handle f hopen
  have hoff := (hs.offset f hopen).trans_lt hs.dataSize_lt
  have hcases := toRead_cases len (hsane.1.trans_lt hs.range.blockSize) hoff
  rw [tfsRead_open h hj hjn]
  generalize toRead (s.inodeTable j).iSize (s.openFileTable f).ofOffset len = n at hcases ⊢
  rcases hcases with ⟨rfl, hn⟩ | ⟨hmin, hpos, hlt⟩ | ⟨hn, hpos, hlt⟩
  · exact Or.inl ⟨_, rfl, .nothing f j hf hopen hj hn⟩
  · -- Inside the file, whose block holds all that is read.
    obtain ⟨hblock, hb0, hbn⟩ := hsane.block (by omega)
    have hbounds := s.block_bounds hb0 hbn
    have hsize := hsane.1
    rw [if_neg (by omega), hblock, dataBlockGet_eq hbn, Outcome.ok_bind, if_neg (by omega)]
    exact Or.inl ⟨_, rfl, .read f j n hf hopen hj hlt hmin (by omega)⟩
  · have hstale : s.StaleRead fhandle len f j := ⟨hf, hopen, hj, hlt, hpos⟩
    rw [if_neg (by omega)]
    rcases hsane.2 with ⟨hnone, -⟩ | ⟨b, hb, hb0, hbn⟩
    · rw [hnone]
      exact Or.inr ⟨f, j, hstale, Or.inl ⟨hnone, rfl⟩⟩
    · rw [hb, dataBlockGet_eq hbn, Outcome.ok_bind]
      split
      · exact Or.inr ⟨f, j, hstale, Or.inr ⟨by omega, rfl⟩⟩
      · exact Or.inl ⟨_, rfl, .stray f j n _ hstale (by omega) hn (by omega)⟩

/-! ### Runs -/

theorem openOffset_le (hs : s.Inv) (hj : s.IsFile j) : s.openOffset mode j ≤ s.dataSize := by
  rw [openOffset]
  split
  · exact (hs.sane j hj).1.trans hs.blockSize_le
  · exact Nat.zero_le _

theorem Inv.addToOpenFileTable {r : Int} {s' : TfsState} (hs : s.Inv) (hj : s.IsFile j)
    (hoff : off ≤ s.dataSize) (h : Tfs.addToOpenFileTable j off s = (r, s')) : s'.Inv := by
  cases hf : s.nextHandle with
  | none =>
    rw [addToOpenFileTable_none hf] at h
    obtain ⟨rfl, rfl⟩ := Prod.mk.inj h
    exact hs
  | some f =>
    rw [addToOpenFileTable_some hf] at h
    obtain ⟨rfl, rfl⟩ := Prod.mk.inj h
    exact hs.openHandle hj hoff

theorem OpenSpec.inv {name : Option CString} {r : Int × TfsState} (h : OpenSpec s name mode r)
    (hs : s.Inv) : r.2.Inv := by
  cases h with
  | invalid => exact hs
  | missing => exact hs
  | existing p j _ _ hj =>
    have hfile := hs.isFile_of_hasFile hj
    have hs' := hs.truncated mode hfile
    have hfile' : (s.truncated mode j).IsFile j := by
      rw [TfsState.truncated]
      split <;> exact hfile
    exact hs'.addToOpenFileTable hfile' (openOffset_le hs' hfile') rfl
  | noInode => exact hs
  | noEntry p k _ _ _ _ hk =>
    obtain ⟨-, hfree⟩ := free_of_firstFit hk
    exact hs.resetInode (hs.pos_of_free hfree) hfree
  | created p k i _ hv hno _ hk hi hlen =>
    obtain ⟨hkn, hfree⟩ := free_of_firstFit hk
    have hs' := hs.createFile hk hi (validPathname_strlen hv) hlen hno
    have hfile : (s.createFile k i (skipSlash p)).IsFile k :=
      ⟨hs.pos_of_free hfree, hkn, by simp [TfsState.createFile]⟩
    exact hs'.addToOpenFileTable hfile (Nat.zero_le _) rfl

theorem CloseSpec.inv {r : Int × TfsState} (h : CloseSpec s fhandle r) (hs : s.Inv) :
    r.2.Inv := by
  cases h with
  | closed => exact hs
  | done => exact hs.closeHandle

theorem UnlinkSpec.inv {target : Option CString} {r : Int × TfsState} (h : UnlinkSpec s target r)
    (hs : s.Inv) : r.2.Inv := by
  cases h with
  | invalid => exact hs
  | missing => exact hs
  | removed p j i _ _ hi hij hq =>
    exact hs.removeFile (hs.isFile_of_hasFile ⟨i, hi, hij, hq⟩) hi hij

theorem WriteSpec.inv {buffer : List UInt8} {r : Int × TfsState} (h : WriteSpec s fhandle buffer r)
    (hs : s.Inv) : r.2.Inv := by
  cases h with
  | closed => exact hs
  | nothing => exact hs
  | noBlock => exact hs
  | wrote f j b n _ hopen hj hb hn =>
    obtain ⟨j', hj', hj0, -, hsane⟩ := hs.handle f hopen
    obtain rfl : j = j' := by omega
    have hlen := List.length_take_le n buffer
    have hle := hs.blockSize_le
    refine (hs.writeBlock hj0 hsane hb (by omega)).setOffset ?_
    show (s.openFileTable f).ofOffset + n ≤ s.dataSize
    omega

theorem ReadSpec.inv {r : (Int × List UInt8) × TfsState} (h : ReadSpec s fhandle len r)
    (hs : s.Inv) : r.2.Inv := by
  cases h with
  | closed => exact hs
  | nothing => exact hs
  | read f j n _ hopen hj hlt hn =>
    obtain ⟨j', hj', -, -, hsane⟩ := hs.handle f hopen
    obtain rfl : j = j' := by omega
    have hle := hsane.1.trans hs.blockSize_le
    exact hs.setOffset (by omega)
  | stray f j n bytes _ _ _ hfit => exact hs.setOffset hfit

/-- What a call that returns can come to, and what it gives back. -/
inductive CallSpec (s : TfsState) : TfsCall → Reply × TfsState → Prop where
  | tfsOpen {name : Option CString} {mode : Nat} {r : Int × TfsState} (h : OpenSpec s name mode r) :
      CallSpec s (.tfsOpen name mode) (⟨r.1, []⟩, r.2)
  | tfsClose {fhandle : Int} {r : Int × TfsState} (h : CloseSpec s fhandle r) :
      CallSpec s (.tfsClose fhandle) (⟨r.1, []⟩, r.2)
  | tfsRead {fhandle : Int} {len : Nat} {r : (Int × List UInt8) × TfsState}
      (h : ReadSpec s fhandle len r) : CallSpec s (.tfsRead fhandle len) (⟨r.1.1, r.1.2⟩, r.2)
  | tfsWrite {fhandle : Int} {buffer : List UInt8} {r : Int × TfsState}
      (h : WriteSpec s fhandle buffer r) : CallSpec s (.tfsWrite fhandle buffer) (⟨r.1, []⟩, r.2)
  | tfsUnlink {target : Option CString} {r : Int × TfsState} (h : UnlinkSpec s target r) :
      CallSpec s (.tfsUnlink target) (⟨r.1, []⟩, r.2)

/-- The calls that do not return: a copy past the end of `fs_data`, or a read of
an inode that has become too small, with or without a block left. -/
inductive CallFails (s : TfsState) : TfsCall → Outcome (Reply × TfsState) → Prop where
  | wildWrite {fhandle : Int} {buffer : List UInt8} (h : s.WildWrite fhandle buffer) :
      CallFails s (.tfsWrite fhandle buffer) .fault
  | noBlock {fhandle : Int} {len f j : Nat} (h : s.StaleRead fhandle len f j)
      (hb : (s.inodeTable j).iDataBlock = -1) :
      CallFails s (.tfsRead fhandle len) (.panic "data_block_get: invalid block number")
  | wildRead {fhandle : Int} {len f j : Nat} (h : s.StaleRead fhandle len f j)
      (hb : (s.inodeTable j).iDataBlock ≠ -1) : CallFails s (.tfsRead fhandle len) .fault

/-- **Every call**, in a state that satisfies the metadata invariant. -/
theorem Inv.tfsCall_spec (hs : s.Inv) (c : TfsCall) :
    (∃ r, tfsCall c s = .ok r ∧ CallSpec s c r) ∨ CallFails s c (tfsCall c s) := by
  cases c with
  | tfsOpen name mode =>
    obtain ⟨r, hr, hspec⟩ := hs.tfsOpen_spec name mode
    exact Or.inl ⟨_, by rw [tfsCall, hr]; rfl, .tfsOpen hspec⟩
  | tfsClose fhandle =>
    obtain ⟨r, hr, hspec⟩ := tfsClose_spec s fhandle
    exact Or.inl ⟨_, by rw [tfsCall, hr]; rfl, .tfsClose hspec⟩
  | tfsRead fhandle len =>
    rcases hs.tfsRead_spec fhandle len with ⟨r, hr, hspec⟩ | ⟨f, j, hst, ⟨hb, hr⟩ | ⟨hb, hr⟩⟩
    · exact Or.inl ⟨_, by rw [tfsCall, hr]; rfl, .tfsRead hspec⟩
    · rw [tfsCall, hr]
      exact Or.inr (.noBlock hst hb)
    · rw [tfsCall, hr]
      exact Or.inr (.wildRead hst hb)
  | tfsWrite fhandle buffer =>
    rcases hs.tfsWrite_spec fhandle buffer with ⟨r, hr, hspec⟩ | ⟨hr, hwild⟩
    · exact Or.inl ⟨_, by rw [tfsCall, hr]; rfl, .tfsWrite hspec⟩
    · rw [tfsCall, hr]
      exact Or.inr (.wildWrite hwild)
  | tfsUnlink target =>
    obtain ⟨r, hr, hspec⟩ := hs.tfsUnlink_spec target
    exact Or.inl ⟨_, by rw [tfsCall, hr]; rfl, .tfsUnlink hspec⟩

theorem CallFails.ne_ok {c : TfsCall} {o : Outcome (Reply × TfsState)} (h : CallFails s c o)
    (r : Reply × TfsState) : o ≠ .ok r := by
  cases h <;> simp

/-- What a call that returned has done. -/
theorem Inv.callSpec (hs : s.Inv) {c : TfsCall} {r : Reply} {s' : TfsState}
    (h : tfsCall c s = .ok (r, s')) : CallSpec s c (r, s') := by
  rcases hs.tfsCall_spec c with ⟨r', hr, hspec⟩ | hfail
  · obtain rfl : r' = (r, s') := Outcome.ok.inj (hr.symm.trans h)
    exact hspec
  · exact absurd h (hfail.ne_ok _)

theorem tfsCall_tfsWrite {buffer : List UInt8} {ret : Int} {s' : TfsState}
    (h : tfsWrite fhandle buffer s = .ok (ret, s')) :
    tfsCall (.tfsWrite fhandle buffer) s = .ok (⟨ret, []⟩, s') := by
  rw [tfsCall, h]
  rfl

theorem tfsWrite_of_tfsCall {buffer : List UInt8} {r : Reply} {s' : TfsState}
    (h : tfsCall (.tfsWrite fhandle buffer) s = .ok (r, s')) :
    tfsWrite fhandle buffer s = .ok (r.ret, s') := by
  obtain ⟨⟨ret, s₁⟩, hw, h⟩ := Outcome.bind_eq_ok.mp h
  obtain ⟨rfl, rfl⟩ := Prod.mk.inj (Outcome.ok.inj h)
  exact hw

theorem CallSpec.inv {c : TfsCall} {r : Reply × TfsState} (h : CallSpec s c r) (hs : s.Inv) :
    r.2.Inv := by
  cases h with
  | tfsOpen h => exact h.inv hs
  | tfsClose h => exact h.inv hs
  | tfsRead h => exact h.inv hs
  | tfsWrite h => exact h.inv hs
  | tfsUnlink h => exact h.inv hs

/-- **The step lemma**: a call that returns keeps the metadata invariant. -/
theorem Inv.tfsCall {c : TfsCall} {r : Reply} {s' : TfsState} (hs : s.Inv)
    (h : Tfs.tfsCall c s = .ok (r, s')) : s'.Inv :=
  (hs.callSpec h).inv hs

/-- **The run lemma.** -/
theorem Inv.runCalls {cs : List TfsCall} {rs : List Reply} {s' : TfsState} (hs : s.Inv)
    (h : Tfs.runCalls cs s = .ok (rs, s')) : s'.Inv :=
  Outcome.runList_invariant (fun _ _ _ _ hs h => hs.tfsCall h) hs h

/-! ### The initial state -/

/-- The state that `tfs_init` leaves. -/
structure Fresh (s : TfsState) : Prop where
  inv : s.Inv
  noFile : ∀ j, ¬ s.IsFile j
  noOpen : ∀ f, ¬ s.IsOpen f
  blocks : ∀ b, 0 < b → b < s.fsParams.maxBlockCount → s.freeBlocks b = .free

theorem firstFit_allFree {t : Nat → AllocationState} {n : Nat} (h : ∀ i < n, t i = .free) :
    firstFit (isFree t) n = if n = 0 then none else some 0 := by
  split
  case isTrue hn => exact firstFit_eq_none.mpr (by omega)
  case isFalse hn =>
    exact firstFit_eq_some.mpr ⟨by omega, by simp [isFree, h 0 (by omega)], by omega⟩

/-- `state_init` leaves every slot of the three allocation tables free. -/
theorem stateInit_ok {params : TfsParams} {m : Malloc} {s₀ : TfsState}
    (h : stateInit params m s₀ = (0, s)) :
    s.fsParams = params ∧ (∀ i < params.maxInodeCount, s.freeinodeTs i = .free) ∧
      (∀ b < params.maxBlockCount, s.freeBlocks b = .free) ∧ ∀ f, ¬ s.IsOpen f := by
  rw [stateInit] at h
  simp only at h
  split at h
  · simp at h
  split at h
  · simp at h
  obtain ⟨-, rfl⟩ := Prod.mk.inj h
  refine ⟨rfl, fun i hi => if_pos hi, fun b hb => if_pos hb, ?_⟩
  rintro f ⟨hlt, htaken⟩
  have hfree : fillFree (m.freeOpenFileEntries.getD s₀.freeOpenFileEntries)
      params.maxOpenFilesCount f = .free := if_pos hlt
  exact AllocationState.noConfusion (hfree.symm.trans htaken)

/-- The state once the root directory has inode 0 and block 0. -/
def withRoot (s : TfsState) : TfsState :=
  { s with
    inodeTable := Function.update s.inodeTable 0 ⟨.tDirectory, s.fsParams.blockSize, 0⟩
    freeinodeTs := Function.update s.freeinodeTs 0 .taken
    freeBlocks := Function.update s.freeBlocks 0 .taken
    fsData := clearEntries s.fsData 0 s.maxDirEntries }

theorem inodeCreate_root (hp : 1 ≤ s.fsParams.blockSize) (hi : 0 < s.fsParams.maxInodeCount)
    (hb : 0 < s.fsParams.maxBlockCount)
    (hinodes : ∀ i < s.fsParams.maxInodeCount, s.freeinodeTs i = .free)
    (hblocks : ∀ b < s.fsParams.maxBlockCount, s.freeBlocks b = .free) :
    inodeCreate .tDirectory s = .ok (0, s.withRoot) := by
  rw [inodeCreate, inodeAlloc_eq hp, firstFit_allFree hinodes, if_neg hi.ne', Outcome.ok_bind]
  simp only
  rw [if_neg (by omega), dataBlockAlloc_eq (by exact hp), firstFit_allFree (by exact hblocks),
    if_neg (by exact hb.ne'), Outcome.ok_bind]
  simp only
  rw [if_neg (by omega), dataBlockGet_eq (by exact hb), Outcome.ok_bind, Nat.zero_mul]
  simp [withRoot, setInode, maxDirEntries]

/-- Without an inode or a block for it there is no root directory. -/
theorem inodeCreate_root_pos (hp : 1 ≤ s.fsParams.blockSize)
    (hinodes : ∀ i < s.fsParams.maxInodeCount, s.freeinodeTs i = .free)
    (hblocks : ∀ b < s.fsParams.maxBlockCount, s.freeBlocks b = .free) {s' : TfsState}
    (h : inodeCreate .tDirectory s = .ok (0, s')) :
    0 < s.fsParams.maxInodeCount ∧ 0 < s.fsParams.maxBlockCount := by
  rw [inodeCreate, inodeAlloc_eq hp, firstFit_allFree hinodes] at h
  by_cases hi : s.fsParams.maxInodeCount = 0
  · rw [if_pos hi] at h
    simp at h
  refine ⟨Nat.pos_of_ne_zero hi, Nat.pos_of_ne_zero fun hb => ?_⟩
  rw [if_neg hi] at h
  simp only [Outcome.ok_bind] at h
  rw [if_neg (by omega), dataBlockAlloc_eq (by exact hp), firstFit_allFree (by exact hblocks),
    if_pos (by exact hb), Outcome.ok_bind, if_pos rfl] at h
  obtain ⟨s₂, -, h⟩ := Outcome.bind_eq_ok.mp h
  simp at h

theorem fresh_withRoot (hp : s.fsParams.InRange) (hi : 0 < s.fsParams.maxInodeCount)
    (hb : 0 < s.fsParams.maxBlockCount)
    (hinodes : ∀ i < s.fsParams.maxInodeCount, s.freeinodeTs i = .free)
    (hblocks : ∀ b < s.fsParams.maxBlockCount, s.freeBlocks b = .free)
    (hopen : ∀ f, ¬ s.IsOpen f) : s.withRoot.Fresh := by
  have hno : ∀ j, ¬ s.withRoot.IsFile j := by
    rintro j ⟨hj0, hj, htaken⟩
    simp only [withRoot, Function.update_of_ne hj0.ne'] at htaken
    exact AllocationState.noConfusion ((hinodes j hj).symm.trans htaken)
  have hdead : ∀ i < s.withRoot.maxDirEntries, ¬ Live s.withRoot.fsData 0 i := fun i hi hl =>
    hl (dInumber_clearEntries i hi)
  refine ⟨?_, hno, hopen, ?_⟩
  · exact
      { range := hp
        root := ⟨hi, hb, by simp [withRoot], by simp [withRoot], by simp [withRoot],
          by simp [withRoot], by simp [withRoot]⟩
        dir := dirOk_clearEntries
        entry := fun i hi hl => absurd hl (hdead i hi)
        entryInj := fun i hi _ _ hl => absurd hl (hdead i hi)
        listed := fun j hj => absurd hj (hno j)
        isFile := fun j hj => absurd hj (hno j)
        sane := fun j hj => absurd hj (hno j)
        handle := fun f hf => absurd hf (hopen f)
        offset := fun f hf => absurd hf (hopen f)
        owned := fun j hj => absurd hj (hno j)
        blockInj := fun j _ hj => absurd hj (hno j) }
  · intro b hb0 hb
    simp only [withRoot, Function.update_of_ne hb0.ne']
    exact hblocks b hb

/-- **`tfs_init`**, when it succeeds. -/
theorem fresh_of_tfsInit {params : Option TfsParams} {m : Malloc} {s₀ : TfsState}
    (hp : (params.getD tfsDefaultParams).InRange) (h : tfsInit params m s₀ = .ok (0, s)) :
    s.Fresh ∧ s.fsParams = params.getD tfsDefaultParams := by
  rw [tfsInit] at h
  cases hinit : stateInit (params.getD tfsDefaultParams) m s₀ with
  | mk r s₁ =>
  rw [hinit] at h
  simp only at h
  by_cases hr : r ≠ 0
  · simp [hr] at h
  rw [if_neg hr] at h
  obtain ⟨⟨root, s₂⟩, hcreate, h⟩ := Outcome.bind_eq_ok.mp h
  by_cases hroot : root ≠ rootDirInum
  · simp [hroot] at h
  simp only [if_neg hroot] at h
  obtain ⟨-, rfl⟩ := Prod.mk.inj (Outcome.ok.inj h)
  rw [not_not] at hr hroot
  subst hr hroot
  obtain ⟨hparams, hinodes, hblocks, hopen⟩ := stateInit_ok hinit
  rw [← hparams] at hp hinodes hblocks ⊢
  obtain ⟨hi, hb⟩ := inodeCreate_root_pos hp.blockSizePos hinodes hblocks hcreate
  have hs₂ := hcreate.symm.trans (inodeCreate_root hp.blockSizePos hi hb hinodes hblocks)
  obtain ⟨-, rfl⟩ := Prod.mk.inj (Outcome.ok.inj hs₂)
  exact ⟨fresh_withRoot hp hi hb hinodes hblocks hopen, rfl⟩

/-- `tfs_init` succeeds on a fresh state when `malloc` does and there is an inode
and a block for the root directory. -/
theorem tfsInit_eq (params : Option TfsParams) {m : Malloc} {s₀ : TfsState}
    (hp : (params.getD tfsDefaultParams).InRange)
    (hi : 0 < (params.getD tfsDefaultParams).maxInodeCount)
    (hb : 0 < (params.getD tfsDefaultParams).maxBlockCount)
    (hm : m.Succeeds) (h₀ : s₀.allocated = false) :
    tfsInit params m s₀ =
      .ok (0, (stateInit (params.getD tfsDefaultParams) m s₀).2.withRoot) := by
  have hr : (stateInit (params.getD tfsDefaultParams) m s₀).1 = 0 := by
    simp [stateInit, h₀, hm]
  obtain ⟨hparams, hinodes, hblocks, -⟩ := stateInit_ok (Prod.ext hr rfl)
  rw [tfsInit]
  simp only [hr]
  rw [if_neg (by simp), inodeCreate_root (by rw [hparams]; exact hp.blockSizePos)
    (by rwa [hparams]) (by rwa [hparams]) (by rwa [hparams]) (by rwa [hparams])]
  rfl

end TfsState

end Tfs
