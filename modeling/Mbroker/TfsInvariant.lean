/-
The metadata invariant of TécnicoFS.

`TfsState.Inv` ties the directory block to the inode table and the inodes to
the data blocks.  It says nothing of how far a handle's offset has run, nor of
the inodes that are not taken except the ones an open handle still points to,
because a file may be removed or truncated while it is open; what it does say
holds all the same.

The second half of the file is the vocabulary of the operations: every change
an operation makes to the state is one of a few (`truncate`, `createFile`,
`removeFile`, `writeBlock`, `openHandle`, `closeHandle`, `setOffset`,
`resetInode`), and each of them keeps the invariant.
-/
import Mbroker.TfsDirectory
import Mbroker.TfsOperations

namespace Tfs

open Memory SlotTable

namespace TfsState

variable {s : TfsState} {i j k l f b off : Nat} {q : CString}

/-- A taken inode other than the root's. -/
def IsFile (s : TfsState) (j : Nat) : Prop :=
  0 < j ∧ j < s.fsParams.maxInodeCount ∧ s.freeinodeTs j = .taken

/-- The size and the block of an inode that has been in use: either it has no
data, or its block number is that of a block, not the root directory's. -/
def Sane (s : TfsState) (j : Nat) : Prop :=
  (s.inodeTable j).iSize ≤ s.fsParams.blockSize ∧
    ((s.inodeTable j).iDataBlock = -1 ∧ (s.inodeTable j).iSize = 0 ∨
      ∃ b : Nat, (s.inodeTable j).iDataBlock = b ∧ 0 < b ∧ b < s.fsParams.maxBlockCount)

/-- The block of an inode. -/
def blockOf (s : TfsState) (j : Nat) : Nat := (s.inodeTable j).iDataBlock.toNat

/-- The contents of the file of an inode. -/
def contents (s : TfsState) (j : Nat) : List UInt8 :=
  load s.fsData (s.blockOf j * s.fsParams.blockSize) (s.inodeTable j).iSize

/-- The directory holds the name `q` for inode `j`. -/
def HasFile (s : TfsState) (q : CString) (j : Nat) : Prop :=
  ∃ i < s.maxDirEntries, dInumber s.fsData 0 i = j ∧ NameIs s.fsData 0 i q

/-- The handle `f` is open. -/
def IsOpen (s : TfsState) (f : Nat) : Prop :=
  f < s.fsParams.maxOpenFilesCount ∧ s.freeOpenFileEntries f = .taken

/-- The root directory's inode and its block. -/
structure RootOk (s : TfsState) : Prop where
  inode : 0 < s.fsParams.maxInodeCount
  block : 0 < s.fsParams.maxBlockCount
  taken : s.freeinodeTs 0 = .taken
  isDir : (s.inodeTable 0).iNodeType = .tDirectory
  size : (s.inodeTable 0).iSize = s.fsParams.blockSize
  atZero : (s.inodeTable 0).iDataBlock = 0
  blockTaken : s.freeBlocks 0 = .taken

/-- **The metadata invariant.** -/
structure Inv (s : TfsState) : Prop where
  range : s.fsParams.InRange
  root : s.RootOk
  dir : DirOk s.fsData 0 s.maxDirEntries
  entry : ∀ i < s.maxDirEntries, Live s.fsData 0 i → ∃ j : Nat, dInumber s.fsData 0 i = j ∧ s.IsFile j
  entryInj : ∀ i < s.maxDirEntries, ∀ k < s.maxDirEntries, Live s.fsData 0 i →
    dInumber s.fsData 0 i = dInumber s.fsData 0 k → i = k
  listed : ∀ j, s.IsFile j → ∃ i < s.maxDirEntries, dInumber s.fsData 0 i = j
  isFile : ∀ j, s.IsFile j → (s.inodeTable j).iNodeType = .tFile
  sane : ∀ j, s.IsFile j → s.Sane j
  handle : ∀ f, s.IsOpen f → ∃ j : Nat, (s.openFileTable f).ofInumber = j ∧
    0 < j ∧ j < s.fsParams.maxInodeCount ∧ s.Sane j
  offset : ∀ f, s.IsOpen f → (s.openFileTable f).ofOffset ≤ s.dataSize
  owned : ∀ j, s.IsFile j → 0 < (s.inodeTable j).iSize → s.freeBlocks (s.blockOf j) = .taken
  blockInj : ∀ j k, s.IsFile j → s.IsFile k → 0 < (s.inodeTable j).iSize →
    0 < (s.inodeTable k).iSize → s.blockOf j = s.blockOf k → j = k

/-! ### Reading the invariant -/

theorem Sane.block (h : s.Sane j) (hpos : 0 < (s.inodeTable j).iSize) :
    (s.inodeTable j).iDataBlock = (s.blockOf j : Int) ∧ 0 < s.blockOf j ∧
      s.blockOf j < s.fsParams.maxBlockCount := by
  rcases h.2 with ⟨-, hz⟩ | ⟨b, hb, hb0, hlt⟩
  · omega
  · simp [blockOf, hb, hb0, hlt]

theorem live_of_inumber (h : dInumber s.fsData 0 i = (j : Int)) : Live s.fsData 0 i := by
  rw [Live, h]
  omega

theorem Inv.isFile_of_hasFile (hs : s.Inv) (h : s.HasFile q j) : s.IsFile j := by
  obtain ⟨i, hi, hij, -⟩ := h
  obtain ⟨j', hj', hf⟩ := hs.entry i hi (live_of_inumber hij)
  have hjj : j = j' := by omega
  exact hjj ▸ hf

theorem Inv.strlen_of_hasFile (hs : s.Inv) (h : s.HasFile q j) :
    1 ≤ q.strlen ∧ q.strlen < maxFileName := by
  obtain ⟨i, hi, hij, hq⟩ := h
  exact hs.dir.strlen_lt hi (live_of_inumber hij) hq

/-- A name has at most one inode. -/
theorem Inv.hasFile_inode (hs : s.Inv) (h : s.HasFile q j) (h' : s.HasFile q k) : j = k := by
  obtain ⟨i, hi, hij, hq⟩ := h
  obtain ⟨i', hi', hik, hq'⟩ := h'
  have hii := hs.dir.distinct i hi i' hi' q (live_of_inumber hij) (live_of_inumber hik) hq hq'
  subst hii
  omega

/-- An inode has at most one name. -/
theorem Inv.hasFile_name {q' : CString} (hs : s.Inv) (h : s.HasFile q j) (h' : s.HasFile q' j) :
    q = q' := by
  obtain ⟨i, hi, hij, hq⟩ := h
  obtain ⟨i', hi', hij', hq'⟩ := h'
  have hii := hs.entryInj i hi i' hi' (live_of_inumber hij) (hij.trans hij'.symm)
  subst hii
  exact hq.unique hq'

/-- Every taken inode but the root's has a name. -/
theorem Inv.exists_name (hs : s.Inv) (h : s.IsFile j) : ∃ q, s.HasFile q j := by
  obtain ⟨i, hi, hij⟩ := hs.listed j h
  obtain ⟨q, hq, -⟩ := hs.dir.named i hi (live_of_inumber hij)
  exact ⟨q, i, hi, hij, hq⟩

theorem dirSize_le (s : TfsState) : sizeofDirEntry * s.maxDirEntries ≤ s.fsParams.blockSize :=
  Nat.mul_div_le _ _

/-- Distinct blocks do not overlap. -/
theorem block_disjoint (s : TfsState) {b b' : Nat} (h : b ≠ b') :
    b * s.fsParams.blockSize + s.fsParams.blockSize ≤ b' * s.fsParams.blockSize ∨
      b' * s.fsParams.blockSize + s.fsParams.blockSize ≤ b * s.fsParams.blockSize := by
  rcases Nat.lt_or_gt_of_ne h with hlt | hlt
  · left
    have := Nat.mul_le_mul_right s.fsParams.blockSize hlt
    rwa [Nat.succ_mul] at this
  · right
    have := Nat.mul_le_mul_right s.fsParams.blockSize hlt
    rwa [Nat.succ_mul] at this

/-- A block but the first ends inside `fs_data` and starts after the directory. -/
theorem block_bounds (s : TfsState) (hb0 : 0 < b) (hb : b < s.fsParams.maxBlockCount) :
    s.fsParams.blockSize ≤ b * s.fsParams.blockSize ∧
      b * s.fsParams.blockSize + s.fsParams.blockSize ≤ s.dataSize := by
  constructor
  · exact Nat.le_mul_of_pos_left _ hb0
  · have := Nat.mul_le_mul_right s.fsParams.blockSize hb
    rwa [Nat.succ_mul] at this

/-- A copy inside a block but the first leaves the directory alone. -/
theorem agreeOn_dir (s : TfsState) (off : Nat) (bs : List UInt8) (hb0 : 0 < b) :
    AgreeOn s.fsData (store s.fsData (b * s.fsParams.blockSize + off) bs) 0
      (sizeofDirEntry * s.maxDirEntries) := by
  refine agreeOn_store (Or.inl ?_)
  have h1 := s.dirSize_le
  have h2 : s.fsParams.blockSize ≤ b * s.fsParams.blockSize := Nat.le_mul_of_pos_left _ hb0
  omega

/-! ### The changes that operations make -/

/-- The block table once the data of inode `j`, if it has any, are given up. -/
def releaseBlock (s : TfsState) (j : Nat) : Nat → AllocationState :=
  if 0 < (s.inodeTable j).iSize then Function.update s.freeBlocks (s.blockOf j) .free
  else s.freeBlocks

/-- The effect of `TFS_O_TRUNC` on the file of inode `j`. -/
def truncate (s : TfsState) (j : Nat) : TfsState :=
  { s with
    freeBlocks := s.releaseBlock j
    inodeTable := Function.update s.inodeTable j { s.inodeTable j with iSize := 0 } }

/-- Inode `k` as `inode_create` leaves it for a file. -/
def resetInode (s : TfsState) (k : Nat) : TfsState := s.setInode k ⟨.tFile, 0, -1⟩

/-- A new file `q` in entry `i`, of inode `k`. -/
def createFile (s : TfsState) (k i : Nat) (q : CString) : TfsState :=
  { s.resetInode k with
    freeinodeTs := Function.update s.freeinodeTs k .taken
    fsData := addEntry s.fsData 0 i q k }

/-- The removal of the file of inode `j`, whose entry is `i`. -/
def removeFile (s : TfsState) (j i : Nat) : TfsState :=
  { s with
    freeBlocks := s.releaseBlock j
    freeinodeTs := Function.update s.freeinodeTs j .free
    fsData := clearEntry s.fsData 0 i }

/-- Handle `f`, opened on inode `j` at an offset. -/
def openHandle (s : TfsState) (f j off : Nat) : TfsState :=
  { s with
    freeOpenFileEntries := Function.update s.freeOpenFileEntries f .taken
    openFileTable := Function.update s.openFileTable f ⟨j, off⟩ }

def closeHandle (s : TfsState) (f : Nat) : TfsState :=
  { s with freeOpenFileEntries := Function.update s.freeOpenFileEntries f .free }

/-- `data` stored at an offset of block `b`, which becomes inode `j`'s. -/
def writeBlock (s : TfsState) (j b off : Nat) (data : List UInt8) : TfsState :=
  { s with
    freeBlocks := Function.update s.freeBlocks b
      (if (s.inodeTable j).iSize = 0 then .taken else s.freeBlocks b)
    fsData := store s.fsData (b * s.fsParams.blockSize + off) data
    inodeTable := Function.update s.inodeTable j
      { s.inodeTable j with
        iDataBlock := b
        iSize := max (s.inodeTable j).iSize (off + data.length) } }

/-- The block that a write of inode `j` goes to: the file's own, or, for a file
without one, the first that is free. -/
def BlockFor (s : TfsState) (j b : Nat) : Prop :=
  if (s.inodeTable j).iSize = 0 then
    firstFit (isFree s.freeBlocks) s.fsParams.maxBlockCount = some b
  else s.blockOf j = b

theorem BlockFor.bounds (h : s.BlockFor j b) (hs : s.Sane j) (hroot : s.RootOk) :
    0 < b ∧ b < s.fsParams.maxBlockCount := by
  rw [BlockFor] at h
  split at h
  · obtain ⟨hlt, hfree, -⟩ := firstFit_eq_some.mp h
    refine ⟨?_, hlt⟩
    rcases Nat.eq_zero_or_pos b with rfl | hpos
    · simp [isFree, hroot.blockTaken] at hfree
    · exact hpos
  · obtain ⟨-, hpos, hlt⟩ := hs.block (by omega)
    exact h ▸ ⟨hpos, hlt⟩

/-- No other file has its data in the block that a file's write goes to. -/
theorem Inv.blockFor_ne (hs : s.Inv) (h : s.BlockFor j b) (hj : s.IsFile j) (hk : s.IsFile k)
    (hkj : k ≠ j) (hpos : 0 < (s.inodeTable k).iSize) : s.blockOf k ≠ b := by
  intro heq
  rw [BlockFor] at h
  split at h
  · have hfree := (firstFit_eq_some.mp h).2.1
    have htaken := hs.owned k hk hpos
    simp [isFree, heq ▸ htaken] at hfree
  · exact hkj (hs.blockInj k j hk hj hpos (by omega) (heq.trans h.symm))

/-! ### Each change keeps the invariant -/

theorem Inv.setOffset (hs : s.Inv) (hoff : off ≤ s.dataSize) : (s.setOffset f off).Inv where
  range := hs.range
  root := ⟨hs.root.inode, hs.root.block, hs.root.taken, hs.root.isDir, hs.root.size,
    hs.root.atZero, hs.root.blockTaken⟩
  dir := hs.dir
  entry := hs.entry
  entryInj := hs.entryInj
  listed := hs.listed
  isFile := hs.isFile
  sane := hs.sane
  handle := by
    intro f' hf'
    obtain ⟨j, hj, hrest⟩ := hs.handle f' hf'
    refine ⟨j, ?_, hrest⟩
    by_cases hff : f' = f
    · subst hff
      simpa [TfsState.setOffset] using hj
    · simpa [TfsState.setOffset, hff] using hj
  offset := by
    intro f' hf'
    by_cases hff : f' = f
    · subst hff
      simpa [TfsState.setOffset, dataSize] using hoff
    · simpa [TfsState.setOffset, dataSize, hff] using hs.offset f' hf'
  owned := hs.owned
  blockInj := hs.blockInj

theorem Inv.closeHandle (hs : s.Inv) : (s.closeHandle f).Inv where
  range := hs.range
  root := ⟨hs.root.inode, hs.root.block, hs.root.taken, hs.root.isDir, hs.root.size,
    hs.root.atZero, hs.root.blockTaken⟩
  dir := hs.dir
  entry := hs.entry
  entryInj := hs.entryInj
  listed := hs.listed
  isFile := hs.isFile
  sane := hs.sane
  handle := by
    rintro f' ⟨hlt, htaken⟩
    have hff : f' ≠ f := by
      rintro rfl
      simp [TfsState.closeHandle] at htaken
    simp only [TfsState.closeHandle, Function.update_of_ne hff] at htaken
    exact hs.handle f' ⟨hlt, htaken⟩
  offset := by
    rintro f' ⟨hlt, htaken⟩
    have hff : f' ≠ f := by
      rintro rfl
      simp [TfsState.closeHandle] at htaken
    simp only [TfsState.closeHandle, Function.update_of_ne hff] at htaken
    exact hs.offset f' ⟨hlt, htaken⟩
  owned := hs.owned
  blockInj := hs.blockInj

theorem Inv.openHandle (hs : s.Inv) (hj : s.IsFile j) (hoff : off ≤ s.dataSize) :
    (s.openHandle f j off).Inv where
  range := hs.range
  root := ⟨hs.root.inode, hs.root.block, hs.root.taken, hs.root.isDir, hs.root.size,
    hs.root.atZero, hs.root.blockTaken⟩
  dir := hs.dir
  entry := hs.entry
  entryInj := hs.entryInj
  listed := hs.listed
  isFile := hs.isFile
  sane := hs.sane
  handle := by
    rintro f' ⟨hlt, htaken⟩
    by_cases hff : f' = f
    · subst hff
      exact ⟨j, by simp [TfsState.openHandle], hj.1, hj.2.1, hs.sane j hj⟩
    · simp only [TfsState.openHandle, Function.update_of_ne hff] at htaken ⊢
      exact hs.handle f' ⟨hlt, htaken⟩
  offset := by
    rintro f' ⟨hlt, htaken⟩
    by_cases hff : f' = f
    · subst hff
      simpa [TfsState.openHandle, dataSize] using hoff
    · simp only [TfsState.openHandle, Function.update_of_ne hff] at htaken ⊢
      exact hs.offset f' ⟨hlt, htaken⟩
  owned := hs.owned
  blockInj := hs.blockInj

/-- Giving up the data of a file frees no other file's block. -/
theorem Inv.releaseBlock_blockOf (hs : s.Inv) (hj : s.IsFile j) (hk : s.IsFile k) (hkj : k ≠ j)
    (hpos : 0 < (s.inodeTable k).iSize) : s.releaseBlock j (s.blockOf k) = .taken := by
  rw [releaseBlock]
  split
  case isTrue hj0 =>
    have hne : s.blockOf k ≠ s.blockOf j := fun h => hkj (hs.blockInj k j hk hj hpos hj0 h)
    rw [Function.update_of_ne hne]
    exact hs.owned k hk hpos
  case isFalse => exact hs.owned k hk hpos

theorem Inv.releaseBlock_zero (hs : s.Inv) (hj : s.IsFile j) : s.releaseBlock j 0 = .taken := by
  rw [releaseBlock]
  split
  case isTrue hj0 =>
    rw [Function.update_of_ne ((hs.sane j hj).block hj0).2.1.ne]
    exact hs.root.blockTaken
  case isFalse => exact hs.root.blockTaken

theorem truncate_inode_ne (h : k ≠ j) : (s.truncate j).inodeTable k = s.inodeTable k := by
  simp [TfsState.truncate, h]

theorem truncate_inode : (s.truncate j).inodeTable j = { s.inodeTable j with iSize := 0 } := by
  simp [TfsState.truncate]

theorem truncate_blockOf : (s.truncate j).blockOf k = s.blockOf k := by
  by_cases h : k = j
  · subst h
    simp [blockOf, truncate_inode]
  · simp [blockOf, truncate_inode_ne h]

theorem Sane.truncate (h : s.Sane k) : (s.truncate j).Sane k := by
  by_cases hkj : k = j
  · subst hkj
    refine ⟨by simp [truncate_inode], ?_⟩
    rw [truncate_inode]
    exact h.2.imp (fun h => ⟨h.1, rfl⟩) id
  · rw [Sane, truncate_inode_ne hkj]
    exact h

theorem Inv.truncate (hs : s.Inv) (hj : s.IsFile j) : (s.truncate j).Inv := by
  -- A file with data after the truncation is another file, with the data it had.
  have hsize : ∀ k, 0 < ((s.truncate j).inodeTable k).iSize →
      k ≠ j ∧ 0 < (s.inodeTable k).iSize := by
    intro k hk
    have hkj : k ≠ j := by
      rintro rfl
      simp [truncate_inode] at hk
    exact ⟨hkj, truncate_inode_ne hkj ▸ hk⟩
  have h0 : (s.truncate j).inodeTable 0 = s.inodeTable 0 := truncate_inode_ne hj.1.ne
  exact
    { range := hs.range
      root := ⟨hs.root.inode, hs.root.block, hs.root.taken, h0 ▸ hs.root.isDir,
        h0 ▸ hs.root.size, h0 ▸ hs.root.atZero, hs.releaseBlock_zero hj⟩
      dir := hs.dir
      entry := hs.entry
      entryInj := hs.entryInj
      listed := hs.listed
      isFile := by
        intro k hk
        by_cases hkj : k = j
        · subst hkj
          rw [truncate_inode]
          exact hs.isFile k hk
        · rw [truncate_inode_ne hkj]
          exact hs.isFile k hk
      sane := fun k hk => (hs.sane k hk).truncate
      handle := by
        intro f' hf'
        obtain ⟨k, hk, h0, hlt, hks⟩ := hs.handle f' hf'
        exact ⟨k, hk, h0, hlt, hks.truncate⟩
      offset := hs.offset
      owned := by
        intro k hk hpos
        obtain ⟨hkj, hk0⟩ := hsize k hpos
        rw [truncate_blockOf]
        exact hs.releaseBlock_blockOf hj hk hkj hk0
      blockInj := by
        intro k l hk hl hk0 hl0 hkl
        rw [truncate_blockOf, truncate_blockOf] at hkl
        exact hs.blockInj k l hk hl (hsize k hk0).2 (hsize l hl0).2 hkl }

theorem resetInode_inode_ne (h : l ≠ k) : (s.resetInode k).inodeTable l = s.inodeTable l := by
  simp [TfsState.resetInode, setInode, h]

theorem resetInode_inode : (s.resetInode k).inodeTable k = ⟨.tFile, 0, -1⟩ := by
  simp [TfsState.resetInode, setInode]

theorem Sane.resetInode (h : s.Sane l) : (s.resetInode k).Sane l := by
  by_cases hlk : l = k
  · subst hlk
    rw [Sane, resetInode_inode]
    exact ⟨Nat.zero_le _, Or.inl ⟨rfl, rfl⟩⟩
  · rw [Sane, resetInode_inode_ne hlk]
    exact h

theorem IsFile.ne_of_free (hl : s.IsFile l) (hk : s.freeinodeTs k = .free) : l ≠ k := by
  rintro rfl
  rw [hl.2.2] at hk
  cases hk

/-- Resetting an inode that is not taken: the handles that still point to it
find an empty file. -/
theorem Inv.resetInode (hs : s.Inv) (hk0 : 0 < k) (hk : s.freeinodeTs k = .free) :
    (s.resetInode k).Inv := by
  have hinode : ∀ l, s.IsFile l → (s.resetInode k).inodeTable l = s.inodeTable l := fun l hl =>
    resetInode_inode_ne (hl.ne_of_free hk)
  have h0 : (s.resetInode k).inodeTable 0 = s.inodeTable 0 := resetInode_inode_ne hk0.ne
  exact
    { range := hs.range
      root := ⟨hs.root.inode, hs.root.block, hs.root.taken, h0 ▸ hs.root.isDir,
        h0 ▸ hs.root.size, h0 ▸ hs.root.atZero, hs.root.blockTaken⟩
      dir := hs.dir
      entry := hs.entry
      entryInj := hs.entryInj
      listed := hs.listed
      isFile := fun l hl => (hinode l hl).symm ▸ hs.isFile l hl
      sane := fun l hl => (hs.sane l hl).resetInode
      handle := by
        intro f' hf'
        obtain ⟨l, hl, h0, hlt, hls⟩ := hs.handle f' hf'
        exact ⟨l, hl, h0, hlt, hls.resetInode⟩
      offset := hs.offset
      owned := by
        intro l hl hpos
        rw [hinode l hl] at hpos
        rw [blockOf, hinode l hl]
        exact hs.owned l hl hpos
      blockInj := by
        intro l l' hl hl' hpos hpos' heq
        rw [hinode l hl] at hpos
        rw [hinode l' hl'] at hpos'
        rw [blockOf, blockOf, hinode l hl, hinode l' hl'] at heq
        exact hs.blockInj l l' hl hl' hpos hpos' heq }

/-- A new file, in the first inode and the first entry not in use. -/
theorem Inv.createFile (hs : s.Inv)
    (hk : firstFit (isFree s.freeinodeTs) s.fsParams.maxInodeCount = some k)
    (hi : firstFit (fun i => dInumber s.fsData 0 i == -1) s.maxDirEntries = some i)
    (hq1 : 1 ≤ q.strlen) (hq : q.strlen < maxFileName) (hnew : ∀ j, ¬ s.HasFile q j) :
    (s.createFile k i q).Inv := by
  obtain ⟨hkn, hkfree, -⟩ := firstFit_eq_some.mp hk
  obtain ⟨hin, hidead, hifirst⟩ := firstFit_eq_some.mp hi
  have hkfree' : s.freeinodeTs k = .free := by simpa [isFree] using hkfree
  have hk0 : 0 < k := by
    rcases Nat.eq_zero_or_pos k with rfl | hpos
    · rw [hs.root.taken] at hkfree'
      cases hkfree'
    · exact hpos
  have hk31 : (k : Int) < 2 ^ 31 := by
    have := hs.range.inodes
    omega
  have hr := hs.resetInode hk0 hkfree'
  have hold : ∀ l, l ≠ k → ((s.createFile k i q).IsFile l ↔ s.IsFile l) := by
    intro l hl
    simp [IsFile, TfsState.createFile, TfsState.resetInode, setInode, hl]
  have hnewFile : (s.createFile k i q).IsFile k := ⟨hk0, hkn, by simp [TfsState.createFile]⟩
  have hentry : ∀ e, e ≠ i → dInumber (addEntry s.fsData 0 i q k) 0 e = dInumber s.fsData 0 e :=
    fun e he => dInumber_of_onlyEntry onlyEntry_addEntry he
  have hentryi : dInumber (addEntry s.fsData 0 i q k) 0 i = k := dInumber_addEntry (by omega) hk31
  -- No old entry has the new inumber.
  have hfreshInum : ∀ e < s.maxDirEntries, dInumber s.fsData 0 e ≠ k := by
    intro e he hek
    obtain ⟨j, hj, hfile⟩ := hs.entry e he (live_of_inumber hek)
    have hjk : j = k := by omega
    exact hfile.ne_of_free hkfree' hjk
  exact
    { range := hs.range
      root := ⟨hs.root.inode, hs.root.block, by simpa [TfsState.createFile, hk0.ne] using hs.root.taken,
        hr.root.isDir, hr.root.size, hr.root.atZero, hs.root.blockTaken⟩
      dir := by
        refine hs.dir.addEntry ?_ (by omega) hk31 hq1 hq ?_
        · intro e he
          simpa [Live] using hifirst e he
        · intro e he hl hn
          obtain ⟨j, hj, -⟩ := hs.entry e he hl
          exact hnew j ⟨e, he, hj, hn⟩
      entry := by
        intro e he hl
        by_cases hei : e = i
        · subst hei
          exact ⟨k, hentryi, hnewFile⟩
        · have hl' : Live s.fsData 0 e := fun hd => hl ((hentry e hei).trans hd)
          obtain ⟨j, hj, hfile⟩ := hs.entry e he hl'
          exact ⟨j, (hentry e hei).trans hj, (hold j (hfile.ne_of_free hkfree')).mpr hfile⟩
      entryInj := by
        intro e he e' he' hl heq
        by_cases hei : e = i
        · by_cases hei' : e' = i
          · rw [hei, hei']
          · subst hei
            exact absurd ((hentry e' hei').symm.trans (heq.symm.trans hentryi)) (hfreshInum e' he')
        · by_cases hei' : e' = i
          · subst hei'
            exact absurd ((hentry e hei).symm.trans (heq.trans hentryi)) (hfreshInum e he)
          · have hl' : Live s.fsData 0 e := fun hd => hl ((hentry e hei).trans hd)
            exact hs.entryInj e he e' he' hl'
              ((hentry e hei).symm.trans (heq.trans (hentry e' hei')))
      listed := by
        intro j hj
        by_cases hjk : j = k
        · subst hjk
          exact ⟨i, hin, hentryi⟩
        · obtain ⟨e, he, hej⟩ := hs.listed j ((hold j hjk).mp hj)
          have hei : e ≠ i := by
            rintro rfl
            have hd : dInumber s.fsData 0 e = -1 := by simpa using hidead
            omega
          exact ⟨e, he, (hentry e hei).trans hej⟩
      isFile := by
        intro j hj
        by_cases hjk : j = k
        · subst hjk
          exact congrArg Inode.iNodeType resetInode_inode
        · exact hr.isFile j ((hold j hjk).mp hj)
      sane := by
        intro j hj
        by_cases hjk : j = k
        · subst hjk
          have h : (s.resetInode j).Sane j := by
            rw [Sane, resetInode_inode]
            exact ⟨Nat.zero_le _, Or.inl ⟨rfl, rfl⟩⟩
          exact h
        · exact hr.sane j ((hold j hjk).mp hj)
      handle := hr.handle
      offset := hs.offset
      owned := by
        intro j hj hpos
        have hjk : j ≠ k := by
          rintro rfl
          have hz : ((s.createFile j i q).inodeTable j).iSize = 0 :=
            congrArg Inode.iSize resetInode_inode
          omega
        exact hr.owned j ((hold j hjk).mp hj) hpos
      blockInj := by
        have hne : ∀ j, 0 < ((s.createFile k i q).inodeTable j).iSize → j ≠ k := by
          rintro j hpos rfl
          have hz : ((s.createFile j i q).inodeTable j).iSize = 0 :=
            congrArg Inode.iSize resetInode_inode
          omega
        intro j j' hj hj' hpos hpos' heq
        exact hr.blockInj j j' ((hold j (hne j hpos)).mp hj) ((hold j' (hne j' hpos')).mp hj')
          hpos hpos' heq }

theorem isFile_removeFile : (s.removeFile j i).IsFile k ↔ s.IsFile k ∧ k ≠ j := by
  by_cases h : k = j
  · simp [IsFile, TfsState.removeFile, h]
  · simp [IsFile, TfsState.removeFile, h]

/-- Removing a file and the entry that lists it. -/
theorem Inv.removeFile (hs : s.Inv) (hj : s.IsFile j) (hin : i < s.maxDirEntries)
    (hij : dInumber s.fsData 0 i = j) : (s.removeFile j i).Inv := by
  have hold : ∀ {k}, (s.removeFile j i).IsFile k → s.IsFile k := fun hk =>
    (isFile_removeFile.mp hk).1
  have hentryi : dInumber (clearEntry s.fsData 0 i) 0 i = -1 := dInumber_clearEntry
  have hentry : ∀ e, e ≠ i → dInumber (clearEntry s.fsData 0 i) 0 e = dInumber s.fsData 0 e :=
    fun e he => dInumber_of_onlyEntry onlyEntry_clearEntry he
  have hlive : ∀ e, Live (clearEntry s.fsData 0 i) 0 e → e ≠ i ∧ Live s.fsData 0 e := by
    intro e hl
    have hei : e ≠ i := by
      rintro rfl
      exact hl hentryi
    exact ⟨hei, fun hd => hl ((hentry e hei).trans hd)⟩
  exact
    { range := hs.range
      root := ⟨hs.root.inode, hs.root.block, by simpa [TfsState.removeFile, hj.1.ne] using hs.root.taken,
        hs.root.isDir, hs.root.size, hs.root.atZero, hs.releaseBlock_zero hj⟩
      dir := hs.dir.clearEntry
      entry := by
        intro e he hl
        obtain ⟨hei, hl'⟩ := hlive e hl
        obtain ⟨k, hk, hfile⟩ := hs.entry e he hl'
        refine ⟨k, (hentry e hei).trans hk, isFile_removeFile.mpr ⟨hfile, ?_⟩⟩
        rintro rfl
        exact hei (hs.entryInj e he i hin hl' (hk.trans hij.symm))
      entryInj := by
        intro e he e' he' hl heq
        obtain ⟨hei, hl'⟩ := hlive e hl
        have hei' : e' ≠ i := by
          rintro rfl
          exact hl (heq.trans hentryi)
        exact hs.entryInj e he e' he' hl'
          ((hentry e hei).symm.trans (heq.trans (hentry e' hei')))
      listed := by
        intro k hk
        obtain ⟨hfile, hkj⟩ := isFile_removeFile.mp hk
        obtain ⟨e, he, hek⟩ := hs.listed k hfile
        have hei : e ≠ i := by
          rintro rfl
          omega
        exact ⟨e, he, (hentry e hei).trans hek⟩
      isFile := fun k hk => hs.isFile k (hold hk)
      sane := fun k hk => hs.sane k (hold hk)
      handle := hs.handle
      offset := hs.offset
      owned := by
        intro k hk hpos
        obtain ⟨hfile, hkj⟩ := isFile_removeFile.mp hk
        exact hs.releaseBlock_blockOf hj hfile hkj hpos
      blockInj := fun k l hk hl => hs.blockInj k l (hold hk) (hold hl) }

theorem writeBlock_inode_ne {data : List UInt8} (h : k ≠ j) :
    (s.writeBlock j b off data).inodeTable k = s.inodeTable k := by
  simp [TfsState.writeBlock, h]

theorem writeBlock_inode {data : List UInt8} : (s.writeBlock j b off data).inodeTable j =
    { s.inodeTable j with iDataBlock := b, iSize := max (s.inodeTable j).iSize (off + data.length) } := by
  simp [TfsState.writeBlock]

theorem writeBlock_blockOf {data : List UInt8} : (s.writeBlock j b off data).blockOf j = b := by
  simp [blockOf, writeBlock_inode]

/-- A write takes at most one more block. -/
theorem writeBlock_taken {data : List UInt8} {c : Nat} (h : s.freeBlocks c = .taken) :
    (s.writeBlock j b off data).freeBlocks c = .taken := by
  by_cases hcb : c = b
  · subst hcb
    simp [TfsState.writeBlock, h]
  · simpa [TfsState.writeBlock, hcb] using h

/-- A write through an open handle, whether or not the inode it points to is
still that of a file. -/
theorem Inv.writeBlock {data : List UInt8} (hs : s.Inv) (hj0 : 0 < j) (hj : s.Sane j)
    (hb : s.BlockFor j b) (hfit : off + data.length ≤ s.fsParams.blockSize) :
    (s.writeBlock j b off data).Inv := by
  obtain ⟨hb0, hbn⟩ := hb.bounds hj hs.root
  have hsane : ∀ k, s.Sane k → (s.writeBlock j b off data).Sane k := by
    intro k hk
    by_cases hkj : k = j
    · subst hkj
      rw [Sane, writeBlock_inode]
      exact ⟨max_le hk.1 hfit, Or.inr ⟨b, rfl, hb0, hbn⟩⟩
    · rw [Sane, writeBlock_inode_ne hkj]
      exact hk
  have hdir := s.agreeOn_dir off data hb0
  have hentry : ∀ e < s.maxDirEntries,
      dInumber (s.writeBlock j b off data).fsData 0 e = dInumber s.fsData 0 e :=
    fun e he => dInumber_congr (entry_agreeOn hdir he)
  have hlive : ∀ e < s.maxDirEntries,
      Live (s.writeBlock j b off data).fsData 0 e → Live s.fsData 0 e :=
    fun e he hl hd => hl ((hentry e he).trans hd)
  have h0 : (s.writeBlock j b off data).inodeTable 0 = s.inodeTable 0 := writeBlock_inode_ne hj0.ne
  exact
    { range := hs.range
      root := ⟨hs.root.inode, hs.root.block, hs.root.taken, h0 ▸ hs.root.isDir,
        h0 ▸ hs.root.size, h0 ▸ hs.root.atZero, writeBlock_taken hs.root.blockTaken⟩
      dir := hs.dir.congr hdir
      entry := by
        intro e he hl
        obtain ⟨k, hk, hfile⟩ := hs.entry e he (hlive e he hl)
        exact ⟨k, (hentry e he).trans hk, hfile⟩
      entryInj := fun e he e' he' hl heq => hs.entryInj e he e' he' (hlive e he hl)
        ((hentry e he).symm.trans (heq.trans (hentry e' he')))
      listed := by
        intro k hk
        obtain ⟨e, he, hek⟩ := hs.listed k hk
        exact ⟨e, he, (hentry e he).trans hek⟩
      isFile := by
        intro k hk
        by_cases hkj : k = j
        · subst hkj
          rw [writeBlock_inode]
          exact hs.isFile k hk
        · rw [writeBlock_inode_ne hkj]
          exact hs.isFile k hk
      sane := fun k hk => hsane k (hs.sane k hk)
      handle := by
        intro f' hf'
        obtain ⟨k, hk, hk0, hlt, hks⟩ := hs.handle f' hf'
        exact ⟨k, hk, hk0, hlt, hsane k hks⟩
      offset := hs.offset
      owned := by
        intro k hk hpos
        by_cases hkj : k = j
        · subst hkj
          rw [writeBlock_blockOf]
          -- The block is newly taken, or was the file's already.
          by_cases hz : (s.inodeTable k).iSize = 0
          · simp [TfsState.writeBlock, hz]
          · rw [BlockFor, if_neg hz] at hb
            subst hb
            exact writeBlock_taken (hs.owned k hk (by omega))
        · rw [writeBlock_inode_ne hkj] at hpos
          rw [blockOf, writeBlock_inode_ne hkj]
          exact writeBlock_taken (hs.owned k hk hpos)
      blockInj := by
        have hne : ∀ k, s.IsFile k → s.IsFile j → k ≠ j →
            0 < ((s.writeBlock j b off data).inodeTable k).iSize →
            (s.writeBlock j b off data).blockOf k ≠ b := by
          intro k hk hjf hkj hpos
          rw [writeBlock_inode_ne hkj] at hpos
          rw [blockOf, writeBlock_inode_ne hkj]
          exact hs.blockFor_ne hb hjf hk hkj hpos
        intro k l hk hl hpos hpos' heq
        by_cases hkj : k = j
        · by_cases hlj : l = j
          · rw [hkj, hlj]
          · subst hkj
            rw [writeBlock_blockOf] at heq
            exact absurd heq.symm (hne l hl hk hlj hpos')
        · by_cases hlj : l = j
          · subst hlj
            rw [writeBlock_blockOf] at heq
            exact absurd heq (hne k hk hl hkj hpos)
          · rw [writeBlock_inode_ne hkj] at hpos
            rw [writeBlock_inode_ne hlj] at hpos'
            rw [blockOf, blockOf, writeBlock_inode_ne hkj, writeBlock_inode_ne hlj] at heq
            exact hs.blockInj k l hk hl hpos hpos' heq }

end TfsState

end Tfs
