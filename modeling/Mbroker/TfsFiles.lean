/-
The files of a TécnicoFS state, and what each change of the state does to them.

A file is a name in the directory (`HasFile`) with the bytes that its inode's
size and block give it (`contents`).  For every change that an operation makes
there are two facts: what becomes of the names, and what becomes of the
contents of each file.
-/
import Mbroker.TfsSpec

namespace Tfs

open Memory SlotTable

namespace TfsState

variable {s : TfsState} {i j k l f b off : Nat} {q p : CString} {data : List UInt8}

/-- The bytes of the file `q`. -/
def readFile (s : TfsState) (q : CString) : Option (List UInt8) :=
  match findInDir 0 q s with
  | .ok inum => if 0 ≤ inum then some (s.contents inum.toNat) else none
  | _ => none

theorem Inv.readFile_of_hasFile (hs : s.Inv) (h : s.HasFile q j) :
    s.readFile q = some (s.contents j) := by
  rcases hs.findInDir_spec q with ⟨j', hj', hfind⟩ | ⟨hno, -⟩
  · obtain rfl := hs.hasFile_inode h hj'
    rw [readFile, hfind]
    simp
  · exact absurd h (hno j)

theorem Inv.readFile_eq_none (hs : s.Inv) : s.readFile q = none ↔ ∀ j, ¬ s.HasFile q j := by
  rcases hs.findInDir_spec q with ⟨j, hj, hfind⟩ | ⟨hno, hfind⟩
  · rw [hs.readFile_of_hasFile hj]
    simp only [reduceCtorEq, false_iff, not_forall, not_not]
    exact ⟨j, hj⟩
  · rw [readFile, hfind]
    simp [hno]

theorem Inv.readFile_eq_some (hs : s.Inv) {bs : List UInt8} :
    s.readFile q = some bs ↔ ∃ j, s.HasFile q j ∧ s.contents j = bs := by
  constructor
  · intro h
    by_cases hno : ∀ j, ¬ s.HasFile q j
    · rw [hs.readFile_eq_none.mpr hno] at h
      cases h
    · push Not at hno
      obtain ⟨j, hj⟩ := hno
      rw [hs.readFile_of_hasFile hj] at h
      exact ⟨j, hj, Option.some.inj h⟩
  · rintro ⟨j, hj, rfl⟩
    exact hs.readFile_of_hasFile hj

/-- Two states with the same names and the same contents of every file. -/
theorem readFile_congr {s' : TfsState} (hs : s.Inv) (hs' : s'.Inv)
    (hname : ∀ j, s'.HasFile q j ↔ s.HasFile q j)
    (hcont : ∀ j, s.HasFile q j → s'.contents j = s.contents j) : s'.readFile q = s.readFile q := by
  by_cases hno : ∀ j, ¬ s.HasFile q j
  · rw [hs.readFile_eq_none.mpr hno, hs'.readFile_eq_none]
    exact fun j hj => hno j ((hname j).mp hj)
  · push Not at hno
    obtain ⟨j, hj⟩ := hno
    rw [hs.readFile_of_hasFile hj, hs'.readFile_of_hasFile ((hname j).mpr hj), hcont j hj]

@[simp] theorem length_contents : (s.contents j).length = (s.inodeTable j).iSize := by
  simp [contents]

theorem contents_of_empty (h : (s.inodeTable j).iSize = 0) : s.contents j = [] := by
  simp [contents, h]

/-! ### The table of open files -/

@[simp] theorem hasFile_setOffset : (s.setOffset f off).HasFile q j ↔ s.HasFile q j := Iff.rfl

@[simp] theorem contents_setOffset : (s.setOffset f off).contents j = s.contents j := rfl

@[simp] theorem ofInumber_setOffset :
    ((s.setOffset f off).openFileTable k).ofInumber = (s.openFileTable k).ofInumber := by
  by_cases h : k = f
  · subst h
    simp [TfsState.setOffset]
  · simp [TfsState.setOffset, h]

@[simp] theorem hasFile_openHandle : (s.openHandle f k off).HasFile q j ↔ s.HasFile q j := Iff.rfl

@[simp] theorem contents_openHandle : (s.openHandle f k off).contents j = s.contents j := rfl

@[simp] theorem hasFile_closeHandle : (s.closeHandle f).HasFile q j ↔ s.HasFile q j := Iff.rfl

@[simp] theorem contents_closeHandle : (s.closeHandle f).contents j = s.contents j := rfl

/-! ### Inodes -/

@[simp] theorem hasFile_truncate : (s.truncate k).HasFile q j ↔ s.HasFile q j := Iff.rfl

theorem contents_truncate : (s.truncate j).contents j = [] :=
  contents_of_empty (by rw [truncate_inode])

theorem contents_truncate_ne (h : k ≠ j) : (s.truncate j).contents k = s.contents k := by
  rw [contents, contents, truncate_blockOf, truncate_inode_ne h]
  rfl

@[simp] theorem hasFile_resetInode : (s.resetInode k).HasFile q j ↔ s.HasFile q j := Iff.rfl

theorem contents_resetInode_ne (h : l ≠ k) : (s.resetInode k).contents l = s.contents l := by
  rw [contents, contents, blockOf, blockOf, resetInode_inode_ne h]
  rfl

/-! ### The directory -/

/-- A change of one directory entry is outside every file's block. -/
theorem Inv.contents_onlyEntry {m : Memory} (hs : s.Inv) (hk : s.IsFile k)
    (hm : OnlyEntry s.fsData m 0 i) (hi : i < s.maxDirEntries) :
    load m (s.blockOf k * s.fsParams.blockSize) (s.inodeTable k).iSize = s.contents k := by
  rcases Nat.eq_zero_or_pos (s.inodeTable k).iSize with hz | hpos
  · simp [contents, hz]
  · obtain ⟨-, hb0, hbn⟩ := (hs.sane k hk).block hpos
    have hbounds := s.block_bounds hb0 hbn
    have hdir := s.dirSize_le
    refine load_congr fun x hx _ => hm x (Or.inr ?_)
    simp only [entryAddr, sizeofDirEntry, maxFileName] at *
    omega

theorem contents_createFile : (s.createFile k i q).contents k = [] :=
  contents_of_empty (congrArg Inode.iSize resetInode_inode)

theorem Inv.contents_createFile_ne (hs : s.Inv) (hl : s.IsFile l) (hlk : l ≠ k)
    (hi : i < s.maxDirEntries) : (s.createFile k i q).contents l = s.contents l := by
  have hinode : (s.createFile k i q).inodeTable l = s.inodeTable l := resetInode_inode_ne hlk
  rw [contents, blockOf, hinode]
  exact hs.contents_onlyEntry hl onlyEntry_addEntry hi

theorem Inv.contents_removeFile (hs : s.Inv) (hl : s.IsFile l) (hi : i < s.maxDirEntries) :
    (s.removeFile j i).contents l = s.contents l :=
  hs.contents_onlyEntry hl onlyEntry_clearEntry hi

/-- The names after a file has been created. -/
theorem Inv.hasFile_createFile (hs : s.Inv)
    (hk : firstFit (isFree s.freeinodeTs) s.fsParams.maxInodeCount = some k)
    (hi : firstFit (fun i => dInumber s.fsData 0 i == -1) s.maxDirEntries = some i)
    (hq : q.strlen < maxFileName) :
    (s.createFile k i q).HasFile p j ↔ s.HasFile p j ∨ p = q ∧ j = k := by
  obtain ⟨hkn, -⟩ := free_of_firstFit hk
  have hk31 : (k : Int) < 2 ^ 31 := by
    have := hs.range.inodes
    omega
  obtain ⟨hin, hdead, -⟩ := firstFit_eq_some.mp hi
  have hentryi : dInumber (addEntry s.fsData 0 i q k) 0 i = k := dInumber_addEntry (by omega) hk31
  constructor
  · rintro ⟨e, he, hej, hn⟩
    by_cases hei : e = i
    · subst hei
      refine Or.inr ⟨hn.unique (nameIs_addEntry hq), ?_⟩
      have := hej.symm.trans hentryi
      omega
    · have hsame : dInumber s.fsData 0 e = j :=
        (dInumber_of_onlyEntry onlyEntry_addEntry hei).symm.trans hej
      exact Or.inl ⟨e, he, hsame, (hs.dir.name_congr he (live_of_inumber hsame)
        (onlyEntry_addEntry.agreeOn hei)).mp hn⟩
  · rintro (⟨e, he, hej, hn⟩ | ⟨rfl, rfl⟩)
    · have hei : e ≠ i := by
        rintro rfl
        have hd : dInumber s.fsData 0 e = -1 := by simpa using hdead
        omega
      exact ⟨e, he, (dInumber_of_onlyEntry onlyEntry_addEntry hei).trans hej,
        (hs.dir.name_congr he (live_of_inumber hej) (onlyEntry_addEntry.agreeOn hei)).mpr hn⟩
    · exact ⟨i, hin, hentryi, nameIs_addEntry hq⟩

/-- The names after a file has been removed. -/
theorem Inv.hasFile_removeFile (hs : s.Inv) (hi : i < s.maxDirEntries)
    (hij : dInumber s.fsData 0 i = j) :
    (s.removeFile j i).HasFile p k ↔ s.HasFile p k ∧ k ≠ j := by
  have hentryi : dInumber (clearEntry s.fsData 0 i) 0 i = -1 := dInumber_clearEntry
  constructor
  · rintro ⟨e, he, hek, hn⟩
    have hei : e ≠ i := by
      rintro rfl
      have := hek.symm.trans hentryi
      omega
    have hsame : dInumber s.fsData 0 e = k :=
      (dInumber_of_onlyEntry onlyEntry_clearEntry hei).symm.trans hek
    refine ⟨⟨e, he, hsame, (hs.dir.name_congr he (live_of_inumber hsame)
      (onlyEntry_clearEntry.agreeOn hei)).mp hn⟩, ?_⟩
    rintro rfl
    exact hei (hs.entryInj e he i hi (live_of_inumber hsame) (hsame.trans hij.symm))
  · rintro ⟨⟨e, he, hek, hn⟩, hkj⟩
    have hei : e ≠ i := by
      rintro rfl
      omega
    exact ⟨e, he, (dInumber_of_onlyEntry onlyEntry_clearEntry hei).trans hek,
      (hs.dir.name_congr he (live_of_inumber hek) (onlyEntry_clearEntry.agreeOn hei)).mpr hn⟩

/-! ### Writing -/

theorem Inv.hasFile_writeBlock (hs : s.Inv) (j off : Nat) (data : List UInt8) (hb0 : 0 < b) :
    (s.writeBlock j b off data).HasFile p k ↔ s.HasFile p k := by
  have hdir := s.agreeOn_dir off data hb0
  have hentry : ∀ e < s.maxDirEntries,
      dInumber (s.writeBlock j b off data).fsData 0 e = dInumber s.fsData 0 e :=
    fun e he => dInumber_congr (entry_agreeOn hdir he)
  constructor
  · rintro ⟨e, he, hek, hn⟩
    have hsame := (hentry e he).symm.trans hek
    exact ⟨e, he, hsame,
      (hs.dir.name_congr he (live_of_inumber hsame) (entry_agreeOn hdir he)).mp hn⟩
  · rintro ⟨e, he, hek, hn⟩
    exact ⟨e, he, (hentry e he).trans hek,
      (hs.dir.name_congr he (live_of_inumber hek) (entry_agreeOn hdir he)).mpr hn⟩

/-- The contents of a file after a write of it that leaves no gap. -/
theorem contents_writeBlock (hb : s.BlockFor j b) (hoff : off ≤ (s.inodeTable j).iSize) :
    (s.writeBlock j b off data).contents j = overwrite (s.contents j) off data := by
  rw [contents, writeBlock_blockOf, writeBlock_inode]
  have hload : load s.fsData (b * s.fsParams.blockSize) (s.inodeTable j).iSize = s.contents j := by
    rw [BlockFor] at hb
    split at hb
    case isTrue hz => simp [contents, hz]
    case isFalse => rw [contents, hb]
  rw [← hload]
  exact load_store_within _ _ _ hoff

/-- What is stored in block `b` beyond the data of a file, or of another block,
is not the file's. -/
theorem Inv.contents_writeBlock_ne (hs : s.Inv) (hk : s.IsFile k) (hkj : k ≠ j)
    (hfit : off + data.length ≤ s.fsParams.blockSize)
    (h : s.blockOf k = b → (s.inodeTable k).iSize ≤ off) :
    (s.writeBlock j b off data).contents k = s.contents k := by
  rw [contents, blockOf, writeBlock_inode_ne hkj]
  refine load_store_disjoint ?_
  have hsize := (hs.sane k hk).1
  rw [← blockOf]
  by_cases hb : s.blockOf k = b
  · have := h hb
    subst hb
    left
    show s.blockOf k * s.fsParams.blockSize + _ ≤ _
    omega
  · have := s.block_disjoint hb
    show s.blockOf k * s.fsParams.blockSize + _ ≤ _ ∨ _ ≤ s.blockOf k * s.fsParams.blockSize
    omega

end TfsState

end Tfs
