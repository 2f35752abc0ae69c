/-
TécnicoFS refines the abstract file system.

`Sim` ties the six tables to a `FileStore`: the names and contents of the files
are those of the directory, an open handle is one of a file that is there, at an
offset inside it, and the blocks in use are the root's and those of files with
data.  It is kept by every call that neither truncates nor removes an open file.

* `Sim.roomForFile`, `Sim.roomForData` — the tables are full exactly when the
  counts say so;
* **`tfs_refines_fileStore`** — every reply is the abstract file system's.
-/
import Mbroker.FileStore
import Mbroker.TfsBlocks

namespace Tfs

open Memory SlotTable TfsState

variable {p : TfsParams} {s : TfsState} {a : FileStore p} {q q' : FileName} {f i j k b off : Nat}

/-- Handle `f` is the abstract handle `h`. -/
def HandleIs (s : TfsState) (f : Nat) (h : Handle) : Prop :=
  s.freeOpenFileEntries f = .taken ∧ (s.openFileTable f).ofOffset = h.offset ∧
    ∃ j : Nat, (s.openFileTable f).ofInumber = j ∧ s.HasFile h.name j ∧
      h.offset ≤ (s.inodeTable j).iSize

/-- **The simulation relation.** -/
structure Sim (s : TfsState) (a : FileStore p) : Prop where
  inv : s.Inv
  params : s.fsParams = p
  files : ∀ q : FileName, s.readFile q = (a.files.lookup q).map (·.1)
  handleFree : ∀ f, a.handles f = none → s.freeOpenFileEntries f = .free
  handleOpen : ∀ f h, a.handles f = some h → HandleIs s f h
  blocks : s.Balanced

/-! ### Reading the relation -/

theorem Sim.lookup_of_hasFile (h : Sim s a) {q : CString} (hj : s.HasFile q j) :
    ∃ (q' : FileName) (data : FileData p.blockSize), q'.1 = q ∧ a.files.lookup q' = some data ∧
      data.1 = s.contents j := by
  obtain ⟨h1, h2⟩ := h.inv.strlen_of_hasFile hj
  have hq := h.files ⟨q, h1, Nat.le_of_lt_succ h2⟩
  rw [h.inv.readFile_of_hasFile hj] at hq
  obtain ⟨data, hdata, hbs⟩ := Option.map_eq_some_iff.mp hq.symm
  exact ⟨_, data, rfl, hdata, hbs⟩

theorem Sim.hasFile_of_lookup (h : Sim s a) {data : FileData p.blockSize}
    (hq : a.files.lookup q = some data) : ∃ j, s.HasFile q j ∧ s.contents j = data.1 := by
  have hread := h.files q
  rw [hq] at hread
  exact h.inv.readFile_eq_some.mp hread

theorem Sim.lookup_eq_none (h : Sim s a) : a.files.lookup q = none ↔ ∀ j, ¬ s.HasFile q j := by
  rw [← h.inv.readFile_eq_none, h.files q, Option.map_eq_none_iff]

theorem Sim.file_of_hasFile (h : Sim s a) (hj : s.HasFile q j) : a.file q = s.contents j := by
  obtain ⟨q', data, hq, hdata, hbs⟩ := h.lookup_of_hasFile hj
  obtain rfl := Subtype.ext hq
  rw [FileStore.file, hdata]
  exact hbs

theorem fileName?_eq_some {c : CString} (hv : validPathname c = true) (hq : skipSlash c = q.1) :
    fileName? (some c) = some q := by
  have h : validPathname c = true ∧ (skipSlash c).strlen ≤ 39 := ⟨hv, hq ▸ q.2.2⟩
  simp only [fileName?, Option.bind_some, dif_pos h, Option.some.injEq]
  exact Subtype.ext hq

theorem of_fileName? {path : Option CString} (h : fileName? path = some q) :
    ∃ c, path = some c ∧ validPathname c = true ∧ skipSlash c = q.1 := by
  obtain ⟨c, rfl, hc⟩ := Option.bind_eq_some_iff.mp h
  split at hc
  case isTrue hv => exact ⟨c, rfl, hv.1, congrArg Subtype.val (Option.some.inj hc)⟩
  case isFalse => cases hc

theorem Sim.handle?_eq_none (h : Sim s a) {fhandle : Int} :
    a.handle? fhandle = none ↔ ∀ f : Nat, fhandle = f → ¬ s.IsOpen f := by
  have hparams := h.params
  rw [FileStore.handle?]
  split
  case isTrue hr =>
    rw [Option.map_eq_none_iff]
    constructor
    · rintro hnone f rfl ⟨-, htaken⟩
      have hfree := h.handleFree _ hnone
      simp [htaken] at hfree
    · intro hclosed
      by_contra hsome
      obtain ⟨e, he⟩ := Option.ne_none_iff_exists'.mp hsome
      have hopen := (h.handleOpen _ e he).1
      exact hclosed fhandle.toNat (by omega) ⟨by rw [hparams]; omega, hopen⟩
  case isFalse hr =>
    simp only [true_iff]
    rintro f rfl ⟨hlt, -⟩
    rw [hparams] at hlt
    omega

theorem Sim.handle?_eq_some (h : Sim s a) {fhandle : Int} {f : Fin p.maxOpenFilesCount} {e : Handle}
    (he : a.handle? fhandle = some (f, e)) :
    fhandle = (f : Nat) ∧ a.handles f = some e ∧ s.IsOpen f ∧ HandleIs s f e := by
  rw [FileStore.handle?] at he
  split at he
  case isTrue hr =>
    obtain ⟨e', he', heq⟩ := Option.map_eq_some_iff.mp he
    obtain ⟨rfl, rfl⟩ := Prod.mk.inj heq
    have hh := h.handleOpen _ _ he'
    exact ⟨by simp; omega, he', ⟨by rw [h.params]; simp; omega, hh.1⟩, hh⟩
  case isFalse => cases he

/-! ### Counting -/

theorem firstFit_isFree {t : Nat → AllocationState} {n : Nat} :
    (∃ i, firstFit (isFree t) n = some i) ↔ (used (fun i => !isFree t i) n).card < n := by
  rw [← firstFit_isSome_iff_card]
  simp

theorem mem_used_taken {t : Nat → AllocationState} {n : Nat} :
    i ∈ used (fun i => !isFree t i) n ↔ i < n ∧ t i = .taken := by
  rw [mem_used]
  cases h : t i <;> simp [isFree, h]

/-- One inode is the root's, and the others have a file each. -/
theorem Sim.card_inodes (h : Sim s a) :
    (used (fun i => !isFree s.freeinodeTs i) p.maxInodeCount).card = a.files.keys.card + 1 := by
  have hparams := h.params
  have hroot : 0 ∈ used (fun i => !isFree s.freeinodeTs i) p.maxInodeCount :=
    mem_used_taken.mpr ⟨hparams ▸ h.inv.root.inode, h.inv.root.taken⟩
  rw [← Finset.card_erase_add_one hroot]
  congr 1
  have hmem : ∀ j, j ∈ (used (fun i => !isFree s.freeinodeTs i) p.maxInodeCount).erase 0 ↔
      s.IsFile j := by
    intro j
    rw [Finset.mem_erase, mem_used_taken, IsFile, hparams, Nat.pos_iff_ne_zero]
  refine card_eq_of_matching (fun j (q : FileName) => s.HasFile q j) ?_ ?_
    (fun j q q' hq hq' => Subtype.ext (h.inv.hasFile_name hq hq'))
    fun j j' q hj hj' => h.inv.hasFile_inode hj hj'
  · intro j hj
    obtain ⟨q, hq⟩ := h.inv.exists_name ((hmem j).mp hj)
    obtain ⟨q', data, rfl, hdata, -⟩ := h.lookup_of_hasFile hq
    exact ⟨q', Finmap.mem_keys.mpr (Finmap.mem_of_lookup_eq_some hdata), hq⟩
  · intro q hq
    obtain ⟨data, hdata⟩ := Finmap.mem_iff.mp (Finmap.mem_keys.mp hq)
    obtain ⟨j, hj, -⟩ := h.hasFile_of_lookup hdata
    exact ⟨j, (hmem j).mpr (h.inv.isFile_of_hasFile hj), hj⟩

/-- The live entries of the directory have a file each. -/
theorem Sim.card_entries (h : Sim s a) :
    (used (fun i => !(dInumber s.fsData 0 i == -1)) s.maxDirEntries).card = a.files.keys.card := by
  have hmem : ∀ i, i ∈ used (fun i => !(dInumber s.fsData 0 i == -1)) s.maxDirEntries ↔
      i < s.maxDirEntries ∧ Live s.fsData 0 i := by
    intro i
    simp [mem_used, Live]
  refine card_eq_of_matching (fun i (q : FileName) => i < s.maxDirEntries ∧ Live s.fsData 0 i ∧
      NameIs s.fsData 0 i q) ?_ ?_
    (fun i q q' hq hq' => Subtype.ext (hq.2.2.unique hq'.2.2))
    fun i i' q hi hi' => h.inv.dir.distinct i hi.1 i' hi'.1 q hi.2.1 hi'.2.1 hi.2.2 hi'.2.2
  · intro i hi
    obtain ⟨hlt, hl⟩ := (hmem i).mp hi
    obtain ⟨j, hj, -⟩ := h.inv.entry i hlt hl
    obtain ⟨q, hq, -⟩ := h.inv.dir.named i hlt hl
    obtain ⟨q', data, rfl, hdata, -⟩ := h.lookup_of_hasFile ⟨i, hlt, hj, hq⟩
    exact ⟨q', Finmap.mem_keys.mpr (Finmap.mem_of_lookup_eq_some hdata), hlt, hl, hq⟩
  · intro q hq
    obtain ⟨data, hdata⟩ := Finmap.mem_iff.mp (Finmap.mem_keys.mp hq)
    obtain ⟨j, ⟨i, hlt, hij, hn⟩, -⟩ := h.hasFile_of_lookup hdata
    exact ⟨i, (hmem i).mpr ⟨hlt, live_of_inumber hij⟩, hlt, live_of_inumber hij, hn⟩

/-- One block is the root's, and each of the others that are in use has the data
of a file. -/
theorem Sim.card_blocks (h : Sim s a) :
    (used (fun b => !isFree s.freeBlocks b) p.maxBlockCount).card =
      (a.files.keys.filter fun q => a.file q ≠ []).card + 1 := by
  have hparams := h.params
  have hroot : 0 ∈ used (fun b => !isFree s.freeBlocks b) p.maxBlockCount :=
    mem_used_taken.mpr ⟨hparams ▸ h.inv.root.block, h.inv.root.blockTaken⟩
  rw [← Finset.card_erase_add_one hroot]
  congr 1
  have hpos : ∀ {q : FileName} {j}, s.HasFile q j →
      (a.file q ≠ [] ↔ 0 < (s.inodeTable j).iSize) := by
    intro q j hj
    rw [h.file_of_hasFile hj, ← List.length_pos_iff, length_contents]
  refine card_eq_of_matching (fun b (q : FileName) => ∃ j, s.HasFile q j ∧
    0 < (s.inodeTable j).iSize ∧ s.blockOf j = b) ?_ ?_ ?_ ?_
  · intro b hb
    obtain ⟨hb0, hb⟩ := Finset.mem_erase.mp hb
    obtain ⟨hlt, htaken⟩ := mem_used_taken.mp hb
    obtain ⟨j, hfile, hj, hjb⟩ := (h.blocks b (hparams ▸ hlt) htaken).resolve_left hb0
    obtain ⟨q, hq⟩ := h.inv.exists_name hfile
    obtain ⟨q', data, rfl, hdata, -⟩ := h.lookup_of_hasFile hq
    refine ⟨q', Finset.mem_filter.mpr ⟨?_, (hpos hq).mpr hj⟩, j, hq, hj, hjb⟩
    exact Finmap.mem_keys.mpr (Finmap.mem_of_lookup_eq_some hdata)
  · intro q hq
    obtain ⟨hkey, hne⟩ := Finset.mem_filter.mp hq
    obtain ⟨data, hdata⟩ := Finmap.mem_iff.mp (Finmap.mem_keys.mp hkey)
    obtain ⟨j, hj, -⟩ := h.hasFile_of_lookup hdata
    have hj0 := (hpos hj).mp hne
    have hfile := h.inv.isFile_of_hasFile hj
    obtain ⟨-, hb0, hlt⟩ := (h.inv.sane j hfile).block hj0
    refine ⟨s.blockOf j, Finset.mem_erase.mpr ⟨hb0.ne', ?_⟩, j, hj, hj0, rfl⟩
    exact mem_used_taken.mpr ⟨hparams ▸ hlt, h.inv.owned j hfile hj0⟩
  · rintro b q q' ⟨j, hj, hj0, rfl⟩ ⟨j', hj', hj0', heq⟩
    obtain rfl := h.inv.blockInj j' j (h.inv.isFile_of_hasFile hj') (h.inv.isFile_of_hasFile hj)
      hj0' hj0 heq
    exact Subtype.ext (h.inv.hasFile_name hj hj')
  · rintro b b' q ⟨j, hj, -, rfl⟩ ⟨j', hj', -, rfl⟩
    rw [h.inv.hasFile_inode hj hj']

theorem Sim.roomForFile (h : Sim s a) : a.RoomForFile ↔
    (∃ k, firstFit (isFree s.freeinodeTs) s.fsParams.maxInodeCount = some k) ∧
      ∃ i, firstFit (fun i => dInumber s.fsData 0 i == -1) s.maxDirEntries = some i := by
  have hentries : (∃ i, firstFit (fun i => dInumber s.fsData 0 i == -1) s.maxDirEntries = some i) ↔
      a.files.keys.card < s.maxDirEntries := by
    rw [← h.card_entries, ← firstFit_isSome_iff_card]
    simp
  rw [firstFit_isFree, hentries, FileStore.RoomForFile, h.params, h.card_inodes, maxDirEntries,
    h.params]

theorem Sim.roomForData (h : Sim s a) : a.RoomForData ↔
    ∃ b, firstFit (isFree s.freeBlocks) s.fsParams.maxBlockCount = some b := by
  rw [firstFit_isFree, FileStore.RoomForData, h.params, h.card_blocks]

/-- The tables of open files have the same lowest free slot. -/
theorem Sim.nextHandle (h : Sim s a) : a.nextHandle.map Fin.val = s.nextHandle := by
  have hfree : ∀ f : Fin p.maxOpenFilesCount,
      (a.handles f).isNone = isFree s.freeOpenFileEntries f := by
    intro f
    cases hf : a.handles f with
    | none => simp [isFree, h.handleFree f hf]
    | some e => simp [isFree, (h.handleOpen f e hf).1]
  simp only [FileStore.nextHandle, hfree]
  rw [find?_finRange, TfsState.nextHandle, h.params]

/-! ### Each change keeps the relation -/

theorem FileStore.putFile_self {data : FileData p.blockSize} (h : a.files.lookup q = some data) :
    a.putFile q data = a := by
  have hfiles : a.files.insert q data = a.files := by
    refine Finmap.ext_lookup fun q' => ?_
    by_cases hq : q' = q
    · rw [hq, Finmap.lookup_insert, h]
    · rw [Finmap.lookup_insert_of_ne _ hq]
  rw [putFile, hfiles]

/-- The files when one of them, `q`, has changed. -/
theorem Sim.files_putFile {s' : TfsState} {data : FileData p.blockSize} (h : Sim s a)
    (hq : s'.readFile q = some data.1)
    (hother : ∀ q' : FileName, q' ≠ q → s'.readFile q' = s.readFile q') (q' : FileName) :
    s'.readFile q' = ((a.putFile q data).files.lookup q').map (·.1) := by
  by_cases hqq : q' = q
  · rw [hqq, hq, FileStore.putFile, Finmap.lookup_insert]
    rfl
  · rw [hother q' hqq, FileStore.putFile, Finmap.lookup_insert_of_ne _ hqq]
    exact h.files q'

/-- Files of different names have different inodes. -/
theorem Sim.inode_ne (h : Sim s a) (hj : s.HasFile q j) (hk : s.HasFile q' k) (hne : q' ≠ q) :
    k ≠ j := by
  rintro rfl
  exact hne (Subtype.ext (h.inv.hasFile_name hk hj))

/-- A handle whose entry stays, and whose file keeps its name and at least its
size. -/
theorem HandleIs.mono {s' : TfsState} {e : Handle} (h : HandleIs s f e)
    (htable : s'.openFileTable f = s.openFileTable f)
    (hfree : s'.freeOpenFileEntries f = s.freeOpenFileEntries f)
    (hfile : ∀ j, s.HasFile e.name j → s'.HasFile e.name j ∧
      (s.inodeTable j).iSize ≤ (s'.inodeTable j).iSize) : HandleIs s' f e := by
  obtain ⟨htaken, hoff, j, hj, hq, hle⟩ := h
  refine ⟨hfree.trans htaken, htable ▸ hoff, j, htable ▸ hj, (hfile j hq).1, ?_⟩
  exact hle.trans (hfile j hq).2

/-- The lowest free handle is opened on a file. -/
theorem Sim.addHandle (h : Sim s a) (hj : s.HasFile q j) (hoff : off ≤ (s.inodeTable j).iSize) :
    (addToOpenFileTable j off s).1 = (a.addHandle ⟨q, off⟩).1 ∧
      Sim (addToOpenFileTable j off s).2 (a.addHandle ⟨q, off⟩).2 := by
  have hfile := h.inv.isFile_of_hasFile hj
  have hnext := h.nextHandle
  rw [FileStore.addHandle]
  cases hf : a.nextHandle with
  | none =>
    rw [hf] at hnext
    rw [addToOpenFileTable_none hnext.symm]
    exact ⟨rfl, h⟩
  | some f =>
    rw [hf] at hnext
    rw [addToOpenFileTable_some hnext.symm]
    refine ⟨rfl, ?_⟩
    show Sim (s.openHandle f j off) (a.setHandle f (some ⟨q, off⟩))
    have hle := (h.inv.sane j hfile).1.trans h.inv.blockSize_le
    have hother : ∀ f' : Fin p.maxOpenFilesCount, f' ≠ f → (f' : Nat) ≠ f := fun f' hff heq =>
      hff (Fin.ext heq)
    refine ⟨h.inv.openHandle hfile (by omega), h.params, h.files, ?_, ?_, h.blocks⟩
    · intro f' hf'
      by_cases hff : f' = f
      · subst hff
        simp at hf'
      · rw [FileStore.handles_setHandle_ne hff] at hf'
        simpa [openHandle, hother f' hff] using h.handleFree f' hf'
    · intro f' e hf'
      by_cases hff : f' = f
      · subst hff
        simp only [FileStore.handles_setHandle, Option.some.injEq] at hf'
        subst hf'
        exact ⟨by simp [openHandle], by simp [openHandle], j, by simp [openHandle], hj, hoff⟩
      · rw [FileStore.handles_setHandle_ne hff] at hf'
        exact (h.handleOpen f' e hf').mono (by simp [openHandle, hother f' hff])
          (by simp [openHandle, hother f' hff]) fun k hk => ⟨hk, le_refl _⟩

theorem Sim.closeHandle (h : Sim s a) (f : Fin p.maxOpenFilesCount) :
    Sim (s.closeHandle f) (a.setHandle f none) := by
  refine ⟨h.inv.closeHandle, h.params, h.files, ?_, ?_, h.blocks⟩
  · intro f' hf'
    by_cases hff : f' = f
    · subst hff
      simp [TfsState.closeHandle]
    · have hne : (f' : Nat) ≠ f := fun heq => hff (Fin.ext heq)
      rw [FileStore.handles_setHandle_ne hff] at hf'
      simpa [TfsState.closeHandle, hne] using h.handleFree f' hf'
  · intro f' e hf'
    have hff : f' ≠ f := by
      rintro rfl
      simp at hf'
    have hne : (f' : Nat) ≠ f := fun heq => hff (Fin.ext heq)
    rw [FileStore.handles_setHandle_ne hff] at hf'
    exact (h.handleOpen f' e hf').mono rfl (by simp [TfsState.closeHandle, hne])
      fun k hk => ⟨hk, le_refl _⟩

/-- A handle moves inside its file. -/
theorem Sim.setOffset {e : Handle} {f : Fin p.maxOpenFilesCount} (h : Sim s a)
    (he : a.handles f = some e) (hj : s.HasFile e.name j) (hoff : off ≤ (s.inodeTable j).iSize) :
    Sim (s.setOffset f off) (a.setHandle f (some { e with offset := off })) := by
  have hfile := h.inv.isFile_of_hasFile hj
  have hle := (h.inv.sane j hfile).1.trans h.inv.blockSize_le
  refine ⟨h.inv.setOffset (by omega), h.params, h.files, ?_, ?_, h.blocks⟩
  · intro f' hf'
    have hff : f' ≠ f := by
      rintro rfl
      simp at hf'
    rw [FileStore.handles_setHandle_ne hff] at hf'
    exact h.handleFree f' hf'
  · intro f' e' hf'
    by_cases hff : f' = f
    · subst hff
      simp only [FileStore.handles_setHandle, Option.some.injEq] at hf'
      subst hf'
      obtain ⟨htaken, -, k, hk, hkq, -⟩ := h.handleOpen f' e he
      obtain rfl := h.inv.hasFile_inode hj hkq
      exact ⟨htaken, by simp [TfsState.setOffset], j, by simpa [TfsState.setOffset] using hk, hj,
        hoff⟩
    · have hne : (f' : Nat) ≠ f := fun heq => hff (Fin.ext heq)
      rw [FileStore.handles_setHandle_ne hff] at hf'
      exact (h.handleOpen f' e' hf').mono (by simp [TfsState.setOffset, hne]) rfl
        fun k hk => ⟨hk, le_refl _⟩

/-- A file that is not open is emptied. -/
theorem Sim.truncate (h : Sim s a) (hj : s.HasFile q j)
    (hclosed : ∀ f e, a.handles f = some e → e.name ≠ q) :
    Sim (s.truncate j) (a.putFile q ⟨[], Nat.zero_le _⟩) := by
  have hfile := h.inv.isFile_of_hasFile hj
  have hs' := h.inv.truncate hfile
  refine ⟨hs', h.params, h.files_putFile ?_ ?_, h.handleFree, ?_, h.blocks.truncate⟩
  · rw [hs'.readFile_of_hasFile (hasFile_truncate.mpr hj), contents_truncate]
  · exact fun q' hq => readFile_congr h.inv hs' (fun _ => hasFile_truncate)
      fun k hk => contents_truncate_ne (h.inode_ne hj hk hq)
  · intro f e he
    refine (h.handleOpen f e he).mono rfl rfl fun k hk => ⟨hk, ?_⟩
    rw [truncate_inode_ne (h.inode_ne hj hk (hclosed f e he))]

theorem Sim.resetInode (h : Sim s a) (hk0 : 0 < k) (hk : s.freeinodeTs k = .free) :
    Sim (s.resetInode k) a := by
  have hs' := h.inv.resetInode hk0 hk
  have hne : ∀ {q : CString} {j}, s.HasFile q j → j ≠ k := fun hj =>
    (h.inv.isFile_of_hasFile hj).ne_of_free hk
  refine ⟨hs', h.params, ?_, h.handleFree, ?_, h.blocks.resetInode hk⟩
  · intro q
    rw [readFile_congr h.inv hs' (fun _ => hasFile_resetInode)
      fun j hj => contents_resetInode_ne (hne hj)]
    exact h.files q
  · intro f e he
    refine (h.handleOpen f e he).mono rfl rfl fun j hj => ⟨hj, ?_⟩
    rw [resetInode_inode_ne (hne hj)]

/-- A new, empty file. -/
theorem Sim.createFile (h : Sim s a)
    (hk : firstFit (isFree s.freeinodeTs) s.fsParams.maxInodeCount = some k)
    (hi : firstFit (fun i => dInumber s.fsData 0 i == -1) s.maxDirEntries = some i)
    (hnew : ∀ j, ¬ s.HasFile q j) :
    Sim (s.createFile k i q) (a.putFile q ⟨[], Nat.zero_le _⟩) := by
  have hlen : q.1.strlen < maxFileName := Nat.lt_succ_of_le q.2.2
  obtain ⟨-, hfree⟩ := free_of_firstFit hk
  have hs' := h.inv.createFile hk hi q.2.1 hlen hnew
  have hnames := fun (q' : CString) j => h.inv.hasFile_createFile (p := q') (j := j) hk hi hlen
  have hne : ∀ {j}, s.IsFile j → j ≠ k := fun hj => hj.ne_of_free hfree
  have hinode : ∀ {j}, s.IsFile j → (s.createFile k i q).inodeTable j = s.inodeTable j := fun hj =>
    resetInode_inode_ne (hne hj)
  refine ⟨hs', h.params, h.files_putFile ?_ ?_, h.handleFree, ?_, h.blocks.createFile hfree⟩
  · rw [hs'.readFile_of_hasFile ((hnames q k).mpr (Or.inr ⟨rfl, rfl⟩)), contents_createFile]
  · intro q' hq
    refine readFile_congr h.inv hs' (fun j => ?_) fun j hj => ?_
    · rw [hnames]
      exact or_iff_left fun heq => hq (Subtype.ext heq.1)
    · have hfile := h.inv.isFile_of_hasFile hj
      exact h.inv.contents_createFile_ne hfile (hne hfile) (firstFit_eq_some.mp hi).1
  · intro f e he
    refine (h.handleOpen f e he).mono rfl rfl fun j hj => ⟨(hnames _ j).mpr (Or.inl hj), ?_⟩
    rw [hinode (h.inv.isFile_of_hasFile hj)]

/-- A file that is not open is removed. -/
theorem Sim.removeFile (h : Sim s a) (hi : i < s.maxDirEntries) (hij : dInumber s.fsData 0 i = j)
    (hn : NameIs s.fsData 0 i q) (hclosed : ∀ f e, a.handles f = some e → e.name ≠ q) :
    Sim (s.removeFile j i) { a with files := a.files.erase q } := by
  have hj : s.HasFile q j := ⟨i, hi, hij, hn⟩
  have hfile := h.inv.isFile_of_hasFile hj
  have hs' := h.inv.removeFile hfile hi hij
  have hnames := fun (q' : CString) k => h.inv.hasFile_removeFile (p := q') (k := k) hi hij
  refine ⟨hs', h.params, ?_, h.handleFree, ?_, h.blocks.removeFile⟩
  · intro q'
    by_cases hq : q' = q
    · rw [hq, Finmap.lookup_erase, Option.map_none, hs'.readFile_eq_none]
      intro k hk
      obtain ⟨hk, hkj⟩ := (hnames _ k).mp hk
      exact hkj (h.inv.hasFile_inode hk hj)
    · rw [Finmap.lookup_erase_ne hq, ← h.files q']
      refine readFile_congr h.inv hs' (fun k => ?_) fun k hk => ?_
      · rw [hnames]
        exact and_iff_left_of_imp fun hk => h.inode_ne hj hk hq
      · exact h.inv.contents_removeFile (h.inv.isFile_of_hasFile hk) hi
  · intro f e he
    refine (h.handleOpen f e he).mono rfl rfl fun k hk => ⟨?_, le_refl _⟩
    exact (hnames _ k).mpr ⟨hk, h.inode_ne hj hk (hclosed f e he)⟩

/-- A file is written over, or extended, from an offset inside it. -/
theorem Sim.writeBlock {data : List UInt8} {d : FileData p.blockSize} (h : Sim s a)
    (hj : s.HasFile q j) (hb : s.BlockFor j b) (hoff : off ≤ (s.inodeTable j).iSize)
    (hdata : 0 < data.length) (hfit : off + data.length ≤ s.fsParams.blockSize)
    (hd : d.1 = overwrite (s.contents j) off data) :
    Sim (s.writeBlock j b off data) (a.putFile q d) := by
  have hfile := h.inv.isFile_of_hasFile hj
  have hsane := h.inv.sane j hfile
  obtain ⟨hb0, -⟩ := hb.bounds hsane h.inv.root
  have hs' := h.inv.writeBlock hfile.1 hsane hb hfit
  have hnames := fun (q' : CString) k =>
    h.inv.hasFile_writeBlock (p := q') (k := k) j off data hb0
  refine ⟨hs', h.params, h.files_putFile ?_ ?_, h.handleFree, ?_, h.blocks.writeBlock hb (.inl hfile) hdata⟩
  · rw [hs'.readFile_of_hasFile ((hnames q j).mpr hj), contents_writeBlock hb hoff, hd]
  · intro q' hq
    refine readFile_congr h.inv hs' (fun k => hnames _ k) fun k hk => ?_
    have hkfile := h.inv.isFile_of_hasFile hk
    refine h.inv.contents_writeBlock_ne hkfile (h.inode_ne hj hk hq) hfit fun hkb => ?_
    by_contra hlt
    exact h.inv.blockFor_ne hb hfile hkfile (h.inode_ne hj hk hq) (by omega) hkb
  · intro f e he
    refine (h.handleOpen f e he).mono rfl rfl fun k hk => ⟨(hnames _ k).mpr hk, ?_⟩
    by_cases hkj : k = j
    · subst hkj
      rw [writeBlock_inode]
      exact le_max_left _ _
    · rw [writeBlock_inode_ne hkj]

/-! ### Each operation keeps the relation -/

theorem FileStore.name_ne_of_not_inUse {path : Option CString} (hq : fileName? path = some q)
    (h : ¬ a.InUse path) (f : Fin p.maxOpenFilesCount) (e : Handle) (he : a.handles f = some e) :
    e.name ≠ q := by
  rintro rfl
  exact h ⟨f, by rw [he, hq]; rfl, by rw [he]; rfl⟩

/-- A path that names no file, as far as the directory goes. -/
theorem Sim.openFile_missing (h : Sim s a) {c : CString} {mode : Nat}
    (hno : ∀ j, ¬ s.HasFile (skipSlash c) j)
    (hroom : mode &&& tfsOCreat = 0 ∨ ¬ a.RoomForFile ∨ maxFileName ≤ (skipSlash c).strlen) :
    a.openFile (some c) mode = (-1, a) := by
  rw [FileStore.openFile]
  cases hq : fileName? (some c) with
  | none => rfl
  | some q =>
    obtain ⟨c', hc, hv, hqc⟩ := of_fileName? hq
    obtain rfl := Option.some.inj hc
    rw [hqc] at hno hroom
    simp only [h.lookup_eq_none.mpr hno]
    refine if_neg ?_
    rintro ⟨hm, hr⟩
    rcases hroom with h0 | hno' | hlong
    · exact hm h0
    · exact hno' hr
    · exact absurd (Nat.lt_succ_of_le q.2.2) (Nat.not_lt.mpr hlong)

theorem Sim.openFile {name : Option CString} {mode : Nat} {r : Int × TfsState} (h : Sim s a)
    (hspec : OpenSpec s name mode r) (hquiet : mode &&& tfsOTrunc ≠ 0 → ¬ a.InUse name) :
    r.1 = (a.openFile name mode).1 ∧ Sim r.2 (a.openFile name mode).2 := by
  cases hspec with
  | invalid hinv =>
    have hq : fileName? name = none := by
      cases name with
      | none => rfl
      | some c => simp [fileName?, hinv c rfl]
    rw [FileStore.openFile, hq]
    exact ⟨rfl, h⟩
  | missing c hc hv hno hm =>
    subst hc
    rw [h.openFile_missing hno (Or.inl hm)]
    exact ⟨rfl, h⟩
  | existing c j hc hv hj =>
    subst hc
    obtain ⟨q, data, hq, hdata, hbs⟩ := h.lookup_of_hasFile hj
    rw [← hq] at hj
    have hname := fileName?_eq_some hv hq.symm
    rw [FileStore.openFile, hname]
    simp only [hdata]
    -- The file as it is once the mode has been obeyed.
    by_cases hm : mode &&& tfsOTrunc ≠ 0
    · simp only [if_pos hm, TfsState.truncated]
      have h' := h.truncate hj (FileStore.name_ne_of_not_inUse hname (hquiet hm))
      have hz : ((s.truncate j).inodeTable j).iSize = 0 := by rw [truncate_inode]
      have hoff : (s.truncate j).openOffset mode j = 0 := by simp [openOffset, hz]
      rw [hoff]
      simpa using h'.addHandle (hasFile_truncate.mpr hj) (Nat.zero_le _)
    · simp only [if_neg hm, TfsState.truncated]
      rw [FileStore.putFile_self hdata]
      have hlen : data.1.length = (s.inodeTable j).iSize := by rw [hbs, length_contents]
      rw [hlen]
      exact h.addHandle hj (by rw [openOffset]; split <;> omega)
  | noInode c hc hv hno hm hfull =>
    subst hc
    have hroom : ¬ a.RoomForFile := by
      rw [h.roomForFile, hfull]
      simp
    rw [h.openFile_missing hno (Or.inr (Or.inl hroom))]
    exact ⟨rfl, h⟩
  | noEntry c k hc hv hno hm hk hbad =>
    subst hc
    obtain ⟨-, hfree⟩ := free_of_firstFit hk
    have hroom : maxFileName ≤ (skipSlash c).strlen ∨ ¬ a.RoomForFile := by
      refine hbad.imp_right fun hfull => ?_
      rw [h.roomForFile, hfull]
      simp
    rw [h.openFile_missing hno (Or.inr hroom.symm)]
    exact ⟨rfl, h.resetInode (h.inv.pos_of_free hfree) hfree⟩
  | created c k i hc hv hno hm hk hi hlen =>
    subst hc
    obtain ⟨q, hq⟩ : ∃ q : FileName, q.1 = skipSlash c :=
      ⟨⟨_, validPathname_strlen hv, Nat.le_of_lt_succ hlen⟩, rfl⟩
    rw [← hq] at hno ⊢
    have hroom : a.RoomForFile := h.roomForFile.mpr ⟨⟨k, hk⟩, ⟨i, hi⟩⟩
    rw [FileStore.openFile, fileName?_eq_some hv hq.symm]
    simp only [h.lookup_eq_none.mpr hno, if_pos (And.intro hm hroom)]
    have h' := h.createFile hk hi hno
    have hfile := (h.inv.hasFile_createFile (p := q) (j := k) hk hi
      (Nat.lt_succ_of_le q.2.2)).mpr (Or.inr ⟨rfl, rfl⟩)
    exact h'.addHandle hfile (Nat.zero_le _)

theorem Sim.closeFile {fhandle : Int} {r : Int × TfsState} (h : Sim s a)
    (hspec : CloseSpec s fhandle r) :
    r.1 = (a.closeFile fhandle).1 ∧ Sim r.2 (a.closeFile fhandle).2 := by
  rw [FileStore.closeFile]
  cases hspec with
  | closed hclosed =>
    rw [h.handle?_eq_none.mpr hclosed]
    exact ⟨rfl, h⟩
  | done f hf hopen =>
    cases he : a.handle? fhandle with
    | none => exact absurd hopen (h.handle?_eq_none.mp he f hf)
    | some fe =>
      obtain ⟨f', e⟩ := fe
      obtain ⟨hf', -⟩ := h.handle?_eq_some he
      have hff : f = f' := by omega
      rw [hff]
      exact ⟨rfl, h.closeHandle f'⟩

theorem Sim.unlinkFile {target : Option CString} {r : Int × TfsState} (h : Sim s a)
    (hspec : UnlinkSpec s target r) (hquiet : ¬ a.InUse target) :
    r.1 = (a.unlinkFile target).1 ∧ Sim r.2 (a.unlinkFile target).2 := by
  rw [FileStore.unlinkFile]
  cases hspec with
  | invalid hinv =>
    have hq : fileName? target = none := by
      cases target with
      | none => rfl
      | some c => simp [fileName?, hinv c rfl]
    rw [hq]
    exact ⟨rfl, h⟩
  | missing c hc hv hno =>
    subst hc
    cases hq : fileName? (some c) with
    | none => exact ⟨rfl, h⟩
    | some q =>
      obtain ⟨c', hc, -, hqc⟩ := of_fileName? hq
      obtain rfl := Option.some.inj hc
      simp only [h.lookup_eq_none.mpr (hqc ▸ hno)]
      exact ⟨trivial, h⟩
  | removed c j i hc hv hi hij hn =>
    subst hc
    obtain ⟨q, data, hq, hdata, -⟩ := h.lookup_of_hasFile ⟨i, hi, hij, hn⟩
    have hname := fileName?_eq_some hv hq.symm
    rw [hname]
    simp only [hdata]
    rw [← hq] at hn
    exact ⟨trivial, h.removeFile hi hij hn (FileStore.name_ne_of_not_inUse hname hquiet)⟩

theorem Sim.handle?_of_isOpen (h : Sim s a) {fhandle : Int} (hf : fhandle = f)
    (hopen : s.IsOpen f) :
    ∃ (f' : Fin p.maxOpenFilesCount) (e : Handle), a.handle? fhandle = some (f', e) ∧ f'.1 = f ∧
      a.handles f' = some e ∧ HandleIs s f e := by
  cases he : a.handle? fhandle with
  | none => exact absurd hopen (h.handle?_eq_none.mp he f hf)
  | some fe =>
    obtain ⟨f', e⟩ := fe
    obtain ⟨hf', hfe, -, hh⟩ := h.handle?_eq_some he
    have hff : f'.1 = f := by omega
    exact ⟨f', e, rfl, hff, hfe, hff ▸ hh⟩

/-- The inode of an abstract handle. -/
theorem HandleIs.inode {e : Handle} (h : HandleIs s f e)
    (hj : (s.openFileTable f).ofInumber = (j : Int)) : s.HasFile e.name j ∧
      (s.openFileTable f).ofOffset = e.offset ∧ e.offset ≤ (s.inodeTable j).iSize := by
  obtain ⟨-, hoff, k, hk, hq, hle⟩ := h
  obtain rfl : j = k := by omega
  exact ⟨hq, hoff, hle⟩

theorem Sim.readFile {fhandle : Int} {len : Nat} {r : (Int × List UInt8) × TfsState} (h : Sim s a)
    (hspec : ReadSpec s fhandle len r) :
    r.1 = (a.readFile fhandle len).1 ∧ Sim r.2 (a.readFile fhandle len).2 := by
  rw [FileStore.readFile]
  cases hspec with
  | closed hclosed =>
    rw [h.handle?_eq_none.mpr hclosed]
    exact ⟨rfl, h⟩
  | nothing f j hf hopen hj hn =>
    obtain ⟨f', e, he, rfl, hfe, hh⟩ := h.handle?_of_isOpen hf hopen
    obtain ⟨hq, hoff, -⟩ := hh.inode hj
    have hbytes : ((a.file e.name).drop e.offset).take len = [] := by
      rw [h.file_of_hasFile hq]
      rcases hn with rfl | hsize
      · simp
      · rw [List.drop_eq_nil_of_le (by rw [length_contents]; omega), List.take_nil]
    rw [he]
    simp only [hbytes, List.length_nil, Nat.add_zero]
    rw [FileStore.setHandle_self hfe]
    exact ⟨rfl, h⟩
  | read f j n hf hopen hj hlt hn hpos =>
    obtain ⟨f', e, he, rfl, hfe, hh⟩ := h.handle?_of_isOpen hf hopen
    obtain ⟨hq, hoff, hle⟩ := hh.inode hj
    rw [hoff] at hlt hn ⊢
    have hbytes : ((a.file e.name).drop e.offset).take len =
        load s.fsData (s.blockOf j * s.fsParams.blockSize + e.offset) n := by
      rw [h.file_of_hasFile hq, contents, drop_take_load _ _ hle, ← hn]
    rw [he]
    simp only [hbytes, length_load]
    exact ⟨trivial, h.setOffset hfe hq (by omega)⟩
  | stray f j n bytes hst =>
    obtain ⟨hf, hopen, hj, hlt, -⟩ := hst
    obtain ⟨f', e, -, rfl, -, hh⟩ := h.handle?_of_isOpen hf hopen
    obtain ⟨-, hoff, hle⟩ := hh.inode hj
    omega

/-- No handle has gone stale. -/
theorem Sim.not_staleRead (h : Sim s a) {fhandle : Int} {len : Nat} :
    ¬ s.StaleRead fhandle len f j := by
  rintro ⟨hf, hopen, hj, hlt, -⟩
  obtain ⟨f', e, -, rfl, -, hh⟩ := h.handle?_of_isOpen hf hopen
  obtain ⟨-, hoff, hle⟩ := hh.inode hj
  omega

theorem Sim.not_wildWrite (h : Sim s a) {fhandle : Int} {buffer : List UInt8}
    (hlen : buffer.length < 2 ^ 63) : ¬ s.WildWrite fhandle buffer := by
  rintro ⟨f, hf, hopen, hwild⟩
  obtain ⟨f', e, -, rfl, -, hh⟩ := h.handle?_of_isOpen hf hopen
  obtain ⟨-, hoff, k, -, hq, hle⟩ := hh
  have hsize := (h.inv.sane k (h.inv.isFile_of_hasFile hq)).1
  have hblock := h.inv.range.blockSize
  omega

theorem Sim.writeFile {fhandle : Int} {buffer : List UInt8} {r : Int × TfsState} (h : Sim s a)
    (hspec : WriteSpec s fhandle buffer r) (hquiet : buffer.length < 2 ^ 63) :
    r.1 = (a.writeFile fhandle buffer).1 ∧ Sim r.2 (a.writeFile fhandle buffer).2 := by
  have hparams := h.params
  rw [FileStore.writeFile]
  cases hspec with
  | closed hclosed =>
    rw [h.handle?_eq_none.mpr hclosed]
    exact ⟨rfl, h⟩
  | nothing f hf hopen hn =>
    obtain ⟨f', e, he, rfl, hfe, hh⟩ := h.handle?_of_isOpen hf hopen
    have hoff := hh.2.1
    have hbytes : buffer.take (p.blockSize - e.offset) = [] := by
      rcases hn with rfl | hend
      · simp
      · rw [← hoff, hend, hparams, Nat.sub_self, List.take_zero]
    rw [he]
    simp only [hbytes, if_true]
    exact ⟨trivial, h⟩
  | noBlock f j hf hopen hj hz hfull hn =>
    obtain ⟨f', e, he, rfl, hfe, hh⟩ := h.handle?_of_isOpen hf hopen
    obtain ⟨hq, hoff, hle⟩ := hh.inode hj
    have hblock := h.inv.range.blockSize
    -- The handle is at offset 0 of an empty file.
    have hbytes : buffer.take (p.blockSize - e.offset) ≠ [] := by
      rw [ne_eq, List.take_eq_nil_iff, ← hparams]
      rintro (h0 | rfl)
      · omega
      · simp at hn
        omega
    have hempty : a.file e.name = [] ∧ ¬ a.RoomForData := by
      rw [h.file_of_hasFile hq, h.roomForData, hfull]
      exact ⟨contents_of_empty hz, by simp⟩
    rw [he]
    simp only [if_neg hbytes, if_pos hempty]
    exact ⟨trivial, h⟩
  | wrote f j b n hf hopen hj hb hn hpos =>
    obtain ⟨f', e, he, rfl, hfe, hh⟩ := h.handle?_of_isOpen hf hopen
    obtain ⟨hq, hoff, hle⟩ := hh.inode hj
    rw [hoff] at hn ⊢
    obtain ⟨q', data, hqq, hdata, hbs⟩ := h.lookup_of_hasFile hq
    obtain rfl := Subtype.ext hqq
    have htake : buffer.take (p.blockSize - e.offset) = buffer.take n := by
      rw [hn, hparams, List.take_eq_take_iff]
      omega
    have hlen : (buffer.take n).length = n := by
      rw [List.length_take]
      omega
    have hbytes : buffer.take n ≠ [] := List.ne_nil_of_length_pos (by omega)
    have hroom : ¬ (a.file e.name = [] ∧ ¬ a.RoomForData) := by
      rintro ⟨hempty, hroom⟩
      have hz : (s.inodeTable j).iSize = 0 := by
        rw [← length_contents, ← h.file_of_hasFile hq, hempty, List.length_nil]
      rw [BlockFor, if_pos hz] at hb
      exact hroom (h.roomForData.mpr ⟨b, hb⟩)
    rw [he]
    simp only [htake, if_neg hbytes, if_neg hroom, hdata, Option.getD_some, hlen]
    have h' : Sim (s.writeBlock j b e.offset (buffer.take n))
        (a.putFile e.name (FileStore.written data e.offset buffer)) := by
      refine h.writeBlock hq hb hle (by omega) (by omega) ?_
      show overwrite data.1 e.offset (buffer.take (p.blockSize - e.offset)) = _
      rw [htake, hbs]
    have hsane := h.inv.sane j (h.inv.isFile_of_hasFile hq)
    obtain ⟨hb0, -⟩ := hb.bounds hsane h.inv.root
    have hq' := (h.inv.hasFile_writeBlock j e.offset (buffer.take n) hb0).mpr hq
    refine ⟨trivial, h'.setOffset hfe hq' ?_⟩
    rw [writeBlock_inode, hlen]
    exact le_max_right _ _

/-- **The step lemma**: a quiet call is answered as on the abstract file system. -/
theorem Sim.call {c : TfsCall} (h : Sim s a) (hquiet : FileStore.Quiet c a) :
    ∃ s', tfsCall c s = .ok ((a.call c).1, s') ∧ Sim s' (a.call c).2 := by
  have hreturn : ∃ r, tfsCall c s = .ok r := by
    refine h.inv.tfsCall_returns ?_
    rintro (⟨fhandle, len, f, j, rfl, hst⟩ | ⟨fhandle, buffer, rfl, hw⟩)
    · exact h.not_staleRead hst
    · exact h.not_wildWrite hquiet hw
  obtain ⟨⟨r, s'⟩, hr⟩ := hreturn
  have hspec := h.inv.callSpec hr
  have hsim : r = (a.call c).1 ∧ Sim s' (a.call c).2 := by
    cases hspec with
    | tfsOpen hspec =>
      obtain ⟨hret, hsim⟩ := h.openFile hspec hquiet
      exact ⟨congrArg (Reply.mk · []) hret, hsim⟩
    | tfsClose hspec =>
      obtain ⟨hret, hsim⟩ := h.closeFile hspec
      exact ⟨congrArg (Reply.mk · []) hret, hsim⟩
    | tfsRead hspec =>
      obtain ⟨hret, hsim⟩ := h.readFile hspec
      exact ⟨congrArg (fun r => Reply.mk r.1 r.2) hret, hsim⟩
    | tfsWrite hspec =>
      obtain ⟨hret, hsim⟩ := h.writeFile hspec hquiet
      exact ⟨congrArg (Reply.mk · []) hret, hsim⟩
    | tfsUnlink hspec =>
      obtain ⟨hret, hsim⟩ := h.unlinkFile hspec hquiet
      exact ⟨congrArg (Reply.mk · []) hret, hsim⟩
  exact ⟨s', hsim.1 ▸ hr, hsim.2⟩

/-- A quiet call that has returned. -/
theorem Sim.of_call {c : TfsCall} {r : Reply} {s' : TfsState} (h : Sim s a)
    (hquiet : FileStore.Quiet c a) (hc : tfsCall c s = .ok (r, s')) :
    r = (a.call c).1 ∧ Sim s' (a.call c).2 := by
  obtain ⟨s₁, hs₁, hsim⟩ := h.call hquiet
  obtain ⟨rfl, rfl⟩ := Prod.mk.inj (Outcome.ok.inj (hs₁.symm.trans hc))
  exact ⟨rfl, hsim⟩

/-- `tfs_init` leaves the abstract file system without files. -/
theorem sim_fresh (h : s.Fresh) : Sim s (FileStore.empty : FileStore s.fsParams) := by
  have hno : ∀ {q : CString} j, ¬ s.HasFile q j := fun j hj =>
    h.noFile j (h.inv.isFile_of_hasFile hj)
  refine ⟨h.inv, rfl, ?_, ?_, fun f e he => by simp [FileStore.empty] at he, ?_⟩
  · intro q
    rw [h.inv.readFile_eq_none.mpr hno, FileStore.empty, Finmap.lookup_empty]
    rfl
  · intro f _
    cases hf : s.freeOpenFileEntries f with
    | free => rfl
    | taken => exact absurd ⟨f.2, hf⟩ (h.noOpen f)
  · intro b hb htaken
    rcases Nat.eq_zero_or_pos b with rfl | hpos
    · exact Or.inl rfl
    · rw [h.blocks b hpos hb] at htaken
      cases htaken

/-- **TécnicoFS refines the abstract file system**: in every run that neither
truncates nor removes an open file, every return value and every byte returned
is that of the abstract file system. -/
theorem tfs_refines_fileStore {cs : List TfsCall} (hinit : Started (some p) s) (hp : p.InRange)
    (hquiet : Outcome.Allowed FileStore.Quiet FileStore.call cs (FileStore.empty : FileStore p)) :
    ∃ s', runCalls cs s =
      .ok ((Outcome.runMachine FileStore.call cs (FileStore.empty : FileStore p)).1, s') := by
  have hparams : s.fsParams = p := hinit.fsParams hp
  subst hparams
  have hsim := sim_fresh (hinit.fresh hp)
  obtain ⟨s', hrun, -⟩ := Outcome.runList_simulates (fun _ _ _ h hc => h.call hc) hsim hquiet
  exact ⟨s', hrun⟩

/-- Two handles on one file, which is read while it grows and then removed. -/
def sharedFile : List TfsCall :=
  [.tfsOpen (some (.ofBuffer [47, 97])) tfsOCreat, .tfsWrite 0 [120, 121],
    .tfsOpen (some (.ofBuffer [47, 97])) tfsOAppend, .tfsWrite 1 [122], .tfsRead 0 9,
    .tfsClose 0, .tfsClose 1, .tfsUnlink (some (.ofBuffer [47, 97])), .tfsRead 0 1]

theorem tfs_refines_sharedFile : ∃ s', runCalls sharedFile initial =
    .ok ([⟨0, []⟩, ⟨2, []⟩, ⟨1, []⟩, ⟨1, []⟩, ⟨1, [122]⟩, ⟨0, []⟩, ⟨0, []⟩, ⟨0, []⟩, ⟨-1, []⟩], s') := by
  have hreplies : (Outcome.runMachine FileStore.call sharedFile
      (FileStore.empty : FileStore tfsDefaultParams)).1 =
      [⟨0, []⟩, ⟨2, []⟩, ⟨1, []⟩, ⟨1, []⟩, ⟨1, [122]⟩, ⟨0, []⟩, ⟨0, []⟩, ⟨0, []⟩, ⟨-1, []⟩] := by
    decide +kernel
  rw [← hreplies]
  exact tfs_refines_fileStore started_initial inRange_tfsDefaultParams (by decide +kernel)

end Tfs
