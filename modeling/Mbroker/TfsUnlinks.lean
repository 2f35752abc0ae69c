/-
`tfs_unlink` does all or nothing.

`tfs_unlink` goes through the directory twice.  `find_in_dir` compares 40 bytes of the
live entries, and `clear_dir_entry`, once the inode is deleted, compares whole names
of all of them, also of those that were never used and hold what memory held before.

* `Inv.scans_agree` — the two stop at the same entry;
* `Inv.clearDirEntry_of_inodeDelete` — once the inode is deleted the entry is cleared;
* **`tfsUnlink_allOrNothing`** — in every state that a run reaches.
-/
import Mbroker.TfsFiles
import Mbroker.TfsRuns

namespace Tfs

open Memory SlotTable TfsState

namespace TfsState

variable {s s' : TfsState} {p q : CString} {i j : Nat}

/-- The entry at which `find_in_dir` stops. -/
def findEntry (s : TfsState) (q : CString) : Option Nat :=
  firstFit (fun i => dInumber s.fsData (rootDir s) i != -1 &&
    strncmp s.fsData (entryAddr (rootDir s) i) q maxFileName == 0) s.maxDirEntries

/-- The entry at which `clear_dir_entry` stops. -/
def clearedEntry (s : TfsState) (q : CString) : Option Nat :=
  firstFit (fun i => strcmp s.fsData (entryAddr (rootDir s) i) q == 0) s.maxDirEntries

/-- `s'` is `s` without the file whose name is in entry `i`, of inode `j`. -/
structure Removed (s s' : TfsState) (i j : Nat) : Prop where
  inumber : dInumber s.fsData (rootDir s) i = j
  wasTaken : s.freeinodeTs j = .taken
  inode : s'.freeinodeTs j = .free
  block : 0 < (s.inodeTable j).iSize → s'.freeBlocks (s.blockOf j) = .free
  entry : dInumber s'.fsData (rootDir s) i = -1
  name : load s'.fsData (entryAddr (rootDir s) i) maxFileName = List.replicate maxFileName 0
  otherData : ∀ a, a < entryAddr (rootDir s) i ∨ entryAddr (rootDir s) i + sizeofDirEntry ≤ a →
    s'.fsData a = s.fsData a
  otherInodes : ∀ k ≠ j, s'.freeinodeTs k = s.freeinodeTs k
  inodeTable : s'.inodeTable = s.inodeTable
  otherBlocks : ∀ b, b ≠ s.blockOf j ∨ (s.inodeTable j).iSize = 0 → s'.freeBlocks b = s.freeBlocks b
  openFiles : s'.openFileTable = s.openFileTable ∧ s'.freeOpenFileEntries = s.freeOpenFileEntries
  params : s'.fsParams = s.fsParams ∧ s'.allocated = s.allocated

theorem Inv.rootDir_eq (hs : s.Inv) : rootDir s = 0 := by
  simp [rootDir, hs.root.atZero]

/-- **The two scans** stop at the entry that has the name. -/
theorem Inv.scans_agree (hs : s.Inv) (hi : i < s.maxDirEntries) (hij : dInumber s.fsData 0 i = j)
    (hq : NameIs s.fsData 0 i q) : s.findEntry q = some i ∧ s.clearedEntry q = some i := by
  have hl := live_of_inumber hij
  constructor
  · rw [findEntry, hs.rootDir_eq]
    exact hs.dir.find_eq_some.mpr ⟨hi, hl, hq⟩
  · rw [clearedEntry, hs.rootDir_eq]
    exact hs.dir.clear_eq_some hi hl hq

theorem Inv.removed_removeFile (hs : s.Inv) (hj : s.IsFile j) (hij : dInumber s.fsData 0 i = j) :
    s.Removed (s.removeFile j i) i j := by
  have hroot := hs.rootDir_eq
  refine
    { inumber := by rw [hroot, hij]
      wasTaken := hj.2.2
      inode := Function.update_self _ _ _
      block := fun hpos => ?_
      entry := by rw [hroot]; exact dInumber_clearEntry
      name := ?_
      otherData := by rw [hroot]; exact fun a ha => onlyEntry_clearEntry a ha
      otherInodes := fun k hk => Function.update_of_ne hk _ _
      inodeTable := rfl
      otherBlocks := fun b hb => ?_
      openFiles := ⟨rfl, rfl⟩
      params := ⟨rfl, rfl⟩ }
  · show s.releaseBlock j (s.blockOf j) = .free
    rw [releaseBlock, if_pos hpos, Function.update_self]
  · rw [hroot]
    have h := load_store_same (setInumber s.fsData 0 i (-1)) (entryAddr 0 i)
      (List.replicate maxFileName 0)
    rwa [List.length_replicate] at h
  · show s.releaseBlock j b = s.freeBlocks b
    rw [releaseBlock]
    split
    case isTrue hpos => exact Function.update_of_ne (hb.resolve_right hpos.ne') _ _
    case isFalse => rfl

/-- **After `inode_delete`** the entry is found again and cleared. -/
theorem Inv.clearDirEntry_of_inodeDelete {inum : Int} (hs : s.Inv) (hv : validPathname p = true)
    (hfind : tfsLookup p 0 s = .ok inum) (hinum : inum ≠ -1) (hdel : inodeDelete inum s = .ok s') :
    ∃ s'', clearDirEntry 0 (skipSlash p) s' = .ok (0, s'') := by
  rw [tfsLookup_eq hv] at hfind
  rcases hs.findInDir_spec (skipSlash p) with ⟨j, hj, hfind'⟩ | ⟨-, hfind'⟩
  · obtain rfl := Outcome.ok.inj (hfind.symm.trans hfind')
    obtain rfl := Outcome.ok.inj (hdel.symm.trans (hs.inodeDelete_eq (hs.isFile_of_hasFile hj)))
    obtain ⟨i, hi, hij, hq⟩ := hj
    exact ⟨_, hs.clearDirEntry_eq hi hij hq⟩
  · exact absurd (Outcome.ok.inj (hfind.symm.trans hfind')) hinum

end TfsState

variable {params : Option TfsParams} {s₁ s : TfsState} {cs : List TfsCall} {rs : List Reply}

/-- **All or nothing.**  In every state that a run reaches, `tfs_unlink` returns; when it
returns -1 nothing has changed, and when it returns 0 the entry that was found has been
cleared and its inode given up, and nothing else has changed.  What comes after
`inode_delete` does not fail. -/
theorem tfsUnlink_allOrNothing (hinit : Started params s₁)
    (hp : (params.getD tfsDefaultParams).InRange) (hrun : runCalls cs s₁ = .ok (rs, s))
    (target : Option CString) :
    (∃ ret s', tfsUnlink target s = .ok (ret, s') ∧
        (ret = -1 ∧ s' = s ∨ ret = 0 ∧ ∃ p i j, target = some p ∧
          s.findEntry (skipSlash p) = some i ∧ s.clearedEntry (skipSlash p) = some i ∧
          s.Removed s' i j)) ∧
      ∀ p inum s₂, target = some p → validPathname p = true → tfsLookup p 0 s = .ok inum →
        inum ≠ -1 → inodeDelete inum s = .ok s₂ →
        ∃ s₃, clearDirEntry 0 (skipSlash p) s₂ = .ok (0, s₃) := by
  have hs := (hinit.fresh hp).inv.runCalls hrun
  refine ⟨?_, ?_⟩
  · obtain ⟨⟨ret, s'⟩, hunlink, hspec⟩ := hs.tfsUnlink_spec target
    refine ⟨ret, s', hunlink, ?_⟩
    cases hspec with
    | invalid => exact Or.inl ⟨rfl, rfl⟩
    | missing => exact Or.inl ⟨rfl, rfl⟩
    | removed p j i hp hv hi hij hq =>
      have hfile := hs.isFile_of_hasFile ⟨i, hi, hij, hq⟩
      obtain ⟨hfind, hclear⟩ := hs.scans_agree hi hij hq
      exact Or.inr ⟨rfl, p, i, j, hp, hfind, hclear, hs.removed_removeFile hfile hij⟩
  · intro p inum s₂ _ hv hfind hinum hdel
    exact hs.clearDirEntry_of_inodeDelete hv hfind hinum hdel

/-- A file is removed while it is open. -/
theorem allOrNothing_removedWhileOpen :
    ∃ rs s, runCalls removedWhileOpen initial = .ok (rs, s) ∧ ∀ target,
      ∃ ret s', tfsUnlink target s = .ok (ret, s') ∧
        (ret = -1 ∧ s' = s ∨ ret = 0 ∧ ∃ p i j, target = some p ∧
          s.findEntry (skipSlash p) = some i ∧ s.clearedEntry (skipSlash p) = some i ∧
          s.Removed s' i j) := by
  have h : replies removedWhileOpen initial = .ok [⟨0, []⟩, ⟨1, []⟩, ⟨0, []⟩, ⟨1, []⟩] := by
    decide +kernel
  obtain ⟨⟨rs, s⟩, hrun, -⟩ := Outcome.map_eq_ok.mp h
  exact ⟨rs, s, hrun, fun target =>
    (tfsUnlink_allOrNothing started_initial inRange_tfsDefaultParams hrun target).1⟩

end Tfs
