/-
Which data blocks are taken.

A block is taken for a file by the first write, and given up by a truncation or with the
inode.  A write through a handle whose file has been removed, when that was empty, takes
one too, and as the inode is free no one gives it up.

* `CallSpec.balanced` — what keeps the balance;
* **`blocks_iff`** — the runs in which the taken blocks are those of the directory and of
  the files;
* `not_conserved_leaked` — a block that is left.
-/
import Mbroker.TfsRuns
import Mbroker.TfsFiles

namespace Tfs

open Memory SlotTable TfsState

namespace TfsState

variable {s s' : TfsState} {c : TfsCall} {r : Reply} {f j k b off mode : Nat}

/-- The taken blocks are the root directory's and those of the taken inodes with data. -/
def Conserved (s : TfsState) : Prop :=
  ∀ b : Int, TakenBlock s b ↔ b = (s.inodeTable 0).iDataBlock ∨
    ∃ j, TakenInode s j ∧ 0 < (s.inodeTable j).iSize ∧ (s.inodeTable j).iDataBlock = b

/-- A write that takes a block for an inode that is free. -/
def Leaks (s : TfsState) (c : TfsCall) : Prop :=
  ∃ (f j b n : Nat) (buffer : List UInt8), c = .tfsWrite f buffer ∧ s.IsOpen f ∧
    (s.openFileTable f).ofInumber = j ∧ s.freeinodeTs j = .free ∧ (s.inodeTable j).iSize = 0 ∧
    firstFit (isFree s.freeBlocks) s.fsParams.maxBlockCount = some b ∧
    toWrite buffer.length (s.openFileTable f).ofOffset s.fsParams.blockSize = n ∧ 0 < n ∧
    (s.openFileTable f).ofOffset + n ≤ s.fsParams.blockSize

/-- Every taken block is the directory's or a file's. -/
def Balanced (s : TfsState) : Prop :=
  ∀ b < s.fsParams.maxBlockCount, s.freeBlocks b = .taken →
    b = 0 ∨ ∃ j, s.IsFile j ∧ 0 < (s.inodeTable j).iSize ∧ s.blockOf j = b

theorem Inv.conserved (hs : s.Inv) (h : s.Balanced) : s.Conserved := by
  intro b
  constructor
  · rintro ⟨hb0, hb, htaken⟩
    rcases h b.toNat (by omega) htaken with hz | ⟨j, hj, hpos, hblock⟩
    · left
      rw [hs.root.atZero]
      omega
    · refine Or.inr ⟨j, hj.2, hpos, ?_⟩
      rw [((hs.sane j hj).block hpos).1, hblock]
      omega
  · rintro (rfl | ⟨j, hj, hpos, rfl⟩)
    · exact hs.metadata.root.2.2
    · exact (hs.metadata.sizes j hj hpos).2

/-- When every file is removed only the directory's block is left. -/
theorem Conserved.onlyRoot (h : s.Conserved) (hno : ∀ j ≠ 0, ¬ TakenInode s j) {b : Int}
    (hb : TakenBlock s b) : b = (s.inodeTable 0).iDataBlock := by
  rcases (h b).mp hb with hroot | ⟨j, hj, -, rfl⟩
  · exact hroot
  · by_cases hj0 : j = 0
    · rw [hj0]
    · exact absurd hj (hno j hj0)

/-! ### One call -/

/-- Blocks are only given up, and a file that keeps its block is as it was. -/
theorem Balanced.release (h : s.Balanced) (hparams : s'.fsParams = s.fsParams)
    (hblocks : ∀ b, s'.freeBlocks b = .taken → s.freeBlocks b = .taken)
    (hfiles : ∀ j, s.IsFile j → 0 < (s.inodeTable j).iSize → s'.freeBlocks (s.blockOf j) = .taken →
      s'.IsFile j ∧ s'.inodeTable j = s.inodeTable j) : s'.Balanced := by
  intro b hb htaken
  rw [hparams] at hb
  rcases h b hb (hblocks b htaken) with hz | ⟨j, hj, hpos, rfl⟩
  · exact Or.inl hz
  · obtain ⟨hj', hsame⟩ := hfiles j hj hpos htaken
    exact Or.inr ⟨j, hj', by rwa [hsame], by rw [blockOf, hsame, ← blockOf]⟩

theorem taken_of_releaseBlock (h : s.releaseBlock j b = .taken) : s.freeBlocks b = .taken := by
  rw [releaseBlock] at h
  split at h
  case isTrue =>
    by_cases hb : b = s.blockOf j
    · subst hb
      simp at h
    · rwa [Function.update_of_ne hb] at h
  case isFalse => exact h

/-- The block that is given up is not taken any more. -/
theorem ne_of_releaseBlock (hpos : 0 < (s.inodeTable k).iSize)
    (h : s.releaseBlock j (s.blockOf k) = .taken) : k ≠ j := by
  rintro rfl
  rw [releaseBlock, if_pos hpos, Function.update_self] at h
  cases h

theorem Balanced.truncate (h : s.Balanced) : (s.truncate j).Balanced :=
  h.release rfl (fun _ => taken_of_releaseBlock)
    fun _ hk hpos htaken => ⟨hk, truncate_inode_ne (ne_of_releaseBlock hpos htaken)⟩

theorem Balanced.removeFile {i : Nat} (h : s.Balanced) : (s.removeFile j i).Balanced :=
  h.release rfl (fun _ => taken_of_releaseBlock) fun _ hk hpos htaken =>
    ⟨isFile_removeFile.mpr ⟨hk, ne_of_releaseBlock hpos htaken⟩, rfl⟩

theorem Balanced.resetInode (h : s.Balanced) (hk : s.freeinodeTs k = .free) :
    (s.resetInode k).Balanced :=
  h.release rfl (fun _ => id) fun _ hl _ _ => ⟨hl, resetInode_inode_ne (hl.ne_of_free hk)⟩

theorem Balanced.createFile {i : Nat} {q : CString} (h : s.Balanced)
    (hk : s.freeinodeTs k = .free) :
    (s.createFile k i q).Balanced := by
  refine h.release rfl (fun _ => id) fun l hl _ _ => ⟨⟨hl.1, hl.2.1, ?_⟩, ?_⟩
  · exact (Function.update_of_ne (hl.ne_of_free hk) _ _).trans hl.2.2
  · exact resetInode_inode_ne (hl.ne_of_free hk)

theorem Balanced.addToOpenFileTable {inumber : Int} (h : s.Balanced) :
    (addToOpenFileTable inumber off s).2.Balanced := by
  rw [Tfs.addToOpenFileTable]
  split
  · exact h
  · exact h

/-- A write of a file, or of an inode that has a block. -/
theorem Balanced.writeBlock {data : List UInt8} (h : s.Balanced) (hb : s.BlockFor j b)
    (hj : s.IsFile j ∨ (s.inodeTable j).iSize ≠ 0) (hdata : 0 < data.length) :
    (s.writeBlock j b off data).Balanced := by
  have hfile : ∀ k, (s.writeBlock j b off data).IsFile k ↔ s.IsFile k := fun k => Iff.rfl
  have hself : s.IsFile j → b = 0 ∨ ∃ k, (s.writeBlock j b off data).IsFile k ∧
      0 < ((s.writeBlock j b off data).inodeTable k).iSize ∧
      (s.writeBlock j b off data).blockOf k = b := by
    intro hj
    refine Or.inr ⟨j, hj, ?_, writeBlock_blockOf⟩
    rw [writeBlock_inode]
    exact lt_max_of_lt_right (by omega)
  -- A file other than `j` is as it was.
  have hother : ∀ k, s.IsFile k → k ≠ j → 0 < (s.inodeTable k).iSize →
      0 < ((s.writeBlock j b off data).inodeTable k).iSize ∧
        (s.writeBlock j b off data).blockOf k = s.blockOf k := by
    intro k _ hkj hpos
    rw [blockOf, blockOf, writeBlock_inode_ne hkj]
    exact ⟨hpos, rfl⟩
  intro b' hb' htaken
  by_cases hbb : b' = b
  · subst hbb
    by_cases hz : (s.inodeTable j).iSize = 0
    · exact hself (hj.resolve_right (not_not.mpr hz))
    · rw [BlockFor, if_neg hz] at hb
      have hold : s.freeBlocks b' = .taken := by simpa [TfsState.writeBlock, hz] using htaken
      rcases h b' hb' hold with h0 | ⟨k, hk, hpos, hblock⟩
      · exact Or.inl h0
      · by_cases hkj : k = j
        · exact hself (hkj ▸ hk)
        · obtain ⟨hpos', hblock'⟩ := hother k hk hkj hpos
          exact Or.inr ⟨k, hk, hpos', hblock'.trans hblock⟩
  · have hold : s.freeBlocks b' = .taken := by simpa [TfsState.writeBlock, hbb] using htaken
    rcases h b' hb' hold with h0 | ⟨k, hk, hpos, hblock⟩
    · exact Or.inl h0
    · have hkj : k ≠ j := by
        rintro rfl
        rw [BlockFor, if_neg hpos.ne'] at hb
        exact hbb (hblock.symm.trans hb)
      obtain ⟨hpos', hblock'⟩ := hother k hk hkj hpos
      exact Or.inr ⟨k, hk, hpos', hblock'.trans hblock⟩

theorem OpenSpec.balanced {name : Option CString} {r : Int × TfsState} (h : OpenSpec s name mode r)
    (hb : s.Balanced) : r.2.Balanced := by
  cases h with
  | invalid => exact hb
  | missing => exact hb
  | noInode => exact hb
  | existing p j =>
    refine Balanced.addToOpenFileTable ?_
    rw [TfsState.truncated]
    split
    · exact hb.truncate
    · exact hb
  | noEntry p k _ _ _ _ hk => exact hb.resetInode (free_of_firstFit hk).2
  | created p k i _ _ _ _ hk => exact (hb.createFile (free_of_firstFit hk).2).addToOpenFileTable

/-- **The step lemma.** -/
theorem Inv.balanced_of_tfsCall (hs : s.Inv) (hb : s.Balanced) (hleak : ¬ s.Leaks c)
    (hcall : Tfs.tfsCall c s = .ok (r, s')) : s'.Balanced := by
  have hspec := hs.callSpec hcall
  cases hspec with
  | tfsOpen h => exact h.balanced hb
  | tfsClose h => cases h <;> exact hb
  | tfsRead h => cases h <;> exact hb
  | tfsWrite h =>
    cases h with
    | closed => exact hb
    | nothing => exact hb
    | noBlock => exact hb
    | wrote f j b n hf hopen hj hfor hn hpos =>
      subst hf
      obtain ⟨j', hj', hj0, hjn, -⟩ := hs.handle f hopen
      obtain rfl : j = j' := by omega
      refine Balanced.writeBlock hb hfor ?_ (by rw [List.length_take]; omega)
      by_contra hno
      rw [not_or, not_not] at hno
      obtain ⟨hfree, hz⟩ := hno
      -- Otherwise the inode is free and empty, and the call is one that leaks.
      refine hleak ⟨f, j, b, n, _, rfl, hopen, hj, ?_, hz, ?_, ?_, hpos, by omega⟩
      · cases ht : s.freeinodeTs j with
        | free => rfl
        | taken => exact absurd ⟨hj0, hjn, ht⟩ hfree
      · rwa [BlockFor, if_pos hz] at hfor
      · exact hs.toWrite_of_tfsWrite hopen hpos (tfsWrite_of_tfsCall hcall)
  | tfsUnlink h =>
    cases h with
    | invalid => exact hb
    | missing => exact hb
    | removed => exact hb.removeFile

/-- A block that has been taken for a free inode is no one's. -/
theorem Inv.not_conserved (hs : s.Inv) (h : s.Leaks c) :
    ∃ r s', Tfs.tfsCall c s = .ok (r, s') ∧ ¬ s'.Conserved := by
  obtain ⟨f, j, b, n, buffer, rfl, hopen, hj, hfree, hz, hb, hn, hpos, hfit⟩ := h
  have hw := hs.tfsWrite_eq hopen hj (by rw [BlockFor, if_pos hz, hb]) hn hpos hfit
  refine ⟨⟨n, []⟩, _, tfsCall_tfsWrite hw, fun hcons => ?_⟩
  obtain ⟨hbn, hbfree⟩ := free_of_firstFit hb
  have hb0 : b ≠ 0 := by
    rintro rfl
    exact absurd (hbfree.symm.trans hs.root.blockTaken) (by decide)
  have hj0 : j ≠ 0 := by
    rintro rfl
    exact absurd (hfree.symm.trans hs.root.taken) (by decide)
  have hinode : ∀ k ≠ j, ((s.writeBlock j b (s.openFileTable f).ofOffset (buffer.take n)).setOffset
      f ((s.openFileTable f).ofOffset + n)).inodeTable k = s.inodeTable k :=
    fun k hk => writeBlock_inode_ne hk
  have htaken : TakenBlock
    ((s.writeBlock j b (s.openFileTable f).ofOffset (buffer.take n)).setOffset
      f ((s.openFileTable f).ofOffset + n)) b := by
    refine ⟨by omega, Int.ofNat_lt.mpr hbn, ?_⟩
    simp [TfsState.setOffset, TfsState.writeBlock, hz]
  -- Whose it is had the block before, when it was free.
  rcases (hcons b).mp htaken with hroot | ⟨k, ⟨hkn, hk⟩, hkpos, hkb⟩
  · rw [hinode 0 hj0.symm, hs.root.atZero] at hroot
    exact hb0 (Int.natCast_inj.mp hroot)
  · have hkj : k ≠ j := by
      rintro rfl
      exact absurd (hfree.symm.trans hk) (by decide)
    rw [hinode k hkj] at hkpos hkb
    have hold := (hs.metadata.sizes k ⟨hkn, hk⟩ hkpos).2.2.2
    rw [hkb, Int.toNat_natCast] at hold
    exact absurd (hbfree.symm.trans hold) (by decide)

end TfsState

variable {params : Option TfsParams} {s : TfsState}

/-- **The taken blocks.**  In every state that the run gets to they are those of the
directory and of the files with data, and that of the directory alone once no file is left,
in exactly the runs in which no write takes a block for an inode that is free. -/
theorem blocks_iff (hinit : Started params s) (hp : (params.getD tfsDefaultParams).InRange)
    (cs : List TfsCall) :
    (∀ n rs s', runCalls (cs.take n) s = .ok (rs, s') → s'.Conserved ∧
        ((∀ j ≠ 0, ¬ TakenInode s' j) → ∀ b, TakenBlock s' b → b = (s'.inodeTable 0).iDataBlock)) ↔
      Outcome.Meets (fun c s => ¬ s.Leaks c) tfsCall cs s := by
  have hfresh := hinit.fresh hp
  refine Outcome.good_iff_meets (I := fun s => s.Inv ∧ s.Balanced) ?_ ?_ ?_ ?_
  · rintro c s r s' ⟨hs, hb⟩ hleak hcall
    exact ⟨hs.tfsCall hcall, hs.balanced_of_tfsCall hb hleak hcall⟩
  · rintro s ⟨hs, hb⟩
    have hcons := hs.conserved hb
    exact ⟨hcons, fun hno b => hcons.onlyRoot hno⟩
  · rintro c s ⟨hs, -⟩ hleak
    obtain ⟨r, s', hcall, hno⟩ := hs.not_conserved (not_not.mp hleak)
    exact ⟨r, s', hcall, fun h => hno h.1⟩
  · refine ⟨hfresh.inv, fun b hb htaken => Or.inl ?_⟩
    by_contra hb0
    have hfree := hfresh.blocks b (Nat.pos_of_ne_zero hb0) hb
    exact absurd (hfree.symm.trans htaken) (by decide)

/-- A file that is created, written, and removed before it is closed. -/
def writtenAndRemoved : List TfsCall :=
  [.tfsOpen (some (.ofBuffer [47, 97])) tfsOCreat, .tfsWrite 0 [120],
    .tfsUnlink (some (.ofBuffer [47, 97])), .tfsClose 0]

theorem conserved_writtenAndRemoved :
    ∃ rs s, runCalls writtenAndRemoved initial = .ok (rs, s) ∧ s.Conserved := by
  have hopen : (tfsCall (.tfsOpen (some (.ofBuffer [47, 97])) tfsOCreat) initial).map (fun p =>
      ((p.2.openFileTable 0).ofInumber, p.2.freeinodeTs 1)) = .ok (1, .taken) := by
    decide +kernel
  have hmeets : Outcome.Meets (fun c s => ¬ s.Leaks c) tfsCall writtenAndRemoved initial := by
    refine ⟨?_, ?_⟩
    · rintro ⟨f, j, b, n, buffer, hc, -⟩
      cases hc
    split
    case h_1 r s hs =>
      obtain ⟨p, hp, heq⟩ := Outcome.map_eq_ok.mp hopen
      obtain rfl := Outcome.ok.inj (hs.symm.trans hp)
      obtain ⟨hinum, htaken⟩ := Prod.mk.inj heq
      refine ⟨?_, ?_⟩
      · rintro ⟨f, j, b, n, buffer, hc, -, hj, hfree, -⟩
        obtain ⟨hf, -⟩ := TfsCall.tfsWrite.inj hc
        obtain rfl : f = 0 := by omega
        obtain rfl : j = 1 := Int.natCast_inj.mp (hj.symm.trans hinum)
        exact absurd (hfree.symm.trans htaken) (by decide)
      · split
        · refine Outcome.meets_of_forall fun c hc s => ?_
          rintro ⟨f, j, b, n, buffer, rfl, -⟩
          simp at hc
        · trivial
    case h_2 => trivial
  have h : replies writtenAndRemoved initial = .ok [⟨0, []⟩, ⟨1, []⟩, ⟨0, []⟩, ⟨0, []⟩] := by
    decide +kernel
  obtain ⟨⟨rs, s⟩, hrun, -⟩ := Outcome.map_eq_ok.mp h
  refine ⟨rs, s, hrun, ?_⟩
  exact ((blocks_iff started_initial inRange_tfsDefaultParams writtenAndRemoved).mpr hmeets 4 rs s
    hrun).1

/-- An empty file is removed, and written through the handle that is left. -/
def leaked : List TfsCall :=
  [.tfsOpen (some (.ofBuffer [47, 97])) tfsOCreat, .tfsUnlink (some (.ofBuffer [47, 97])),
    .tfsWrite 0 [120], .tfsClose 0]

/-- No file and no handle is left then, but a block beside that of the directory. -/
theorem not_conserved_leaked : ∃ rs s, runCalls leaked initial = .ok (rs, s) ∧
    (∀ j ≠ 0, ¬ TakenInode s j) ∧ (∀ f, ¬ s.IsOpen f) ∧ TakenBlock s 1 ∧ ¬ s.Conserved := by
  have h : (runCalls leaked initial).map (fun p =>
      (p.2.fsParams, (List.range 64).all (fun j => j == 0 || p.2.freeinodeTs j == .free),
        (List.range 16).all (fun f => p.2.freeOpenFileEntries f == .free), p.2.freeBlocks 1,
        (p.2.inodeTable 0).iDataBlock)) = .ok (tfsDefaultParams, true, true, .taken, 0) := by
    decide +kernel
  obtain ⟨⟨rs, s⟩, hrun, heq⟩ := Outcome.map_eq_ok.mp h
  simp only [Prod.mk.injEq] at heq
  obtain ⟨hparams, hinodes, hfiles, hblock, hroot⟩ := heq
  have hno : ∀ j ≠ 0, ¬ TakenInode s j := by
    rintro j hj0 ⟨hlt, htaken⟩
    rw [hparams] at hlt
    have hfree := List.all_eq_true.mp hinodes j (List.mem_range.mpr hlt)
    simp [hj0, htaken] at hfree
  have hblock1 : TakenBlock s 1 := ⟨by decide, by rw [hparams]; decide, hblock⟩
  refine ⟨rs, s, hrun, hno, ?_, hblock1, fun hcons => ?_⟩
  · rintro f ⟨hlt, htaken⟩
    rw [hparams] at hlt
    have hfree := List.all_eq_true.mp hfiles f (List.mem_range.mpr hlt)
    simp [htaken] at hfree
  · have := hcons.onlyRoot hno hblock1
    rw [hroot] at this
    cases this

end Tfs
