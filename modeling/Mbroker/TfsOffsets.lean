/-
Offsets and sizes.

A handle keeps its offset while the file that it was opened on is made empty under it: by
a `tfs_open` that truncates the file, or by one that creates a file in the inode after the
first has been removed, also when that fails for want of a directory entry.

* `Inv.inside` — offsets that are no larger than the sizes keep every copy in its block;
* `CallSpec.offsetsFit` — what keeps them so;
* **`offsets_iff`** — the runs in which they are;
* `not_offsetsInside_truncated` — a file truncated while it is open.
-/
import Mbroker.TfsNames
import Mbroker.TfsRuns

namespace Tfs

open Memory SlotTable TfsState

namespace TfsState

variable {s s' : TfsState} {name : Option CString} {mode f j k off : Nat} {c : TfsCall} {r : Reply}

/-- Handle `f` of inode `j` is inside the file, and what is copied from its offset on is
inside the block. -/
structure Inside (s : TfsState) (f j : Nat) : Prop where
  inumber : (s.openFileTable f).ofInumber = j
  offset : (s.openFileTable f).ofOffset ≤ (s.inodeTable j).iSize
  size : (s.inodeTable j).iSize ≤ s.fsParams.blockSize
  read : ∀ len, toRead (s.inodeTable j).iSize (s.openFileTable f).ofOffset len =
      min ((s.inodeTable j).iSize - (s.openFileTable f).ofOffset) len ∧
    (s.openFileTable f).ofOffset +
      toRead (s.inodeTable j).iSize (s.openFileTable f).ofOffset len ≤ s.fsParams.blockSize
  write : ∀ len < 2 ^ 63, toWrite len (s.openFileTable f).ofOffset s.fsParams.blockSize =
      min len (s.fsParams.blockSize - (s.openFileTable f).ofOffset) ∧
    (s.openFileTable f).ofOffset +
      toWrite len (s.openFileTable f).ofOffset s.fsParams.blockSize ≤ s.fsParams.blockSize

/-- Every handle is. -/
def OffsetsInside (s : TfsState) : Prop := ∀ f, s.IsOpen f → ∃ j, s.Inside f j

/-- A `tfs_open` that makes inode `j` empty: it truncates the file, or creates a new one. -/
def Empties (s : TfsState) (c : TfsCall) (j : Nat) : Prop :=
  ∃ p mode, c = .tfsOpen (some p) mode ∧ validPathname p = true ∧
    (s.HasFile (skipSlash p) j ∧ mode &&& tfsOTrunc ≠ 0 ∨
      ¬ s.InDir (skipSlash p) ∧ mode &&& tfsOCreat ≠ 0 ∧
        firstFit (isFree s.freeinodeTs) s.fsParams.maxInodeCount = some j)

/-- No inode is made empty into which a handle has run. -/
def KeepsOffsets (c : TfsCall) (s : TfsState) : Prop :=
  ∀ j f, s.Empties c j → s.IsOpen f → (s.openFileTable f).ofInumber = j →
    (s.openFileTable f).ofOffset = 0

/-- No handle is past the end of its inode. -/
def OffsetsFit (s : TfsState) : Prop :=
  ∀ f j : Nat, s.IsOpen f → (s.openFileTable f).ofInumber = j →
    (s.openFileTable f).ofOffset ≤ (s.inodeTable j).iSize

theorem Inv.inside (hs : s.Inv) (h : s.OffsetsFit) : s.OffsetsInside := by
  intro f hf
  obtain ⟨j, hj, -, -, hsane⟩ := hs.handle f hf
  have hoff := h f j hf hj
  have hsize := hsane.1
  have hb := hs.range.blockSize
  refine ⟨j, hj, hoff, hsize, fun len => ?_, fun len hlen => ?_⟩
  · rw [toRead]
    omega
  · rw [toWrite]
    split
    · omega
    · omega

/-! ### One call -/

theorem inodeTable_addToOpenFileTable {inumber : Int} :
    (addToOpenFileTable inumber off s).2.inodeTable = s.inodeTable := by
  rw [addToOpenFileTable]
  split <;> rfl

/-- A handle that was open still is, as it was. -/
theorem isOpen_addToOpenFileTable {inumber : Int} (hf : s.IsOpen f) :
    (addToOpenFileTable inumber off s).2.IsOpen f ∧
      (addToOpenFileTable inumber off s).2.openFileTable f = s.openFileTable f := by
  rw [addToOpenFileTable]
  split
  case h_1 i hi =>
    have hfi : f ≠ i := by
      rintro rfl
      have htaken := hf.2
      rw [(free_of_firstFit hi).2] at htaken
      cases htaken
    refine ⟨⟨hf.1, ?_⟩, Function.update_of_ne hfi _ _⟩
    exact (Function.update_of_ne hfi _ _).trans hf.2
  case h_2 => exact ⟨hf, rfl⟩

theorem OffsetsFit.addToOpenFileTable (h : s.OffsetsFit) (hoff : off ≤ (s.inodeTable j).iSize) :
    (addToOpenFileTable j off s).2.OffsetsFit := by
  cases hnext : s.nextHandle with
  | none =>
    rw [addToOpenFileTable_none hnext]
    exact h
  | some i =>
    rw [addToOpenFileTable_some hnext]
    rintro f k ⟨hlt, htaken⟩ hk
    by_cases hfi : f = i
    · subst hfi
      simp only [openHandle, Function.update_self, Int.natCast_inj] at hk ⊢
      exact hk ▸ hoff
    · simp only [openHandle, Function.update_of_ne hfi] at htaken hk ⊢
      exact h f k ⟨hlt, htaken⟩ hk

/-- An inode is made empty, with no handle past its start. -/
theorem OffsetsFit.of_empty (h : s.OffsetsFit) (hopen : ∀ f, s'.IsOpen f ↔ s.IsOpen f)
    (htable : s'.openFileTable = s.openFileTable)
    (hinode : ∀ k ≠ j, (s'.inodeTable k).iSize = (s.inodeTable k).iSize)
    (hzero : ∀ f, s.IsOpen f → (s.openFileTable f).ofInumber = j → (s.openFileTable f).ofOffset = 0) :
    s'.OffsetsFit := by
  intro f k hf hk
  rw [htable] at hk ⊢
  by_cases hkj : k = j
  · subst hkj
    rw [hzero f ((hopen f).mp hf) hk]
    exact Nat.zero_le _
  · rw [hinode k hkj]
    exact h f k ((hopen f).mp hf) hk

theorem OpenSpec.offsetsFit {r : Int × TfsState} (h : OpenSpec s name mode r)
    (hfit : s.OffsetsFit) (hkeeps : KeepsOffsets (.tfsOpen name mode) s) : r.2.OffsetsFit := by
  cases h with
  | invalid => exact hfit
  | missing => exact hfit
  | noInode => exact hfit
  | existing p j hp hv hj =>
    subst hp
    refine OffsetsFit.addToOpenFileTable ?_ ?_
    · rw [TfsState.truncated]
      split
      case isTrue hm =>
        exact hfit.of_empty (fun _ => Iff.rfl) rfl (fun k hk => by rw [truncate_inode_ne hk])
          fun f hf hfj => hkeeps j f ⟨p, mode, rfl, hv, Or.inl ⟨hj, hm⟩⟩ hf hfj
      case isFalse => exact hfit
    · rw [openOffset]
      split
      · exact le_rfl
      · exact Nat.zero_le _
  | noEntry p k hp hv hno hm hk =>
    subst hp
    have hin : ¬ s.InDir (skipSlash p) := not_exists.mpr hno
    exact hfit.of_empty (fun _ => Iff.rfl) rfl (fun l hl => by rw [resetInode_inode_ne hl])
      fun f hf hfk => hkeeps k f ⟨p, mode, rfl, hv, Or.inr ⟨hin, hm, hk⟩⟩ hf hfk
  | created p k i hp hv hno hm hk hi hlen =>
    subst hp
    have hin : ¬ s.InDir (skipSlash p) := not_exists.mpr hno
    refine OffsetsFit.addToOpenFileTable ?_ (Nat.zero_le _)
    exact hfit.of_empty (fun _ => Iff.rfl) rfl
      (fun l hl => congrArg Inode.iSize (resetInode_inode_ne hl))
      fun f hf hfk => hkeeps k f ⟨p, mode, rfl, hv, Or.inr ⟨hin, hm, hk⟩⟩ hf hfk

/-- Handle `f` moves on, and the sizes are no smaller. -/
theorem OffsetsFit.setOffset (h : s.OffsetsFit) (hopen : ∀ f, s'.IsOpen f ↔ s.IsOpen f)
    (htable : s'.openFileTable = s.openFileTable)
    (hinode : ∀ k, (s.inodeTable k).iSize ≤ (s'.inodeTable k).iSize)
    (hoff : ∀ j : Nat, (s.openFileTable f).ofInumber = j → off ≤ (s'.inodeTable j).iSize) :
    (s'.setOffset f off).OffsetsFit := by
  intro f' k hf' hk
  rw [ofInumber_setOffset, htable] at hk
  by_cases hff : f' = f
  · subst hff
    simpa [TfsState.setOffset] using hoff k hk
  · have hfit := (h f' k ((hopen f').mp hf') hk).trans (hinode k)
    simpa [TfsState.setOffset, hff, htable] using hfit

/-- **The step lemma.** -/
theorem CallSpec.offsetsFit (h : CallSpec s c (r, s')) (hfit : s.OffsetsFit)
    (hkeeps : KeepsOffsets c s) : s'.OffsetsFit := by
  cases h with
  | tfsOpen h => exact h.offsetsFit hfit hkeeps
  | tfsClose h =>
    cases h with
    | closed => exact hfit
    | done f₀ =>
      rintro f j ⟨hlt, htaken⟩ hj
      have hff : f ≠ f₀ := by
        rintro rfl
        simp [closeHandle] at htaken
      exact hfit f j ⟨hlt, by simpa [closeHandle, hff] using htaken⟩ hj
  | tfsRead h =>
    cases h with
    | closed => exact hfit
    | nothing => exact hfit
    | read f j n hf hopen hj hlt hn =>
      refine hfit.setOffset (fun _ => Iff.rfl) rfl (fun _ => le_rfl) fun j' hj' => ?_
      obtain rfl : j = j' := by omega
      omega
    | stray f j n bytes hst =>
      have hle := hfit f j hst.2.1 hst.2.2.1
      exact absurd hst.2.2.2.1 (not_lt.mpr hle)
  | tfsWrite h =>
    cases h with
    | closed => exact hfit
    | nothing => exact hfit
    | noBlock => exact hfit
    | wrote f j b n hf hopen hj hb hn =>
      refine hfit.setOffset (fun _ => Iff.rfl) rfl (fun k => ?_) fun j' hj' => ?_
      · by_cases hkj : k = j
        · subst hkj
          rw [writeBlock_inode]
          exact le_max_left _ _
        · rw [writeBlock_inode_ne hkj]
      · obtain rfl : j = j' := by omega
        rw [writeBlock_inode, List.length_take]
        dsimp only
        omega
  | tfsUnlink h =>
    cases h with
    | invalid => exact hfit
    | missing => exact hfit
    | removed => exact hfit

/-- A call that makes an inode empty returns, and leaves the handles as they were. -/
theorem Inv.empties_spec (hs : s.Inv) (h : s.Empties c j) :
    ∃ r s', Tfs.tfsCall c s = .ok (r, s') ∧ (s'.inodeTable j).iSize = 0 ∧
      ∀ f, s.IsOpen f → s'.IsOpen f ∧ s'.openFileTable f = s.openFileTable f := by
  obtain ⟨p, mode, rfl, hv, h⟩ := h
  obtain ⟨r, hopen, hspec⟩ := hs.tfsOpen_spec (some p) mode
  refine ⟨⟨r.1, []⟩, r.2, by rw [Tfs.tfsCall, hopen]; rfl, ?_⟩
  cases hspec with
  | invalid hinvalid => exact absurd ((hinvalid p rfl).symm.trans hv) (by decide)
  | missing p' hp _ hno hm =>
    obtain rfl := Option.some.inj hp
    rcases h with ⟨hj, -⟩ | ⟨-, hm', -⟩
    · exact absurd hj (hno j)
    · exact absurd hm hm'
  | existing p' j' hp _ hj' =>
    obtain rfl := Option.some.inj hp
    rcases h with ⟨hj, hm⟩ | ⟨hin, -⟩
    · obtain rfl := hs.hasFile_inode hj hj'
      rw [inodeTable_addToOpenFileTable, TfsState.truncated, if_pos hm, truncate_inode]
      exact ⟨rfl, fun f hf => isOpen_addToOpenFileTable (s := s.truncate j) hf⟩
    · exact absurd ⟨j', hj'⟩ hin
  | noInode p' hp _ hno _ hfull =>
    obtain rfl := Option.some.inj hp
    rcases h with ⟨hj, -⟩ | ⟨-, -, hk⟩
    · exact absurd hj (hno j)
    · cases hfull.symm.trans hk
  | noEntry p' k hp _ hno _ hk =>
    obtain rfl := Option.some.inj hp
    rcases h with ⟨hj, -⟩ | ⟨-, -, hk'⟩
    · exact absurd hj (hno j)
    · obtain rfl := Option.some.inj (hk.symm.trans hk')
      rw [resetInode_inode]
      exact ⟨rfl, fun f hf => ⟨hf, rfl⟩⟩
  | created p' k i hp _ hno _ hk =>
    obtain rfl := Option.some.inj hp
    rcases h with ⟨hj, -⟩ | ⟨-, -, hk'⟩
    · exact absurd hj (hno j)
    · obtain rfl := Option.some.inj (hk.symm.trans hk')
      rw [inodeTable_addToOpenFileTable]
      refine ⟨congrArg Inode.iSize resetInode_inode, fun f hf => ?_⟩
      exact isOpen_addToOpenFileTable (s := s.createFile k i (skipSlash p)) hf

/-- A handle that has run into what is made empty is past its end. -/
theorem Inv.not_offsetsInside (hs : s.Inv) (h : ¬ KeepsOffsets c s) :
    ∃ r s', Tfs.tfsCall c s = .ok (r, s') ∧ ¬ s'.OffsetsInside := by
  unfold KeepsOffsets at h
  push Not at h
  obtain ⟨j, f, hempties, hf, hj, hpos⟩ := h
  obtain ⟨r, s', hcall, hzero, hopen⟩ := hs.empties_spec hempties
  refine ⟨r, s', hcall, fun hinside => ?_⟩
  obtain ⟨hf', hsame⟩ := hopen f hf
  obtain ⟨j', hin⟩ := hinside f hf'
  have hinum := hin.inumber
  have hoff := hin.offset
  rw [hsame] at hinum hoff
  obtain rfl : j' = j := Int.natCast_inj.mp (hinum.symm.trans hj)
  rw [hzero] at hoff
  exact hpos (Nat.le_zero.mp hoff)

end TfsState

variable {params : Option TfsParams} {s : TfsState}

/-- **Offsets and sizes.**  In every state that the run gets to every handle is inside its
file, and what is copied through it inside the block, in exactly the runs in which no
file is made empty while a handle has run into its inode. -/
theorem offsets_iff (hinit : Started params s) (hp : (params.getD tfsDefaultParams).InRange)
    (cs : List TfsCall) :
    (∀ n rs s', runCalls (cs.take n) s = .ok (rs, s') → s'.OffsetsInside) ↔
      Outcome.Meets KeepsOffsets tfsCall cs s := by
  have hfresh := hinit.fresh hp
  refine Outcome.good_iff_meets (I := fun s => s.Inv ∧ s.OffsetsFit) ?_ ?_ ?_ ?_
  · rintro c s r s' ⟨hs, hfit⟩ hkeeps hcall
    exact ⟨hs.tfsCall hcall, (hs.callSpec hcall).offsetsFit hfit hkeeps⟩
  · rintro s ⟨hs, hfit⟩
    exact hs.inside hfit
  · rintro c s ⟨hs, -⟩ hno
    exact hs.not_offsetsInside hno
  · exact ⟨hfresh.inv, fun f j hf => absurd hf (hfresh.noOpen f)⟩

/-- A file that is created and written. -/
def oneFile : List TfsCall :=
  [.tfsOpen (some (.ofBuffer [47, 97])) tfsOCreat, .tfsWrite 0 [120]]

theorem offsetsInside_oneFile : Outcome.Meets KeepsOffsets tfsCall oneFile initial ∧
    ∀ n rs s, runCalls (oneFile.take n) initial = .ok (rs, s) → s.OffsetsInside := by
  have hmeets : Outcome.Meets KeepsOffsets tfsCall oneFile initial := by
    refine ⟨fun j f _ hf => ?_, ?_⟩
    · exact absurd hf ((started_initial.fresh inRange_tfsDefaultParams).noOpen f)
    split
    · refine ⟨?_, by split <;> trivial⟩
      rintro j f ⟨p, mode, hc, -⟩
      cases hc
    · trivial
  exact ⟨hmeets, (offsets_iff started_initial inRange_tfsDefaultParams oneFile).mpr hmeets⟩

/-- A file that is truncated while handle 0 is at its end. -/
def truncatedWhileOpen : List TfsCall :=
  oneFile ++ [.tfsOpen (some (.ofBuffer [47, 97])) tfsOTrunc]

theorem not_offsetsInside_truncated :
    ∃ rs s, runCalls truncatedWhileOpen initial = .ok (rs, s) ∧ ¬ s.OffsetsInside := by
  have h : (runCalls truncatedWhileOpen initial).map (fun p =>
      (p.2.freeOpenFileEntries 0, p.2.fsParams.maxOpenFilesCount,
        p.2.openFileTable 0, (p.2.inodeTable 1).iSize)) =
      .ok (.taken, 16, ⟨1, 1⟩, 0) := by
    decide +kernel
  obtain ⟨⟨rs, s⟩, hrun, heq⟩ := Outcome.map_eq_ok.mp h
  simp only [Prod.mk.injEq] at heq
  obtain ⟨htaken, hcount, hentry, hsize⟩ := heq
  refine ⟨rs, s, hrun, fun hinside => ?_⟩
  obtain ⟨j, hin⟩ := hinside 0 ⟨by omega, htaken⟩
  have hinum := hin.inumber
  have hoff := hin.offset
  rw [hentry] at hinum hoff
  obtain rfl : j = 1 := by
    dsimp only at hinum
    omega
  rw [hsize] at hoff
  exact absurd hoff (by decide)

end Tfs
