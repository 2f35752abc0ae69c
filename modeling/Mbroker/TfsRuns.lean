/-
Runs of TécnicoFS from a successful `tfs_init`.

No hypothesis is made on the calls: files are removed and truncated while they
are open, and handles are used all the same.

* **`metadata_of_run`** — the metadata stay whole: the directory and the taken
  inodes correspond one to one, and no two files share a block;
* **`runCalls_panic_iff`** — the calls whose assertion fails are the reads that
  meet, through a handle, an inode reset since the handle was opened.
-/
import Mbroker.TfsSpec

namespace Tfs

open Memory SlotTable TfsState

variable {s s₁ : TfsState} {params : Option TfsParams} {cs : List TfsCall} {rs : List Reply}

/-- A state that `tfs_init` has just left, with success. -/
def Started (params : Option TfsParams) (s : TfsState) : Prop :=
  ∃ m s₀, tfsInit params m s₀ = .ok (0, s)

theorem Started.fresh (h : Started params s) (hp : (params.getD tfsDefaultParams).InRange) :
    s.Fresh := by
  obtain ⟨m, s₀, hinit⟩ := h
  exact (fresh_of_tfsInit hp hinit).1

theorem Started.fsParams (h : Started params s) (hp : (params.getD tfsDefaultParams).InRange) :
    s.fsParams = params.getD tfsDefaultParams := by
  obtain ⟨m, s₀, hinit⟩ := h
  exact (fresh_of_tfsInit hp hinit).2

theorem inRange_tfsDefaultParams : tfsDefaultParams.InRange := by
  constructor <;> decide

/-- The state that `tfs_init(NULL)` leaves when memory comes zeroed. -/
def initial : TfsState :=
  (stateInit tfsDefaultParams Malloc.zeroed TfsState.uninitialised).2.withRoot

theorem started_initial : Started none initial :=
  ⟨_, _, tfsInit_eq none inRange_tfsDefaultParams (by decide) (by decide) (by decide) rfl⟩

/-! ### The metadata -/

/-- Where the root directory's entries are: the block of inode 0. -/
def rootDir (s : TfsState) : Nat := (s.inodeTable 0).iDataBlock.toNat * s.fsParams.blockSize

/-- A taken inode. -/
def TakenInode (s : TfsState) (j : Nat) : Prop :=
  j < s.fsParams.maxInodeCount ∧ s.freeinodeTs j = .taken

/-- A taken block. -/
def TakenBlock (s : TfsState) (b : Int) : Prop :=
  0 ≤ b ∧ b < s.fsParams.maxBlockCount ∧ s.freeBlocks b.toNat = .taken

/-- The directory, the inodes and the blocks are consistent. -/
structure Metadata (s : TfsState) : Prop where
  bijection : Set.BijOn (fun i => dInumber s.fsData (rootDir s) i)
    {i | i < s.maxDirEntries ∧ Live s.fsData (rootDir s) i}
    {inumber | ∃ j : Nat, inumber = j ∧ j ≠ 0 ∧ TakenInode s j}
  files : ∀ j ≠ 0, TakenInode s j → (s.inodeTable j).iNodeType = .tFile
  named : ∀ i < s.maxDirEntries, Live s.fsData (rootDir s) i →
    ∃ q, NameIs s.fsData (rootDir s) i q ∧ 1 ≤ q.strlen ∧ q.strlen ≤ 39
  distinct : ∀ i < s.maxDirEntries, ∀ k < s.maxDirEntries, ∀ q,
    Live s.fsData (rootDir s) i → Live s.fsData (rootDir s) k →
    NameIs s.fsData (rootDir s) i q → NameIs s.fsData (rootDir s) k q → i = k
  root : TakenInode s 0 ∧ (s.inodeTable 0).iNodeType = .tDirectory ∧
    TakenBlock s (s.inodeTable 0).iDataBlock
  rootBlock : ∀ j ≠ 0, TakenInode s j →
    (s.inodeTable j).iDataBlock ≠ (s.inodeTable 0).iDataBlock
  sizes : ∀ j, TakenInode s j → 0 < (s.inodeTable j).iSize →
    (s.inodeTable j).iSize ≤ s.fsParams.blockSize ∧ TakenBlock s (s.inodeTable j).iDataBlock
  blocks : ∀ j k, TakenInode s j → TakenInode s k → 0 < (s.inodeTable j).iSize →
    0 < (s.inodeTable k).iSize → (s.inodeTable j).iDataBlock = (s.inodeTable k).iDataBlock → j = k

theorem TakenInode.isFile {j : Nat} (h : TakenInode s j) (hj : j ≠ 0) : s.IsFile j :=
  ⟨Nat.pos_of_ne_zero hj, h⟩

theorem TfsState.Inv.takenBlock (hs : s.Inv) {j : Nat} (hj : s.IsFile j)
    (hpos : 0 < (s.inodeTable j).iSize) :
    TakenBlock s (s.inodeTable j).iDataBlock := by
  obtain ⟨hb, -, hlt⟩ := (hs.sane j hj).block hpos
  rw [hb]
  exact ⟨by omega, by omega, hs.owned j hj hpos⟩

/-- A file's block number, whether or not the file has data, is not the root's. -/
theorem TfsState.Inv.iDataBlock_ne_root (hs : s.Inv) {j : Nat} (hj : s.IsFile j) :
    (s.inodeTable j).iDataBlock ≠ (s.inodeTable 0).iDataBlock := by
  rw [hs.root.atZero]
  rcases (hs.sane j hj).2 with ⟨hnone, -⟩ | ⟨b, hb, hb0, -⟩ <;> omega

theorem TfsState.Inv.metadata (hs : s.Inv) : Metadata s := by
  have hroot : rootDir s = 0 := by simp [rootDir, hs.root.atZero]
  have hzero : TakenInode s 0 := ⟨hs.root.inode, hs.root.taken⟩
  have hrootBlock : TakenBlock s (s.inodeTable 0).iDataBlock := by
    rw [hs.root.atZero]
    exact ⟨le_refl _, by exact_mod_cast hs.root.block, hs.root.blockTaken⟩
  refine ⟨?_, fun j hj0 hj => hs.isFile j (hj.isFile hj0), ?_, ?_,
    ⟨hzero, hs.root.isDir, hrootBlock⟩,
    fun j hj0 hj => hs.iDataBlock_ne_root (hj.isFile hj0), ?_, ?_⟩
  · rw [hroot]
    refine ⟨?_, ?_, ?_⟩
    · rintro i ⟨hi, hl⟩
      obtain ⟨j, hj, hj0, hfile⟩ := hs.entry i hi hl
      exact ⟨j, hj, hj0.ne', hfile⟩
    · rintro i ⟨hi, hl⟩ k ⟨hk, -⟩ heq
      exact hs.entryInj i hi k hk hl heq
    · rintro - ⟨j, rfl, hj0, hj⟩
      obtain ⟨i, hi, hij⟩ := hs.listed j (hj.isFile hj0)
      exact ⟨i, ⟨hi, live_of_inumber hij⟩, hij⟩
  · intro i hi hl
    rw [hroot] at hl ⊢
    obtain ⟨q, hq, h1, h2⟩ := hs.dir.named i hi hl
    exact ⟨q, hq, h1, Nat.le_of_lt_succ h2⟩
  · rw [hroot]
    exact hs.dir.distinct
  · intro j hj hpos
    by_cases hj0 : j = 0
    · subst hj0
      exact ⟨hs.root.size.le, hrootBlock⟩
    · exact ⟨(hs.sane j (hj.isFile hj0)).1, hs.takenBlock (hj.isFile hj0) hpos⟩
  · intro j k hj hk hjpos hkpos heq
    by_cases hj0 : j = 0
    · by_cases hk0 : k = 0
      · rw [hj0, hk0]
      · subst hj0
        exact absurd heq.symm (hs.iDataBlock_ne_root (hk.isFile hk0))
    · by_cases hk0 : k = 0
      · subst hk0
        exact absurd heq (hs.iDataBlock_ne_root (hj.isFile hj0))
      · exact hs.blockInj j k (hj.isFile hj0) (hk.isFile hk0) hjpos hkpos (congrArg Int.toNat heq)

/-- **The metadata invariant over unrestricted runs.** -/
theorem metadata_of_run (hinit : Started params s₁) (hp : (params.getD tfsDefaultParams).InRange)
    (hrun : runCalls cs s₁ = .ok (rs, s)) : Metadata s :=
  ((hinit.fresh hp).inv.runCalls hrun).metadata

/-- A file that is written, removed, and read through the handle it still has. -/
def removedWhileOpen : List TfsCall :=
  [.tfsOpen (some (.ofBuffer [47, 97])) tfsOCreat, .tfsWrite 0 [120],
    .tfsUnlink (some (.ofBuffer [47, 97])), .tfsWrite 0 [121]]

theorem metadata_removedWhileOpen :
    ∃ rs s, runCalls removedWhileOpen initial = .ok (rs, s) ∧ Metadata s := by
  have h : replies removedWhileOpen initial = .ok [⟨0, []⟩, ⟨1, []⟩, ⟨0, []⟩, ⟨1, []⟩] := by
    decide +kernel
  obtain ⟨⟨rs, s⟩, hrun, -⟩ := Outcome.map_eq_ok.mp h
  exact ⟨rs, s, hrun, metadata_of_run started_initial inRange_tfsDefaultParams hrun⟩

/-! ### Assertions -/

/-- A read that meets an inode without a block: `data_block_get` is given `-1`. -/
def BlocklessRead (s : TfsState) (c : TfsCall) : Prop :=
  ∃ fhandle len f j, c = .tfsRead fhandle len ∧ s.StaleRead fhandle len f j ∧
    (s.inodeTable j).iDataBlock = -1

/-- A call that uses a handle whose offset is past the end of its inode: by then
the file has been removed or truncated. -/
def UsesStaleHandle (s : TfsState) (c : TfsCall) : Prop :=
  (∃ fhandle len f j, c = .tfsRead fhandle len ∧ s.StaleRead fhandle len f j) ∨
    ∃ fhandle buffer, c = .tfsWrite fhandle buffer ∧ s.WildWrite fhandle buffer

theorem TfsState.StaleRead.unique {fhandle : Int} {len f j f' j' : Nat}
    (h : s.StaleRead fhandle len f j) (h' : s.StaleRead fhandle len f' j') : f = f' ∧ j = j' := by
  obtain ⟨hf, -, hj, -⟩ := h
  obtain ⟨hf', -, hj', -⟩ := h'
  have hff : f = f' := by omega
  subst hff
  exact ⟨rfl, by omega⟩

theorem TfsState.StaleRead.panic {fhandle : Int} {len f j : Nat} (hs : s.Inv)
    (h : s.StaleRead fhandle len f j) (hb : (s.inodeTable j).iDataBlock = -1) :
    tfsRead fhandle len s = .panic "data_block_get: invalid block number" := by
  rcases hs.tfsRead_spec fhandle len with ⟨r, hr, hspec⟩ | ⟨f', j', hst, ⟨-, hr⟩ | ⟨hb', -⟩⟩
  · -- The read does not return.
    obtain ⟨hf, hopen, hj, hlt, hpos⟩ := h
    cases hspec with
    | closed hclosed => exact absurd hopen (hclosed f hf)
    | nothing f' j' hf' _ hj' hn =>
      obtain rfl : f = f' := by omega
      obtain rfl : j = j' := by omega
      omega
    | read f' j' n hf' _ hj' hlt' =>
      obtain rfl : f = f' := by omega
      obtain rfl : j = j' := by omega
      omega
    | stray f' j' n bytes hst hb' =>
      obtain ⟨-, rfl⟩ := TfsState.StaleRead.unique ⟨hf, hopen, hj, hlt, hpos⟩ hst
      exact absurd hb hb'
  · exact hr
  · obtain ⟨-, rfl⟩ := h.unique hst
    exact absurd hb hb'

/-- Which assertion fails, and when. -/
theorem TfsState.Inv.tfsCall_eq_panic (hs : s.Inv) {c : TfsCall} :
    (∃ msg, Tfs.tfsCall c s = .panic msg) ↔ BlocklessRead s c := by
  constructor
  · rintro ⟨msg, h⟩
    rcases hs.tfsCall_spec c with ⟨r, hr, -⟩ | hfail
    · cases hr.symm.trans h
    · rw [h] at hfail
      cases hfail with
      | noBlock hst hb => exact ⟨_, _, _, _, rfl, hst, hb⟩
  · rintro ⟨fhandle, len, f, j, rfl, hst, hb⟩
    exact ⟨_, by rw [Tfs.tfsCall, hst.panic hs hb]; rfl⟩

theorem TfsState.Inv.tfsCall_returns (hs : s.Inv) {c : TfsCall} (h : ¬ UsesStaleHandle s c) :
    ∃ r, Tfs.tfsCall c s = .ok r := by
  rcases hs.tfsCall_spec c with ⟨r, hr, -⟩ | hfail
  · exact ⟨r, hr⟩
  · refine absurd ?_ h
    generalize Tfs.tfsCall c s = o at hfail
    cases hfail with
    | wildWrite hw => exact Or.inr ⟨_, _, rfl, hw⟩
    | noBlock hst => exact Or.inl ⟨_, _, _, _, rfl, hst⟩
    | wildRead hst => exact Or.inl ⟨_, _, _, _, rfl, hst⟩

theorem addToOpenFileTable_ret {inumber : Int} {off : Nat} :
    -1 ≤ (addToOpenFileTable inumber off s).1 := by
  rw [addToOpenFileTable]
  cases firstFit (isFree s.freeOpenFileEntries) s.fsParams.maxOpenFilesCount with
  | none => exact le_refl _
  | some f => show (-1 : Int) ≤ (f : Int); omega

/-- A reply is `-1` or a value of the call. -/
theorem TfsState.CallSpec.ret {c : TfsCall} {r : Reply × TfsState} (h : CallSpec s c r) :
    -1 ≤ r.1.ret := by
  cases h with
  | tfsOpen h => cases h <;> first | exact le_refl _ | exact addToOpenFileTable_ret
  | tfsClose h => cases h <;> simp
  | tfsRead h => cases h <;> simp
  | tfsWrite h => cases h <;> simp
  | tfsUnlink h => cases h <;> simp

theorem TfsState.Inv.runCalls_ret (hs : s.Inv) (hrun : Tfs.runCalls cs s = .ok (rs, s₁)) :
    ∀ r ∈ rs, -1 ≤ r.ret := by
  induction cs generalizing s rs with
  | nil =>
    obtain ⟨rfl, -⟩ := Prod.mk.inj (Outcome.ok.inj hrun)
    simp
  | cons c cs ih =>
    obtain ⟨r, s₂, rs', hc, hcs, rfl⟩ := Outcome.runList_cons_eq_ok.mp hrun
    intro r' hr'
    rcases List.mem_cons.mp hr' with rfl | hmem
    · exact (hs.callSpec hc).ret
    · exact ih (hs.tfsCall hc) hcs r' hmem

/-- **Assertions over unrestricted runs**, with the default parameters: a run
panics exactly when it gets to a read that meets an inode without a block; what
it returns is at least `-1`; and it does return when no handle has gone stale. -/
theorem runCalls_panic_iff (hinit : Started none s) (cs : List TfsCall) :
    ((∃ msg, runCalls cs s = .panic msg) ↔
        ∃ c s', Outcome.Reaches tfsCall cs s c s' ∧ BlocklessRead s' c) ∧
      (∀ rs s', runCalls cs s = .ok (rs, s') → ∀ r ∈ rs, -1 ≤ r.ret) ∧
      ((∀ c s', Outcome.Reaches tfsCall cs s c s' → ¬ UsesStaleHandle s' c) →
        ∃ r, runCalls cs s = .ok r) := by
  have hs : s.Inv := (hinit.fresh inRange_tfsDefaultParams).inv
  have hreach : ∀ c s', Outcome.Reaches tfsCall cs s c s' → s'.Inv := fun c s' h =>
    h.invariant (fun _ _ _ _ hs h => hs.tfsCall h) hs
  refine ⟨?_, fun rs s' hrun => hs.runCalls_ret hrun, ?_⟩
  · constructor
    · rintro ⟨msg, h⟩
      obtain ⟨c, s', hc, hp⟩ := Outcome.runList_eq_panic.mp h
      exact ⟨c, s', hc, (hreach c s' hc).tfsCall_eq_panic.mp ⟨msg, hp⟩⟩
    · rintro ⟨c, s', hc, hb⟩
      obtain ⟨msg, hp⟩ := (hreach c s' hc).tfsCall_eq_panic.mpr hb
      exact ⟨msg, Outcome.runList_eq_panic.mpr ⟨c, s', hc, hp⟩⟩
  · intro h
    exact Outcome.runList_returns fun c s' hc => (hreach c s' hc).tfsCall_returns (h c s' hc)

/-- The file of an open handle is removed, its inode becomes that of a new,
empty file, and the handle is read. -/
def reusedWhileOpen : List TfsCall :=
  [.tfsOpen (some (.ofBuffer [47, 97])) tfsOCreat, .tfsWrite 0 [120],
    .tfsUnlink (some (.ofBuffer [47, 97])), .tfsOpen (some (.ofBuffer [47, 98])) tfsOCreat,
    .tfsRead 0 1]

theorem replies_reusedWhileOpen :
    replies reusedWhileOpen initial = .panic "data_block_get: invalid block number" := by
  decide +kernel

theorem runCalls_reusedWhileOpen : Started none initial ∧
    runCalls reusedWhileOpen initial = .panic "data_block_get: invalid block number" :=
  ⟨started_initial, Outcome.map_eq_panic.mp replies_reusedWhileOpen⟩

theorem blocklessRead_reusedWhileOpen :
    ∃ c s, Outcome.Reaches tfsCall reusedWhileOpen initial c s ∧ BlocklessRead s c :=
  (runCalls_panic_iff started_initial reusedWhileOpen).1.mp
    ⟨_, Outcome.map_eq_panic.mp replies_reusedWhileOpen⟩

end Tfs
