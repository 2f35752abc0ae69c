/-
What a `tfs_open` that fails leaves behind.

Of the places at which it returns -1, two come after a change: the inode of a file that
finds no directory entry is deleted again, and a file that finds no entry in the table of
open files stays, as a comment at the end of the function says.  Nothing undoes a
truncation, which comes before the table is asked.

* **`tfsOpen_failed_iff`** — what was there is there still, unless an existing file with
  data has been truncated and the table is full;
* `not_preserved_fullTable` — a file with data, truncated for nothing.
-/
import Mbroker.TfsOpenFiles
import Mbroker.TfsRuns

namespace Tfs

open Memory SlotTable TfsState

namespace TfsState

variable {s s' : TfsState} {p q : CString} {name : Option CString} {mode j k : Nat}

/-- A new file could be created, and there is only no entry to open it. -/
def OnlyTableFull (s : TfsState) (name : Option CString) (mode : Nat) : Prop :=
  ∃ p, name = some p ∧ mode &&& tfsOCreat ≠ 0 ∧ ¬ s.InDir (skipSlash p) ∧ s.RoomFor p ∧ s.NoHandle

/-- What an open that fails should leave as it was. -/
structure Preserved (s : TfsState) (name : Option CString) (mode : Nat) (s' : TfsState) : Prop where
  files : ∀ q bs, s.readFile q = some bs → s'.readFile q = some bs
  blocks : ∀ b, TakenBlock s' b ↔ TakenBlock s b
  openFiles : s'.openFiles = s.openFiles
  names : (∀ q, s'.InDir q ↔ s.InDir q) ∨ s.OnlyTableFull name mode

/-- An existing file with data is to be truncated, and there is no entry to open it. -/
def TruncatesInVain (s : TfsState) (name : Option CString) (mode : Nat) : Prop :=
  ∃ p bs, name = some p ∧ validPathname p = true ∧ mode &&& tfsOTrunc ≠ 0 ∧
    s.readFile (skipSlash p) = some bs ∧ bs ≠ [] ∧ s.NoHandle

theorem preserved_refl : s.Preserved name mode s :=
  ⟨fun _ _ h => h, fun _ => Iff.rfl, rfl, Or.inl fun _ => Iff.rfl⟩

/-- Resetting a free inode. -/
theorem Inv.preserved_resetInode (hs : s.Inv) (hk : s.freeinodeTs k = .free) :
    s.Preserved name mode (s.resetInode k) := by
  refine ⟨fun q bs h => ?_, fun _ => Iff.rfl, rfl, Or.inl fun _ => Iff.rfl⟩
  obtain ⟨j, hj, rfl⟩ := hs.readFile_eq_some.mp h
  have hs' := hs.resetInode (hs.pos_of_free hk) hk
  refine hs'.readFile_eq_some.mpr ⟨j, hj, contents_resetInode_ne ?_⟩
  exact (hs.isFile_of_hasFile hj).ne_of_free hk

/-- A new file beside the others. -/
theorem Inv.readFile_createFile {i : Nat} {bs : List UInt8} (hs : s.Inv)
    (hv : validPathname p = true) (hno : ∀ j, ¬ s.HasFile (skipSlash p) j)
    (hk : firstFit (isFree s.freeinodeTs) s.fsParams.maxInodeCount = some k)
    (hi : firstFit (fun i => dInumber s.fsData 0 i == -1) s.maxDirEntries = some i)
    (hlen : (skipSlash p).strlen < maxFileName) (h : s.readFile q = some bs) :
    (s.createFile k i (skipSlash p)).readFile q = some bs := by
  obtain ⟨j, hj, rfl⟩ := hs.readFile_eq_some.mp h
  have hfile := hs.isFile_of_hasFile hj
  have hs' := hs.createFile hk hi (validPathname_strlen hv) hlen hno
  refine hs'.readFile_eq_some.mpr ⟨j, (hs.hasFile_createFile hk hi hlen).mpr (Or.inl hj), ?_⟩
  exact hs.contents_createFile_ne hfile (hfile.ne_of_free (free_of_firstFit hk).2)
    (firstFit_eq_some.mp hi).1

theorem roomFor_of_firstFit {i : Nat} (hv : validPathname p = true)
    (hk : firstFit (isFree s.freeinodeTs) s.fsParams.maxInodeCount = some k)
    (hi : firstFit (fun i => dInumber s.fsData 0 i == -1) s.maxDirEntries = some i)
    (hlen : (skipSlash p).strlen < maxFileName) : s.RoomFor p := by
  obtain ⟨hin, hdead, -⟩ := firstFit_eq_some.mp hi
  exact ⟨hv, hlen, ⟨k, free_of_firstFit hk⟩, ⟨i, hin, by simpa using hdead⟩⟩

/-- An open of an existing file that fails has found the table full. -/
theorem noHandle_of_failed {j off : Nat} (h : (addToOpenFileTable j off s).1 = -1) :
    s.NoHandle ∧ (addToOpenFileTable j off s).2 = s := by
  cases hf : s.nextHandle with
  | none => exact ⟨nextHandle_eq_none.mp hf, by rw [addToOpenFileTable_none hf]⟩
  | some f =>
    rw [addToOpenFileTable_some hf] at h
    exact absurd h (by dsimp only; omega)

theorem noHandle_truncated : (s.truncated mode j).NoHandle ↔ s.NoHandle := by
  rw [TfsState.truncated]
  split
  · exact Iff.rfl
  · exact Iff.rfl

/-- Truncation changes nothing when it is not asked for, or the file is empty. -/
theorem truncated_eq (h : mode &&& tfsOTrunc = 0 ∨ s.contents j = []) : s.truncated mode j = s := by
  rw [TfsState.truncated]
  split
  case isTrue hm =>
    have hempty := congrArg List.length (h.resolve_left hm)
    rw [length_contents] at hempty
    exact truncate_of_empty hempty
  case isFalse => rfl

theorem not_truncatesInVain (hs : s.Inv) (hp : name = some p)
    (hno : ∀ j, ¬ s.HasFile (skipSlash p) j) : ¬ s.TruncatesInVain name mode := by
  rintro ⟨p', bs, hp', -, -, hbs, -⟩
  obtain rfl := Option.some.inj (hp.symm.trans hp')
  obtain ⟨j, hj, -⟩ := hs.readFile_eq_some.mp hbs
  exact hno j hj

/-- **An open that fails** preserves what was there, or has truncated a file in vain. -/
theorem OpenSpec.preserved {r : Int × TfsState} (h : OpenSpec s name mode r) (hs : s.Inv)
    (hneg : r.1 = -1) : s.Preserved name mode r.2 ↔ ¬ s.TruncatesInVain name mode := by
  cases h with
  | existing p j hp hv hj =>
    obtain ⟨hfull, hsame⟩ := noHandle_of_failed hneg
    rw [noHandle_truncated] at hfull
    rw [hsame]
    have hread := hs.readFile_of_hasFile hj
    by_cases hvain : mode &&& tfsOTrunc = 0 ∨ s.contents j = []
    · rw [truncated_eq hvain]
      refine iff_of_true preserved_refl ?_
      rintro ⟨p', bs, hp', -, hm, hbs, hne, -⟩
      obtain rfl := Option.some.inj (hp.symm.trans hp')
      rcases hvain with hm' | hempty
      · exact hm hm'
      · exact hne ((Option.some.inj (hbs.symm.trans hread)).trans hempty)
    · rw [not_or] at hvain
      obtain ⟨hm, hne⟩ := hvain
      refine iff_of_false (fun hpres => ?_) (not_not.mpr ⟨p, _, hp, hv, hm, hread, hne, hfull⟩)
      -- The file is empty now.
      have hs' := hs.truncated mode (hs.isFile_of_hasFile hj)
      have hbs := hpres.files _ _ hread
      rw [TfsState.truncated, if_pos hm] at hbs hs'
      rw [hs'.readFile_of_hasFile hj, contents_truncate] at hbs
      exact hne (Option.some.inj hbs).symm
  | created p k i hp hv hno hm hk hi hlen =>
    obtain ⟨hfull, hsame⟩ := noHandle_of_failed hneg
    rw [hsame]
    have hin : ¬ s.InDir (skipSlash p) := not_exists.mpr hno
    refine iff_of_true ⟨fun q bs h => hs.readFile_createFile hv hno hk hi hlen h, fun _ => Iff.rfl,
      rfl, Or.inr ⟨p, hp, hm, hin, roomFor_of_firstFit hv hk hi hlen, hfull⟩⟩ ?_
    exact not_truncatesInVain hs hp hno
  | invalid hinvalid =>
    refine iff_of_true preserved_refl ?_
    rintro ⟨p, bs, hp, hv, -⟩
    exact absurd ((hinvalid p hp).symm.trans hv) (by decide)
  | missing p hp _ hno => exact iff_of_true preserved_refl (not_truncatesInVain hs hp hno)
  | noInode p hp _ hno => exact iff_of_true preserved_refl (not_truncatesInVain hs hp hno)
  | noEntry p k hp _ hno _ hk =>
    exact iff_of_true (hs.preserved_resetInode (free_of_firstFit hk).2)
      (not_truncatesInVain hs hp hno)

/-- With a file truncated in vain the open has failed. -/
theorem OpenSpec.failed {r : Int × TfsState} (h : OpenSpec s name mode r) (hs : s.Inv)
    (hvain : s.TruncatesInVain name mode) : r.1 = -1 := by
  cases h with
  | existing p j hp hv hj =>
    obtain ⟨-, -, -, -, -, -, -, hfull⟩ := hvain
    rw [addToOpenFileTable_none (nextHandle_eq_none.mpr (noHandle_truncated.mpr hfull))]
  | created p k i hp hv hno => exact absurd hvain (not_truncatesInVain hs hp hno)
  | invalid => rfl
  | missing => rfl
  | noInode => rfl
  | noEntry => rfl

end TfsState

variable {params : Option TfsParams} {s₁ s : TfsState} {cs : List TfsCall} {rs : List Reply}

/-- **A failed open.**  In every state that a run reaches, a `tfs_open` that returns -1
leaves every file with what it holds, the blocks and the open files as they were, and
the names too unless there was only no entry to open a new file, exactly when it has not
truncated a file with data before it found the table full. -/
theorem tfsOpen_failed_iff (hinit : Started params s₁) (hp : (params.getD tfsDefaultParams).InRange)
    (hrun : runCalls cs s₁ = .ok (rs, s)) (name : Option CString) (mode : Nat) :
    (∀ s', tfsOpen name mode s = .ok (-1, s') → s.Preserved name mode s') ↔
      ¬ s.TruncatesInVain name mode := by
  have hs := (hinit.fresh hp).inv.runCalls hrun
  obtain ⟨⟨ret, s'⟩, hopen, hspec⟩ := hs.tfsOpen_spec name mode
  by_cases hneg : ret = -1
  · subst hneg
    rw [← hspec.preserved hs rfl]
    constructor
    · exact fun h => h s' hopen
    · intro h s'' hopen'
      obtain ⟨-, rfl⟩ := Prod.mk.inj (Outcome.ok.inj (hopen.symm.trans hopen'))
      exact h
  · refine iff_of_true (fun s'' hopen' => ?_) fun hvain => hneg (hspec.failed hs hvain)
    exact absurd (Prod.mk.inj (Outcome.ok.inj (hopen.symm.trans hopen'))).1 hneg

/-- A file with data, and as many handles of it as there can be. -/
def fullTable : List TfsCall :=
  [.tfsOpen (some (.ofBuffer [47, 97])) tfsOCreat, .tfsWrite 0 [120]] ++
    List.replicate 15 (.tfsOpen (some (.ofBuffer [47, 97])) 0)

/-- Once more, without truncation. -/
theorem preserved_fullTable : ∃ rs s s', runCalls fullTable initial = .ok (rs, s) ∧
    tfsOpen (some (.ofBuffer [47, 97])) 0 s = .ok (-1, s') ∧
      s.Preserved (some (.ofBuffer [47, 97])) 0 s' := by
  have h : (runCalls fullTable initial >>= fun p =>
      (tfsOpen (some (.ofBuffer [47, 97])) 0 p.2).map Prod.fst) = .ok (-1) := by
    decide +kernel
  obtain ⟨⟨rs, s⟩, hrun, h⟩ := Outcome.bind_eq_ok.mp h
  obtain ⟨⟨ret, s'⟩, hopen, rfl⟩ := Outcome.map_eq_ok.mp h
  refine ⟨rs, s, s', hrun, hopen, ?_⟩
  refine (tfsOpen_failed_iff started_initial inRange_tfsDefaultParams hrun _ 0).mpr ?_ s' hopen
  rintro ⟨p, bs, -, -, hm, -⟩
  exact absurd rfl hm

/-- Once more, with truncation. -/
theorem not_preserved_fullTable : ∃ rs s s', runCalls fullTable initial = .ok (rs, s) ∧
    tfsOpen (some (.ofBuffer [47, 97])) tfsOTrunc s = .ok (-1, s') ∧
      ¬ s.Preserved (some (.ofBuffer [47, 97])) tfsOTrunc s' := by
  have h : (runCalls fullTable initial >>= fun p =>
      (tfsOpen (some (.ofBuffer [47, 97])) tfsOTrunc p.2).map fun w =>
        (w.1, p.2.readFile (.ofBuffer [97]), w.2.readFile (.ofBuffer [97]))) =
      .ok (-1, some [120], some []) := by
    decide +kernel
  obtain ⟨⟨rs, s⟩, hrun, h⟩ := Outcome.bind_eq_ok.mp h
  obtain ⟨⟨ret, s'⟩, hopen, heq⟩ := Outcome.map_eq_ok.mp h
  simp only [Prod.mk.injEq] at heq
  obtain ⟨rfl, hread, hread'⟩ := heq
  refine ⟨rs, s, s', hrun, hopen, fun hpres => ?_⟩
  have hsame := hpres.files _ _ hread
  rw [hread'] at hsame
  simp at hsame

end Tfs
