/-
The names in the root directory, and the calls that change them.

What `tfs_open` does for a new name, and what `tfs_unlink` does, depends on every
table but that of the open files; `withHandles` puts another one in its place.

* `Inv.tfsOpen_new`, `Inv.tfsClose_new` — a new file, opened and closed;
* `Inv.tfsUnlink_found`, `Inv.tfsUnlink_missing` — the removal of a name;
* `card_names` — there are no more names than entries.
-/
import Mbroker.TfsFiles

namespace Tfs

open Memory SlotTable

namespace TfsState

variable {s s' : TfsState} {p q : CString} {k f n : Nat} {o : Option Nat}
  {entries : Nat → OpenFileEntry} {free : Nat → AllocationState}

/-- The root directory holds the name. -/
def InDir (s : TfsState) (q : CString) : Prop := ∃ j, s.HasFile q j

/-- Another table of open files. -/
def withHandles (s : TfsState) (entries : Nat → OpenFileEntry) (free : Nat → AllocationState) :
    TfsState :=
  { s with openFileTable := entries, freeOpenFileEntries := free }

theorem inDir_withHandles : (s.withHandles entries free).InDir q ↔ s.InDir q := Iff.rfl

/-- `tfs_lookup` knows the names. -/
theorem Inv.inDir_iff (hs : s.Inv) (hv : validPathname p = true) :
    s.InDir (skipSlash p) ↔ tfsLookup p 0 s ≠ .ok (-1) := by
  rw [tfsLookup_eq hv]
  rcases hs.findInDir_spec (skipSlash p) with ⟨j, hj, hfind⟩ | ⟨hno, hfind⟩
  · rw [hfind]
    refine ⟨fun _ heq => ?_, fun _ => ⟨j, hj⟩⟩
    have := Outcome.ok.inj heq
    omega
  · rw [hfind]
    exact ⟨fun ⟨j, hj⟩ => absurd hj (hno j), fun h => absurd rfl h⟩

/-- Names that the directory holds are valid in a path. -/
theorem Inv.not_inDir_of_invalid (hs : s.Inv) (hv : validPathname p = false)
    (hhead : p.bytes.head? = some 47) : ¬ s.InDir (skipSlash p) := by
  rintro ⟨j, hj⟩
  have hlen := (hs.strlen_of_hasFile hj).1
  have hle : p.strlen ≤ 1 := by simpa [validPathname, hhead] using hv
  simp only [skipSlash, CString.strlen, List.length_tail] at hlen hle
  omega

/-- **There are no more names than entries.** -/
theorem card_names {name : Nat → CString}
    (hinj : ∀ i < n, ∀ k < n, name i = name k → i = k) (hdir : ∀ i < n, s.InDir (name i)) :
    n ≤ s.maxDirEntries := by
  have h := Finset.card_le_card_of_forall_subsingleton (s := Finset.range n)
    (t := Finset.range s.maxDirEntries)
    (fun i e => Live s.fsData 0 e ∧ NameIs s.fsData 0 e (name i)) (fun i hi => ?_)
    (fun e _ i hi k hk => ?_)
  · simpa using h
  · obtain ⟨j, e, he, hej, hname⟩ := hdir i (Finset.mem_range.mp hi)
    exact ⟨e, Finset.mem_range.mpr he, live_of_inumber hej, hname⟩
  · exact hinj i (Finset.mem_range.mp hi.1) k (Finset.mem_range.mp hk.1) (hi.2.2.unique hk.2.2)

/-! ### The invariant -/

theorem Inv.of_tfsOpen {name : Option CString} {mode : Nat} {r : Int} (hs : s.Inv)
    (h : tfsOpen name mode s = .ok (r, s')) : s'.Inv := by
  obtain ⟨p, hopen, hspec⟩ := hs.tfsOpen_spec name mode
  obtain rfl := Outcome.ok.inj (h.symm.trans hopen)
  exact hspec.inv hs

theorem Inv.of_tfsClose {fhandle r : Int} (hs : s.Inv) (h : tfsClose fhandle s = .ok (r, s')) :
    s'.Inv := by
  obtain ⟨p, hclose, hspec⟩ := tfsClose_spec s fhandle
  obtain rfl := Outcome.ok.inj (h.symm.trans hclose)
  exact hspec.inv hs

theorem Inv.of_tfsUnlink {target : Option CString} {r : Int} (hs : s.Inv)
    (h : tfsUnlink target s = .ok (r, s')) : s'.Inv := by
  obtain ⟨p, hunlink, hspec⟩ := hs.tfsUnlink_spec target
  obtain rfl := Outcome.ok.inj (h.symm.trans hunlink)
  exact hspec.inv hs

/-! ### A new name -/

/-- `tfs_open` on a path whose name is not in the directory: the inode of the new
file, if it gets one, and the tables before the file is opened. -/
def newFile (s : TfsState) (p : CString) : Option Nat × TfsState :=
  if validPathname p = false then (none, s)
  else
    match firstFit (isFree s.freeinodeTs) s.fsParams.maxInodeCount with
    | none => (none, s)
    | some k =>
      match firstFit (fun i => dInumber s.fsData 0 i == -1) s.maxDirEntries with
      | none => (none, s.resetInode k)
      | some i =>
        if (skipSlash p).strlen < maxFileName then (some k, s.createFile k i (skipSlash p))
        else (none, s.resetInode k)

/-- What is opened in the end. -/
def openNew (r : Option Nat × TfsState) : Int × TfsState :=
  match r.1 with
  | none => (-1, r.2)
  | some k => addToOpenFileTable k 0 r.2

theorem Inv.tfsOpen_new (hs : s.Inv) (hno : ¬ s.InDir (skipSlash p)) :
    tfsOpen (some p) tfsOCreat s = .ok (openNew (s.newFile p)) := by
  obtain ⟨r, hopen, hspec⟩ := hs.tfsOpen_spec (some p) tfsOCreat
  rw [hopen]
  cases hspec with
  | invalid h => rw [newFile, if_pos (h p rfl), openNew]
  | missing p' hp hv hno' hm => cases hm
  | existing p' j hp hv hj =>
    obtain rfl := Option.some.inj hp
    exact absurd ⟨j, hj⟩ hno
  | noInode p' hp hv hno' hm hfull =>
    obtain rfl := Option.some.inj hp
    rw [newFile, if_neg (by simp [hv]), hfull, openNew]
  | noEntry p' k hp hv hno' hm hk hbad =>
    obtain rfl := Option.some.inj hp
    rw [newFile, if_neg (by simp [hv]), hk]
    cases hi : firstFit (fun i => dInumber s.fsData 0 i == -1) s.maxDirEntries with
    | none => rfl
    | some i =>
      rw [hi] at hbad
      dsimp only
      rw [if_neg (by simpa using hbad), openNew]
  | created p' k i hp hv hno' hm hk hi hlen =>
    obtain rfl := Option.some.inj hp
    rw [newFile, if_neg (by simp [hv]), hk]
    dsimp only
    rw [hi]
    dsimp only
    rw [if_pos hlen, openNew]

theorem newFile_withHandles (s : TfsState) (p : CString) (entries : Nat → OpenFileEntry)
    (free : Nat → AllocationState) : (s.withHandles entries free).newFile p =
    ((s.newFile p).1, (s.newFile p).2.withHandles entries free) := by
  unfold newFile
  split
  · rfl
  show (match firstFit (isFree s.freeinodeTs) s.fsParams.maxInodeCount with
    | none => _
    | some k => _) = _
  cases firstFit (isFree s.freeinodeTs) s.fsParams.maxInodeCount with
  | none => rfl
  | some k =>
    show (match firstFit (fun i => dInumber s.fsData 0 i == -1) s.maxDirEntries with
      | none => _
      | some i => _) = _
    cases firstFit (fun i => dInumber s.fsData 0 i == -1) s.maxDirEntries with
    | none => rfl
    | some i =>
      dsimp only
      split
      · rfl
      · rfl

/-- The parameters and the open files stay. -/
theorem newFile_tables : (s.newFile p).2.fsParams = s.fsParams ∧
    (s.newFile p).2.openFileTable = s.openFileTable ∧
    (s.newFile p).2.freeOpenFileEntries = s.freeOpenFileEntries := by
  unfold newFile
  split
  · exact ⟨rfl, rfl, rfl⟩
  split
  · exact ⟨rfl, rfl, rfl⟩
  split
  · exact ⟨rfl, rfl, rfl⟩
  split
  · exact ⟨rfl, rfl, rfl⟩
  · exact ⟨rfl, rfl, rfl⟩

theorem nextHandle_newFile : (s.newFile p).2.nextHandle = s.nextHandle := by
  obtain ⟨hparams, -, hfree⟩ := s.newFile_tables (p := p)
  rw [nextHandle, nextHandle, hparams, hfree]

/-- The names afterwards. -/
theorem Inv.inDir_newFile (hs : s.Inv) : (s.newFile p).2.InDir q ↔
    s.InDir q ∨ (s.newFile p).1 ≠ none ∧ q = skipSlash p := by
  unfold newFile
  split
  · simp
  split
  · simp
  case h_2 k hk =>
    have hreset : (s.resetInode k).InDir q ↔ s.InDir q := Iff.rfl
    split
    · simp [hreset]
    case h_2 i hi =>
      split
      case isTrue hlen =>
        simp only [InDir, hs.hasFile_createFile hk hi hlen, exists_or, ne_eq, reduceCtorEq,
          not_false_eq_true, true_and]
        simp
      case isFalse => simp [hreset]

theorem Inv.newFile (hs : s.Inv) (hno : ¬ s.InDir (skipSlash p)) : (s.newFile p).2.Inv := by
  unfold TfsState.newFile
  split
  · exact hs
  case isFalse hv =>
    split
    · exact hs
    case h_2 k hk =>
      obtain ⟨-, hfree⟩ := free_of_firstFit hk
      have hreset := hs.resetInode (hs.pos_of_free hfree) hfree
      split
      · exact hreset
      case h_2 i hi =>
        split
        case isTrue hlen =>
          exact hs.createFile hk hi (validPathname_strlen (by simpa using hv)) hlen
            fun j hj => hno ⟨j, hj⟩
        case isFalse => exact hreset

/-! ### The table of open files -/

theorem openHandle_eq {j off : Nat} : s.openHandle f j off = s.withHandles
    (Function.update s.openFileTable f ⟨j, off⟩) (Function.update s.freeOpenFileEntries f .taken) := rfl

theorem closeHandle_eq : s.closeHandle f =
    s.withHandles s.openFileTable (Function.update s.freeOpenFileEntries f .free) := rfl

/-- The file just opened is closed again. -/
theorem tfsClose_new (j off : Nat) (hf : s.nextHandle = some f) :
    ∃ entries, tfsClose f (s.openHandle f j off) =
      .ok (0, s.withHandles entries s.freeOpenFileEntries) := by
  obtain ⟨hlt, hfree, -⟩ := firstFit_eq_some.mp hf
  have hfree : s.freeOpenFileEntries f = .free := by simpa [isFree] using hfree
  obtain ⟨r, hclose, hspec⟩ := tfsClose_spec (s.openHandle f j off) f
  cases hspec with
  | closed h => exact absurd ⟨hlt, by simp [openHandle]⟩ (h f rfl)
  | done f' hf' hopen =>
    obtain rfl : f = f' := by omega
    refine ⟨Function.update s.openFileTable f ⟨j, off⟩, hclose.trans ?_⟩
    rw [closeHandle_eq, openHandle_eq]
    show Outcome.ok (0, s.withHandles _ (Function.update (Function.update _ f _) f _)) = _
    rw [update_free_taken hfree]
    rfl

/-- Closing changes no other table. -/
theorem tfsClose_withHandles (s : TfsState) (fhandle : Int) :
    ∃ r s', tfsClose fhandle s = .ok (r, s') ∧
      s' = s.withHandles s.openFileTable s'.freeOpenFileEntries ∧
      ∀ f : Nat, s'.freeOpenFileEntries f = .free → s.freeOpenFileEntries f = .free ∨ fhandle = f := by
  obtain ⟨⟨r, s'⟩, hclose, hspec⟩ := tfsClose_spec s fhandle
  refine ⟨r, s', hclose, ?_⟩
  cases hspec with
  | closed h => exact ⟨rfl, fun f hf => Or.inl hf⟩
  | done f hf hopen =>
    refine ⟨rfl, fun f' hf' => ?_⟩
    by_cases heq : f' = f
    · exact Or.inr (by rw [hf, heq])
    · dsimp only [closeHandle] at hf'
      rw [Function.update_of_ne heq] at hf'
      exact Or.inl hf'

/-! ### A name less -/

theorem Inv.tfsUnlink_missing (hs : s.Inv) (hno : ¬ s.InDir (skipSlash p)) :
    tfsUnlink (some p) s = .ok (-1, s) := by
  obtain ⟨r, hunlink, hspec⟩ := hs.tfsUnlink_spec (some p)
  rw [hunlink]
  cases hspec with
  | invalid => rfl
  | missing => rfl
  | removed p' j i hp hv hi hij hq =>
    obtain rfl := Option.some.inj hp
    exact absurd ⟨j, i, hi, hij, hq⟩ hno

theorem Inv.tfsUnlink_entry (hs : s.Inv) {i j : Nat} (hv : validPathname p = true)
    (hi : i < s.maxDirEntries) (hij : dInumber s.fsData 0 i = j)
    (hq : NameIs s.fsData 0 i (skipSlash p)) :
    tfsUnlink (some p) s = .ok (0, s.removeFile j i) := by
  obtain ⟨r, hunlink, hspec⟩ := hs.tfsUnlink_spec (some p)
  rw [hunlink]
  cases hspec with
  | invalid h => exact absurd hv (by simp [h p rfl])
  | missing p' hp hv' hno =>
    obtain rfl := Option.some.inj hp
    exact absurd ⟨i, hi, hij, hq⟩ (hno j)
  | removed p' j' i' hp hv' hi' hij' hq' =>
    obtain rfl := Option.some.inj hp
    obtain rfl := hs.dir.distinct i hi i' hi' _ (live_of_inumber hij) (live_of_inumber hij') hq hq'
    obtain rfl : j = j' := by omega
    rfl

/-- **The removal of a name**: it goes, and the open files do not matter. -/
theorem Inv.tfsUnlink_found (hs : s.Inv) (hv : validPathname p = true)
    (hin : s.InDir (skipSlash p)) :
    ∃ s', tfsUnlink (some p) s = .ok (0, s') ∧ s'.Inv ∧ s'.fsParams = s.fsParams ∧
      s'.freeOpenFileEntries = s.freeOpenFileEntries ∧
      (∀ q, s'.InDir q ↔ s.InDir q ∧ q ≠ skipSlash p) ∧
      ∀ entries free, (s.withHandles entries free).Inv →
        tfsUnlink (some p) (s.withHandles entries free) = .ok (0, s'.withHandles entries free) := by
  obtain ⟨j, hj⟩ := hin
  have hfile := hs.isFile_of_hasFile hj
  obtain ⟨i, hi, hij, hq⟩ := hj
  refine ⟨s.removeFile j i, hs.tfsUnlink_entry hv hi hij hq, hs.removeFile hfile hi hij, rfl, rfl,
    fun q => ?_, fun entries free hs' => hs'.tfsUnlink_entry hv hi hij hq⟩
  constructor
  · rintro ⟨k, hk⟩
    obtain ⟨hk, hkj⟩ := (hs.hasFile_removeFile hi hij).mp hk
    refine ⟨⟨k, hk⟩, ?_⟩
    rintro rfl
    exact hkj (hs.hasFile_inode hk ⟨i, hi, hij, hq⟩)
  · rintro ⟨⟨k, hk⟩, hne⟩
    refine ⟨k, (hs.hasFile_removeFile hi hij).mpr ⟨hk, ?_⟩⟩
    rintro rfl
    exact hne (hs.hasFile_name hk ⟨i, hi, hij, hq⟩)

/-- **What `tfs_unlink` does to the names.** -/
theorem Inv.names_of_tfsUnlink (hs : s.Inv) {r : Int} (h : tfsUnlink (some p) s = .ok (r, s')) :
    r = -1 ∧ s' = s ∨ r = 0 ∧ s.InDir (skipSlash p) ∧ s'.fsParams = s.fsParams ∧
      ∀ q, s'.InDir q ↔ s.InDir q ∧ q ≠ skipSlash p := by
  by_cases hv : validPathname p = true
  · by_cases hin : s.InDir (skipSlash p)
    · obtain ⟨s₁, hunlink, -, hparams, -, hnames, -⟩ := hs.tfsUnlink_found hv hin
      obtain ⟨rfl, rfl⟩ := Prod.mk.inj (Outcome.ok.inj (hunlink.symm.trans h))
      exact Or.inr ⟨rfl, hin, hparams, hnames⟩
    · obtain ⟨rfl, rfl⟩ := Prod.mk.inj (Outcome.ok.inj ((hs.tfsUnlink_missing hin).symm.trans h))
      exact Or.inl ⟨rfl, rfl⟩
  · rw [tfsUnlink, if_pos (by simpa using hv)] at h
    obtain ⟨rfl, rfl⟩ := Prod.mk.inj (Outcome.ok.inj h)
    exact Or.inl ⟨rfl, rfl⟩

/-! ### The calls that leave the names -/

/-- A call that neither creates nor removes a file. -/
def KeepsNames : TfsCall → Prop
  | .tfsOpen _ mode => mode &&& tfsOCreat = 0
  | .tfsUnlink _ => False
  | _ => True

/-- The names and the parameters are the same. -/
def SameNames (s s' : TfsState) : Prop := (∀ q, s'.InDir q ↔ s.InDir q) ∧ s'.fsParams = s.fsParams

theorem sameNames_refl (s : TfsState) : s.SameNames s := ⟨fun _ => Iff.rfl, rfl⟩

theorem sameNames_addToOpenFileTable (j : Int) (off : Nat) :
    s.SameNames (addToOpenFileTable j off s).2 := by
  rw [addToOpenFileTable]
  split
  · exact ⟨fun _ => Iff.rfl, rfl⟩
  · exact sameNames_refl s

/-- A file that exists is opened. -/
theorem sameNames_openExisting (j mode : Nat) : s.SameNames
    (addToOpenFileTable j ((s.truncated mode j).openOffset mode j) (s.truncated mode j)).2 := by
  have htruncated : s.SameNames (s.truncated mode j) := by
    rw [TfsState.truncated]
    split
    · exact ⟨fun _ => Iff.rfl, rfl⟩
    · exact sameNames_refl s
  obtain ⟨hnames, hparams⟩ := sameNames_addToOpenFileTable (s := s.truncated mode j) j
    ((s.truncated mode j).openOffset mode j)
  exact ⟨fun q => (hnames q).trans (htruncated.1 q), hparams.trans htruncated.2⟩

theorem OpenSpec.sameNames {name : Option CString} {mode : Nat} {r : Int × TfsState}
    (h : OpenSpec s name mode r) (hm : mode &&& tfsOCreat = 0) : s.SameNames r.2 := by
  cases h with
  | existing p j => exact sameNames_openExisting j mode
  | invalid => exact sameNames_refl s
  | missing => exact sameNames_refl s
  | noInode p _ _ _ hm' => exact absurd hm hm'
  | noEntry p k _ _ _ hm' => exact absurd hm hm'
  | created p k i _ _ _ hm' => exact absurd hm hm'

/-- **What `tfs_open` does to the names**: none goes, and that of an open file is there. -/
theorem Inv.names_of_tfsOpen (hs : s.Inv) {mode : Nat} {r : Int}
    (h : tfsOpen (some p) mode s = .ok (r, s')) :
    (∀ q, s.InDir q → s'.InDir q) ∧ (r ≠ -1 → s'.InDir (skipSlash p)) ∧
      s'.fsParams = s.fsParams := by
  obtain ⟨o, hopen, hspec⟩ := hs.tfsOpen_spec (some p) mode
  obtain rfl := Outcome.ok.inj (hopen.symm.trans h)
  have hfails : (∀ q, s.InDir q → s.InDir q) ∧ ((-1 : Int) ≠ -1 → s.InDir (skipSlash p)) ∧
      s.fsParams = s.fsParams := ⟨fun _ hq => hq, fun hr => absurd rfl hr, rfl⟩
  generalize ho : (r, s') = o at hspec
  have hr : r = o.1 := congrArg Prod.fst ho
  have hs' : s' = o.2 := congrArg Prod.snd ho
  rw [hr, hs']
  cases hspec with
  | invalid => exact hfails
  | missing => exact hfails
  | noInode => exact hfails
  | noEntry p' k => exact ⟨fun _ hq => hq, fun hr => absurd rfl hr, rfl⟩
  | existing p' j hp hv hj =>
    obtain rfl := Option.some.inj hp
    obtain ⟨hnames, hparams⟩ := sameNames_openExisting (s := s) j mode
    exact ⟨fun q hq => (hnames q).mpr hq, fun _ => (hnames _).mpr ⟨j, hj⟩, hparams⟩
  | created p' k i hp hv hno hm hk hi hlen =>
    obtain rfl := Option.some.inj hp
    obtain ⟨hnames, hparams⟩ :=
      sameNames_addToOpenFileTable (s := s.createFile k i (skipSlash p)) k 0
    refine ⟨fun q => ?_, fun _ => (hnames _).mpr ?_, hparams⟩
    · rintro ⟨j, hj⟩
      exact (hnames q).mpr ⟨j, (hs.hasFile_createFile hk hi hlen).mpr (Or.inl hj)⟩
    · exact ⟨k, (hs.hasFile_createFile hk hi hlen).mpr (Or.inr ⟨rfl, rfl⟩)⟩

theorem CloseSpec.sameNames {fhandle : Int} {r : Int × TfsState} (h : CloseSpec s fhandle r) :
    s.SameNames r.2 := by
  cases h with
  | closed => exact sameNames_refl s
  | done => exact ⟨fun _ => Iff.rfl, rfl⟩

theorem ReadSpec.sameNames {fhandle : Int} {len : Nat} {r : (Int × List UInt8) × TfsState}
    (h : ReadSpec s fhandle len r) : s.SameNames r.2 := by
  cases h with
  | closed => exact sameNames_refl s
  | nothing => exact sameNames_refl s
  | read => exact ⟨fun _ => Iff.rfl, rfl⟩
  | stray => exact ⟨fun _ => Iff.rfl, rfl⟩

theorem WriteSpec.sameNames {fhandle : Int} {buffer : List UInt8} {r : Int × TfsState}
    (h : WriteSpec s fhandle buffer r) (hs : s.Inv) : s.SameNames r.2 := by
  cases h with
  | closed => exact sameNames_refl s
  | nothing => exact sameNames_refl s
  | noBlock => exact sameNames_refl s
  | wrote f j b n _ hopen hj hb =>
    obtain ⟨j', hj', -, -, hsane⟩ := hs.handle f hopen
    obtain rfl : j = j' := by omega
    have hb0 := (hb.bounds hsane hs.root).1
    exact ⟨fun q => exists_congr fun k => hs.hasFile_writeBlock j _ _ hb0, rfl⟩

/-- **The calls that neither create nor remove a file.** -/
theorem Inv.sameNames_of_tfsCall {c : TfsCall} {r : Reply} (hs : s.Inv) (hc : KeepsNames c)
    (h : Tfs.tfsCall c s = .ok (r, s')) : s.SameNames s' := by
  have hspec := hs.callSpec h
  cases hspec with
  | tfsOpen hcall => exact hcall.sameNames hc
  | tfsClose hcall => exact hcall.sameNames
  | tfsRead hcall => exact hcall.sameNames
  | tfsWrite hcall => exact hcall.sameNames hs
  | tfsUnlink => exact hc.elim

/-- The parameters are those of `tfs_init`. -/
theorem Inv.fsParams_of_tfsCall {c : TfsCall} {r : Reply} (hs : s.Inv)
    (h : Tfs.tfsCall c s = .ok (r, s')) : s'.fsParams = s.fsParams := by
  by_cases hc : KeepsNames c
  · exact (hs.sameNames_of_tfsCall hc h).2
  · have hspec := hs.callSpec h
    cases hspec with
    | tfsOpen hcall =>
      cases hcall with
      | existing p j => exact (sameNames_openExisting j _).2
      | created p k i => exact (sameNames_addToOpenFileTable _ _).2
      | _ => rfl
    | tfsUnlink hcall => cases hcall <;> rfl
    | _ => exact absurd trivial hc

/-! ### Whether a new file stays -/

theorem Inv.inDir_iff_readFile (hs : s.Inv) : s.InDir q ↔ s.readFile q ≠ none := by
  rw [ne_eq, hs.readFile_eq_none, InDir]
  push Not
  exact Iff.rfl

/-- A file of this name can be created. -/
structure RoomFor (s : TfsState) (p : CString) : Prop where
  path : validPathname p = true
  name : (skipSlash p).strlen < maxFileName
  inode : ∃ k < s.fsParams.maxInodeCount, s.freeinodeTs k = .free
  entry : ∃ i < s.maxDirEntries, dInumber s.fsData 0 i = -1

/-- No open file is left. -/
def NoHandle (s : TfsState) : Prop :=
  ∀ f < s.fsParams.maxOpenFilesCount, s.freeOpenFileEntries f = .taken

theorem nextHandle_eq_none : s.nextHandle = none ↔ s.NoHandle := by
  rw [nextHandle, firstFit_eq_none, NoHandle]
  refine forall₂_congr fun f _ => ?_
  rw [isFree]
  cases s.freeOpenFileEntries f <;> decide

theorem newFile_ne_none : (s.newFile p).1 ≠ none ↔ s.RoomFor p := by
  have hinode : firstFit (isFree s.freeinodeTs) s.fsParams.maxInodeCount ≠ none ↔
      ∃ k < s.fsParams.maxInodeCount, s.freeinodeTs k = .free := by
    rw [Option.ne_none_iff_exists', firstFit_isSome]
    simp [isFree]
  have hentry : firstFit (fun i => dInumber s.fsData 0 i == -1) s.maxDirEntries ≠ none ↔
      ∃ i < s.maxDirEntries, dInumber s.fsData 0 i = -1 := by
    rw [Option.ne_none_iff_exists', firstFit_isSome]
    simp
  unfold newFile
  split
  case isTrue hv => exact ⟨fun h => absurd rfl h, fun h => absurd (h.path.symm.trans hv) (by decide)⟩
  case isFalse hv =>
    split
    case h_1 hk => exact ⟨fun h => absurd rfl h, fun h => absurd hk (hinode.mpr h.inode)⟩
    case h_2 k hk =>
      split
      case h_1 hi => exact ⟨fun h => absurd rfl h, fun h => absurd hi (hentry.mpr h.entry)⟩
      case h_2 i hi =>
        split
        case isTrue hlen =>
          refine ⟨fun _ => ⟨by simpa using hv, hlen, hinode.mp ?_, hentry.mp ?_⟩,
            fun _ => Option.some_ne_none k⟩
          · rw [hk]
            exact Option.some_ne_none k
          · rw [hi]
            exact Option.some_ne_none i
        case isFalse hlen => exact ⟨fun h => absurd rfl h, fun h => absurd h.name hlen⟩

/-- What a creation that fails does: a free inode may have been reset. -/
theorem newFile_of_none (h : (s.newFile p).1 = none) :
    (s.newFile p).2 = s ∨ ∃ k, s.freeinodeTs k = .free ∧ (s.newFile p).2 = s.resetInode k := by
  revert h
  unfold newFile
  split
  · exact fun _ => Or.inl rfl
  split
  · exact fun _ => Or.inl rfl
  case h_2 k hk =>
    obtain ⟨-, hfree⟩ := free_of_firstFit hk
    split
    · exact fun _ => Or.inr ⟨k, hfree, rfl⟩
    · split
      · exact fun h => absurd h nofun
      · exact fun _ => Or.inr ⟨k, hfree, rfl⟩

/-- No file is any different then. -/
theorem Inv.readFile_newFile (hs : s.Inv) (hno : ¬ s.InDir (skipSlash p))
    (hnone : (s.newFile p).1 = none) : (s.newFile p).2.readFile = s.readFile := by
  have hs' := hs.newFile hno
  rcases newFile_of_none hnone with heq | ⟨k, hfree, heq⟩
  · rw [heq]
  · rw [heq] at hs' ⊢
    funext q
    refine readFile_congr hs hs' (fun j => hasFile_resetInode) fun j hj => contents_resetInode_ne ?_
    rintro rfl
    exact absurd (hfree.symm.trans (hs.isFile_of_hasFile hj).2.2) nofun

/-- **An open that fails**: it leaves the files as they were, unless it has created
one and then finds no entry for it in the table of open files. -/
theorem Inv.readFile_of_tfsOpen_neg (hs : s.Inv)
    (h : tfsOpen (some p) tfsOCreat s = .ok (-1, s')) :
    s'.readFile = s.readFile ↔ ¬ (¬ s.InDir (skipSlash p) ∧ s.RoomFor p ∧ s.NoHandle) := by
  have hs' := hs.of_tfsOpen h
  by_cases hin : s.InDir (skipSlash p)
  · refine iff_of_true ?_ fun hnew => hnew.1 hin
    obtain ⟨o, hopen, hspec⟩ := hs.tfsOpen_spec (some p) tfsOCreat
    obtain rfl := Outcome.ok.inj (h.symm.trans hopen)
    generalize ho : ((-1 : Int), s') = o at hspec
    have hneg : o.1 = -1 := (congrArg Prod.fst ho).symm
    rw [show s' = o.2 from congrArg Prod.snd ho]
    cases hspec with
    | existing p' j =>
      rw [TfsState.truncated, if_neg (by decide)] at hneg ⊢
      cases hf : s.nextHandle with
      | none => rw [addToOpenFileTable_none hf]
      | some f =>
        rw [addToOpenFileTable_some hf] at hneg
        exact absurd hneg (by dsimp only; omega)
    | invalid => rfl
    | missing => rfl
    | noInode => rfl
    | noEntry p' k hp _ hno =>
      obtain rfl := Option.some.inj hp
      obtain ⟨j, hj⟩ := hin
      exact absurd hj (hno j)
    | created p' k i hp _ hno =>
      obtain rfl := Option.some.inj hp
      obtain ⟨j, hj⟩ := hin
      exact absurd hj (hno j)
  · rw [hs.tfsOpen_new hin] at h
    have h := Outcome.ok.inj h
    cases hk : (s.newFile p).1 with
    | none =>
      rw [openNew, hk] at h
      rw [← show (s.newFile p).2 = s' from congrArg Prod.snd h]
      exact iff_of_true (hs.readFile_newFile hin hk) fun hnew => newFile_ne_none.mpr hnew.2.1 hk
    | some k =>
      rw [openNew, hk] at h
      cases hf : s.nextHandle with
      | none =>
        refine iff_of_false (fun heq => ?_) (not_not.mpr ⟨hin, newFile_ne_none.mp ?_,
          nextHandle_eq_none.mp hf⟩)
        · have hnew : s'.InDir (skipSlash p) := by
            rw [← show (s.newFile p).2 = s' from
              congrArg Prod.snd ((addToOpenFileTable_none (nextHandle_newFile.trans hf)).symm.trans h)]
            exact hs.inDir_newFile.mpr (Or.inr ⟨by rw [hk]; exact Option.some_ne_none k, rfl⟩)
          rw [hs'.inDir_iff_readFile, heq, ← hs.inDir_iff_readFile] at hnew
          exact hin hnew
        · rw [hk]
          exact Option.some_ne_none k
      | some f =>
        have hneg := congrArg Prod.fst
          ((addToOpenFileTable_some (nextHandle_newFile.trans hf)).symm.trans h)
        exact absurd hneg (by dsimp only; omega)

/-- An open that succeeds has had an entry. -/
theorem Inv.of_tfsOpen_ne_neg (hs : s.Inv) {r : Int} (hr : r ≠ -1)
    (h : tfsOpen (some p) tfsOCreat s = .ok (r, s')) :
    ¬ (¬ s.InDir (skipSlash p) ∧ s.RoomFor p ∧ s.NoHandle) := by
  rintro ⟨hin, hroom, hfull⟩
  rw [hs.tfsOpen_new hin] at h
  have h := Outcome.ok.inj h
  obtain ⟨k, hk⟩ := Option.ne_none_iff_exists'.mp (newFile_ne_none.mpr hroom)
  have hnext : (s.newFile p).2.nextHandle = none :=
    nextHandle_newFile.trans (nextHandle_eq_none.mpr hfull)
  rw [openNew, hk] at h
  exact hr (congrArg Prod.fst ((addToOpenFileTable_none hnext).symm.trans h)).symm

end TfsState

end Tfs
