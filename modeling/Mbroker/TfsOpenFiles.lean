/-
The entries of the table of open files, and the calls that take and free them.

* `openFiles_of_tfsCall` — a call takes one entry, frees one, or leaves the table;
* `Inv.tfsOpen_ne_neg_iff` — when a file that is not created can be opened.
-/
import Mbroker.TfsNames

namespace Tfs

open Memory SlotTable

namespace TfsState

variable {s s' : TfsState} {p : CString} {f : Nat}

/-- The entries that are `TAKEN`. -/
def openFiles (s : TfsState) : Finset Nat :=
  used (fun f => s.freeOpenFileEntries f == .taken) s.fsParams.maxOpenFilesCount

@[simp] theorem mem_openFiles : f ∈ s.openFiles ↔ s.IsOpen f := by
  rw [openFiles, mem_used, IsOpen, beq_iff_eq]

/-- What a call does to them. -/
inductive OpenFilesSpec (s : TfsState) : TfsCall → Int → TfsState → Prop where
  | opened {name : Option CString} {mode : Nat} {s' : TfsState} (f : Nat) (hf : f ∉ s.openFiles)
      (h : s'.openFiles = insert f s.openFiles) : OpenFilesSpec s (.tfsOpen name mode) f s'
  | notOpened {name : Option CString} {mode : Nat} {s' : TfsState}
    (h : s'.openFiles = s.openFiles) :
      OpenFilesSpec s (.tfsOpen name mode) (-1) s'
  | closed {s' : TfsState} (f : Nat) (hf : f ∈ s.openFiles)
      (h : s'.openFiles = s.openFiles.erase f) : OpenFilesSpec s (.tfsClose f) 0 s'
  | notClosed {fhandle : Int} (hf : ∀ f : Nat, fhandle = f → f ∉ s.openFiles) :
      OpenFilesSpec s (.tfsClose fhandle) (-1) s
  | other {c : TfsCall} {r : Int} {s' : TfsState} (hopen : ∀ name mode, c ≠ .tfsOpen name mode)
      (hclose : ∀ fhandle, c ≠ .tfsClose fhandle) (h : s'.openFiles = s.openFiles) :
      OpenFilesSpec s c r s'

theorem OpenFilesSpec.of_open {name : Option CString} {mode : Nat} {r : Int}
    (h : OpenFilesSpec s (.tfsOpen name mode) r s') :
    r = -1 ∧ s'.openFiles = s.openFiles ∨
      ∃ f : Nat, r = f ∧ f ∉ s.openFiles ∧ s'.openFiles = insert f s.openFiles := by
  cases h with
  | opened f hf h => exact Or.inr ⟨f, rfl, hf, h⟩
  | notOpened h => exact Or.inl ⟨rfl, h⟩
  | other hopen => exact absurd rfl (hopen name mode)

theorem OpenFilesSpec.of_close {fhandle r : Int} (h : OpenFilesSpec s (.tfsClose fhandle) r s') :
    (∀ f : Nat, fhandle = f → f ∉ s.openFiles) ∧ s'.openFiles = s.openFiles ∨
      ∃ f : Nat, fhandle = f ∧ f ∈ s.openFiles ∧ s'.openFiles = s.openFiles.erase f := by
  cases h with
  | closed f hf h => exact Or.inr ⟨f, rfl, hf, h⟩
  | notClosed hf => exact Or.inl ⟨hf, rfl⟩
  | other _ hclose => exact absurd rfl (hclose fhandle)

theorem OpenFilesSpec.of_other {c : TfsCall} {r : Int} (h : OpenFilesSpec s c r s')
    (hopen : ∀ name mode, c ≠ .tfsOpen name mode) (hclose : ∀ fhandle, c ≠ .tfsClose fhandle) :
    s'.openFiles = s.openFiles := by
  cases h with
  | opened => exact absurd rfl (hopen _ _)
  | notOpened h => exact h
  | closed => exact absurd rfl (hclose _)
  | notClosed => rfl
  | other _ _ h => exact h

theorem openFilesSpec_addToOpenFileTable {name : Option CString} {mode j off : Nat}
    (h : s'.openFiles = s.openFiles) : OpenFilesSpec s (.tfsOpen name mode)
      (addToOpenFileTable j off s').1 (addToOpenFileTable j off s').2 := by
  cases hf : s'.nextHandle with
  | none =>
    rw [addToOpenFileTable_none hf]
    exact .notOpened h
  | some f =>
    rw [addToOpenFileTable_some hf]
    obtain ⟨hlt, hfree, -⟩ := firstFit_eq_some.mp hf
    refine .opened f ?_ ?_
    · rw [← h, mem_openFiles]
      rintro ⟨-, htaken⟩
      rw [isFree, htaken] at hfree
      cases hfree
    · rw [← h]
      ext k
      rw [mem_openFiles, Finset.mem_insert, mem_openFiles]
      by_cases hk : k = f
      · subst hk
        exact iff_of_true ⟨hlt, Function.update_self _ _ _⟩ (Or.inl rfl)
      · simp [IsOpen, openHandle, hk]

theorem OpenSpec.openFiles {name : Option CString} {mode : Nat} {r : Int × TfsState}
    (h : OpenSpec s name mode r) : OpenFilesSpec s (.tfsOpen name mode) r.1 r.2 := by
  cases h with
  | existing p j =>
    refine openFilesSpec_addToOpenFileTable ?_
    rw [TfsState.truncated]
    split
    · rfl
    · rfl
  | created p k i => exact openFilesSpec_addToOpenFileTable rfl
  | invalid => exact .notOpened rfl
  | missing => exact .notOpened rfl
  | noInode => exact .notOpened rfl
  | noEntry => exact .notOpened rfl

theorem CloseSpec.openFiles {fhandle : Int} {r : Int × TfsState} (h : CloseSpec s fhandle r) :
    OpenFilesSpec s (.tfsClose fhandle) r.1 r.2 := by
  cases h with
  | closed h => exact .notClosed fun f hf => mem_openFiles.not.mpr (h f hf)
  | done f hf hopen =>
    subst hf
    refine .closed f (mem_openFiles.mpr hopen) ?_
    ext k
    rw [mem_openFiles, Finset.mem_erase, mem_openFiles]
    by_cases hk : k = f
    · subst hk
      simp [IsOpen, closeHandle]
    · simp [IsOpen, closeHandle, hk]

/-- **What a call does to the table of open files.** -/
theorem Inv.openFiles_of_tfsCall (hs : s.Inv) {c : TfsCall} {r : Reply}
    (h : Tfs.tfsCall c s = .ok (r, s')) : OpenFilesSpec s c r.ret s' := by
  have hspec := hs.callSpec h
  cases hspec with
  | tfsOpen hcall => exact hcall.openFiles
  | tfsClose hcall => exact hcall.openFiles
  | tfsRead hcall =>
    refine .other nofun nofun ?_
    cases hcall <;> rfl
  | tfsWrite hcall =>
    refine .other nofun nofun ?_
    cases hcall <;> rfl
  | tfsUnlink hcall =>
    refine .other nofun nofun ?_
    cases hcall <;> rfl

theorem Inv.openFiles_of_tfsOpen (hs : s.Inv) {name : Option CString} {mode : Nat} {r : Int}
    (h : tfsOpen name mode s = .ok (r, s')) : r = -1 ∧ s'.openFiles = s.openFiles ∨
      ∃ f : Nat, r = f ∧ f ∉ s.openFiles ∧ s'.openFiles = insert f s.openFiles := by
  obtain ⟨o, hopen, hspec⟩ := hs.tfsOpen_spec name mode
  obtain rfl := Outcome.ok.inj (hopen.symm.trans h)
  exact hspec.openFiles.of_open

theorem Inv.openFiles_of_tfsUnlink (hs : s.Inv) {target : Option CString} {r : Int}
    (h : tfsUnlink target s = .ok (r, s')) : s'.openFiles = s.openFiles := by
  have hcall : Tfs.tfsCall (.tfsUnlink target) s = .ok ({ ret := r }, s') := by
    rw [Tfs.tfsCall, h]
    rfl
  exact (hs.openFiles_of_tfsCall hcall).of_other (fun _ _ h => (by cases h)) fun _ h => (by cases h)

/-- A file that is opened and closed. -/
theorem Inv.openFiles_of_open_close (hs : s.Inv) {name : Option CString} {mode : Nat} {h r : Int}
    {s₁ : TfsState} (hopen : tfsOpen name mode s = .ok (h, s₁)) (hne : h ≠ -1)
    (hclose : tfsClose h s₁ = .ok (r, s')) : s'.openFiles = s.openFiles := by
  rcases hs.openFiles_of_tfsOpen hopen with ⟨hneg, -⟩ | ⟨f, rfl, hnew, hopened⟩
  · exact absurd hneg hne
  · obtain ⟨o, hclose', hspec⟩ := tfsClose_spec s₁ f
    obtain rfl := Outcome.ok.inj (hclose'.symm.trans hclose)
    rcases hspec.openFiles.of_close with ⟨hclosed, -⟩ | ⟨f', hf', -, hclosed⟩
    · exact absurd (hopened ▸ Finset.mem_insert_self f _) (hclosed f rfl)
    · obtain rfl : f = f' := Int.natCast_inj.mp hf'
      rw [hclosed, hopened, Finset.erase_insert hnew]

/-- **When an open that creates no file succeeds.** -/
theorem Inv.tfsOpen_ne_neg_iff (hs : s.Inv) {mode : Nat} {r : Int}
    (hhead : p.bytes.head? = some 47) (hm : mode &&& tfsOCreat = 0)
    (h : tfsOpen (some p) mode s = .ok (r, s')) :
    r ≠ -1 ↔ s.InDir (skipSlash p) ∧ ¬ s.NoHandle := by
  obtain ⟨o, hopen, hspec⟩ := hs.tfsOpen_spec (some p) mode
  obtain rfl := Outcome.ok.inj (hopen.symm.trans h)
  generalize ho : (r, s') = o at hspec
  rw [show r = o.1 from congrArg Prod.fst ho]
  cases hspec with
  | existing p' j hp hv hj =>
    obtain rfl := Option.some.inj hp
    have hnext : (s.truncated mode j).nextHandle = s.nextHandle := by
      rw [TfsState.truncated]
      split
      · rfl
      · rfl
    cases hf : s.nextHandle with
    | none =>
      rw [addToOpenFileTable_none (hnext.trans hf)]
      exact iff_of_false (not_not.mpr rfl) fun hopen => hopen.2 (nextHandle_eq_none.mp hf)
    | some f =>
      rw [addToOpenFileTable_some (hnext.trans hf)]
      refine iff_of_true (by dsimp only; omega) ⟨⟨j, hj⟩, fun hfull => ?_⟩
      rw [nextHandle_eq_none.mpr hfull] at hf
      cases hf
  | invalid hv =>
    exact iff_of_false (not_not.mpr rfl) fun hin => hs.not_inDir_of_invalid (hv p rfl) hhead hin.1
  | missing p' hp hv hno =>
    obtain rfl := Option.some.inj hp
    refine iff_of_false (not_not.mpr rfl) ?_
    rintro ⟨⟨j, hj⟩, -⟩
    exact hno j hj
  | noInode p' _ _ _ hm' => exact absurd hm hm'
  | noEntry p' k _ _ _ hm' => exact absurd hm hm'
  | created p' k i _ _ _ hm' => exact absurd hm hm'

end TfsState

end Tfs
