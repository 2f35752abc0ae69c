/-
Which files a write can change.

A file is told from a later one of the same name, or of the same inode, by the
time at which it was created.  `Traced` records that history beside the state:
when the file of each name was created, and when the file that each handle was
opened on was.

* **`tfsWrite_isolated_iff`** — in a reachable state, writes through a handle
  change no file but the one the handle was opened on exactly when no other file
  has come to own the handle's inode, or the block that the handle's removed
  inode still points to.
-/
import Mbroker.TfsFiles
import Mbroker.TfsRuns

namespace Tfs

open Memory SlotTable TfsState

/-- A state, and the history that tells its files apart. -/
structure Traced where
  fs : TfsState
  clock : Nat
  born : CString → Nat
  opened : Nat → Nat

namespace Traced

variable {t t' : Traced} {fs' : TfsState} {c : TfsCall} {r : Reply} {f j k : Nat}
  {q : CString}

/-- The history before the first call. -/
def start (s : TfsState) : Traced := ⟨s, 0, fun _ => 0, fun _ => 0⟩

/-- The time of birth of each name once a call has been made: an open that adds
its name to the directory has created a file. -/
def nextBorn (t : Traced) (c : TfsCall) (fs' : TfsState) : CString → Nat :=
  match c with
  | .tfsOpen (some p) _ =>
    if (t.fs.readFile (skipSlash p)).isNone ∧ (fs'.readFile (skipSlash p)).isSome then
      Function.update t.born (skipSlash p) t.clock
    else t.born
  | _ => t.born

/-- The file of each handle once a call has been made: an open that returns a
handle has opened the file that now has its name. -/
def nextOpened (t : Traced) (c : TfsCall) (r : Reply) (fs' : TfsState) : Nat → Nat :=
  match c with
  | .tfsOpen (some p) _ =>
    if 0 ≤ r.ret then Function.update t.opened r.ret.toNat (t.nextBorn c fs' (skipSlash p))
    else t.opened
  | _ => t.opened

/-- A call, and what it adds to the history. -/
def next (t : Traced) (c : TfsCall) (r : Reply) (fs' : TfsState) : Traced :=
  ⟨fs', t.clock + 1, t.nextBorn c fs', t.nextOpened c r fs'⟩

end Traced

/-- A call of the API on a state with a history. -/
def tracedCall (c : TfsCall) (t : Traced) : Outcome (Reply × Traced) := do
  let (r, fs') ← tfsCall c t.fs
  return (r, t.next c r fs')

namespace Traced

variable {t t' : Traced} {fs' : TfsState} {c : TfsCall} {r : Reply} {f j k : Nat}
  {q : CString}

/-- The history is a history of the state: its files and open handles are in the
past, and a handle whose file is still there has that file's inode. -/
structure Inv (t : Traced) : Prop where
  fs : t.fs.Inv
  bornLt : ∀ q j, t.fs.HasFile q j → t.born q < t.clock
  bornInj : ∀ q q' j j', t.fs.HasFile q j → t.fs.HasFile q' j' → t.born q = t.born q' → q = q'
  openedLt : ∀ f, t.fs.IsOpen f → t.opened f < t.clock
  same : ∀ f q j, t.fs.IsOpen f → t.fs.HasFile q j → t.born q = t.opened f →
    (t.fs.openFileTable f).ofInumber = j

theorem inv_start {s : TfsState} (hs : s.Fresh) : (start s).Inv where
  fs := hs.inv
  bornLt _ j h := absurd (hs.inv.isFile_of_hasFile h) (hs.noFile j)
  bornInj _ _ j _ h := absurd (hs.inv.isFile_of_hasFile h) (hs.noFile j)
  openedLt f hf := absurd hf (hs.noOpen f)
  same f _ _ hf := absurd hf (hs.noOpen f)

/-- No new file, and no new handle. -/
theorem Inv.shrink (ht : t.Inv) (hs' : fs'.Inv)
    (hfile : ∀ q j, fs'.HasFile q j → t.fs.HasFile q j)
    (hopen : ∀ f, fs'.IsOpen f → t.fs.IsOpen f ∧
      (fs'.openFileTable f).ofInumber = (t.fs.openFileTable f).ofInumber) :
    Inv ⟨fs', t.clock + 1, t.born, t.opened⟩ where
  fs := hs'
  bornLt q j h := Nat.lt_succ_of_lt (ht.bornLt q j (hfile q j h))
  bornInj q q' j j' h h' heq := ht.bornInj q q' j j' (hfile q j h) (hfile q' j' h') heq
  openedLt f hf := Nat.lt_succ_of_lt (ht.openedLt f (hopen f hf).1)
  same f q j hf h heq := (hopen f hf).2.trans (ht.same f q j (hopen f hf).1 (hfile q j h) heq)

/-- A new file `q`, born now. -/
theorem Inv.create (ht : t.Inv) (hs' : fs'.Inv) (hnew : ∀ j, ¬ t.fs.HasFile q j)
    (hfile : ∀ p j, fs'.HasFile p j ↔ t.fs.HasFile p j ∨ p = q ∧ j = k)
    (hopen : ∀ f, fs'.IsOpen f ↔ t.fs.IsOpen f) (htable : fs'.openFileTable = t.fs.openFileTable) :
    Inv ⟨fs', t.clock + 1, Function.update t.born q t.clock, t.opened⟩ := by
  have hold : ∀ p j, t.fs.HasFile p j → Function.update t.born q t.clock p = t.born p := by
    intro p j h
    refine Function.update_of_ne ?_ _ _
    rintro rfl
    exact hnew j h
  have hnow : Function.update t.born q t.clock q = t.clock := Function.update_self _ _ _
  refine ⟨hs', ?_, ?_, fun f hf => Nat.lt_succ_of_lt (ht.openedLt f ((hopen f).mp hf)), ?_⟩
  · intro p j h
    dsimp only at h ⊢
    rcases (hfile p j).mp h with h | ⟨rfl, rfl⟩
    · rw [hold p j h]
      exact Nat.lt_succ_of_lt (ht.bornLt p j h)
    · rw [hnow]
      exact Nat.lt_succ_self _
  · intro p p' j j' h h' heq
    dsimp only at h h' heq
    rcases (hfile p j).mp h with h | ⟨rfl, rfl⟩
    · rcases (hfile p' j').mp h' with h' | ⟨rfl, rfl⟩
      · rw [hold p j h, hold p' j' h'] at heq
        exact ht.bornInj p p' j j' h h' heq
      · rw [hold p j h, hnow] at heq
        exact absurd heq (ht.bornLt p j h).ne
    · rcases (hfile p' j').mp h' with h' | ⟨rfl, rfl⟩
      · rw [hold p' j' h', hnow] at heq
        exact absurd heq.symm (ht.bornLt p' j' h').ne
      · rfl
  · intro f p j hf h heq
    dsimp only at h heq ⊢
    have hf' := (hopen f).mp hf
    rw [htable]
    rcases (hfile p j).mp h with h | ⟨rfl, rfl⟩
    · rw [hold p j h] at heq
      exact ht.same f p j hf' h heq
    · rw [hnow] at heq
      exact absurd heq.symm (ht.openedLt f hf').ne

/-- A new handle of the file `q`. -/
theorem Inv.openHandle {off : Nat} (ht : t.Inv) (hj : t.fs.HasFile q j)
    (hs' : (t.fs.openHandle f j off).Inv) :
    Inv ⟨t.fs.openHandle f j off, t.clock, t.born, Function.update t.opened f (t.born q)⟩ := by
  have hopen : ∀ f', f' ≠ f → (t.fs.openHandle f j off).IsOpen f' → t.fs.IsOpen f' := by
    rintro f' hff ⟨hlt, htaken⟩
    exact ⟨hlt, by simpa [TfsState.openHandle, hff] using htaken⟩
  refine ⟨hs', ht.bornLt, ht.bornInj, ?_, ?_⟩
  · intro f' hf'
    by_cases hff : f' = f
    · subst hff
      simpa using ht.bornLt q j hj
    · simpa [hff] using ht.openedLt f' (hopen f' hff hf')
  · intro f' p l hf' hl heq
    dsimp only at heq ⊢
    by_cases hff : f' = f
    · subst hff
      rw [Function.update_self] at heq
      obtain rfl := ht.bornInj p q l j hl hj heq
      have hlj := ht.fs.hasFile_inode hl hj
      simp [TfsState.openHandle, hlj]
    · rw [Function.update_of_ne hff] at heq
      simpa [TfsState.openHandle, hff] using ht.same f' p l (hopen f' hff hf') hl heq

/-- A call that leaves the names as they are creates no file. -/
theorem nextBorn_of_hasFile (hs : t.fs.Inv) (hs' : fs'.Inv)
    (h : ∀ q j, fs'.HasFile q j ↔ t.fs.HasFile q j) : t.nextBorn c fs' = t.born := by
  unfold nextBorn
  split
  case h_1 p mode =>
    refine if_neg ?_
    rintro ⟨hnone, hsome⟩
    rw [Option.isNone_iff_eq_none, hs.readFile_eq_none] at hnone
    obtain ⟨bs, hbs⟩ := Option.isSome_iff_exists.mp hsome
    obtain ⟨j, hj, -⟩ := hs'.readFile_eq_some.mp hbs
    exact hnone j ((h _ j).mp hj)
  case h_2 => rfl

theorem nextOpened_of_neg (h : r.ret < 0) : t.nextOpened c r fs' = t.opened := by
  unfold nextOpened
  split
  · exact if_neg (by omega)
  · rfl

/-- A call that changes neither the names nor the table of open files. -/
theorem Inv.next_same (ht : t.Inv) (hs' : fs'.Inv) (hret : r.ret < 0)
    (hfile : ∀ q j, fs'.HasFile q j ↔ t.fs.HasFile q j)
    (hopen : ∀ f, fs'.IsOpen f ↔ t.fs.IsOpen f) (htable : fs'.openFileTable = t.fs.openFileTable) :
    (t.next c r fs').Inv := by
  rw [next, nextBorn_of_hasFile ht.fs hs' hfile, nextOpened_of_neg hret]
  exact ht.shrink hs' (fun q j h => (hfile q j).mp h)
    fun f hf => ⟨(hopen f).mp hf, by rw [htable]⟩

theorem Inv.next_open {name : Option CString} {mode : Nat} {ret : Int × TfsState} (ht : t.Inv)
    (h : OpenSpec t.fs name mode ret) : (t.next (.tfsOpen name mode) ⟨ret.1, []⟩ ret.2).Inv := by
  have hs' := h.inv ht.fs
  cases h with
  | invalid => exact ht.next_same hs' (by simp) (fun _ _ => Iff.rfl) (fun _ => Iff.rfl) rfl
  | missing => exact ht.next_same hs' (by simp) (fun _ _ => Iff.rfl) (fun _ => Iff.rfl) rfl
  | noInode => exact ht.next_same hs' (by simp) (fun _ _ => Iff.rfl) (fun _ => Iff.rfl) rfl
  | noEntry => exact ht.next_same hs' (by simp) (fun _ _ => Iff.rfl) (fun _ => Iff.rfl) rfl
  | existing p j hp hv hj =>
    subst hp
    have hs₁ := ht.fs.truncated mode (ht.fs.isFile_of_hasFile hj)
    have hnames : ∀ q l, (t.fs.truncated mode j).HasFile q l ↔ t.fs.HasFile q l := fun q l => by
      rw [TfsState.truncated]
      split <;> rfl
    have hopen : ∀ f, (t.fs.truncated mode j).IsOpen f ↔ t.fs.IsOpen f := fun f => by
      rw [TfsState.truncated]
      split <;> rfl
    have htable : (t.fs.truncated mode j).openFileTable = t.fs.openFileTable := by
      rw [TfsState.truncated]
      split <;> rfl
    cases hf : (t.fs.truncated mode j).nextHandle with
    | none =>
      rw [addToOpenFileTable_none hf]
      exact ht.next_same hs₁ (by simp) hnames hopen htable
    | some f =>
      rw [addToOpenFileTable_some hf] at hs' ⊢
      have ht₁ : Inv ⟨_, t.clock + 1, t.born, t.opened⟩ :=
        ht.shrink hs₁ (fun q l h => (hnames q l).mp h)
          fun f hf => ⟨(hopen f).mp hf, by rw [htable]⟩
      have hnext := ht₁.openHandle ((hnames _ _).mpr hj) hs'
      rw [next, nextBorn_of_hasFile ht.fs hs' hnames, nextOpened]
      simpa [nextBorn_of_hasFile ht.fs hs' hnames] using hnext
  | created p k i hp hv hno hm hk hi hlen =>
    subst hp
    have hs₁ := ht.fs.createFile hk hi (validPathname_strlen hv) hlen hno
    have hnames := fun p' j => ht.fs.hasFile_createFile (p := p') (j := j) hk hi hlen
    have ht₁ : Inv ⟨_, t.clock + 1, Function.update t.born (skipSlash p) t.clock, t.opened⟩ :=
      ht.create hs₁ hno hnames (fun _ => Iff.rfl) rfl
    -- The name is in the directory now, and was not.
    have hborn : ∀ {fs' : TfsState}, fs'.Inv → fs'.HasFile (skipSlash p) k →
        t.nextBorn (.tfsOpen (some p) mode) fs' =
          Function.update t.born (skipSlash p) t.clock := by
      intro fs' hfs' hk'
      refine if_pos ⟨?_, ?_⟩
      · rw [Option.isNone_iff_eq_none, ht.fs.readFile_eq_none]
        exact hno
      · rw [hfs'.readFile_of_hasFile hk']
        rfl
    have hfile := (hnames (skipSlash p) k).mpr (Or.inr ⟨rfl, rfl⟩)
    cases hf : (t.fs.createFile k i (skipSlash p)).nextHandle with
    | none =>
      rw [addToOpenFileTable_none hf]
      rw [next, hborn hs₁ hfile, nextOpened_of_neg (by simp)]
      exact ht₁
    | some f =>
      rw [addToOpenFileTable_some hf] at hs' ⊢
      have hnext := ht₁.openHandle hfile hs'
      rw [next, hborn hs' hfile, nextOpened]
      simpa [hborn hs' hfile] using hnext

/-- **The step lemma of the history.** -/
theorem Inv.next (ht : t.Inv) (h : CallSpec t.fs c (r, fs')) : (t.next c r fs').Inv := by
  have hs' := h.inv ht.fs
  cases h with
  | tfsOpen h => exact ht.next_open h
  | tfsClose h =>
    refine ht.shrink hs' ?_ ?_
    · cases h <;> exact fun _ _ h => h
    · cases h with
      | closed => exact fun f hf => ⟨hf, rfl⟩
      | done f₀ =>
        rintro f ⟨hlt, htaken⟩
        have hff : f ≠ f₀ := by
          rintro rfl
          simp [closeHandle] at htaken
        exact ⟨⟨hlt, by simpa [closeHandle, hff] using htaken⟩, rfl⟩
  | tfsRead h =>
    refine ht.shrink hs' ?_ ?_
    · cases h <;> exact fun _ _ h => h
    · cases h with
      | closed => exact fun f hf => ⟨hf, rfl⟩
      | nothing => exact fun f hf => ⟨hf, rfl⟩
      | read => exact fun f hf => ⟨hf, ofInumber_setOffset⟩
      | stray => exact fun f hf => ⟨hf, ofInumber_setOffset⟩
  | tfsWrite h =>
    refine ht.shrink hs' ?_ ?_
    · cases h with
      | closed => exact fun _ _ h => h
      | nothing => exact fun _ _ h => h
      | noBlock => exact fun _ _ h => h
      | wrote f j b n _ hopen hj hb =>
        obtain ⟨j', hj', -, -, hsane⟩ := ht.fs.handle f hopen
        obtain rfl : j = j' := by omega
        obtain ⟨hb0, -⟩ := hb.bounds hsane ht.fs.root
        exact fun _ _ h => (ht.fs.hasFile_writeBlock j _ _ hb0).mp h
    · cases h with
      | closed => exact fun f hf => ⟨hf, rfl⟩
      | nothing => exact fun f hf => ⟨hf, rfl⟩
      | noBlock => exact fun f hf => ⟨hf, rfl⟩
      | wrote => exact fun f hf => ⟨hf, ofInumber_setOffset⟩
  | tfsUnlink h =>
    refine ht.shrink hs' ?_ ?_
    · cases h with
      | invalid => exact fun _ _ h => h
      | missing => exact fun _ _ h => h
      | removed p j i _ _ hi hij => exact fun _ _ h => ((ht.fs.hasFile_removeFile hi hij).mp h).1
    · cases h <;> exact fun f hf => ⟨hf, rfl⟩

theorem Inv.tracedCall (ht : t.Inv) (h : Tfs.tracedCall c t = .ok (r, t')) : t'.Inv := by
  obtain ⟨fs', hcall, rfl⟩ := Outcome.recorded_eq_ok.mp h
  exact ht.next (ht.fs.callSpec hcall)

/-! ### Where a write goes -/

/-- A write through handle `f` would land in the file of inode `k`: it is the
inode that the handle points to, or it has the block that that inode points to,
and more data than the handle's offset. -/
def Lands (t : Traced) (f k : Nat) : Prop :=
  t.fs.IsOpen f ∧ ∃ j : Nat, (t.fs.openFileTable f).ofInumber = j ∧
    (k = j ∧ (t.fs.openFileTable f).ofOffset < t.fs.fsParams.blockSize ∧
        (0 < (t.fs.inodeTable j).iSize ∨
          ∃ b, firstFit (isFree t.fs.freeBlocks) t.fs.fsParams.maxBlockCount = some b) ∨
      k ≠ j ∧ 0 < (t.fs.inodeTable j).iSize ∧ t.fs.blockOf k = t.fs.blockOf j ∧
        (t.fs.openFileTable f).ofOffset < (t.fs.inodeTable k).iSize)

/-- No file but the one that handle `f` was opened on differs in `fs'`. -/
def Isolated (t : Traced) (f : Nat) (fs' : TfsState) : Prop :=
  ∀ q bs, t.fs.readFile q = some bs → t.born q ≠ t.opened f → fs'.readFile q = some bs

/-- A file that is still in the directory keeps the writes of its handles. -/
theorem Inv.not_lands_of_present (ht : t.Inv) {q' : CString} (hopen : t.fs.IsOpen f)
    (hj : t.fs.HasFile q j) (hborn : t.born q = t.opened f) (hk : t.fs.HasFile q' k)
    (hother : t.born q' ≠ t.opened f) : ¬ t.Lands f k := by
  rintro ⟨-, j', hj', h⟩
  have hjj : j' = j := by
    have := ht.same f q j hopen hj hborn
    omega
  subst hjj
  rcases h with ⟨rfl, -⟩ | ⟨hkj, hpos, hblock, hlt⟩
  · exact hother ((ht.fs.hasFile_name hk hj) ▸ hborn)
  · exact hkj (ht.fs.blockInj k j' (ht.fs.isFile_of_hasFile hk) (ht.fs.isFile_of_hasFile hj)
      (by omega) hpos hblock)

/-- A write that lands in no other file leaves them alone. -/
theorem Inv.isolated_of_not_lands {buffer : List UInt8} {ret : Int} (ht : t.Inv)
    (h : ∀ q k, t.fs.HasFile q k → t.born q ≠ t.opened f → ¬ t.Lands f k)
    (hw : tfsWrite f buffer t.fs = .ok (ret, fs')) : t.Isolated f fs' := by
  intro q bs hq hother
  obtain ⟨k, hk, rfl⟩ := ht.fs.readFile_eq_some.mp hq
  have hland := h q k hk hother
  have hspec := ht.fs.callSpec (tfsCall_tfsWrite hw)
  have hs' := hspec.inv ht.fs
  cases hspec with
  | tfsWrite hspec =>
  cases hspec with
  | closed => exact ht.fs.readFile_of_hasFile hk
  | nothing => exact ht.fs.readFile_of_hasFile hk
  | noBlock => exact ht.fs.readFile_of_hasFile hk
  | wrote f' j b n hf hopen hj hb hn hpos =>
    obtain rfl : f = f' := by omega
    obtain ⟨j', hj', -, -, hsane⟩ := ht.fs.handle f hopen
    obtain rfl : j = j' := by omega
    obtain ⟨hb0, -⟩ := hb.bounds hsane ht.fs.root
    have hfile := ht.fs.isFile_of_hasFile hk
    have hlen := List.length_take_le n buffer
    rw [BlockFor] at hb
    have hkj : k ≠ j := by
      rintro rfl
      refine hland ⟨hopen, k, hj, Or.inl ⟨rfl, by omega, ?_⟩⟩
      split at hb
      · exact Or.inr ⟨b, hb⟩
      · exact Or.inl (by omega)
    have hbeyond : t.fs.blockOf k = b →
        (t.fs.inodeTable k).iSize ≤ (t.fs.openFileTable f).ofOffset := by
      intro hkb
      by_contra hlt
      split at hb
      · -- The write takes a free block, and the file's block is not free.
        have htaken := ht.fs.owned k hfile (by omega)
        have hfree := (free_of_firstFit hb).2
        rw [hkb, hfree] at htaken
        cases htaken
      · exact hland ⟨hopen, j, hj, Or.inr ⟨hkj, by omega, hkb.trans hb.symm, by omega⟩⟩
    refine hs'.readFile_eq_some.mpr ⟨k, (ht.fs.hasFile_writeBlock j _ _ hb0).mpr hk, ?_⟩
    exact ht.fs.contents_writeBlock_ne hfile hkj (by omega) hbeyond

/-- What a write of one byte does through a handle inside its block. -/
theorem Inv.write_one (ht : t.Inv) (hopen : t.fs.IsOpen f)
    (hj : (t.fs.openFileTable f).ofInumber = (j : Int))
    (hoff : (t.fs.openFileTable f).ofOffset < t.fs.fsParams.blockSize) {b : Nat}
    (hb : t.fs.BlockFor j b) (x : UInt8) :
    tfsWrite f [x] t.fs = .ok (1,
      (t.fs.writeBlock j b (t.fs.openFileTable f).ofOffset [x]).setOffset f
        ((t.fs.openFileTable f).ofOffset + 1)) := by
  have hsize := ht.fs.range.blockSize
  rcases ht.fs.tfsWrite_spec f [x] with ⟨r, hr, hspec⟩ | ⟨-, f', hf', -, hwild⟩
  · rw [hr]
    cases hspec with
    | closed hclosed => exact absurd hopen (hclosed f rfl)
    | nothing f' hf' _ hn =>
      obtain rfl : f = f' := by omega
      simp at hn
      omega
    | noBlock f' j' hf' _ hj' hz hfull =>
      obtain rfl : f = f' := by omega
      obtain rfl : j = j' := by omega
      rw [BlockFor, if_pos hz, hfull] at hb
      cases hb
    | wrote f' j' b' n hf' _ hj' hb' hn =>
      obtain rfl : f = f' := by omega
      obtain rfl : j = j' := by omega
      have hbb : b' = b := by
        rw [BlockFor] at hb hb'
        split at hb
        · rw [if_pos ‹_›, hb] at hb'
          exact (Option.some.inj hb').symm
        · rw [if_neg ‹_›] at hb'
          exact hb'.symm.trans hb
      have hn1 : n = 1 := by
        simp only [List.length_singleton] at hn
        omega
      subst hbb hn1
      rfl
  · obtain rfl : f = f' := by omega
    simp at hwild
    omega

/-- A write that lands in a file can change it. -/
theorem Inv.lands_changes (ht : t.Inv) (hk : t.fs.HasFile q k) (hland : t.Lands f k) :
    ∃ buffer ret fs', tfsWrite f buffer t.fs = .ok (ret, fs') ∧
      fs'.readFile q ≠ t.fs.readFile q := by
  obtain ⟨hopen, j, hj, hcases⟩ := hland
  have hfile := ht.fs.isFile_of_hasFile hk
  obtain ⟨j', hj', -, -, hsane⟩ := ht.fs.handle f hopen
  obtain rfl : j = j' := by omega
  -- The block that is written, which is that of the file.
  obtain ⟨b, hb, hoff, hblock⟩ : ∃ b, t.fs.BlockFor j b ∧
      (t.fs.openFileTable f).ofOffset < t.fs.fsParams.blockSize ∧
      (k ≠ j → t.fs.blockOf k = b ∧ (t.fs.openFileTable f).ofOffset < (t.fs.inodeTable k).iSize) := by
    rcases hcases with ⟨rfl, hoff, hpos | ⟨b, hb⟩⟩ | ⟨hkj, hpos, hblock, hlt⟩
    · exact ⟨t.fs.blockOf k, by rw [BlockFor, if_neg (by omega)], hoff, absurd rfl⟩
    · by_cases hz : (t.fs.inodeTable k).iSize = 0
      · exact ⟨b, by rw [BlockFor, if_pos hz, hb], hoff, absurd rfl⟩
      · exact ⟨t.fs.blockOf k, by rw [BlockFor, if_neg hz], hoff, absurd rfl⟩
    · have hsize := (ht.fs.sane k hfile).1
      exact ⟨t.fs.blockOf j, by rw [BlockFor, if_neg (by omega)], by omega,
        fun _ => ⟨hblock, hlt⟩⟩
  obtain ⟨hb0, -⟩ := hb.bounds hsane ht.fs.root
  obtain ⟨x, hx⟩ : ∃ x, x ≠ t.fs.fsData
      (b * t.fs.fsParams.blockSize + (t.fs.openFileTable f).ofOffset) :=
    ⟨t.fs.fsData (b * t.fs.fsParams.blockSize + (t.fs.openFileTable f).ofOffset) + 1, by simp⟩
  have hw := ht.write_one hopen hj hoff hb x
  refine ⟨[x], _, _, hw, ?_⟩
  have hs' := (ht.fs.callSpec (c := .tfsWrite f [x]) (by rw [tfsCall, hw]; rfl)).inv ht.fs
  rw [ht.fs.readFile_of_hasFile hk,
    hs'.readFile_of_hasFile ((ht.fs.hasFile_writeBlock j _ _ hb0).mpr hk)]
  intro heq
  have heq : (t.fs.writeBlock j b (t.fs.openFileTable f).ofOffset [x]).contents k =
    t.fs.contents k := Option.some.inj heq
  by_cases hkj : k = j
  · subst hkj
    by_cases hlt : (t.fs.openFileTable f).ofOffset < (t.fs.inodeTable k).iSize
    · rw [BlockFor, if_neg (by omega)] at hb
      subst hb
      rw [contents, writeBlock_blockOf, writeBlock_inode] at heq
      simp only [List.length_singleton, Nat.max_eq_left (show _ + 1 ≤ _ from hlt)] at heq
      exact load_store_ne hx hlt heq
    · -- The file grows.
      have hlen := congrArg List.length heq
      simp only [length_contents, writeBlock_inode, List.length_singleton] at hlen
      omega
  · obtain ⟨rfl, hlt⟩ := hblock hkj
    have hblockOf : (t.fs.writeBlock j (t.fs.blockOf k) (t.fs.openFileTable f).ofOffset [x]).blockOf k =
        t.fs.blockOf k := by
      rw [blockOf, writeBlock_inode_ne hkj, ← blockOf]
    rw [contents, hblockOf, writeBlock_inode_ne hkj] at heq
    exact load_store_ne hx hlt heq

end Traced

/-- **Write isolation.**  In every reachable state, the writes through handle `f`
change no other file exactly when they land in none; they land in none while the
file that `f` was opened on is in the directory; and they return as long as the
handle's offset is inside its block. -/
theorem tfsWrite_isolated_iff {params : Option TfsParams} {s : TfsState} {cs : List TfsCall}
    {rs : List Reply} {t : Traced} (hinit : Started params s)
    (hp : (params.getD tfsDefaultParams).InRange)
    (hrun : Outcome.runList tracedCall cs (Traced.start s) = .ok (rs, t)) (f : Nat) :
    ((∀ buffer ret fs', tfsWrite f buffer t.fs = .ok (ret, fs') → t.Isolated f fs') ↔
        ∀ q k, t.fs.HasFile q k → t.born q ≠ t.opened f → ¬ t.Lands f k) ∧
      ((∃ q, (t.fs.readFile q).isSome ∧ t.born q = t.opened f) →
        ∀ q k, t.fs.HasFile q k → t.born q ≠ t.opened f → ¬ t.Lands f k) ∧
      ((t.fs.openFileTable f).ofOffset ≤ t.fs.fsParams.blockSize →
        ∀ buffer : List UInt8, buffer.length < 2 ^ 63 → ∃ r, tfsWrite f buffer t.fs = .ok r) := by
  have ht : t.Inv := Outcome.runList_invariant (fun _ _ _ _ ht h => Traced.Inv.tracedCall ht h)
    (Traced.inv_start (hinit.fresh hp)) hrun
  refine ⟨⟨?_, ?_⟩, ?_, ?_⟩
  · intro h q k hk hother hland
    obtain ⟨buffer, ret, fs', hw, hne⟩ := ht.lands_changes hk hland
    have hq := ht.fs.readFile_of_hasFile hk
    exact hne ((h buffer ret fs' hw q _ hq hother).trans hq.symm)
  · intro h buffer ret fs' hw
    exact ht.isolated_of_not_lands h hw
  · rintro ⟨q, hq, hborn⟩ q' k hk hother hland
    obtain ⟨bs, hbs⟩ := Option.isSome_iff_exists.mp hq
    obtain ⟨j, hj, -⟩ := ht.fs.readFile_eq_some.mp hbs
    exact ht.not_lands_of_present hland.1 hj hborn hk hother hland
  · intro hoff buffer hlen
    rcases ht.fs.tfsWrite_spec f buffer with ⟨r, hr, -⟩ | ⟨-, f', hf', -, hwild⟩
    · exact ⟨r, hr⟩
    · obtain rfl : f = f' := by omega
      have := ht.fs.range.blockSize
      omega

/-- Two files that are open. -/
def twoFiles : List TfsCall :=
  [.tfsOpen (some (.ofBuffer [47, 97])) tfsOCreat, .tfsOpen (some (.ofBuffer [47, 98])) tfsOCreat]

theorem isolated_twoFiles :
    ∃ rs t, Outcome.runList tracedCall twoFiles (Traced.start initial) = .ok (rs, t) ∧
      ∀ buffer ret fs', tfsWrite 0 buffer t.fs = .ok (ret, fs') → t.Isolated 0 fs' := by
  have h : (Outcome.runList tracedCall twoFiles (Traced.start initial)).map (fun p =>
      (p.2.fs.readFile (.ofBuffer [97]), p.2.born (.ofBuffer [97]), p.2.opened 0)) =
      .ok (some [], 0, 0) := by
    decide +kernel
  obtain ⟨⟨rs, t⟩, hrun, ht⟩ := Outcome.map_eq_ok.mp h
  obtain ⟨hread, hborn, hopened⟩ : t.fs.readFile (.ofBuffer [97]) = some [] ∧
      t.born (.ofBuffer [97]) = 0 ∧ t.opened 0 = 0 := by
    simpa using ht
  have hiso := tfsWrite_isolated_iff started_initial inRange_tfsDefaultParams hrun 0
  exact ⟨rs, t, hrun, hiso.1.mpr (hiso.2.1 ⟨_, by rw [hread]; rfl, hborn.trans hopened.symm⟩)⟩

/-- A file is removed while handle 0 is open on it, and its inode becomes that of
the file `b`, which the next write through handle 0 makes two bytes long. -/
def reusedInode : List TfsCall :=
  [.tfsOpen (some (.ofBuffer [47, 97])) tfsOCreat, .tfsWrite 0 [120],
    .tfsUnlink (some (.ofBuffer [47, 97])), .tfsOpen (some (.ofBuffer [47, 98])) tfsOCreat]

theorem not_isolated_reusedInode :
    ∃ rs t fs', Outcome.runList tracedCall reusedInode (Traced.start initial) = .ok (rs, t) ∧
      tfsWrite 0 [121] t.fs = .ok (1, fs') ∧ ¬ t.Isolated 0 fs' := by
  have h : (Outcome.runList tracedCall reusedInode (Traced.start initial) >>= fun p =>
      (tfsWrite 0 [121] p.2.fs).map fun w => (w.1, p.2.fs.readFile (.ofBuffer [98]),
        p.2.born (.ofBuffer [98]), p.2.opened 0, w.2.readFile (.ofBuffer [98]))) =
      .ok (1, some [], 3, 0, some [120, 121]) := by
    decide +kernel
  obtain ⟨⟨rs, t⟩, hrun, h⟩ := Outcome.bind_eq_ok.mp h
  obtain ⟨⟨ret, fs'⟩, hw, heq⟩ := Outcome.map_eq_ok.mp h
  simp only [Prod.mk.injEq] at heq
  obtain ⟨rfl, hread, hborn, hopened, hread'⟩ := heq
  refine ⟨rs, t, fs', hrun, hw, fun hiso => ?_⟩
  have hsame := hiso _ _ hread (by omega)
  rw [hread'] at hsame
  simp at hsame

end Tfs
