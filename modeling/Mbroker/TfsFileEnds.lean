/-
Files as their users see them: names with bytes, and handles at their ends.

A handle that is where its file ends adds to the file what it writes, as far as there is room in
the block of the file, or a block for it when it has none yet; and it is where the file ends
again.

* **`Inv.tfsWrite_atEnd`** — a write at the end of a file;
* `Inv.atEnd_of_tfsOpen` — a handle in append mode is at the end of its file;
* `Inv.readFile_of_tfsOpen`, `readFile_of_tfsClose`, `Inv.readFile_of_tfsUnlink` — what the other
  calls do to the files.
-/
import Mbroker.TfsAppends

namespace Tfs

open Memory SlotTable Appending

namespace TfsState

variable {s s' : TfsState} {p q : CString} {f j k b off : Nat} {fhandle r : Int}
  {buffer data : List UInt8}

/-! ### The other files -/

/-- What is written within a file's own block is not another file's. -/
theorem Inv.contents_writeBlock_other (hs : s.Inv) (hj : s.IsFile j) (hk : s.IsFile k)
    (hkj : k ≠ j) (hb : s.BlockFor j b) (hfit : off + data.length ≤ s.fsParams.blockSize) :
    (s.writeBlock j b off data).contents k = s.contents k := by
  refine hs.contents_writeBlock_ne hk hkj hfit fun hkb => ?_
  rw [BlockFor] at hb
  by_contra hlt
  split at hb
  · -- The block was free, and that of a file with data is not.
    have htaken := hs.owned k hk (by omega)
    rw [hkb, (free_of_firstFit hb).2] at htaken
    cases htaken
  · exact hkj (hs.blockInj k j hk hj (by omega) (by omega) (hkb.trans hb.symm))

/-! ### Writing at the end -/

/-- The handle is the open file `f`, of the file `q` and inode `j`, and it is at the end of it. -/
structure AtEndOf (s : TfsState) (fhandle : Int) (q : CString) (f j : Nat) : Prop where
  handle : fhandle = f
  isOpen : s.IsOpen f
  file : s.HasFile q j
  entry : s.openFileTable f = ⟨j, (s.inodeTable j).iSize⟩

/-- The entry of the table of open files that a handle stands for. -/
def entryOf (s : TfsState) (fhandle : Int) : Option OpenFileEntry :=
  (getOpenFileEntry fhandle s).map s.openFileTable

theorem entryOf_eq_none : s.entryOf fhandle = none ↔ getOpenFileEntry fhandle s = none :=
  Option.map_eq_none_iff

theorem entryOf_neg (s : TfsState) : s.entryOf (-1) = none := rfl

theorem AtEndOf.entryOf (h : s.AtEndOf fhandle q f j) :
    s.entryOf fhandle = some ⟨j, (s.inodeTable j).iSize⟩ := by
  rw [TfsState.entryOf, getOpenFileEntry_eq_some.mpr ⟨h.handle, h.isOpen⟩, Option.map_some, h.entry]

theorem atEndOf_of_entryOf (h : s.entryOf fhandle = some ⟨j, (s.inodeTable j).iSize⟩)
    (hj : s.HasFile q j) : ∃ f, s.AtEndOf fhandle q f j := by
  obtain ⟨f, hf, hentry⟩ := Option.map_eq_some_iff.mp h
  obtain ⟨hf, hopen⟩ := getOpenFileEntry_eq_some.mp hf
  exact ⟨f, hf, hopen, hj, hentry⟩

/-- The handle, if it is open, is one of the file `q` and at its end. -/
def AtEnd (s : TfsState) (fhandle : Int) (q : CString) : Prop :=
  ∀ file ∈ s.entryOf fhandle, findInDir 0 q s = .ok file.ofInumber ∧
    file.ofOffset = (s.inodeTable file.ofInumber.toNat).iSize

instance (s : TfsState) (fhandle : Int) (q : CString) : Decidable (s.AtEnd fhandle q) :=
  inferInstanceAs (Decidable (∀ file ∈ s.entryOf fhandle, findInDir 0 q s = .ok file.ofInumber ∧
    file.ofOffset = (s.inodeTable file.ofInumber.toNat).iSize))

theorem atEnd_of_none (h : s.entryOf fhandle = none) : s.AtEnd fhandle q := by
  intro file hfile
  rw [h] at hfile
  cases hfile

theorem Inv.atEnd_of_atEndOf (hs : s.Inv) (h : s.AtEndOf fhandle q f j) : s.AtEnd fhandle q := by
  intro file hfile
  rw [h.entryOf] at hfile
  obtain rfl := Option.some.inj hfile
  refine ⟨?_, by rw [Int.toNat_natCast]⟩
  rcases hs.findInDir_spec q with ⟨k, hk, hfind⟩ | ⟨hno, -⟩
  · rw [hfind, hs.hasFile_inode hk h.file]
  · exact absurd h.file (hno j)

theorem Inv.atEnd_cases (hs : s.Inv) (h : s.AtEnd fhandle q) :
    s.entryOf fhandle = none ∨ ∃ f j, s.AtEndOf fhandle q f j := by
  cases hentry : s.entryOf fhandle with
  | none => exact Or.inl rfl
  | some file =>
    obtain ⟨hfind, hoff⟩ := h file hentry
    obtain ⟨f, hf, rfl⟩ := Option.map_eq_some_iff.mp hentry
    obtain ⟨hf, hopen⟩ := getOpenFileEntry_eq_some.mp hf
    obtain ⟨j, hj, -⟩ := hs.handle f hopen
    rw [hj, Int.toNat_natCast] at hoff
    rcases hs.findInDir_spec q with ⟨j', hj', hfind'⟩ | ⟨-, hfind'⟩
    · have heq : (j' : Int) = j := (Outcome.ok.inj (hfind'.symm.trans hfind)).trans hj
      obtain rfl : j' = j := Int.natCast_inj.mp heq
      refine Or.inr ⟨f, j', hf, hopen, hj', ?_⟩
      rw [← hj, ← hoff]
    · have hneg := (Outcome.ok.inj (hfind'.symm.trans hfind)).trans hj
      omega

/-- The number of bytes that there is room for at the end of a file: up to the end of its block,
if it has one or there is one for it. -/
def room (s : TfsState) (j : Nat) : Nat :=
  if (s.inodeTable j).iSize = 0 ∧ firstFit (isFree s.freeBlocks) s.fsParams.maxBlockCount = none
  then 0 else s.fsParams.blockSize - (s.inodeTable j).iSize

/-- The number of bytes that there is room for at the end of the file of a handle; for none,
when it is not open. -/
def roomAt (s : TfsState) (fhandle : Int) : Nat :=
  match s.entryOf fhandle with
  | some file => s.room file.ofInumber.toNat
  | none => 0

theorem AtEndOf.roomAt (h : s.AtEndOf fhandle q f j) : s.roomAt fhandle = s.room j := by
  rw [TfsState.roomAt, h.entryOf]
  rfl

theorem roomAt_of_none (h : s.entryOf fhandle = none) : s.roomAt fhandle = 0 := by
  rw [TfsState.roomAt, h]

theorem room_of_block (hb : s.BlockFor j b) :
    s.room j = s.fsParams.blockSize - (s.inodeTable j).iSize := by
  rw [room, if_neg]
  rintro ⟨hz, hfull⟩
  rw [BlockFor, if_pos hz, hfull] at hb
  cases hb

theorem Inv.roomAt_lt (hs : s.Inv) (fhandle : Int) : s.roomAt fhandle < 2 ^ 63 := by
  have hblock := hs.range.blockSize
  have hroom : ∀ j, s.room j ≤ s.fsParams.blockSize := by
    intro j
    rw [room]
    split <;> omega
  rw [TfsState.roomAt]
  split
  case h_1 file _ => exact (hroom _).trans_lt (by omega)
  case h_2 => norm_num

/-- The state after a write at the end of a file. -/
theorem Inv.of_append {n : Nat} (hs : s.Inv) (h : s.AtEndOf fhandle q f j) (hb : s.BlockFor j b)
    (hn : n = min buffer.length (s.fsParams.blockSize - (s.inodeTable j).iSize)) (hpos : 0 < n)
    (hs' : s' = (s.writeBlock j b (s.inodeTable j).iSize (buffer.take n)).setOffset f
      ((s.inodeTable j).iSize + n)) (hinv : s'.Inv) :
    s'.AtEndOf fhandle q f j ∧ s'.contents j = s.contents j ++ buffer.take (s.room j) ∧
      s'.room j = s.room j - buffer.length ∧ ∀ p ≠ q, s'.readFile p = s.readFile p := by
  obtain ⟨rfl, hopen, hj, hentry⟩ := h
  have hfile := hs.isFile_of_hasFile hj
  obtain ⟨hb0, -⟩ := hb.bounds (hs.sane j hfile) hs.root
  have hroom := room_of_block hb
  have htake : buffer.take n = buffer.take (s.room j) := by
    rw [hn, hroom, List.take_eq_take_iff]
    omega
  have hwritten : (buffer.take n).length = n := by
    rw [List.length_take]
    omega
  have hinode : s'.inodeTable j =
      { s.inodeTable j with iDataBlock := b, iSize := (s.inodeTable j).iSize + n } := by
    rw [hs']
    show (s.writeBlock j b (s.inodeTable j).iSize (buffer.take n)).inodeTable j = _
    rw [writeBlock_inode, hwritten, Nat.max_eq_right (Nat.le_add_right _ _)]
  have hb' : s'.BlockFor j b := by
    rw [BlockFor, hinode, if_neg (by dsimp only; omega), blockOf, hinode]
    exact Int.toNat_natCast b
  refine ⟨⟨rfl, ?_, ?_, ?_⟩, ?_, ?_, fun p hp => ?_⟩
  · rw [hs']
    exact hopen
  · rw [hs']
    exact (hs.hasFile_writeBlock j _ _ hb0).mpr hj
  · rw [hinode, hs', TfsState.setOffset]
    show Function.update s.openFileTable f { s.openFileTable f with ofOffset := _ } f = _
    rw [Function.update_self, hentry]
  · rw [hs', contents_setOffset, contents_append hb, htake]
  · have hparams : s'.fsParams = s.fsParams := by rw [hs']; rfl
    rw [room_of_block hb', hroom, hparams, hinode]
    dsimp only
    omega
  · rw [hs'] at hinv ⊢
    refine readFile_congr hs hinv (fun k => hs.hasFile_writeBlock j _ _ hb0) fun k hk => ?_
    rw [contents_setOffset]
    refine hs.contents_writeBlock_other hfile (hs.isFile_of_hasFile hk) ?_ hb ?_
    · rintro rfl
      exact hp (hs.hasFile_name hk hj)
    · omega

/-- **A write at the end of a file** adds what there is room for. -/
theorem Inv.tfsWrite_atEnd (hs : s.Inv) (h : s.AtEndOf fhandle q f j)
    (hlen : buffer.length < 2 ^ 63) :
    ∃ r s', tfsWrite fhandle buffer s = .ok (r, s') ∧ s'.Inv ∧ s'.AtEndOf fhandle q f j ∧
      s'.contents j = s.contents j ++ buffer.take (s.room j) ∧
      s'.room j = s.room j - buffer.length ∧ ∀ p ≠ q, s'.readFile p = s.readFile p := by
  have hend := h
  obtain ⟨rfl, hopen, hj, hentry⟩ := h
  have hsize := (hs.sane j (hs.isFile_of_hasFile hj)).1
  have hblock := hs.range.blockSize
  have hoff : (s.openFileTable f).ofOffset = (s.inodeTable j).iSize := by rw [hentry]
  have hinum : (s.openFileTable f).ofInumber = j := by rw [hentry]
  have hsame : ∀ r, tfsWrite f buffer s = .ok (r, s) → buffer.length = 0 ∨ s.room j = 0 →
      ∃ r s', tfsWrite f buffer s = .ok (r, s') ∧ s'.Inv ∧ s'.AtEndOf f q f j ∧
        s'.contents j = s.contents j ++ buffer.take (s.room j) ∧
        s'.room j = s.room j - buffer.length ∧ ∀ p ≠ q, s'.readFile p = s.readFile p := by
    intro r hw hnone
    have htake : buffer.take (s.room j) = [] := by
      rw [← List.length_eq_zero_iff, List.length_take]
      omega
    refine ⟨r, s, hw, hs, hend, ?_, by omega, fun _ _ => rfl⟩
    rw [htake, List.append_nil]
  rcases hs.tfsWrite_spec f buffer with ⟨⟨r, s'⟩, hw, hspec⟩ | ⟨-, f', hf', -, hwild⟩
  · have hs' := hspec.inv hs
    generalize hret : (r, s') = ret at hspec
    have hstate : s' = ret.2 := congrArg Prod.snd hret
    cases hspec with
    | closed hclosed => exact absurd hopen (hclosed f rfl)
    | nothing f' hf' _ hn =>
      obtain rfl : f = f' := Int.natCast_inj.mp hf'
      obtain rfl := hstate
      refine hsame r hw (hn.imp (fun hnil => by rw [hnil]; rfl) fun hfull => ?_)
      rw [room]
      split
      · rfl
      · omega
    | noBlock f' j' hf' _ hj' hz hfull =>
      obtain rfl : f = f' := Int.natCast_inj.mp hf'
      obtain rfl : j = j' := Int.natCast_inj.mp (hinum.symm.trans hj')
      obtain rfl := hstate
      exact hsame r hw (Or.inr (by rw [room, if_pos ⟨hz, hfull⟩]))
    | wrote f' j' b n hf' _ hj' hb hn hpos =>
      obtain rfl : f = f' := Int.natCast_inj.mp hf'
      obtain rfl : j = j' := Int.natCast_inj.mp (hinum.symm.trans hj')
      dsimp only at hstate
      rw [hoff] at hn hstate
      exact ⟨r, s', hw, hs', hs.of_append hend hb hn hpos hstate hs'⟩
  · obtain rfl : f = f' := Int.natCast_inj.mp hf'
    omega

/-! ### The other calls -/

theorem readFile_addToOpenFileTable (j off : Nat) :
    (addToOpenFileTable j off s).2.readFile = s.readFile := by
  cases hf : s.nextHandle with
  | none => rw [addToOpenFileTable_none hf]
  | some f =>
    rw [addToOpenFileTable_some hf]
    rfl

/-- **An open** that does not truncate leaves the files as they are, and there may be a new one. -/
theorem Inv.readFile_of_tfsOpen (hs : s.Inv) {name : Option CString} {mode : Nat}
    (hm : mode &&& tfsOTrunc = 0) (h : tfsOpen name mode s = .ok (r, s')) (q : CString) :
    s'.readFile q = s.readFile q ∨ s.readFile q = none ∧ s'.readFile q = some [] := by
  obtain ⟨ret, hopen, hspec⟩ := hs.tfsOpen_spec name mode
  obtain rfl := Outcome.ok.inj (h.symm.trans hopen)
  have hs' := hspec.inv hs
  generalize hret : (r, s') = ret at hspec
  have hstate : s' = ret.2 := congrArg Prod.snd hret
  cases hspec with
  | invalid => exact Or.inl (by rw [hstate])
  | missing => exact Or.inl (by rw [hstate])
  | noInode => exact Or.inl (by rw [hstate])
  | noEntry p k _ _ _ _ hk =>
    have hfree := (free_of_firstFit hk).2
    refine Or.inl ?_
    dsimp only at hs'
    rw [hstate] at hs' ⊢
    refine readFile_congr hs hs' (fun j => hasFile_resetInode) fun j hj => contents_resetInode_ne ?_
    rintro rfl
    exact absurd (hfree.symm.trans (hs.isFile_of_hasFile hj).2.2) nofun
  | existing p j =>
    refine Or.inl ?_
    rw [hstate, readFile_addToOpenFileTable, TfsState.truncated, if_neg (not_not.mpr hm)]
  | created p k i hp hv hno hm' hk hi hlen =>
    have hfree := (free_of_firstFit hk).2
    have hnew := hs.createFile hk hi (validPathname_strlen hv) hlen hno
    have hnames := fun q j => hs.hasFile_createFile (p := q) (j := j) hk hi hlen
    rw [hstate, readFile_addToOpenFileTable]
    by_cases hq : q = skipSlash p
    · rw [hq]
      refine Or.inr ⟨hs.readFile_eq_none.mpr hno, ?_⟩
      rw [hnew.readFile_of_hasFile ((hnames _ k).mpr (Or.inr ⟨rfl, rfl⟩)), contents_createFile]
    · refine Or.inl (readFile_congr hs hnew (fun j => (hnames q j).trans ?_) fun j hj => ?_)
      · exact ⟨fun h => h.resolve_right fun heq => hq heq.1, Or.inl⟩
      · refine hs.contents_createFile_ne (hs.isFile_of_hasFile hj) ?_ (firstFit_eq_some.mp hi).1
        rintro rfl
        exact absurd (hfree.symm.trans (hs.isFile_of_hasFile hj).2.2) nofun

theorem Inv.readFile_of_tfsOpen_some (hs : s.Inv) {name : Option CString} {mode : Nat}
    {bs : List UInt8} (hm : mode &&& tfsOTrunc = 0) (h : tfsOpen name mode s = .ok (r, s'))
    (hq : s.readFile q = some bs) : s'.readFile q = some bs := by
  rcases hs.readFile_of_tfsOpen hm h q with hsame | ⟨hnone, -⟩
  · exact hsame.trans hq
  · rw [hq] at hnone
    cases hnone

/-- The handle of a file opened in append mode is at its end. -/
theorem Inv.atEnd_of_tfsOpen (hs : s.Inv) {mode : Nat} (hm : mode &&& tfsOTrunc = 0)
    (hm' : mode &&& tfsOAppend ≠ 0) (h : tfsOpen (some p) mode s = .ok (r, s')) :
    s'.AtEnd r (skipSlash p) := by
  have hs' := hs.of_tfsOpen h
  obtain ⟨ret, hopen, hspec⟩ := hs.tfsOpen_spec (some p) mode
  obtain rfl := Outcome.ok.inj (h.symm.trans hopen)
  generalize hret : (r, s') = ret at hspec
  have hr : r = ret.1 := congrArg Prod.fst hret
  have hfails : r = -1 → s'.AtEnd r (skipSlash p) := by
    rintro rfl
    exact atEnd_of_none (entryOf_neg s')
  have hadd : ∀ {s₁ : TfsState} {j : Nat}, s₁.HasFile (skipSlash p) j →
      (r, s') = Tfs.addToOpenFileTable j (s₁.inodeTable j).iSize s₁ → s'.AtEnd r (skipSlash p) := by
    intro s₁ j hj heq
    cases hf : s₁.nextHandle with
    | none =>
      rw [addToOpenFileTable_none hf] at heq
      exact hfails (congrArg Prod.fst heq)
    | some f =>
      rw [addToOpenFileTable_some hf] at heq
      obtain ⟨rfl, rfl⟩ := Prod.mk.inj heq
      refine hs'.atEnd_of_atEndOf (f := f) (j := j) ⟨rfl, ⟨(free_of_firstFit hf).1, ?_⟩, hj, ?_⟩
      · exact Function.update_self _ _ _
      · exact Function.update_self _ _ _
  cases hspec with
  | invalid => exact hfails hr
  | missing => exact hfails hr
  | noInode => exact hfails hr
  | noEntry => exact hfails hr
  | existing p' j hp hv hj =>
    obtain rfl := Option.some.inj hp
    rw [TfsState.truncated, if_neg (not_not.mpr hm), openOffset, if_pos hm'] at hret
    exact hadd hj hret
  | created p' k i hp hv hno _ hk hi hlen =>
    obtain rfl := Option.some.inj hp
    have hj := (hs.hasFile_createFile hk hi hlen).mpr (Or.inr ⟨rfl, rfl⟩)
    refine hadd hj (hret.trans ?_)
    rw [← length_contents, contents_createFile, List.length_nil]

theorem readFile_of_tfsClose (h : tfsClose fhandle s = .ok (r, s')) :
    s'.readFile = s.readFile := by
  obtain ⟨ret, hclose, hspec⟩ := tfsClose_spec s fhandle
  obtain rfl := Outcome.ok.inj (h.symm.trans hclose)
  generalize hret : (r, s') = ret at hspec
  have hstate : s' = ret.2 := congrArg Prod.snd hret
  cases hspec with
  | closed => rw [hstate]
  | done f => rw [hstate]; rfl

/-- **A removal**: nothing else is any different. -/
theorem Inv.readFile_of_tfsUnlink (hs : s.Inv) (h : tfsUnlink (some p) s = .ok (r, s')) :
    r = -1 ∧ s' = s ∨ r = 0 ∧ s'.readFile (skipSlash p) = none ∧
      ∀ q ≠ skipSlash p, s'.readFile q = s.readFile q := by
  obtain ⟨ret, hunlink, hspec⟩ := hs.tfsUnlink_spec (some p)
  obtain rfl := Outcome.ok.inj (h.symm.trans hunlink)
  have hs' := hspec.inv hs
  generalize hret : (r, s') = ret at hspec
  have hstate : s' = ret.2 := congrArg Prod.snd hret
  have hr : r = ret.1 := congrArg Prod.fst hret
  cases hspec with
  | invalid => exact Or.inl ⟨hr, hstate⟩
  | missing => exact Or.inl ⟨hr, hstate⟩
  | removed p' j i hp hv hi hij hq =>
    obtain rfl := Option.some.inj hp
    have hfile : s.HasFile (skipSlash p) j := ⟨i, hi, hij, hq⟩
    dsimp only at hs'
    rw [hstate] at hs' ⊢
    refine Or.inr ⟨hr, hs'.readFile_eq_none.mpr fun k hk => ?_, fun q hne => ?_⟩
    · obtain ⟨hk, hkj⟩ := (hs.hasFile_removeFile hi hij).mp hk
      exact hkj (hs.hasFile_inode hk hfile)
    · refine readFile_congr hs hs' (fun k => ?_) fun k hk =>
        hs.contents_removeFile (hs.isFile_of_hasFile hk) hi
      refine (hs.hasFile_removeFile hi hij).trans ⟨And.left, fun hk => ⟨hk, ?_⟩⟩
      rintro rfl
      exact hne (hs.hasFile_name hk hfile)

/-- A file that is there after a call had the same inode before it. -/
theorem Inv.hasFile_of_tfsCall {c : TfsCall} {ret : Reply} (hs : s.Inv)
    (h : Tfs.tfsCall c s = .ok (ret, s')) (hj : s.HasFile q j) (hq : s'.readFile q ≠ none) :
    s'.HasFile q j := by
  have hspec := hs.callSpec h
  have hadd : ∀ {s₁ : TfsState} {k off : Nat}, s₁.HasFile q j →
      (Tfs.addToOpenFileTable k off s₁).2.HasFile q j := by
    intro s₁ k off hj
    cases hf : s₁.nextHandle with
    | none => rwa [addToOpenFileTable_none hf]
    | some f => rwa [addToOpenFileTable_some hf]
  generalize hout : (ret, s') = out at hspec
  have hstate : s' = out.2 := congrArg Prod.snd hout
  cases hspec with
  | tfsOpen hopen =>
    rw [hstate]
    cases hopen with
    | invalid => exact hj
    | missing => exact hj
    | noInode => exact hj
    | noEntry => exact hj
    | existing p k =>
      refine hadd ?_
      rw [TfsState.truncated]
      split
      · exact hasFile_truncate.mpr hj
      · exact hj
    | created p k i hp hv hno hm hk hi hlen =>
      exact hadd ((hs.hasFile_createFile hk hi hlen).mpr (Or.inl hj))
  | tfsClose hclose =>
    rw [hstate]
    cases hclose <;> exact hj
  | tfsRead hread =>
    rw [hstate]
    cases hread <;> exact hj
  | tfsWrite hwrite =>
    rw [hstate]
    cases hwrite with
    | closed => exact hj
    | nothing => exact hj
    | noBlock => exact hj
    | wrote f k b n hf hopen hk hb hn hpos =>
      obtain ⟨k', hk', -, -, hsane⟩ := hs.handle f hopen
      obtain rfl : k = k' := Int.natCast_inj.mp (hk.symm.trans hk')
      exact (hs.hasFile_writeBlock k _ _ (hb.bounds hsane hs.root).1).mpr hj
  | tfsUnlink hunlink =>
    rw [hstate] at hq ⊢
    have hs' := hunlink.inv hs
    cases hunlink with
    | invalid => exact hj
    | missing => exact hj
    | removed p k i hp hv hi hik hname =>
      refine (hs.hasFile_removeFile hi hik).mpr ⟨hj, ?_⟩
      rintro rfl
      refine hq (hs'.readFile_eq_none.mpr fun l hl => ?_)
      obtain ⟨hl, hne⟩ := (hs.hasFile_removeFile hi hik).mp hl
      exact hne (hs.hasFile_inode hl hj)

end TfsState

end Tfs
