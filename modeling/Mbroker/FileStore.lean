/-
What TécnicoFS is for: named byte strings and handles on them.

`FileStore` is the abstract file system that the tables of TécnicoFS stand for.
A file is a name of 1 to 39 bytes with at most a block of data; a handle is a
file and an offset.  The four ways in which a call can run out of room are
counts: of files (inodes, and entries of the directory), of files with data
(blocks) and of handles.

* `openFile_cases` — what an open that does not truncate does;
* `writeFile_append`, `writeFile_other` — what a write does to the file of its
  handle, and to the others.
-/
import Mbroker.TfsSpec
import Mathlib.Data.Finmap

namespace Tfs

open Memory

/-- The names of files. -/
abbrev FileName := { q : CString // 1 ≤ q.strlen ∧ q.strlen ≤ 39 }

/-- The data of a file of at most `n` bytes. -/
abbrev FileData (n : Nat) := { bs : List UInt8 // bs.length ≤ n }

/-- The file that a path names. -/
def fileName? (path : Option CString) : Option FileName :=
  path.bind fun p =>
    if h : validPathname p = true ∧ (skipSlash p).strlen ≤ 39 then
      some ⟨skipSlash p, TfsState.validPathname_strlen h.1, h.2⟩
    else none

/-- An open file. -/
structure Handle where
  name : FileName
  offset : Nat

/-- The abstract file system. -/
structure FileStore (p : TfsParams) where
  files : Finmap fun _ : FileName => FileData p.blockSize
  handles : Fin p.maxOpenFilesCount → Option Handle

namespace FileStore

variable {p : TfsParams}

/-- No files, no handles. -/
def empty : FileStore p := ⟨∅, fun _ => none⟩

/-- The bytes of a file. -/
def file (a : FileStore p) (q : FileName) : List UInt8 := ((a.files.lookup q).map (·.1)).getD []

/-- The file `q` set to `data`. -/
def putFile (a : FileStore p) (q : FileName) (data : FileData p.blockSize) : FileStore p :=
  { a with files := a.files.insert q data }

def setHandle (a : FileStore p) (f : Fin p.maxOpenFilesCount) (h : Option Handle) : FileStore p :=
  { a with handles := Function.update a.handles f h }

@[simp] theorem handles_setHandle (a : FileStore p) (f : Fin p.maxOpenFilesCount)
    (h : Option Handle) : (a.setHandle f h).handles f = h := by
  simp [setHandle]

theorem handles_setHandle_ne {a : FileStore p} {f f' : Fin p.maxOpenFilesCount} {h : Option Handle}
    (hne : f' ≠ f) : (a.setHandle f h).handles f' = a.handles f' := by
  simp [setHandle, hne]

theorem setHandle_self {a : FileStore p} {f : Fin p.maxOpenFilesCount} {h : Option Handle}
    (hf : a.handles f = h) : a.setHandle f h = a := by
  rw [setHandle, ← hf, Function.update_eq_self]

/-- The lowest handle that is not open. -/
def nextHandle (a : FileStore p) : Option (Fin p.maxOpenFilesCount) :=
  (List.finRange p.maxOpenFilesCount).find? fun f => (a.handles f).isNone

/-- A new handle, if there is one left. -/
def addHandle (a : FileStore p) (h : Handle) : Int × FileStore p :=
  match a.nextHandle with
  | some f => ((f : Nat), a.setHandle f (some h))
  | none => (-1, a)

/-- The open handle of a number. -/
def handle? (a : FileStore p) (fhandle : Int) : Option (Fin p.maxOpenFilesCount × Handle) :=
  if h : 0 ≤ fhandle ∧ fhandle < p.maxOpenFilesCount then
    (a.handles ⟨fhandle.toNat, by omega⟩).map fun e => (⟨fhandle.toNat, by omega⟩, e)
  else none

/-- One more file fits: there is an inode for it besides the root's, and an entry
in the root directory. -/
def RoomForFile (a : FileStore p) : Prop :=
  a.files.keys.card + 1 < p.maxInodeCount ∧ a.files.keys.card < p.blockSize / sizeofDirEntry

instance (a : FileStore p) : Decidable a.RoomForFile := by
  unfold RoomForFile
  infer_instance

/-- One more file can have data: there is a block for it besides the root's. -/
def RoomForData (a : FileStore p) : Prop :=
  (a.files.keys.filter fun q => a.file q ≠ []).card + 1 < p.maxBlockCount

instance (a : FileStore p) : Decidable a.RoomForData := by
  unfold RoomForData
  infer_instance

/-- Opening: an existing file is truncated if the mode asks for it, a missing one
is created if the mode allows it and there is room. -/
def openFile (path : Option CString) (mode : Nat) (a : FileStore p) : Int × FileStore p :=
  match fileName? path with
  | none => (-1, a)
  | some q =>
    match a.files.lookup q with
    | some data =>
      let data := if mode &&& tfsOTrunc ≠ 0 then ⟨[], Nat.zero_le _⟩ else data
      (a.putFile q data).addHandle ⟨q, if mode &&& tfsOAppend ≠ 0 then data.1.length else 0⟩
    | none =>
      if mode &&& tfsOCreat ≠ 0 ∧ a.RoomForFile then
        (a.putFile q ⟨[], Nat.zero_le _⟩).addHandle ⟨q, 0⟩
      else (-1, a)

def closeFile (fhandle : Int) (a : FileStore p) : Int × FileStore p :=
  match a.handle? fhandle with
  | none => (-1, a)
  | some (f, _) => (0, a.setHandle f none)

/-- Reading: what is left of the file from the offset on, at most `len` bytes. -/
def readFile (fhandle : Int) (len : Nat) (a : FileStore p) :
    (Int × List UInt8) × FileStore p :=
  match a.handle? fhandle with
  | none => ((-1, []), a)
  | some (f, h) =>
    let bytes := ((a.file h.name).drop h.offset).take len
    ((bytes.length, bytes), a.setHandle f (some { h with offset := h.offset + bytes.length }))

theorem length_overwrite_le (data : FileData p.blockSize) (off : Nat) (buffer : List UInt8) :
    (overwrite data.1 off (buffer.take (p.blockSize - off))).length ≤ p.blockSize := by
  have := data.2
  simp only [overwrite, List.length_append, List.length_take, List.length_drop]
  omega

/-- The data of a file written over, with as much as fits in a block. -/
def written (data : FileData p.blockSize) (off : Nat) (buffer : List UInt8) :
    FileData p.blockSize :=
  ⟨overwrite data.1 off (buffer.take (p.blockSize - off)), length_overwrite_le data off buffer⟩

/-- Writing: over and past the end of the file from the offset on, as much as
fits in a block. -/
def writeFile (fhandle : Int) (buffer : List UInt8) (a : FileStore p) : Int × FileStore p :=
  match a.handle? fhandle with
  | none => (-1, a)
  | some (f, h) =>
    let bytes := buffer.take (p.blockSize - h.offset)
    if bytes = [] then (0, a)
    else if a.file h.name = [] ∧ ¬ a.RoomForData then (-1, a)
    else
      let data := (a.files.lookup h.name).getD ⟨[], Nat.zero_le _⟩
      (bytes.length, (a.putFile h.name (written data h.offset buffer)).setHandle f
        (some { h with offset := h.offset + bytes.length }))

def unlinkFile (path : Option CString) (a : FileStore p) : Int × FileStore p :=
  match fileName? path with
  | none => (-1, a)
  | some q =>
    match a.files.lookup q with
    | none => (-1, a)
    | some _ => (0, { a with files := a.files.erase q })

/-- One call on the abstract file system. -/
def call : TfsCall → FileStore p → Reply × FileStore p
  | .tfsOpen name mode, a => let (r, a) := a.openFile name mode; (⟨r, []⟩, a)
  | .tfsClose fhandle, a => let (r, a) := a.closeFile fhandle; (⟨r, []⟩, a)
  | .tfsRead fhandle len, a => let ((r, bytes), a) := a.readFile fhandle len; (⟨r, bytes⟩, a)
  | .tfsWrite fhandle buffer, a => let (r, a) := a.writeFile fhandle buffer; (⟨r, []⟩, a)
  | .tfsUnlink target, a => let (r, a) := a.unlinkFile target; (⟨r, []⟩, a)

/-- Some handle is open on the file that a path names. -/
def InUse (a : FileStore p) (path : Option CString) : Prop :=
  ∃ f, (a.handles f).map Handle.name = fileName? path ∧ (a.handles f).isSome

instance (a : FileStore p) (path : Option CString) : Decidable (a.InUse path) := by
  unfold InUse
  infer_instance

/-- The call neither truncates nor removes a file that is open, and its length is
one that a buffer can have. -/
def Quiet : TfsCall → FileStore p → Prop
  | .tfsOpen name mode, a => mode &&& tfsOTrunc ≠ 0 → ¬ a.InUse name
  | .tfsClose _, _ => True
  | .tfsRead _ len, _ => len < 2 ^ 63
  | .tfsWrite _ buffer, _ => buffer.length < 2 ^ 63
  | .tfsUnlink target, a => ¬ a.InUse target

instance : (c : TfsCall) → (a : FileStore p) → Decidable (Quiet c a)
  | .tfsOpen name mode, a => inferInstanceAs (Decidable (mode &&& tfsOTrunc ≠ 0 → ¬ a.InUse name))
  | .tfsClose _, _ => inferInstanceAs (Decidable True)
  | .tfsRead _ len, _ => inferInstanceAs (Decidable (len < 2 ^ 63))
  | .tfsWrite _ buffer, _ => inferInstanceAs (Decidable (buffer.length < 2 ^ 63))
  | .tfsUnlink target, a => inferInstanceAs (Decidable (¬ a.InUse target))

/-! ### Handles -/

section Handles

variable {a : FileStore p} {q : FileName} {e e' : Handle} {fhandle h : Int}
  {f : Fin p.maxOpenFilesCount} {data : FileData p.blockSize} {path : Option CString} {mode : Nat}

theorem handle?_eq_some : a.handle? fhandle = some (f, e) ↔
    fhandle = (f : Nat) ∧ a.handles f = some e := by
  rw [handle?]
  constructor
  · intro he
    split at he
    · obtain ⟨e', he', heq⟩ := Option.map_eq_some_iff.mp he
      obtain ⟨rfl, rfl⟩ := Prod.mk.inj heq
      exact ⟨by simp; omega, he'⟩
    · cases he
  · rintro ⟨rfl, he⟩
    simp [he]

@[simp] theorem handle?_putFile : (a.putFile q data).handle? h = a.handle? h := rfl

/-- What happens to one handle does not show in another. -/
theorem handle?_setHandle_ne {o : Option Handle} (hne : h ≠ (f : Nat)) :
    (a.setHandle f o).handle? h = a.handle? h := by
  rw [handle?, handle?]
  split
  · rw [handles_setHandle_ne fun heq => hne (by rw [← heq]; simp; omega)]
  · rfl

theorem handle?_setHandle (e' : Handle) (he : a.handle? fhandle = some (f, e)) :
    (a.setHandle f (some e')).handle? fhandle = some (f, e') :=
  handle?_eq_some.mpr ⟨(handle?_eq_some.mp he).1, handles_setHandle _ _ _⟩

/-- A new handle takes a number that no open one has. -/
theorem addHandle_cases (a : FileStore p) (e : Handle) :
    (a.addHandle e).1 = -1 ∧ (a.addHandle e).2 = a ∨
      ∃ f : Fin p.maxOpenFilesCount, a.handles f = none ∧ (a.addHandle e).1 = (f : Nat) ∧
        (a.addHandle e).2 = a.setHandle f (some e) := by
  rw [addHandle]
  cases hf : a.nextHandle with
  | none => exact Or.inl ⟨rfl, rfl⟩
  | some f =>
    have hfree := List.find?_some hf
    exact Or.inr ⟨f, by simpa using hfree, rfl, rfl⟩

theorem handle?_addHandle (he : a.handle? h = some (f, e)) :
    (a.addHandle e').2.handle? h = some (f, e) := by
  rcases a.addHandle_cases e' with ⟨-, heq⟩ | ⟨f', hfree, -, heq⟩
  · rw [heq, he]
  · obtain ⟨rfl, hf⟩ := handle?_eq_some.mp he
    have hne : ((f : Nat) : Int) ≠ (f' : Nat) := by
      intro hff
      obtain rfl : f = f' := Fin.ext (by omega)
      rw [hf] at hfree
      cases hfree
    rw [heq, handle?_setHandle_ne hne, he]

/-- What `addHandle` returns is open, and was not. -/
theorem handle?_addHandle_new (hr : (a.addHandle e).1 ≠ -1) :
    a.handle? (a.addHandle e).1 = none ∧
      ∃ f, (a.addHandle e).2.handle? (a.addHandle e).1 = some (f, e) := by
  rcases a.addHandle_cases e with ⟨hret, -⟩ | ⟨f, hfree, hret, heq⟩
  · exact absurd hret hr
  · rw [hret, heq]
    refine ⟨?_, f, handle?_eq_some.mpr ⟨rfl, handles_setHandle _ _ _⟩⟩
    simp [handle?, hfree]

/-! ### What the calls do to one file -/

@[simp] theorem file_setHandle {o : Option Handle} : (a.setHandle f o).file q = a.file q := rfl

@[simp] theorem file_putFile_self : (a.putFile q data).file q = data.1 := by
  simp [file, putFile]

theorem file_putFile_ne {q' : FileName} (hne : q' ≠ q) :
    (a.putFile q data).file q' = a.file q' := by
  rw [file, putFile, Finmap.lookup_insert_of_ne _ hne, file]

@[simp] theorem file_addHandle : (a.addHandle e).2.file q = a.file q := by
  rcases a.addHandle_cases e with ⟨-, heq⟩ | ⟨f, -, -, heq⟩ <;> rw [heq]
  exact file_setHandle

theorem putFile_lookup (h : a.files.lookup q = some data) : (a.putFile q data).file = a.file := by
  funext q'
  by_cases hq : q' = q
  · rw [hq, file_putFile_self, file, h]
    rfl
  · exact file_putFile_ne hq

/-- An open that does not truncate adds a handle, and changes no data. -/
theorem openFile_cases (a : FileStore p) (path : Option CString) (hmode : mode &&& tfsOTrunc = 0) :
    a.openFile path mode = (-1, a) ∨
      ∃ (a' : FileStore p) (q : FileName), fileName? path = some q ∧ a'.handles = a.handles ∧
        a'.file = a.file ∧ a.openFile path mode =
          a'.addHandle ⟨q, if mode &&& tfsOAppend ≠ 0 then (a.file q).length else 0⟩ := by
  cases hq : fileName? path with
  | none => exact Or.inl (by simp [openFile, hq])
  | some q =>
    cases hdata : a.files.lookup q with
    | some data =>
      have hfile : a.file q = data.1 := by simp [file, hdata]
      refine Or.inr ⟨a.putFile q data, q, rfl, rfl, putFile_lookup hdata, ?_⟩
      simp [openFile, hq, hdata, hmode, hfile]
    | none =>
      have hfile : a.file q = [] := by simp [file, hdata]
      by_cases hcreat : mode &&& tfsOCreat ≠ 0 ∧ a.RoomForFile
      · refine Or.inr ⟨a.putFile q ⟨[], Nat.zero_le _⟩, q, rfl, rfl, ?_, ?_⟩
        · funext q'
          by_cases hqq : q' = q
          · rw [hqq, file_putFile_self, hfile]
          · exact file_putFile_ne hqq
        · simp only [openFile, hq, hdata, if_pos hcreat, hfile, List.length_nil, ite_self]
      · exact Or.inl (by simp only [openFile, hq, hdata, if_neg hcreat])

/-- Writing at the end of a file. -/
theorem writeFile_append (buffer : List UInt8)
    (he : a.handle? fhandle = some (f, ⟨q, (a.file q).length⟩))
    (hfit : (a.file q).length + buffer.length ≤ p.blockSize) (hroom : a.RoomForData) :
    (a.writeFile fhandle buffer).2.file q = a.file q ++ buffer ∧
      (a.writeFile fhandle buffer).2.handle? fhandle =
        some (f, ⟨q, ((a.file q) ++ buffer).length⟩) ∧
      ∀ h ≠ fhandle, (a.writeFile fhandle buffer).2.handle? h = a.handle? h := by
  have htake : buffer.take (p.blockSize - (a.file q).length) = buffer :=
    List.take_of_length_le (by omega)
  rw [writeFile, he]
  dsimp only
  rw [htake]
  by_cases hb : buffer = []
  · rw [if_pos hb, hb, List.append_nil]
    exact ⟨rfl, he, fun _ _ => rfl⟩
  · rw [if_neg hb, if_neg fun h => h.2 hroom]
    dsimp only
    refine ⟨?_, ?_, fun h hne => ?_⟩
    · have hdata : ((a.files.lookup q).getD ⟨[], Nat.zero_le _⟩).1 = a.file q := by
        rw [file]
        cases a.files.lookup q <;> rfl
      rw [file_setHandle, file_putFile_self]
      simp only [written, htake, hdata, overwrite]
      simp
    · rw [List.length_append]
      exact handle?_setHandle _ he
    · obtain ⟨rfl, -⟩ := handle?_eq_some.mp he
      rw [handle?_setHandle_ne hne, handle?_putFile]

theorem take_take_append {α : Type} (xs ys : List α) (n : Nat) :
    (xs.take n ++ ys).take n = (xs ++ ys).take n := by
  rw [List.take_append, List.take_append, List.take_take, Nat.min_self, List.length_take]
  rcases Nat.le_total n xs.length with h | h
  · rw [Nat.min_eq_left h, Nat.sub_self, Nat.sub_eq_zero_of_le h]
  · rw [Nat.min_eq_right h]

theorem length_file_le (a : FileStore p) (q : FileName) : (a.file q).length ≤ p.blockSize := by
  rw [file]
  cases a.files.lookup q with
  | none => exact Nat.zero_le _
  | some data => exact data.2

/-- Writing at the end of a file, whatever room there is: the file is cut at the size of a
block. -/
theorem writeFile_end (buffer : List UInt8)
    (he : a.handle? fhandle = some (f, ⟨q, (a.file q).length⟩)) (hroom : a.RoomForData) :
    (a.writeFile fhandle buffer).2.file q = (a.file q ++ buffer).take p.blockSize ∧
      (a.writeFile fhandle buffer).2.handle? fhandle =
        some (f, ⟨q, ((a.file q ++ buffer).take p.blockSize).length⟩) ∧
      ∀ h ≠ fhandle, (a.writeFile fhandle buffer).2.handle? h = a.handle? h := by
  have hle := a.length_file_le q
  have htake : (a.file q ++ buffer).take p.blockSize =
      a.file q ++ buffer.take (p.blockSize - (a.file q).length) := by
    rw [List.take_append, List.take_of_length_le hle]
  -- Only what there is room for counts.
  have hsame : a.writeFile fhandle buffer =
      a.writeFile fhandle (buffer.take (p.blockSize - (a.file q).length)) := by
    rw [writeFile, writeFile, he]
    simp only [written, List.take_take, Nat.min_self]
  rw [htake, hsame]
  exact writeFile_append _ he (by rw [List.length_take]; omega) hroom

/-- A write changes no file but that of its handle, and moves no other handle. -/
theorem writeFile_other (buffer : List UInt8)
    (hq : ∀ f e, a.handle? fhandle = some (f, e) → e.name ≠ q) :
    (a.writeFile fhandle buffer).2.file q = a.file q ∧
      ∀ h ≠ fhandle, (a.writeFile fhandle buffer).2.handle? h = a.handle? h := by
  rw [writeFile]
  cases he : a.handle? fhandle with
  | none => exact ⟨rfl, fun _ _ => rfl⟩
  | some fe =>
    obtain ⟨f, e⟩ := fe
    obtain ⟨rfl, -⟩ := handle?_eq_some.mp he
    dsimp only
    split
    · exact ⟨rfl, fun _ _ => rfl⟩
    · split
      · exact ⟨rfl, fun _ _ => rfl⟩
      · refine ⟨?_, fun h hne => ?_⟩
        · rw [file_setHandle, file_putFile_ne (hq f e he).symm]
        · rw [handle?_setHandle_ne hne, handle?_putFile]

/-- A read changes no file, and moves no other handle. -/
theorem readFile_other (a : FileStore p) (q : FileName) (fhandle : Int) (len : Nat) :
    (a.readFile fhandle len).2.file q = a.file q ∧
    ∀ h ≠ fhandle, (a.readFile fhandle len).2.handle? h = a.handle? h := by
  rw [readFile]
  cases he : a.handle? fhandle with
  | none => exact ⟨rfl, fun _ _ => rfl⟩
  | some fe =>
    obtain ⟨rfl, -⟩ := handle?_eq_some.mp he
    exact ⟨rfl, fun h hne => handle?_setHandle_ne hne⟩

theorem closeFile_other (a : FileStore p) (q : FileName) (fhandle : Int) :
    (a.closeFile fhandle).2.file q = a.file q ∧
    ∀ h ≠ fhandle, (a.closeFile fhandle).2.handle? h = a.handle? h := by
  rw [closeFile]
  cases he : a.handle? fhandle with
  | none => exact ⟨rfl, fun _ _ => rfl⟩
  | some fe =>
    obtain ⟨rfl, -⟩ := handle?_eq_some.mp he
    exact ⟨rfl, fun h hne => handle?_setHandle_ne hne⟩

end Handles

end FileStore

end Tfs
