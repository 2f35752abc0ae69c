/-
The TécnicoFS operations of `fs/operations.c`.

Every operation runs under `g_library_mutex`, so a call is one step of the
state (locking and unlocking that mutex never returns `-1`).  `size_t`
arithmetic wraps at `2 ^ 64`, and a copy is checked against the ends of
`fs_data`, past which it is undefined behaviour.

A program is a list of calls: `TfsCall`, `tfsCall` and `runCalls`.
-/
import Mbroker.TfsState

namespace Tfs

open Memory

/-- `tfs_default_params`. -/
def tfsDefaultParams : TfsParams where
  maxInodeCount := 64
  maxBlockCount := 1024
  maxOpenFilesCount := 16
  blockSize := 1024

/-- `tfs_init`; no parameters (`NULL`) are the default ones. -/
def tfsInit (params : Option TfsParams) (m : Malloc) (s : TfsState) : Outcome (Int × TfsState) :=
  let (r, s) := stateInit (params.getD tfsDefaultParams) m s
  if r ≠ 0 then .ok (-1, s)
  else do
    let (root, s) ← inodeCreate .tDirectory s
    if root ≠ rootDirInum then return (-1, s)
    return (0, s)

/-- `tfs_file_mode_t`. -/
def tfsOCreat : Nat := 0b001
def tfsOTrunc : Nat := 0b010
def tfsOAppend : Nat := 0b100

/-- `valid_pathname`, for a name that is not `NULL`. -/
def validPathname (name : CString) : Bool := 1 < name.strlen && name.bytes.head? == some 47

/-- `name + 1`. -/
def skipSlash (name : CString) : CString :=
  ⟨name.bytes.tail, fun h => name.noNul (List.mem_of_mem_tail h)⟩

/-- `tfs_lookup`. -/
def tfsLookup (name : CString) (rootInode : Nat) (s : TfsState) : Outcome Int :=
  if !validPathname name then .ok (-1)
  else findInDir rootInode (skipSlash name) s

/-- Truncates a file being opened (if requested). -/
def openTruncate (inode mode : Nat) (s : TfsState) : Outcome TfsState :=
  if mode &&& tfsOTrunc ≠ 0 ∧ 0 < (s.inodeTable inode).iSize then do
    let s ← dataBlockFree (s.inodeTable inode).iDataBlock s
    return s.setInode inode { s.inodeTable inode with iSize := 0 }
  else .ok s

/-- `tfs_open`. -/
def tfsOpen (name : Option CString) (mode : Nat) (s : TfsState) : Outcome (Int × TfsState) :=
  match name with
  | none => .ok (-1, s)
  | some name =>
    if !validPathname name then .ok (-1, s)
    else do
      let rootDirInode ← inodeGet rootDirInum s
      let inum ← tfsLookup name rootDirInode s
      if 0 ≤ inum then
        -- The file already exists
        let inode ← inodeGet inum s
        let s ← openTruncate inode mode s
        let offset := if mode &&& tfsOAppend ≠ 0 then (s.inodeTable inode).iSize else 0
        return addToOpenFileTable inum offset s
      else if mode &&& tfsOCreat ≠ 0 then
        -- The file does not exist; the mode specified that it should be created
        let (inum, s) ← inodeCreate .tFile s
        if inum = -1 then return (-1, s) -- no space in inode table
        let (r, s) ← addDirEntry rootDirInode (skipSlash name) inum s
        if r = -1 then
          let s ← inodeDelete inum s
          return (-1, s) -- no space in directory
        return addToOpenFileTable inum 0 s
      else return (-1, s)

/-- `tfs_close`. -/
def tfsClose (fhandle : Int) (s : TfsState) : Outcome (Int × TfsState) :=
  match getOpenFileEntry fhandle s with
  | none => .ok (-1, s) -- invalid fd
  | some _ => do
    let s ← removeFromOpenFileTable fhandle s
    return (0, s)

/-- Assignment to `file->of_offset`. -/
def TfsState.setOffset (s : TfsState) (file offset : Nat) : TfsState :=
  { s with openFileTable :=
    Function.update s.openFileTable file { s.openFileTable file with ofOffset := offset } }

/-- The block a write goes to: if empty file, allocate new block. -/
def writeTarget (inode : Nat) (s : TfsState) : Outcome (Int × TfsState) :=
  if (s.inodeTable inode).iSize = 0 then dataBlockAlloc s
  else .ok ((s.inodeTable inode).iDataBlock, s)

/-- `tfs_write`. -/
def tfsWrite (fhandle : Int) (buffer : List UInt8) (s : TfsState) : Outcome (Int × TfsState) :=
  match getOpenFileEntry fhandle s with
  | none => .ok (-1, s)
  | some file => do
    let inode ← inodeGet (s.openFileTable file).ofInumber s
    let ofOffset := (s.openFileTable file).ofOffset
    let blockSize := s.fsParams.blockSize
    -- Determine how many bytes to write
    let toWrite :=
      if (buffer.length + ofOffset) % 2 ^ 64 > blockSize
      then (blockSize + 2 ^ 64 - ofOffset) % 2 ^ 64 else buffer.length
    if toWrite = 0 then return (0, s)
    let (bnum, s) ← writeTarget inode s
    if (s.inodeTable inode).iSize = 0 ∧ bnum = -1 then return (-1, s) -- no space
    let s := s.setInode inode { s.inodeTable inode with iDataBlock := bnum }
    let block ← dataBlockGet (s.inodeTable inode).iDataBlock s
    -- Perform the actual write
    if s.dataSize < block + ofOffset + toWrite then .fault
    else
      let s := { s with fsData := store s.fsData (block + ofOffset) (buffer.take toWrite) }
      let s := s.setOffset file (ofOffset + toWrite)
      let s := s.setInode inode { s.inodeTable inode with
        iSize := max (s.inodeTable inode).iSize (ofOffset + toWrite) }
      return (toWrite, s)

/-- `tfs_read`: the bytes copied to the buffer are returned as well. -/
def tfsRead (fhandle : Int) (len : Nat) (s : TfsState) :
    Outcome ((Int × List UInt8) × TfsState) :=
  match getOpenFileEntry fhandle s with
  | none => .ok ((-1, []), s)
  | some file => do
    let inode ← inodeGet (s.openFileTable file).ofInumber s
    let ofOffset := (s.openFileTable file).ofOffset
    -- Determine how many bytes to read
    let toRead := min (((s.inodeTable inode).iSize + 2 ^ 64 - ofOffset) % 2 ^ 64) len
    if toRead = 0 then return ((0, []), s)
    let block ← dataBlockGet (s.inodeTable inode).iDataBlock s
    -- Perform the actual read
    if s.dataSize < block + ofOffset + toRead then .fault
    else
      return ((toRead, load s.fsData (block + ofOffset) toRead),
        s.setOffset file (ofOffset + toRead))

/-- `tfs_unlink`. -/
def tfsUnlink (target : Option CString) (s : TfsState) : Outcome (Int × TfsState) :=
  match target with
  | none => .ok (-1, s)
  | some target =>
    if !validPathname target then .ok (-1, s)
    else do
      let rootDirInode ← inodeGet rootDirInum s
      let inum ← tfsLookup target rootDirInode s
      if inum = -1 then return (-1, s)
      let s ← inodeDelete inum s
      let (r, s) ← clearDirEntry rootDirInode (skipSlash target) s
      if r = -1 then return (-1, s)
      return (0, s)

/-! ### Programs -/

/-- A call of the TécnicoFS API; no name is `NULL`. -/
inductive TfsCall where
  | tfsOpen (name : Option CString) (mode : Nat)
  | tfsClose (fhandle : Int)
  | tfsRead (fhandle : Int) (len : Nat)
  | tfsWrite (fhandle : Int) (buffer : List UInt8)
  | tfsUnlink (target : Option CString)

/-- What a call gives back: its return value, and the bytes a read stored in the
caller's buffer. -/
structure Reply where
  ret : Int
  bytes : List UInt8 := []
deriving DecidableEq

/-- One call of the API. -/
def tfsCall : TfsCall → TfsState → Outcome (Reply × TfsState)
  | .tfsOpen name mode, s => do
    let (r, s) ← tfsOpen name mode s
    return (⟨r, []⟩, s)
  | .tfsClose fhandle, s => do
    let (r, s) ← tfsClose fhandle s
    return (⟨r, []⟩, s)
  | .tfsRead fhandle len, s => do
    let ((r, bytes), s) ← tfsRead fhandle len s
    return (⟨r, bytes⟩, s)
  | .tfsWrite fhandle buffer, s => do
    let (r, s) ← tfsWrite fhandle buffer s
    return (⟨r, []⟩, s)
  | .tfsUnlink target, s => do
    let (r, s) ← tfsUnlink target s
    return (⟨r, []⟩, s)

/-- A sequence of calls of the API. -/
def runCalls : List TfsCall → TfsState → Outcome (List Reply × TfsState) :=
  Outcome.runList tfsCall

/-- The program before `tfs_init`: no tables. -/
def TfsState.uninitialised : TfsState where
  fsParams := ⟨0, 0, 0, 0⟩
  allocated := false
  inodeTable := fun _ => ⟨.tFile, 0, 0⟩
  freeinodeTs := fun _ => .free
  fsData := fun _ => 0
  freeBlocks := fun _ => .free
  openFileTable := fun _ => ⟨0, 0⟩
  freeOpenFileEntries := fun _ => .free

/-- A `malloc` that succeeds and gives zeroed memory. -/
def Malloc.zeroed : Malloc where
  inodeTable := some fun _ => ⟨.tFile, 0, 0⟩
  freeinodeTs := some fun _ => .free
  fsData := some fun _ => 0
  freeBlocks := some fun _ => .free
  openFileTable := some fun _ => ⟨0, 0⟩
  freeOpenFileEntries := some fun _ => .free

/-- The replies of a run, without the state it ends in. -/
def replies (cs : List TfsCall) (s : TfsState) : Outcome (List Reply) :=
  (runCalls cs s).map Prod.fst

end Tfs
