/-
The TécnicoFS state and the functions of `fs/state.c`.

Each table is a function on slot numbers, read and written below the size that
`fs_params` gives it; `fs_data` is one flat memory, so the root directory's
entries are bytes of its block like any other, 44 to an entry (40 of name, an
`int` of inumber).  An `inode_t *` is the number of the inode it points to and
a pointer into `fs_data` is an address.

The parameters are `size_t` and the numbers handed around are `int`: below
`TfsParams.InRange` the conversions between the two keep the value.
-/
import Mbroker.CMemory
import Mbroker.Outcome
import Mbroker.SlotTable

namespace Tfs

open Memory SlotTable

/-- `MAX_FILE_NAME`. -/
def maxFileName : Nat := 40

/-- `ROOT_DIR_INUM`. -/
def rootDirInum : Int := 0

/-- `sizeof(dir_entry_t)`. -/
def sizeofDirEntry : Nat := maxFileName + 4

/-- `tfs_params`. -/
structure TfsParams where
  maxInodeCount : Nat
  maxBlockCount : Nat
  maxOpenFilesCount : Nat
  blockSize : Nat
deriving DecidableEq

/-- The sizes at which inumbers, block numbers, handles and sizes are `int`s. -/
structure TfsParams.InRange (p : TfsParams) : Prop where
  inodes : p.maxInodeCount < 2 ^ 31
  blocks : p.maxBlockCount < 2 ^ 31
  openFiles : p.maxOpenFilesCount < 2 ^ 31
  blockSize : p.blockSize < 2 ^ 31
  blockSizePos : 1 ≤ p.blockSize

/-- `inode_type`. -/
inductive InodeType where
  | tFile
  | tDirectory
deriving DecidableEq

/-- `inode_t`. -/
structure Inode where
  iNodeType : InodeType
  iSize : Nat
  iDataBlock : Int
deriving DecidableEq

/-- `allocation_state_t`. -/
inductive AllocationState where
  | free
  | taken
deriving DecidableEq

/-- `open_file_entry_t`. -/
structure OpenFileEntry where
  ofInumber : Int
  ofOffset : Nat
deriving DecidableEq

/-- The static variables of `state.c`; `allocated` is `inode_table != NULL`. -/
structure TfsState where
  fsParams : TfsParams
  allocated : Bool
  inodeTable : Nat → Inode
  freeinodeTs : Nat → AllocationState
  fsData : Memory
  freeBlocks : Nat → AllocationState
  openFileTable : Nat → OpenFileEntry
  freeOpenFileEntries : Nat → AllocationState

/-- The slots of an allocation table that are `FREE`. -/
def isFree (t : Nat → AllocationState) (i : Nat) : Bool := t i == .free

namespace TfsState

/-- `MAX_DIR_ENTRIES`. -/
def maxDirEntries (s : TfsState) : Nat := s.fsParams.blockSize / sizeofDirEntry

/-- The size of `fs_data`. -/
def dataSize (s : TfsState) : Nat := s.fsParams.maxBlockCount * s.fsParams.blockSize

/-- Assignment through an `inode_t *`. -/
def setInode (s : TfsState) (inode : Nat) (v : Inode) : TfsState :=
  { s with inodeTable := Function.update s.inodeTable inode v }

end TfsState

/-- `valid_inumber`. -/
def validInumber (inumber : Int) (s : TfsState) : Bool :=
  0 ≤ inumber && inumber < s.fsParams.maxInodeCount

/-- `valid_block_number`. -/
def validBlockNumber (blockNumber : Int) (s : TfsState) : Bool :=
  0 ≤ blockNumber && blockNumber < s.fsParams.maxBlockCount

/-- `valid_file_handle`. -/
def validFileHandle (fileHandle : Int) (s : TfsState) : Bool :=
  0 ≤ fileHandle && fileHandle < s.fsParams.maxOpenFilesCount

/-- What the six calls of `malloc` in `state_init` give: `none` for `NULL`, else
memory with whatever it held before. -/
structure Malloc where
  inodeTable : Option (Nat → Inode)
  freeinodeTs : Option (Nat → AllocationState)
  fsData : Option Memory
  freeBlocks : Option (Nat → AllocationState)
  openFileTable : Option (Nat → OpenFileEntry)
  freeOpenFileEntries : Option (Nat → AllocationState)

/-- Every call of `malloc` succeeds. -/
def Malloc.Succeeds (m : Malloc) : Prop :=
  m.inodeTable.isSome ∧ m.freeinodeTs.isSome ∧ m.fsData.isSome ∧ m.freeBlocks.isSome ∧
    m.openFileTable.isSome ∧ m.freeOpenFileEntries.isSome

instance (m : Malloc) : Decidable m.Succeeds := by
  unfold Malloc.Succeeds
  infer_instance

/-- `for (i = 0; i < n; i++) t[i] = FREE;` -/
def fillFree (t : Nat → AllocationState) (n : Nat) : Nat → AllocationState := fun i =>
  if i < n then .free else t i

/-- `state_init`. -/
def stateInit (params : TfsParams) (m : Malloc) (s : TfsState) : Int × TfsState :=
  let s := { s with fsParams := params }
  if s.allocated then (-1, s) -- already initialized
  else
    let s := { s with
      allocated := m.inodeTable.isSome
      inodeTable := m.inodeTable.getD s.inodeTable
      freeinodeTs := m.freeinodeTs.getD s.freeinodeTs
      fsData := m.fsData.getD s.fsData
      freeBlocks := m.freeBlocks.getD s.freeBlocks
      openFileTable := m.openFileTable.getD s.openFileTable
      freeOpenFileEntries := m.freeOpenFileEntries.getD s.freeOpenFileEntries }
    if ¬ m.Succeeds then (-1, s) -- allocation failed
    else
      (0, { s with
        freeinodeTs := fillFree s.freeinodeTs params.maxInodeCount
        freeBlocks := fillFree s.freeBlocks params.maxBlockCount
        freeOpenFileEntries := fillFree s.freeOpenFileEntries params.maxOpenFilesCount })

/-- `inode_alloc`: the first free inode.  The scan divides by `BLOCK_SIZE` to
decide where to delay. -/
def inodeAlloc (s : TfsState) : Outcome (Int × TfsState) :=
  if 0 < s.fsParams.maxInodeCount ∧ s.fsParams.blockSize = 0 then .fault
  else
    match firstFit (isFree s.freeinodeTs) s.fsParams.maxInodeCount with
    | some inumber =>
      .ok (inumber, { s with freeinodeTs := Function.update s.freeinodeTs inumber .taken })
    | none => .ok (-1, s) -- no free inodes

/-- `data_block_alloc`: the first free block. -/
def dataBlockAlloc (s : TfsState) : Outcome (Int × TfsState) :=
  if 0 < s.fsParams.maxBlockCount ∧ s.fsParams.blockSize = 0 then .fault
  else
    match firstFit (isFree s.freeBlocks) s.fsParams.maxBlockCount with
    | some i => .ok (i, { s with freeBlocks := Function.update s.freeBlocks i .taken })
    | none => .ok (-1, s)

/-- `data_block_free`. -/
def dataBlockFree (blockNumber : Int) (s : TfsState) : Outcome TfsState := do
  Outcome.alwaysAssert (validBlockNumber blockNumber s) "data_block_free: invalid block number"
  return { s with freeBlocks := Function.update s.freeBlocks blockNumber.toNat .free }

/-- `data_block_get`: the address of the block's first byte. -/
def dataBlockGet (blockNumber : Int) (s : TfsState) : Outcome Nat := do
  Outcome.alwaysAssert (validBlockNumber blockNumber s) "data_block_get: invalid block number"
  return blockNumber.toNat * s.fsParams.blockSize

/-- `inode_delete`. -/
def inodeDelete (inumber : Int) (s : TfsState) : Outcome TfsState := do
  Outcome.alwaysAssert (validInumber inumber s) "inode_delete: invalid inumber"
  Outcome.alwaysAssert (s.freeinodeTs inumber.toNat == .taken) "inode_delete: inode already freed"
  let inode := s.inodeTable inumber.toNat
  let s ← if inode.iSize > 0 then dataBlockFree inode.iDataBlock s else .ok s
  return { s with freeinodeTs := Function.update s.freeinodeTs inumber.toNat .free }

/-- `inode_get`. -/
def inodeGet (inumber : Int) (s : TfsState) : Outcome Nat := do
  Outcome.alwaysAssert (validInumber inumber s) "inode_get: invalid inumber"
  return inumber.toNat

/-! ### Directory entries -/

/-- The address of `dir_entry[i].d_name`, its first field. -/
def entryAddr (dirEntry i : Nat) : Nat := dirEntry + sizeofDirEntry * i

/-- `dir_entry[i].d_inumber`. -/
def dInumber (m : Memory) (dirEntry i : Nat) : Int := loadInt m (entryAddr dirEntry i + maxFileName)

/-- `dir_entry[i].d_inumber = v`. -/
def setInumber (m : Memory) (dirEntry i : Nat) (v : Int) : Memory :=
  storeInt m (entryAddr dirEntry i + maxFileName) v

/-- Initializes a directory: every entry is labeled with inumber `-1`, and the
names stay as they were. -/
def clearEntries (m : Memory) (dirEntry n : Nat) : Memory :=
  (List.range n).foldl (fun m i => setInumber m dirEntry i (-1)) m

/-- `inode_create`. -/
def inodeCreate (iType : InodeType) (s : TfsState) : Outcome (Int × TfsState) := do
  let (inumber, s) ← inodeAlloc s
  if inumber = -1 then return (-1, s) -- no free slots in inode table
  let inode := inumber.toNat
  let s := s.setInode inode { s.inodeTable inode with iNodeType := iType }
  match iType with
  | .tDirectory =>
    let (b, s) ← dataBlockAlloc s
    if b = -1 then
      let s := s.setInode inode { s.inodeTable inode with iSize := 0, iDataBlock := -1 }
      let s ← inodeDelete inumber s
      return (-1, s)
    let s := s.setInode inode
      { s.inodeTable inode with iSize := s.fsParams.blockSize, iDataBlock := b }
    let dirEntry ← dataBlockGet b s
    return (inumber, { s with fsData := clearEntries s.fsData dirEntry s.maxDirEntries })
  | .tFile =>
    let s := s.setInode inode { s.inodeTable inode with iSize := 0, iDataBlock := -1 }
    return (inumber, s)

/-- `clear_dir_entry`: every entry is compared, whether live or not. -/
def clearDirEntry (inode : Nat) (subName : CString) (s : TfsState) : Outcome (Int × TfsState) :=
  if (s.inodeTable inode).iNodeType ≠ .tDirectory then .ok (-1, s) -- not a directory
  else do
    let dirEntry ← dataBlockGet (s.inodeTable inode).iDataBlock s
    match firstFit (fun i => strcmp s.fsData (entryAddr dirEntry i) subName == 0)
        s.maxDirEntries with
    | some i =>
      let m := setInumber s.fsData dirEntry i (-1)
      let m := store m (entryAddr dirEntry i) (List.replicate maxFileName 0)
      return (0, { s with fsData := m })
    | none => return (-1, s) -- sub_name not found

/-- `add_dir_entry`: fills the first entry labeled `-1`. -/
def addDirEntry (inode : Nat) (subName : CString) (subInumber : Int) (s : TfsState) :
    Outcome (Int × TfsState) :=
  if subName.strlen = 0 ∨ subName.strlen > maxFileName - 1 then .ok (-1, s) -- invalid sub_name
  else if (s.inodeTable inode).iNodeType ≠ .tDirectory then .ok (-1, s) -- not a directory
  else do
    let dirEntry ← dataBlockGet (s.inodeTable inode).iDataBlock s
    match firstFit (fun i => dInumber s.fsData dirEntry i == -1) s.maxDirEntries with
    | some i =>
      let m := setInumber s.fsData dirEntry i subInumber
      let m := store m (entryAddr dirEntry i) (strncpyBytes subName (maxFileName - 1))
      let m := store m (entryAddr dirEntry i + (maxFileName - 1)) [0]
      return (0, { s with fsData := m })
    | none => return (-1, s) -- no space for entry

/-- `find_in_dir`: only live entries are compared. -/
def findInDir (inode : Nat) (subName : CString) (s : TfsState) : Outcome Int :=
  if (s.inodeTable inode).iNodeType ≠ .tDirectory then .ok (-1) -- not a directory
  else do
    let dirEntry ← dataBlockGet (s.inodeTable inode).iDataBlock s
    match firstFit (fun i => dInumber s.fsData dirEntry i != -1 &&
        strncmp s.fsData (entryAddr dirEntry i) subName maxFileName == 0) s.maxDirEntries with
    | some i => return dInumber s.fsData dirEntry i
    | none => return -1 -- entry not found

/-! ### Open files -/

/-- `add_to_open_file_table`. -/
def addToOpenFileTable (inumber : Int) (offset : Nat) (s : TfsState) : Int × TfsState :=
  match firstFit (isFree s.freeOpenFileEntries) s.fsParams.maxOpenFilesCount with
  | some i =>
    (i, { s with
      freeOpenFileEntries := Function.update s.freeOpenFileEntries i .taken
      openFileTable := Function.update s.openFileTable i ⟨inumber, offset⟩ })
  | none => (-1, s)

/-- `remove_from_open_file_table`. -/
def removeFromOpenFileTable (fhandle : Int) (s : TfsState) : Outcome TfsState := do
  Outcome.alwaysAssert (validFileHandle fhandle s)
    "remove_from_open_file_table: file handle must be valid"
  Outcome.alwaysAssert (s.freeOpenFileEntries fhandle.toNat == .taken)
    "remove_from_open_file_table: file handle must be taken"
  return { s with
    freeOpenFileEntries := Function.update s.freeOpenFileEntries fhandle.toNat .free }

/-- `get_open_file_entry`: the number of the entry, `none` for `NULL`. -/
def getOpenFileEntry (fhandle : Int) (s : TfsState) : Option Nat :=
  if !validFileHandle fhandle s then none
  else if s.freeOpenFileEntries fhandle.toNat ≠ .taken then none
  else some fhandle.toNat

end Tfs
