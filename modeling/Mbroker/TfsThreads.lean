/-
TécnicoFS with any number of threads.

Every function of `operations.c` locks `g_library_mutex` first and unlocks it on each of its
ways out.  Here they are again, with the lock, and with each access to the tables a step: a call
of a function of `state.c`, a field that is read or assigned, a copy.

* `run_tfsCall` — without other threads they are the calls of `TfsOperations`;
* `guarded_tfsCall` — no way out keeps the lock, and nothing is looked at without it;
* **`tfs_linearizable`** — with any number of threads, every history is one of calls that happen
  in an instant each, between the call and its answer.
-/
import Mbroker.Monitor
import Mbroker.TfsRuns

namespace Tfs.Locked

open Memory Monitor Monitor.Code

/-- The ways out of an operation on an error: unlock, and return `-1`. -/
def fail : Code TfsState Int := do
  release
  return -1

/-- The end of `tfs_open`: the entry in the open file table. -/
def addEntry (inum : Int) (offset : Nat) : Code TfsState Int := do
  let ret ← perform fun s => .ok (addToOpenFileTable inum offset s)
  release
  return ret

/-- Truncates a file being opened (if requested). -/
def truncate (inode mode : Nat) : Code TfsState Unit := do
  if mode &&& tfsOTrunc ≠ 0 then
    if 0 < (← read fun s => (s.inodeTable inode).iSize) then
      let iDataBlock ← read fun s => (s.inodeTable inode).iDataBlock
      perform fun s => (dataBlockFree iDataBlock s).map fun s => ((), s)
      assign fun s => s.setInode inode { s.inodeTable inode with iSize := 0 }

/-- `tfs_open`. -/
def tfsOpen (name : Option CString) (mode : Nat) : Code TfsState Int := do
  acquire
  match name with
  | none => fail
  | some name =>
    if !validPathname name then fail
    else
      let rootDirInode ← query (inodeGet rootDirInum)
      let inum ← query (tfsLookup name rootDirInode)
      if 0 ≤ inum then
        -- The file already exists
        let inode ← query (inodeGet inum)
        truncate inode mode
        if mode &&& tfsOAppend ≠ 0 then
          addEntry inum (← read fun s => (s.inodeTable inode).iSize)
        else
          addEntry inum 0
      else if mode &&& tfsOCreat ≠ 0 then
        let inum ← perform (inodeCreate .tFile)
        if inum = -1 then fail
        else if (← perform (addDirEntry rootDirInode (skipSlash name) inum)) = -1 then
          perform fun s => (inodeDelete inum s).map fun s => ((), s)
          fail
        else
          addEntry inum 0
      else fail

/-- `tfs_close`. -/
def tfsClose (fhandle : Int) : Code TfsState Int := do
  acquire
  match ← read (getOpenFileEntry fhandle) with
  | none => fail
  | some _ =>
    perform fun s => (removeFromOpenFileTable fhandle s).map fun s => ((), s)
    release
    return 0

/-- `if (file->of_offset > inode->i_size) inode->i_size = file->of_offset`. -/
def extend (inode ofOffset : Nat) : Code TfsState Unit := do
  if (← read fun s => (s.inodeTable inode).iSize) < ofOffset then
    assign fun s => s.setInode inode { s.inodeTable inode with iSize := ofOffset }

/-- The last part of `tfs_write`, once the file has a block. -/
def writeBlock (file inode ofOffset toWrite : Nat) (buffer : List UInt8) : Code TfsState Int := do
  let iDataBlock ← read fun s => (s.inodeTable inode).iDataBlock
  let block ← query (dataBlockGet iDataBlock)
  -- Perform the actual write
  perform fun s =>
    if s.dataSize < block + ofOffset + toWrite then .fault
    else .ok ((), { s with fsData := store s.fsData (block + ofOffset) (buffer.take toWrite) })
  -- The offset associated with the file handle is incremented accordingly
  assign fun s => s.setOffset file (ofOffset + toWrite)
  extend inode (ofOffset + toWrite)
  release
  return toWrite

/-- `tfs_write`. -/
def tfsWrite (fhandle : Int) (buffer : List UInt8) : Code TfsState Int := do
  acquire
  match ← read (getOpenFileEntry fhandle) with
  | none => fail
  | some file =>
    let ofInumber ← read fun s => (s.openFileTable file).ofInumber
    let inode ← query (inodeGet ofInumber)
    let blockSize ← read fun s => s.fsParams.blockSize
    let ofOffset ← read fun s => (s.openFileTable file).ofOffset
    -- Determine how many bytes to write
    let toWrite :=
      if (buffer.length + ofOffset) % 2 ^ 64 > blockSize
      then (blockSize + 2 ^ 64 - ofOffset) % 2 ^ 64 else buffer.length
    if toWrite = 0 then
      release
      return 0
    else if (← read fun s => (s.inodeTable inode).iSize) = 0 then
      -- If empty file, allocate new block
      let bnum ← perform dataBlockAlloc
      if bnum = -1 then fail
      else
        assign fun s => s.setInode inode { s.inodeTable inode with iDataBlock := bnum }
        writeBlock file inode ofOffset toWrite buffer
    else
      writeBlock file inode ofOffset toWrite buffer

/-- The last part of `tfs_read`, when there is something to read. -/
def readBlock (file inode ofOffset toRead : Nat) : Code TfsState (Int × List UInt8) := do
  let iDataBlock ← read fun s => (s.inodeTable inode).iDataBlock
  let block ← query (dataBlockGet iDataBlock)
  -- Perform the actual read
  let bytes ← query fun s =>
    if s.dataSize < block + ofOffset + toRead then .fault
    else .ok (load s.fsData (block + ofOffset) toRead)
  assign fun s => s.setOffset file (ofOffset + toRead)
  release
  return (toRead, bytes)

/-- `tfs_read`: the bytes copied to the buffer are returned as well. -/
def tfsRead (fhandle : Int) (len : Nat) : Code TfsState (Int × List UInt8) := do
  acquire
  match ← read (getOpenFileEntry fhandle) with
  | none =>
    release
    return (-1, [])
  | some file =>
    let ofInumber ← read fun s => (s.openFileTable file).ofInumber
    let inode ← query (inodeGet ofInumber)
    -- Determine how many bytes to read
    let iSize ← read fun s => (s.inodeTable inode).iSize
    let ofOffset ← read fun s => (s.openFileTable file).ofOffset
    let toRead := min ((iSize + 2 ^ 64 - ofOffset) % 2 ^ 64) len
    if toRead = 0 then
      release
      return (0, [])
    else
      readBlock file inode ofOffset toRead

/-- `tfs_unlink`. -/
def tfsUnlink (target : Option CString) : Code TfsState Int := do
  acquire
  match target with
  | none => fail
  | some target =>
    if !validPathname target then fail
    else
      let rootDirInode ← query (inodeGet rootDirInum)
      let inum ← query (tfsLookup target rootDirInode)
      if inum = -1 then fail
      else
        perform fun s => (inodeDelete inum s).map fun s => ((), s)
        if (← perform (clearDirEntry rootDirInode (skipSlash target))) = -1 then fail
        else
          release
          return 0

/-- One call of the API. -/
def tfsCall : TfsCall → Code TfsState Reply
  | .tfsOpen name mode => (⟨·, []⟩) <$> tfsOpen name mode
  | .tfsClose fhandle => (⟨·, []⟩) <$> tfsClose fhandle
  | .tfsRead fhandle len => (fun p => ⟨p.1, p.2⟩) <$> tfsRead fhandle len
  | .tfsWrite fhandle buffer => (⟨·, []⟩) <$> tfsWrite fhandle buffer
  | .tfsUnlink target => (⟨·, []⟩) <$> tfsUnlink target

/-! ### Without other threads -/

section Run

variable {s : TfsState} {fhandle inum : Int} {mode offset inode : Nat} {name : Option CString}

theorem run_fail : fail.run s = .ok (-1, s) := rfl

theorem run_addEntry : (addEntry inum offset).run s = .ok (addToOpenFileTable inum offset s) := by
  simp [addEntry]

theorem run_truncate : (truncate inode mode).run s = (openTruncate inode mode s).map ((), ·) := by
  rw [truncate, openTruncate]
  by_cases hmode : mode &&& tfsOTrunc ≠ 0
  · by_cases hsize : 0 < (s.inodeTable inode).iSize
    · rw [if_pos hmode, if_pos ⟨hmode, hsize⟩]
      simp only [run_bind, run_read, Outcome.ok_bind, if_pos hsize, run_perform, run_assign]
      simp only [Outcome.bind_map, Outcome.map_bind]
      rfl
    · rw [if_pos hmode, if_neg fun h => hsize h.2]
      simp only [run_bind, run_read, Outcome.ok_bind, if_neg hsize, run_pure, Outcome.map]
  · rw [if_neg hmode, if_neg fun h => hmode h.1]
    rfl

theorem run_extend : (extend inode offset).run s = .ok ((), s.setInode inode
    { s.inodeTable inode with iSize := max (s.inodeTable inode).iSize offset }) := by
  simp only [extend, run_bind, run_read, Outcome.ok_bind]
  split
  · rename_i hlt
    rw [run_assign, Nat.max_eq_right hlt.le]
  · rename_i hle
    rw [run_pure, Nat.max_eq_left (Nat.not_lt.mp hle), TfsState.setInode, Function.update_eq_self]

theorem run_tfsOpen (name : Option CString) (mode : Nat) (s : TfsState) :
    (tfsOpen name mode).run s = Tfs.tfsOpen name mode s := by
  simp only [tfsOpen, Tfs.tfsOpen, run_bind, run_acquire, Outcome.ok_bind]
  cases name with
  | none => rfl
  | some name =>
    dsimp only
    split
    · rfl
    · simp only [run_bind, run_query, Outcome.bind_map]
      refine Outcome.bind_congr fun rootDirInode _ => Outcome.bind_congr fun inum _ => ?_
      split
      · -- The file is there.
        simp only [run_bind, run_query, run_truncate, Outcome.bind_map]
        refine Outcome.bind_congr fun inode _ => Outcome.bind_congr fun s _ => ?_
        split
        · simp only [run_bind, run_read, Outcome.ok_bind, run_addEntry, Outcome.pure_eq_ok]
        · rw [run_addEntry, Outcome.pure_eq_ok]
      · split
        · -- It is created.
          simp only [run_bind, run_perform]
          refine Outcome.bind_congr fun p _ => ?_
          split
          · rfl
          · simp only [run_bind, run_perform]
            refine Outcome.bind_congr fun p' _ => ?_
            split
            · simp only [run_bind, run_perform, Outcome.bind_map, run_fail, Outcome.pure_eq_ok]
            · rw [run_addEntry, Outcome.pure_eq_ok]
        · rfl

theorem run_tfsClose (fhandle : Int) (s : TfsState) :
    (tfsClose fhandle).run s = Tfs.tfsClose fhandle s := by
  simp only [tfsClose, Tfs.tfsClose, run_bind, run_acquire, Outcome.ok_bind, run_read]
  cases getOpenFileEntry fhandle s with
  | none => rfl
  | some file =>
    simp only [run_bind, run_perform, run_release, run_pure, Outcome.bind_map, Outcome.ok_bind,
      Outcome.pure_eq_ok]

theorem run_writeBlock {file ofOffset toWrite : Nat} {buffer : List UInt8} :
    (writeBlock file inode ofOffset toWrite buffer).run s = (do
      let block ← dataBlockGet (s.inodeTable inode).iDataBlock s
      if s.dataSize < block + ofOffset + toWrite then .fault
      else
        let s := { s with fsData := store s.fsData (block + ofOffset) (buffer.take toWrite) }
        let s := s.setOffset file (ofOffset + toWrite)
        let s := s.setInode inode { s.inodeTable inode with
          iSize := max (s.inodeTable inode).iSize (ofOffset + toWrite) }
        return (toWrite, s)) := by
  simp only [writeBlock, run_bind, run_read, run_query, Outcome.ok_bind, Outcome.bind_map]
  refine Outcome.bind_congr fun block _ => ?_
  rw [run_perform]
  split
  · rfl
  · simp only [Outcome.ok_bind, run_assign, run_extend, run_release, run_pure, Outcome.pure_eq_ok]

theorem inodeTable_of_dataBlockAlloc {p : Int × TfsState} (h : dataBlockAlloc s = .ok p) :
    p.2.inodeTable = s.inodeTable := by
  rw [dataBlockAlloc] at h
  split at h
  · cases h
  · split at h <;> rw [← Outcome.ok.inj h]

theorem run_tfsWrite (fhandle : Int) (buffer : List UInt8) (s : TfsState) :
    (tfsWrite fhandle buffer).run s = Tfs.tfsWrite fhandle buffer s := by
  simp only [tfsWrite, Tfs.tfsWrite, run_bind, run_acquire, Outcome.ok_bind, run_read]
  cases getOpenFileEntry fhandle s with
  | none => rfl
  | some file =>
    simp only [run_bind, run_read, run_query, Outcome.ok_bind, Outcome.bind_map]
    refine Outcome.bind_congr fun inode _ => ?_
    generalize (if (buffer.length + (s.openFileTable file).ofOffset) % 2 ^ 64 > s.fsParams.blockSize
      then (s.fsParams.blockSize + 2 ^ 64 - (s.openFileTable file).ofOffset) % 2 ^ 64
      else buffer.length) = toWrite
    by_cases hto : toWrite = 0
    · rw [if_pos hto, if_pos hto]
      rfl
    · simp only [if_neg hto, run_bind, run_read, Outcome.ok_bind, writeTarget]
      by_cases hsize : (s.inodeTable inode).iSize = 0
      · -- The file is empty.
        simp only [if_pos hsize, run_bind, run_perform]
        refine Outcome.bind_congr fun p halloc => ?_
        have hinode : (p.2.inodeTable inode).iSize = 0 := by
          rw [inodeTable_of_dataBlockAlloc halloc, hsize]
        by_cases hb : p.1 = -1
        · rw [if_pos hb, if_pos ⟨hinode, hb⟩, run_fail]
          rfl
        · rw [if_neg hb, if_neg fun h => hb h.2]
          simp only [run_bind, run_assign, Outcome.ok_bind, run_writeBlock]
      · -- The block that it has is assigned to it again.
        rw [if_neg hsize, if_neg hsize, Outcome.ok_bind, if_neg fun h => hsize h.1, run_writeBlock]
        rw [show s.setInode inode { s.inodeTable inode with
          iDataBlock := (s.inodeTable inode).iDataBlock } = s by
            rw [TfsState.setInode, Function.update_eq_self]]

theorem run_readBlock {file ofOffset toRead : Nat} :
    (readBlock file inode ofOffset toRead).run s = (do
      let block ← dataBlockGet (s.inodeTable inode).iDataBlock s
      if s.dataSize < block + ofOffset + toRead then .fault
      else
        return ((toRead, load s.fsData (block + ofOffset) toRead),
          s.setOffset file (ofOffset + toRead))) := by
  simp only [readBlock, run_bind, run_read, run_query, Outcome.ok_bind, Outcome.bind_map]
  refine Outcome.bind_congr fun block _ => ?_
  split
  · rfl
  · simp only [Outcome.ok_bind, run_assign, run_release, run_pure, Outcome.pure_eq_ok]

theorem run_tfsRead (fhandle : Int) (len : Nat) (s : TfsState) :
    (tfsRead fhandle len).run s = Tfs.tfsRead fhandle len s := by
  rw [tfsRead, Tfs.tfsRead, run_bind, run_acquire, Outcome.ok_bind, run_bind, run_read,
    Outcome.ok_bind]
  dsimp only
  cases getOpenFileEntry fhandle s with
  | none => rfl
  | some file =>
    dsimp only
    rw [run_bind, run_read, Outcome.ok_bind, run_bind, run_query, Outcome.bind_map]
    refine Outcome.bind_congr fun inode _ => ?_
    rw [run_bind, run_read, Outcome.ok_bind, run_bind, run_read, Outcome.ok_bind]
    dsimp only
    generalize min (((s.inodeTable inode).iSize + 2 ^ 64 - (s.openFileTable file).ofOffset) % 2 ^ 64)
      len = toRead
    split
    · rfl
    · exact run_readBlock

theorem run_tfsUnlink (target : Option CString) (s : TfsState) :
    (tfsUnlink target).run s = Tfs.tfsUnlink target s := by
  simp only [tfsUnlink, Tfs.tfsUnlink, run_bind, run_acquire, Outcome.ok_bind]
  cases target with
  | none => rfl
  | some target =>
    dsimp only
    split
    · rfl
    · simp only [run_bind, run_query, Outcome.bind_map]
      refine Outcome.bind_congr fun rootDirInode _ => Outcome.bind_congr fun inum _ => ?_
      split
      · rfl
      · simp only [run_bind, run_perform, Outcome.bind_map]
        refine Outcome.bind_congr fun s _ => Outcome.bind_congr fun p _ => ?_
        split <;> rfl

theorem run_tfsCall (c : TfsCall) (s : TfsState) : (tfsCall c).run s = Tfs.tfsCall c s := by
  cases c with
  | tfsOpen name mode => rw [tfsCall, run_map, run_tfsOpen]; rfl
  | tfsClose fhandle => rw [tfsCall, run_map, run_tfsClose]; rfl
  | tfsRead fhandle len => rw [tfsCall, run_map, run_tfsRead]; rfl
  | tfsWrite fhandle buffer => rw [tfsCall, run_map, run_tfsWrite]; rfl
  | tfsUnlink target => rw [tfsCall, run_map, run_tfsUnlink]; rfl

theorem run_tfsCall_eq : (fun c => (tfsCall c).run) = Tfs.tfsCall :=
  funext fun c => funext (run_tfsCall c)

end Run

/-! ### The lock -/

section Guarded

variable {inum : Int} {mode offset inode : Nat}

theorem holding_fail : fail.Holding := .release (-1)

theorem holding_addEntry : (addEntry inum offset).Holding := .perform fun ret => .release ret

theorem holding_truncate {k : Unit → Code TfsState Int} (h : (k ()).Holding) :
    (truncate inode mode >>= k).Holding := by
  rw [truncate]
  split
  · rw [bind_assoc]
    refine .read fun iSize => ?_
    split
    · exact .read fun iDataBlock => .perform fun _ => .assign h
    · exact h
  · exact h

theorem guarded_tfsOpen (name : Option CString) (mode : Nat) : (tfsOpen name mode).Guarded := by
  refine .acquire ?_
  cases name with
  | none => exact holding_fail
  | some name =>
    dsimp only
    split
    · exact holding_fail
    · refine .query fun rootDirInode => .query fun inum => ?_
      split
      · refine .query fun inode => holding_truncate ?_
        split
        · exact .read fun iSize => holding_addEntry
        · exact holding_addEntry
      · split
        · refine .perform fun inum => ?_
          split
          · exact holding_fail
          · refine .perform fun r => ?_
            split
            · exact .perform fun _ => holding_fail
            · exact holding_addEntry
        · exact holding_fail

theorem guarded_tfsClose (fhandle : Int) : (tfsClose fhandle).Guarded := by
  refine .acquire (.read fun entry => ?_)
  cases entry with
  | none => exact holding_fail
  | some file => exact .perform fun _ => .release 0

theorem holding_extend {k : Unit → Code TfsState Int} (h : (k ()).Holding) :
    (extend inode offset >>= k).Holding := by
  rw [extend, bind_assoc]
  refine .read fun iSize => ?_
  split
  · exact .assign h
  · exact h

theorem holding_writeBlock {file toWrite : Nat} {buffer : List UInt8} :
    (writeBlock file inode offset toWrite buffer).Holding := by
  exact .read fun iDataBlock => .query fun block => .perform fun _ => .assign
    (holding_extend (.release _))

theorem guarded_tfsWrite (fhandle : Int) (buffer : List UInt8) :
    (tfsWrite fhandle buffer).Guarded := by
  refine .acquire (.read fun entry => ?_)
  cases entry with
  | none => exact holding_fail
  | some file =>
    refine .read fun ofInumber => .query fun inode => .read fun blockSize => .read fun ofOffset => ?_
    dsimp only
    generalize (if (buffer.length + ofOffset) % 2 ^ 64 > blockSize then _ else _ : Nat) = toWrite
    split
    · exact .release 0
    · refine .read fun iSize => ?_
      split
      · refine .perform fun bnum => ?_
        split
        · exact holding_fail
        · exact .assign holding_writeBlock
      · exact holding_writeBlock

theorem guarded_tfsRead (fhandle : Int) (len : Nat) : (tfsRead fhandle len).Guarded := by
  refine .acquire (.read fun entry => ?_)
  cases entry with
  | none => exact .release (-1, [])
  | some file =>
    refine .read fun ofInumber => .query fun inode => .read fun iSize => .read fun ofOffset => ?_
    dsimp only
    split
    · exact .release (0, [])
    · exact .read fun iDataBlock => .query fun block => .query fun bytes => .assign (.release _)

theorem guarded_tfsUnlink (target : Option CString) : (tfsUnlink target).Guarded := by
  refine .acquire ?_
  cases target with
  | none => exact holding_fail
  | some target =>
    dsimp only
    split
    · exact holding_fail
    · refine .query fun rootDirInode => .query fun inum => ?_
      split
      · exact holding_fail
      · refine .perform fun _ => .perform fun r => ?_
        split
        · exact holding_fail
        · exact .release 0

theorem guarded_tfsCall (c : TfsCall) : (tfsCall c).Guarded := by
  cases c with
  | tfsOpen name mode => exact (guarded_tfsOpen name mode).map _
  | tfsClose fhandle => exact (guarded_tfsClose fhandle).map _
  | tfsRead fhandle len => exact (guarded_tfsRead fhandle len).map _
  | tfsWrite fhandle buffer => exact (guarded_tfsWrite fhandle buffer).map _
  | tfsUnlink target => exact (guarded_tfsUnlink target).map _

end Guarded

end Tfs.Locked

/-! ### Threads -/

namespace Tfs

open Monitor

variable {ι : Type} [DecidableEq ι] {s : TfsState} {es : List (Event ι TfsCall Reply)}
  {t : Shared ι TfsState Reply} {params : Option TfsParams}

/-- **TécnicoFS is linearizable.**  What its threads see is what they would see if each call
happened in an instant, between the call and its answer; and the calls, in the order of these
instants, are a run of the program without threads. -/
theorem tfs_linearizable (h : Run Locked.tfsCall s es t) :
    ∃ a : Atomic ι TfsCall TfsState Reply, AtomicRun tfsCall s es a ∧
      runCalls (a.done.map Prod.fst) s = .ok (a.done.map Prod.snd, a.state) ∧
      (t.holder = none → a.state = t.state) := by
  obtain ⟨a, hrun, hsim⟩ := exists_atomicRun Locked.guarded_tfsCall h
  rw [Locked.run_tfsCall_eq] at hrun
  exact ⟨a, hrun, hrun.runList, hsim.state⟩

/-- The files `/a` and `/b`. -/
def fileA : Option CString := some (.ofBuffer [47, 97])
def fileB : Option CString := some (.ofBuffer [47, 98])

/-- Two threads create a file each at one time, and the one that is first writes to its file
while the other is still in its call. -/
def createAndWrite : List (Event Bool TfsCall Reply) :=
  [.call false (.tfsOpen fileA tfsOCreat), .call true (.tfsOpen fileB tfsOCreat),
    .answer true ⟨0, []⟩, .call true (.tfsWrite 0 [120]), .answer false ⟨1, []⟩,
    .answer true ⟨1, []⟩]

/-- Both files are there afterwards. -/
theorem exists_run_createAndWrite : ∃ t : Shared Bool TfsState Reply,
    Run Locked.tfsCall initial createAndWrite t ∧ t.holder = none ∧
      ∃ s, runCalls [.tfsOpen fileA 0, .tfsOpen fileB 0] t.state = .ok ([⟨2, []⟩, ⟨3, []⟩], s) := by
  have hcalls : (tfsCall (.tfsOpen fileB tfsOCreat) initial >>= fun r₁ =>
      tfsCall (.tfsOpen fileA tfsOCreat) r₁.2 >>= fun r₂ =>
      tfsCall (.tfsWrite 0 [120]) r₂.2 >>= fun r₃ =>
      (runCalls [.tfsOpen fileA 0, .tfsOpen fileB 0] r₃.2).map fun r₄ =>
        (r₁.1, r₂.1, r₃.1, r₄.1)) =
      .ok (⟨0, []⟩, ⟨1, []⟩, ⟨1, []⟩, [⟨2, []⟩, ⟨3, []⟩]) := by
    decide +kernel
  obtain ⟨⟨r₁, s₁⟩, hopenB, hcalls⟩ := Outcome.bind_eq_ok.mp hcalls
  obtain ⟨⟨r₂, s₂⟩, hopenA, hcalls⟩ := Outcome.bind_eq_ok.mp hcalls
  obtain ⟨⟨r₃, s₃⟩, hwrite, hcalls⟩ := Outcome.bind_eq_ok.mp hcalls
  obtain ⟨⟨r₄, s₄⟩, hopens, hcalls⟩ := Outcome.map_eq_ok.mp hcalls
  simp only [Prod.mk.injEq] at hcalls
  obtain ⟨rfl, rfl, rfl, rfl⟩ := hcalls
  rw [← Locked.run_tfsCall] at hopenB hopenA hwrite
  have h : Run Locked.tfsCall initial [] (.start initial : Shared Bool TfsState Reply) := .start
  have h := h.step (.call false (.tfsOpen fileA tfsOCreat) rfl)
  have h := h.step (.call true (.tfsOpen fileB tfsOCreat) rfl)
  have h := h.finish (i := true) (c := .tfsOpen fileB tfsOCreat) Locked.guarded_tfsCall rfl rfl
    hopenB
  have h := h.step (.answer true ⟨0, []⟩ rfl)
  have h := h.step (.call true (.tfsWrite 0 [120]) rfl)
  have h := h.finish (i := false) (c := .tfsOpen fileA tfsOCreat) Locked.guarded_tfsCall rfl rfl
    hopenA
  have h := h.step (.answer false ⟨1, []⟩ rfl)
  have h := h.finish (i := true) (c := .tfsWrite 0 [120]) Locked.guarded_tfsCall rfl rfl hwrite
  have h := h.step (.answer true ⟨1, []⟩ rfl)
  exact ⟨_, h, rfl, s₄, hopens⟩

theorem tfs_linearizable_createAndWrite : ∃ (t : Shared Bool TfsState Reply)
    (a : Atomic Bool TfsCall TfsState Reply), Run Locked.tfsCall initial createAndWrite t ∧
      AtomicRun tfsCall initial createAndWrite a ∧ a.state = t.state ∧
      ∃ s, runCalls [.tfsOpen fileA 0, .tfsOpen fileB 0] a.state = .ok ([⟨2, []⟩, ⟨3, []⟩], s) := by
  obtain ⟨t, h, hfree, hopens⟩ := exists_run_createAndWrite
  obtain ⟨a, ha, -, hstate⟩ := tfs_linearizable h
  exact ⟨t, a, h, ha, hstate hfree, (hstate hfree).symm ▸ hopens⟩

/-- No thread keeps `g_library_mutex` from one call to the next, and there is no deadlock: as
long as a thread is in a call, one of those that are can go on; or the one with the mutex is at an
access that ends the process, and so would its call without other threads, after the calls that
have happened. -/
theorem tfs_no_deadlock (h : Run Locked.tfsCall s es t) :
    (∀ i, t.thread i = none → t.holder ≠ some i) ∧
      ((∃ i, t.thread i ≠ none) →
        (∃ es' t', t.Step Locked.tfsCall es' t' ∧ ∀ k c, es' ≠ [.call k c]) ∨
        ∃ k c, t.holder = some k ∧ t.Ends k ∧ Pending es k c ∧
          ∃ a : Atomic ι TfsCall TfsState Reply, AtomicRun tfsCall s es a ∧
            a.thread k = some (.inl c) ∧
            runCalls (a.done.map Prod.fst) s = .ok (a.done.map Prod.snd, a.state) ∧
            ∀ p, tfsCall c a.state ≠ .ok p) := by
  refine ⟨fun i => h.holder_ne Locked.guarded_tfsCall, ?_⟩
  rintro ⟨i, hi⟩
  rcases h.exists_step Locked.guarded_tfsCall hi with hstep | ⟨k, hk⟩
  · exact .inl hstep
  · obtain ⟨a, c, hrun, hc, hheld, hends⟩ := h.ends_alone Locked.guarded_tfsCall hk
    rw [Locked.run_tfsCall_eq] at hrun
    refine .inr ⟨k, c, hheld, hk, hrun.pending hc, a, hrun, hc, hrun.runList, fun p => ?_⟩
    rw [← Locked.run_tfsCall]
    exact hends p

/-- One thread is in `tfs_open`, with the mutex, and another one waits for it. -/
theorem exists_run_waiting : ∃ t : Shared Bool TfsState Reply,
    Run Locked.tfsCall initial (createAndWrite.take 2) t ∧ t.holder = some false ∧
      t.thread true ≠ none ∧ ¬ t.Ends false := by
  have h : Run Locked.tfsCall initial [] (.start initial : Shared Bool TfsState Reply) := .start
  have h := h.step (.call false (.tfsOpen fileA tfsOCreat) rfl)
  have h := h.step (.call true (.tfsOpen fileB tfsOCreat) rfl)
  have h := h.step (.lock false _ rfl rfl)
  refine ⟨_, h, rfl, Option.some_ne_none _, ?_⟩
  rintro ⟨α, f, next, hcode, hf⟩
  cases hcode
  exact hf _ rfl

theorem tfs_no_deadlock_waiting : ∃ t : Shared Bool TfsState Reply,
    Run Locked.tfsCall initial (createAndWrite.take 2) t ∧ t.holder = some false ∧
      t.thread true ≠ none ∧
      ∃ es' t', t.Step Locked.tfsCall es' t' ∧ ∀ k c, es' ≠ [.call k c] := by
  obtain ⟨t, h, hheld, hwaits, hends⟩ := exists_run_waiting
  refine ⟨t, h, hheld, hwaits, ?_⟩
  rcases (tfs_no_deadlock h).2 ⟨true, hwaits⟩ with hstep | ⟨k, c, hheld', hk, -⟩
  · exact hstep
  · obtain rfl := Option.some.inj (hheld.symm.trans hheld')
    exact absurd hk hends

/-- Whenever the lock is free, the metadata are whole. -/
theorem metadata_of_threads (hinit : Started params s) (hp : (params.getD tfsDefaultParams).InRange)
    (h : Run Locked.tfsCall s es t) (hfree : t.holder = none) : Metadata t.state := by
  refine TfsState.Inv.metadata (h.invariant Locked.guarded_tfsCall ?_ (hinit.fresh hp).inv hfree)
  intro c s r s' hs hcall
  rw [Locked.run_tfsCall] at hcall
  exact hs.tfsCall hcall

theorem metadata_of_threads_createAndWrite : ∃ t : Shared Bool TfsState Reply,
    Run Locked.tfsCall initial createAndWrite t ∧ Metadata t.state ∧
      ∃ s, runCalls [.tfsOpen fileA 0, .tfsOpen fileB 0] t.state = .ok ([⟨2, []⟩, ⟨3, []⟩], s) := by
  obtain ⟨t, h, hfree, hopens⟩ := exists_run_createAndWrite
  exact ⟨t, h, metadata_of_threads started_initial inRange_tfsDefaultParams h hfree, hopens⟩

end Tfs
