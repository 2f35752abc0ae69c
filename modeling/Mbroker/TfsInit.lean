/-
`tfs_init`, as the pointers see it.

Each table is what a call of `malloc` has given, with its size in bytes, or `NULL`.  The sizes
are products of `size_t`s, which wrap, and a loop over a table that is smaller than its count
leaves it.  `state_init` assigns the parameters before it looks whether there are tables, and
nothing is given back when an allocation or the root directory fails.

* `tfsInit_toState` — on the contents of the tables, it is `tfs_init` of the model;
* **`tfsInit_allOrNothing_iff`** — when it is all or nothing;
* `not_allOrNothing_initialised` — a second call leaves other parameters.
-/
import Mbroker.TfsRuns

namespace Tfs

open Memory

/-- `sizeof(inode_t)`. -/
def sizeofInode : Nat := 24

/-- `sizeof(allocation_state_t)`. -/
def sizeofAllocationState : Nat := 4

/-- `sizeof(open_file_entry_t)`. -/
def sizeofOpenFileEntry : Nat := 16

/-- The product of two `size_t`s. -/
def sizeMul (a b : Nat) : Nat := a * b % 2 ^ 64

/-- What `malloc` has given: a size in bytes, and what lies there. -/
structure Allocation (α : Type) where
  size : Nat
  contents : Nat → α

/-- The static variables of `state.c`; a pointer that is `NULL` is `none`. -/
structure Statics where
  fsParams : TfsParams
  inodeTable : Option (Allocation Inode)
  freeinodeTs : Option (Allocation AllocationState)
  fsData : Option (Allocation UInt8)
  freeBlocks : Option (Allocation AllocationState)
  openFileTable : Option (Allocation OpenFileEntry)
  freeOpenFileEntries : Option (Allocation AllocationState)

namespace Statics

/-- No pointer has been assigned, or `state_destroy` has been called. -/
def Uninitialised (s : Statics) : Prop :=
  s.inodeTable = none ∧ s.freeinodeTs = none ∧ s.fsData = none ∧ s.freeBlocks = none ∧
    s.openFileTable = none ∧ s.freeOpenFileEntries = none

/-- No pointer is `NULL`. -/
def Initialised (s : Statics) : Prop :=
  s.inodeTable.isSome ∧ s.freeinodeTs.isSome ∧ s.fsData.isSome ∧ s.freeBlocks.isSome ∧
    s.openFileTable.isSome ∧ s.freeOpenFileEntries.isSome

instance (s : Statics) : Decidable s.Initialised :=
  inferInstanceAs (Decidable (_ ∧ _ ∧ _ ∧ _ ∧ _ ∧ _))

/-- The sizes of the tables. -/
def sizes (s : Statics) : List (Option Nat) :=
  [s.inodeTable.map Allocation.size, s.freeinodeTs.map Allocation.size,
    s.fsData.map Allocation.size, s.freeBlocks.map Allocation.size,
    s.openFileTable.map Allocation.size, s.freeOpenFileEntries.map Allocation.size]

/-- The contents of the tables. -/
def toState (s : Statics) : TfsState where
  fsParams := s.fsParams
  allocated := s.inodeTable.isSome
  inodeTable := (s.inodeTable.map Allocation.contents).getD fun _ => ⟨.tFile, 0, 0⟩
  freeinodeTs := (s.freeinodeTs.map Allocation.contents).getD fun _ => .free
  fsData := (s.fsData.map Allocation.contents).getD fun _ => 0
  freeBlocks := (s.freeBlocks.map Allocation.contents).getD fun _ => .free
  openFileTable := (s.openFileTable.map Allocation.contents).getD fun _ => ⟨0, 0⟩
  freeOpenFileEntries := (s.freeOpenFileEntries.map Allocation.contents).getD fun _ => .free

/-- The tables, with other contents. -/
def withContents (s : Statics) (t : TfsState) : Statics :=
  { s with
    inodeTable := s.inodeTable.map fun a => ⟨a.size, t.inodeTable⟩
    freeinodeTs := s.freeinodeTs.map fun a => ⟨a.size, t.freeinodeTs⟩
    fsData := s.fsData.map fun a => ⟨a.size, t.fsData⟩
    freeBlocks := s.freeBlocks.map fun a => ⟨a.size, t.freeBlocks⟩
    openFileTable := s.openFileTable.map fun a => ⟨a.size, t.openFileTable⟩
    freeOpenFileEntries := s.freeOpenFileEntries.map fun a => ⟨a.size, t.freeOpenFileEntries⟩ }

/-- The calls of `malloc`. -/
def allocate (m : Malloc) (s : Statics) : Statics :=
  let p := s.fsParams
  { s with
    inodeTable := m.inodeTable.map (.mk (sizeMul p.maxInodeCount sizeofInode))
    freeinodeTs := m.freeinodeTs.map (.mk (sizeMul p.maxInodeCount sizeofAllocationState))
    fsData := m.fsData.map (.mk (sizeMul p.maxBlockCount p.blockSize))
    freeBlocks := m.freeBlocks.map (.mk (sizeMul p.maxBlockCount sizeofAllocationState))
    openFileTable := m.openFileTable.map (.mk (sizeMul p.maxOpenFilesCount sizeofOpenFileEntry))
    freeOpenFileEntries :=
      m.freeOpenFileEntries.map (.mk (sizeMul p.maxOpenFilesCount sizeofAllocationState)) }

/-- `for (i = 0; i < n; i++) table[i] = FREE;` -/
def fillFree (n : Nat) (table : Option (Allocation AllocationState)) :
    Outcome (Option (Allocation AllocationState)) :=
  match table with
  | none => .fault
  | some a =>
    if a.size < n * sizeofAllocationState then .fault
    else .ok (some ⟨a.size, Tfs.fillFree a.contents n⟩)

/-- `state_init`. -/
def stateInit (params : TfsParams) (m : Malloc) (s : Statics) : Outcome (Int × Statics) :=
  let s := { s with fsParams := params }
  if s.inodeTable.isSome then .ok (-1, s) -- already initialized
  else
    let s := s.allocate m
    if ¬ s.Initialised then .ok (-1, s) -- allocation failed
    else do
      let freeinodeTs ← fillFree params.maxInodeCount s.freeinodeTs
      let freeBlocks ← fillFree params.maxBlockCount s.freeBlocks
      let freeOpenFileEntries ← fillFree params.maxOpenFilesCount s.freeOpenFileEntries
      return (0, { s with
        freeinodeTs := freeinodeTs, freeBlocks := freeBlocks
        freeOpenFileEntries := freeOpenFileEntries })

/-- `inode_create(T_DIRECTORY)` when every inode and block is free, if there are any: it writes
to the first inode, and to the entries of the first block. -/
def createRoot (s : Statics) : Outcome (Int × Statics) :=
  let t := s.toState
  let inodeTableSize := (s.inodeTable.map Allocation.size).getD 0
  let dataSize := (s.fsData.map Allocation.size).getD 0
  if 0 < s.fsParams.maxInodeCount ∧ (inodeTableSize < sizeofInode ∨
      0 < s.fsParams.maxBlockCount ∧ dataSize < t.maxDirEntries * sizeofDirEntry) then .fault
  else do
    let (root, t) ← inodeCreate .tDirectory t
    return (root, s.withContents t)

/-- `tfs_init`. -/
def tfsInit (params : Option TfsParams) (m : Malloc) (s : Statics) : Outcome (Int × Statics) := do
  let (r, s) ← s.stateInit (params.getD tfsDefaultParams) m
  if r ≠ 0 then return (-1, s)
  else
    let (root, s) ← s.createRoot
    if root ≠ rootDirInum then return (-1, s)
    return (0, s)

/-! ### The contents -/

section Contents

variable {s s' : Statics} {params : TfsParams} {m : Malloc} {r : Int} {t t' : TfsState}

theorem inodeAlloc_keeps (h : inodeAlloc t = .ok (r, t')) :
    t'.fsParams = t.fsParams ∧ t'.allocated = t.allocated := by
  rw [inodeAlloc] at h
  split at h
  · cases h
  · split at h
    · obtain ⟨-, rfl⟩ := Prod.mk.inj (Outcome.ok.inj h)
      exact ⟨rfl, rfl⟩
    · obtain ⟨-, rfl⟩ := Prod.mk.inj (Outcome.ok.inj h)
      exact ⟨rfl, rfl⟩

theorem dataBlockAlloc_keeps (h : dataBlockAlloc t = .ok (r, t')) :
    t'.fsParams = t.fsParams ∧ t'.allocated = t.allocated := by
  rw [dataBlockAlloc] at h
  split at h
  · cases h
  · split at h
    · obtain ⟨-, rfl⟩ := Prod.mk.inj (Outcome.ok.inj h)
      exact ⟨rfl, rfl⟩
    · obtain ⟨-, rfl⟩ := Prod.mk.inj (Outcome.ok.inj h)
      exact ⟨rfl, rfl⟩

theorem inodeDelete_keeps {inumber : Int} (h : inodeDelete inumber t = .ok t') :
    t'.fsParams = t.fsParams ∧ t'.allocated = t.allocated := by
  rw [inodeDelete] at h
  obtain ⟨-, -, h⟩ := Outcome.bind_eq_ok.mp h
  obtain ⟨-, -, h⟩ := Outcome.bind_eq_ok.mp h
  dsimp only at h
  split at h
  · obtain ⟨t₁, hblock, h⟩ := Outcome.bind_eq_ok.mp h
    rw [dataBlockFree] at hblock
    obtain ⟨-, -, hblock⟩ := Outcome.bind_eq_ok.mp hblock
    obtain rfl := Outcome.ok.inj hblock
    obtain rfl := Outcome.ok.inj h
    exact ⟨rfl, rfl⟩
  · obtain rfl := Outcome.ok.inj h
    exact ⟨rfl, rfl⟩

theorem inodeCreate_keeps (h : inodeCreate .tDirectory t = .ok (r, t')) :
    t'.fsParams = t.fsParams ∧ t'.allocated = t.allocated := by
  rw [inodeCreate] at h
  obtain ⟨⟨inumber, t₁⟩, halloc, h⟩ := Outcome.bind_eq_ok.mp h
  obtain ⟨hparams, hallocated⟩ := inodeAlloc_keeps halloc
  dsimp only at h
  split at h
  · obtain ⟨-, rfl⟩ := Prod.mk.inj (Outcome.ok.inj h)
    exact ⟨hparams, hallocated⟩
  obtain ⟨⟨b, t₂⟩, hblock, h⟩ := Outcome.bind_eq_ok.mp h
  obtain ⟨hparams', hallocated'⟩ := dataBlockAlloc_keeps hblock
  dsimp only at h
  split at h
  · obtain ⟨t₃, hdelete, h⟩ := Outcome.bind_eq_ok.mp h
    obtain ⟨hparams'', hallocated''⟩ := inodeDelete_keeps hdelete
    obtain ⟨-, rfl⟩ := Prod.mk.inj (Outcome.ok.inj h)
    exact ⟨(hparams''.trans hparams').trans hparams,
      (hallocated''.trans hallocated').trans hallocated⟩
  · obtain ⟨dirEntry, -, h⟩ := Outcome.bind_eq_ok.mp h
    obtain ⟨-, rfl⟩ := Prod.mk.inj (Outcome.ok.inj h)
    exact ⟨hparams'.trans hparams, hallocated'.trans hallocated⟩

theorem toState_withContents (hs : s.Initialised) (hparams : t.fsParams = s.fsParams)
    (ht : t.allocated = true) : (s.withContents t).toState = t := by
  obtain ⟨h₁, h₂, h₃, h₄, h₅, h₆⟩ := hs
  obtain ⟨a₁, h₁⟩ := Option.isSome_iff_exists.mp h₁
  obtain ⟨a₂, h₂⟩ := Option.isSome_iff_exists.mp h₂
  obtain ⟨a₃, h₃⟩ := Option.isSome_iff_exists.mp h₃
  obtain ⟨a₄, h₄⟩ := Option.isSome_iff_exists.mp h₄
  obtain ⟨a₅, h₅⟩ := Option.isSome_iff_exists.mp h₅
  obtain ⟨a₆, h₆⟩ := Option.isSome_iff_exists.mp h₆
  simp [toState, withContents, h₁, h₂, h₃, h₄, h₅, h₆, ← hparams, ← ht]

theorem createRoot_toState (hs : s.Initialised) (h : s.createRoot = .ok (r, s')) :
    inodeCreate .tDirectory s.toState = .ok (r, s'.toState) := by
  rw [createRoot] at h
  dsimp only at h
  split at h
  case isTrue => cases h
  case isFalse =>
    obtain ⟨⟨root, t⟩, hcreate, h⟩ := Outcome.bind_eq_ok.mp h
    obtain ⟨rfl, rfl⟩ := Prod.mk.inj (Outcome.ok.inj h)
    obtain ⟨hparams, hallocated⟩ := inodeCreate_keeps hcreate
    rw [toState_withContents hs hparams (hallocated.trans hs.1), hcreate]

/-- A table whose entries have all been freed. -/
theorem of_fillFree {n : Nat} {table table' : Option (Allocation AllocationState)}
    (h : fillFree n table = .ok table') : ∃ a, table = some a ∧ n * sizeofAllocationState ≤ a.size ∧
      table' = some ⟨a.size, Tfs.fillFree a.contents n⟩ := by
  rw [fillFree.eq_def] at h
  split at h
  · cases h
  · rename_i a
    split at h
    case isTrue => cases h
    case isFalse hsize =>
      obtain rfl := Outcome.ok.inj h
      exact ⟨a, rfl, Nat.le_of_not_lt hsize, rfl⟩

theorem initialised_allocate : (s.allocate m).Initialised ↔ m.Succeeds := by
  simp only [Initialised, allocate, Malloc.Succeeds, Option.isSome_map]

theorem map_contents_mk {α : Type} (size : Nat) (x : Option (Nat → α)) :
    (x.map (Allocation.mk size)).map Allocation.contents = x := by
  cases x <;> rfl

/-- What the calls of `malloc` give is what the model's `state_init` starts from. -/
theorem toState_allocate (hs : s.Uninitialised) : (s.allocate m).toState =
    { s.toState with
      allocated := m.inodeTable.isSome
      inodeTable := m.inodeTable.getD s.toState.inodeTable
      freeinodeTs := m.freeinodeTs.getD s.toState.freeinodeTs
      fsData := m.fsData.getD s.toState.fsData
      freeBlocks := m.freeBlocks.getD s.toState.freeBlocks
      openFileTable := m.openFileTable.getD s.toState.openFileTable
      freeOpenFileEntries := m.freeOpenFileEntries.getD s.toState.freeOpenFileEntries } := by
  obtain ⟨h₁, h₂, h₃, h₄, h₅, h₆⟩ := hs
  simp only [toState, allocate, map_contents_mk, Option.isSome_map, h₁, h₂, h₃, h₄, h₅, h₆,
    Option.map_none, Option.getD_none]

theorem toState_filled {a a' a'' : Allocation AllocationState} {n n' n'' : Nat}
    (h : s.freeinodeTs = some a) (h' : s.freeBlocks = some a')
    (h'' : s.freeOpenFileEntries = some a'') :
    toState { s with
        freeinodeTs := some ⟨a.size, Tfs.fillFree a.contents n⟩
        freeBlocks := some ⟨a'.size, Tfs.fillFree a'.contents n'⟩
        freeOpenFileEntries := some ⟨a''.size, Tfs.fillFree a''.contents n''⟩ } =
      { s.toState with
        freeinodeTs := Tfs.fillFree s.toState.freeinodeTs n
        freeBlocks := Tfs.fillFree s.toState.freeBlocks n'
        freeOpenFileEntries := Tfs.fillFree s.toState.freeOpenFileEntries n'' } := by
  simp only [toState, h, h', h'', Option.map_some, Option.getD_some]

theorem stateInit_toState (hs : s.Uninitialised ∨ s.Initialised)
    (h : s.stateInit params m = .ok (r, s')) :
    Tfs.stateInit params m s.toState = (r, s'.toState) := by
  rw [stateInit] at h
  dsimp only at h
  split at h
  case isTrue htable =>
    obtain ⟨rfl, rfl⟩ := Prod.mk.inj (Outcome.ok.inj h)
    have hallocated : s.toState.allocated = true := htable
    rw [Tfs.stateInit]
    dsimp only
    rw [if_pos hallocated]
    rfl
  case isFalse htable =>
    have hs := hs.resolve_right fun hinit => htable hinit.1
    have hallocated : ¬ s.toState.allocated = true := htable
    have hstart := toState_allocate (m := m) (s := { s with fsParams := params }) hs
    rw [Tfs.stateInit]
    dsimp only
    rw [if_neg hallocated]
    split at h
    case isTrue hfail =>
      obtain ⟨rfl, rfl⟩ := Prod.mk.inj (Outcome.ok.inj h)
      rw [if_pos (initialised_allocate.not.mp hfail), hstart]
      rfl
    case isFalse hm =>
      rw [not_not, initialised_allocate] at hm
      obtain ⟨t₁, h₁, h⟩ := Outcome.bind_eq_ok.mp h
      obtain ⟨t₂, h₂, h⟩ := Outcome.bind_eq_ok.mp h
      obtain ⟨t₃, h₃, h⟩ := Outcome.bind_eq_ok.mp h
      obtain ⟨rfl, rfl⟩ := Prod.mk.inj (Outcome.ok.inj h)
      obtain ⟨a₁, htable₁, -, rfl⟩ := of_fillFree h₁
      obtain ⟨a₂, htable₂, -, rfl⟩ := of_fillFree h₂
      obtain ⟨a₃, htable₃, -, rfl⟩ := of_fillFree h₃
      rw [if_neg (not_not.mpr hm), toState_filled htable₁ htable₂ htable₃, hstart]
      rfl

/-- A successful `state_init` leaves no pointer `NULL`. -/
theorem initialised_of_stateInit (h : s.stateInit params m = .ok (0, s')) : s'.Initialised := by
  rw [stateInit] at h
  dsimp only at h
  split at h
  case isTrue => cases h
  case isFalse =>
    split at h
    case isTrue => cases h
    case isFalse hm =>
      obtain ⟨t₁, h₁, h⟩ := Outcome.bind_eq_ok.mp h
      obtain ⟨t₂, h₂, h⟩ := Outcome.bind_eq_ok.mp h
      obtain ⟨t₃, h₃, h⟩ := Outcome.bind_eq_ok.mp h
      obtain ⟨-, rfl⟩ := Prod.mk.inj (Outcome.ok.inj h)
      obtain ⟨a₁, -, -, rfl⟩ := of_fillFree h₁
      obtain ⟨a₂, -, -, rfl⟩ := of_fillFree h₂
      obtain ⟨a₃, -, -, rfl⟩ := of_fillFree h₃
      obtain ⟨hinodes, -, hdata, -, hopen, -⟩ := not_not.mp hm
      exact ⟨hinodes, rfl, hdata, rfl, hopen, rfl⟩

/-- **On the contents of the tables**, it is `tfs_init` of the model. -/
theorem tfsInit_toState {params : Option TfsParams} (hs : s.Uninitialised ∨ s.Initialised)
    (h : s.tfsInit params m = .ok (r, s')) :
    Tfs.tfsInit params m s.toState = .ok (r, s'.toState) := by
  rw [tfsInit] at h
  obtain ⟨⟨r₁, s₁⟩, hinit, h⟩ := Outcome.bind_eq_ok.mp h
  rw [Tfs.tfsInit, stateInit_toState hs hinit]
  dsimp only at h ⊢
  split at h
  case isTrue hr =>
    obtain ⟨rfl, rfl⟩ := Prod.mk.inj (Outcome.ok.inj h)
    rw [if_pos hr]
  case isFalse hr =>
    obtain ⟨⟨root, s₂⟩, hroot, h⟩ := Outcome.bind_eq_ok.mp h
    obtain rfl := not_not.mp hr
    rw [if_neg hr, createRoot_toState (initialised_of_stateInit hinit) hroot, Outcome.ok_bind]
    dsimp only at h ⊢
    split at h
    case isTrue hne =>
      obtain ⟨rfl, rfl⟩ := Prod.mk.inj (Outcome.ok.inj h)
      rw [if_pos hne]
      rfl
    case isFalse hne =>
      obtain ⟨rfl, rfl⟩ := Prod.mk.inj (Outcome.ok.inj h)
      rw [if_neg hne]
      rfl

/-! ### The sizes -/

theorem sizes_withContents : (s.withContents t).sizes = s.sizes := by
  simp only [sizes, withContents, Option.map_map]
  rfl

theorem fsParams_of_createRoot (h : s.createRoot = .ok (r, s')) :
    s'.fsParams = s.fsParams ∧ s'.sizes = s.sizes := by
  rw [createRoot] at h
  dsimp only at h
  split at h
  case isTrue => cases h
  case isFalse =>
    obtain ⟨⟨root, t⟩, -, h⟩ := Outcome.bind_eq_ok.mp h
    obtain ⟨-, rfl⟩ := Prod.mk.inj (Outcome.ok.inj h)
    exact ⟨rfl, sizes_withContents⟩

theorem sizes_of_stateInit (hs : s.inodeTable = none) (h : s.stateInit params m = .ok (r, s')) :
    s'.fsParams = params ∧ s'.sizes = (allocate m { s with fsParams := params }).sizes := by
  have htable : ¬ s.inodeTable.isSome := by simp [hs]
  rw [stateInit] at h
  dsimp only at h
  rw [if_neg htable] at h
  split at h
  case isTrue =>
    obtain ⟨-, rfl⟩ := Prod.mk.inj (Outcome.ok.inj h)
    exact ⟨rfl, rfl⟩
  case isFalse =>
    obtain ⟨t₁, h₁, h⟩ := Outcome.bind_eq_ok.mp h
    obtain ⟨t₂, h₂, h⟩ := Outcome.bind_eq_ok.mp h
    obtain ⟨t₃, h₃, h⟩ := Outcome.bind_eq_ok.mp h
    obtain ⟨-, rfl⟩ := Prod.mk.inj (Outcome.ok.inj h)
    obtain ⟨a₁, htable₁, -, rfl⟩ := of_fillFree h₁
    obtain ⟨a₂, htable₂, -, rfl⟩ := of_fillFree h₂
    obtain ⟨a₃, htable₃, -, rfl⟩ := of_fillFree h₃
    refine ⟨rfl, ?_⟩
    simp only [sizes, htable₁, htable₂, htable₃, Option.map_some]

/-- The tables have the sizes that `malloc` was asked for. -/
theorem sizes_of_tfsInit {params : Option TfsParams} (hs : s.inodeTable = none)
    (h : s.tfsInit params m = .ok (r, s')) : s'.fsParams = params.getD tfsDefaultParams ∧
      s'.sizes = (allocate m { s with fsParams := params.getD tfsDefaultParams }).sizes := by
  rw [tfsInit] at h
  obtain ⟨⟨r₁, s₁⟩, hinit, h⟩ := Outcome.bind_eq_ok.mp h
  have hsizes := sizes_of_stateInit hs hinit
  dsimp only at h
  split at h
  · obtain ⟨-, rfl⟩ := Prod.mk.inj (Outcome.ok.inj h)
    exact hsizes
  · obtain ⟨⟨root, s₂⟩, hroot, h⟩ := Outcome.bind_eq_ok.mp h
    obtain ⟨hparams, hsizes'⟩ := fsParams_of_createRoot hroot
    dsimp only at h
    split at h
    · obtain ⟨-, rfl⟩ := Prod.mk.inj (Outcome.ok.inj h)
      exact ⟨hparams.trans hsizes.1, hsizes'.trans hsizes.2⟩
    · obtain ⟨-, rfl⟩ := Prod.mk.inj (Outcome.ok.inj h)
      exact ⟨hparams.trans hsizes.1, hsizes'.trans hsizes.2⟩

end Contents

end Statics

/-! ### All or nothing -/

/-- No call of `malloc` succeeds. -/
def Malloc.Fails (m : Malloc) : Prop :=
  m.inodeTable = none ∧ m.freeinodeTs = none ∧ m.fsData = none ∧ m.freeBlocks = none ∧
    m.openFileTable = none ∧ m.freeOpenFileEntries = none

/-- The sizes of the tables, in bytes. -/
def TfsParams.tableSizes (p : TfsParams) : List Nat :=
  [p.maxInodeCount * sizeofInode, p.maxInodeCount * sizeofAllocationState,
    p.maxBlockCount * p.blockSize, p.maxBlockCount * sizeofAllocationState,
    p.maxOpenFilesCount * sizeofOpenFileEntry, p.maxOpenFilesCount * sizeofAllocationState]

/-- There is an inode and a block for the root directory, and no size wraps. -/
structure TfsParams.Creatable (p : TfsParams) : Prop where
  inodes : 1 ≤ p.maxInodeCount
  blocks : 1 ≤ p.maxBlockCount
  blockSize : 1 ≤ p.blockSize
  noWrap : ∀ size ∈ p.tableSizes, size < 2 ^ 64

namespace Statics

/-- An empty file system of these sizes. -/
structure EmptyOf (p : TfsParams) (s : Statics) : Prop where
  fsParams : s.fsParams = p
  sizes : s.sizes = p.tableSizes.map some
  inodes : 0 < p.maxInodeCount ∧
    ∀ i < p.maxInodeCount, (s.toState.freeinodeTs i = .taken ↔ i = 0)
  root : ∃ b < p.maxBlockCount, s.toState.inodeTable 0 = ⟨.tDirectory, p.blockSize, b⟩ ∧
    (∀ k < p.maxBlockCount, (s.toState.freeBlocks k = .taken ↔ k = b)) ∧
    ∀ i < s.toState.maxDirEntries, dInumber s.toState.fsData (b * p.blockSize) i = -1
  openFiles : ∀ f < p.maxOpenFilesCount, s.toState.freeOpenFileEntries f = .free

/-- `tfs_init` returns `0` and leaves an empty file system of the sizes that it was given, or it
returns `-1` and changes nothing. -/
def AllOrNothing (params : Option TfsParams) (m : Malloc) (s : Statics) : Prop :=
  ∃ r s', s.tfsInit params m = .ok (r, s') ∧
    (r = 0 ∧ s'.EmptyOf (params.getD tfsDefaultParams) ∨ r = -1 ∧ s' = s)

section AllOrNothing

variable {s s' : Statics} {params : Option TfsParams} {m : Malloc} {r : Int}

/-- A second call: all that happens is that the parameters change. -/
theorem tfsInit_initialised (hs : s.Initialised) : s.tfsInit params m =
    .ok (-1, { s with fsParams := params.getD tfsDefaultParams }) := by
  rw [tfsInit, stateInit]
  dsimp only
  rw [if_pos hs.1, Outcome.ok_bind]
  rfl

theorem sizes_allocate (s : Statics) (m : Malloc) : (s.allocate m).sizes =
    [m.inodeTable.map fun _ => sizeMul s.fsParams.maxInodeCount sizeofInode,
      m.freeinodeTs.map fun _ => sizeMul s.fsParams.maxInodeCount sizeofAllocationState,
      m.fsData.map fun _ => sizeMul s.fsParams.maxBlockCount s.fsParams.blockSize,
      m.freeBlocks.map fun _ => sizeMul s.fsParams.maxBlockCount sizeofAllocationState,
      m.openFileTable.map fun _ => sizeMul s.fsParams.maxOpenFilesCount sizeofOpenFileEntry,
      m.freeOpenFileEntries.map fun _ =>
        sizeMul s.fsParams.maxOpenFilesCount sizeofAllocationState] := by
  simp only [sizes, allocate, Option.map_map]
  rfl

theorem sizes_uninitialised (hs : s.Uninitialised) :
    s.sizes = [none, none, none, none, none, none] := by
  obtain ⟨h₁, h₂, h₃, h₄, h₅, h₆⟩ := hs
  simp only [sizes, h₁, h₂, h₃, h₄, h₅, h₆, Option.map_none]

/-- What `malloc` was asked for and gave is as large as the table exactly when the size has not
wrapped. -/
theorem map_sizeMul_eq_some {α : Type} {x : Option α} {a b : Nat} :
    (x.map fun _ => sizeMul a b) = some (a * b) ↔ x.isSome ∧ a * b < 2 ^ 64 := by
  cases x with
  | none => simp
  | some x =>
    rw [Option.map_some, Option.some_inj, sizeMul]
    constructor
    · intro h
      exact ⟨rfl, h ▸ Nat.mod_lt _ (by decide)⟩
    · rintro ⟨-, h⟩
      exact Nat.mod_eq_of_lt h

theorem succeeds_of_sizes (h : (s.allocate m).sizes = s.fsParams.tableSizes.map some) :
    m.Succeeds ∧ ∀ size ∈ s.fsParams.tableSizes, size < 2 ^ 64 := by
  rw [sizes_allocate] at h
  simp only [TfsParams.tableSizes, List.map_cons, List.map_nil, List.cons.injEq,
    map_sizeMul_eq_some, and_true] at h
  obtain ⟨⟨h₁, hlt₁⟩, ⟨h₂, hlt₂⟩, ⟨h₃, hlt₃⟩, ⟨h₄, hlt₄⟩, ⟨h₅, hlt₅⟩, h₆, hlt₆⟩ := h
  refine ⟨⟨h₁, h₂, h₃, h₄, h₅, h₆⟩, ?_⟩
  simp only [TfsParams.tableSizes, List.forall_mem_cons]
  exact ⟨hlt₁, hlt₂, hlt₃, hlt₄, hlt₅, hlt₆, fun _ hmem => absurd hmem List.not_mem_nil⟩

/-- Tables that have sizes are not `NULL`. -/
theorem initialised_of_sizes {p : TfsParams} (h : s.sizes = p.tableSizes.map some) :
    s.Initialised := by
  have hsome : ∀ {α : Type} {x : Option (Allocation α)} {size : Nat},
      x.map Allocation.size = some size → x.isSome := fun hx => by
    obtain ⟨a, rfl, -⟩ := Option.map_eq_some_iff.mp hx
    rfl
  simp only [sizes, TfsParams.tableSizes, List.map_cons, List.map_nil, List.cons.injEq,
    and_true] at h
  obtain ⟨h₁, h₂, h₃, h₄, h₅, h₆⟩ := h
  exact ⟨hsome h₁, hsome h₂, hsome h₃, hsome h₄, hsome h₅, hsome h₆⟩

theorem sizes_of_succeeds (hm : m.Succeeds) (hp : ∀ size ∈ s.fsParams.tableSizes, size < 2 ^ 64) :
    (s.allocate m).sizes = s.fsParams.tableSizes.map some := by
  obtain ⟨h₁, h₂, h₃, h₄, h₅, h₆⟩ := hm
  simp only [TfsParams.tableSizes, List.forall_mem_cons] at hp
  obtain ⟨hlt₁, hlt₂, hlt₃, hlt₄, hlt₅, hlt₆, -⟩ := hp
  rw [sizes_allocate]
  simp only [TfsParams.tableSizes, List.map_cons, List.map_nil, List.cons.injEq,
    map_sizeMul_eq_some, and_true]
  exact ⟨⟨h₁, hlt₁⟩, ⟨h₂, hlt₂⟩, ⟨h₃, hlt₃⟩, ⟨h₄, hlt₄⟩, ⟨h₅, hlt₅⟩, h₆, hlt₆⟩

theorem fails_of_sizes (h : (s.allocate m).sizes = [none, none, none, none, none, none]) :
    m.Fails := by
  rw [sizes_allocate] at h
  simp only [List.cons.injEq, Option.map_eq_none_iff, and_true] at h
  exact h

theorem tfsInit_fails (hs : s.Uninitialised) (hm : m.Fails)
    (hp : params.getD tfsDefaultParams = s.fsParams) : s.tfsInit params m = .ok (-1, s) := by
  obtain ⟨h₁, h₂, h₃, h₄, h₅, h₆⟩ := hs
  obtain ⟨hm₁, hm₂, hm₃, hm₄, hm₅, hm₆⟩ := hm
  have hsame : allocate m { s with fsParams := params.getD tfsDefaultParams } = s := by
    obtain ⟨p, t₁, t₂, t₃, t₄, t₅, t₆⟩ := s
    subst h₁ h₂ h₃ h₄ h₅ h₆
    simp only [allocate, hm₁, hm₂, hm₃, hm₄, hm₅, hm₆, Option.map_none, hp]
  have htable : ¬ s.inodeTable.isSome := by simp [h₁]
  rw [tfsInit, stateInit]
  dsimp only
  rw [if_neg htable, hsame, if_pos fun hinit : s.Initialised => htable hinit.1, Outcome.ok_bind]
  rfl

/-- The scan for an inode divides by the size of a block. -/
theorem blockSize_pos (hs : s.Uninitialised)
    (h : s.tfsInit params m = .ok (0, s')) (hn : 0 < (params.getD tfsDefaultParams).maxInodeCount) :
    1 ≤ (params.getD tfsDefaultParams).blockSize := by
  by_contra hzero
  rw [tfsInit] at h
  obtain ⟨⟨r₁, s₁⟩, hinit, h⟩ := Outcome.bind_eq_ok.mp h
  have hparams : s₁.fsParams = params.getD tfsDefaultParams := (sizes_of_stateInit hs.1 hinit).1
  dsimp only at h
  split at h
  case isTrue => cases h
  case isFalse hr =>
    obtain rfl := not_not.mp hr
    obtain ⟨⟨root, s₂⟩, hroot, -⟩ := Outcome.bind_eq_ok.mp h
    have hcreate := createRoot_toState (initialised_of_stateInit hinit) hroot
    have hscan : 0 < s₁.toState.fsParams.maxInodeCount ∧ s₁.toState.fsParams.blockSize = 0 := by
      rw [show s₁.toState.fsParams = s₁.fsParams from rfl, hparams]
      omega
    rw [inodeCreate, inodeAlloc, if_pos hscan] at hcreate
    cases hcreate

theorem fillFree_returns {n : Nat} {table : Option (Allocation AllocationState)}
    (h : table.map Allocation.size = some (n * sizeofAllocationState)) :
    ∃ table', fillFree n table = .ok table' := by
  obtain ⟨a, rfl, hsize⟩ := Option.map_eq_some_iff.mp h
  rw [fillFree, if_neg (by omega)]
  exact ⟨_, rfl⟩

theorem stateInit_returns {p : TfsParams} (hs : s.Uninitialised) (hm : m.Succeeds)
    (hp : ∀ size ∈ p.tableSizes, size < 2 ^ 64) : ∃ s', s.stateInit p m = .ok (0, s') := by
  have htable : ¬ s.inodeTable.isSome := by simp [hs.1]
  have hsizes := sizes_of_succeeds (s := { s with fsParams := p }) hm hp
  simp only [sizes, TfsParams.tableSizes, List.map_cons, List.map_nil, List.cons.injEq,
    and_true] at hsizes
  obtain ⟨-, hinodes, -, hblocks, -, hopen⟩ := hsizes
  obtain ⟨t₁, h₁⟩ := fillFree_returns hinodes
  obtain ⟨t₂, h₂⟩ := fillFree_returns hblocks
  obtain ⟨t₃, h₃⟩ := fillFree_returns hopen
  rw [stateInit]
  dsimp only
  rw [if_neg htable, if_neg (not_not.mpr (initialised_allocate.mpr hm)), h₁, Outcome.ok_bind, h₂,
    Outcome.ok_bind, h₃, Outcome.ok_bind]
  exact ⟨_, rfl⟩

/-- The root directory gets the first inode and the first block. -/
theorem createRoot_eq (hsizes : s.sizes = s.fsParams.tableSizes.map some)
    (hp : s.fsParams.Creatable)
    (hinodes : ∀ i < s.fsParams.maxInodeCount, s.toState.freeinodeTs i = .free)
    (hblocks : ∀ b < s.fsParams.maxBlockCount, s.toState.freeBlocks b = .free) :
    s.createRoot = .ok (0, s.withContents s.toState.withRoot) := by
  simp only [sizes, TfsParams.tableSizes, List.map_cons, List.map_nil, List.cons.injEq,
    and_true] at hsizes
  obtain ⟨htable, -, hdata, -⟩ := hsizes
  have hentries : s.toState.maxDirEntries * sizeofDirEntry ≤
      s.fsParams.maxBlockCount * s.fsParams.blockSize :=
    calc s.toState.maxDirEntries * sizeofDirEntry
        ≤ s.fsParams.blockSize := Nat.div_mul_le_self _ _
      _ ≤ s.fsParams.maxBlockCount * s.fsParams.blockSize :=
        Nat.le_mul_of_pos_left _ hp.blocks
  have hinode : sizeofInode ≤ s.fsParams.maxInodeCount * sizeofInode :=
    Nat.le_mul_of_pos_left _ hp.inodes
  have hfits : ¬ (0 < s.fsParams.maxInodeCount ∧
      (s.fsParams.maxInodeCount * sizeofInode < sizeofInode ∨ 0 < s.fsParams.maxBlockCount ∧
        s.fsParams.maxBlockCount * s.fsParams.blockSize <
          s.toState.maxDirEntries * sizeofDirEntry)) := by
    omega
  have hcreate : inodeCreate .tDirectory s.toState = .ok (0, s.toState.withRoot) :=
    TfsState.inodeCreate_root hp.blockSize hp.inodes hp.blocks hinodes hblocks
  rw [createRoot]
  dsimp only
  rw [htable, hdata, Option.getD_some, Option.getD_some, if_neg hfits, hcreate, Outcome.ok_bind]
  rfl

/-- Only the first slot is taken. -/
theorem update_taken_iff {table : Nat → AllocationState} {n k : Nat}
    (h : ∀ i < n, table i = .free) (hk : k < n) :
    Function.update table 0 .taken k = .taken ↔ k = 0 := by
  by_cases hzero : k = 0
  · rw [hzero, Function.update_self]
    exact iff_of_true rfl rfl
  · rw [Function.update_of_ne hzero, h k hk]
    exact iff_of_false AllocationState.noConfusion hzero

/-- With memory for tables of these sizes, the file system is created. -/
theorem tfsInit_creates (hs : s.Uninitialised) (hm : m.Succeeds)
    (hp : (params.getD tfsDefaultParams).Creatable) :
    ∃ s', s.tfsInit params m = .ok (0, s') ∧ s'.EmptyOf (params.getD tfsDefaultParams) := by
  obtain ⟨s₁, hinit⟩ := stateInit_returns hs hm hp.noWrap
  obtain ⟨hparams, hsizes⟩ := sizes_of_stateInit hs.1 hinit
  have hfull := initialised_of_stateInit hinit
  obtain ⟨-, hinodes, hblocks, hopen⟩ := TfsState.stateInit_ok (stateInit_toState (Or.inl hs) hinit)
  rw [sizes_of_succeeds hm (by exact hp.noWrap)] at hsizes
  rw [← hparams] at hp hinodes hblocks hsizes
  have hroot := createRoot_eq hsizes hp hinodes hblocks
  have hstate : (s₁.withContents s₁.toState.withRoot).toState = s₁.toState.withRoot :=
    toState_withContents hfull rfl hfull.1
  refine ⟨s₁.withContents s₁.toState.withRoot, ?_, ?_⟩
  · rw [tfsInit, hinit, Outcome.ok_bind]
    dsimp only
    rw [if_neg (not_not.mpr rfl), hroot]
    rfl
  · rw [← hparams]
    refine ⟨rfl, sizes_withContents.trans hsizes, ⟨hp.inodes, fun i hi => ?_⟩,
      ⟨0, hp.blocks, ?_, fun k hk => ?_, fun i hi => ?_⟩, fun f hf => ?_⟩
    · rw [hstate]
      exact update_taken_iff hinodes hi
    · rw [hstate]
      show Function.update s₁.toState.inodeTable 0 ⟨.tDirectory, s₁.fsParams.blockSize, 0⟩ 0 = _
      rw [Function.update_self]
      rfl
    · rw [hstate]
      exact update_taken_iff hblocks hk
    · rw [hstate] at hi ⊢
      rw [Nat.zero_mul]
      exact dInumber_clearEntries i hi
    · rw [hstate]
      cases hstatus : s₁.toState.freeOpenFileEntries f with
      | free => exact hstatus
      | taken => exact absurd ⟨hf, hstatus⟩ (hopen f)

/-- **All or nothing.**  A second call must be given the parameters that there are; a first one
must get memory for every table, none of whose sizes wraps, and have an inode and a block, or
get no memory at all and be given the parameters that there are. -/
theorem tfsInit_allOrNothing_iff (params : Option TfsParams) (m : Malloc)
    (hs : s.Uninitialised ∨ s.Initialised) : AllOrNothing params m s ↔
      s.Initialised ∧ params.getD tfsDefaultParams = s.fsParams ∨
      s.Uninitialised ∧ (m.Succeeds ∧ (params.getD tfsDefaultParams).Creatable ∨
        m.Fails ∧ params.getD tfsDefaultParams = s.fsParams) := by
  constructor
  · rintro ⟨r, s', h, hend⟩
    rcases hs with hs | hs
    · refine Or.inr ⟨hs, ?_⟩
      obtain ⟨hparams, hsizes⟩ := sizes_of_tfsInit hs.1 h
      rcases hend with ⟨rfl, hempty⟩ | ⟨-, rfl⟩
      · -- The sizes are those asked for.
        have hasked := hsizes.symm.trans hempty.sizes
        obtain ⟨hm, hnoWrap⟩ :=
          succeeds_of_sizes (s := { s with fsParams := params.getD tfsDefaultParams }) hasked
        obtain ⟨b, hb, -⟩ := hempty.root
        exact Or.inl ⟨hm, hempty.inodes.1, Nat.zero_lt_of_lt hb,
          blockSize_pos hs h hempty.inodes.1, hnoWrap⟩
      · rw [sizes_uninitialised hs] at hsizes
        exact Or.inr ⟨fails_of_sizes hsizes.symm, hparams.symm⟩
    · refine Or.inl ⟨hs, ?_⟩
      obtain ⟨rfl, rfl⟩ := Prod.mk.inj (Outcome.ok.inj ((tfsInit_initialised hs).symm.trans h))
      rcases hend with ⟨hr, -⟩ | ⟨-, hsame⟩
      · cases hr
      · exact congrArg Statics.fsParams hsame
  · rintro (⟨hs, hparams⟩ | ⟨hs, ⟨hm, hp⟩ | ⟨hm, hparams⟩⟩)
    · refine ⟨-1, s, ?_, Or.inr ⟨rfl, rfl⟩⟩
      rw [tfsInit_initialised hs, hparams]
    · obtain ⟨s', h, hempty⟩ := tfsInit_creates hs hm hp
      exact ⟨0, s', h, Or.inl ⟨rfl, hempty⟩⟩
    · exact ⟨-1, s, tfsInit_fails hs hm hparams, Or.inr ⟨rfl, rfl⟩⟩

end AllOrNothing

/-- Before any call. -/
def null : Statics := ⟨⟨0, 0, 0, 0⟩, none, none, none, none, none, none⟩

theorem uninitialised_null : null.Uninitialised := ⟨rfl, rfl, rfl, rfl, rfl, rfl⟩

theorem creatable_tfsDefaultParams : tfsDefaultParams.Creatable := by
  refine ⟨by decide, by decide, by decide, ?_⟩
  decide

/-- A first call with the default parameters. -/
theorem allOrNothing_null : AllOrNothing none .zeroed null :=
  (tfsInit_allOrNothing_iff none .zeroed (Or.inl uninitialised_null)).mpr
    (Or.inr ⟨uninitialised_null, Or.inl ⟨by decide, creatable_tfsDefaultParams⟩⟩)

/-- A second call fails, and the file system has the parameters that it was given. -/
theorem not_allOrNothing_initialised :
    ∃ s s' : Statics, null.tfsInit none .zeroed = .ok (0, s) ∧
      s.tfsInit (some ⟨1, 1, 1, 1⟩) .zeroed = .ok (-1, s') ∧ s'.fsParams = ⟨1, 1, 1, 1⟩ ∧
      ¬ AllOrNothing (some ⟨1, 1, 1, 1⟩) .zeroed s := by
  obtain ⟨s, h, hempty⟩ : ∃ s', null.tfsInit none .zeroed = .ok (0, s') ∧
      s'.EmptyOf tfsDefaultParams :=
    tfsInit_creates uninitialised_null (by decide) creatable_tfsDefaultParams
  have hs : s.Initialised := initialised_of_sizes hempty.sizes
  have hsecond : s.tfsInit (some ⟨1, 1, 1, 1⟩) .zeroed =
      .ok (-1, { s with fsParams := ⟨1, 1, 1, 1⟩ }) := tfsInit_initialised hs
  refine ⟨s, _, h, hsecond, rfl, ?_⟩
  rintro ⟨r, s', h', ⟨rfl, -⟩ | ⟨-, rfl⟩⟩
  · rw [hsecond] at h'
    cases h'
  · rw [hsecond] at h'
    have hparams := congrArg Statics.fsParams (Prod.mk.inj (Outcome.ok.inj h')).2
    have hne : (⟨1, 1, 1, 1⟩ : TfsParams) ≠ tfsDefaultParams := by decide
    exact hne (hparams.trans hempty.fsParams)

end Statics

end Tfs
