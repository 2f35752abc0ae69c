/-
Creations and removals at the same time.

`create_box` and `remove_box` in atomic steps: each call of `find_box`, `tfs_open`,
`tfs_close`, `tfs_unlink`, `add_box` and `delete_box` is one, and what other handlers
do comes in between.  A name is checked in one of the two stores and changed in the
other, so what was found out may no longer hold when it is acted on.

* `BoxHandler.steps_start` — a handler that is left alone is `create_box` or
  `remove_box`;
* `RequestState.Inv` — the two stores differ by what the handlers owe them, and
  the answers are those of an order of the requests;
* **`linearizable_of_permitted`** — as long as a file that is created is new, a
  removal finds its box, and deletes it where it is;
* `not_linearizable_sameName` — two creations of one name.
-/
import Mbroker.Handlers
import Mbroker.Linearization
import Mbroker.TfsNames
import Mbroker.TfsRuns

namespace Mbroker

open Tfs Linearization

/-- A request of a manager, with what the local variable `box` of `create_box` holds. -/
inductive BoxRequest where
  | create (boxName : CString) (box : Box)
  | remove (boxName : CString)

/-- The request, run to its end. -/
def BoxRequest.run : BoxRequest → Broker → Outcome (Int × Broker)
  | .create boxName box, b => createBox boxName box b
  | .remove boxName, b => removeBox boxName b

/-- The next call of `create_box`. -/
inductive CreatePc where
  | findBox
  | tfsOpen
  | tfsClose (boxHandle : Int)
  | addBox
  | replied (returnCode : Int)

/-- The next call of `remove_box`. -/
inductive RemovePc where
  | tfsUnlink
  | findBox
  | deleteBox (boxIndex : Int)
  | replied (returnCode : Int)

/-- A handler. -/
inductive BoxHandler where
  | create (boxName : CString) (box : Box) (pc : CreatePc)
  | remove (boxName : CString) (pc : RemovePc)

/-- The handler before its first call. -/
def BoxRequest.start : BoxRequest → BoxHandler
  | .create boxName box => .create boxName box .findBox
  | .remove boxName => .remove boxName .tfsUnlink

namespace BoxHandler

/-- One call. -/
def step : BoxHandler → Broker → Outcome (BoxHandler × Broker)
  | .create boxName box .findBox, b =>
    -- the box already exists
    if findBox boxName b.table ≠ -1 then .ok (.create boxName box (.replied (-1)), b)
    else .ok (.create boxName box .tfsOpen, b)
  | .create boxName box .tfsOpen, b => do
    let (boxHandle, fs) ← tfsOpen (some (boxPath boxName)) tfsOCreat b.fs
    if boxHandle = -1 then return (.create boxName box (.replied (-1)), { b with fs := fs })
    return (.create boxName box (.tfsClose boxHandle), { b with fs := fs })
  | .create boxName box (.tfsClose boxHandle), b => do
    let (_, fs) ← tfsClose boxHandle b.fs
    return (.create boxName box .addBox, { b with fs := fs })
  | .create boxName box .addBox, b => do
    let table ← addBox
      { box with boxSize := 0, nPublishers := 0, nSubscribers := 0, boxName := boxName } b.table
    return (.create boxName box (.replied 0), { b with table := table })
  | .remove boxName .tfsUnlink, b => do
    let (boxHandle, fs) ← tfsUnlink (some (boxPath boxName)) b.fs
    if boxHandle = -1 then return (.remove boxName (.replied (-1)), { b with fs := fs })
    return (.remove boxName .findBox, { b with fs := fs })
  | .remove boxName .findBox, b =>
    let boxIndex := findBox boxName b.table
    if boxIndex = -1 then .ok (.remove boxName (.replied (-1)), b)
    else .ok (.remove boxName (.deleteBox boxIndex), b)
  | .remove boxName (.deleteBox boxIndex), b => do
    let table ← deleteBox boxIndex b.table
    return (.remove boxName (.replied 0), { b with table := table })
  | handler, b => .ok (handler, b)

/-- Some calls of one handler. -/
def steps : Nat → BoxHandler → Broker → Outcome (BoxHandler × Broker)
  | 0, handler, b => .ok (handler, b)
  | n + 1, handler, b => do
    let (handler, b) ← handler.step b
    steps n handler b

/-- What the manager has been told. -/
def reply : BoxHandler → Option Int
  | .create _ _ (.replied r) => some r
  | .remove _ (.replied r) => some r
  | _ => none

end BoxHandler

/-- The broker, and the handlers of the requests. -/
structure RequestState (ι : Type) where
  broker : Broker
  handlers : ι → BoxHandler

namespace RequestState

variable {ι : Type}

/-- The requests come in. -/
def start (b : Broker) (requests : ι → BoxRequest) : RequestState ι :=
  ⟨b, fun k => (requests k).start⟩

/-- A call of one of the handlers. -/
def step [DecidableEq ι] (k : ι) (s : RequestState ι) : Outcome (Unit × RequestState ι) := do
  let (handler, b) ← (s.handlers k).step s.broker
  return ((), ⟨b, Function.update s.handlers k handler⟩)

end RequestState

/-- The boxes are those of the directory, each once; `fs` is one that `tfs_init(NULL)`
and calls after it can lead to. -/
structure Broker.Consistent (b : Broker) : Prop where
  inv : b.fs.Inv
  params : b.fs.fsParams = tfsDefaultParams
  distinct : b.table.Distinct
  names : ∀ q, b.table.Holds q ↔ b.fs.InDir q

/-- Names that are distinct and those of the directory, and replies and names that
are those of the requests one after the other. -/
structure RequestState.Linearizable {ι : Type} (b₀ : Broker) (requests : ι → BoxRequest)
    (s : RequestState ι) : Prop where
  distinct : s.broker.table.Distinct
  names : ∀ q, s.broker.table.Holds q ↔ s.broker.fs.InDir q
  sequential : ∃ (order : List ι) (rs : List Int) (b : Broker), order.Nodup ∧ (∀ k, k ∈ order) ∧
    Outcome.runList (fun k => (requests k).run) order b₀ = .ok (rs, b) ∧
    order.map (fun k => (s.handlers k).reply) = rs.map some ∧
    ∀ q, b.table.Holds q ↔ s.broker.table.Holds q

/-- The table of open files is not full when it is needed. -/
def BoxHandler.HandleLeft : BoxHandler → Broker → Prop
  | .create _ _ .tfsOpen, b => b.fs.nextHandle ≠ none
  | _, _ => True

/-- What a handler has found out still holds when it acts on it: a file that is
created is new, a removal finds its box and deletes it where it is; and the slot
after the last box is one of the table. -/
def BoxHandler.Permitted : BoxHandler → Broker → Prop
  | .create boxName _ .tfsOpen, b => tfsLookup (boxPath boxName) 0 b.fs = .ok (-1)
  | .create _ _ .addBox, b => b.table.nBoxes < maxBoxes
  | .remove boxName .findBox, b => findBox boxName b.table ≠ -1
  | .remove boxName (.deleteBox boxIndex), b =>
    b.table.nBoxes < maxBoxes ∧ ∃ i < b.table.nBoxes, boxIndex = i ∧ b.table.name i = boxName
  | _, _ => True

namespace BoxHandler

instance : ∀ (handler : BoxHandler) (b : Broker), Decidable (handler.HandleLeft b)
  | .create _ _ .tfsOpen, b => inferInstanceAs (Decidable (b.fs.nextHandle ≠ none))
  | .create _ _ .findBox, _ => inferInstanceAs (Decidable True)
  | .create _ _ (.tfsClose _), _ => inferInstanceAs (Decidable True)
  | .create _ _ .addBox, _ => inferInstanceAs (Decidable True)
  | .create _ _ (.replied _), _ => inferInstanceAs (Decidable True)
  | .remove _ _, _ => inferInstanceAs (Decidable True)

instance : ∀ (handler : BoxHandler) (b : Broker), Decidable (handler.Permitted b)
  | .create boxName _ .tfsOpen, b =>
    inferInstanceAs (Decidable (tfsLookup (boxPath boxName) 0 b.fs = .ok (-1)))
  | .create _ _ .addBox, b => inferInstanceAs (Decidable (b.table.nBoxes < maxBoxes))
  | .remove boxName .findBox, b => inferInstanceAs (Decidable (findBox boxName b.table ≠ -1))
  | .remove boxName (.deleteBox boxIndex), b =>
    inferInstanceAs (Decidable (b.table.nBoxes < maxBoxes ∧
      ∃ i < b.table.nBoxes, boxIndex = i ∧ b.table.name i = boxName))
  | .create _ _ .findBox, _ => inferInstanceAs (Decidable True)
  | .create _ _ (.tfsClose _), _ => inferInstanceAs (Decidable True)
  | .create _ _ (.replied _), _ => inferInstanceAs (Decidable True)
  | .remove _ .tfsUnlink, _ => inferInstanceAs (Decidable True)
  | .remove _ (.replied _), _ => inferInstanceAs (Decidable True)

/-! ### A handler that is left alone -/

/-- **Four calls make the whole handler.** -/
theorem steps_start (request : BoxRequest) (b : Broker) :
    (request.start.steps 4 b).map (fun p => (p.1.reply, p.2)) =
      (request.run b).map fun p => (some p.1, p.2) := by
  cases request with
  | create boxName box =>
    by_cases hfind : findBox boxName b.table ≠ -1
    · simp [BoxRequest.start, BoxRequest.run, steps, step, createBox, hfind, reply, Outcome.map]
    · simp only [BoxRequest.start, BoxRequest.run, steps, step, createBox, if_neg hfind,
        Outcome.ok_bind]
      cases tfsOpen (some (boxPath boxName)) tfsOCreat b.fs with
      | ok r =>
        simp only [Outcome.ok_bind]
        split
        · simp [reply, Outcome.map]
        · simp only [Outcome.pure_eq_ok, Outcome.ok_bind]
          cases tfsClose r.1 r.2 with
          | ok r' =>
            simp only [Outcome.ok_bind]
            cases addBox { box with
              boxSize := 0, nPublishers := 0, nSubscribers := 0, boxName := boxName } b.table <;> rfl
          | _ => rfl
      | _ => rfl
  | remove boxName =>
    simp only [BoxRequest.start, BoxRequest.run, steps, step, removeBox]
    cases tfsUnlink (some (boxPath boxName)) b.fs with
    | ok r =>
      simp only [Outcome.ok_bind]
      split
      · simp [reply, Outcome.map]
      · simp only [Outcome.pure_eq_ok, Outcome.ok_bind]
        split
        · simp [reply, Outcome.map]
        · simp only [Outcome.ok_bind]
          cases deleteBox (findBox boxName b.table) b.table <;> rfl
    | _ => rfl

/-! ### What a handler is doing -/

/-- The request it is about. -/
def request : BoxHandler → BoxRequest
  | .create boxName box _ => .create boxName box
  | .remove boxName _ => .remove boxName

/-- The reply, from the moment the directory has decided it. -/
def promised : BoxHandler → Option Int
  | .create _ _ .findBox => none
  | .create _ _ .tfsOpen => none
  | .create _ _ (.tfsClose _) => some 0
  | .create _ _ .addBox => some 0
  | .create _ _ (.replied r) => some r
  | .remove _ .tfsUnlink => none
  | .remove _ .findBox => some 0
  | .remove _ (.deleteBox _) => some 0
  | .remove _ (.replied r) => some r

/-- The boxes of a name that it has still to add to the table. -/
def owes (q : CString) : BoxHandler → ℤ
  | .create boxName _ (.tfsClose _) => if boxName = q then 1 else 0
  | .create boxName _ .addBox => if boxName = q then 1 else 0
  | .remove boxName .findBox => if boxName = q then -1 else 0
  | .remove boxName (.deleteBox _) => if boxName = q then -1 else 0
  | _ => 0

/-- The handle it has open. -/
def opened : BoxHandler → Option Int
  | .create _ _ (.tfsClose boxHandle) => some boxHandle
  | _ => none

variable {handler : BoxHandler} {q : CString} {r : Int}

theorem promised_of_reply (h : handler.reply = some r) : handler.promised = some r := by
  match handler, h with
  | .create _ _ (.replied _), h => exact h
  | .remove _ (.replied _), h => exact h

theorem owes_of_reply (h : handler.reply = some r) : handler.owes q = 0 := by
  match handler, h with
  | .create _ _ (.replied _), _ => rfl
  | .remove _ (.replied _), _ => rfl

/-- Only a removal owes less than nothing. -/
theorem of_owes_neg (h : handler.owes q < 0) :
    handler.request = .remove q ∧ handler.promised = some 0 := by
  match handler, h with
  | .create boxName _ (.tfsClose _), h =>
    rw [owes] at h
    split at h <;> omega
  | .create boxName _ .addBox, h =>
    rw [owes] at h
    split at h <;> omega
  | .remove boxName .findBox, h =>
    rw [owes] at h
    split at h
    case isTrue heq => exact ⟨heq ▸ rfl, rfl⟩
    case isFalse => omega
  | .remove boxName (.deleteBox _), h =>
    rw [owes] at h
    split at h
    case isTrue heq => exact ⟨heq ▸ rfl, rfl⟩
    case isFalse => omega

end BoxHandler

/-! ### One request after the other -/

section Alone

variable {boxName q : CString} {box : Box} {b b' b₀ : Broker} {fs fs' : TfsState}

/-- A creation whose name is in the table. -/
theorem createBox_held (h : b.table.Holds boxName) : createBox boxName box b = .ok (-1, b) := by
  rw [createBox, if_pos (BoxTable.findBox_ne_neg.mpr h)]

/-- A box that has been removed was in the table. -/
theorem holds_of_removeBox (h : removeBox boxName b = .ok (0, b')) : b.table.Holds boxName := by
  rcases removeBox_table h with ⟨h, -⟩ | ⟨-, -, i, hi, -, hname, -⟩
  · cases h
  · exact ⟨i, hi, hname⟩

theorem not_inDir_of_tfsLookup (hs : fs.Inv) (h : tfsLookup (boxPath boxName) 0 fs = .ok (-1)) :
    ¬ fs.InDir boxName := by
  by_cases hv : validPathname (boxPath boxName) = true
  · exact fun hin => (hs.inDir_iff hv).mp hin h
  · exact hs.not_inDir_of_invalid (p := boxPath boxName) (by simpa using hv) rfl

theorem validPathname_of_inDir (hs : fs.Inv) (h : fs.InDir boxName) :
    validPathname (boxPath boxName) = true := by
  by_contra hv
  exact hs.not_inDir_of_invalid (p := boxPath boxName) (by simpa using hv) rfl h

namespace Broker.Consistent

/-- The directory has fewer entries than the table has slots. -/
theorem nBoxes_lt (h : b.Consistent) : b.table.nBoxes < maxBoxes := by
  have hle : b.table.nBoxes ≤ b.fs.maxDirEntries :=
    TfsState.card_names h.distinct fun i hi => (h.names _).mp ⟨i, hi, rfl⟩
  have hentries : b.fs.maxDirEntries = 23 := by rw [TfsState.maxDirEntries, h.params]; rfl
  rw [hentries] at hle
  exact lt_of_le_of_lt hle (by decide)

theorem not_holds (h : b.Consistent) (hno : ¬ b.fs.InDir boxName) :
    ∀ i < b.table.nBoxes, b.table.name i ≠ boxName :=
  fun i hi hname => hno ((h.names _).mp ⟨i, hi, hname⟩)

theorem createBox_find (h : b.Consistent) (hno : ¬ b.fs.InDir boxName) :
    findBox boxName b.table = -1 :=
  BoxTable.findBox_eq_neg.mpr (h.not_holds hno)

/-- A creation for which there is no room. -/
theorem createBox_full (h : b.Consistent) (box : Box) (hno : ¬ b.fs.InDir boxName)
    (hfull : (b.fs.newFile (boxPath boxName)).1 = none) :
    createBox boxName box b = .ok (-1, ⟨(b.fs.newFile (boxPath boxName)).2, b.table⟩) ∧
      Broker.Consistent ⟨(b.fs.newFile (boxPath boxName)).2, b.table⟩ := by
  refine ⟨?_, h.inv.newFile hno, ?_, h.distinct, fun q => ?_⟩
  · rw [createBox, if_neg (not_not.mpr (h.createBox_find hno)),
      h.inv.tfsOpen_new (p := boxPath boxName) hno,
      TfsState.openNew, hfull]
    rfl
  · exact TfsState.newFile_tables.1.trans h.params
  · rw [h.names, h.inv.inDir_newFile, hfull]
    simp

/-- A creation that goes through. -/
theorem createBox_new (h : b.Consistent) (box : Box) (hno : ¬ b.fs.InDir boxName) {k f : Nat}
    (hk : (b.fs.newFile (boxPath boxName)).1 = some k) (hf : b.fs.nextHandle = some f) :
    ∃ entries table, createBox boxName box b = .ok (0,
        ⟨(b.fs.newFile (boxPath boxName)).2.withHandles entries b.fs.freeOpenFileEntries, table⟩) ∧
      Broker.Consistent
        ⟨(b.fs.newFile (boxPath boxName)).2.withHandles entries b.fs.freeOpenFileEntries, table⟩ := by
  obtain ⟨hparams, -, hfree⟩ := b.fs.newFile_tables (p := boxPath boxName)
  have hf' : (b.fs.newFile (boxPath boxName)).2.nextHandle = some f :=
    TfsState.nextHandle_newFile.trans hf
  have hopen := h.inv.tfsOpen_new (p := boxPath boxName) hno
  rw [TfsState.openNew, hk] at hopen
  dsimp only at hopen
  rw [TfsState.addToOpenFileTable_some hf'] at hopen
  obtain ⟨entries, hclose⟩ := TfsState.tfsClose_new k 0 hf'
  rw [hfree] at hclose
  obtain ⟨table, hadd⟩ := BoxTable.addBox_returns
    { box with boxSize := 0, nPublishers := 0, nSubscribers := 0, boxName := boxName } h.nBoxes_lt
  refine ⟨entries, table, ?_, ?_, hparams.trans h.params,
    h.distinct.addBox hadd (h.not_holds hno), fun q => ?_⟩
  · rw [createBox, if_neg (not_not.mpr (h.createBox_find hno)), hopen, Outcome.ok_bind]
    dsimp only
    rw [if_neg (by omega), hclose, Outcome.ok_bind, hadd]
    rfl
  · exact (h.inv.of_tfsOpen hopen).of_tfsClose hclose
  · rw [BoxTable.holds_addBox hadd, h.names, TfsState.inDir_withHandles, h.inv.inDir_newFile, hk]
    simp [skipSlash_boxPath, eq_comm]

theorem removeBox_missing (h : b.Consistent) (hno : ¬ b.fs.InDir boxName) :
    removeBox boxName b = .ok (-1, b) := by
  rw [removeBox, h.inv.tfsUnlink_missing (p := boxPath boxName) hno]
  rfl

/-- A removal that goes through. -/
theorem removeBox_found (h : b.Consistent) (hin : b.fs.InDir boxName)
    (hunlink : tfsUnlink (some (boxPath boxName)) b.fs = .ok (0, fs'))
    (hparams : fs'.fsParams = b.fs.fsParams)
    (hnames : ∀ q, fs'.InDir q ↔ b.fs.InDir q ∧ q ≠ boxName) :
    ∃ table, removeBox boxName b = .ok (0, ⟨fs', table⟩) ∧ Broker.Consistent ⟨fs', table⟩ := by
  have hheld := (h.names boxName).mpr hin
  obtain ⟨i, hi, hfind, hname⟩ := BoxTable.of_findBox (BoxTable.findBox_ne_neg.mpr hheld)
  obtain ⟨table, hdelete⟩ := BoxTable.deleteBox_returns hi h.nBoxes_lt
  refine ⟨table, ?_, h.inv.of_tfsUnlink hunlink, hparams.trans h.params, h.distinct.deleteBox hdelete,
    fun q => ?_⟩
  · rw [removeBox, hunlink, Outcome.ok_bind]
    dsimp only
    rw [if_neg (by omega), hfind, if_neg (by omega), hdelete]
    rfl
  · rw [h.distinct.holds_deleteBox hdelete hi, h.names, hname, hnames, ne_comm]

end Broker.Consistent

end Alone

namespace RequestState

variable {ι : Type} {b₀ b b' : Broker} {requests : ι → BoxRequest} {s s' : RequestState ι} {k : ι}
  {fs fs' : TfsState} {handler : BoxHandler} {boxName q : CString} {box : Box}

open Classical in
/-- Once or not at all, as the directory has a name. -/
noncomputable def present (fs : TfsState) (q : CString) : ℤ := if fs.InDir q then 1 else 0

theorem present_of_inDir (h : fs.InDir q) : present fs q = 1 := if_pos h

theorem present_of_not (h : ¬ fs.InDir q) : present fs q = 0 := if_neg h

theorem present_congr (h : fs'.InDir q ↔ fs.InDir q) : present fs' q = present fs q := by
  by_cases hin : fs.InDir q
  · rw [present_of_inDir hin, present_of_inDir (h.mpr hin)]
  · rw [present_of_not hin, present_of_not (h.not.mpr hin)]

theorem present_insert (h : fs'.InDir q ↔ fs.InDir q ∨ q = boxName) (hno : ¬ fs.InDir boxName) :
    present fs' q = present fs q + if boxName = q then 1 else 0 := by
  split
  case isTrue heq =>
    rw [present_of_inDir (h.mpr (Or.inr heq.symm)), present_of_not (heq ▸ hno), zero_add]
  case isFalse hne =>
    rw [add_zero]
    exact present_congr (h.trans (or_iff_left fun heq => hne heq.symm))

theorem present_erase (h : fs'.InDir q ↔ fs.InDir q ∧ q ≠ boxName) (hin : fs.InDir boxName) :
    present fs' q = present fs q + if boxName = q then -1 else 0 := by
  split
  case isTrue heq =>
    rw [present_of_not fun h' => (h.mp h').2 heq.symm, present_of_inDir (heq ▸ hin)]
    rfl
  case isFalse hne =>
    rw [add_zero]
    exact present_congr (h.trans (and_iff_left fun heq => hne heq.symm))

/-- `b` is the broker after the requests that are decided, one after the other: its
directory is that of `fs`, and none of its files is open for them. -/
structure Behind (b₀ b : Broker) (fs : TfsState) : Prop where
  consistent : b.Consistent
  free : b.fs.freeOpenFileEntries = b₀.fs.freeOpenFileEntries
  tables : fs = b.fs.withHandles fs.openFileTable fs.freeOpenFileEntries

theorem Behind.inDir (h : Behind b₀ b fs) : b.fs.InDir q ↔ fs.InDir q := by
  rw [h.tables]
  exact Iff.rfl

/-- There is an order of the requests that are decided. -/
def Decided (b₀ : Broker) (requests : ι → BoxRequest) (answer : ι → Option Int) (fs : TfsState) :
    Prop :=
  ∃ order b, Explains (fun k => (requests k).run) b₀ answer order b ∧ Behind b₀ b fs

variable [Fintype ι]

/-- **The invariant**: a name is in the table as often as it is in the directory,
but for what the handlers owe. -/
structure Inv (b₀ : Broker) (requests : ι → BoxRequest) (s : RequestState ι) : Prop where
  request : ∀ k, (s.handlers k).request = requests k
  inv : s.broker.fs.Inv
  free : ∀ f, s.broker.fs.freeOpenFileEntries f = .free → b₀.fs.freeOpenFileEntries f = .free
  own : ∀ k, ∀ f : Nat, (s.handlers k).opened = some (f : Int) → b₀.fs.freeOpenFileEntries f = .free
  balanced : ∀ q, (s.broker.table.count q : ℤ) + ∑ k, (s.handlers k).owes q = present s.broker.fs q
  decided : Decided b₀ requests (fun k => (s.handlers k).promised) s.broker.fs

theorem inv_start (hb : b₀.Consistent) : Inv b₀ requests (start b₀ requests) := by
  have howes : ∀ k q, ((requests k).start).owes q = 0 := by
    intro k q
    cases requests k <;> rfl
  refine ⟨fun k => ?_, hb.inv, fun _ => id, fun k f hf => ?_, fun q => ?_, [], b₀, explains_nil ?_,
    hb, rfl, rfl⟩
  · show ((requests k).start).request = _
    cases requests k <;> rfl
  · change ((requests k).start).opened = some (f : Int) at hf
    cases hk : requests k <;> rw [hk] at hf <;> cases hf
  · show (b₀.table.count q : ℤ) + ∑ k, ((requests k).start).owes q = present b₀.fs q
    rw [Finset.sum_eq_zero fun k _ => howes k q, add_zero]
    by_cases hin : b₀.fs.InDir q
    · have hpos := BoxTable.count_pos.mpr ((hb.names q).mpr hin)
      have hle := BoxTable.distinct_iff_count.mp hb.distinct q
      rw [present_of_inDir hin]
      omega
    · have hzero := (BoxTable.count_pos.trans (hb.names q)).not.mpr hin
      rw [present_of_not hin]
      omega
  · intro k
    show ((requests k).start).promised = none
    cases requests k <;> rfl

/-- A box that has left the directory but not the table is one that a handler is
about to remove. -/
theorem Inv.exists_removal (h : Inv b₀ requests s) (hheld : s.broker.table.Holds q)
    (hno : ¬ s.broker.fs.InDir q) :
    ∃ j, requests j = .remove q ∧ (s.handlers j).promised = some 0 := by
  have hpos := BoxTable.count_pos.mpr hheld
  have hbalanced := h.balanced q
  rw [present_of_not hno] at hbalanced
  by_contra hnone
  have hsum : 0 ≤ ∑ k, (s.handlers k).owes q := by
    refine Finset.sum_nonneg fun j _ => ?_
    by_contra hneg
    obtain ⟨hrequest, hpromised⟩ := BoxHandler.of_owes_neg (not_le.mp hneg)
    exact hnone ⟨j, (h.request j).symm.trans hrequest, hpromised⟩
  omega

variable [DecidableEq ι]

/-- A handler goes on. -/
theorem Inv.advance (h : Inv b₀ requests s) (hrequest : handler.request = (s.handlers k).request)
    (hinv : b.fs.Inv)
    (hfree : ∀ f, b.fs.freeOpenFileEntries f = .free → b₀.fs.freeOpenFileEntries f = .free)
    (hown : ∀ f : Nat, handler.opened = some (f : Int) → b₀.fs.freeOpenFileEntries f = .free)
    (hbalanced : ∀ q, (b.table.count q : ℤ) + handler.owes q + present s.broker.fs q =
      s.broker.table.count q + (s.handlers k).owes q + present b.fs q)
    (hdecided : Decided b₀ requests
      (Function.update (fun k => (s.handlers k).promised) k handler.promised) b.fs) :
    Inv b₀ requests ⟨b, Function.update s.handlers k handler⟩ := by
  have hcases : ∀ j, (Function.update s.handlers k handler) j = handler ∧ j = k ∨
      (Function.update s.handlers k handler) j = s.handlers j := by
    intro j
    by_cases hj : j = k
    · exact Or.inl ⟨by rw [hj, Function.update_self], hj⟩
    · exact Or.inr (Function.update_of_ne hj _ _)
  refine ⟨fun j => ?_, hinv, hfree, fun j f hf => ?_, fun q => ?_, ?_⟩
  · dsimp only
    rcases hcases j with ⟨heq, rfl⟩ | heq
    · rw [heq, hrequest, h.request]
    · rw [heq, h.request]
  · dsimp only at hf
    rcases hcases j with ⟨heq, rfl⟩ | heq
    · exact hown f (heq ▸ hf)
    · exact h.own j f (heq ▸ hf)
  · dsimp only
    rw [sum_update (BoxHandler.owes q)]
    have hold := h.balanced q
    have hnew := hbalanced q
    omega
  · have hpromised : (fun j => (Function.update s.handlers k handler j).promised) =
        Function.update (fun j => (s.handlers j).promised) k handler.promised :=
      Function.comp_update BoxHandler.promised s.handlers k handler
    dsimp only
    rw [hpromised]
    exact hdecided

/-- The order stays when nothing has been decided. -/
theorem Inv.stillDecided (h : Inv b₀ requests s) (hpromised : handler.promised = (s.handlers k).promised)
    (hfs : fs = s.broker.fs.withHandles fs.openFileTable fs.freeOpenFileEntries) :
    Decided b₀ requests (Function.update (fun k => (s.handlers k).promised) k handler.promised)
      fs := by
  obtain ⟨order, b, hexplains, hbehind⟩ := h.decided
  refine ⟨order, b, ?_, hbehind.consistent, hbehind.free, ?_⟩
  · rw [hpromised, Function.update_eq_self]
    exact hexplains
  · rw [hfs, hbehind.tables]
    rfl

/-- Handler `k` makes its next call, and the invariant holds afterwards. -/
def Goes (b₀ : Broker) (requests : ι → BoxRequest) (k : ι) (s : RequestState ι) : Prop :=
  ∃ handler b, (s.handlers k).step s.broker = .ok (handler, b) ∧
    Inv b₀ requests ⟨b, Function.update s.handlers k handler⟩

/-! ### The calls of `create_box` -/

theorem Inv.createFind (h : Inv b₀ requests s) (hk : s.handlers k = .create boxName box .findBox) :
    Goes b₀ requests k s := by
  have hrequest : requests k = .create boxName box := by
    rw [← h.request, hk]
    rfl
  have hpromised : (s.handlers k).promised = none := by
    rw [hk]
    rfl
  by_cases hfind : findBox boxName s.broker.table ≠ -1
  · refine ⟨.create boxName box (.replied (-1)), s.broker, ?_, h.advance ?_ h.inv h.free ?_ ?_ ?_⟩
    · rw [hk, BoxHandler.step, if_pos hfind]
    · rw [hk]
      rfl
    · rintro f ⟨⟩
    · rw [hk]
      exact fun q => rfl
    -- The creation comes last or, when the file has just gone, before the removal.
    have hheld := BoxTable.findBox_ne_neg.mp hfind
    obtain ⟨order, b, hexplains, hbehind⟩ := h.decided
    by_cases hin : s.broker.fs.InDir boxName
    · have hheld' := (hbehind.consistent.names boxName).mpr (hbehind.inDir.mpr hin)
      refine ⟨order ++ [k], b, hexplains.append hpromised ?_, hbehind⟩
      rw [hrequest]
      exact createBox_held hheld'
    · obtain ⟨j, hj, hpromised'⟩ := h.exists_removal hheld hin
      have hread : ∀ t t', (requests j).run t = .ok (0, t') → (requests k).run t = .ok (-1, t) := by
        intro t t' hremove
        rw [hj] at hremove
        rw [hrequest]
        exact createBox_held (holds_of_removeBox hremove)
      obtain ⟨order', hexplains'⟩ := hexplains.insert hpromised hpromised' hread
      exact ⟨order', b, hexplains', hbehind⟩
  · refine ⟨.create boxName box .tfsOpen, s.broker, ?_, h.advance ?_ h.inv h.free ?_ ?_ ?_⟩
    · rw [hk, BoxHandler.step, if_neg hfind]
    · rw [hk]
      rfl
    · rintro f ⟨⟩
    · rw [hk]
      exact fun q => rfl
    · refine h.stillDecided ?_ rfl
      rw [hk]
      rfl

/-- A handle that is free is free in the broker that is behind. -/
theorem Behind.nextHandle {f : Nat} (hbehind : Behind b₀ b fs)
    (hfree : ∀ f, fs.freeOpenFileEntries f = .free → b₀.fs.freeOpenFileEntries f = .free)
    (hf : fs.nextHandle = some f) : ∃ f', b.fs.nextHandle = some f' := by
  obtain ⟨hlt, hfreef, -⟩ := SlotTable.firstFit_eq_some.mp hf
  have hparams : b.fs.fsParams = fs.fsParams := by
    rw [hbehind.tables]
    rfl
  refine Option.ne_none_iff_exists'.mp fun hnone => ?_
  have htaken := SlotTable.firstFit_eq_none.mp hnone f (hparams ▸ hlt)
  rw [isFree, hbehind.free, hfree f (by simpa [isFree] using hfreef)] at htaken
  cases htaken

theorem Inv.createOpen (h : Inv b₀ requests s) (hk : s.handlers k = .create boxName box .tfsOpen)
    (hleft : s.broker.fs.nextHandle ≠ none)
    (hok : tfsLookup (boxPath boxName) 0 s.broker.fs = .ok (-1)) : Goes b₀ requests k s := by
  have hrequest : requests k = .create boxName box := by
    rw [← h.request, hk]
    rfl
  have hpromised : (s.handlers k).promised = none := by
    rw [hk]
    rfl
  have hno := not_inDir_of_tfsLookup h.inv hok
  have hopen := h.inv.tfsOpen_new (p := boxPath boxName) hno
  have hnames := fun q => h.inv.inDir_newFile (p := boxPath boxName) (q := q)
  obtain ⟨-, -, hfree⟩ := s.broker.fs.newFile_tables (p := boxPath boxName)
  -- The broker that is behind comes to the same tables.
  obtain ⟨order, b, hexplains, hbehind⟩ := h.decided
  have hno' : ¬ b.fs.InDir boxName := hbehind.inDir.not.mpr hno
  have hnew := b.fs.newFile_withHandles (boxPath boxName) s.broker.fs.openFileTable
    s.broker.fs.freeOpenFileEntries
  rw [← hbehind.tables] at hnew
  have hfst := congrArg Prod.fst hnew
  have hsnd := congrArg Prod.snd hnew
  dsimp only at hfst hsnd
  cases hinode : (s.broker.fs.newFile (boxPath boxName)).1 with
  | none =>
    rw [TfsState.openNew, hinode] at hopen
    refine ⟨.create boxName box (.replied (-1)),
      ⟨(s.broker.fs.newFile (boxPath boxName)).2, s.broker.table⟩, ?_,
      h.advance ?_ (h.inv.of_tfsOpen hopen) ?_ ?_ ?_ ?_⟩
    · rw [hk, BoxHandler.step, hopen]
      rfl
    · rw [hk]
      rfl
    · rw [hfree]
      exact h.free
    · rintro f ⟨⟩
    · intro q
      have hsame : (s.broker.fs.newFile (boxPath boxName)).2.InDir q ↔ s.broker.fs.InDir q := by
        rw [hnames, hinode]
        simp
      rw [hk, present_congr hsame]
      rfl
    · obtain ⟨hrun, hconsistent⟩ :=
        hbehind.consistent.createBox_full box hno' (hfst.symm.trans hinode)
      refine ⟨order ++ [k], _, hexplains.append hpromised ?_, hconsistent, ?_, ?_⟩
      · rw [hrequest]
        exact hrun
      · exact (TfsState.newFile_tables.2.2).trans hbehind.free
      · dsimp only
        rw [hsnd]
        rfl
  | some inum =>
    obtain ⟨f, hf⟩ := Option.ne_none_iff_exists'.mp hleft
    obtain ⟨hlt, hfreef, -⟩ := SlotTable.firstFit_eq_some.mp hf
    have hf' : (s.broker.fs.newFile (boxPath boxName)).2.nextHandle = some f :=
      TfsState.nextHandle_newFile.trans hf
    rw [TfsState.openNew, hinode] at hopen
    dsimp only at hopen
    rw [TfsState.addToOpenFileTable_some hf'] at hopen
    refine ⟨.create boxName box (.tfsClose f),
      ⟨(s.broker.fs.newFile (boxPath boxName)).2.openHandle f inum 0, s.broker.table⟩, ?_,
      h.advance ?_ (h.inv.of_tfsOpen hopen) ?_ ?_ ?_ ?_⟩
    · rw [hk, BoxHandler.step, hopen, Outcome.ok_bind]
      dsimp only
      rw [if_neg (by omega)]
      rfl
    · rw [hk]
      rfl
    · intro f' hf'
      dsimp only [TfsState.openHandle] at hf'
      by_cases heq : f' = f
      · simp [heq] at hf'
      · rw [Function.update_of_ne heq, hfree] at hf'
        exact h.free f' hf'
    · intro f' hf'
      obtain rfl : f = f' := by simpa [BoxHandler.opened] using hf'
      exact h.free f (by simpa [isFree] using hfreef)
    · intro q
      have hinsert : ((s.broker.fs.newFile (boxPath boxName)).2.openHandle f inum 0).InDir q ↔
          s.broker.fs.InDir q ∨ q = boxName := by
        rw [TfsState.openHandle_eq, TfsState.inDir_withHandles, hnames, hinode]
        simp [skipSlash_boxPath]
      dsimp only
      rw [hk, present_insert hinsert hno]
      simp only [BoxHandler.owes]
      ring
    · obtain ⟨f', hf'⟩ := hbehind.nextHandle h.free hf
      obtain ⟨entries, table, hrun, hconsistent⟩ :=
        hbehind.consistent.createBox_new box hno' (hfst.symm.trans hinode) hf'
      refine ⟨order ++ [k], _, hexplains.append hpromised ?_, hconsistent, hbehind.free, ?_⟩
      · rw [hrequest]
        exact hrun
      · dsimp only
        rw [hsnd]
        rfl

theorem Inv.createClose {boxHandle : Int} (h : Inv b₀ requests s)
    (hk : s.handlers k = .create boxName box (.tfsClose boxHandle)) : Goes b₀ requests k s := by
  obtain ⟨r, fs, hclose, hfs, hfree⟩ := TfsState.tfsClose_withHandles s.broker.fs boxHandle
  refine ⟨.create boxName box .addBox, ⟨fs, s.broker.table⟩, ?_,
    h.advance ?_ (h.inv.of_tfsClose hclose) (fun f hf => ?_) ?_ (fun q => ?_)
      (h.stillDecided ?_ ?_)⟩
  · rw [hk, BoxHandler.step, hclose]
    rfl
  · rw [hk]
    rfl
  · rcases hfree f hf with hold | hown
    · exact h.free f hold
    · exact h.own k f (by rw [hk, BoxHandler.opened, hown])
  · rintro f ⟨⟩
  · have hsame : fs.InDir q ↔ s.broker.fs.InDir q := by
      rw [hfs]
      exact Iff.rfl
    rw [hk, present_congr hsame]
    rfl
  · rw [hk]
    rfl
  · dsimp only
    rw [hfs]
    rfl

theorem Inv.createAdd (h : Inv b₀ requests s) (hk : s.handlers k = .create boxName box .addBox)
    (hok : s.broker.table.nBoxes < maxBoxes) : Goes b₀ requests k s := by
  obtain ⟨table, hadd⟩ := BoxTable.addBox_returns
    { box with boxSize := 0, nPublishers := 0, nSubscribers := 0, boxName := boxName } hok
  refine ⟨.create boxName box (.replied 0), ⟨s.broker.fs, table⟩, ?_,
    h.advance ?_ h.inv h.free ?_ (fun q => ?_) (h.stillDecided ?_ rfl)⟩
  · rw [hk, BoxHandler.step, hadd]
    rfl
  · rw [hk]
    rfl
  · rintro f ⟨⟩
  · dsimp only
    rw [hk, BoxTable.count_addBox hadd]
    simp only [BoxHandler.owes]
    push_cast
    ring
  · rw [hk]
    rfl

/-! ### The calls of `remove_box` -/

theorem Inv.removeUnlink (h : Inv b₀ requests s) (hk : s.handlers k = .remove boxName .tfsUnlink) :
    Goes b₀ requests k s := by
  have hrequest : requests k = .remove boxName := by
    rw [← h.request, hk]
    rfl
  have hpromised : (s.handlers k).promised = none := by
    rw [hk]
    rfl
  obtain ⟨order, b, hexplains, hbehind⟩ := h.decided
  by_cases hin : s.broker.fs.InDir boxName
  · have hin' := hbehind.inDir.mpr hin
    have hv := validPathname_of_inDir h.inv hin
    obtain ⟨fs', hunlink', -, hparams, hfree, hnames, htables⟩ :=
      hbehind.consistent.inv.tfsUnlink_found (p := boxPath boxName) hv hin'
    have hunlink := htables s.broker.fs.openFileTable s.broker.fs.freeOpenFileEntries
      (hbehind.tables ▸ h.inv)
    rw [← hbehind.tables] at hunlink
    obtain ⟨table, hrun, hconsistent⟩ :=
      hbehind.consistent.removeBox_found hin' hunlink' hparams hnames
    refine ⟨.remove boxName .findBox, ⟨fs'.withHandles s.broker.fs.openFileTable
      s.broker.fs.freeOpenFileEntries, s.broker.table⟩, ?_,
      h.advance ?_ (h.inv.of_tfsUnlink hunlink) h.free ?_ (fun q => ?_) ?_⟩
    · rw [hk, BoxHandler.step, hunlink]
      rfl
    · rw [hk]
      rfl
    · rintro f ⟨⟩
    · have herase : (fs'.withHandles s.broker.fs.openFileTable
          s.broker.fs.freeOpenFileEntries).InDir q ↔ s.broker.fs.InDir q ∧ q ≠ boxName := by
        rw [TfsState.inDir_withHandles, hnames, hbehind.inDir]
        exact Iff.rfl
      dsimp only
      rw [hk, present_erase herase hin]
      simp only [BoxHandler.owes]
      ring
    · refine ⟨order ++ [k], _, hexplains.append hpromised ?_, hconsistent, hfree.trans hbehind.free,
        rfl⟩
      rw [hrequest]
      exact hrun
  · have hunlink := h.inv.tfsUnlink_missing (p := boxPath boxName) hin
    refine ⟨.remove boxName (.replied (-1)), s.broker, ?_,
      h.advance ?_ h.inv h.free ?_ (fun q => ?_) ?_⟩
    · rw [hk, BoxHandler.step, hunlink]
      rfl
    · rw [hk]
      rfl
    · rintro f ⟨⟩
    · rw [hk]
      rfl
    · refine ⟨order ++ [k], b, hexplains.append hpromised ?_, hbehind⟩
      rw [hrequest]
      exact hbehind.consistent.removeBox_missing (hbehind.inDir.not.mpr hin)

theorem Inv.removeFind (h : Inv b₀ requests s) (hk : s.handlers k = .remove boxName .findBox)
    (hok : findBox boxName s.broker.table ≠ -1) : Goes b₀ requests k s := by
  refine ⟨.remove boxName (.deleteBox (findBox boxName s.broker.table)), s.broker, ?_,
    h.advance ?_ h.inv h.free ?_ (fun q => ?_) (h.stillDecided ?_ rfl)⟩
  · rw [hk, BoxHandler.step, if_neg hok]
  · rw [hk]
    rfl
  · rintro f ⟨⟩
  · rw [hk]
    rfl
  · rw [hk]
    rfl

theorem Inv.removeDelete {boxIndex : Int} (h : Inv b₀ requests s)
    (hk : s.handlers k = .remove boxName (.deleteBox boxIndex))
    (hn : s.broker.table.nBoxes < maxBoxes)
    (hok : ∃ i < s.broker.table.nBoxes, boxIndex = i ∧ s.broker.table.name i = boxName) :
    Goes b₀ requests k s := by
  obtain ⟨i, hi, rfl, hname⟩ := hok
  obtain ⟨table, hdelete⟩ := BoxTable.deleteBox_returns hi hn
  refine ⟨.remove boxName (.replied 0), ⟨s.broker.fs, table⟩, ?_,
    h.advance ?_ h.inv h.free ?_ (fun q => ?_) (h.stillDecided ?_ rfl)⟩
  · rw [hk, BoxHandler.step, hdelete]
    rfl
  · rw [hk]
    rfl
  · rintro f ⟨⟩
  · rw [hk, ← BoxTable.count_deleteBox hdelete hi, hname]
    simp only [BoxHandler.owes]
    split <;> simp
  · rw [hk]
    rfl

/-! ### Runs -/

theorem Inv.goes (h : Inv b₀ requests s) (hleft : (s.handlers k).HandleLeft s.broker)
    (hok : (s.handlers k).Permitted s.broker) : Goes b₀ requests k s := by
  -- The handler has replied.
  have hdone : (s.handlers k).step s.broker = .ok (s.handlers k, s.broker) →
      Goes b₀ requests k s := by
    refine fun hstep => ⟨_, _, hstep, ?_⟩
    rw [Function.update_eq_self]
    exact h
  match hk : s.handlers k with
  | .create boxName box .findBox => exact h.createFind hk
  | .create boxName box .tfsOpen =>
    rw [hk] at hleft hok
    exact h.createOpen hk hleft hok
  | .create boxName box (.tfsClose boxHandle) => exact h.createClose hk
  | .create boxName box .addBox =>
    rw [hk] at hok
    exact h.createAdd hk hok
  | .create boxName box (.replied r) => exact hdone (by rw [hk]; rfl)
  | .remove boxName .tfsUnlink => exact h.removeUnlink hk
  | .remove boxName .findBox =>
    rw [hk] at hok
    exact h.removeFind hk hok
  | .remove boxName (.deleteBox boxIndex) =>
    rw [hk] at hok
    exact h.removeDelete hk hok.1 hok.2
  | .remove boxName (.replied r) => exact hdone (by rw [hk]; rfl)

/-- **The step lemma.** -/
theorem Inv.step (h : Inv b₀ requests s) (hleft : (s.handlers k).HandleLeft s.broker)
    (hok : (s.handlers k).Permitted s.broker) :
    ∃ r s', RequestState.step k s = .ok (r, s') ∧ Inv b₀ requests s' := by
  obtain ⟨handler, b, hstep, hinv⟩ := h.goes hleft hok
  refine ⟨(), _, ?_, hinv⟩
  rw [RequestState.step, hstep]
  rfl

omit [DecidableEq ι] in
/-- When all have replied, nothing is owed. -/
theorem Inv.linearizable (h : Inv b₀ requests s) (hall : ∀ k, (s.handlers k).reply ≠ none) :
    Linearizable b₀ requests s := by
  have hreply : ∀ k, (s.handlers k).reply = (s.handlers k).promised := by
    intro k
    obtain ⟨r, hr⟩ := Option.ne_none_iff_exists'.mp (hall k)
    rw [hr, BoxHandler.promised_of_reply hr]
  have hcount : ∀ q, (s.broker.table.count q : ℤ) = present s.broker.fs q := by
    intro q
    have howes : ∑ k, (s.handlers k).owes q = 0 := by
      refine Finset.sum_eq_zero fun k _ => ?_
      obtain ⟨r, hr⟩ := Option.ne_none_iff_exists'.mp (hall k)
      exact BoxHandler.owes_of_reply hr
    rw [← h.balanced q, howes, add_zero]
  have hnames : ∀ q, s.broker.table.Holds q ↔ s.broker.fs.InDir q := by
    intro q
    have hq := hcount q
    rw [← BoxTable.count_pos]
    by_cases hin : s.broker.fs.InDir q
    · rw [present_of_inDir hin] at hq
      exact ⟨fun _ => hin, fun _ => by omega⟩
    · rw [present_of_not hin] at hq
      exact ⟨fun hpos => by omega, fun h' => absurd h' hin⟩
  obtain ⟨order, b, hexplains, hbehind⟩ := h.decided
  obtain ⟨rs, hrun, hanswer⟩ := hexplains.runs
  refine ⟨BoxTable.distinct_iff_count.mpr fun q => ?_, hnames, order, rs, b, hexplains.nodup,
    fun k => (hexplains.mem k).mpr (hreply k ▸ hall k), hrun, ?_, fun q => ?_⟩
  · have hq := hcount q
    by_cases hin : s.broker.fs.InDir q
    · rw [present_of_inDir hin] at hq
      omega
    · rw [present_of_not hin] at hq
      omega
  · rw [← hanswer]
    exact List.map_congr_left fun k _ => hreply k
  · rw [hbehind.consistent.names, hbehind.inDir, hnames]

end RequestState

open RequestState in
/-- **Linearizability.**  Whatever the order of the calls: as long as every file that
is created is new, every removal finds its box, and deletes it at the index where it
is, no call faults, and once all handlers have replied the boxes are those of the
directory, and the replies and the boxes those of an order of the requests. -/
theorem linearizable_of_permitted {ι : Type} [Fintype ι] [DecidableEq ι] {b₀ : Broker}
    {requests : ι → BoxRequest} {calls : List ι} (hb : b₀.Consistent)
    (hleft : ∀ k s, Outcome.Reaches step calls (start b₀ requests) k s →
      (s.handlers k).HandleLeft s.broker)
    (hok : ∀ k s, Outcome.Reaches step calls (start b₀ requests) k s →
      (s.handlers k).Permitted s.broker) :
    ∃ rs s, Outcome.runList step calls (start b₀ requests) = .ok (rs, s) ∧
      ((∀ k, (s.handlers k).reply ≠ none) → Linearizable b₀ requests s) := by
  have hstep : ∀ k s, Inv b₀ requests s →
      (s.handlers k).HandleLeft s.broker ∧ (s.handlers k).Permitted s.broker →
      ∃ r s', step k s = .ok (r, s') ∧ Inv b₀ requests s' := fun k s h hk => h.step hk.1 hk.2
  obtain ⟨rs, s, hrun, hinv⟩ := Outcome.runList_safe hstep
    (fun k s hreach => ⟨hleft k s hreach, hok k s hreach⟩) (inv_start hb)
  exact ⟨rs, s, hrun, hinv.linearizable⟩

/-- The broker when `tfs_init(NULL)` has returned. -/
theorem consistent_start {fs : TfsState} (h : Started none fs) :
    Broker.Consistent ⟨fs, .empty⟩ := by
  have hfresh := h.fresh inRange_tfsDefaultParams
  refine ⟨hfresh.inv, h.fsParams inRange_tfsDefaultParams, fun i hi => absurd hi (Nat.not_lt_zero i),
    fun q => ⟨?_, ?_⟩⟩
  · rintro ⟨i, hi, -⟩
    exact absurd hi (Nat.not_lt_zero i)
  · rintro ⟨j, hj⟩
    exact absurd (hfresh.inv.isFile_of_hasFile hj) (hfresh.noFile j)

/-- Two creations and a removal. -/
def threeRequests : Fin 3 → BoxRequest
  | 0 => .create (.ofBuffer [97]) .zero
  | 1 => .create (.ofBuffer [98]) .zero
  | 2 => .remove (.ofBuffer [97])

open RequestState in
theorem linearizable_threeRequests :
    ∃ rs s, Outcome.runList step [0, 1, 0, 1, 0, 0, 2, 1, 2, 1, 2]
      (start ⟨initial, .empty⟩ threeRequests) = .ok (rs, s) ∧
      Linearizable ⟨initial, .empty⟩ threeRequests s := by
  have hleft : Outcome.Meets (fun k s => (s.handlers k).HandleLeft s.broker) step
      [0, 1, 0, 1, 0, 0, 2, 1, 2, 1, 2] (start ⟨initial, .empty⟩ threeRequests) := by
    decide +kernel
  have hok : Outcome.Meets (fun k s => (s.handlers k).Permitted s.broker) step
      [0, 1, 0, 1, 0, 0, 2, 1, 2, 1, 2] (start ⟨initial, .empty⟩ threeRequests) := by
    decide +kernel
  obtain ⟨rs, s, hrun, hlinearizable⟩ :=
    linearizable_of_permitted (consistent_start started_initial)
    (fun k s hreach => hleft.reaches hreach) fun k s hreach => hok.reaches hreach
  refine ⟨rs, s, hrun, hlinearizable ?_⟩
  have h : (Outcome.runList step [0, 1, 0, 1, 0, 0, 2, 1, 2, 1, 2]
      (start ⟨initial, .empty⟩ threeRequests)).map
        (fun p => decide (∀ k, (p.2.handlers k).reply ≠ none)) =
      .ok true := by
    decide +kernel
  rw [hrun] at h
  exact of_decide_eq_true (Outcome.ok.inj h)

/-- Two creations of one name. -/
def sameName : Fin 2 → BoxRequest := fun _ => .create (.ofBuffer [97]) .zero

open RequestState in
/-- Both look for the box before either has added it: both succeed, and there are two
boxes of one name. -/
theorem not_linearizable_sameName :
    Broker.Consistent ⟨initial, .empty⟩ ∧
      Outcome.Meets (fun k s => (s.handlers k).HandleLeft s.broker) step
        [0, 1, 0, 1, 0, 1, 0, 1] (start ⟨initial, .empty⟩ sameName) ∧
      ∃ rs s, Outcome.runList step [0, 1, 0, 1, 0, 1, 0, 1] (start ⟨initial, .empty⟩ sameName) =
          .ok (rs, s) ∧
        (∀ k, (s.handlers k).reply = some 0) ∧ ¬ Linearizable ⟨initial, .empty⟩ sameName s := by
  refine ⟨consistent_start started_initial, by decide +kernel, ?_⟩
  have h : (Outcome.runList step [0, 1, 0, 1, 0, 1, 0, 1]
      (start ⟨initial, .empty⟩ sameName)).map (fun p =>
        (decide (∀ k, (p.2.handlers k).reply = some 0), p.2.broker.table.nBoxes,
          p.2.broker.table.name 0, p.2.broker.table.name 1)) =
      .ok (true, 2, .ofBuffer [97], .ofBuffer [97]) := by
    decide +kernel
  obtain ⟨⟨rs, s⟩, hrun, hs⟩ := Outcome.map_eq_ok.mp h
  simp only [Prod.mk.injEq] at hs
  obtain ⟨hall, hn, h0, h1⟩ := hs
  refine ⟨rs, s, hrun, of_decide_eq_true hall, fun hlinearizable => ?_⟩
  have heq := hlinearizable.distinct 0 (by omega) 1 (by omega) (h0.trans h1.symm)
  exact absurd heq (by decide)

end Mbroker
