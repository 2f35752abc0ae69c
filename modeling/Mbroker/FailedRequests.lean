/-
Requests that are refused.

`create_box` and `remove_box` change the directory first and the array of boxes
after that, and a request that fails in between is not taken back.

* `createBox_allOrNothing_iff` — a creation leaves a file behind when there is room
  for the file but no entry in the table of open files;
* `removeBox_allOrNothing_iff` — a removal removes the file before it looks for the
  box, and only the first box of the name;
* **`allOrNothing_iff`** — when a request either goes through in both stores or changes
  nothing, in every state that the broker gets to.
-/
import Mbroker.BoxRequests
import Mbroker.BrokerRuns

namespace Mbroker

open Tfs

/-- Neither the boxes nor the files, with what is in them, are any different. -/
def Broker.Unchanged (b b' : Broker) : Prop :=
  b'.table = b.table ∧ b'.fs.readFile = b.fs.readFile

/-- The boxes and the files are what the reply says. -/
def BoxRequest.AllOrNothing (request : BoxRequest) (b : Broker) (r : Int) (b' : Broker) : Prop :=
  (r = -1 → b.Unchanged b') ∧
    (r = 0 → match request with
      | .create boxName _ => b'.table.Holds boxName ∧ b'.fs.InDir boxName
      | .remove boxName => ¬ b'.table.Holds boxName ∧ ¬ b'.fs.InDir boxName)

/-- Neither a box nor a file has the name, there is room for the file, and the table
of open files is full. -/
structure Broker.Strands (boxName : CString) (b : Broker) : Prop where
  box : ¬ b.table.Holds boxName
  file : ¬ b.fs.InDir boxName
  room : b.fs.RoomFor (boxPath boxName)
  full : b.fs.NoHandle

/-- The two stores fit the request: a file that is created can be opened, a file
that is removed has one box. -/
def BoxRequest.Fits : BoxRequest → Broker → Prop
  | .create boxName _, b => ¬ b.Strands boxName
  | .remove boxName, b => b.fs.InDir boxName → b.table.count boxName = 1

section Requests

variable {boxName : CString} {box : Box} {b b' : Broker} {r : Int} {fs : TfsState}

theorem createBox_allOrNothing_iff (hs : b.fs.Inv) (h : createBox boxName box b = .ok (r, b')) :
    (BoxRequest.create boxName box).AllOrNothing b r b' ↔ ¬ b.Strands boxName := by
  cases createBox_spec h with
  | held hheld =>
    exact iff_of_true ⟨fun _ => ⟨rfl, rfl⟩, fun h => (by cases h)⟩ fun hstrands =>
      hstrands.box hheld
  | notOpened hbox hopen =>
    -- `tfs_open` fails after it has created the file only when the table of open files is full.
    have hfiles := hs.readFile_of_tfsOpen_neg hopen
    constructor
    · rintro ⟨hunchanged, -⟩ hstrands
      exact hfiles.mp (hunchanged rfl).2 ⟨hstrands.file, hstrands.room, hstrands.full⟩
    · refine fun hno => ⟨fun _ => ⟨rfl, hfiles.mpr ?_⟩, fun h => (by cases h)⟩
      rintro ⟨hfile, hroom, hfull⟩
      exact hno ⟨hbox, hfile, hroom, hfull⟩
  | @added boxHandle _ fs _ _ hbox hne hopen hclose hadd =>
    refine iff_of_true ⟨fun h => (by cases h), fun _ => ⟨?_, ?_⟩⟩ fun hstrands => ?_
    · exact (BoxTable.holds_addBox hadd).mpr (Or.inr rfl)
    · obtain ⟨-, hin, -⟩ := hs.names_of_tfsOpen hopen
      obtain ⟨_, _, hclose', heq, -⟩ := TfsState.tfsClose_withHandles fs boxHandle
      obtain ⟨-, rfl⟩ := Prod.mk.inj (Outcome.ok.inj (hclose'.symm.trans hclose))
      rw [heq]
      exact TfsState.inDir_withHandles.mpr (hin hne)
    · exact hs.of_tfsOpen_ne_neg hne hopen ⟨hstrands.file, hstrands.room, hstrands.full⟩

theorem removeBox_allOrNothing_iff (hs : b.fs.Inv) (h : removeBox boxName b = .ok (r, b')) :
    (BoxRequest.remove boxName).AllOrNothing b r b' ↔
      (b.fs.InDir boxName → b.table.count boxName = 1) := by
  by_cases hin : b.fs.InDir boxName
  · obtain ⟨fs', hunlink', hs', -, -, hnames, -⟩ :=
      hs.tfsUnlink_found (p := boxPath boxName) (validPathname_of_inDir hs hin) hin
    have hgone : ¬ fs'.InDir boxName := fun hin' => ((hnames boxName).mp hin').2 rfl
    cases removeBox_spec h with
    | notUnlinked hunlink => cases Outcome.ok.inj (hunlink'.symm.trans hunlink)
    | notFound hne hunlink hbox =>
      -- The file is gone, and there is no box.
      obtain ⟨-, rfl⟩ := Prod.mk.inj (Outcome.ok.inj (hunlink'.symm.trans hunlink))
      refine iff_of_false (fun hall => ?_) fun hone => ?_
      · rw [hs'.inDir_iff_readFile, (hall.1 rfl).2, ← hs.inDir_iff_readFile] at hgone
        exact hgone hin
      · exact hbox (BoxTable.count_pos.mp (by rw [hone hin]; decide))
    | @deleted _ _ _ table hne hunlink hi hfind hname hdelete =>
      obtain ⟨-, rfl⟩ := Prod.mk.inj (Outcome.ok.inj (hunlink'.symm.trans hunlink))
      -- One box of the name goes with the file; whether there is another decides.
      have hcount := BoxTable.count_deleteBox hdelete hi boxName
      rw [if_pos hname] at hcount
      constructor
      · rintro ⟨-, hgone'⟩ -
        have hzero : ¬ 0 < table.count boxName := BoxTable.count_pos.not.mpr (hgone' rfl).1
        omega
      · refine fun hone => ⟨fun h => (by cases h), fun _ => ⟨fun hheld => ?_, hgone⟩⟩
        have hpos : 0 < table.count boxName := BoxTable.count_pos.mpr hheld
        have hone := hone hin
        omega
  · rw [removeBox, hs.tfsUnlink_missing (p := boxPath boxName) hin] at h
    obtain ⟨rfl, rfl⟩ := Prod.mk.inj (Outcome.ok.inj h)
    exact iff_of_true ⟨fun _ => ⟨rfl, rfl⟩, fun h => (by cases h)⟩ fun hin' => absurd hin' hin

theorem BoxRequest.allOrNothing_iff_fits {request : BoxRequest} (hs : b.fs.Inv)
    (h : request.run b = .ok (r, b')) : request.AllOrNothing b r b' ↔ request.Fits b := by
  cases request with
  | create boxName box => exact createBox_allOrNothing_iff hs h
  | remove boxName => exact removeBox_allOrNothing_iff hs h

end Requests

/-! ### The states that the broker gets to -/

section Runs

open BrokerState

/-- **A request goes through in both stores or changes nothing**, in whatever state the
handlers have brought the broker to, exactly when the two stores fit it. -/
theorem allOrNothing_iff {fs : TfsState} {turns : List BrokerTurn} {rs : List Unit}
    {s : BrokerState} {request : BoxRequest} {r : Int} {b : Broker} (hfs : Started none fs)
    (hrun : Outcome.runList step turns (start ⟨fs, .empty⟩) = .ok (rs, s))
    (hrequest : request.run s.broker = .ok (r, b)) :
    request.AllOrNothing s.broker r b ↔ request.Fits s.broker := by
  have hinv : s.broker.fs.Inv := Outcome.runList_invariant (fun t s r s' hs h => fsInv_step hs h)
    (hfs.fresh inRange_tfsDefaultParams).inv hrun
  exact BoxRequest.allOrNothing_iff_fits hinv hrequest

/-- A box is created, and removed. -/
theorem allOrNothing_removeA :
    ∃ rs s b, Outcome.runList step createA (start ⟨initial, .empty⟩) = .ok (rs, s) ∧
      (BoxRequest.remove (.ofBuffer [97])).run s.broker = .ok (0, b) ∧
      (BoxRequest.remove (.ofBuffer [97])).AllOrNothing s.broker 0 b := by
  have hresult : (Outcome.runList step createA (start ⟨initial, .empty⟩)).map (fun p =>
      (p.2.broker.table.count (.ofBuffer [97]),
        ((BoxRequest.remove (.ofBuffer [97])).run p.2.broker).map Prod.fst)) = .ok (1, .ok 0) := by
    decide +kernel
  obtain ⟨⟨rs, s⟩, hrun, heq⟩ := Outcome.map_eq_ok.mp hresult
  obtain ⟨hcount, hremove⟩ := Prod.mk.inj heq
  obtain ⟨⟨r, b⟩, hrequest, rfl⟩ := Outcome.map_eq_ok.mp hremove
  exact ⟨rs, s, b, hrun, hrequest,
    (allOrNothing_iff started_initial hrun hrequest).mpr fun _ => hcount⟩

/-- Box `a` is created; while a publisher of it is there, seven more are turned away;
it goes, and another one comes and goes. -/
def ninePublishers : List BrokerTurn :=
  createA ++ .start 1 (.publisher pipeP nameA) ⟨.zero, 0, []⟩ :: List.replicate 7 (.step 1 {}) ++
    (List.range 7).flatMap (fun k =>
      .start (k + 2) (.publisher pipeQ nameA) ⟨.zero, 0, []⟩ :: List.replicate 7 (.step (k + 2) {})) ++
    List.replicate 5 (.step 1 {}) ++
    .start 9 (.publisher pipeP nameA) ⟨.zero, 0, []⟩ :: List.replicate 12 (.step 9 {})

/-- All sixteen open files are taken by handlers that have returned; now box `b` is
refused, and its file stays. -/
theorem not_allOrNothing_createB :
    ∃ rs s b, Outcome.runList step ninePublishers (start ⟨initial, .empty⟩) = .ok (rs, s) ∧
      (∀ k < 10, ∃ p, s.handlers k = some p ∧ p.call = none) ∧
      (BoxRequest.create (.ofBuffer [98]) .zero).run s.broker = .ok (-1, b) ∧
      ¬ (BoxRequest.create (.ofBuffer [98]) .zero).AllOrNothing s.broker (-1) b := by
  have hresult : (Outcome.runList step ninePublishers (start ⟨initial, .empty⟩)).map (fun p =>
      (decide (∀ k < 10, (p.2.handlers k).any fun q => q.call.isNone),
        p.2.broker.fs.readFile (.ofBuffer [98]),
        ((BoxRequest.create (.ofBuffer [98]) .zero).run p.2.broker).map fun r =>
          (r.1, r.2.fs.readFile (.ofBuffer [98])))) = .ok (true, none, .ok (-1, some [])) := by
    decide +kernel
  obtain ⟨⟨rs, s⟩, hrun, heq⟩ := Outcome.map_eq_ok.mp hresult
  simp only [Prod.mk.injEq, decide_eq_true_eq] at heq
  obtain ⟨hreturned, hbefore, hcreate⟩ := heq
  obtain ⟨⟨r, b⟩, hrequest, heq⟩ := Outcome.map_eq_ok.mp hcreate
  obtain ⟨rfl, hafter⟩ := Prod.mk.inj heq
  refine ⟨rs, s, b, hrun, fun k hk => ?_, hrequest, fun hall => ?_⟩
  · obtain ⟨q, hq, hnone⟩ := (Option.any_eq_true _ _).mp (hreturned k hk)
    exact ⟨q, hq, Option.isNone_iff_eq_none.mp hnone⟩
  · have hsame := congrFun (hall.1 rfl).2 (.ofBuffer [98])
    exact absurd (hbefore.symm.trans (hsame.symm.trans hafter)) (Option.some_ne_none _).symm

end Runs

end Mbroker
