/-
A handler that makes its calls with no other in between.

Such a handler does what it does when it is run to its end, or as far as it goes before it
waits for its client, whatever the pipes and the mutexes answer.

* `createBox_alone`, `removeBox_alone` — a creation and a removal;
* `registerSubscriber_alone` — a registration, up to the loop of `read_messages`;
* `publisherFunction_alone`, `receiveMessage_alone`, `endSession_alone` — a publisher's
  session, message by message;
* `runList_alone` — they are runs of the broker.
-/
import Mbroker.BrokerRuns

namespace Mbroker

open Tfs

namespace Program

/-- The next `n` calls of a handler; `env` are the answers that the broker does not decide. -/
def alone (env : Nat → Answer) : Nat → Program → Broker → Outcome (Program × Broker)
  | 0, p, b => .ok (p, b)
  | n + 1, p, b =>
    match p.call with
    | none => .ok (p, b)
    | some call => do
      let (a, b) ← perform call (env 0) b
      let p ← p.resume a
      alone (fun j => env (j + 1)) n p b

variable {env : Nat → Answer} {n : Nat} {p : Program} {b : Broker} {call : Call} {code : Int}

theorem alone_zero : p.alone env 0 b = .ok (p, b) := rfl

theorem alone_succ (h : p.call = some call) : p.alone env (n + 1) b =
    perform call (env 0) b >>= fun r => p.resume r.1 >>= fun p' =>
      p'.alone (fun j => env (j + 1)) n r.2 := by
  rw [alone, h]

/-- A call that returns. -/
theorem alone_step {a : Answer} {b' : Broker} {p' : Program} (hcall : p.call = some call)
    (hperform : perform call (env 0) b = .ok (a, b')) (hresume : p.resume a = .ok p') :
    p.alone env (n + 1) b = p'.alone (fun j => env (j + 1)) n b' := by
  rw [alone_succ hcall, hperform, Outcome.ok_bind, hresume, Outcome.ok_bind]

theorem alone_tfs {c : TfsCall} {x : Outcome (Int × TfsState)} (hcall : p.call = some (.tfs c))
    (hx : tfsCall c b.fs = x >>= fun r => pure (⟨r.1, []⟩, r.2)) :
    p.alone env (n + 1) b = x >>= fun r => p.resume { ret := r.1 } >>= fun p' =>
      p'.alone (fun j => env (j + 1)) n { b with fs := r.2 } := by
  rw [alone_succ hcall, perform, hx]
  cases x <;> rfl

theorem alone_of_returned (h : p.call = none) : p.alone env n b = .ok (p, b) := by
  cases n with
  | zero => rfl
  | succ n => rw [alone, h]

/-- The return code of the reply that the handler sends to the manager. -/
def replied : Program → Option Int
  | .create ⟨.reply r, _, _, _, _⟩ => some r.returnCode
  | .remove ⟨.reply r, _, _, _⟩ => some r.returnCode
  | _ => none

end Program

/-- The calls of `reply_to_box_creation` and of `reply_to_box_removal` leave the broker. -/
theorem ReplyFrame.perform {f : ReplyFrame} {call : Call} (h : f.call = some call) (a : Answer)
    (b : Broker) : Mbroker.perform call a b = .ok (a, b) := by
  obtain ⟨place, c, pipeName, returnCode, managerPipe⟩ := f
  cases place <;> cases h <;> rfl

namespace Program

variable {env : Nat → Answer} {n : Nat} {p : Program} {b : Broker} {code : Int}

/-- The rest of a creation or a removal is its reply. -/
theorem alone_of_replied (h : p.replied = some code) :
    (p.alone env n b).map (fun r => (r.1.replied, r.2)) = .ok (some code, b) := by
  induction n generalizing env p with
  | zero => rw [alone_zero, Outcome.map, h]
  | succ n ih =>
    cases hcall : p.call with
    | none => rw [alone_of_returned hcall, Outcome.map, h]
    | some call =>
      rw [alone_succ hcall]
      cases p with
      | publisher => cases h
      | subscriber => cases h
      | list => cases h
      | create f =>
        obtain ⟨place, pipeName, boxName, box, boxHandle⟩ := f
        cases place with
        | reply r =>
          rw [ReplyFrame.perform hcall]
          exact ih ((congrArg some (ReplyFrame.returnCode_resume _)).trans h)
        | _ => cases h
      | remove f =>
        obtain ⟨place, pipeName, boxName, boxIndex⟩ := f
        cases place with
        | reply r =>
          rw [ReplyFrame.perform hcall]
          exact ih ((congrArg some (ReplyFrame.returnCode_resume _)).trans h)
        | _ => cases h

end Program

/-! ### Creations and removals -/

section Requests

variable {env : Nat → Answer} {n : Nat} {pipeName : Name pipeNameSize}
  {boxName : Name boxNameSize} {locals : Locals} {b : Broker}

/-- **`create_box`, call by call.** -/
theorem createBox_alone (hn : 4 ≤ n) :
    ((Program.start (.create pipeName boxName) locals).alone env n b).map
        (fun r => (r.1.replied, r.2)) =
      (createBox boxName.1 locals.box b).map fun r => (some r.1, r.2) := by
  obtain ⟨n, rfl⟩ := Nat.exists_eq_add_of_le' hn
  rw [createBox, Program.start, Program.alone_succ rfl]
  by_cases hfind : findBox boxName.1 b.table ≠ -1
  · simp only [perform, Program.resume, CreateFrame.resume, if_pos hfind, Outcome.ok_bind]
    exact Program.alone_of_replied rfl
  · simp only [perform, Program.resume, CreateFrame.resume, if_neg hfind, Outcome.ok_bind]
    rw [Program.alone_tfs rfl rfl]
    rw [Outcome.map_bind, Outcome.map_bind]
    refine Outcome.bind_congr fun r hopen => ?_
    obtain ⟨boxHandle, fs⟩ := r
    dsimp only
    by_cases hneg : boxHandle = -1
    · simp only [Program.resume, CreateFrame.resume, if_pos hneg, Outcome.ok_bind]
      exact Program.alone_of_replied rfl
    · simp only [Program.resume, CreateFrame.resume, if_neg hneg, Outcome.ok_bind]
      rw [Program.alone_tfs rfl rfl]
      rw [Outcome.map_bind, Outcome.map_bind]
      refine Outcome.bind_congr fun r hclose => ?_
      simp only [Program.resume, CreateFrame.resume, Outcome.ok_bind]
      rw [Program.alone_succ rfl, perform]
      cases addBox _ b.table with
      | ok table => exact Program.alone_of_replied rfl
      | panic => rfl
      | fault => rfl

/-- **`remove_box`, call by call.** -/
theorem removeBox_alone (hn : 4 ≤ n) (hb : b.table.nBoxes ≤ maxBoxes) :
    ((Program.start (.remove pipeName boxName) locals).alone env n b).map
        (fun r => (r.1.replied, r.2)) =
      (removeBox boxName.1 b).map fun r => (some r.1, r.2) := by
  obtain ⟨n, rfl⟩ := Nat.exists_eq_add_of_le' hn
  rw [removeBox, Program.start, Program.alone_tfs rfl rfl]
  rw [Outcome.map_bind, Outcome.map_bind]
  refine Outcome.bind_congr fun r hunlink => ?_
  obtain ⟨unlinked, fs⟩ := r
  dsimp only
  by_cases hneg : unlinked = -1
  · simp only [Program.resume, RemoveFrame.resume, if_pos hneg, Outcome.ok_bind]
    exact Program.alone_of_replied rfl
  · simp only [Program.resume, RemoveFrame.resume, if_neg hneg, Outcome.ok_bind]
    rw [Program.alone_succ rfl]
    by_cases hfind : findBox boxName.1 b.table = -1
    · simp only [perform, Program.resume, RemoveFrame.resume, if_pos hfind, Outcome.ok_bind]
      exact Program.alone_of_replied rfl
    · simp only [perform, Program.resume, RemoveFrame.resume, if_neg hfind, Outcome.ok_bind]
      have hindex := BoxTable.findBox_index hb hfind
      rw [Program.alone_succ rfl, perform, atBox_of_mem hindex]
      simp only [Program.resume, RemoveFrame.resume, Outcome.ok_bind]
      rw [Program.alone_succ rfl, perform]
      cases deleteBox (findBox boxName.1 b.table) b.table with
      | ok table => exact Program.alone_of_replied rfl
      | panic => rfl
      | fault => rfl

end Requests

/-! ### Subscribers -/

section Subscribers

variable {env : Nat → Answer} {pipeName : Name pipeNameSize} {boxName : Name boxNameSize}
  {locals : Locals} {b : Broker}

/-- The variables of a subscriber's handler that is at the start of its loop. -/
def Program.loopStart : Program → Option SubscriberFrame
  | .subscriber f => if f.place = .findAgain then some f else none
  | _ => none

/-- **`register_subscriber`, call by call**: the seventh opens the client's pipe. -/
theorem registerSubscriber_alone (hb : b.table.nBoxes ≤ maxBoxes) :
    ((Program.start (.subscriber pipeName boxName) locals).alone env 7 b).map
        (fun r => (r.1.loopStart, r.2)) =
      (registerSubscriber pipeName.1 boxName.1 b).map fun r =>
        (r.1.map fun boxHandle =>
          subscriberSession pipeName.1 boxName.1 boxHandle (env 6).ret locals r.2.table, r.2) := by
  rw [registerSubscriber, Program.start, Program.alone_succ rfl]
  by_cases hfind : findBox boxName.1 b.table = -1
  · have hlt : findBox boxName.1 b.table < 0 := by omega
    simp only [perform, Program.resume, SubscriberFrame.resume, if_pos hlt, if_pos hfind,
      Outcome.ok_bind, Outcome.pure_eq_ok]
    rw [Program.alone_tfs rfl rfl, Outcome.map_bind, Outcome.map_bind]
    refine Outcome.bind_congr fun r hopen => ?_
    obtain ⟨boxHandle, fs⟩ := r
    simp only [Program.resume, SubscriberFrame.resume, Outcome.ok_bind, Outcome.pure_eq_ok]
    -- Without its box, the session closes its pipe and returns.
    rw [Program.alone_step rfl rfl rfl, Program.alone_step rfl rfl rfl, Program.alone_succ rfl]
    simp only [perform, Program.resume, SubscriberFrame.resume, SubscriberFrame.startLoop,
      if_pos (Or.inr hfind), Outcome.ok_bind, Outcome.pure_eq_ok]
    rw [Program.alone_step rfl rfl rfl, Program.alone_of_returned rfl]
    rfl
  · have hindex := BoxTable.findBox_index hb hfind
    have hlt : ¬ findBox boxName.1 b.table < 0 := by omega
    simp only [perform, Program.resume, SubscriberFrame.resume, if_neg hlt, if_neg hfind,
      Outcome.ok_bind, Outcome.pure_eq_ok]
    -- `register_subscriber` calls `find_box` twice.
    rw [Program.alone_succ rfl]
    simp only [perform, Program.resume, SubscriberFrame.resume, if_neg hfind, Outcome.ok_bind,
      Outcome.pure_eq_ok]
    rw [Program.alone_succ rfl, perform, atBox_of_mem hindex]
    simp only [Program.resume, SubscriberFrame.resume, Outcome.ok_bind, Outcome.pure_eq_ok]
    rw [Program.alone_succ rfl, perform, atBox_of_mem hindex]
    cases hadd : addSubscriberToBox (findBox boxName.1 b.table).toNat pipeName.1 (b.table.modify
        (findBox boxName.1 b.table).toNat fun box =>
          { box with nSubscribers := box.nSubscribers + 1 }) with
    | panic => rfl
    | fault => rfl
    | ok table =>
      simp only [Program.resume, SubscriberFrame.resume, Outcome.ok_bind, Outcome.pure_eq_ok]
      rw [Program.alone_tfs rfl rfl, Outcome.map_bind, Outcome.map_bind]
      refine Outcome.bind_congr fun r hopen => ?_
      obtain ⟨boxHandle, fs⟩ := r
      -- The name is where it was, so `read_messages` finds the box as well.
      have hfind' : findBox boxName.1 table ≠ -1 := by
        have hregistered := BoxTable.registered hadd
        rw [BoxTable.findBox_congr hregistered.nBoxes hregistered.name]
        exact hfind
      simp only [Program.resume, SubscriberFrame.resume, Outcome.ok_bind, Outcome.pure_eq_ok]
      rw [Program.alone_step rfl rfl rfl, Program.alone_succ rfl]
      simp only [perform, Program.resume, SubscriberFrame.resume, SubscriberFrame.startLoop,
        if_true, hfind', or_false, Outcome.ok_bind, Outcome.pure_eq_ok]
      by_cases hneg : boxHandle = -1
      · simp only [if_pos hneg]
        rfl
      · simp only [if_neg hneg]
        rw [Program.alone_zero]
        rfl

end Subscribers

/-! ### Publishers -/

section Publishers

variable {env : Nat → Answer} {pipeName : Name pipeNameSize} {boxName : Name boxNameSize}
  {locals : Locals} {b : Broker} {f : PublisherFrame}

/-- The session of a publisher whose handler waits for its client. -/
def PublisherFrame.session (f : PublisherFrame) : PublisherSession :=
  ⟨f.boxName, f.sessionHandle, f.boxIndex⟩

def Program.session : Program → Option PublisherSession
  | .publisher f => if f.place = .readCode then some f.session else none
  | _ => none

/-- **`publisher_function`, call by call.** -/
theorem publisherFunction_alone (hb : b.table.nBoxes ≤ maxBoxes) :
    ((Program.start (.publisher pipeName boxName) locals).alone env 7 b).map
        (fun r => (r.1.session, r.2)) = publisherFunction pipeName.1 boxName.1 b := by
  rw [publisherFunction, Program.start, Program.alone_tfs rfl rfl, Outcome.map_bind]
  refine Outcome.bind_congr fun r hopen => ?_
  obtain ⟨boxHandle, fs⟩ := r
  simp only [Program.resume, PublisherFrame.resume, Outcome.ok_bind, Outcome.pure_eq_ok]
  rw [Program.alone_succ rfl]
  by_cases hfind : findBox boxName.1 b.table = -1 ∨ boxHandle = -1
  · simp only [perform, Program.resume, PublisherFrame.resume, if_pos hfind, Outcome.ok_bind,
      Outcome.pure_eq_ok]
    rw [Program.alone_tfs rfl rfl, Outcome.map_bind]
    refine Outcome.bind_congr fun r hreopen => ?_
    simp only [Program.resume, PublisherFrame.resume, Outcome.ok_bind, Outcome.pure_eq_ok]
    rw [Program.alone_step rfl rfl rfl, Program.alone_step rfl rfl rfl,
      Program.alone_step rfl rfl rfl, Program.alone_of_returned rfl]
    rfl
  · rw [not_or] at hfind
    have hindex := BoxTable.findBox_index hb hfind.1
    simp only [perform, Program.resume, PublisherFrame.resume, hfind.1, hfind.2, or_self, if_false,
      Outcome.ok_bind, Outcome.pure_eq_ok]
    rw [Program.alone_succ rfl, perform, atBox_of_mem hindex]
    by_cases hflag : (b.table.boxes (findBox boxName.1 b.table).toNat).nPublishers = 1
    · simp only [Program.resume, PublisherFrame.resume, hflag, Nat.cast_one, if_true,
        Outcome.ok_bind, Outcome.pure_eq_ok]
      rw [Program.alone_tfs rfl rfl, Outcome.map_bind]
      refine Outcome.bind_congr fun r hreopen => ?_
      simp only [Program.resume, PublisherFrame.resume, Outcome.ok_bind, Outcome.pure_eq_ok]
      rw [Program.alone_step rfl rfl rfl, Program.alone_step rfl rfl rfl,
        Program.alone_step rfl rfl rfl, Program.alone_of_returned rfl]
      rfl
    · have hflag' : ((b.table.boxes (findBox boxName.1 b.table).toNat).nPublishers : Int) ≠ 1 := by
        omega
      -- The two assignments to the record, and then the second `tfs_open`.
      simp only [Program.resume, PublisherFrame.resume, if_neg hflag, if_neg hflag',
        Outcome.ok_bind, Outcome.pure_eq_ok]
      rw [Program.alone_succ rfl, perform, atBox_of_mem hindex]
      simp only [Program.resume, PublisherFrame.resume, Outcome.ok_bind, Outcome.pure_eq_ok]
      rw [Program.alone_succ rfl, perform, atBox_of_mem hindex]
      simp only [Program.resume, PublisherFrame.resume, Outcome.ok_bind, Outcome.pure_eq_ok]
      rw [Program.alone_tfs rfl rfl, Outcome.map_bind]
      refine Outcome.bind_congr fun r hreopen => ?_
      simp only [Program.resume, PublisherFrame.resume, Outcome.ok_bind, Outcome.pure_eq_ok]
      rw [Program.alone_step rfl rfl rfl, Program.alone_zero, Outcome.map, BoxTable.modify_modify]
      rfl

/-- **A message, call by call**: the client has sent the code and then the message. -/
theorem receiveMessage_alone (hb : b.table.nBoxes ≤ maxBoxes) (hplace : f.place = .readCode)
    (hret : 0 < (env 0).ret) (hcode : (env 0).bytes.head? = some 9) :
    ((Program.publisher f).alone env 9 b).map (fun r => (r.1.session, r.2)) =
      receiveMessage (readInto f.buffer (env 2).bytes) f.session b := by
  obtain ⟨place, pipeName, boxName, boxHandle, boxIndex, ver, sessionHandle, pubPipe, buffer⟩ := f
  obtain rfl : place = .readCode := hplace
  rw [receiveMessage, Program.alone_succ rfl]
  simp only [perform, Program.resume, PublisherFrame.resume, hret, hcode, and_self, if_true,
    Outcome.ok_bind, Outcome.pure_eq_ok]
  rw [Program.alone_succ rfl]
  by_cases hfind : findBox boxName b.table = -1
  · simp only [perform, Program.resume, PublisherFrame.resume, PublisherFrame.session, hfind,
      if_true, Outcome.ok_bind, Outcome.pure_eq_ok]
    rw [Program.alone_step rfl rfl rfl, Program.alone_step rfl rfl rfl, Program.alone_tfs rfl rfl,
      Outcome.map_bind]
    refine Outcome.bind_congr fun r hclose => ?_
    simp only [Program.resume, PublisherFrame.resume, Outcome.ok_bind, Outcome.pure_eq_ok]
    rw [Program.alone_of_returned rfl]
    rfl
  · have hindex := BoxTable.findBox_index hb hfind
    rw [PublisherFrame.session, if_neg hfind]
    simp only [perform, Program.resume, PublisherFrame.resume, if_neg hfind, Outcome.ok_bind,
      Outcome.pure_eq_ok]
    rw [Program.alone_succ rfl]
    by_cases hnul : 0 ∈ readInto buffer (env 2).bytes
    · simp only [perform, Program.resume, PublisherFrame.resume, if_pos hnul, Outcome.ok_bind,
        Outcome.pure_eq_ok]
      rw [Program.alone_succ rfl, perform, atBox_of_mem hindex]
      simp only [Program.resume, PublisherFrame.resume, Outcome.ok_bind, Outcome.pure_eq_ok]
      rw [if_neg (not_not.mpr hnul), writeSection, Outcome.bind_assoc,
        Program.alone_tfs (x := tfsWrite sessionHandle
          (CString.ofBuffer (readInto buffer (env 2).bytes)).bytes b.fs) rfl rfl, Outcome.map_bind]
      refine Outcome.bind_congr fun r hwrite => ?_
      simp only [Program.resume, PublisherFrame.resume, Outcome.ok_bind, Outcome.pure_eq_ok]
      rw [Program.alone_tfs rfl rfl, Outcome.map_bind, Outcome.bind_assoc]
      refine Outcome.bind_congr fun r hnul => ?_
      simp only [Program.resume, PublisherFrame.resume, Outcome.ok_bind, Outcome.pure_eq_ok]
      -- The size of the box, the broadcast and the unlock.
      rw [Program.alone_succ rfl, perform, atBox_of_mem hindex]
      simp only [Program.resume, PublisherFrame.resume, Outcome.ok_bind, Outcome.pure_eq_ok]
      rw [Program.alone_succ rfl, perform, atBox_of_mem hindex]
      simp only [Program.resume, PublisherFrame.resume, Outcome.ok_bind, Outcome.pure_eq_ok]
      rw [Program.alone_succ rfl, perform, atBox_of_mem hindex]
      rfl
    · simp only [perform, Program.resume, PublisherFrame.resume, if_neg hnul, Outcome.ok_bind,
        Outcome.pure_eq_ok]
      rw [if_pos hnul]
      rfl

/-- **The end of a session, call by call**: the client has closed its pipe. -/
theorem endSession_alone (hplace : f.place = .readCode)
    (hret : ¬ (0 < (env 0).ret ∧ (env 0).bytes.head? = some 9))
    (hindex : f.boxIndex = -1 ∨ 0 ≤ f.boxIndex ∧ f.boxIndex.toNat < maxBoxes) :
    ((Program.publisher f).alone env 5 b).map (fun r => (r.1.call, r.2)) =
      (endSession f.session b).map fun b => (none, b) := by
  obtain ⟨place, pipeName, boxName, boxHandle, boxIndex, ver, sessionHandle, pubPipe, buffer⟩ := f
  obtain rfl : place = .readCode := hplace
  rw [endSession, Program.alone_succ rfl]
  simp only [perform, Program.resume, PublisherFrame.resume, if_neg hret,
    Outcome.ok_bind, Outcome.pure_eq_ok]
  by_cases hneg : boxIndex = -1
  · simp only [PublisherFrame.session, hneg, ne_eq, not_true_eq_false, if_false, if_true,
      Outcome.ok_bind]
    rw [Program.alone_step rfl rfl rfl, Program.alone_tfs rfl rfl, Outcome.map_bind,
      Outcome.map_bind]
    refine Outcome.bind_congr fun r hclose => ?_
    simp only [Program.resume, PublisherFrame.resume, Outcome.ok_bind, Outcome.pure_eq_ok]
    rw [Program.alone_of_returned rfl]
    rfl
  · simp only [PublisherFrame.session, ne_eq, hneg, not_false_iff, if_false, if_true,
      Outcome.ok_bind]
    rw [Program.alone_succ rfl, perform, atBox_of_mem (hindex.resolve_left hneg)]
    simp only [Program.resume, PublisherFrame.resume, Outcome.ok_bind, Outcome.pure_eq_ok]
    rw [Program.alone_step rfl rfl rfl, Program.alone_step rfl rfl rfl, Program.alone_tfs rfl rfl,
      Outcome.map_bind, Outcome.map_bind]
    refine Outcome.bind_congr fun r hclose => ?_
    simp only [Program.resume, PublisherFrame.resume, Outcome.ok_bind, Outcome.pure_eq_ok]
    rfl

end Publishers

/-! ### Runs of the broker -/

namespace BrokerState

variable {env : Nat → Answer} {a : Answer} {n k : Nat} {s : BrokerState} {p : Program} {call : Call}

theorem step_of_returned (hk : s.handlers k = some p) (hcall : p.call = none) :
    step (.step k a) s = .ok ((), s) := by
  rw [step, hk]
  dsimp only
  rw [hcall]

theorem step_of_call (hk : s.handlers k = some p) (hcall : p.call = some call) :
    step (.step k a) s = perform call a s.broker >>= fun r => p.resume r.1 >>= fun p' =>
      .ok ((), { s with broker := r.2 }.setHandler k p') := by
  rw [step, hk]
  dsimp only
  rw [hcall]
  rfl

theorem setHandler_self (hk : s.handlers k = some p) : s.setHandler k p = s := by
  rw [setHandler, Function.update_eq_self_iff.mpr hk.symm]

/-- **A handler that is left alone, as a run of the broker.** -/
theorem runList_alone (hk : s.handlers k = some p) :
    (Outcome.runList step ((List.range n).map fun j => .step k (env j)) s).map Prod.snd =
      (p.alone env n s.broker).map fun r => { s with broker := r.2 }.setHandler k r.1 := by
  induction n generalizing env p s with
  | zero => exact congrArg Outcome.ok (setHandler_self hk).symm
  | succ n ih =>
    rw [List.range_succ_eq_map, List.map_cons, List.map_map, Outcome.map_snd_runList_cons]
    cases hcall : p.call with
    | none =>
      have hrest := @ih (fun j => env (j + 1)) s p hk
      rw [Program.alone_of_returned hcall] at hrest ⊢
      rw [step_of_returned hk hcall]
      exact hrest
    | some call =>
      rw [Program.alone_succ hcall, step_of_call hk hcall]
      cases perform call (env 0) s.broker with
      | panic => rfl
      | fault => rfl
      | ok r =>
        rw [Outcome.ok_bind, Outcome.ok_bind]
        cases p.resume r.1 with
        | panic => rfl
        | fault => rfl
        | ok p' =>
          have hrest := @ih (fun j => env (j + 1)) ({ s with broker := r.2 }.setHandler k p') p'
            (Function.update_self _ _ _)
          simp only [setHandler, Function.update_idem] at hrest
          exact hrest

end BrokerState

end Mbroker
