/-
The handlers, with the functions of TécnicoFS as threads run them.

`BrokerRuns` makes a call of the file system one step of a handler.  Here the handlers are the same
programs, but such a call is the code of `TfsThreads`: `g_library_mutex` is waited for and taken,
the tables are looked at and assigned to an access at a time, and meanwhile the other handlers go
on, with the boxes and up to the mutex with the file system as well.

* `perform_outside` — every other call leaves the file system alone, and does not look at it;
* **`reachable_iff_turns`** — the states of the broker are those that turns lead to;
* **`handlers_progress`** — the mutex stops no handler that a turn would not stop.
-/
import Mbroker.BrokerRuns
import Mbroker.MonitorClients
import Mbroker.TfsThreads

namespace Mbroker

open Tfs Monitor

/-- The call of the file system that a handler is at. -/
def Program.fsCall (p : Program) : Option TfsCall :=
  match p.call with
  | some (.tfs c) => some c
  | _ => none

/-- What is not the file system: a handler is started, or makes a call that is answered whatever
the file system is. -/
inductive OutsideStep : BoxTable × Option Program → BoxTable × Option Program → Prop
  | start (table : BoxTable) (client : Client) (locals : Locals) :
      OutsideStep (table, none) (table, some (.start client locals))
  | call {table table' : BoxTable} {p p' : Program} {call : Call} {a env : Answer}
      (hcall : p.call = some call)
      (hperform : ∀ fs, perform call env ⟨fs, table⟩ = .ok (a, ⟨fs, table'⟩))
      (hresume : p.resume a = .ok p') : OutsideStep (table, some p) (table', some p')

/-- The handlers, as programs that call the file system. -/
def handlerPrograms : Programs TfsCall Reply BoxTable (Option Program) where
  call o := o.bind Program.fsCall
  resume r
    | none => .ok none
    | some p => (p.resume { ret := r.ret, bytes := r.bytes }).map some
  other := OutsideStep

/-- The handlers of a broker, each of which may be inside a function of the file system. -/
abbrev HandlerThreads := Clients Nat TfsState BoxTable (Option Program) Reply

namespace BrokerState

def atomic (s : BrokerState) : AtomicClients Nat TfsState BoxTable (Option Program) :=
  ⟨s.broker.fs, s.broker.table, s.handlers⟩

/-- No handler is inside a function of the file system. -/
def threads (s : BrokerState) : HandlerThreads := s.atomic.clients

end BrokerState

variable {s s' : BrokerState} {t : HandlerThreads} {turn : BrokerTurn} {call : Call} {c : TfsCall}
  {a env : Answer} {b b' b₀ : Broker} {p p' : Program} {k : Nat}

theorem Program.fsCall_eq_some : p.fsCall = some c ↔ p.call = some (.tfs c) := by
  rw [Program.fsCall]
  cases p.call with
  | none => simp
  | some call => cases call <;> simp

/-- **A call of anything but the file system** leaves the file system alone, and its answer does
not depend on it. -/
theorem perform_outside (hcall : ∀ c, call ≠ .tfs c) (h : perform call env b = .ok (a, b')) :
    b'.fs = b.fs ∧ ∀ fs, perform call env ⟨fs, b.table⟩ = .ok (a, ⟨fs, b'.table⟩) := by
  cases call with
  | tfs c => exact absurd rfl (hcall c)
  | addBox | deleteBox =>
    obtain ⟨table, htable, h⟩ := Outcome.bind_eq_ok.mp h
    obtain ⟨rfl, rfl⟩ := Prod.mk.inj (Outcome.ok.inj h)
    exact ⟨rfl, fun fs => Outcome.bind_eq_ok.mpr ⟨table, htable, rfl⟩⟩
  | addSubscriberToBox =>
    rw [perform] at h
    obtain ⟨hi, h⟩ := atBox_eq_ok.mp h
    obtain ⟨table, hadd, h⟩ := Outcome.bind_eq_ok.mp h
    obtain ⟨rfl, rfl⟩ := Prod.mk.inj (Outcome.ok.inj h)
    refine ⟨rfl, fun fs => ?_⟩
    rw [perform]
    exact atBox_eq_ok.mpr ⟨hi, Outcome.bind_eq_ok.mpr ⟨table, hadd, rfl⟩⟩
  | nPublishers | setNPublishers | setPublisher | addBoxSize | incNSubscribers | decNSubscribers
  | markLast | copyBox | clearLast | mutexLock | mutexUnlock | condWait | condBroadcast =>
    rw [perform] at h
    obtain ⟨hi, h⟩ := atBox_eq_ok.mp h
    obtain ⟨rfl, rfl⟩ := Prod.mk.inj (Outcome.ok.inj h)
    refine ⟨rfl, fun fs => ?_⟩
    rw [perform]
    exact atBox_eq_ok.mpr ⟨hi, rfl⟩
  | nSubscribers =>
    rw [perform] at h
    split at h
    case isTrue hi =>
      obtain ⟨rfl, rfl⟩ := Prod.mk.inj (Outcome.ok.inj h)
      refine ⟨rfl, fun fs => ?_⟩
      rw [perform, if_pos hi]
    case isFalse hi =>
      obtain ⟨rfl, rfl⟩ := Prod.mk.inj (Outcome.ok.inj h)
      refine ⟨rfl, fun fs => ?_⟩
      rw [perform, if_neg hi]
  | findBox | nBoxes | openPipe | readPipe | write | close | pcqDequeue | exit =>
    obtain ⟨rfl, rfl⟩ := Prod.mk.inj (Outcome.ok.inj h)
    exact ⟨rfl, fun fs => rfl⟩

/-! ### Turns, and steps with atomic calls -/

namespace BrokerState

theorem atomic_act (hk : s.handlers k = some p) (hcall : p.call = some (.tfs c))
    (hperform : perform (.tfs c) env s.broker = .ok (a, b)) (hresume : p.resume a = .ok p') :
    s.atomic.Step Tfs.tfsCall handlerPrograms k
      ({ s with broker := b }.setHandler k p').atomic := by
  obtain ⟨⟨r, fs⟩, hrun, hret⟩ := Outcome.bind_eq_ok.mp hperform
  obtain ⟨rfl, rfl⟩ := Prod.mk.inj (Outcome.ok.inj hret)
  refine .act c r fs (some p') ?_ hrun ?_
  · show (s.handlers k).bind Program.fsCall = some c
    rw [hk]
    exact Program.fsCall_eq_some.mpr hcall
  · show handlerPrograms.resume r (s.handlers k) = .ok (some p')
    rw [hk]
    exact Outcome.map_eq_ok.mpr ⟨p', hresume, rfl⟩

theorem atomic_other (hk : s.handlers k = some p) (hcall : p.call = some call)
    (hother : ∀ c, call ≠ .tfs c) (hperform : perform call env s.broker = .ok (a, b))
    (hresume : p.resume a = .ok p') :
    s.atomic.Step Tfs.tfsCall handlerPrograms k
      ({ s with broker := b }.setHandler k p').atomic := by
  obtain ⟨hfs, hall⟩ := perform_outside hother hperform
  have heq : ({ s with broker := b }.setHandler k p').atomic =
      { s.atomic with outside := b.table, party := Function.update s.handlers k (some p') } :=
    AtomicClients.ext hfs rfl rfl
  rw [heq]
  refine .other b.table (some p') ?_ ?_
  · show (s.handlers k).bind Program.fsCall = none
    rw [hk, Option.bind_some]
    cases hc : p.fsCall with
    | none => rfl
    | some c =>
      rw [Program.fsCall_eq_some, hcall] at hc
      exact absurd (Option.some.inj hc) (hother c)
  · show OutsideStep (s.broker.table, s.handlers k) _
    rw [hk]
    exact .call hcall hall hresume

/-- A turn is a step of the handler, or none. -/
theorem atomic_step {r : Unit} (h : step turn s = .ok (r, s')) :
    s.atomic.Steps Tfs.tfsCall handlerPrograms s'.atomic := by
  obtain ⟨rfl, -⟩ | ⟨k, client, locals, -, hk, rfl⟩ |
    ⟨k, env, p, call, a, b, p', -, hk, hcall, hperform, hresume, rfl⟩ := step_cases h
  · exact .refl
  · refine .single ⟨k, .other s.broker.table (some (Program.start client locals)) ?_ ?_⟩
    · show (s.handlers k).bind Program.fsCall = none
      rw [hk]
      rfl
    · show OutsideStep (s.broker.table, s.handlers k) _
      rw [hk]
      exact .start _ _ _
  · by_cases htfs : ∃ c, call = .tfs c
    · obtain ⟨c, rfl⟩ := htfs
      exact .single ⟨k, atomic_act hk hcall hperform hresume⟩
    · exact .single ⟨k, atomic_other hk hcall (fun c hc => htfs ⟨c, hc⟩) hperform hresume⟩

/-- A step of a handler is a turn. -/
theorem exists_turn {x : AtomicClients Nat TfsState BoxTable (Option Program)}
    (h : s.atomic.Step Tfs.tfsCall handlerPrograms k x) :
    ∃ turn s', step turn s = .ok ((), s') ∧ s'.atomic = x := by
  cases h with
  | other table o hcall hother =>
    change OutsideStep (s.broker.table, s.handlers k) (table, o) at hother
    generalize hk : s.handlers k = o' at hother
    cases hother with
    | start _ client locals =>
      refine ⟨.start k client locals, s.setHandler k (.start client locals), ?_, rfl⟩
      rw [step, hk]
    | @call _ _ p p' call a env hpcall hperform hresume =>
      refine ⟨.step k env, { s with broker := ⟨s.broker.fs, table⟩ }.setHandler k p', ?_, rfl⟩
      rw [step, hk]
      dsimp only
      rw [hpcall]
      dsimp only
      rw [hperform s.broker.fs, Outcome.ok_bind]
      dsimp only
      rw [hresume]
      rfl
  | act c r fs o hcall hrun hresume =>
    change (s.handlers k).bind Program.fsCall = some c at hcall
    change handlerPrograms.resume r (s.handlers k) = .ok o at hresume
    cases hk : s.handlers k with
    | none =>
      rw [hk] at hcall
      cases hcall
    | some p =>
      rw [hk, Option.bind_some] at hcall
      rw [hk] at hresume
      obtain ⟨p', hp', rfl⟩ := Outcome.map_eq_ok.mp hresume
      have hperform : perform (.tfs c) {} s.broker =
          .ok ({ ret := r.ret, bytes := r.bytes }, { s.broker with fs := fs }) :=
        Outcome.bind_eq_ok.mpr ⟨(r, fs), hrun, rfl⟩
      refine ⟨.step k {}, { s with broker := { s.broker with fs := fs } }.setHandler k p', ?_, rfl⟩
      rw [step, hk]
      dsimp only
      rw [Program.fsCall_eq_some.mp hcall]
      dsimp only
      rw [hperform, Outcome.ok_bind]
      dsimp only
      rw [hp']
      rfl

theorem atomic_run {turns : List BrokerTurn} {rs : List Unit}
    (h : Outcome.runList step turns s = .ok (rs, s')) :
    s.atomic.Steps Tfs.tfsCall handlerPrograms s'.atomic := by
  induction turns generalizing s rs with
  | nil =>
    obtain ⟨-, rfl⟩ := Prod.mk.inj (Outcome.ok.inj h)
    exact .refl
  | cons turn turns ih =>
    obtain ⟨r, s₁, rs', hstep, hrest, -⟩ := Outcome.runList_cons_eq_ok.mp h
    exact (atomic_step hstep).trans (ih hrest)

theorem exists_turns {x : AtomicClients Nat TfsState BoxTable (Option Program)}
    (h : s.atomic.Steps Tfs.tfsCall handlerPrograms x) :
    ∃ turns rs s', Outcome.runList step turns s = .ok (rs, s') ∧ s'.atomic = x := by
  induction h with
  | refl => exact ⟨[], [], s, rfl, rfl⟩
  | tail _ hstep ih =>
    obtain ⟨turns, rs, s₁, hrun, rfl⟩ := ih
    obtain ⟨k, hstep⟩ := hstep
    obtain ⟨turn, s', hturn, hx⟩ := exists_turn hstep
    refine ⟨turns ++ [turn], rs ++ [()], s', ?_, hx⟩
    exact Outcome.runList_append_eq_ok.mpr ⟨rs, s₁, [()], hrun,
      Outcome.runList_cons_eq_ok.mpr ⟨(), s', [], hturn, rfl, rfl⟩, rfl⟩

end BrokerState

/-! ### The handlers as threads -/

theorem threads_run {turns : List BrokerTurn} {rs : List Unit}
    (h : Outcome.runList BrokerState.step turns s = .ok (rs, s')) :
    s.threads.Steps Locked.tfsCall handlerPrograms s'.threads := by
  have hrun := BrokerState.atomic_run h
  rw [← Locked.run_tfsCall_eq] at hrun
  exact exists_clients Locked.guarded_tfsCall hrun

/-- **The functions of TécnicoFS are single steps of the handlers.**  The states of the broker that
the handlers lead to as threads, and in which none of them is inside such a function, are those
that turns lead to; and at any other time the boxes and the variables of the handlers are as turns
have left them, and so is the file system, as long as nobody has the mutex. -/
theorem reachable_iff_turns (s₀ : BrokerState) :
    (∀ s, s₀.threads.Steps Locked.tfsCall handlerPrograms s.threads ↔
      ∃ turns rs, Outcome.runList BrokerState.step turns s₀ = .ok (rs, s)) ∧
    ∀ t, s₀.threads.Steps Locked.tfsCall handlerPrograms t →
      ∃ turns rs s, Outcome.runList BrokerState.step turns s₀ = .ok (rs, s) ∧
        s.broker.table = t.outside ∧ s.handlers = t.party ∧
        (t.holder = none → s.broker.fs = t.state) := by
  have hall : ∀ t, s₀.threads.Steps Locked.tfsCall handlerPrograms t →
      ∃ turns rs s, Outcome.runList BrokerState.step turns s₀ = .ok (rs, s) ∧
        s.broker.table = t.outside ∧ s.handlers = t.party ∧
        (t.holder = none → s.broker.fs = t.state) := by
    intro t ht
    obtain ⟨x, hrun, hmatches⟩ := exists_atomic Locked.guarded_tfsCall ht
    rw [Locked.run_tfsCall_eq] at hrun
    obtain ⟨turns, rs, s, hturns, rfl⟩ := BrokerState.exists_turns hrun
    exact ⟨turns, rs, s, hturns, hmatches.outside, hmatches.party, hmatches.free⟩
  refine ⟨fun s => ⟨fun hs => ?_, ?_⟩, hall⟩
  · obtain ⟨turns, rs, ⟨⟨fs, table⟩, handlers⟩, hturns, rfl, rfl, hfs⟩ := hall _ hs
    obtain rfl := hfs rfl
    exact ⟨turns, rs, hturns⟩
  · rintro ⟨turns, rs, hturns⟩
    exact threads_run hturns

/-- Two boxes are created at one time, up to `tfs_open`. -/
def bothOpening : List BrokerTurn :=
  [.start 0 (.create pipeP nameA) ⟨.zero, 0, []⟩, .start 1 (.create pipeQ nameB) ⟨.zero, 0, []⟩,
    .step 0 {}, .step 1 {}]

/-- The first one goes on in `tfs_open`, up to where it has the mutex, for which the other one has
to wait. -/
theorem exists_steps_opening : ∃ (t : HandlerThreads) (p : Program) (c : TfsCall),
    (BrokerState.start ⟨initial, .empty⟩).threads.Steps Locked.tfsCall handlerPrograms t ∧
      t.holder = some 0 ∧ t.inside 0 ≠ none ∧ t.party 1 = some p ∧ p.fsCall = some c ∧
      ∀ j p, t.party j = some p → ∃ f, p = .create f := by
  obtain ⟨rs, s, p₀, c₀, p₁, c₁, hrun, hp₀, hc₀, hp₁, hc₁, hall⟩ : ∃ rs s p₀ c₀ p₁ c₁,
      Outcome.runList BrokerState.step bothOpening (.start ⟨initial, .empty⟩) = .ok (rs, s) ∧
        s.handlers 0 = some p₀ ∧ p₀.fsCall = some c₀ ∧ s.handlers 1 = some p₁ ∧
        p₁.fsCall = some c₁ ∧ ∀ j p, s.handlers j = some p → ∃ f, p = .create f := by
    refine ⟨_, _, _, _, _, _, rfl, rfl, rfl, rfl, rfl, fun j p hj => ?_⟩
    -- The last step, the one before it, and the two starts.
    obtain ⟨-, rfl⟩ | ⟨-, hj⟩ := BrokerState.handlers_setHandler hj
    · exact ⟨_, rfl⟩
    obtain ⟨-, rfl⟩ | ⟨-, hj⟩ := BrokerState.handlers_setHandler hj
    · exact ⟨_, rfl⟩
    obtain ⟨-, rfl⟩ | ⟨-, hj⟩ := BrokerState.handlers_setHandler hj
    · exact ⟨_, rfl⟩
    obtain ⟨-, rfl⟩ | ⟨-, hj⟩ := BrokerState.handlers_setHandler hj
    · exact ⟨_, rfl⟩
    cases hj
  obtain ⟨next, hnext, hholding⟩ := (Locked.guarded_tfsCall c₀).eq_lock
  have hat : s.threads.At Locked.tfsCall handlerPrograms 0 (.lock next) := by
    refine ⟨c₀, ?_, hnext⟩
    show (s.handlers 0).bind Program.fsCall = some c₀
    rw [hp₀]
    exact hc₀
  have hstep := Clients.Step.lock next _ _ hat rfl hholding.goesOn
  refine ⟨_, p₁, c₁, (threads_run hrun).tail ⟨0, hstep⟩, rfl, ?_, hp₁, hc₁, ?_⟩
  · show Function.update s.threads.inside 0 (some next) 0 ≠ none
    rw [Function.update_self]
    exact Option.some_ne_none next
  · intro j p hj
    refine hall j p ?_
    rw [← hj]
    exact (congrFun (Function.update_eq_self 0 s.threads.party) j).symm

/-- From there, turns have led to the same boxes and handlers; and both boxes can be created. -/
theorem reachable_iff_turns_opening : ∃ t : HandlerThreads,
    t.holder = some 0 ∧ t.inside 0 ≠ none ∧
      (∃ turns rs s, Outcome.runList BrokerState.step turns (.start ⟨initial, .empty⟩) =
        .ok (rs, s) ∧ s.broker.table = t.outside ∧ s.handlers = t.party) ∧
      ∃ s : BrokerState, s.broker.table.nBoxes = 2 ∧
        (BrokerState.start ⟨initial, .empty⟩).threads.Steps Locked.tfsCall handlerPrograms
          s.threads := by
  obtain ⟨t, p, c, hsteps, hheld, hin, -⟩ := exists_steps_opening
  obtain ⟨turns, rs, s, hrun, htable, hhandlers, -⟩ := (reachable_iff_turns _).2 t hsteps
  have hresult : (Outcome.runList BrokerState.step (bothOpening ++
      (List.replicate 7 [.step 0 { ret := 1 }, .step 1 { ret := 1 }]).flatten)
      (.start ⟨initial, .empty⟩)).map (fun p => p.2.broker.table.nBoxes) = .ok 2 := by
    decide +kernel
  obtain ⟨⟨rs', s'⟩, hrun', hn⟩ := Outcome.map_eq_ok.mp hresult
  exact ⟨t, hheld, hin, ⟨turns, rs, s, hrun, htable, hhandlers⟩, s', hn,
    ((reachable_iff_turns _).1 s').mpr ⟨_, rs', hrun'⟩⟩

/-- A creation only opens and closes files. -/
theorem CreateFrame.of_call_tfs {f : CreateFrame} {c : TfsCall} (h : f.call = some (.tfs c)) :
    (∃ name mode, c = .tfsOpen name mode) ∨ ∃ fhandle, c = .tfsClose fhandle := by
  rw [CreateFrame.call] at h
  cases hplace : f.place with
  | tfsOpen =>
    rw [hplace] at h
    cases h
    exact .inl ⟨_, _, rfl⟩
  | tfsClose =>
    rw [hplace] at h
    cases h
    exact .inr ⟨_, rfl⟩
  | findBox | addBox => rw [hplace] at h; cases h
  | reply g =>
    rw [hplace] at h
    dsimp only at h
    rw [ReplyFrame.call] at h
    split at h <;> cases h

/-- It goes on at every call of the file system. -/
theorem step_of_create {f : CreateFrame} (hfs : s.broker.fs.Inv)
    (hk : s.handlers k = some (.create f)) (hc : (Program.create f).fsCall ≠ none) (env : Answer) :
    ∃ s', BrokerState.step (.step k env) s = .ok ((), s') := by
  obtain ⟨c, hc⟩ := Option.ne_none_iff_exists'.mp hc
  have hcall := Program.fsCall_eq_some.mp hc
  have hstale : ¬ UsesStaleHandle s.broker.fs c := by
    obtain ⟨name, mode, rfl⟩ | ⟨fhandle, rfl⟩ := CreateFrame.of_call_tfs hcall
    · rintro (⟨_, _, _, _, h, -⟩ | ⟨_, _, h, -⟩) <;> cases h
    · rintro (⟨_, _, _, _, h, -⟩ | ⟨_, _, h, -⟩) <;> cases h
  obtain ⟨⟨r, fs⟩, hr⟩ := hfs.tfsCall_returns hstale
  rw [BrokerState.step, hk]
  dsimp only
  rw [hcall]
  dsimp only
  rw [perform, hr]
  exact ⟨_, rfl⟩

/-- **The mutex stops no handler.**  As long as one is at a call of the file system, one that is
can go on; or there are turns that lead to the same boxes and handlers, and one that is at a call
of the file system ends the process there as well. -/
theorem handlers_progress {s₀ : BrokerState}
    (h : s₀.threads.Steps Locked.tfsCall handlerPrograms t) (hk : t.party k = some p)
    (hp : p.fsCall = some c) :
    (∃ j t', t.Step Locked.tfsCall handlerPrograms j t' ∧
        ∃ p, t.party j = some p ∧ p.fsCall ≠ none) ∨
      ∃ turns rs s, Outcome.runList BrokerState.step turns s₀ = .ok (rs, s) ∧
        s.broker.table = t.outside ∧ s.handlers = t.party ∧
        ∃ j p, s.handlers j = some p ∧ p.fsCall ≠ none ∧
          ∀ env r, BrokerState.step (.step j env) s ≠ .ok r := by
  have hcall : handlerPrograms.call (t.party k) = some c := by
    rw [hk]
    exact hp
  have hat : ∀ j, handlerPrograms.call (t.party j) ≠ none →
      ∃ p, t.party j = some p ∧ p.fsCall ≠ none := by
    intro j hj
    cases hpj : t.party j with
    | none =>
      rw [hpj] at hj
      exact absurd rfl hj
    | some p =>
      rw [hpj] at hj
      exact ⟨p, rfl, hj⟩
  obtain ⟨j, t', hstep, hj⟩ | ⟨x, hrun, hmatches, j, hj, hstuck⟩ :=
    exists_step Locked.guarded_tfsCall h hcall
  · exact .inl ⟨j, t', hstep, hat j hj⟩
  · rw [Locked.run_tfsCall_eq] at hrun hstuck
    obtain ⟨turns, rs, s, hturns, rfl⟩ := BrokerState.exists_turns hrun
    have hparty : s.handlers = t.party := hmatches.party
    obtain ⟨p, hpj, hcallj⟩ := hat j (hparty ▸ hj)
    obtain ⟨c', hc'⟩ := Option.ne_none_iff_exists'.mp hcallj
    have hc' := Program.fsCall_eq_some.mp hc'
    rw [← hparty] at hpj
    refine .inr ⟨turns, rs, s, hturns, hmatches.outside, hparty, j, p, hpj, hcallj, ?_⟩
    rintro env ⟨r, s'⟩ hstep
    rw [BrokerState.step, hpj] at hstep
    dsimp only at hstep
    rw [hc'] at hstep
    obtain ⟨⟨a, b⟩, hperform, hstep⟩ := Outcome.bind_eq_ok.mp hstep
    obtain ⟨p', hresume, -⟩ := Outcome.bind_eq_ok.mp hstep
    exact hstuck _ (BrokerState.atomic_act hpj hc' hperform hresume)

theorem handlers_progress_opening : ∃ t : HandlerThreads,
    (BrokerState.start ⟨initial, .empty⟩).threads.Steps Locked.tfsCall handlerPrograms t ∧
      t.holder = some 0 ∧ t.inside 0 ≠ none ∧
      ∃ j t', t.Step Locked.tfsCall handlerPrograms j t' ∧
        ∃ p, t.party j = some p ∧ p.fsCall ≠ none := by
  obtain ⟨t, p, c, hsteps, hheld, hin, hp, hc, hall⟩ := exists_steps_opening
  refine ⟨t, hsteps, hheld, hin, ?_⟩
  rcases handlers_progress hsteps hp hc with
    hgo | ⟨turns, rs, s, hrun, -, hhandlers, j, p', hj, hcall, hstuck⟩
  · exact hgo
  · have hfs : s.broker.fs.Inv :=
      Outcome.runList_invariant (I := fun s : BrokerState => s.broker.fs.Inv)
        (fun _ _ _ _ hs hstep => BrokerState.fsInv_step hs hstep)
        (started_initial.fresh inRange_tfsDefaultParams).inv hrun
    obtain ⟨f, rfl⟩ := hall j p' (hhandlers ▸ hj)
    obtain ⟨s', hstep⟩ := step_of_create hfs hj hcall {}
    exact absurd hstep (hstuck _ _)

end Mbroker
