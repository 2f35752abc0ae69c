/-
How many publishers a broker takes in its life.

A publisher's handler opens the file of its box twice, and closes one of the two
handles, if any.  The other stays open when the handler has returned, and no later
step of any handler closes it: the table of open files fills up.

* `PublisherFrame.lost_step` — what is lost stays lost, and what is added was opened;
* `BrokerState.Owning` — what is lost is open, and different from all that is held
  and from what others have lost;
* **`registrations_bounded`** — in every interleaving, the publishers that have been registered,
  whether they have left or not, and the files that handlers have open at the time, are no
  more than the entries of the table.
-/
import Mbroker.OpenFiles

namespace Mbroker

open Tfs

/-- A handle that has been given, as a set. -/
def givenSet (boxHandle : Int) : Finset Int := if boxHandle = -1 then ∅ else {boxHandle}

/-- The handles that the handler has been given and does not close: that of `publisher_function`,
and that of `recieve_messages_from_publisher` if the publisher is turned away. -/
def PublisherFrame.lost (f : PublisherFrame) : Finset Int :=
  match f.place with
  | .tfsOpen => ∅
  | .findBox | .nPublishers | .setNPublishers | .setPublisher | .tfsReopen => givenSet f.boxHandle
  | _ => givenSet f.boxHandle ∪ if f.ver then ∅ else givenSet f.sessionHandle

def Program.lost : Program → Finset Int
  | .publisher f => f.lost
  | _ => ∅

/-- The publisher has got the box. -/
def Program.Registered : Program → Prop
  | .publisher f => f.ver = true
  | _ => False

/-! ### The steps -/

section Steps

variable {b b' : Broker} {call : Call} {a env : Answer} {p p' : Program} {f f' : PublisherFrame}

/-- No call changes the size of the table. -/
theorem perform_fsParams (hs : b.fs.Inv) (h : perform call env b = .ok (a, b')) :
    b'.fs.fsParams = b.fs.fsParams := by
  rcases perform_fs h with heq | ⟨c, r, -, hcall, -⟩
  · rw [heq]
  · exact hs.fsParams_of_tfsCall hcall

theorem mem_givenSet {h h' : Int} : h ∈ givenSet h' ↔ h' ≠ -1 ∧ h = h' := by
  rw [givenSet]
  split
  case isTrue heq => exact iff_of_false (Finset.notMem_empty h) fun hne => hne.1 heq
  case isFalse hne => rw [Finset.mem_singleton, and_iff_right hne]

theorem givenSet_neg : givenSet (-1) = ∅ := if_pos rfl

theorem givenSet_natCast (e : Nat) : givenSet (e : Int) = {(e : Int)} := if_neg (by omega)

/-- Where no file is opened, nothing is lost. -/
theorem PublisherFrame.lost_resume (h : f.resume a = .ok f') (hplace : ¬ f.place.UsesHandle) :
    f'.lost = f.lost := by
  obtain ⟨place, pipeName, boxName, boxHandle, boxIndex, ver, sessionHandle, pubPipe, buffer⟩ := f
  rw [resume] at h
  cases place with
  | tfsOpen => exact absurd (Or.inl rfl) hplace
  | tfsReopen => exact absurd (Or.inr (Or.inl rfl)) hplace
  | tfsClose => exact absurd (Or.inr (Or.inr rfl)) hplace
  | openPipe =>
    cases ver with
    | true =>
      obtain rfl := Outcome.ok.inj h
      rfl
    | false =>
      obtain rfl := Outcome.ok.inj h
      rfl
  | findBox | nPublishers | findAgain =>
    dsimp only at h
    split at h <;> (obtain rfl := Outcome.ok.inj h; rfl)
  | readCode =>
    dsimp only at h
    split at h
    · obtain rfl := Outcome.ok.inj h
      rfl
    · split at h <;> (obtain rfl := Outcome.ok.inj h; rfl)
  | readMessage =>
    dsimp only at h
    split at h
    · obtain rfl := Outcome.ok.inj h
      rfl
    · cases h
  | _ =>
    obtain rfl := Outcome.ok.inj h
    rfl

/-- **What a step loses**: nothing, or a file that it has opened. -/
theorem PublisherFrame.lost_step (hs : b.fs.Inv) (hcall : f.call = some call)
    (hperform : perform call env b = .ok (a, b')) (hresume : f.resume a = .ok f') :
    f'.lost = f.lost ∨ f'.held = none ∧ ∃ e : Nat, e ∉ b.fs.openFiles ∧
      b'.fs.openFiles = insert e b.fs.openFiles ∧ f'.lost = insert (e : Int) f.lost := by
  by_cases hplace : f.place.UsesHandle
  · obtain ⟨place, pipeName, boxName, boxHandle, boxIndex, ver, sessionHandle, pubPipe, buffer⟩ := f
    rcases hplace with rfl | rfl | rfl
    · cases hcall
      obtain rfl := Outcome.ok.inj hresume
      rcases perform_tfsOpen hs hperform with ⟨hret, -⟩ | ⟨e, hret, he, hopen⟩
      · refine Or.inl ?_
        show givenSet a.ret = ∅
        rw [hret, givenSet_neg]
      · refine Or.inr ⟨rfl, e, he, hopen, ?_⟩
        show givenSet a.ret = insert (e : Int) ∅
        rw [hret, givenSet_natCast]
        rfl
    · cases hcall
      obtain rfl := Outcome.ok.inj hresume
      cases ver with
      | true =>
        -- The session closes this handle.
        refine Or.inl ?_
        show givenSet boxHandle ∪ ∅ = givenSet boxHandle
        exact Finset.union_empty _
      | false =>
        rcases perform_tfsOpen hs hperform with ⟨hret, -⟩ | ⟨e, hret, he, hopen⟩
        · refine Or.inl ?_
          show givenSet boxHandle ∪ givenSet a.ret = givenSet boxHandle
          rw [hret, givenSet_neg, Finset.union_empty]
        · refine Or.inr ⟨rfl, e, he, hopen, ?_⟩
          show givenSet boxHandle ∪ givenSet a.ret = insert (e : Int) (givenSet boxHandle)
          rw [hret, givenSet_natCast, Finset.union_comm]
          rfl
    · cases hcall
      obtain rfl := Outcome.ok.inj hresume
      exact Or.inl rfl
  · exact Or.inl (lost_resume hresume hplace)

theorem Program.lost_step (hs : b.fs.Inv) (hcall : p.call = some call)
    (hperform : perform call env b = .ok (a, b')) (hresume : p.resume a = .ok p') :
    p'.lost = p.lost ∨ p'.held = none ∧ ∃ e : Nat, e ∉ b.fs.openFiles ∧
      b'.fs.openFiles = insert e b.fs.openFiles ∧ p'.lost = insert (e : Int) p.lost := by
  cases p with
  | publisher f =>
    obtain ⟨f', hf', hresume⟩ := Outcome.bind_eq_ok.mp hresume
    obtain rfl := Outcome.ok.inj hresume
    exact PublisherFrame.lost_step hs hcall hperform hf'
  | subscriber f =>
    obtain ⟨f', -, hresume⟩ := Outcome.bind_eq_ok.mp hresume
    obtain rfl := Outcome.ok.inj hresume
    exact Or.inl rfl
  | create f =>
    obtain rfl := Outcome.ok.inj hresume
    exact Or.inl rfl
  | remove f =>
    obtain rfl := Outcome.ok.inj hresume
    exact Or.inl rfl
  | list f =>
    obtain rfl := Outcome.ok.inj hresume
    exact Or.inl rfl

/-- A publisher that is going to get the box, or has got it, has opened the file. -/
def PublisherFrame.Opened (f : PublisherFrame) : Prop :=
  match f.place with
  | .tfsOpen | .findBox => f.ver = false
  | .nPublishers | .setNPublishers | .setPublisher => f.ver = false ∧ f.boxHandle ≠ -1
  | _ => f.ver = true → f.boxHandle ≠ -1

def Program.Opened : Program → Prop
  | .publisher f => f.Opened
  | _ => True

theorem PublisherFrame.opened_resume (hf : f.Opened) (h : f.resume a = .ok f') :
    f'.Opened ∧ (f.ver = true → f'.ver = true) := by
  obtain ⟨place, pipeName, boxName, boxHandle, boxIndex, ver, sessionHandle, pubPipe, buffer⟩ := f
  rw [resume] at h
  cases place with
  | tfsOpen | setNPublishers =>
    obtain rfl := Outcome.ok.inj h
    exact ⟨hf, id⟩
  | findBox =>
    obtain rfl : ver = false := hf
    dsimp only at h
    split at h
    · obtain rfl := Outcome.ok.inj h
      refine ⟨?_, id⟩
      intro hver
      cases hver
    case isFalse hnot =>
      obtain rfl := Outcome.ok.inj h
      exact ⟨⟨rfl, fun heq => hnot (Or.inr heq)⟩, id⟩
  | nPublishers =>
    obtain ⟨rfl, hhandle⟩ : ver = false ∧ boxHandle ≠ -1 := hf
    dsimp only at h
    split at h
    · obtain rfl := Outcome.ok.inj h
      refine ⟨?_, id⟩
      intro hver
      cases hver
    · obtain rfl := Outcome.ok.inj h
      exact ⟨⟨rfl, hhandle⟩, id⟩
  | setPublisher =>
    -- Here `ver` is set.
    obtain rfl := Outcome.ok.inj h
    exact ⟨fun _ => hf.2, fun _ => rfl⟩
  | openPipe | findAgain =>
    dsimp only at h
    split at h <;> (obtain rfl := Outcome.ok.inj h; exact ⟨hf, id⟩)
  | readCode =>
    dsimp only at h
    split at h
    · obtain rfl := Outcome.ok.inj h
      exact ⟨hf, id⟩
    · split at h <;> (obtain rfl := Outcome.ok.inj h; exact ⟨hf, id⟩)
  | readMessage =>
    dsimp only at h
    split at h
    · obtain rfl := Outcome.ok.inj h
      exact ⟨hf, id⟩
    · cases h
  | _ =>
    obtain rfl := Outcome.ok.inj h
    exact ⟨hf, id⟩

theorem Program.opened_resume (hp : p.Opened) (h : p.resume a = .ok p') :
    p'.Opened ∧ (p.Registered → p'.Registered) := by
  cases p with
  | publisher f =>
    obtain ⟨f', hf', h⟩ := Outcome.bind_eq_ok.mp h
    obtain rfl := Outcome.ok.inj h
    exact PublisherFrame.opened_resume hp hf'
  | subscriber f =>
    obtain ⟨f', -, h⟩ := Outcome.bind_eq_ok.mp h
    obtain rfl := Outcome.ok.inj h
    exact ⟨trivial, False.elim⟩
  | create f =>
    obtain rfl := Outcome.ok.inj h
    exact ⟨trivial, False.elim⟩
  | remove f =>
    obtain rfl := Outcome.ok.inj h
    exact ⟨trivial, False.elim⟩
  | list f =>
    obtain rfl := Outcome.ok.inj h
    exact ⟨trivial, False.elim⟩

theorem Program.opened_start (client : Client) (locals : Locals) :
    (Program.start client locals).Opened ∧ (Program.start client locals).lost = ∅ := by
  cases client with
  | publisher pipeName boxName => exact ⟨rfl, rfl⟩
  | _ => exact ⟨trivial, rfl⟩

/-- **A registered publisher has lost a file.** -/
theorem Program.lost_nonempty (hp : p.Opened) (h : p.Registered) : p.lost.Nonempty := by
  cases p with
  | publisher f =>
    obtain ⟨place, pipeName, boxName, boxHandle, boxIndex, ver, sessionHandle, pubPipe, buffer⟩ := f
    obtain rfl : ver = true := h
    have hmem : boxHandle ≠ -1 → boxHandle ∈ givenSet boxHandle :=
      fun hne => mem_givenSet.mpr ⟨hne, rfl⟩
    refine ⟨boxHandle, ?_⟩
    cases place with
    | tfsOpen | findBox => cases hp
    | nPublishers | setNPublishers | setPublisher => cases hp.1
    | tfsReopen => exact hmem (hp rfl)
    | _ => exact Finset.mem_union_left _ (hmem (hp rfl))
  | _ => exact h.elim

/-- What the handler has open. -/
def Program.owned (p : Program) : Finset Int := p.lost ∪ p.held.elim ∅ singleton

theorem Program.mem_owned {e : Int} : e ∈ p.owned ↔ e ∈ p.lost ∨ p.held = some e := by
  rw [owned, Finset.mem_union]
  refine or_congr_right ?_
  cases p.held with
  | none => exact iff_of_false (Finset.notMem_empty e) nofun
  | some e' => exact Finset.mem_singleton.trans ⟨fun h => h ▸ rfl, fun h => (Option.some.inj h).symm⟩

/-- What is lost is not held. -/
def Program.Apart (p : Program) : Prop := ∀ e ∈ p.lost, p.held ≠ some e

theorem Program.card_owned (hp : p.Apart) :
    p.owned.card = p.lost.card + p.held.elim 0 fun _ => 1 := by
  rw [owned]
  cases hheld : p.held with
  | none => exact congrArg Finset.card (Finset.union_empty _)
  | some e =>
    refine Finset.card_union_of_disjoint (Finset.disjoint_right.mpr fun e' he' hlost => ?_)
    exact hp e' hlost (hheld.trans (congrArg some (Finset.mem_singleton.mp he').symm))

/-- The handle is that of an open file. -/
def Broker.HasOpen (b : Broker) (e : Int) : Prop := ∃ f : Nat, e = f ∧ f ∈ b.fs.openFiles

/-- What a step does to the table, and to what the handler has open. -/
inductive Program.OwnEffect (b b' : Broker) (p p' : Program) : Prop where
  | kept (hopen : b'.fs.openFiles = b.fs.openFiles) (howned : p'.owned ⊆ p.owned)
  | took (f : Nat) (hf : f ∉ b.fs.openFiles) (hopen : b'.fs.openFiles = insert f b.fs.openFiles)
      (howned : p'.owned ⊆ insert (f : Int) p.owned)
  | gave (f : Nat) (hf : (f : Int) ∈ p.owned) (hopen : b'.fs.openFiles = b.fs.openFiles.erase f)
      (howned : p'.owned ⊆ p.owned.erase (f : Int))

theorem Program.ownEffect (hs : b.fs.Inv) (hholds : p.HoldsOpen b) (hp : p.Apart)
    (hlostOpen : ∀ e ∈ p.lost, b.HasOpen e) (hcall : p.call = some call)
    (hperform : perform call env b = .ok (a, b')) (hresume : p.resume a = .ok p') :
    p.OwnEffect b b' p' ∧ p'.Apart := by
  have hlost := Program.lost_step hs hcall hperform hresume
  have hsame : b'.fs.openFiles = b.fs.openFiles → p'.lost = p.lost := by
    intro hopen
    rcases hlost with hlost | ⟨-, e, he, hopen', -⟩
    · exact hlost
    · rw [hopen] at hopen'
      exact absurd (hopen' ▸ Finset.mem_insert_self e _) he
  cases Program.effect hs hholds hcall hperform hresume with
  | same hopen hheld =>
    have hlost := hsame hopen
    refine ⟨.kept hopen ?_, ?_⟩
    · rw [owned, owned, hlost, hheld]
    · rw [Apart, hlost, hheld]
      exact hp
  | forgot boxHandle hopen hheld hheld' =>
    have hlost := hsame hopen
    refine ⟨.kept hopen fun e he => ?_, fun e _ => by rw [hheld']; nofun⟩
    rw [mem_owned, hlost, hheld'] at he
    exact mem_owned.mpr (he.imp_right nofun)
  | took f hf hopen hheld hheld' =>
    -- It is held, so it is not lost.
    have hlost : p'.lost = p.lost := by
      rcases hlost with hlost | ⟨hnone, -⟩
      · exact hlost
      · rw [hheld'] at hnone
        cases hnone
    refine ⟨.took f hf hopen fun e he => ?_, fun e he heq => ?_⟩
    · rw [mem_owned, hlost, hheld'] at he
      rcases he with he | he
      · exact Finset.mem_insert_of_mem (mem_owned.mpr (Or.inl he))
      · exact Finset.mem_insert.mpr (Or.inl (Option.some.inj he).symm)
    · rw [hlost] at he
      rw [hheld'] at heq
      obtain ⟨g, hg, hmem⟩ := hlostOpen e he
      obtain rfl : f = g := Int.natCast_inj.mp ((Option.some.inj heq).trans hg)
      exact hf hmem
  | gave f hf hopen hheld hheld' =>
    have hlost : p'.lost = p.lost := by
      rcases hlost with hlost | ⟨-, e, he, hopen', -⟩
      · exact hlost
      · rw [hopen] at hopen'
        have hmem : e ∈ b.fs.openFiles.erase f := hopen' ▸ Finset.mem_insert_self e _
        exact absurd (Finset.mem_of_mem_erase hmem) he
    refine ⟨.gave f (mem_owned.mpr (Or.inr hheld)) hopen fun e he => ?_,
      fun e _ => by rw [hheld']; nofun⟩
    rw [mem_owned, hlost, hheld'] at he
    have he : e ∈ p.lost := he.resolve_right nofun
    refine Finset.mem_erase.mpr ⟨?_, mem_owned.mpr (Or.inl he)⟩
    rintro rfl
    exact hp _ he hheld
  | left f hf hopen hheld hheld' =>
    refine ⟨.took f hf hopen fun e he => ?_, fun e _ => by rw [hheld']; nofun⟩
    rw [mem_owned, hheld'] at he
    have he : e ∈ p'.lost := he.resolve_right nofun
    rcases hlost with hlost | ⟨-, g, hg, hopen', hlost⟩
    · exact Finset.mem_insert_of_mem (mem_owned.mpr (Or.inl (hlost ▸ he)))
    · -- There is one new entry.
      obtain rfl : g = f := by
        have hmem : g ∈ insert f b.fs.openFiles := hopen ▸ hopen' ▸ Finset.mem_insert_self g _
        exact (Finset.mem_insert.mp hmem).resolve_right hg
      rw [hlost, Finset.mem_insert] at he
      exact Finset.mem_insert.mpr (he.imp_right fun he => mem_owned.mpr (Or.inl he))

end Steps

/-! ### All handlers together -/

namespace BrokerState

variable {s s' : BrokerState} {t : BrokerTurn} {k : Nat} {p p' : Program} {b : Broker} {r : Unit}
  {turns : List BrokerTurn} {rs : List Unit} {fs : TfsState}

/-- What handlers have open is in the table, and no two of them have the same entry. -/
structure Owning (s : BrokerState) : Prop where
  fs : s.broker.fs.Inv
  params : s.broker.fs.fsParams = tfsDefaultParams
  opened : ∀ k p, s.handlers k = some p → p.Opened ∧ p.Apart
  hasOpen : ∀ k p e, s.handlers k = some p → e ∈ p.owned → s.broker.HasOpen e
  own : ∀ k k' p p' e, s.handlers k = some p → s.handlers k' = some p' → e ∈ p.owned →
    e ∈ p'.owned → k = k'

/-- A handler is put in place that has open what the others do not. -/
theorem Owning.setHandler (h : s.Owning) (hfs : b.fs.Inv)
    (hparams : b.fs.fsParams = s.broker.fs.fsParams) (hopened : p.Opened ∧ p.Apart)
    (hp : ∀ e ∈ p.owned, b.HasOpen e)
    (hothers : ∀ k' p' e, k' ≠ k → s.handlers k' = some p' → e ∈ p'.owned →
      b.HasOpen e ∧ e ∉ p.owned) : ({ s with broker := b }.setHandler k p).Owning := by
  refine ⟨hfs, hparams.trans h.params, fun k' p' hk' => ?_, fun k' p' e hk' he => ?_,
    fun k₁ k₂ p₁ p₂ e h₁ h₂ hp₁ hp₂ => ?_⟩
  · rcases handlers_setHandler hk' with ⟨-, rfl⟩ | ⟨-, hold⟩
    · exact hopened
    · exact h.opened k' p' hold
  · rcases handlers_setHandler hk' with ⟨-, rfl⟩ | ⟨hne, hold⟩
    · exact hp e he
    · exact (hothers k' p' e hne hold he).1
  · rcases handlers_setHandler h₁ with ⟨rfl, rfl⟩ | ⟨hne₁, hold₁⟩
    · rcases handlers_setHandler h₂ with ⟨rfl, -⟩ | ⟨hne₂, hold₂⟩
      · rfl
      · exact absurd hp₁ (hothers k₂ p₂ e hne₂ hold₂ hp₂).2
    · rcases handlers_setHandler h₂ with ⟨rfl, rfl⟩ | ⟨-, hold₂⟩
      · exact absurd hp₂ (hothers k₁ p₁ e hne₁ hold₁ hp₁).2
      · exact h.own k₁ k₂ p₁ p₂ e hold₁ hold₂ hp₁ hp₂

theorem Owning.ownEffect (h : s.Owning) (hk : s.handlers k = some p) (hfs : b.fs.Inv)
    (hparams : b.fs.fsParams = s.broker.fs.fsParams) (hopened : p'.Opened ∧ p'.Apart)
    (heffect : p.OwnEffect s.broker b p') : ({ s with broker := b }.setHandler k p').Owning := by
  have hothers : ∀ k' p₁ e, k' ≠ k → s.handlers k' = some p₁ → e ∈ p₁.owned →
      s.broker.HasOpen e ∧ e ∉ p.owned :=
    fun k' p₁ e hne hk' he => ⟨h.hasOpen k' p₁ e hk' he,
      fun hp => hne (h.own k' k p₁ p e hk' hk he hp)⟩
  cases heffect with
  | kept hopen howned =>
    have hiff : ∀ e, b.HasOpen e ↔ s.broker.HasOpen e := by
      intro e
      rw [Broker.HasOpen, Broker.HasOpen, hopen]
    refine h.setHandler hfs hparams hopened (fun e he => ?_) fun k' p₁ e hne hk' he => ?_
    · exact (hiff e).mpr (h.hasOpen k p e hk (howned he))
    · obtain ⟨hopen', hfree⟩ := hothers k' p₁ e hne hk' he
      exact ⟨(hiff e).mpr hopen', fun hp' => hfree (howned hp')⟩
  | took f hf hopen howned =>
    have hmono : ∀ e, s.broker.HasOpen e → b.HasOpen e := by
      rintro e ⟨g, rfl, hg⟩
      exact ⟨g, rfl, hopen ▸ Finset.mem_insert_of_mem hg⟩
    refine h.setHandler hfs hparams hopened (fun e he => ?_) fun k' p₁ e hne hk' he => ?_
    · rcases Finset.mem_insert.mp (howned he) with rfl | he
      · exact ⟨f, rfl, hopen ▸ Finset.mem_insert_self f _⟩
      · exact hmono e (h.hasOpen k p e hk he)
    · -- A new entry is nobody else's.
      obtain ⟨hopen', hfree⟩ := hothers k' p₁ e hne hk' he
      refine ⟨hmono e hopen', fun hp' => ?_⟩
      rcases Finset.mem_insert.mp (howned hp') with rfl | hp
      · obtain ⟨g, hg, hmem⟩ := hopen'
        obtain rfl : f = g := Int.natCast_inj.mp hg
        exact hf hmem
      · exact hfree hp
  | gave f hf hopen howned =>
    have herase : ∀ e, e ≠ (f : Int) → s.broker.HasOpen e → b.HasOpen e := by
      rintro e hne ⟨g, rfl, hg⟩
      refine ⟨g, rfl, hopen ▸ Finset.mem_erase.mpr ⟨?_, hg⟩⟩
      rintro rfl
      exact hne rfl
    refine h.setHandler hfs hparams hopened (fun e he => ?_) fun k' p₁ e hne hk' he => ?_
    · obtain ⟨hne, he⟩ := Finset.mem_erase.mp (howned he)
      exact herase e hne (h.hasOpen k p e hk he)
    · -- Nobody else has the entry that is freed.
      obtain ⟨hopen', hfree⟩ := hothers k' p₁ e hne hk' he
      refine ⟨herase e ?_ hopen', fun hp' => hfree (Finset.mem_of_mem_erase (howned hp'))⟩
      rintro rfl
      exact hfree hf

theorem Owning.step (h : s.Owning) (hstep : BrokerState.step t s = .ok (r, s')) : s'.Owning := by
  rcases step_cases hstep with ⟨rfl, -⟩ | ⟨k, client, locals, rfl, hk, rfl⟩ |
    ⟨k, env, p, call, a, b, p', rfl, hk, hcall, hperform, hresume, rfl⟩
  · exact h
  · -- The handler that is started has nothing open.
    obtain ⟨hopened, hlost⟩ := Program.opened_start client locals
    have hnone : ∀ e, e ∉ (Program.start client locals).owned := by
      intro e he
      rw [Program.mem_owned, hlost, Program.held_start] at he
      exact he.elim (Finset.notMem_empty e) nofun
    refine h.setHandler (b := s.broker) h.fs rfl ⟨hopened, fun e he => ?_⟩
      (fun e he => absurd he (hnone e))
      fun k' p' e _ hk' he => ⟨h.hasOpen k' p' e hk' he, hnone e⟩
    rw [hlost] at he
    exact absurd he (Finset.notMem_empty e)
  · obtain ⟨hopened, hapart⟩ := h.opened k p hk
    have hholds : p.HoldsOpen s.broker := fun e he =>
      h.hasOpen k p e hk (Program.mem_owned.mpr (Or.inr he))
    obtain ⟨heffect, hapart'⟩ := Program.ownEffect h.fs hholds hapart
      (fun e he => h.hasOpen k p e hk (Program.mem_owned.mpr (Or.inl he))) hcall hperform hresume
    exact h.ownEffect hk (fsInv_step h.fs hstep) (perform_fsParams h.fs hperform)
      ⟨(Program.opened_resume hopened hresume).1, hapart'⟩ heffect

theorem owning_start (hfs : Started none fs) : (start ⟨fs, .empty⟩).Owning := by
  have hbounded := (BrokerState.inv_start hfs).bounded
  exact ⟨hbounded.fs, hbounded.params, fun _ _ h => (by cases h), fun _ _ _ h => (by cases h),
    fun _ _ _ _ _ h => (by cases h)⟩

theorem Owning.run (h : s.Owning) (hrun : Outcome.runList BrokerState.step turns s = .ok (rs, s')) :
    s'.Owning :=
  Outcome.runList_invariant (fun _ _ _ _ hs hstep => hs.step hstep) h hrun

/-- A registered publisher stays one, whether or not it has left. -/
theorem Owning.registered_run (h : s.Owning)
    (hrun : Outcome.runList BrokerState.step turns s = .ok (rs, s')) (hk : s.handlers k = some p)
    (hp : p.Registered) : ∃ p', s'.handlers k = some p' ∧ p'.Registered := by
  have hinv : s'.Owning ∧ ∃ p', s'.handlers k = some p' ∧ p'.Registered := by
    refine Outcome.runList_invariant (I := fun s => s.Owning ∧ ∃ p, s.handlers k = some p ∧
      p.Registered) (fun t s r s' hs hstep => ⟨hs.1.step hstep, ?_⟩) ⟨h, p, hk, hp⟩ hrun
    obtain ⟨h, p, hk, hp⟩ := hs
    rcases step_cases hstep with ⟨rfl, -⟩ | ⟨k', client, locals, rfl, hk', rfl⟩ |
      ⟨k', env, q, call, a, b, q', rfl, hk', hcall, hperform, hresume, rfl⟩
    · exact ⟨p, hk, hp⟩
    · have hne : k ≠ k' := by
        rintro rfl
        rw [hk] at hk'
        cases hk'
      exact ⟨p, (handlers_setHandler_ne hne).trans hk, hp⟩
    · by_cases hne : k = k'
      · subst hne
        obtain rfl := Option.some.inj (hk.symm.trans hk')
        exact ⟨q', handlers_setHandler_self,
          (Program.opened_resume (h.opened k p hk).1 hresume).2 hp⟩
      · exact ⟨p, (handlers_setHandler_ne hne).trans hk, hp⟩
  exact hinv.2

/-- **Every file that a handler has open takes an entry of the table.** -/
theorem Owning.sum_card_le (h : s.Owning) {K : Finset Nat} {q : Nat → Program}
    (hK : ∀ k ∈ K, s.handlers k = some (q k)) :
    ∑ k ∈ K, (q k).owned.card ≤ s.broker.fs.openFiles.card := by
  have hdisjoint : (K : Set Nat).PairwiseDisjoint fun k => (q k).owned := by
    intro k hk k' hk' hne
    refine Finset.disjoint_left.mpr fun e he he' => ?_
    exact hne (h.own k k' (q k) (q k') e (hK k hk) (hK k' hk') he he')
  calc ∑ k ∈ K, (q k).owned.card
      = (K.biUnion fun k => (q k).owned).card := (Finset.card_biUnion hdisjoint).symm
    _ ≤ (s.broker.fs.openFiles.map Nat.castEmbedding).card := by
        refine Finset.card_le_card fun e he => ?_
        obtain ⟨k, hk, he⟩ := Finset.mem_biUnion.mp he
        obtain ⟨f, rfl, hf⟩ := h.hasOpen k (q k) e (hK k hk) he
        exact Finset.mem_map_of_mem _ hf
    _ = s.broker.fs.openFiles.card := Finset.card_map _

variable {K L : Finset Nat}

/-- Registered publishers, and handlers that hold a file. -/
theorem Owning.card_add_card_le_openFiles (h : s.Owning)
    (hK : ∀ k ∈ K, ∃ p, s.handlers k = some p ∧ p.Registered)
    (hL : ∀ k ∈ L, ∃ p, s.handlers k = some p ∧ p.held ≠ none) :
    K.card + L.card ≤ s.broker.fs.openFiles.card := by
  have hKL : ∀ k ∈ K ∪ L, ∃ p, s.handlers k = some p := by
    intro k hk
    rcases Finset.mem_union.mp hk with hk | hk
    · exact (hK k hk).imp fun p hp => hp.1
    · exact (hL k hk).imp fun p hp => hp.1
  have : Nonempty Program := ⟨.remove ⟨.tfsUnlink, .ofBuffer [], .ofBuffer [], 0⟩⟩
  choose! q hq using hKL
  have hlost : ∀ k ∈ K, 1 ≤ (q k).lost.card := by
    intro k hk
    have hqk := hq k (Finset.mem_union_left L hk)
    obtain ⟨p, hp, hregistered⟩ := hK k hk
    obtain rfl := Option.some.inj (hp.symm.trans hqk)
    exact Finset.card_pos.mpr (Program.lost_nonempty (h.opened k _ hp).1 hregistered)
  have hheld : ∀ k ∈ L, 1 ≤ (q k).held.elim 0 fun _ => 1 := by
    intro k hk
    have hqk := hq k (Finset.mem_union_right K hk)
    obtain ⟨p, hp, hne⟩ := hL k hk
    obtain rfl := Option.some.inj (hp.symm.trans hqk)
    obtain ⟨e, he⟩ := Option.ne_none_iff_exists'.mp hne
    rw [he]
    exact le_rfl
  calc K.card + L.card
      = ∑ _k ∈ K, 1 + ∑ _k ∈ L, 1 := by rw [Finset.card_eq_sum_ones, Finset.card_eq_sum_ones]
    _ ≤ ∑ k ∈ K, (q k).lost.card + ∑ k ∈ L, (q k).held.elim 0 fun _ => 1 :=
        Nat.add_le_add (Finset.sum_le_sum hlost) (Finset.sum_le_sum hheld)
    _ ≤ ∑ k ∈ K ∪ L, (q k).lost.card + ∑ k ∈ K ∪ L, (q k).held.elim 0 fun _ => 1 :=
        Nat.add_le_add (Finset.sum_le_sum_of_subset Finset.subset_union_left)
          (Finset.sum_le_sum_of_subset Finset.subset_union_right)
    _ = ∑ k ∈ K ∪ L, (q k).owned.card := by
        rw [← Finset.sum_add_distrib]
        refine Finset.sum_congr rfl fun k hk => ?_
        exact (Program.card_owned (h.opened k (q k) (hq k hk)).2).symm
    _ ≤ s.broker.fs.openFiles.card := h.sum_card_le hq

theorem Owning.card_add_card_le (h : s.Owning)
    (hK : ∀ k ∈ K, ∃ p, s.handlers k = some p ∧ p.Registered)
    (hL : ∀ k ∈ L, ∃ p, s.handlers k = some p ∧ p.held ≠ none) :
    K.card + L.card ≤ tfsDefaultParams.maxOpenFilesCount := by
  rw [← h.params]
  exact (h.card_add_card_le_openFiles hK hL).trans SlotTable.card_used_le

/-- With as many registered publishers as entries, the table is full. -/
theorem Owning.noHandle (h : s.Owning) (hcard : K.card = tfsDefaultParams.maxOpenFilesCount)
    (hK : ∀ k ∈ K, ∃ p, s.handlers k = some p ∧ p.Registered) : s.broker.fs.NoHandle := by
  have hle := h.card_add_card_le_openFiles (L := ∅) hK fun k hk => absurd hk (Finset.notMem_empty k)
  rw [Finset.card_empty, Nat.add_zero, hcard, ← h.params] at hle
  have hall : s.broker.fs.openFiles = Finset.range s.broker.fs.fsParams.maxOpenFilesCount := by
    refine Finset.eq_of_subset_of_card_le (Finset.filter_subset _ _) ?_
    rwa [Finset.card_range]
  intro f hf
  have hmem : f ∈ s.broker.fs.openFiles := by
    rw [hall]
    exact Finset.mem_range.mpr hf
  exact (TfsState.mem_openFiles.mp hmem).2

end BrokerState

open BrokerState in
/-- **How many publishers a broker takes in its life.**  Each one that has been registered, and has
left or not, takes an entry of the table of open files for good, and each file that a handler
is going to close takes one for the time being.  When there are as many registered publishers as
entries, no file is ever opened again, and no other publisher is registered. -/
theorem registrations_bounded {fs : TfsState} {turns : List BrokerTurn} {rs : List Unit}
    {s : BrokerState} {K : Finset Nat} (hfs : Started none fs)
    (hrun : Outcome.runList step turns (start ⟨fs, .empty⟩) = .ok (rs, s))
    (hK : ∀ k ∈ K, ∃ p, s.handlers k = some p ∧ p.Registered) :
    (∀ L : Finset Nat, (∀ k ∈ L, ∃ p, s.handlers k = some p ∧ p.held ≠ none) →
      K.card + L.card ≤ tfsDefaultParams.maxOpenFilesCount) ∧
    (K.card = tfsDefaultParams.maxOpenFilesCount → ∀ turns' rs' s',
      Outcome.runList step turns' s = .ok (rs', s') →
        s'.broker.fs.NoHandle ∧ ∀ k p, s'.handlers k = some p → p.Registered → k ∈ K) := by
  have howning := (owning_start hfs).run hrun
  refine ⟨fun L hL => howning.card_add_card_le hK hL, fun hcard turns' rs' s' hrun' => ?_⟩
  have howning' := howning.run hrun'
  have hK' : ∀ k ∈ K, ∃ p, s'.handlers k = some p ∧ p.Registered := by
    intro k hk
    obtain ⟨p, hp, hregistered⟩ := hK k hk
    exact howning.registered_run hrun' hp hregistered
  refine ⟨howning'.noHandle hcard hK', fun k p hk hp => ?_⟩
  -- One more would be too many.
  by_contra hnot
  have hmore : ∀ k' ∈ insert k K, ∃ p, s'.handlers k' = some p ∧ p.Registered := by
    intro k' hk'
    rcases Finset.mem_insert.mp hk' with rfl | hk'
    · exact ⟨p, hk, hp⟩
    · exact hK' k' hk'
  have hle := howning'.card_add_card_le (L := ∅) hmore fun k hk => absurd hk (Finset.notMem_empty k)
  rw [Finset.card_insert_of_notMem hnot, hcard] at hle
  omega

open BrokerState in
/-- A publisher has come and gone; no more than 15 follow. -/
theorem registrations_bounded_onePublisher : ∃ rs s,
    Outcome.runList step onePublisher (start ⟨initial, .empty⟩) = .ok (rs, s) ∧
      (∃ p, s.handlers 1 = some p ∧ p.Registered) ∧
      ∀ L : Finset Nat, (∀ k ∈ L, ∃ p, s.handlers k = some p ∧ p.held ≠ none) →
        1 + L.card ≤ 16 := by
  have hresult : (Outcome.runList step onePublisher (start ⟨initial, .empty⟩)).map (fun p =>
      (p.2.handlers 1).any fun q => match q with | .publisher f => f.ver | _ => false) =
        .ok true := by
    decide +kernel
  obtain ⟨⟨rs, s⟩, hrun, hany⟩ := Outcome.map_eq_ok.mp hresult
  obtain ⟨q, hk, hver⟩ := (Option.any_eq_true _ _).mp hany
  have hq : q.Registered := by
    cases q with
    | publisher f => exact hver
    | _ => cases hver
  refine ⟨rs, s, hrun, ⟨q, hk, hq⟩, ?_⟩
  have hK : ∀ k ∈ ({1} : Finset Nat), ∃ p, s.handlers k = some p ∧ p.Registered := by
    intro k hmem
    obtain rfl := Finset.mem_singleton.mp hmem
    exact ⟨q, hk, hq⟩
  exact (registrations_bounded started_initial hrun hK).1

end Mbroker
