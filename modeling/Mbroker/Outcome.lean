/-
Outcomes of C code.

A modelled call either returns (`ok`), ends the process through a failed
assertion (`panic`), or reaches undefined behaviour (`fault`: a division by
zero, or a copy outside the object it works on).  Only the first leaves a
state to go on from, so `Outcome` is a monad in which the other two are
absorbing:

* `Outcome.bind_eq_ok` — a sequence returns exactly when both halves do;
* `Outcome.runList` — a list of calls, each started where the last one ended;
* `Outcome.runList_invariant` — what every call preserves, every run preserves;
* `Outcome.runList_simulates` — a program that refines a machine on every call
  does so on every run;
* `Outcome.runList_invariant_of_reaches`, `Outcome.runList_safe` — the same for
  steps that meet a condition;
* `Outcome.good_iff_meets_of_kind`, `Outcome.good_iff_meets` — when such a condition is
  exact;
* `Outcome.through_cons` — runs that return and go through good states only;
* `Outcome.runList_eq_panic`, `Outcome.runList_returns` — a run fails exactly
  when it reaches a call that fails;
* `Outcome.Related.bind` — two computations, step by step.
-/
import Mathlib.Logic.Basic
import Mathlib.Data.List.Basic

/-- What a C call comes to. -/
inductive Outcome (α : Type) where
  | ok (value : α)
  | panic (message : String)
  | fault
deriving DecidableEq

namespace Outcome

variable {α β ρ σ : Type}

/-- Sequencing: a failed assertion or undefined behaviour ends the run. -/
def bind : Outcome α → (α → Outcome β) → Outcome β
  | ok a, f => f a
  | panic msg, _ => panic msg
  | fault, _ => fault

instance : Monad Outcome where
  pure := ok
  bind := bind

@[simp] theorem pure_eq_ok (a : α) : (pure a : Outcome α) = ok a := rfl

@[simp] theorem ok_bind (a : α) (f : α → Outcome β) : (ok a >>= f) = f a := rfl

@[simp] theorem panic_bind (msg : String) (f : α → Outcome β) :
    ((panic msg : Outcome α) >>= f) = panic msg := rfl

@[simp] theorem fault_bind (f : α → Outcome β) : ((fault : Outcome α) >>= f) = fault := rfl

instance (x : Outcome (α × β)) (P : α → β → Prop) [∀ a b, Decidable (P a b)] :
    Decidable (∃ a b, x = ok (a, b) ∧ P a b) :=
  match x with
  | ok (a, b) => decidable_of_iff (P a b) (by simp)
  | panic _ => .isFalse (by simp)
  | fault => .isFalse (by simp)

theorem bind_eq_ok {x : Outcome α} {f : α → Outcome β} {b : β} :
    (x >>= f) = ok b ↔ ∃ a, x = ok a ∧ f a = ok b := by
  cases x with
  | ok a => simp
  | panic msg => simp
  | fault => simp

theorem bind_assoc {γ : Type} {x : Outcome α} {f : α → Outcome β} {g : β → Outcome γ} :
    x >>= f >>= g = x >>= fun a => f a >>= g := by
  cases x <;> rfl

theorem bind_congr {x : Outcome α} {f g : α → Outcome β} (h : ∀ a, x = ok a → f a = g a) :
    (x >>= f) = x >>= g := by
  cases x with
  | ok a => exact h a rfl
  | panic msg => rfl
  | fault => rfl

/-- A call that also keeps a history of what the calls did. -/
theorem recorded_eq_ok {x : Outcome (ρ × σ)} {next : ρ → σ → β} {r : ρ} {t : β} :
    (x >>= fun p => pure (p.1, next p.1 p.2)) = ok (r, t) ↔ ∃ s, x = ok (r, s) ∧ t = next r s := by
  rw [bind_eq_ok]
  constructor
  · rintro ⟨⟨r', s⟩, hx, h⟩
    obtain ⟨rfl, rfl⟩ := Prod.mk.inj (ok.inj h)
    exact ⟨s, hx, rfl⟩
  · rintro ⟨s, hx, rfl⟩
    exact ⟨(r, s), hx, rfl⟩

/-- A part of what a call returns. -/
def map (f : α → β) : Outcome α → Outcome β
  | ok a => ok (f a)
  | panic msg => panic msg
  | fault => fault

theorem map_eq_ok {f : α → β} {x : Outcome α} {b : β} :
    x.map f = ok b ↔ ∃ a, x = ok a ∧ f a = b := by
  cases x <;> simp [map]

theorem map_bind {γ : Type} {x : Outcome α} {f : α → Outcome β} {g : β → γ} :
    (x >>= f).map g = x >>= fun a => (f a).map g := by
  cases x <;> rfl

theorem bind_map {γ : Type} {x : Outcome α} {f : α → β} {g : β → Outcome γ} :
    (x.map f >>= g) = x >>= fun a => g (f a) := by
  cases x <;> rfl

theorem map_eq_panic {f : α → β} {x : Outcome α} {msg : String} :
    x.map f = panic msg ↔ x = panic msg := by
  cases x <;> simp [map]

/-- `ALWAYS_ASSERT(cond, message)`. -/
def alwaysAssert (cond : Bool) (message : String) : Outcome Unit :=
  if cond then ok () else panic message

@[simp] theorem alwaysAssert_true (message : String) : alwaysAssert true message = ok () := rfl

@[simp] theorem alwaysAssert_false (message : String) :
    alwaysAssert false message = panic message := rfl

/-- A step of the program per list element, collecting what each one returned. -/
def runList (step : α → σ → Outcome (ρ × σ)) : List α → σ → Outcome (List ρ × σ)
  | [], s => ok ([], s)
  | c :: cs, s => do
    let (r, s) ← step c s
    let (rs, s) ← runList step cs s
    return (r :: rs, s)

@[simp] theorem runList_nil (step : α → σ → Outcome (ρ × σ)) (s : σ) :
    runList step [] s = ok ([], s) := rfl

theorem runList_cons_eq_ok {step : α → σ → Outcome (ρ × σ)} {c : α} {cs : List α} {s s' : σ}
    {rs : List ρ} :
    runList step (c :: cs) s = ok (rs, s') ↔
      ∃ r s₁ rs', step c s = ok (r, s₁) ∧ runList step cs s₁ = ok (rs', s') ∧ rs = r :: rs' := by
  simp only [runList, bind_eq_ok, Prod.exists, pure_eq_ok, ok.injEq, Prod.mk.injEq]
  constructor
  · rintro ⟨r, s₁, h₁, rs', s₂, h₂, rfl, rfl⟩
    exact ⟨r, s₁, rs', h₁, h₂, rfl⟩
  · rintro ⟨r, s₁, rs', h₁, h₂, rfl⟩
    exact ⟨r, s₁, h₁, rs', s', h₂, rfl, rfl⟩

/-- The state that a run ends in. -/
theorem map_snd_runList_cons {step : α → σ → Outcome (ρ × σ)} {c : α} {cs : List α} {s : σ} :
    (runList step (c :: cs) s).map Prod.snd =
      step c s >>= fun r => (runList step cs r.2).map Prod.snd := by
  rw [runList, map_bind]
  refine bind_congr fun r _ => ?_
  obtain ⟨r, s₁⟩ := r
  dsimp only
  cases runList step cs s₁ <;> rfl

/-- A run of two lists is one run after the other. -/
theorem runList_append_eq_ok {step : α → σ → Outcome (ρ × σ)} {cs ds : List α} {s s' : σ}
    {rs : List ρ} :
    runList step (cs ++ ds) s = ok (rs, s') ↔ ∃ rs₁ s₁ rs₂, runList step cs s = ok (rs₁, s₁) ∧
      runList step ds s₁ = ok (rs₂, s') ∧ rs = rs₁ ++ rs₂ := by
  induction cs generalizing s rs with
  | nil => simp
  | cons c cs ih =>
    rw [List.cons_append, runList_cons_eq_ok]
    constructor
    · rintro ⟨r, t, rs', hc, hrest, rfl⟩
      obtain ⟨rs₁, s₁, rs₂, hcs, hds, rfl⟩ := ih.mp hrest
      exact ⟨r :: rs₁, s₁, rs₂, runList_cons_eq_ok.mpr ⟨r, t, rs₁, hc, hcs, rfl⟩, hds, rfl⟩
    · rintro ⟨rs₁, s₁, rs₂, hcons, hds, rfl⟩
      obtain ⟨r, t, rs', hc, hcs, rfl⟩ := runList_cons_eq_ok.mp hcons
      exact ⟨r, t, rs' ++ rs₂, hc, ih.mpr ⟨rs', s₁, rs₂, hcs, hds, rfl⟩, rfl⟩

theorem length_of_runList {step : α → σ → Outcome (ρ × σ)} {cs : List α} {s s' : σ} {rs : List ρ}
    (h : runList step cs s = ok (rs, s')) : rs.length = cs.length := by
  induction cs generalizing s rs with
  | nil =>
    obtain ⟨rfl, -⟩ := Prod.mk.inj (ok.inj h)
    rfl
  | cons c cs ih =>
    obtain ⟨r, s₁, rs', -, hrest, rfl⟩ := runList_cons_eq_ok.mp h
    rw [List.length_cons, List.length_cons, ih hrest]

/-- **Invariant rule for runs**: what every returning step preserves, every
returning run preserves. -/
theorem runList_invariant {step : α → σ → Outcome (ρ × σ)} {I : σ → Prop}
    (hstep : ∀ c s r s', I s → step c s = ok (r, s') → I s') :
    ∀ {cs : List α} {s s' : σ} {rs : List ρ}, I s → runList step cs s = ok (rs, s') → I s' := by
  intro cs
  induction cs with
  | nil =>
    intro s s' rs hs h
    simp only [runList_nil, ok.injEq, Prod.mk.injEq] at h
    exact h.2 ▸ hs
  | cons c cs ih =>
    intro s s' rs hs h
    obtain ⟨r, s₁, rs', h₁, h₂, -⟩ := runList_cons_eq_ok.mp h
    exact ih (hstep c s r s₁ hs h₁) h₂

section Refinement

variable {τ : Type}

/-- A machine that never fails, run on a list of inputs. -/
def runMachine (astep : α → τ → ρ × τ) : List α → τ → List ρ × τ
  | [], a => ([], a)
  | c :: cs, a =>
    let (r, a) := astep c a
    let (rs, a) := runMachine astep cs a
    (r :: rs, a)

/-- Every input of the list is one the machine allows in the state it gets to. -/
def Allowed (ok : α → τ → Prop) (astep : α → τ → ρ × τ) : List α → τ → Prop
  | [], _ => True
  | c :: cs, a => ok c a ∧ Allowed ok astep cs (astep c a).2

instance (ok : α → τ → Prop) [∀ c a, Decidable (ok c a)] (astep : α → τ → ρ × τ) :
    ∀ cs a, Decidable (Allowed ok astep cs a)
  | [], _ => inferInstanceAs (Decidable True)
  | _ :: cs, _ =>
    have := instDecidableAllowed ok astep cs
    inferInstanceAs (Decidable (_ ∧ _))

/-- **Refinement rule for runs**: a program that answers every allowed input the
way the machine does, and stays related to it, does so along every allowed run. -/
theorem runList_simulates {step : α → σ → Outcome (ρ × σ)} {astep : α → τ → ρ × τ}
    {Sim : σ → τ → Prop} {ok : α → τ → Prop}
    (hstep : ∀ c s a, Sim s a → ok c a →
      ∃ s', step c s = .ok ((astep c a).1, s') ∧ Sim s' (astep c a).2) :
    ∀ {cs : List α} {s : σ} {a : τ}, Sim s a → Allowed ok astep cs a →
      ∃ s', runList step cs s = .ok ((runMachine astep cs a).1, s') ∧
        Sim s' (runMachine astep cs a).2 := by
  intro cs
  induction cs with
  | nil => exact fun hsim _ => ⟨_, rfl, hsim⟩
  | cons c cs ih =>
    rintro s a hsim ⟨hc, hcs⟩
    obtain ⟨s₁, hstep₁, hsim₁⟩ := hstep c s a hsim hc
    obtain ⟨s', hrun, hsim'⟩ := ih hsim₁ hcs
    exact ⟨s', runList_cons_eq_ok.mpr ⟨_, s₁, _, hstep₁, hrun, rfl⟩, hsim'⟩

end Refinement

/-- A step that a run gets to: one of its elements, and the state at which the
run starts it. -/
def Reaches (step : α → σ → Outcome (ρ × σ)) (cs : List α) (s : σ) (c : α) (s' : σ) : Prop :=
  ∃ pre post rs, cs = pre ++ c :: post ∧ runList step pre s = ok (rs, s')

section Reaches

variable {step : α → σ → Outcome (ρ × σ)} {c d : α} {cs : List α} {s s₁ s' : σ}

theorem reaches_nil : ¬ Reaches step [] s d s' := by
  rintro ⟨pre, post, rs, h, -⟩
  cases pre <;> cases h

theorem reaches_head : Reaches step (c :: cs) s c s := ⟨[], cs, [], rfl, rfl⟩

theorem Reaches.tail {r : ρ} (h : Reaches step cs s₁ d s') (hc : step c s = ok (r, s₁)) :
    Reaches step (c :: cs) s d s' := by
  obtain ⟨pre, post, rs, rfl, hrun⟩ := h
  exact ⟨c :: pre, post, r :: rs, rfl, runList_cons_eq_ok.mpr ⟨r, s₁, rs, hc, hrun, rfl⟩⟩

theorem reaches_cons : Reaches step (c :: cs) s d s' ↔
    d = c ∧ s' = s ∨ ∃ r s₁, step c s = ok (r, s₁) ∧ Reaches step cs s₁ d s' := by
  constructor
  · rintro ⟨pre, post, rs, heq, hrun⟩
    cases pre with
    | nil =>
      obtain ⟨rfl, rfl⟩ := List.cons.inj heq
      simp only [runList_nil, ok.injEq, Prod.mk.injEq] at hrun
      exact Or.inl ⟨rfl, hrun.2.symm⟩
    | cons e pre =>
      obtain ⟨rfl, rfl⟩ := List.cons.inj heq
      obtain ⟨r, s₁, rs', hstep, hrun, -⟩ := runList_cons_eq_ok.mp hrun
      exact Or.inr ⟨r, s₁, hstep, pre, post, rs', rfl, hrun⟩
  · rintro (⟨rfl, rfl⟩ | ⟨r, s₁, hstep, h⟩)
    · exact reaches_head
    · exact h.tail hstep

/-- A step reached in a state that satisfies the invariant. -/
theorem Reaches.invariant {I : σ → Prop} (h : Reaches step cs s d s')
    (hstep : ∀ c s r s', I s → step c s = ok (r, s') → I s') (hs : I s) : I s' := by
  obtain ⟨pre, post, rs, -, hrun⟩ := h
  exact runList_invariant hstep hs hrun

/-- A run panics exactly when it gets to a call that does. -/
theorem runList_eq_panic {msg : String} :
    runList step cs s = panic msg ↔ ∃ c s', Reaches step cs s c s' ∧ step c s' = panic msg := by
  induction cs generalizing s with
  | nil =>
    simp only [runList_nil, reduceCtorEq, false_iff, not_exists, not_and]
    exact fun c s' h => absurd h reaches_nil
  | cons c cs ih =>
    simp only [reaches_cons]
    rw [runList]
    cases hc : step c s with
    | ok p =>
      obtain ⟨r, s₁⟩ := p
      have hrest : (runList step cs s₁ >>= fun p => pure (r :: p.1, p.2)) = panic msg ↔
          runList step cs s₁ = panic msg := by
        cases runList step cs s₁ <;> simp
      rw [ok_bind, hrest, ih]
      constructor
      · rintro ⟨d, s', hd, hp⟩
        exact ⟨d, s', Or.inr ⟨r, s₁, rfl, hd⟩, hp⟩
      · rintro ⟨d, s', ⟨rfl, rfl⟩ | ⟨r', s₁', heq, hd⟩, hp⟩
        · rw [hc] at hp
          cases hp
        · obtain ⟨rfl, rfl⟩ := Prod.mk.inj (ok.inj heq)
          exact ⟨d, s', hd, hp⟩
    | panic msg' =>
      rw [panic_bind]
      constructor
      · intro h
        exact ⟨c, s, Or.inl ⟨rfl, rfl⟩, hc.trans (by simpa using h)⟩
      · rintro ⟨d, s', ⟨rfl, rfl⟩ | ⟨r', s₁', heq, -⟩, hp⟩
        · exact (by simpa using hc.symm.trans hp)
        · cases heq
    | fault =>
      rw [fault_bind]
      simp only [reduceCtorEq, false_iff, not_exists, not_and]
      rintro d s' (⟨rfl, rfl⟩ | ⟨r', s₁', heq, -⟩) hp
      · rw [hc] at hp
        cases hp
      · cases heq

/-- **Guarded invariant rule**: what every returning step that meets a condition
preserves, every returning run whose steps all meet it preserves. -/
theorem runList_invariant_of_reaches {I : σ → Prop} {ok : α → σ → Prop} {rs : List ρ}
    (hstep : ∀ c s r s', I s → ok c s → step c s = .ok (r, s') → I s')
    (hok : ∀ c s', Reaches step cs s c s' → ok c s') (hs : I s)
    (hrun : runList step cs s = .ok (rs, s')) : I s' := by
  induction cs generalizing s rs with
  | nil =>
    simp only [runList_nil, Outcome.ok.injEq, Prod.mk.injEq] at hrun
    exact hrun.2 ▸ hs
  | cons c cs ih =>
    obtain ⟨r, s₁, rs', hc, hcs, -⟩ := runList_cons_eq_ok.mp hrun
    exact ih (fun d s' hd => hok d s' (hd.tail hc))
      (hstep c s r s₁ hs (hok c s reaches_head) hc) hcs

/-- **Safety rule**: when every step that meets a condition returns and preserves
the invariant, so does every run whose steps all meet it. -/
theorem runList_safe {I : σ → Prop} {ok : α → σ → Prop}
    (hstep : ∀ c s, I s → ok c s → ∃ r s', step c s = .ok (r, s') ∧ I s')
    (hok : ∀ c s', Reaches step cs s c s' → ok c s') (hs : I s) :
    ∃ rs s', runList step cs s = .ok (rs, s') ∧ I s' := by
  induction cs generalizing s with
  | nil => exact ⟨_, _, rfl, hs⟩
  | cons c cs ih =>
    obtain ⟨r, s₁, hc, hs₁⟩ := hstep c s hs (hok c s reaches_head)
    obtain ⟨rs, s', hcs, hs'⟩ := ih (fun d s' hd => hok d s' (hd.tail hc)) hs₁
    exact ⟨_, s', runList_cons_eq_ok.mpr ⟨r, s₁, rs, hc, hcs, rfl⟩, hs'⟩

/-- Every step that a run gets to meets a condition; this can be computed. -/
def Meets (ok : α → σ → Prop) (step : α → σ → Outcome (ρ × σ)) : List α → σ → Prop
  | [], _ => True
  | c :: cs, s =>
    ok c s ∧ match step c s with
      | .ok (_, s') => Meets ok step cs s'
      | _ => True

instance (ok : α → σ → Prop) [∀ c s, Decidable (ok c s)] (step : α → σ → Outcome (ρ × σ)) :
    ∀ cs s, Decidable (Meets ok step cs s)
  | [], _ => inferInstanceAs (Decidable True)
  | c :: cs, s =>
    match h : step c s with
    | .ok (_, s') =>
      have := instDecidableMeets ok step cs s'
      decidable_of_iff (ok c s ∧ Meets ok step cs s') (by rw [Meets, h])
    | .panic _ => decidable_of_iff (ok c s ∧ True) (by rw [Meets, h])
    | .fault => decidable_of_iff (ok c s ∧ True) (by rw [Meets, h])

theorem Meets.reaches {ok : α → σ → Prop} (h : Meets ok step cs s) (hd : Reaches step cs s d s') :
    ok d s' := by
  induction cs generalizing s with
  | nil => exact absurd hd reaches_nil
  | cons c cs ih =>
    rcases reaches_cons.mp hd with ⟨rfl, rfl⟩ | ⟨r, s₁, hc, hd⟩
    · exact h.1
    · refine ih (s := s₁) ?_ hd
      have hrest := h.2
      rw [hc] at hrest
      exact hrest

theorem Meets.and {ok ok' : α → σ → Prop} (h : Meets ok step cs s) (h' : Meets ok' step cs s) :
    Meets (fun c s => ok c s ∧ ok' c s) step cs s := by
  induction cs generalizing s with
  | nil => trivial
  | cons c cs ih =>
    refine ⟨⟨h.1, h'.1⟩, ?_⟩
    have hrest := h.2
    have hrest' := h'.2
    cases hc : step c s with
    | ok p =>
      rw [hc] at hrest hrest'
      exact ih hrest hrest'
    | panic msg => trivial
    | fault => trivial

/-- A step reached by steps that meet a condition. -/
theorem Reaches.invariant_of_meets {I : σ → Prop} {ok : α → σ → Prop} (h : Reaches step cs s d s')
    (hstep : ∀ c s r s', I s → ok c s → step c s = .ok (r, s') → I s') (hmeets : Meets ok step cs s)
    (hs : I s) : I s' := by
  induction cs generalizing s with
  | nil => exact absurd h reaches_nil
  | cons c cs ih =>
    rcases reaches_cons.mp h with ⟨-, rfl⟩ | ⟨r, s₁, hc, hd⟩
    · exact hs
    · obtain ⟨hok, hrest⟩ := hmeets
      rw [hc] at hrest
      exact ih hd hrest (hstep c s r s₁ hs hok hc)

/-- A condition that holds in every state. -/
theorem meets_of_forall {ok : α → σ → Prop} (h : ∀ c ∈ cs, ∀ s, ok c s) : Meets ok step cs s := by
  induction cs generalizing s with
  | nil => trivial
  | cons c cs ih =>
    refine ⟨h c List.mem_cons_self s, ?_⟩
    split
    · exact ih fun d hd => h d (List.mem_cons_of_mem c hd)
    · trivial

/-- **Exactly the runs that meet a condition.**  Among the steps of a kind, one that meets
the condition keeps the invariant, which is good, and one that breaks it returns and leads
to what is not good.  Then the runs of such steps that go through good states only are
those whose steps all meet it. -/
theorem good_iff_meets_of_kind {I good : σ → Prop} {kind ok : α → σ → Prop}
    (hstep : ∀ c s r s', I s → kind c s → ok c s → step c s = .ok (r, s') → I s')
    (hgood : ∀ s, I s → good s)
    (hbad : ∀ c s, I s → kind c s → ¬ ok c s → ∃ r s', step c s = .ok (r, s') ∧ ¬ good s')
    (hkind : Meets kind step cs s) (hs : I s) :
    (∀ n rs s', runList step (cs.take n) s = .ok (rs, s') → good s') ↔ Meets ok step cs s := by
  induction cs generalizing s with
  | nil =>
    refine ⟨fun _ => trivial, fun _ n rs s' h => ?_⟩
    rw [List.take_nil] at h
    obtain ⟨-, rfl⟩ := Prod.mk.inj (Outcome.ok.inj h)
    exact hgood s hs
  | cons c cs ih =>
    obtain ⟨hc, hkind⟩ := hkind
    have hrest : ∀ {r s₁}, step c s = .ok (r, s₁) → Meets kind step cs s₁ := by
      intro r s₁ hc
      rwa [hc] at hkind
    constructor
    · intro h
      have hok : ok c s := by
        by_contra hno
        obtain ⟨r, s', hcall, hbad⟩ := hbad c s hs hc hno
        exact hbad (h 1 [r] s' (runList_cons_eq_ok.mpr ⟨r, s', [], hcall, rfl, rfl⟩))
      refine ⟨hok, ?_⟩
      cases hcall : step c s with
      | ok p =>
        obtain ⟨r, s₁⟩ := p
        refine (ih (hrest hcall) (hstep c s r s₁ hs hc hok hcall)).mp fun n rs s' hrun => ?_
        exact h (n + 1) (r :: rs) s' (runList_cons_eq_ok.mpr ⟨r, s₁, rs, hcall, hrun, rfl⟩)
      | panic msg => trivial
      | fault => trivial
    · rintro ⟨hok, hmeets⟩ n rs s' hrun
      cases n with
      | zero =>
        obtain ⟨-, rfl⟩ := Prod.mk.inj (Outcome.ok.inj hrun)
        exact hgood s hs
      | succ n =>
        obtain ⟨r, s₁, rs', hcall, hrun, -⟩ := runList_cons_eq_ok.mp hrun
        rw [hcall] at hmeets
        exact (ih (hrest hcall) (hstep c s r s₁ hs hc hok hcall)).mpr hmeets n rs' s' hrun

/-- The same, for steps of any kind. -/
theorem good_iff_meets {I good : σ → Prop} {ok : α → σ → Prop}
    (hstep : ∀ c s r s', I s → ok c s → step c s = .ok (r, s') → I s') (hgood : ∀ s, I s → good s)
    (hbad : ∀ c s, I s → ¬ ok c s → ∃ r s', step c s = .ok (r, s') ∧ ¬ good s') (hs : I s) :
    (∀ n rs s', runList step (cs.take n) s = .ok (rs, s') → good s') ↔ Meets ok step cs s :=
  @good_iff_meets_of_kind _ _ _ step cs s I good (fun _ _ => True) ok
    (fun c s r s' hs _ => hstep c s r s' hs) hgood (fun c s hs _ => hbad c s hs)
    (meets_of_forall fun _ _ _ => trivial) hs

/-- Every prefix of the list returns, and leads to a good state. -/
def Through (good : σ → Prop) (step : α → σ → Outcome (ρ × σ)) (cs : List α) (s : σ) : Prop :=
  ∀ n, ∃ rs s', runList step (cs.take n) s = .ok (rs, s') ∧ good s'

/-- A run that goes through good states only starts in one. -/
theorem Through.good {good : σ → Prop} (h : Through good step cs s) : good s := by
  obtain ⟨rs, s', hrun, hgood⟩ := h 0
  obtain ⟨-, rfl⟩ := Prod.mk.inj (Outcome.ok.inj hrun)
  exact hgood

theorem through_nil {good : σ → Prop} : Through good step [] s ↔ good s := by
  refine ⟨Through.good, fun h n => ?_⟩
  rw [List.take_nil]
  exact ⟨[], s, rfl, h⟩

theorem through_cons {good : σ → Prop} : Through good step (c :: cs) s ↔
    good s ∧ ∃ r s', step c s = .ok (r, s') ∧ Through good step cs s' := by
  constructor
  · intro h
    obtain ⟨rs₁, s₁, hrun₁, -⟩ := h 1
    obtain ⟨r, s', rs', hcall, -, -⟩ := runList_cons_eq_ok.mp hrun₁
    refine ⟨h.good, r, s', hcall, fun n => ?_⟩
    obtain ⟨rs, s₂, hrun, hgood⟩ := h (n + 1)
    obtain ⟨r', s₃, rs'', hcall', hrest, -⟩ := runList_cons_eq_ok.mp hrun
    obtain ⟨-, rfl⟩ := Prod.mk.inj (Outcome.ok.inj (hcall.symm.trans hcall'))
    exact ⟨rs'', s₂, hrest, hgood⟩
  · rintro ⟨hs, r, s', hcall, h⟩ n
    cases n with
    | zero => exact ⟨[], s, rfl, hs⟩
    | succ n =>
      obtain ⟨rs, s₂, hrun, hgood⟩ := h n
      exact ⟨r :: rs, s₂, runList_cons_eq_ok.mpr ⟨r, s', rs, hcall, hrun, rfl⟩, hgood⟩

/-- A run returns when every call that it gets to does. -/
theorem runList_returns (h : ∀ c s', Reaches step cs s c s' → ∃ r, step c s' = ok r) :
    ∃ r, runList step cs s = ok r := by
  induction cs generalizing s with
  | nil => exact ⟨_, rfl⟩
  | cons c cs ih =>
    obtain ⟨⟨r, s₁⟩, hc⟩ := h c s reaches_head
    obtain ⟨⟨rs, s'⟩, hcs⟩ := ih fun d s' hd => h d s' (hd.tail hc)
    exact ⟨_, runList_cons_eq_ok.mpr ⟨r, s₁, rs, hc, hcs, rfl⟩⟩

end Reaches

/-! ### Two computations -/

/-- Two computations end in the same way, and what they return is related. -/
inductive Related (R : α → β → Prop) : Outcome α → Outcome β → Prop
  | ok {a : α} {b : β} (h : R a b) : Related R (ok a) (ok b)
  | panic (msg : String) : Related R (panic msg) (panic msg)
  | fault : Related R fault fault

section Related

variable {γ δ : Type} {R : α → β → Prop} {S : γ → δ → Prop} {x : Outcome α} {y : Outcome β}

theorem related_self (x : Outcome α) : Related (fun a b => a = b) x x := by
  cases x with
  | ok a => exact .ok rfl
  | panic msg => exact .panic msg
  | fault => exact .fault

/-- **Sequencing**: related results, and related continuations. -/
theorem Related.bind {f : α → Outcome γ} {g : β → Outcome δ} (h : Related R x y)
    (hfg : ∀ a b, R a b → Related S (f a) (g b)) : Related S (x >>= f) (y >>= g) := by
  cases h with
  | ok hab => exact hfg _ _ hab
  | panic msg => exact .panic msg
  | fault => exact .fault

/-- What is returned is remembered. -/
theorem Related.with_eq (h : Related R x y) : Related (fun a b => R a b ∧ x = .ok a) x y := by
  cases h with
  | ok hab => exact .ok ⟨hab, rfl⟩
  | panic msg => exact .panic msg
  | fault => exact .fault

/-- The first step is one and the same. -/
theorem related_bind {f : α → Outcome γ} {g : α → Outcome δ} (x : Outcome α)
    (hfg : ∀ a, Related S (f a) (g a)) : Related S (x >>= f) (x >>= g) :=
  (related_self x).bind fun a _ hab => hab ▸ hfg a

theorem Related.mono {R' : α → β → Prop} (h : Related R x y) (hR : ∀ a b, R a b → R' a b) :
    Related R' x y := by
  cases h with
  | ok hab => exact .ok (hR _ _ hab)
  | panic msg => exact .panic msg
  | fault => exact .fault

end Related

end Outcome
