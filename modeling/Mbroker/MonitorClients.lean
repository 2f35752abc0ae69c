/-
Programs that call an object under one lock.

`Monitor` says what is seen of the object; here is what the object does to those who call it.
Each party runs a program of its own: at a call of the object it does what the code of the call
says, an access at a time, and goes on with the result; its other steps are on what is outside of
the object.  A party goes on up to its next access, so that giving the lock back and returning are
one step.

* `Clients.Matches` — only the party with the lock is inside a call, and the object is as it left
  it but for what that party has done to it;
* **`exists_atomic`** — the parties, and what is outside, are at every time as they are in a run
  in which every call is a single step, and so is the object whenever the lock is free;
* **`exists_clients`** — every run with such calls is one of these;
* **`exists_step`** — the lock stops nobody whom the atomic calls would not stop.
-/
import Mbroker.Monitor
import Mathlib.Logic.Relation

namespace Monitor

open Relation

/-- What the parties run: the call of the object that a program is at, how it goes on with the
result, and what it does at other places. -/
structure Programs (κ ρ τ π : Type) where
  call : π → Option κ
  resume : ρ → π → Outcome π
  other : τ × π → τ × π → Prop

/-- The object, what is outside of it, and the parties; a party may be inside a call. -/
structure Clients (ι σ τ π ρ : Type) where
  state : σ
  outside : τ
  party : ι → π
  holder : Option ι
  inside : ι → Option (Code σ ρ)

/-- The same, when a call is a single step. -/
@[ext] structure AtomicClients (ι σ τ π : Type) where
  state : σ
  outside : τ
  party : ι → π

variable {ι κ σ τ π ρ : Type} [DecidableEq ι]

/-- After a step inside a call: the party has come to its next access, or goes on with the
result. -/
inductive Programs.Goes (P : Programs κ ρ τ π) : Code σ ρ → π → Option (Code σ ρ) → π → Prop
  | inside {code : Code σ ρ} {p : π} (h : ∀ r, code ≠ .ret r) : P.Goes code p (some code) p
  | back {r : ρ} {p p' : π} (h : P.resume r p = .ok p') : P.Goes (.ret r) p none p'

namespace Clients

/-- The code that a party is at. -/
def At (body : κ → Code σ ρ) (P : Programs κ ρ τ π) (t : Clients ι σ τ π ρ) (i : ι)
    (code : Code σ ρ) : Prop :=
  match t.inside i with
  | none => ∃ c, P.call (t.party i) = some c ∧ body c = code
  | some code' => code' = code

/-- A party comes to a place. -/
def moveTo (t : Clients ι σ τ π ρ) (i : ι) (x : Option (Code σ ρ)) (p : π) : Clients ι σ τ π ρ :=
  { t with party := Function.update t.party i p, inside := Function.update t.inside i x }

/-- A step of a party. -/
inductive Step (body : κ → Code σ ρ) (P : Programs κ ρ τ π) (t : Clients ι σ τ π ρ) (i : ι) :
    Clients ι σ τ π ρ → Prop
  | other (o : τ) (p : π) (hout : t.inside i = none) (hcall : P.call (t.party i) = none)
      (h : P.other (t.outside, t.party i) (o, p)) :
      Step body P t i { t with outside := o, party := Function.update t.party i p }
  | lock (next : Code σ ρ) (x : Option (Code σ ρ)) (p : π) (hi : t.At body P i (.lock next))
      (hfree : t.holder = none) (hgoes : P.Goes next (t.party i) x p) :
      Step body P t i { t.moveTo i x p with holder := some i }
  | unlock (next : Code σ ρ) (x : Option (Code σ ρ)) (p : π) (hi : t.At body P i (.unlock next))
      (hgoes : P.Goes next (t.party i) x p) :
      Step body P t i { t.moveTo i x p with holder := none }
  | access {α : Type} (f : σ → Outcome (α × σ)) (next : α → Code σ ρ) (v : α) (s : σ)
      (x : Option (Code σ ρ)) (p : π) (hi : t.At body P i (.access f next))
      (hf : f t.state = .ok (v, s)) (hgoes : P.Goes (next v) (t.party i) x p) :
      Step body P t i { t.moveTo i x p with state := s }

/-- Any steps of any parties. -/
abbrev Steps (body : κ → Code σ ρ) (P : Programs κ ρ τ π) :
    Clients ι σ τ π ρ → Clients ι σ τ π ρ → Prop :=
  ReflTransGen fun t t' => ∃ i, t.Step body P i t'

end Clients

namespace AtomicClients

/-- A step of a party: a whole call is one. -/
inductive Step (run : κ → σ → Outcome (ρ × σ)) (P : Programs κ ρ τ π) (a : AtomicClients ι σ τ π)
    (i : ι) : AtomicClients ι σ τ π → Prop
  | other (o : τ) (p : π) (hcall : P.call (a.party i) = none)
      (h : P.other (a.outside, a.party i) (o, p)) :
      Step run P a i { a with outside := o, party := Function.update a.party i p }
  | act (c : κ) (r : ρ) (s : σ) (p : π) (hcall : P.call (a.party i) = some c)
      (hrun : run c a.state = .ok (r, s)) (hresume : P.resume r (a.party i) = .ok p) :
      Step run P a i { a with state := s, party := Function.update a.party i p }

abbrev Steps (run : κ → σ → Outcome (ρ × σ)) (P : Programs κ ρ τ π) :
    AtomicClients ι σ τ π → AtomicClients ι σ τ π → Prop :=
  ReflTransGen fun a a' => ∃ i, a.Step run P i a'

/-- Nobody is in a call. -/
def clients (a : AtomicClients ι σ τ π) : Clients ι σ τ π ρ :=
  ⟨a.state, a.outside, a.party, none, fun _ => none⟩

end AtomicClients

variable {body : κ → Code σ ρ} {P : Programs κ ρ τ π} {t t' : Clients ι σ τ π ρ}
  {a a' a₀ : AtomicClients ι σ τ π} {i k : ι} {c : κ} {code next : Code σ ρ}
  {x : Option (Code σ ρ)} {p p' : π} {r : ρ} {s : σ}

/-! ### The simulation -/

namespace Clients

/-- The party with the lock, and what is left of its call. -/
def Inside (body : κ → Code σ ρ) (P : Programs κ ρ τ π) (state state' : σ) (p : π)
    (x : Option (Code σ ρ)) : Prop :=
  ∃ c code, P.call p = some c ∧ x = some code ∧ code.Holding ∧
    (body c).run state' = code.run state

/-- The parties and the object, and those of a run with atomic calls. -/
structure Matches (body : κ → Code σ ρ) (P : Programs κ ρ τ π) (t : Clients ι σ τ π ρ)
    (a : AtomicClients ι σ τ π) : Prop where
  outside : a.outside = t.outside
  party : a.party = t.party
  free : t.holder = none → a.state = t.state
  holding : ∀ i, t.holder = some i → Inside body P t.state a.state (t.party i) (t.inside i)
  out : ∀ i, t.holder ≠ some i → t.inside i = none

omit [DecidableEq ι] in
theorem matches_clients (a : AtomicClients ι σ τ π) : Matches body P a.clients a := by
  refine ⟨rfl, rfl, fun _ => rfl, ?_, fun _ _ => rfl⟩
  intro i hi
  cases hi

omit [DecidableEq ι] in
/-- Who is inside a call, at anything but its beginning, has the lock. -/
theorem Matches.of_at (h : t.Matches body P a) (hbody : ∀ c, (body c).Guarded)
    (hi : t.At body P i code) (hlock : ∀ next, code ≠ .lock next) :
    t.holder = some i ∧ code.Holding ∧
      ∃ c, P.call (t.party i) = some c ∧ (body c).run a.state = code.run t.state := by
  rw [At] at hi
  cases hin : t.inside i with
  | none =>
    rw [hin] at hi
    obtain ⟨c, -, hc⟩ := hi
    obtain ⟨next, hnext, -⟩ := (hbody c).eq_lock
    exact absurd (hc.symm.trans hnext) (hlock next)
  | some code' =>
    rw [hin] at hi
    obtain rfl : code' = code := hi
    have hholder : t.holder = some i := by
      by_contra hno
      cases hin.symm.trans (h.out i hno)
    obtain ⟨c, code, hcall, hcode, hholding, hrun⟩ := h.holding i hholder
    obtain rfl := Option.some.inj (hin.symm.trans hcode)
    exact ⟨hholder, hholding, c, hcall, hrun⟩

omit [DecidableEq ι] in
/-- Who has not the lock is at the beginning of a call, if at one. -/
theorem Matches.at_lock (h : t.Matches body P a) (hfree : t.holder = none)
    (hi : t.At body P i code) :
    t.inside i = none ∧ ∃ c, P.call (t.party i) = some c ∧ body c = code := by
  have hin : t.inside i = none := by
    refine h.out i ?_
    rw [hfree]
    intro hno
    cases hno
  rw [At, hin] at hi
  exact ⟨hin, hi⟩

end Clients

theorem Code.Holding.goes (h : code.Holding) (hgoes : P.Goes code p x p') :
    x = some code ∧ p' = p := by
  cases hgoes with
  | inside _ => exact ⟨rfl, rfl⟩
  | back _ => cases h

theorem Code.Holding.goesOn (h : code.Holding) : P.Goes code p (some code) p := by
  refine .inside fun r => ?_
  rintro rfl
  cases h

namespace Clients

/-- The party with the lock is inside its call as before, but further. -/
theorem Matches.goOn (h : t.Matches body P a) {state : σ} (hcode : code.Holding)
    (hother : ∀ k, t.holder = some k → k = i) (hcall : P.call (t.party i) = some c)
    (hrun : (body c).run a.state = code.run state) :
    Matches body P
      { t.moveTo i (some code) (t.party i) with state := state, holder := some i } a := by
  refine ⟨h.outside, ?_, ?_, ?_, ?_⟩
  · show a.party = Function.update t.party i (t.party i)
    rw [Function.update_eq_self]
    exact h.party
  · intro hfree
    cases hfree
  · intro k hk
    obtain rfl := Option.some.inj hk
    refine ⟨c, code, ?_, Function.update_self _ _ _, hcode, hrun⟩
    show P.call (Function.update t.party i (t.party i) i) = some c
    rw [Function.update_self]
    exact hcall
  · intro k hk
    have hne : k ≠ i := fun heq => hk (congrArg some heq.symm)
    show Function.update t.inside i (some code) k = none
    rw [Function.update_of_ne hne]
    exact h.out k fun hholder => hne (hother k hholder)

/-- **One step.**  The atomic call happens when the lock is given back. -/
theorem Matches.step (h : t.Matches body P a) (hbody : ∀ c, (body c).Guarded)
    (hstep : t.Step body P i t') :
    ∃ a', (a' = a ∨ a.Step (fun c => (body c).run) P i a') ∧ t'.Matches body P a' := by
  cases hstep with
  | other o p hout hcall hother =>
    rw [← h.party, ← h.outside] at hother
    refine ⟨_, .inr (.other o p (h.party ▸ hcall) hother), rfl, ?_, h.free, ?_, h.out⟩
    · rw [h.party]
    · intro k hk
      have hne : k ≠ i := by
        rintro rfl
        obtain ⟨c, code, -, hin, -⟩ := h.holding k hk
        cases hout.symm.trans hin
      show Inside body P t.state a.state (Function.update t.party i p k) (t.inside k)
      rw [Function.update_of_ne hne]
      exact h.holding k hk
  | lock next x p hi hfree hgoes =>
    obtain ⟨hin, c, hcall, hc⟩ := h.at_lock hfree hi
    obtain ⟨next', hnext, hholding⟩ := (hbody c).eq_lock
    obtain rfl := Code.lock.inj (hc.symm.trans hnext)
    obtain ⟨rfl, rfl⟩ := hholding.goes hgoes
    refine ⟨a, .inl rfl, h.goOn hholding ?_ hcall ?_⟩
    · intro k hk
      cases hfree.symm.trans hk
    · rw [hc, h.free hfree]
      rfl
  | unlock next x p hi hgoes =>
    obtain ⟨hholder, hholding, c, hcall, hrun⟩ := h.of_at hbody hi (by simp)
    cases hholding with
    | unlock r =>
      cases hgoes with
      | inside hret => exact absurd rfl (hret r)
      | back hresume =>
        refine ⟨_, .inr (.act c r t.state p (h.party ▸ hcall) hrun (h.party ▸ hresume)),
          h.outside, ?_, fun _ => rfl, ?_, ?_⟩
        · rw [h.party]
          rfl
        · intro k hk
          cases hk
        · intro k _
          show Function.update t.inside i none k = none
          by_cases hk : k = i
          · rw [hk, Function.update_self]
          · rw [Function.update_of_ne hk]
            refine h.out k ?_
            rw [hholder]
            exact fun heq => hk (Option.some.inj heq).symm
  | access f next v s x p hi hf hgoes =>
    obtain ⟨hholder, hholding, c, hcall, hrun⟩ := h.of_at hbody hi (by simp)
    cases hholding with
    | access hnext =>
      obtain ⟨rfl, rfl⟩ := (hnext v).goes hgoes
      have hrun' : (body c).run a.state = (next v).run s := by
        rw [hrun, Code.run, hf]
        rfl
      refine ⟨a, .inl rfl, ?_⟩
      have hmatches := h.goOn (hnext v) (fun k hk => ?_) hcall hrun'
      · rw [← hholder] at hmatches
        exact hmatches
      · exact Option.some.inj (hk.symm.trans hholder)

end Clients

/-- **The calls are single steps** for everybody but the party that makes one. -/
theorem exists_atomic (hbody : ∀ c, (body c).Guarded) (h : a₀.clients.Steps body P t) :
    ∃ a, a₀.Steps (fun c => (body c).run) P a ∧ t.Matches body P a := by
  induction h with
  | refl => exact ⟨a₀, .refl, Clients.matches_clients a₀⟩
  | tail _ hstep ih =>
    obtain ⟨a, hrun, hmatches⟩ := ih
    obtain ⟨i, hstep⟩ := hstep
    obtain ⟨a', rfl | hact, hmatches'⟩ := hmatches.step hbody hstep
    · exact ⟨_, hrun, hmatches'⟩
    · exact ⟨a', hrun.tail ⟨i, hact⟩, hmatches'⟩

/-! ### The other direction -/

/-- A call that nobody disturbs comes to its end. -/
theorem Code.Holding.steps (hcode : code.Holding) (hholder : t.holder = some i)
    (hin : t.inside i = some code) (hrun : code.run t.state = .ok (r, s))
    (hresume : P.resume r (t.party i) = .ok p) :
    t.Steps body P { t.moveTo i none p with state := s, holder := none } := by
  induction hcode generalizing t with
  | unlock r' =>
    obtain ⟨rfl, rfl⟩ := Prod.mk.inj (Outcome.ok.inj hrun)
    refine .single ⟨i, .unlock _ none p ?_ (.back hresume)⟩
    rw [Clients.At, hin]
  | @access α f next hnext ih =>
    obtain ⟨⟨v, s₁⟩, hf, hrest⟩ := Outcome.bind_eq_ok.mp hrun
    have hat : t.At body P i (.access f next) := by
      rw [Clients.At, hin]
    have hstep := Clients.Step.access f next v s₁ _ _ hat hf (hnext v).goesOn
    refine .head ⟨i, hstep⟩ ?_
    have hresume' : P.resume r (Function.update t.party i (t.party i) i) = .ok p := by
      rw [Function.update_self]
      exact hresume
    have hsteps := ih v (t := { t.moveTo i (some (next v)) (t.party i) with state := s₁ }) hholder
      (Function.update_self _ _ _) hrest hresume'
    simpa only [Clients.moveTo, Function.update_idem] using hsteps

theorem AtomicClients.Step.steps (hbody : ∀ c, (body c).Guarded)
    (hstep : a.Step (fun c => (body c).run) P i a') : a.clients.Steps body P a'.clients := by
  cases hstep with
  | other o p hcall hother => exact .single ⟨i, .other o p rfl hcall hother⟩
  | act c r s p hcall hrun hresume =>
    obtain ⟨next, hnext, hholding⟩ := (hbody c).eq_lock
    have hat : a.clients.At body P i (.lock next) := ⟨c, hcall, hnext⟩
    have hlock := Clients.Step.lock next _ _ hat rfl hholding.goesOn
    refine .head ⟨i, hlock⟩ ?_
    have hrun' : next.run a.state = .ok (r, s) := by
      rw [← hrun]
      show next.run a.state = (body c).run a.state
      rw [hnext]
      rfl
    have hresume' : P.resume r (Function.update a.party i (a.party i) i) = .ok p := by
      rw [Function.update_self]
      exact hresume
    let t₁ : Clients ι σ τ π ρ :=
      { a.clients.moveTo i (some next) (a.party i) with holder := some i }
    have hsteps : t₁.Steps body P { t₁.moveTo i none p with state := s, holder := none } :=
      hholding.steps rfl (Function.update_self _ _ _) hrun' hresume'
    simp only [t₁, Clients.moveTo, Function.update_idem] at hsteps
    have hnone : Function.update (fun _ : ι => (none : Option (Code σ ρ))) i none = fun _ => none :=
      Function.update_eq_self i _
    rw [AtomicClients.clients, hnone] at hsteps
    exact hsteps

/-- **Nothing is lost**: calls that are single steps are calls that nobody disturbs. -/
theorem exists_clients (hbody : ∀ c, (body c).Guarded)
    (h : a₀.Steps (fun c => (body c).run) P a) : a₀.clients.Steps body P a.clients := by
  induction h with
  | refl => exact .refl
  | tail _ hstep ih =>
    obtain ⟨i, hstep⟩ := hstep
    exact ih.trans (hstep.steps hbody)

/-! ### Nobody waits for ever -/

/-- **The lock stops nobody.**  As long as a party is at a call, one that is can go on, unless the
atomic call of one of them, or its result, would stop it as well. -/
theorem exists_step (hbody : ∀ c, (body c).Guarded) (h : a₀.clients.Steps body P t)
    (hi : P.call (t.party i) = some c) :
    (∃ k t', t.Step body P k t' ∧ P.call (t.party k) ≠ none) ∨
      ∃ a, a₀.Steps (fun c => (body c).run) P a ∧ t.Matches body P a ∧
        ∃ k, P.call (a.party k) ≠ none ∧ ∀ a', ¬ a.Step (fun c => (body c).run) P k a' := by
  obtain ⟨a, hrun, hmatches⟩ := exists_atomic hbody h
  cases hholder : t.holder with
  | none =>
    obtain ⟨next, hnext, hholding⟩ := (hbody c).eq_lock
    have hin : t.inside i = none := hmatches.out i (by simp [hholder])
    have hat : t.At body P i (.lock next) := by
      rw [Clients.At, hin]
      exact ⟨c, hi, hnext⟩
    exact .inl ⟨i, _, .lock next _ _ hat hholder hholding.goesOn, by simp [hi]⟩
  | some k =>
    obtain ⟨c, code, hcall, hin, hholding, hcode⟩ := hmatches.holding k hholder
    have hat : t.At body P k code := by
      rw [Clients.At, hin]
    have hcall' : P.call (a.party k) = some c := hmatches.party ▸ hcall
    -- What the atomic call does, the rest of this one does.
    have hact : ∀ a', a.Step (fun c => (body c).run) P k a' →
        ∃ r s p, code.run t.state = .ok (r, s) ∧ P.resume r (t.party k) = .ok p := by
      intro a' hstep
      cases hstep with
      | other o p hnone => cases hnone.symm.trans hcall'
      | act c' r s p hc hr hp =>
        obtain rfl := Option.some.inj (hc.symm.trans hcall')
        exact ⟨r, s, p, hcode ▸ hr, hmatches.party ▸ hp⟩
    by_cases hgo : ∃ t', t.Step body P k t'
    · obtain ⟨t', hgo⟩ := hgo
      exact .inl ⟨k, t', hgo, by simp [hcall]⟩
    · refine .inr ⟨a, hrun, hmatches, k, by simp [hcall'], ?_⟩
      intro a' hstep
      obtain ⟨r, s, p, hr, hp⟩ := hact a' hstep
      cases hholding with
      | unlock r' =>
        obtain ⟨rfl, -⟩ := Prod.mk.inj (Outcome.ok.inj hr)
        exact hgo ⟨_, .unlock _ none p hat (.back hp)⟩
      | access hnext =>
        obtain ⟨⟨v, s₁⟩, hf, -⟩ := Outcome.bind_eq_ok.mp hr
        exact hgo ⟨_, .access _ _ v s₁ _ _ hat hf (hnext v).goesOn⟩

end Monitor
