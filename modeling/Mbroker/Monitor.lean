/-
Objects whose calls run under one lock.

A call is `Code`: accesses to the state of the object, one at a time, and the lock.  Any number
of threads make calls, and their steps come in any order.  When every call takes the lock
first, and gives it back on each of its ways out (`Guarded`), nobody can tell the object from one
whose calls happen in an instant:

* **`exists_atomicRun`** — every history of the object is one of the atomic object;
* `AtomicRun.runList` — the calls of the atomic object, one after the other, are a run of the
  program without threads;
* `Run.invariant` — what every call preserves when it runs alone holds whenever the lock is free;
* `Run.finish` — a call runs alone, when nobody has the lock;
* `Run.ends_alone` — a call that ends the process does so when it runs alone;
* **`Run.exists_step`** — there is no deadlock.
-/
import Mbroker.Outcome
import Mathlib.Logic.Function.Basic

namespace Monitor

/-- The code of a call with a result in `ρ`, on an object with states in `σ`. -/
inductive Code (σ ρ : Type) : Type 1 where
  | ret (r : ρ)
  | lock (next : Code σ ρ)
  | unlock (next : Code σ ρ)
  | access {α : Type} (f : σ → Outcome (α × σ)) (next : α → Code σ ρ)

namespace Code

variable {σ ρ α β : Type}

def bind : Code σ α → (α → Code σ β) → Code σ β
  | ret r, k => k r
  | lock next, k => lock (next.bind k)
  | unlock next, k => unlock (next.bind k)
  | access f next, k => access f fun a => (next a).bind k

instance : Monad (Code σ) where
  pure := ret
  bind := bind

theorem bind_assoc (c : Code σ α) (k : α → Code σ β) (k' : β → Code σ ρ) :
    (c >>= k) >>= k' = c >>= fun a => k a >>= k' := by
  induction c with
  | ret r => rfl
  | lock next ih => exact congrArg lock ih
  | unlock next ih => exact congrArg unlock ih
  | access f next ih => exact congrArg (access f) (funext ih)

/-- What the code does when no other thread is there. -/
def run : Code σ ρ → σ → Outcome (ρ × σ)
  | ret r, s => .ok (r, s)
  | lock next, s => next.run s
  | unlock next, s => next.run s
  | access f next, s => do
    let (a, s) ← f s
    (next a).run s

/-- Takes the lock. -/
def acquire : Code σ Unit := lock (ret ())

/-- Gives the lock back. -/
def release : Code σ Unit := unlock (ret ())

/-- A call of a function that works on the state. -/
def perform (f : σ → Outcome (α × σ)) : Code σ α := access f ret

/-- A call of a function that looks at the state. -/
def query (f : σ → Outcome α) : Code σ α := perform fun s => (f s).map fun a => (a, s)

/-- A read of a part of the state. -/
def read (f : σ → α) : Code σ α := perform fun s => .ok (f s, s)

/-- An assignment to a part of the state. -/
def assign (f : σ → σ) : Code σ Unit := perform fun s => .ok ((), f s)

section Run

variable {s : σ}

@[simp] theorem run_pure (r : ρ) : (pure r : Code σ ρ).run s = .ok (r, s) := rfl

@[simp] theorem run_bind (c : Code σ α) (k : α → Code σ β) :
    (c >>= k).run s = c.run s >>= fun p => (k p.1).run p.2 := by
  induction c generalizing s with
  | ret r => rfl
  | lock next ih => exact ih
  | unlock next ih => exact ih
  | access f next ih =>
    show (f s >>= fun p => (next p.1 >>= k).run p.2) = _
    rw [run, Outcome.bind_assoc]
    exact Outcome.bind_congr fun p _ => ih p.1

@[simp] theorem run_map (f : α → β) (c : Code σ α) :
    (f <$> c).run s = c.run s >>= fun p => .ok (f p.1, p.2) := run_bind c _

@[simp] theorem run_acquire : (acquire : Code σ Unit).run s = .ok ((), s) := rfl

@[simp] theorem run_release : (release : Code σ Unit).run s = .ok ((), s) := rfl

@[simp] theorem run_perform (f : σ → Outcome (α × σ)) : (perform f).run s = f s := by
  show (f s >>= fun p => .ok p) = f s
  cases f s <;> rfl

@[simp] theorem run_query (f : σ → Outcome α) :
    (query f).run s = (f s).map fun a => (a, s) := run_perform _

@[simp] theorem run_read (f : σ → α) : (read f).run s = .ok (f s, s) := run_perform _

@[simp] theorem run_assign (f : σ → σ) : (assign f).run s = .ok ((), f s) := run_perform _

end Run

/-- Code of a thread that holds the lock: accesses, and at last the lock is given back. -/
inductive Holding : Code σ ρ → Prop
  | access {α : Type} {f : σ → Outcome (α × σ)} {next : α → Code σ ρ}
      (h : ∀ a, Holding (next a)) : Holding (.access f next)
  | unlock (r : ρ) : Holding (.unlock (.ret r))

/-- Code that takes the lock before anything else, and gives it back on every way out. -/
inductive Guarded : Code σ ρ → Prop
  | lock {next : Code σ ρ} (h : Holding next) : Guarded (.lock next)

theorem Holding.perform {f : σ → Outcome (α × σ)} {k : α → Code σ ρ} (h : ∀ a, Holding (k a)) :
    Holding (Code.perform f >>= k) := .access h

theorem Holding.query {f : σ → Outcome α} {k : α → Code σ ρ} (h : ∀ a, Holding (k a)) :
    Holding (Code.query f >>= k) := .access h

theorem Holding.read {f : σ → α} {k : α → Code σ ρ} (h : ∀ a, Holding (k a)) :
    Holding (Code.read f >>= k) := .access h

theorem Holding.assign {f : σ → σ} {k : Unit → Code σ ρ} (h : Holding (k ())) :
    Holding (Code.assign f >>= k) := .access fun _ => h

theorem Holding.release (r : ρ) : Holding (Code.release >>= fun _ => (pure r : Code σ ρ)) :=
  .unlock r

theorem Guarded.acquire {k : Unit → Code σ ρ} (h : Holding (k ())) :
    Guarded (Code.acquire >>= k) := .lock h

theorem Holding.map {c : Code σ α} (h : c.Holding) (f : α → ρ) : (f <$> c).Holding := by
  induction h with
  | access _ ih => exact .access ih
  | unlock r => exact .unlock (f r)

theorem Guarded.map {c : Code σ α} (h : c.Guarded) (f : α → ρ) : (f <$> c).Guarded := by
  cases h with
  | lock h => exact .lock (h.map f)

theorem Guarded.eq_lock {c : Code σ ρ} (h : c.Guarded) : ∃ next, c = .lock next ∧ next.Holding := by
  cases h with
  | lock h => exact ⟨_, rfl, h⟩

end Code

/-! ### The object and its threads -/

/-- What can be seen of a call. -/
inductive Event (ι κ ρ : Type) where
  | call (i : ι) (c : κ)
  | answer (i : ι) (r : ρ)
deriving DecidableEq

/-- The thread that an event is of. -/
def Event.thread {ι κ ρ : Type} : Event ι κ ρ → ι
  | .call i _ => i
  | .answer i _ => i

/-- The last that is seen of a thread is its call. -/
def Pending {ι κ ρ : Type} (es : List (Event ι κ ρ)) (k : ι) (c : κ) : Prop :=
  ∃ before after, es = before ++ .call k c :: after ∧ ∀ e ∈ after, e.thread ≠ k

/-- An object with its lock, and the threads that are in a call. -/
structure Shared (ι σ ρ : Type) where
  state : σ
  holder : Option ι
  thread : ι → Option (Code σ ρ)

/-- An object without a lock: a thread has called, or has its result already. -/
structure Atomic (ι κ σ ρ : Type) where
  state : σ
  thread : ι → Option (κ ⊕ ρ)
  /-- The calls that have happened, in their order. -/
  done : List (κ × ρ)

variable {ι κ σ ρ : Type} [DecidableEq ι]

namespace Shared

def start (s : σ) : Shared ι σ ρ := ⟨s, none, fun _ => none⟩

/-- A step of a thread, and what can be seen of it. -/
inductive Step (body : κ → Code σ ρ) (t : Shared ι σ ρ) :
    List (Event ι κ ρ) → Shared ι σ ρ → Prop
  | call (i : ι) (c : κ) (hi : t.thread i = none) :
      Step body t [.call i c] { t with thread := Function.update t.thread i (some (body c)) }
  | lock (i : ι) (next : Code σ ρ) (hi : t.thread i = some (.lock next)) (hfree : t.holder = none) :
      Step body t []
        { t with holder := some i, thread := Function.update t.thread i (some next) }
  | unlock (i : ι) (next : Code σ ρ) (hi : t.thread i = some (.unlock next)) :
      Step body t []
        { t with holder := none, thread := Function.update t.thread i (some next) }
  | access (i : ι) {α : Type} (f : σ → Outcome (α × σ)) (next : α → Code σ ρ) (a : α) (s : σ)
      (hi : t.thread i = some (.access f next)) (hf : f t.state = .ok (a, s)) :
      Step body t []
        { t with state := s, thread := Function.update t.thread i (some (next a)) }
  | answer (i : ι) (r : ρ) (hi : t.thread i = some (.ret r)) :
      Step body t [.answer i r] { t with thread := Function.update t.thread i none }

/-- The thread is at an access that ends the process. -/
def Ends (t : Shared ι σ ρ) (k : ι) : Prop :=
  ∃ (α : Type) (f : σ → Outcome (α × σ)) (next : α → Code σ ρ),
    t.thread k = some (.access f next) ∧ ∀ p, f t.state ≠ .ok p

end Shared

namespace Atomic

def start (s : σ) : Atomic ι κ σ ρ := ⟨s, fun _ => none, []⟩

/-- A step of a thread: a whole call is one. -/
inductive Step (run : κ → σ → Outcome (ρ × σ)) (t : Atomic ι κ σ ρ) :
    List (Event ι κ ρ) → Atomic ι κ σ ρ → Prop
  | call (i : ι) (c : κ) (hi : t.thread i = none) :
      Step run t [.call i c] { t with thread := Function.update t.thread i (some (.inl c)) }
  | act (i : ι) (c : κ) (r : ρ) (s : σ) (hi : t.thread i = some (.inl c))
      (hrun : run c t.state = .ok (r, s)) :
      Step run t []
        ⟨s, Function.update t.thread i (some (.inr r)), t.done ++ [(c, r)]⟩
  | answer (i : ι) (r : ρ) (hi : t.thread i = some (.inr r)) :
      Step run t [.answer i r] { t with thread := Function.update t.thread i none }

end Atomic

/-- Any steps of any threads, and the history of what can be seen of them. -/
inductive Run (body : κ → Code σ ρ) (s : σ) : List (Event ι κ ρ) → Shared ι σ ρ → Prop
  | start : Run body s [] (.start s)
  | step {es es' : List (Event ι κ ρ)} {t t' : Shared ι σ ρ} (h : Run body s es t)
      (hstep : t.Step body es' t') : Run body s (es ++ es') t'

inductive AtomicRun (run : κ → σ → Outcome (ρ × σ)) (s : σ) :
    List (Event ι κ ρ) → Atomic ι κ σ ρ → Prop
  | start : AtomicRun run s [] (.start s)
  | step {es es' : List (Event ι κ ρ)} {t t' : Atomic ι κ σ ρ} (h : AtomicRun run s es t)
      (hstep : t.Step run es' t') : AtomicRun run s (es ++ es') t'

/-- The calls of the atomic object, made one after the other, give the same results. -/
theorem AtomicRun.runList {run : κ → σ → Outcome (ρ × σ)} {s : σ} {es : List (Event ι κ ρ)}
    {t : Atomic ι κ σ ρ} (h : AtomicRun run s es t) :
    Outcome.runList run (t.done.map Prod.fst) s = .ok (t.done.map Prod.snd, t.state) := by
  induction h with
  | start => rfl
  | step _ hstep ih =>
    cases hstep with
    | call i c hi => exact ih
    | answer i r hi => exact ih
    | act i c r s hi hrun =>
      rw [List.map_append, List.map_append]
      exact Outcome.runList_append_eq_ok.mpr
        ⟨_, _, [r], ih, Outcome.runList_cons_eq_ok.mpr ⟨r, s, [], hrun, rfl, rfl⟩, rfl⟩

/-- What the calls do matters only in the states that they lead to. -/
theorem AtomicRun.congr {run run' : κ → σ → Outcome (ρ × σ)} {I : σ → Prop} {s : σ}
    {es : List (Event ι κ ρ)} {t : Atomic ι κ σ ρ}
    (hI : ∀ c s r s', I s → run c s = .ok (r, s') → I s') (hrun : ∀ c s, I s → run c s = run' c s)
    (hs : I s) (h : AtomicRun run s es t) : AtomicRun run' s es t ∧ I t.state := by
  induction h with
  | start => exact ⟨.start, hs⟩
  | step _ hstep ih =>
    obtain ⟨ih, hI'⟩ := ih
    cases hstep with
    | call i c hi => exact ⟨ih.step (.call i c hi), hI'⟩
    | answer i r hi => exact ⟨ih.step (.answer i r hi), hI'⟩
    | act i c r s hi hact =>
      exact ⟨ih.step (.act i c r s hi (hrun c _ hI' ▸ hact)), hI c _ r s hI' hact⟩

/-! ### The simulation -/

/-- Where a thread is in a call, and where the thread of the atomic object is: the call happens
when the lock is given back. -/
inductive Matches (body : κ → Code σ ρ) (state state' : σ) (holds : Prop) :
    Option (Code σ ρ) → Option (κ ⊕ ρ) → Prop
  | outside (h : ¬ holds) : Matches body state state' holds none none
  | waiting (h : ¬ holds) (c : κ) : Matches body state state' holds (some (body c)) (some (.inl c))
  | inside (h : holds) (c : κ) (code : Code σ ρ) (hcode : code.Holding)
      (hrun : (body c).run state' = code.run state) :
      Matches body state state' holds (some code) (some (.inl c))
  | finished (h : ¬ holds) (r : ρ) :
      Matches body state state' holds (some (.ret r)) (some (.inr r))

/-- The state of the object is that of the atomic one, but for what the thread that holds the
lock has done to it. -/
structure Simulates (body : κ → Code σ ρ) (t : Shared ι σ ρ) (a : Atomic ι κ σ ρ) : Prop where
  state : t.holder = none → a.state = t.state
  thread : ∀ i, Matches body t.state a.state (t.holder = some i) (t.thread i) (a.thread i)

variable {body : κ → Code σ ρ} {s : σ} {es es' : List (Event ι κ ρ)} {t t' : Shared ι σ ρ}
  {a a' : Atomic ι κ σ ρ} {i k : ι} {c : κ}

omit [DecidableEq ι] in
/-- A thread without the lock does not look at the state. -/
theorem Matches.of_not_holds {state₁ state₁' state₂ state₂' : σ} {p p' : Prop}
    {x : Option (Code σ ρ)} {y : Option (κ ⊕ ρ)} (h : Matches body state₁ state₁' p x y)
    (hp : ¬ p) (hp' : ¬ p') : Matches body state₂ state₂' p' x y := by
  cases h with
  | outside => exact .outside hp'
  | waiting _ c => exact .waiting hp' c
  | inside h => exact absurd h hp
  | finished _ r => exact .finished hp' r

/-- One thread goes on, and the others are without the lock before and after. -/
theorem Simulates.update (h : Simulates body t a) {x : Option (Code σ ρ)} {y : Option (κ ⊕ ρ)}
    {state state' : σ} {holder : Option ι} {done : List (κ × ρ)}
    (hstate : holder = none → state' = state)
    (hother : ∀ k ≠ i, (t.holder ≠ some k ∧ holder ≠ some k) ∨
      (state = t.state ∧ state' = a.state ∧ (holder = some k ↔ t.holder = some k)))
    (hi : Matches body state state' (holder = some i) x y) :
    Simulates body ⟨state, holder, Function.update t.thread i x⟩
      ⟨state', Function.update a.thread i y, done⟩ := by
  refine ⟨hstate, fun k => ?_⟩
  show Matches body state state' (holder = some k) (Function.update t.thread i x k)
    (Function.update a.thread i y k)
  by_cases hk : k = i
  · subst hk
    rw [Function.update_self, Function.update_self]
    exact hi
  · rw [Function.update_of_ne hk, Function.update_of_ne hk]
    rcases hother k hk with ⟨hne, hne'⟩ | ⟨rfl, rfl, hiff⟩
    · exact (h.thread k).of_not_holds hne hne'
    · rw [propext hiff]
      exact h.thread k

omit [DecidableEq ι] in
/-- Only the thread that holds the lock is at an access or gives it back. -/
theorem Simulates.holding (h : Simulates body t a) (hbody : ∀ c, (body c).Guarded)
    {code : Code σ ρ} (hi : t.thread i = some code) (hlock : ∀ next, code ≠ .lock next)
    (hret : ∀ r, code ≠ .ret r) :
    t.holder = some i ∧ code.Holding ∧
      ∃ c, a.thread i = some (.inl c) ∧ (body c).run a.state = code.run t.state := by
  have hmatch := h.thread i
  rw [hi] at hmatch
  generalize hy : a.thread i = y at hmatch
  cases hmatch with
  | waiting _ c =>
    obtain ⟨next, hnext, -⟩ := (hbody c).eq_lock
    exact absurd hnext (hlock next)
  | inside hheld c _ hcode hrun => exact ⟨hheld, hcode, c, rfl, hrun⟩
  | finished _ r => exact absurd rfl (hret r)

/-- **One step.**  The atomic object makes the call when the lock is given back. -/
theorem Simulates.step (h : Simulates body t a) (hbody : ∀ c, (body c).Guarded)
    (hstep : t.Step body es' t') :
    ∃ a', (es' = [] ∧ a' = a ∨ a.Step (fun c => (body c).run) es' a') ∧ Simulates body t' a' := by
  cases hstep with
  | call i c hi =>
    have hmatch := h.thread i
    rw [hi] at hmatch
    generalize hy : a.thread i = y at hmatch
    cases hmatch with
    | outside hout =>
      exact ⟨_, .inr (.call i c hy), h.update h.state (fun k _ => .inr ⟨rfl, rfl, Iff.rfl⟩)
        (.waiting hout c)⟩
  | lock i next hi hfree =>
    have hmatch := h.thread i
    rw [hi] at hmatch
    generalize hy : a.thread i = y at hmatch
    generalize hcode : Code.lock next = code at hmatch
    cases hmatch with
    | waiting hout c =>
      obtain ⟨next', hnext, hholding⟩ := (hbody c).eq_lock
      obtain rfl : next = next' := by
        rw [← hcode] at hnext
        exact Code.lock.inj hnext
      refine ⟨a, .inl ⟨rfl, rfl⟩, ?_⟩
      have hrun : (body c).run a.state = next.run t.state := by
        rw [hnext, h.state hfree]
        rfl
      have hsim : Simulates body ⟨t.state, some i, Function.update t.thread i (some next)⟩
          ⟨a.state, Function.update a.thread i (some (.inl c)), a.done⟩ := by
        refine h.update nofun (fun k hk => .inl ⟨?_, ?_⟩) (.inside rfl c next hholding hrun)
        · simp [hfree]
        · simpa using hk.symm
      rwa [← hy, Function.update_eq_self] at hsim
    | inside hheld => simp [hfree] at hheld
    | finished => cases hcode
  | unlock i next hi =>
    obtain ⟨hheld, hholding, c, hc, hrun⟩ := h.holding hbody hi nofun nofun
    cases hholding with
    | unlock r =>
      refine ⟨_, .inr (.act i c r t.state hc hrun), h.update (fun _ => rfl) (fun k hk => ?_)
        (.finished nofun r)⟩
      exact .inl ⟨by simpa [hheld] using hk.symm, nofun⟩
  | access i f next v s hi hf =>
    obtain ⟨hheld, hholding, c, hc, hrun⟩ := h.holding hbody hi nofun nofun
    cases hholding with
    | access hnext =>
      refine ⟨a, .inl ⟨rfl, rfl⟩, ?_⟩
      have hrun' : (body c).run a.state = (next v).run s := by
        rw [hrun, Code.run, hf]
        rfl
      have hsim : Simulates body ⟨s, t.holder, Function.update t.thread i (some (next v))⟩
          ⟨a.state, Function.update a.thread i (some (.inl c)), a.done⟩ := by
        refine h.update (fun hnone => ?_) (fun k hk => .inl ?_)
          (.inside hheld c (next v) (hnext v) hrun')
        · simp [hheld] at hnone
        · simpa [hheld] using hk.symm
      rwa [← hc, Function.update_eq_self] at hsim
  | answer i r hi =>
    have hmatch := h.thread i
    rw [hi] at hmatch
    generalize hy : a.thread i = y at hmatch
    generalize hcode : Code.ret r = code at hmatch
    cases hmatch with
    | waiting hout c =>
      obtain ⟨next, hnext, -⟩ := (hbody c).eq_lock
      rw [hnext] at hcode
      cases hcode
    | inside hheld c _ hholding hrun =>
      subst hcode
      cases hholding
    | finished hout r' =>
      obtain rfl := Code.ret.inj hcode
      exact ⟨_, .inr (.answer i r hy), h.update h.state (fun k _ => .inr ⟨rfl, rfl, Iff.rfl⟩)
        (.outside hout)⟩

omit [DecidableEq ι] in
theorem Simulates.start (s : σ) :
    Simulates body (Shared.start s : Shared ι σ ρ) (Atomic.start s) :=
  ⟨fun _ => rfl, fun _ => .outside nofun⟩

/-- **The object cannot be told from the atomic one.** -/
theorem exists_atomicRun (hbody : ∀ c, (body c).Guarded) (h : Run body s es t) :
    ∃ a, AtomicRun (fun c => (body c).run) s es a ∧ Simulates body t a := by
  induction h with
  | start => exact ⟨_, .start, .start s⟩
  | step _ hstep ih =>
    obtain ⟨a, hrun, hsim⟩ := ih
    obtain ⟨a', ⟨rfl, rfl⟩ | hstep', hsim'⟩ := hsim.step hbody hstep
    · rw [List.append_nil]
      exact ⟨a', hrun, hsim'⟩
    · exact ⟨a', .step hrun hstep', hsim'⟩

/-- A thread that is not in a call does not hold the lock. -/
theorem Run.holder_ne (hbody : ∀ c, (body c).Guarded) (h : Run body s es t)
    (hi : t.thread i = none) : t.holder ≠ some i := by
  obtain ⟨a, -, hsim⟩ := exists_atomicRun hbody h
  have hmatch := hsim.thread i
  rw [hi] at hmatch
  generalize a.thread i = y at hmatch
  cases hmatch with
  | outside hout => exact hout

/-- What every call preserves when it runs alone holds whenever the lock is free. -/
theorem Run.invariant {I : σ → Prop} (hbody : ∀ c, (body c).Guarded)
    (hI : ∀ c s r s', I s → (body c).run s = .ok (r, s') → I s') (h : Run body s es t) (hs : I s)
    (hfree : t.holder = none) : I t.state := by
  obtain ⟨a, hrun, hsim⟩ := exists_atomicRun hbody h
  rw [← hsim.state hfree]
  exact Outcome.runList_invariant hI hs hrun.runList

/-- A thread with the lock goes on up to its answer. -/
theorem Run.finish_holding {code : Code σ ρ} {r : ρ} {s' : σ} (hcode : code.Holding)
    (h : Run body s es t) (hi : t.thread i = some code) (hrun : code.run t.state = .ok (r, s')) :
    Run body s es
      { t with state := s', holder := none, thread := Function.update t.thread i (some (.ret r)) } := by
  induction hcode generalizing t with
  | unlock r₀ =>
    obtain ⟨rfl, rfl⟩ := Prod.mk.inj (Outcome.ok.inj hrun)
    rw [← List.append_nil es]
    exact h.step (.unlock i _ hi)
  | @access α f next _ ih =>
    obtain ⟨⟨v, s₁⟩, hf, hrun⟩ := Outcome.bind_eq_ok.mp hrun
    have hstep := h.step (.access i f next v s₁ hi hf)
    rw [List.append_nil] at hstep
    have hrest := ih v hstep (Function.update_self _ _ _) hrun
    simp only [Function.update_idem] at hrest
    exact hrest

/-- **A call runs alone**, when nobody has the lock. -/
theorem Run.finish {r : ρ} {s' : σ} (hbody : ∀ c, (body c).Guarded) (h : Run body s es t)
    (hi : t.thread i = some (body c)) (hfree : t.holder = none)
    (hrun : (body c).run t.state = .ok (r, s')) :
    Run body s es
      ⟨s', none, Function.update t.thread i (some (.ret r))⟩ := by
  obtain ⟨next, hnext, hcode⟩ := (hbody c).eq_lock
  rw [hnext] at hi hrun
  have hstep := h.step (.lock i next hi hfree)
  rw [List.append_nil] at hstep
  have hrest := Run.finish_holding hcode hstep (Function.update_self _ _ _) hrun
  simp only [Function.update_idem] at hrest
  exact hrest

/-- A thread of the atomic object whose call has not happened is one that has called. -/
theorem AtomicRun.pending {run : κ → σ → Outcome (ρ × σ)} (h : AtomicRun run s es a)
    (hk : a.thread k = some (.inl c)) : Pending es k c := by
  induction h with
  | start => cases hk
  | @step es es' a a' _ hstep ih =>
    -- Another thread, or this one before its step.
    have hbefore : ∀ i x, a'.thread = Function.update a.thread i x → (∀ e ∈ es', e.thread = i) →
        i ≠ k → Pending (es ++ es') k c := by
      intro i x hthread hes hik
      rw [hthread, Function.update_of_ne hik.symm] at hk
      obtain ⟨before, after, rfl, hafter⟩ := ih hk
      refine ⟨before, after ++ es', by simp, fun e he => ?_⟩
      rcases List.mem_append.mp he with he | he
      · exact hafter e he
      · rw [hes e he]
        exact hik
    cases hstep with
    | call i c' hi =>
      by_cases hik : i = k
      · subst hik
        dsimp only at hk
        rw [Function.update_self] at hk
        obtain rfl := Sum.inl.inj (Option.some.inj hk)
        exact ⟨es, [], rfl, fun e he => absurd he List.not_mem_nil⟩
      · refine hbefore i _ rfl (fun e he => ?_) hik
        rw [List.mem_singleton.mp he]
        rfl
    | act i c' r s' hi hrun =>
      refine hbefore i _ rfl (fun e he => absurd he List.not_mem_nil) ?_
      rintro rfl
      dsimp only at hk
      rw [Function.update_self] at hk
      cases hk
    | answer i r hi =>
      refine hbefore i _ rfl (fun e he => ?_) ?_
      · rw [List.mem_singleton.mp he]
        rfl
      · rintro rfl
        dsimp only at hk
        rw [Function.update_self] at hk
        cases hk

/-- A call that ends the process, through a failed assertion or undefined behaviour, is one that
does so when it runs alone: there, too, the thread has made it, and the calls before it have
happened. -/
theorem Run.ends_alone (hbody : ∀ c, (body c).Guarded) (h : Run body s es t) (hk : t.Ends k) :
    ∃ a c, AtomicRun (fun c => (body c).run) s es a ∧ a.thread k = some (.inl c) ∧
      t.holder = some k ∧ ∀ p, (body c).run a.state ≠ .ok p := by
  obtain ⟨α, f, next, hi, hf⟩ := hk
  obtain ⟨a, hrun, hsim⟩ := exists_atomicRun hbody h
  obtain ⟨hheld, -, c, hc, hcode⟩ := hsim.holding hbody hi nofun nofun
  refine ⟨a, c, hrun, hc, hheld, fun p hp => ?_⟩
  rw [hcode] at hp
  obtain ⟨q, hq, -⟩ := Outcome.bind_eq_ok.mp hp
  exact hf q hq

/-- **There is no deadlock.**  As long as a thread is in a call, one of the threads that are can
go on with its own, unless it is at an access that ends the process. -/
theorem Run.exists_step (hbody : ∀ c, (body c).Guarded) (h : Run body s es t)
    (hi : t.thread i ≠ none) :
    (∃ es' t', t.Step body es' t' ∧ ∀ k c, es' ≠ [.call k c]) ∨ ∃ k, t.Ends k := by
  obtain ⟨a, -, hsim⟩ := exists_atomicRun hbody h
  cases hholder : t.holder with
  | none =>
    have hmatch := hsim.thread i
    generalize hx : t.thread i = x at hmatch hi
    generalize a.thread i = y at hmatch
    cases hmatch with
    | outside => exact absurd rfl hi
    | waiting _ c =>
      obtain ⟨next, hnext, -⟩ := (hbody c).eq_lock
      exact .inl ⟨_, _, .lock i next (hnext ▸ hx) hholder, nofun⟩
    | inside hheld => simp [hholder] at hheld
    | finished _ r => exact .inl ⟨_, _, .answer i r hx, nofun⟩
  | some k =>
    have hmatch := hsim.thread k
    generalize hx : t.thread k = x at hmatch
    generalize a.thread k = y at hmatch
    cases hmatch with
    | outside hout => exact absurd hholder hout
    | waiting hout => exact absurd hholder hout
    | finished hout => exact absurd hholder hout
    | inside _ c code hholding =>
      cases hholding with
      | unlock r => exact .inl ⟨_, _, .unlock k _ hx, nofun⟩
      | @access α f next hnext =>
        by_cases hf : ∃ p, f t.state = .ok p
        · obtain ⟨⟨v, s'⟩, hv⟩ := hf
          exact .inl ⟨_, _, .access k f next v s' hx hv, nofun⟩
        · exact .inr ⟨k, α, f, next, hx, fun p hp => hf ⟨p, hp⟩⟩

end Monitor
