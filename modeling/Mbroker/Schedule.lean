/-
Runs of a system whose parties take turns.

A schedule is the list of turns; `step` says what a turn does, and a party that
cannot move when its turn comes leaves the state as it is, so that every
schedule is a run and every interleaving is a schedule.

* `run_invariant` — what every turn that meets a condition preserves, every run
  whose turns all meet it preserves;
* `safe_iff_meets`, `good_iff_meets` — when the condition is exact.
-/
import Mathlib.Data.List.Basic

namespace Schedule

variable {ε σ : Type} {step : ε → σ → σ} {ok : ε → σ → Prop} {I : σ → Prop} {es es' : List ε} {s : σ}

/-- The state that a schedule leads to. -/
def run (step : ε → σ → σ) : List ε → σ → σ
  | [], s => s
  | e :: es, s => run step es (step e s)

theorem run_append (es es' : List ε) (s : σ) :
    run step (es ++ es') s = run step es' (run step es s) := by
  induction es generalizing s with
  | nil => rfl
  | cons e es ih => exact ih (step e s)

/-- Every turn meets the condition in the state in which it is taken. -/
def Meets (ok : ε → σ → Prop) (step : ε → σ → σ) : List ε → σ → Prop
  | [], _ => True
  | e :: es, s => ok e s ∧ Meets ok step es (step e s)

instance (ok : ε → σ → Prop) [∀ e s, Decidable (ok e s)] (step : ε → σ → σ) :
    ∀ es s, Decidable (Meets ok step es s)
  | [], _ => inferInstanceAs (Decidable True)
  | _ :: es, _ =>
    have := instDecidableMeets ok step es
    inferInstanceAs (Decidable (_ ∧ _))

/-- **Invariant rule for schedules.** -/
theorem run_invariant (hstep : ∀ e s, I s → ok e s → I (step e s)) (hok : Meets ok step es s)
    (hs : I s) : I (run step es s) := by
  induction es generalizing s with
  | nil => exact hs
  | cons e es ih => exact ih hok.2 (hstep e s hs hok.1)

/-- The same, when every turn preserves it. -/
theorem run_induction (hstep : ∀ e s, I s → I (step e s)) (hs : I s) : I (run step es s) := by
  induction es generalizing s with
  | nil => exact hs
  | cons e es ih => exact ih (hstep e s hs)

/-- **Exactly the runs that meet a condition.**  When a turn that breaks the condition
leads to a bad state at once, and no other turn does, the runs that go through no
bad state are those whose turns all meet it. -/
theorem safe_iff_meets {bad : σ → Prop} {turn : ε → Prop}
    (hstep : ∀ e s, turn e → I s → ok e s → I (step e s)) (hsafe : ∀ s, I s → ¬ bad s)
    (hbad : ∀ e s, turn e → I s → ¬ ok e s → bad (step e s)) (hturn : ∀ e ∈ es, turn e)
    (hs : I s) : (∀ n, ¬ bad (run step (es.take n) s)) ↔ Meets ok step es s := by
  induction es generalizing s with
  | nil =>
    refine ⟨fun _ => trivial, fun _ n => ?_⟩
    rw [List.take_nil]
    exact hsafe s hs
  | cons e es ih =>
    have he : turn e := hturn e List.mem_cons_self
    have hes : ∀ e' ∈ es, turn e' := fun e' h => hturn e' (List.mem_cons_of_mem e h)
    constructor
    · intro h
      have hok : ok e s := by
        by_contra hno
        exact h 1 (hbad e s he hs hno)
      exact ⟨hok, (ih hes (hstep e s he hs hok)).mp fun n => h (n + 1)⟩
    · rintro ⟨hok, hmeets⟩ n
      cases n with
      | zero => exact hsafe s hs
      | succ n => exact (ih hes (hstep e s he hs hok)).mpr hmeets n

/-- The same, for all turns and what is good. -/
theorem good_iff_meets {good : σ → Prop} (hstep : ∀ e s, I s → ok e s → I (step e s))
    (hgood : ∀ s, I s → good s) (hbad : ∀ e s, I s → ¬ ok e s → ¬ good (step e s)) (hs : I s) :
    (∀ n, good (run step (es.take n) s)) ↔ Meets ok step es s := by
  refine Iff.trans (forall_congr' fun n => not_not.symm) ?_
  exact @safe_iff_meets _ _ step ok I es s (fun s => ¬ good s) (fun _ => True)
    (fun e s _ => hstep e s) (fun s hs hno => hno (hgood s hs)) (fun e s _ => hbad e s)
    (fun _ _ => trivial) hs

end Schedule
