/-
Sequential explanations of concurrent requests.

A request, run on its own, gives an answer and a new state.  Requests that run at
the same time are explained by an order: run one after the other in it, they give
the answers that they have given.

* `Explains.append` — a request that acts now comes last;
* `Explains.insert` — a request that only reads can come before one that is there
  already.
-/
import Mbroker.Outcome
import Mathlib.Algebra.BigOperators.Group.Finset.Basic

namespace Linearization

variable {ι ρ σ : Type} {run : ι → σ → Outcome (ρ × σ)} {s₀ s s' : σ} {answer : ι → Option ρ}
  {order : List ι} {j k : ι} {r r' : ρ}

/-- The requests with an answer, run in the order, give these answers and lead to
`s`. -/
structure Explains (run : ι → σ → Outcome (ρ × σ)) (s₀ : σ) (answer : ι → Option ρ)
    (order : List ι) (s : σ) : Prop where
  nodup : order.Nodup
  mem : ∀ k, k ∈ order ↔ answer k ≠ none
  runs : ∃ rs, Outcome.runList run order s₀ = .ok (rs, s) ∧ order.map answer = rs.map some

/-- Before anything has happened. -/
theorem explains_nil (h : ∀ k, answer k = none) : Explains run s₀ answer [] s₀ :=
  ⟨List.nodup_nil, fun k => by simp [h k], [], rfl, rfl⟩

variable [DecidableEq ι]

theorem map_update (hk : k ∉ order) (o : Option ρ) :
    order.map (Function.update answer k o) = order.map answer := by
  refine List.map_congr_left fun j hj => Function.update_of_ne ?_ _ _
  rintro rfl
  exact hk hj

theorem update_ne_none : Function.update answer k (some r) j ≠ none ↔ j = k ∨ answer j ≠ none := by
  by_cases hj : j = k
  · simp [hj]
  · simp [hj]

theorem Explains.append (h : Explains run s₀ answer order s) (hk : answer k = none)
    (hr : run k s = .ok (r, s')) :
    Explains run s₀ (Function.update answer k (some r)) (order ++ [k]) s' := by
  have hmem : k ∉ order := fun hmem => (h.mem k).mp hmem hk
  obtain ⟨rs, hrun, hanswer⟩ := h.runs
  refine ⟨?_, fun j => ?_, rs ++ [r], ?_, ?_⟩
  · exact List.nodup_append.mpr ⟨h.nodup, List.nodup_singleton k, fun a ha b hb => by
      rintro rfl
      exact hmem (List.mem_singleton.mp hb ▸ ha)⟩
  · rw [List.mem_append, List.mem_singleton, update_ne_none, h.mem, or_comm]
  · exact Outcome.runList_append_eq_ok.mpr
      ⟨rs, s, [r], hrun, Outcome.runList_cons_eq_ok.mpr ⟨r, s', [], hr, rfl, rfl⟩, rfl⟩
  · rw [List.map_append, List.map_append, map_update hmem, hanswer]
    simp

theorem Explains.insert (h : Explains run s₀ answer order s) (hk : answer k = none)
    (hj : answer j = some r') (hread : ∀ t t', run j t = .ok (r', t') → run k t = .ok (r, t)) :
    ∃ order', Explains run s₀ (Function.update answer k (some r)) order' s := by
  have hmem : k ∉ order := fun hmem => (h.mem k).mp hmem hk
  obtain ⟨pre, post, rfl⟩ := List.append_of_mem ((h.mem j).mpr (by simp [hj]))
  obtain ⟨rs, hrun, hanswer⟩ := h.runs
  obtain ⟨rs₁, t, rs₂, hpre, hrest, rfl⟩ := Outcome.runList_append_eq_ok.mp hrun
  obtain ⟨r'', t', rs₃, hstep, hpost, rfl⟩ := Outcome.runList_cons_eq_ok.mp hrest
  rw [List.map_append, List.map_append] at hanswer
  obtain ⟨hpre', hpost'⟩ := List.append_inj hanswer (by simp [Outcome.length_of_runList hpre])
  simp only [List.map_cons, List.cons.injEq, hj, Option.some.injEq] at hpost'
  obtain ⟨rfl, hpost'⟩ := hpost'
  have hperm : (pre ++ k :: j :: post).Perm (k :: (pre ++ j :: post)) := List.perm_middle
  refine ⟨pre ++ k :: j :: post, ?_, fun i => ?_, rs₁ ++ r :: r' :: rs₃, ?_, ?_⟩
  · exact hperm.nodup_iff.mpr (List.nodup_cons.mpr ⟨hmem, h.nodup⟩)
  · rw [hperm.mem_iff, List.mem_cons, update_ne_none, h.mem]
  · exact Outcome.runList_append_eq_ok.mpr ⟨rs₁, t, r :: r' :: rs₃, hpre,
      Outcome.runList_cons_eq_ok.mpr ⟨r, t, r' :: rs₃, hread t t' hstep, hrest, rfl⟩, rfl⟩
  · rw [List.mem_append, not_or] at hmem
    rw [List.map_append, List.map_append, map_update hmem.1, List.map_cons, map_update hmem.2, hpre',
      Function.update_self]
    simp [hj, hpost']

/-! ### What the requests still owe -/

/-- A sum over the parties, when one of them goes on. -/
theorem sum_update {α : Type} [Fintype ι] (w : α → ℤ) (f : ι → α) (k : ι) (x : α) :
    ∑ i, w (Function.update f k x i) = ∑ i, w (f i) - w (f k) + w x := by
  have hother : ∑ i ∈ Finset.univ.erase k, w (Function.update f k x i) =
      ∑ i ∈ Finset.univ.erase k, w (f i) := by
    refine Finset.sum_congr rfl fun i hi => ?_
    rw [Function.update_of_ne (Finset.ne_of_mem_erase hi)]
  rw [← Finset.sum_erase_add _ _ (Finset.mem_univ k), hother, Function.update_self,
    ← Finset.sum_erase_add _ _ (Finset.mem_univ k), add_sub_cancel_right]

end Linearization
