/-
First-fit slot tables.

A table of `n` slots records which of them are in use; allocation takes the
first slot that is not.  The program keeps four such tables (inodes, data
blocks, open files and, in the directory block, entries).

* `firstFit_eq_some`, `firstFit_eq_none` — what the scan finds;
* `used` — the set of slots in use;
* `firstFit_eq_none_iff_card` — the scan fails exactly on a full table;
* `card_eq_of_matching` — counting the slots in use by what they are used for.
-/
import Mathlib.Combinatorics.Enumerative.DoubleCounting
import Mathlib.Data.Finset.Card
import Mathlib.Data.List.Basic
import Mathlib.Order.Interval.Finset.Nat
import Mathlib.Logic.Function.Basic

namespace SlotTable

variable {p q : Nat → Bool} {n i j : Nat}

/-- `for (i = 0; i < n; i++) if (p(i)) return i;` -/
def firstFit (p : Nat → Bool) (n : Nat) : Option Nat := (List.range n).find? p

theorem firstFit_eq_some : firstFit p n = some i ↔ i < n ∧ p i ∧ ∀ j < i, p j = false := by
  simp only [firstFit, List.find?_range_eq_some, List.mem_range, Bool.not_eq_true']
  tauto

theorem firstFit_eq_none : firstFit p n = none ↔ ∀ i < n, p i = false := by
  simp [firstFit]

theorem firstFit_isSome : (∃ i, firstFit p n = some i) ↔ ∃ i < n, p i := by
  rw [← Option.isSome_iff_exists, ← not_iff_not, Option.not_isSome_iff_eq_none, firstFit_eq_none]
  simp

/-- The scan over the slots as a finite type. -/
theorem find?_finRange (p : Nat → Bool) (n : Nat) :
    ((List.finRange n).find? fun i : Fin n => p i.val).map Fin.val = firstFit p n := by
  rw [firstFit, ← List.map_coe_finRange_eq_range, List.find?_map]
  rfl

/-- The slots below `n` that satisfy `p`. -/
def used (p : Nat → Bool) (n : Nat) : Finset Nat := (Finset.range n).filter fun i => p i

@[simp] theorem mem_used : i ∈ used p n ↔ i < n ∧ p i := by simp [used]

theorem card_used_le : (used p n).card ≤ n := by
  have h := Finset.card_le_card (Finset.filter_subset (fun i => p i = true) (Finset.range n))
  rwa [Finset.card_range] at h

/-- Every slot is in use exactly when as many are in use as there are. -/
theorem card_used_eq_iff : (used p n).card = n ↔ ∀ i < n, p i := by
  constructor
  · intro h i hi
    have heq : used p n = Finset.range n :=
      Finset.eq_of_subset_of_card_le (Finset.filter_subset _ _) (by simp [h])
    exact (mem_used.mp (heq ▸ Finset.mem_range.mpr hi)).2
  · intro h
    rw [used, Finset.filter_true_of_mem fun i hi => h i (Finset.mem_range.mp hi), Finset.card_range]

/-- **The scan for a slot not in use fails exactly on a full table.** -/
theorem firstFit_eq_none_iff_card : firstFit (fun i => !p i) n = none ↔ (used p n).card = n := by
  rw [firstFit_eq_none, card_used_eq_iff]
  simp

/-- Two finite sets that a relation matches one to one are of one size. -/
theorem card_eq_of_matching {α β : Type} {s : Finset α} {t : Finset β} (R : α → β → Prop)
    (hs : ∀ a ∈ s, ∃ b ∈ t, R a b) (ht : ∀ b ∈ t, ∃ a ∈ s, R a b)
    (hfun : ∀ a b b', R a b → R a b' → b = b') (hinj : ∀ a a' b, R a b → R a' b → a = a') :
    s.card = t.card := by
  refine le_antisymm ?_ ?_
  · exact Finset.card_le_card_of_forall_subsingleton R hs
      fun b _ a ha a' ha' => hinj a a' b ha.2 ha'.2
  · exact Finset.card_le_card_of_forall_subsingleton (fun b a => R a b) ht
      fun a _ b hb b' hb' => hfun a b b' hb.2 hb'.2

theorem firstFit_isSome_iff_card :
    (∃ i, firstFit (fun i => !p i) n = some i) ↔ (used p n).card < n := by
  rw [← Option.isSome_iff_exists, ← not_iff_not, Option.not_isSome_iff_eq_none,
    firstFit_eq_none_iff_card]
  have := card_used_le (p := p) (n := n)
  omega

end SlotTable
