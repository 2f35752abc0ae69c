/-
Dynamic memory.

A heap knows the blocks that have been allocated and not been given back: where each begins and
how many bytes it has, no two of them overlapping and none at address 0.  Allocating may fail,
and otherwise gives a block anywhere where there is room for it.  What is given back has to be
the beginning of a block, or `NULL`: anything else is undefined.

* `Heap.Mallocs.fresh` — blocks that are allocated one after the other;
* **`Heap.freeAll_returns_iff`** — a list of pointers can be given back exactly when they are
  different blocks, those apart that are `NULL`;
* `Heap.live_freeAll` — the blocks that are left.
-/
import Mbroker.Outcome
import Mathlib.Logic.Function.Basic

/-- The blocks that are allocated: from where they begin, their sizes. -/
structure Heap where
  size : Nat → Option Nat
  null : size 0 = none
  apart : ∀ a b m n, size a = some m → size b = some n → a < b → a + m ≤ b

namespace Heap

variable {h h' : Heap} {a b n : Nat} {p : Option Nat} {ps qs : List (Option Nat)}
  {sizes : List Nat}

/-- A block begins there. -/
def Live (h : Heap) (a : Nat) : Prop := (h.size a).isSome

instance (h : Heap) (a : Nat) : Decidable (h.Live a) := inferInstanceAs (Decidable (_ = true))

theorem live_iff : h.Live a ↔ ∃ n, h.size a = some n := Option.isSome_iff_exists

/-- **No block begins inside another.** -/
theorem not_live_inside (ha : h.size a = some n) (hlt : a < b) (hb : b < a + n) : ¬ h.Live b := by
  intro hlive
  obtain ⟨m, hm⟩ := live_iff.mp hlive
  have := h.apart a b n m ha hm hlt
  omega

/-- Nothing is allocated. -/
def empty : Heap := ⟨fun _ => none, rfl, fun _ _ _ _ h => by cases h⟩

/-! ### Allocating -/

/-- There is room for a block of `n` bytes at `a`. -/
structure Room (h : Heap) (a n : Nat) : Prop where
  ne_zero : a ≠ 0
  free : h.size a = none
  above : ∀ b m, h.size b = some m → a < b → a + n ≤ b
  below : ∀ b m, h.size b = some m → b < a → b + m ≤ a

/-- The heap with one more block. -/
def add (h : Heap) (a n : Nat) (hroom : h.Room a n) : Heap where
  size := Function.update h.size a (some n)
  null := by rw [Function.update_of_ne hroom.ne_zero.symm, h.null]
  apart := by
    intro b c m k hb hc hlt
    by_cases hba : b = a
    · subst hba
      rw [Function.update_self] at hb
      rw [Function.update_of_ne (Nat.ne_of_gt hlt)] at hc
      obtain rfl := Option.some.inj hb
      exact hroom.above c k hc hlt
    · rw [Function.update_of_ne hba] at hb
      by_cases hca : c = a
      · subst hca
        exact hroom.below b m hb hlt
      · rw [Function.update_of_ne hca] at hc
        exact h.apart b c m k hb hc hlt

theorem size_add_self (hroom : h.Room a n) : (h.add a n hroom).size a = some n :=
  Function.update_self _ _ _

theorem size_add_ne (hroom : h.Room a n) (hne : b ≠ a) : (h.add a n hroom).size b = h.size b :=
  Function.update_of_ne hne _ _

theorem room_empty (ha : a ≠ 0) : empty.Room a n := ⟨ha, rfl, nofun, nofun⟩

/-- There is still room next to a block. -/
theorem Room.add {m : Nat} (hb : h.Room b m) (hroom : h.Room a n)
    (hapart : a < b ∧ a + n ≤ b ∨ b < a ∧ b + m ≤ a) : (h.add a n hroom).Room b m := by
  have hsize : ∀ c k, (h.add a n hroom).size c = some k → c = a ∧ k = n ∨ h.size c = some k := by
    intro c k hc
    by_cases hca : c = a
    · subst hca
      rw [size_add_self] at hc
      exact Or.inl ⟨rfl, (Option.some.inj hc).symm⟩
    · rw [size_add_ne hroom hca] at hc
      exact Or.inr hc
  refine ⟨hb.ne_zero, ?_, fun c k hc hlt => ?_, fun c k hc hlt => ?_⟩
  · rw [size_add_ne hroom (by omega), hb.free]
  · rcases hsize c k hc with ⟨rfl, rfl⟩ | hc
    · omega
    · exact hb.above c k hc hlt
  · rcases hsize c k hc with ⟨rfl, rfl⟩ | hc
    · omega
    · exact hb.below c k hc hlt

/-- `malloc(n)`: it fails, or gives a block. -/
inductive Malloc (n : Nat) (h : Heap) : Option Nat → Heap → Prop
  | fails : Malloc n h none h
  | gives (a : Nat) (hroom : h.Room a n) : Malloc n h (some a) (h.add a n hroom)

/-- Several calls of `malloc`. -/
inductive Mallocs : List Nat → Heap → List (Option Nat) → Heap → Prop
  | nil (h : Heap) : Mallocs [] h [] h
  | cons {n : Nat} {sizes : List Nat} {h h₁ h' : Heap} {p : Option Nat} {ps : List (Option Nat)}
      (hp : Malloc n h p h₁) (hps : Mallocs sizes h₁ ps h') :
      Mallocs (n :: sizes) h (p :: ps) h'

theorem Malloc.size_of_size (hp : Malloc n h p h') {m : Nat} (hb : h.size b = some m) :
    h'.size b = some m := by
  cases hp with
  | fails => exact hb
  | gives a hroom =>
    have hne : b ≠ a := by
      rintro rfl
      rw [hroom.free] at hb
      cases hb
    rw [size_add_ne hroom hne, hb]

/-- What `malloc` gives was not a block, and is one. -/
theorem Malloc.fresh (hp : Malloc n h (some a) h') : ¬ h.Live a ∧ h'.size a = some n := by
  cases hp with
  | gives a hroom =>
    refine ⟨?_, size_add_self hroom⟩
    rw [Live, hroom.free]
    exact nofun

theorem Mallocs.size_of_size (hps : Mallocs sizes h ps h') {m : Nat} (hb : h.size b = some m) :
    h'.size b = some m := by
  induction hps with
  | nil => exact hb
  | cons hp _ ih => exact ih (hp.size_of_size hb)

/-- **Blocks that are allocated one after the other** are new ones, of the sizes asked for. -/
theorem Mallocs.fresh (hps : Mallocs sizes h ps h') :
    (∀ a, some a ∈ ps → ¬ h.Live a ∧ h'.Live a) ∧ ps.Pairwise (fun p q => p = q → p = none) ∧
      List.Forall₂ (fun n p => ∀ a, p = some a → h'.size a = some n) sizes ps := by
  induction hps with
  | nil => exact ⟨nofun, .nil, .nil⟩
  | cons hp hps ih =>
    obtain ⟨hfresh, hapart, hsizes⟩ := ih
    refine ⟨?_, .cons ?_ hapart, .cons ?_ hsizes⟩
    · intro a ha
      rcases List.mem_cons.mp ha with rfl | ha
      · obtain ⟨hno, hsize⟩ := hp.fresh
        exact ⟨hno, live_iff.mpr ⟨_, hps.size_of_size hsize⟩⟩
      · refine ⟨fun hlive => ?_, (hfresh a ha).2⟩
        obtain ⟨m, hm⟩ := live_iff.mp hlive
        exact (hfresh a ha).1 (live_iff.mpr ⟨m, hp.size_of_size hm⟩)
    · rintro p hmem rfl
      -- A block that is there already is not given again.
      cases hp with
      | fails => rfl
      | gives a hroom =>
        exact absurd (live_iff.mpr ⟨_, size_add_self hroom⟩) (hfresh a hmem).1
    · rintro a rfl
      exact hps.size_of_size hp.fresh.2

/-! ### Giving back -/

/-- The heap without a block. -/
def remove (h : Heap) (a : Nat) : Heap where
  size := Function.update h.size a none
  null := by
    by_cases ha : a = 0
    · rw [ha, Function.update_self]
    · rw [Function.update_of_ne (Ne.symm ha), h.null]
  apart := by
    intro b c m k hb hc hlt
    have hba : b ≠ a := by
      rintro rfl
      rw [Function.update_self] at hb
      cases hb
    have hca : c ≠ a := by
      rintro rfl
      rw [Function.update_self] at hc
      cases hc
    rw [Function.update_of_ne hba] at hb
    rw [Function.update_of_ne hca] at hc
    exact h.apart b c m k hb hc hlt

theorem live_remove : (h.remove a).Live b ↔ h.Live b ∧ b ≠ a := by
  by_cases hb : b = a
  · subst hb
    simp [Live, remove]
  · simp [Live, remove, hb]

/-- `free`. -/
def free (p : Option Nat) (h : Heap) : Outcome Heap :=
  match p with
  | none => .ok h
  | some a => if h.Live a then .ok (h.remove a) else .fault

/-- `free`, for each pointer of a list. -/
def freeAll : List (Option Nat) → Heap → Outcome Heap
  | [], h => .ok h
  | p :: ps, h => h.free p >>= freeAll ps

theorem free_null (h : Heap) : h.free none = .ok h := rfl

theorem free_of_live (ha : h.Live a) : h.free (some a) = .ok (h.remove a) := if_pos ha

theorem free_of_not_live (ha : ¬ h.Live a) : h.free (some a) = .fault := if_neg ha

theorem live_free (hfree : h.free p = .ok h') : h'.Live b ↔ h.Live b ∧ p ≠ some b := by
  cases p with
  | none =>
    obtain rfl := Outcome.ok.inj hfree
    simp
  | some a =>
    by_cases ha : h.Live a
    · rw [free_of_live ha] at hfree
      obtain rfl := Outcome.ok.inj hfree
      rw [live_remove, ne_eq, ne_eq, Option.some.injEq, eq_comm]
    · rw [free_of_not_live ha] at hfree
      cases hfree

/-- **The blocks that are left** are those that have not been given back. -/
theorem live_freeAll (hfree : h.freeAll ps = .ok h') : h'.Live b ↔ h.Live b ∧ some b ∉ ps := by
  induction ps generalizing h with
  | nil =>
    obtain rfl := Outcome.ok.inj hfree
    simp
  | cons p ps ih =>
    obtain ⟨h₁, hp, hps⟩ := Outcome.bind_eq_ok.mp hfree
    rw [ih hps, live_free hp, List.mem_cons, not_or, and_assoc, ne_comm]

/-- **A list of pointers can be given back** exactly when each is `NULL` or a block, and none is
there twice. -/
theorem freeAll_returns_iff : (∃ h', h.freeAll ps = .ok h') ↔
    ps.Pairwise (fun p q => p = q → p = none) ∧ ∀ a, some a ∈ ps → h.Live a := by
  induction ps generalizing h with
  | nil => exact ⟨fun _ => ⟨.nil, nofun⟩, fun _ => ⟨h, rfl⟩⟩
  | cons p ps ih =>
    rw [List.pairwise_cons]
    constructor
    · rintro ⟨h', hfree⟩
      obtain ⟨h₁, hp, hps⟩ := Outcome.bind_eq_ok.mp hfree
      obtain ⟨hapart, hlive⟩ := ih.mp ⟨h', hps⟩
      refine ⟨⟨?_, hapart⟩, ?_⟩
      · rintro q hq rfl
        cases p with
        | none => rfl
        | some a => exact absurd rfl ((live_free hp).mp (hlive a hq)).2
      · intro a ha
        rcases List.mem_cons.mp ha with rfl | ha
        · by_contra hno
          rw [free_of_not_live hno] at hp
          cases hp
        · exact ((live_free hp).mp (hlive a ha)).1
    · rintro ⟨⟨hfirst, hapart⟩, hlive⟩
      obtain ⟨h₁, hp⟩ : ∃ h₁, h.free p = .ok h₁ := by
        cases p with
        | none => exact ⟨h, free_null h⟩
        | some a => exact ⟨_, free_of_live (hlive a List.mem_cons_self)⟩
      have hlive₁ : ∀ a, some a ∈ ps → h₁.Live a := by
        intro a ha
        refine (live_free hp).mpr ⟨hlive a (List.mem_cons_of_mem p ha), ?_⟩
        rintro rfl
        cases hfirst _ ha rfl
      obtain ⟨h', hps⟩ := ih.mpr ⟨hapart, hlive₁⟩
      exact ⟨h', Outcome.bind_eq_ok.mpr ⟨h₁, hp, hps⟩⟩

end Heap
