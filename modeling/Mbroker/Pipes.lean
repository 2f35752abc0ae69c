/-
Pipes.

A pipe is what has been written to it and not been read, and whether its writer
has closed it.  A short write is done whole, once there is room for it; a read
takes what there is, up to so many elements, and waits only when there is nothing.

A sender writes a code and a message of `size` elements, over and over, and the
receiver reads the one and then the other.  `Carries` says what is on its way
between them, whatever the order of their steps.

* `Carries.send`, `Carries.write` — the sender begins a message, and writes a part of it;
* **`Carries.readCode`**, **`Carries.readMessage`** — a read takes one write, whole:
  the code, and the message that the sender meant;
* `Carries.drained` — when the pipe is empty and the sender has nothing left to
  write, nothing is on its way.
-/
import Mathlib.Data.List.Basic

/-- A pipe. -/
structure Pipe (α : Type) where
  bytes : List α := []
  closed : Bool := false

namespace Pipe

variable {α : Type} {code : α} {size capacity : Nat} {toWrite us ms : List (List α)}
  {p p' : Pipe α} {headed : Bool} {m u bytes : List α}

/-- A write, when there is room for all of it. -/
def write (capacity : Nat) (bs : List α) (p : Pipe α) : Option (Pipe α) :=
  if p.bytes.length + bs.length ≤ capacity then some { p with bytes := p.bytes ++ bs } else none

/-- A read of up to `n` elements; it waits while the pipe is empty and not closed. -/
def read [DecidableEq α] (n : Nat) (p : Pipe α) : Option (List α × Pipe α) :=
  if p.bytes = [] ∧ p.closed = false then none
  else some (p.bytes.take n, { p with bytes := p.bytes.drop n })

/-- The writer closes the pipe. -/
def close (p : Pipe α) : Pipe α := { p with closed := true }

theorem write_eq_some (h : p.write capacity u = some p') :
    p' = { p with bytes := p.bytes ++ u } := by
  rw [write] at h
  split at h
  · exact (Option.some.inj h).symm
  · cases h

/-- What was written into an empty pipe finds room there. -/
theorem exists_write (h : p.bytes = []) (hu : u.length ≤ capacity) :
    ∃ p', p.write capacity u = some p' := by
  rw [write, h, List.length_nil, Nat.zero_add, if_pos hu]
  exact ⟨_, rfl⟩

theorem read_eq_some [DecidableEq α] {n : Nat} (h : p.read n = some (bytes, p')) :
    bytes = p.bytes.take n ∧ p' = { p with bytes := p.bytes.drop n } ∧
      (p.bytes = [] → p.closed = true) := by
  rw [read] at h
  split at h
  case isTrue => cases h
  case isFalse hwait =>
    obtain ⟨rfl, rfl⟩ := Prod.mk.inj (Option.some.inj h)
    refine ⟨rfl, rfl, fun hempty => ?_⟩
    rw [not_and, Bool.not_eq_false] at hwait
    exact hwait hempty

/-- A read waits only for an empty pipe that is not closed. -/
theorem read_eq_none [DecidableEq α] {n : Nat} :
    p.read n = none ↔ p.bytes = [] ∧ p.closed = false := by
  rw [read]
  split
  case isTrue hwait => exact iff_of_true rfl hwait
  case isFalse hwait => exact iff_of_false nofun hwait

/-! ### Messages with a code before each -/

/-- The writes that messages take. -/
def writes (code : α) (ms : List (List α)) : List (List α) := ms.flatMap fun m => [[code], m]

@[simp] theorem writes_nil (code : α) : writes code [] = [] := rfl

theorem writes_cons (code : α) (m : List α) (ms : List (List α)) :
    writes code (m :: ms) = [code] :: m :: writes code ms := rfl

theorem writes_append (code : α) (ms ms' : List (List α)) :
    writes code (ms ++ ms') = writes code ms ++ writes code ms' := List.flatMap_append

/-- `ms` is on its way: what is in the pipe, and then what the sender has still to write, are the
writes of these messages, the first without its code if the receiver has read that (`headed`). -/
structure Carries (code : α) (size : Nat) (toWrite : List (List α)) (p : Pipe α) (headed : Bool)
    (ms : List (List α)) : Prop where
  units : ∃ units, p.bytes = units.flatten ∧ units ++ toWrite = (writes code ms).drop headed.toNat
  size : ∀ m ∈ ms, m.length = size
  headed : headed = true → ms ≠ []
  closed : p.closed = true → toWrite = []

theorem carries_nil (code : α) (size : Nat) : Carries code size [] {} false [] :=
  ⟨⟨[], rfl, rfl⟩, fun _ hm => absurd hm List.not_mem_nil, nofun, fun _ => rfl⟩

namespace Carries

/-- The sender begins a message. -/
theorem send (h : Carries code size [] p headed ms) (hm : m.length = size)
    (hopen : p.closed = false) : Carries code size [[code], m] p headed (ms ++ [m]) := by
  obtain ⟨units, hbytes, hunits⟩ := h.units
  refine ⟨⟨units, hbytes, ?_⟩, ?_, fun _ => by simp, fun hclosed => ?_⟩
  · have hlen : headed.toNat ≤ (writes code ms).length := by
      cases headed with
      | false => exact Nat.zero_le _
      | true =>
        obtain ⟨m', ms', rfl⟩ := List.exists_cons_of_ne_nil (h.headed rfl)
        rw [writes_cons]
        simp
    rw [List.append_nil] at hunits
    rw [hunits, writes_append, List.drop_append_of_le_length hlen]
    rfl
  · intro m' hm'
    rcases List.mem_append.mp hm' with hmem | hmem
    · exact h.size m' hmem
    · rw [List.mem_singleton.mp hmem, hm]
  · rw [hopen] at hclosed
    cases hclosed

/-- The sender writes the next part. -/
theorem write (h : Carries code size (u :: us) p headed ms)
    (hwrite : p.write capacity u = some p') : Carries code size us p' headed ms := by
  obtain ⟨units, hbytes, hunits⟩ := h.units
  rw [write_eq_some hwrite]
  refine ⟨⟨units ++ [u], ?_, ?_⟩, h.size, h.headed, fun hclosed => ?_⟩
  · rw [List.flatten_append, List.flatten_singleton, ← hbytes]
  · rw [List.append_assoc, List.singleton_append, hunits]
  · cases h.closed hclosed

/-- What is left to write is not longer than a message. -/
theorem length_le (h : Carries code size toWrite p headed ms) (hsize : 0 < size) :
    ∀ u ∈ toWrite, u.length ≤ size := by
  intro u hu
  obtain ⟨units, -, hunits⟩ := h.units
  have hmem : u ∈ writes code ms :=
    List.mem_of_mem_drop (hunits ▸ List.mem_append_right units hu)
  obtain ⟨m, hm, hu⟩ := List.mem_flatMap.mp hmem
  rcases List.mem_cons.mp hu with rfl | hu
  · exact hsize
  · rw [List.mem_singleton.mp hu]
    exact Nat.le_of_eq (h.size m hm)

/-- The sender closes the pipe. -/
theorem close (h : Carries code size [] p headed ms) : Carries code size [] p.close headed ms :=
  ⟨h.units, h.size, h.headed, fun _ => rfl⟩

variable [DecidableEq α]

/-- **A code is read**, or the end of the pipe. -/
theorem readCode (h : Carries code size toWrite p false ms)
    (hread : p.read 1 = some (bytes, p')) :
    bytes = [] ∧ ms = [] ∧ p.closed = true ∧ p' = p ∨
      bytes = [code] ∧ ms ≠ [] ∧ p'.closed = p.closed ∧ Carries code size toWrite p' true ms := by
  obtain ⟨rfl, rfl, hend⟩ := read_eq_some hread
  obtain ⟨units, hbytes, hunits⟩ := h.units
  rcases units with _ | ⟨u, us⟩
  · -- There is nothing in the pipe, and nothing will be.
    rw [List.flatten_nil] at hbytes
    have hclosed := hend hbytes
    rw [h.closed hclosed] at hunits
    refine Or.inl ⟨by rw [hbytes, List.take_nil], ?_, hclosed, ?_⟩
    · rcases ms with _ | ⟨m, ms⟩
      · rfl
      · cases hunits
    · rw [hbytes, List.drop_nil, ← hbytes]
  · rcases ms with _ | ⟨m, ms⟩
    · cases hunits
    · obtain ⟨rfl, hus⟩ := List.cons.inj hunits
      rw [List.flatten_cons, List.singleton_append] at hbytes
      refine Or.inr ⟨by rw [hbytes]; rfl, List.cons_ne_nil _ _, rfl, ⟨us, ?_, hus⟩, h.size,
        fun _ => List.cons_ne_nil _ _, h.closed⟩
      rw [hbytes]
      rfl

/-- **A message is read**, whole. -/
theorem readMessage (h : Carries code size toWrite p true ms)
    (hread : p.read size = some (bytes, p')) :
    ∃ ms', ms = bytes :: ms' ∧ p'.closed = p.closed ∧ Carries code size toWrite p' false ms' := by
  obtain ⟨rfl, rfl, hend⟩ := read_eq_some hread
  obtain ⟨units, hbytes, hunits⟩ := h.units
  obtain ⟨m, ms', rfl⟩ := List.exists_cons_of_ne_nil (h.headed rfl)
  have hdrop : (writes code (m :: ms')).drop true.toNat = m :: writes code ms' := rfl
  rw [hdrop] at hunits
  rcases units with _ | ⟨u, us⟩
  · -- The code is never the last thing that the sender writes.
    rw [h.closed (hend hbytes)] at hunits
    cases hunits
  · obtain ⟨rfl, hus⟩ := List.cons.inj hunits
    have hlen : u.length = size := h.size u List.mem_cons_self
    rw [List.flatten_cons] at hbytes
    refine ⟨ms', ?_, rfl, ⟨us, ?_, hus⟩, fun m hm => h.size m (List.mem_cons_of_mem u hm), nofun,
      h.closed⟩
    · rw [hbytes, List.take_left' hlen]
    · show p.bytes.drop size = _
      rw [hbytes, List.drop_left' hlen]

omit [DecidableEq α]

/-- **Nothing is on its way** when the pipe is empty and the sender has nothing left to write. -/
theorem drained (h : Carries code size [] p headed ms) (hsize : 0 < size)
    (hempty : p.bytes = []) : headed = false ∧ ms = [] := by
  obtain ⟨units, hbytes, hunits⟩ := h.units
  rw [hempty] at hbytes
  rw [List.append_nil] at hunits
  rcases ms with _ | ⟨m, ms⟩
  · cases headed with
    | false => exact ⟨rfl, rfl⟩
    | true => exact absurd rfl (h.headed rfl)
  · -- The first message would be in the pipe.
    have hmem : m ∈ units := by
      rw [hunits, writes_cons]
      cases headed with
      | false => exact List.mem_cons_of_mem _ List.mem_cons_self
      | true => exact List.mem_cons_self
    have hm := List.flatten_eq_nil_iff.mp hbytes.symm m hmem
    have hlen := h.size m List.mem_cons_self
    rw [hm, List.length_nil] at hlen
    omega

end Carries

end Pipe
