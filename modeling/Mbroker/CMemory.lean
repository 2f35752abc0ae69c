/-
Byte memories and C strings.

A memory maps addresses to bytes; `store` and `load` move blocks of bytes the
way `memcpy` does, and an `int` is four bytes, little-endian, two's complement.
A C string is the bytes before its terminating NUL (`CString`); the library
functions the program calls on strings (`strcmp`, `strncmp`, `strncpy`) read
and write memory through them.

* `load_store_same`, `load_store_disjoint` — what a copy changes and what it
  leaves alone;
* `loadInt_storeInt` — an `int` is read back as it was stored;
* `strcmp_eq_zero`, `strncmp_eq_zero` — both comparisons decide `StringAt`;
* `stringAt_strncpy` — a copied string is found where it was copied to.
-/
import Mathlib.Data.List.Basic
import Mathlib.Data.List.TakeWhile
import Mathlib.Data.Int.Basic
import Mathlib.Tactic

/-- A C string: the bytes before its terminating NUL. -/
structure CString where
  bytes : List UInt8
  noNul : 0 ∉ bytes
deriving DecidableEq

namespace CString

/-- `strlen`. -/
def strlen (q : CString) : Nat := q.bytes.length

/-- The bytes a pointer to the string addresses, the NUL included. -/
def terminated (q : CString) : List UInt8 := q.bytes ++ [0]

/-- The string that a buffer holds: its bytes up to the first NUL. -/
def ofBuffer (bs : List UInt8) : CString :=
  ⟨bs.takeWhile (· ≠ 0), fun h => by
    have hall := List.all_takeWhile (p := fun b : UInt8 => decide (b ≠ 0)) (l := bs)
    simpa using List.all_eq_true.mp hall 0 h⟩

/-- The empty string. -/
def empty : CString := ⟨[], by simp⟩

@[ext] theorem ext {q q' : CString} (h : q.bytes = q'.bytes) : q = q' := by
  cases q; cases q'; simpa using h

@[simp] theorem length_terminated (q : CString) : q.terminated.length = q.strlen + 1 := by
  simp [terminated, strlen]

@[simp] theorem strlen_empty : empty.strlen = 0 := rfl

/-- Reading a string from a buffer that starts with it gives it back. -/
theorem ofBuffer_terminated (q : CString) (rest : List UInt8) :
    ofBuffer (q.bytes ++ 0 :: rest) = q := by
  ext1
  have hall : ∀ b ∈ q.bytes, decide (b ≠ 0) = true := by
    intro b hb
    have hne : b ≠ 0 := fun h0 => q.noNul (h0 ▸ hb)
    simpa using hne
  show List.takeWhile _ _ = _
  rw [List.takeWhile_append_of_pos hall]
  simp

theorem bytes_ofBuffer {bs : List UInt8} (h : 0 ∉ bs) : (ofBuffer bs).bytes = bs := by
  refine List.takeWhile_eq_self_iff.mpr fun b hb => ?_
  have hne : b ≠ 0 := fun h0 => h (h0 ▸ hb)
  simpa using hne

theorem strlen_ofBuffer {bs : List UInt8} (h : 0 ∉ bs) : (ofBuffer bs).strlen = bs.length :=
  congrArg List.length (bytes_ofBuffer h)

theorem strlen_ofBuffer_le (bs : List UInt8) : (ofBuffer bs).strlen ≤ bs.length :=
  (List.takeWhile_sublist _).length_le

/-- A buffer with a NUL in it: the string, the NUL, and what lies behind. -/
theorem eq_terminated_append {bs : List UInt8} (h : (ofBuffer bs).strlen < bs.length) :
    bs = (ofBuffer bs).terminated ++ bs.drop ((ofBuffer bs).strlen + 1) := by
  induction bs with
  | nil => exact absurd h (Nat.not_lt_zero _)
  | cons b bs ih =>
    by_cases hb : b = 0
    · subst hb
      rfl
    · have hcons : (ofBuffer (b :: bs)).bytes = b :: (ofBuffer bs).bytes := by
        simp [ofBuffer, hb]
      rw [strlen, hcons, List.length_cons, ← strlen] at h ⊢
      rw [terminated, hcons, List.cons_append, List.drop_succ_cons, List.cons_append, ← terminated,
        ← ih (Nat.lt_of_succ_lt_succ h)]

end CString

/-- A memory of bytes. -/
abbrev Memory := Nat → UInt8

namespace Memory

variable {m m' : Memory} {a b n : Nat}

/-- The `n` bytes from address `a` on. -/
def load (m : Memory) (a n : Nat) : List UInt8 := (List.range n).map fun k => m (a + k)

/-- `memcpy(a, bs, length)`. -/
def store (m : Memory) (a : Nat) (bs : List UInt8) : Memory := fun x =>
  if a ≤ x then (bs[x - a]?).getD (m x) else m x

/-- The memories agree on the `n` addresses from `a` on. -/
def AgreeOn (m m' : Memory) (a n : Nat) : Prop := ∀ x, a ≤ x → x < a + n → m' x = m x

@[simp] theorem length_load : (load m a n).length = n := by simp [load]

@[simp] theorem load_zero : load m a 0 = [] := rfl

theorem getElem_load {k : Nat} (h : k < (load m a n).length) : (load m a n)[k] = m (a + k) := by
  simp [load]

theorem load_congr (h : AgreeOn m m' a n) : load m' a n = load m a n := by
  apply List.map_congr_left
  intro k hk
  exact h _ (by omega) (by have := List.mem_range.mp hk; omega)

theorem load_eq_iff : load m' a n = load m a n ↔ AgreeOn m m' a n := by
  refine ⟨fun h x hx hxn => ?_, load_congr⟩
  have hk := List.map_inj_left.mp h (x - a) (List.mem_range.mpr (by omega))
  simpa [show a + (x - a) = x by omega] using hk

theorem load_append (m : Memory) (a k l : Nat) :
    load m a (k + l) = load m a k ++ load m (a + k) l := by
  simp [load, List.range_add, Nat.add_assoc, Function.comp_def]

theorem take_load (m : Memory) (a : Nat) {k n : Nat} (h : k ≤ n) :
    (load m a n).take k = load m a k := by
  obtain ⟨l, rfl⟩ := Nat.exists_eq_add_of_le h
  rw [load_append, List.take_left' length_load]

theorem drop_load (m : Memory) (a : Nat) {k n : Nat} (h : k ≤ n) :
    (load m a n).drop k = load m (a + k) (n - k) := by
  obtain ⟨l, rfl⟩ := Nat.exists_eq_add_of_le h
  rw [load_append, List.drop_left' length_load, Nat.add_sub_cancel_left]

/-- A part of what is loaded. -/
theorem drop_take_load (m : Memory) (a : Nat) {k l n : Nat} (h : k ≤ n) :
    ((load m a n).drop k).take l = load m (a + k) (min (n - k) l) := by
  rw [drop_load m a h]
  rcases Nat.le_total l (n - k) with hl | hl
  · rw [take_load _ _ hl, Nat.min_eq_right hl]
  · rw [List.take_of_length_le (by rwa [length_load]), Nat.min_eq_left hl]

/-! ### Copies -/

theorem store_apply_in {bs : List UInt8} {x : Nat} (h : a ≤ x) (h' : x - a < bs.length) :
    store m a bs x = bs[x - a] := by
  simp [store, h, List.getElem?_eq_getElem h']

theorem store_apply_out {bs : List UInt8} {x : Nat} (h : x < a ∨ a + bs.length ≤ x) :
    store m a bs x = m x := by
  rw [store]
  split
  · rw [List.getElem?_eq_none (by omega)]
    rfl
  · rfl

theorem agreeOn_store {bs : List UInt8} (h : b + n ≤ a ∨ a + bs.length ≤ b) :
    AgreeOn m (store m a bs) b n :=
  fun _ _ _ => store_apply_out (by omega)

theorem load_store_same (m : Memory) (a : Nat) (bs : List UInt8) :
    load (store m a bs) a bs.length = bs := by
  apply List.ext_getElem
  · simp
  · intro k h _
    have hk : k < bs.length := by simpa using h
    rw [getElem_load, store_apply_in (by omega) (by omega)]
    simp

theorem load_store_disjoint {bs : List UInt8} (h : b + n ≤ a ∨ a + bs.length ≤ b) :
    load (store m a bs) b n = load m b n :=
  load_congr (agreeOn_store h)

/-- A byte that is stored over a different one shows. -/
theorem load_store_ne {off : Nat} {x : UInt8} (hx : x ≠ m (a + off)) (hoff : off < n) :
    load (store m (a + off) [x]) a n ≠ load m a n := by
  intro h
  have hbyte := load_eq_iff.mp h (a + off) (by omega) (by omega)
  rw [store_apply_in (le_refl _) (by simp)] at hbyte
  exact hx (by simpa using hbyte)

@[simp] theorem store_nil : store m a [] = m := by
  funext x
  simp [store]

/-- The bytes `bs` with `data` written over them from offset `off` on. -/
def overwrite (bs : List UInt8) (off : Nat) (data : List UInt8) : List UInt8 :=
  bs.take off ++ data ++ bs.drop (off + data.length)

/-- A byte of it is one of `data`, or one of `bs`. -/
theorem getElem_overwrite {bs data : List UInt8} {off p : Nat} (hoff : off ≤ bs.length)
    (hp : p < (overwrite bs off data).length) :
    (∃ h : off ≤ p ∧ p - off < data.length, (overwrite bs off data)[p] = data[p - off]) ∨
      ¬ (off ≤ p ∧ p - off < data.length) ∧
        ∃ h : p < bs.length, (overwrite bs off data)[p] = bs[p] := by
  have htake : (bs.take off).length = off := List.length_take_of_le hoff
  simp only [overwrite, List.length_append, List.length_drop, htake] at hp
  simp only [overwrite, List.getElem_append, List.length_append, htake]
  by_cases hlt : p < off
  · refine Or.inr ⟨by omega, by omega, ?_⟩
    rw [dif_pos (by omega), dif_pos hlt, List.getElem_take]
  · by_cases hin : p - off < data.length
    · refine Or.inl ⟨⟨by omega, hin⟩, ?_⟩
      rw [dif_pos (by omega), dif_neg hlt]
    · refine Or.inr ⟨by omega, by omega, ?_⟩
      rw [dif_neg (by omega), List.getElem_drop]
      congr 1
      omega

/-- A copy that starts in, or right after, the bytes that are loaded. -/
theorem load_store_within {off : Nat} (m : Memory) (a : Nat) (data : List UInt8) (h : off ≤ n) :
    load (store m (a + off) data) a (max n (off + data.length)) =
      overwrite (load m a n) off data := by
  have hsplit : max n (off + data.length) = off + data.length + (n - (off + data.length)) := by
    omega
  rw [hsplit, load_append, load_append, load_store_same, load_store_disjoint (by omega),
    load_store_disjoint (by omega), overwrite, take_load m a h]
  congr 1
  by_cases hle : off + data.length ≤ n
  · rw [drop_load m a hle]
  · rw [List.drop_eq_nil_of_le (by rw [length_load]; omega),
      Nat.sub_eq_zero_of_le (by omega), load_zero]

/-! ### Integers -/

/-- The four bytes of an `int`. -/
def intBytes (v : Int) : List UInt8 :=
  let w := (v % 2 ^ 32).toNat
  [UInt8.ofNat w, UInt8.ofNat (w / 2 ^ 8), UInt8.ofNat (w / 2 ^ 16), UInt8.ofNat (w / 2 ^ 24)]

/-- The `int` at an address. -/
def loadInt (m : Memory) (a : Nat) : Int :=
  let w : Nat := (m a).toNat + 2 ^ 8 * (m (a + 1)).toNat + 2 ^ 16 * (m (a + 2)).toNat +
    2 ^ 24 * (m (a + 3)).toNat
  if w < 2 ^ 31 then w else (w : Int) - 2 ^ 32

/-- Assignment to the `int` at an address. -/
def storeInt (m : Memory) (a : Nat) (v : Int) : Memory := store m a (intBytes v)

@[simp] theorem length_intBytes (v : Int) : (intBytes v).length = 4 := rfl

theorem loadInt_congr (h : AgreeOn m m' a 4) : loadInt m' a = loadInt m a := by
  simp only [loadInt, h a (by omega) (by omega), h (a + 1) (by omega) (by omega),
    h (a + 2) (by omega) (by omega), h (a + 3) (by omega) (by omega)]

theorem agreeOn_storeInt {v : Int} (h : b + n ≤ a ∨ a + 4 ≤ b) :
    AgreeOn m (storeInt m a v) b n :=
  agreeOn_store (by simpa using h)

theorem loadInt_storeInt_disjoint {v : Int} (h : b + 4 ≤ a ∨ a + 4 ≤ b) :
    loadInt (storeInt m a v) b = loadInt m b :=
  loadInt_congr (agreeOn_storeInt h)

/-- An `int` is read back as it was stored. -/
theorem loadInt_storeInt {v : Int} (hlo : -2 ^ 31 ≤ v) (hhi : v < 2 ^ 31) :
    loadInt (storeInt m a v) a = v := by
  have hb : ∀ k (hk : k < 4), storeInt m a v (a + k) = (intBytes v)[k] := by
    intro k hk
    have hsub : a + k - a < (intBytes v).length := by simpa using hk
    have h : storeInt m a v (a + k) = (intBytes v)[a + k - a] := store_apply_in (by omega) hsub
    simp only [Nat.add_sub_cancel_left] at h
    exact h
  have h0 := hb 0 (by omega)
  have h1 := hb 1 (by omega)
  have h2 := hb 2 (by omega)
  have h3 := hb 3 (by omega)
  simp only [intBytes, Nat.add_zero, List.getElem_cons_zero, List.getElem_cons_succ] at h0 h1 h2 h3
  simp only [loadInt, h0, h1, h2, h3, UInt8.toNat_ofNat']
  split <;> omega

/-! ### Strings in memory -/

/-- The C string at address `a` is `q`. -/
def StringAt (m : Memory) (a : Nat) (q : CString) : Prop := load m a (q.strlen + 1) = q.terminated

theorem StringAt.congr {q : CString} (h : StringAt m a q) (hm : AgreeOn m m' a (q.strlen + 1)) :
    StringAt m' a q :=
  (load_congr hm).trans h

theorem StringAt.byte {q : CString} (h : StringAt m a q) {k : Nat} (hk : k < q.strlen) :
    m (a + k) = q.bytes.get ⟨k, hk⟩ := by
  have hl : k < (load m a (q.strlen + 1)).length := by simp; omega
  have ht : k < q.terminated.length := by simp; omega
  have hb : (load m a (q.strlen + 1))[k] = q.terminated[k] := by
    simp only [show load m a (q.strlen + 1) = q.terminated from h]
  rw [getElem_load] at hb
  exact hb.trans (List.getElem_append_left hk)

theorem StringAt.nul {q : CString} (h : StringAt m a q) : m (a + q.strlen) = 0 := by
  have hl : q.strlen < (load m a (q.strlen + 1)).length := by simp
  have ht : q.strlen < q.terminated.length := by simp
  have hb : (load m a (q.strlen + 1))[q.strlen] = q.terminated[q.strlen] := by
    simp only [show load m a (q.strlen + 1) = q.terminated from h]
  rw [getElem_load] at hb
  rw [hb]
  simp [CString.terminated, CString.strlen]

/-- An address holds at most one string. -/
theorem StringAt.unique {q q' : CString} (h : StringAt m a q) (h' : StringAt m a q') : q = q' := by
  -- A shorter string would put its NUL inside the longer one.
  have hle : ∀ {q q' : CString}, StringAt m a q → StringAt m a q' → q.strlen ≤ q'.strlen := by
    intro q q' h h'
    by_contra hlt
    have hk : q'.strlen < q.strlen := by omega
    have hb := h.byte hk
    rw [h'.nul] at hb
    exact q.noNul (hb ▸ List.getElem_mem hk)
  have hlen : q.strlen = q'.strlen := le_antisymm (hle h h') (hle h' h)
  ext1
  apply List.ext_getElem hlen
  intro k hk hk'
  exact (h.byte hk).symm.trans (h'.byte hk')

/-- `strcmp(a, q)`: the difference of the first bytes that differ, `0` when the
strings are equal. -/
def strcmp (m : Memory) (a : Nat) (q : CString) : Int := go a q.terminated
where
  go (a : Nat) : List UInt8 → Int
    | [] => 0
    | b :: bs => if m a = b then go (a + 1) bs else (m a).toNat - b.toNat

/-- `strncmp(a, q, n)`: as `strcmp`, over at most `n` bytes. -/
def strncmp (m : Memory) (a : Nat) (q : CString) (n : Nat) : Int :=
  strcmp.go m a (q.terminated.take n)

theorem strcmp_go_eq_zero : ∀ {bs : List UInt8} {a : Nat},
    strcmp.go m a bs = 0 ↔ load m a bs.length = bs := by
  intro bs
  induction bs with
  | nil => intro a; simp [strcmp.go]
  | cons b bs ih =>
    intro a
    have hl : load m a (b :: bs).length = m a :: load m (a + 1) bs.length := by
      rw [List.length_cons, Nat.add_comm, load_append]
      rfl
    rw [strcmp.go, hl, List.cons.injEq]
    by_cases hb : m a = b
    · rw [if_pos hb, ih]
      simp [hb]
    · rw [if_neg hb]
      have hne : (m a).toNat ≠ b.toNat := fun h => hb (UInt8.toNat_inj.mp h)
      simp only [hb, false_and, iff_false]
      omega

theorem strcmp_eq_zero {q : CString} : strcmp m a q = 0 ↔ StringAt m a q := by
  rw [strcmp, strcmp_go_eq_zero, CString.length_terminated, StringAt]

theorem strncmp_eq_zero {q : CString} (h : q.strlen < n) :
    strncmp m a q n = 0 ↔ StringAt m a q := by
  rw [strncmp, List.take_of_length_le (by simpa using h), ← strcmp, strcmp_eq_zero]

/-- A string terminated before byte `n` differs, within `n` bytes, from every
string of `n` bytes or more. -/
theorem strncmp_ne_zero {q q' : CString} (h : StringAt m a q) (hn : q.strlen < n)
    (hq' : n ≤ q'.strlen) : strncmp m a q' n ≠ 0 := by
  intro h0
  have htake : (q'.terminated.take n).length = n := by simp; omega
  rw [strncmp, strcmp_go_eq_zero, htake] at h0
  have hk : q.strlen < (load m a n).length := by simpa using hn
  have hk' : q.strlen < (q'.terminated.take n).length := by omega
  have hb : (load m a n)[q.strlen] = (q'.terminated.take n)[q.strlen] := by simp only [h0]
  have hlt : q.strlen < q'.bytes.length := lt_of_lt_of_le hn hq'
  have ht : q.strlen < q'.terminated.length := by simp; omega
  have hq : q'.terminated[q.strlen] = q'.bytes[q.strlen] := List.getElem_append_left hlt
  rw [getElem_load, h.nul, List.getElem_take, hq] at hb
  exact q'.noNul (hb ▸ List.getElem_mem hlt)

/-- The bytes `strncpy(dst, q, n)` writes: `q`, cut or padded with NULs to `n`. -/
def strncpyBytes (q : CString) (n : Nat) : List UInt8 :=
  (q.bytes ++ List.replicate n 0).take n

@[simp] theorem length_strncpyBytes (q : CString) (n : Nat) : (strncpyBytes q n).length = n := by
  simp [strncpyBytes]

theorem strncpyBytes_of_le {q : CString} {n : Nat} (h : q.strlen ≤ n) :
    strncpyBytes q n = q.bytes ++ List.replicate (n - q.strlen) 0 := by
  have hlen : q.bytes.length ≤ n := h
  rw [strncpyBytes, List.take_append, List.take_of_length_le hlen, List.take_replicate]
  simp [CString.strlen]

/-- A buffer of `q` followed by NULs holds `q`. -/
theorem stringAt_store {q : CString} {bs : List UInt8} (h : q.terminated <+: bs) :
    StringAt (store m a bs) a q := by
  obtain ⟨rest, rfl⟩ := h
  have hl := load_store_same m a (q.terminated ++ rest)
  rw [StringAt, ← CString.length_terminated,
    ← take_load (store m a (q.terminated ++ rest)) a (n := (q.terminated ++ rest).length)
      (by simp), hl, List.take_left' rfl]

/-- A copied string is found where it was copied to. -/
theorem stringAt_strncpy {q : CString} (h : q.strlen < n) :
    StringAt (store m a (strncpyBytes q n)) a q := by
  apply stringAt_store
  rw [strncpyBytes_of_le h.le]
  obtain ⟨l, hl⟩ : ∃ l, n - q.strlen = l + 1 := ⟨n - q.strlen - 1, by omega⟩
  exact ⟨List.replicate l 0, by simp [CString.terminated, hl, List.replicate_succ]⟩

end Memory
