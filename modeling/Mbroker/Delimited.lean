/-
Messages ended by a delimiter.

`frame d ms` is a stream of messages with the delimiter `d` after each.  A
receiver that takes the stream one element at a time keeps what it has of the
current message and the list of those it has completed (`Received.feed`).

* **`feedAll_frame`** — the receiver gets back the messages, whatever they are
  as long as the delimiter is in none;
* **`completed_prefix`** — wherever in the stream it has got to, what it has
  completed is a prefix of the messages;
* **`completed_take`** — of a stream that is cut short it completes the messages that fit;
* **`chunks_end_iff`** — a reader with room for so many elements takes a message at
  a time exactly when there is room for each.
-/
import Mathlib.Algebra.GroupWithZero.Nat
import Mathlib.Data.List.Basic
import Mathlib.Data.List.Infix

namespace Delimited

variable {α : Type} {d : α} {ms : List (List α)} {bs : List α}

/-- The messages as a stream. -/
def frame (d : α) (ms : List (List α)) : List α := ms.flatMap fun m => m ++ [d]

@[simp] theorem frame_nil (d : α) : frame d [] = [] := rfl

theorem frame_append (d : α) (ms ms' : List (List α)) :
    frame d (ms ++ ms') = frame d ms ++ frame d ms' := by
  simp [frame]

@[simp] theorem frame_singleton (d : α) (m : List α) : frame d [m] = m ++ [d] := by
  simp [frame]

theorem length_frame (d : α) (ms : List (List α)) :
    (frame d ms).length = (ms.map fun m => m.length + 1).sum := by
  rw [frame, List.length_flatMap]
  simp only [List.length_append, List.length_singleton]

/-- The messages that fit in `n` elements, with a delimiter each: up to the first that does not. -/
def fitting (n : Nat) : List (List α) → List (List α)
  | [] => []
  | m :: ms => if m.length + 1 ≤ n then m :: fitting (n - (m.length + 1)) ms else []

theorem fitting_prefix (n : Nat) (ms : List (List α)) : fitting n ms <+: ms := by
  induction ms generalizing n with
  | nil => exact List.prefix_rfl
  | cons m ms ih =>
    rw [fitting]
    split
    · exact List.cons_prefix_cons.mpr ⟨rfl, ih _⟩
    · exact List.nil_prefix

/-- More messages: more may fit, and those that did still do. -/
theorem fitting_mono {ms' : List (List α)} (n : Nat) (h : ms <+: ms') :
    fitting n ms <+: fitting n ms' := by
  induction ms generalizing n ms' with
  | nil => exact List.nil_prefix
  | cons m ms ih =>
    rcases ms' with _ | ⟨m', ms'⟩
    · exact absurd h.length_le (by simp)
    · obtain ⟨rfl, hms⟩ := List.cons_prefix_cons.mp h
      rw [fitting, fitting]
      split
      · exact List.cons_prefix_cons.mpr ⟨rfl, ih _ hms⟩
      · exact List.prefix_rfl

/-- They all fit when the stream does. -/
theorem fitting_eq_self {n : Nat} (h : (frame d ms).length ≤ n) : fitting n ms = ms := by
  induction ms generalizing n with
  | nil => rfl
  | cons m ms ih =>
    rw [length_frame, List.map_cons, List.sum_cons] at h
    rw [fitting, if_pos (by omega), ih (by rw [length_frame]; omega)]

variable [DecidableEq α]

/-- What a receiver has: the messages completed and the part of the next one. -/
structure Received (α : Type) where
  completed : List (List α) := []
  pending : List α := []

/-- One element received. -/
def Received.feed (d : α) (r : Received α) (c : α) : Received α :=
  if c = d then ⟨r.completed ++ [r.pending], []⟩ else ⟨r.completed, r.pending ++ [c]⟩

/-- A part of a stream received. -/
def feedAll (d : α) (r : Received α) (bs : List α) : Received α := bs.foldl (Received.feed d) r

@[simp] theorem feedAll_nil (r : Received α) : feedAll d r [] = r := rfl

theorem feedAll_append (r : Received α) (bs cs : List α) :
    feedAll d r (bs ++ cs) = feedAll d (feedAll d r bs) cs := List.foldl_append

@[simp] theorem feedAll_singleton (r : Received α) (c : α) : feedAll d r [c] = r.feed d c := rfl

/-- The elements of a message wait to be completed. -/
theorem feedAll_message (r : Received α) {m : List α} (h : d ∉ m) :
    feedAll d r m = ⟨r.completed, r.pending ++ m⟩ := by
  induction m generalizing r with
  | nil => simp
  | cons c m ih =>
    have hc : c ≠ d := fun heq => h (heq ▸ List.mem_cons_self)
    have hm : d ∉ m := fun hmem => h (List.mem_cons_of_mem c hmem)
    rw [show c :: m = [c] ++ m from rfl, feedAll_append, feedAll_singleton, Received.feed,
      if_neg hc, ih _ hm]
    simp

/-- **The round trip.** -/
theorem feedAll_frame (r : Received α) (hr : r.pending = []) (h : ∀ m ∈ ms, d ∉ m) :
    feedAll d r (frame d ms) = ⟨r.completed ++ ms, []⟩ := by
  induction ms generalizing r with
  | nil =>
    obtain ⟨done, part⟩ := r
    simp only at hr
    simp [hr]
  | cons m ms ih =>
    have hm := h m List.mem_cons_self
    rw [show m :: ms = [m] ++ ms from rfl, frame_append, frame_singleton, feedAll_append,
      feedAll_append, feedAll_message r hm, feedAll_singleton, Received.feed, if_pos rfl,
      ih _ rfl fun m' hm' => h m' (List.mem_cons_of_mem m hm')]
    simp [hr]

/-- What is completed stays completed. -/
theorem completed_feedAll (r : Received α) (bs : List α) :
    r.completed <+: (feedAll d r bs).completed := by
  induction bs generalizing r with
  | nil => exact List.prefix_rfl
  | cons c bs ih =>
    refine List.IsPrefix.trans ?_ (ih (r.feed d c))
    rw [Received.feed]
    split
    · exact List.prefix_append _ _
    · exact List.prefix_rfl

/-- **Wherever the receiver has got to**, it has completed a prefix of the
messages. -/
theorem completed_prefix (h : ∀ m ∈ ms, d ∉ m) (hbs : bs <+: frame d ms) :
    (feedAll d {} bs).completed <+: ms := by
  obtain ⟨cs, hcs⟩ := hbs
  have hpre := completed_feedAll (d := d) (feedAll d {} bs) cs
  rw [← feedAll_append, hcs, feedAll_frame {} rfl h] at hpre
  simpa using hpre

/-- **A stream cut short**: the messages that fit are completed. -/
theorem completed_take (h : ∀ m ∈ ms, d ∉ m) (n : Nat) :
    (feedAll d {} ((frame d ms).take n)).completed = fitting n ms := by
  suffices hgen : ∀ done, (feedAll d ⟨done, []⟩ ((frame d ms).take n)).completed =
      done ++ fitting n ms from hgen []
  induction ms generalizing n with
  | nil =>
    intro done
    rw [frame_nil, List.take_nil, feedAll_nil, fitting, List.append_nil]
  | cons m ms ih =>
    intro done
    obtain ⟨hm, hms⟩ := List.forall_mem_cons.mp h
    rw [show m :: ms = [m] ++ ms from rfl, frame_append, frame_singleton, List.singleton_append,
      fitting]
    split
    case isTrue hfits =>
      -- The message is whole, with its delimiter.
      have htake : ((m ++ [d]) ++ frame d ms).take n =
          (m ++ [d]) ++ (frame d ms).take (n - (m.length + 1)) := by
        rw [List.take_append, List.take_of_length_le (by rwa [List.length_append]),
          List.length_append, List.length_singleton]
      rw [htake, feedAll_append, feedAll_append, feedAll_message _ hm, feedAll_singleton,
        Received.feed, if_pos rfl, List.nil_append, ih hms, List.append_assoc,
        List.singleton_append]
    case isFalse hfits =>
      have htake : ((m ++ [d]) ++ frame d ms).take n = m.take n := by
        rw [List.append_assoc, List.take_append_of_le_length (by omega)]
      have hmem : d ∉ m.take n := fun hd => hm (List.mem_of_mem_take hd)
      rw [htake, feedAll_message _ hmem, List.append_nil]

/-- The part of a message that the receiver has is no longer than what it has
received, and does not have the delimiter. -/
theorem pending_feedAll (r : Received α) (bs : List α) (hr : d ∉ r.pending) :
    (feedAll d r bs).pending.length ≤ r.pending.length + bs.length ∧
      d ∉ (feedAll d r bs).pending := by
  induction bs generalizing r with
  | nil => exact ⟨le_refl _, hr⟩
  | cons c bs ih =>
    have hfeed : (r.feed d c).pending.length ≤ r.pending.length + 1 ∧
        d ∉ (r.feed d c).pending := by
      rw [Received.feed]
      split
      · simp
      · simp only [List.length_append, List.length_singleton, List.mem_append,
          List.mem_singleton, le_refl, true_and, not_or]
        exact ⟨hr, fun hd => ‹¬ c = d› hd.symm⟩
    obtain ⟨hlen, hmem⟩ := ih (r.feed d c) hfeed.2
    refine ⟨?_, hmem⟩
    show (feedAll d (r.feed d c) bs).pending.length ≤ _
    rw [List.length_cons]
    omega

/-- What has been received is what is completed, with a delimiter each, and what is not. -/
theorem sum_feedAll (bs : List α) (r : Received α) :
    ((feedAll d r bs).completed.map fun m => m.length + 1).sum + (feedAll d r bs).pending.length =
      (r.completed.map fun m => m.length + 1).sum + r.pending.length + bs.length := by
  induction bs generalizing r with
  | nil => rfl
  | cons c bs ih =>
    rw [show feedAll d r (c :: bs) = feedAll d (r.feed d c) bs from rfl, ih, Received.feed]
    split
    · simp only [List.map_append, List.sum_append, List.map_singleton, List.sum_singleton,
        List.length_nil, List.length_cons]
      omega
    · simp only [List.length_append, List.length_nil, List.length_cons]
      omega

/-- A message that has been completed was received, and its delimiter after it. -/
theorem mem_completed {m : List α} (hm : m ∈ (feedAll d {} bs).completed) :
    d ∉ m ∧ m.length + 1 ≤ bs.length := by
  suffices hgen : ∀ cs r, d ∉ r.pending → r.pending.length ≤ cs.length →
      (∀ m ∈ r.completed, d ∉ m ∧ m.length + 1 ≤ cs.length) →
      ∀ m ∈ (feedAll d r bs).completed, d ∉ m ∧ m.length + 1 ≤ (cs ++ bs).length from
    hgen [] {} List.not_mem_nil (le_refl _) (fun _ h => absurd h List.not_mem_nil) m hm
  clear hm
  induction bs with
  | nil =>
    intro cs r _ _ hdone
    rw [List.append_nil]
    exact hdone
  | cons c bs ih =>
    intro cs r hr hlen hdone
    rw [List.append_cons]
    refine ih (cs ++ [c]) (r.feed d c) ?_ ?_ ?_ <;> rw [Received.feed] <;> split
    · exact List.not_mem_nil
    · simp only [List.mem_append, List.mem_singleton, not_or]
      exact ⟨hr, fun hd => ‹¬ c = d› hd.symm⟩
    · exact Nat.zero_le _
    · rw [List.length_append, List.length_append]
      exact Nat.add_le_add_right hlen 1
    · intro m hm
      rw [List.length_append, List.length_singleton]
      rcases List.mem_append.mp hm with hmem | hmem
      · exact ⟨(hdone m hmem).1, Nat.le_succ_of_le (hdone m hmem).2⟩
      · rw [List.mem_singleton.mp hmem]
        exact ⟨hr, Nat.succ_le_succ hlen⟩
    · intro m hm
      rw [List.length_append, List.length_singleton]
      exact ⟨(hdone m hm).1, Nat.le_succ_of_le (hdone m hm).2⟩

/-! ### Chunks

A reader with room for so many elements takes a message in chunks: up to the delimiter, or as
much as there is room for. -/

/-- What a reader with room for `n` elements takes. -/
def nextChunk (d : α) : Nat → List α → List α
  | 0, _ => []
  | _, [] => []
  | n + 1, c :: bs => if c = d then [c] else c :: nextChunk d n bs

theorem isPrefix_nextChunk (d : α) (n : Nat) (bs : List α) : nextChunk d n bs <+: bs := by
  induction n generalizing bs with
  | zero => exact List.nil_prefix
  | succ n ih =>
    rcases bs with _ | ⟨c, bs⟩
    · exact List.nil_prefix
    · rw [nextChunk]
      split
      · exact List.prefix_append [c] bs
      · exact List.cons_prefix_cons.mpr ⟨rfl, ih bs⟩

theorem nextChunk_append_drop (d : α) (n : Nat) (bs : List α) :
    nextChunk d n bs ++ bs.drop (nextChunk d n bs).length = bs := by
  obtain ⟨rest, hrest⟩ := isPrefix_nextChunk d n bs
  calc nextChunk d n bs ++ bs.drop (nextChunk d n bs).length
      = nextChunk d n bs ++ (nextChunk d n bs ++ rest).drop (nextChunk d n bs).length := by
        rw [hrest]
    _ = nextChunk d n bs ++ rest := by rw [List.drop_left' rfl]
    _ = bs := hrest

theorem length_nextChunk_le (d : α) (n : Nat) (bs : List α) : (nextChunk d n bs).length ≤ n := by
  induction n generalizing bs with
  | zero => exact le_refl 0
  | succ n ih =>
    rcases bs with _ | ⟨c, bs⟩
    · exact Nat.zero_le _
    · rw [nextChunk]
      split
      · exact Nat.succ_le_succ (Nat.zero_le n)
      · exact Nat.succ_le_succ (ih bs)

theorem nextChunk_ne_nil (d : α) (n : Nat) {bs : List α} (h : bs ≠ []) :
    nextChunk d (n + 1) bs ≠ [] := by
  rcases bs with _ | ⟨c, bs⟩
  · exact absurd rfl h
  · rw [nextChunk]
    split
    · exact List.cons_ne_nil _ _
    · exact List.cons_ne_nil _ _

theorem length_drop_nextChunk (d : α) (n : Nat) {bs : List α} (h : bs ≠ []) :
    (bs.drop (nextChunk d (n + 1) bs).length).length < bs.length := by
  have hpos := List.length_pos_iff.mpr (nextChunk_ne_nil d n h)
  have hbs := List.length_pos_iff.mpr h
  rw [List.length_drop]
  omega

/-- The delimiter is at the end of a chunk, or not in it. -/
theorem notMem_dropLast_nextChunk (d : α) (n : Nat) (bs : List α) :
    d ∉ (nextChunk d n bs).dropLast := by
  induction n generalizing bs with
  | zero => exact List.not_mem_nil
  | succ n ih =>
    rcases bs with _ | ⟨c, bs⟩
    · exact List.not_mem_nil
    · rw [nextChunk]
      split
      · exact List.not_mem_nil
      · rcases hchunk : nextChunk d n bs with _ | ⟨c', cs⟩
        · exact List.not_mem_nil
        · have hrest : d ∉ (c' :: cs).dropLast := hchunk ▸ ih bs
          rw [List.dropLast_cons_cons, List.mem_cons, not_or]
          exact ⟨fun heq => ‹¬ c = d› heq.symm, hrest⟩

/-- A message that there is room for is taken whole. -/
theorem nextChunk_message {m : List α} {n : Nat} (h : d ∉ m) (hlen : m.length ≤ n) (rest : List α) :
    nextChunk d (n + 1) (m ++ d :: rest) = m ++ [d] := by
  induction m generalizing n with
  | nil => rw [List.nil_append, nextChunk, if_pos rfl, List.nil_append]
  | cons c m ih =>
    obtain ⟨k, rfl⟩ : ∃ k, n = k + 1 := ⟨n - 1, by rw [List.length_cons] at hlen; omega⟩
    have hc : c ≠ d := fun heq => h (heq ▸ List.mem_cons_self)
    have hm : d ∉ m := fun hmem => h (List.mem_cons_of_mem c hmem)
    rw [List.cons_append, nextChunk, if_neg hc, ih hm (Nat.le_of_succ_le_succ hlen),
      List.cons_append]

/-- The chunks of a stream, of at most `n + 1` elements. -/
def chunks (d : α) (n : Nat) (bs : List α) : List (List α) :=
  if h : bs = [] then []
  else nextChunk d (n + 1) bs :: chunks d n (bs.drop (nextChunk d (n + 1) bs).length)
termination_by bs.length
decreasing_by exact length_drop_nextChunk d n h

@[simp] theorem chunks_nil (d : α) (n : Nat) : chunks d n [] = [] := by
  rw [chunks, dif_pos rfl]

theorem chunks_of_ne_nil (n : Nat) (h : bs ≠ []) :
    chunks d n bs =
      nextChunk d (n + 1) bs :: chunks d n (bs.drop (nextChunk d (n + 1) bs).length) := by
  rw [chunks, dif_neg h]

/-- The chunks are the stream. -/
theorem flatten_chunks (d : α) (n : Nat) (bs : List α) : (chunks d n bs).flatten = bs := by
  induction bs using chunks.induct d n with
  | case1 => rw [chunks_nil, List.flatten_nil]
  | case2 bs h ih => rw [chunks_of_ne_nil n h, List.flatten_cons, ih, nextChunk_append_drop]

theorem forall_mem_chunks {P : List α → Prop}
    (h : ∀ bs, bs ≠ [] → P (nextChunk d (n + 1) bs)) : ∀ chunk ∈ chunks d n bs, P chunk := by
  induction bs using chunks.induct d n with
  | case1 =>
    rw [chunks_nil]
    exact fun _ hmem => absurd hmem List.not_mem_nil
  | case2 bs hne ih =>
    rw [chunks_of_ne_nil n hne]
    exact List.forall_mem_cons.mpr ⟨h bs hne, ih⟩

/-- Messages that there is room for: a chunk for each. -/
theorem chunks_frame {n : Nat} (h : ∀ m ∈ ms, d ∉ m ∧ m.length ≤ n) :
    chunks d n (frame d ms) = ms.map fun m => m ++ [d] := by
  induction ms with
  | nil => rw [frame_nil, chunks_nil, List.map_nil]
  | cons m ms ih =>
    obtain ⟨hm, hms⟩ := List.forall_mem_cons.mp h
    have hframe : frame d (m :: ms) = m ++ d :: frame d ms := by
      rw [frame, List.flatMap_cons, List.append_assoc]
      rfl
    have hne : frame d (m :: ms) ≠ [] := by
      rw [hframe]
      simp
    have hdrop : (m ++ d :: frame d ms).drop (m ++ [d]).length = frame d ms := by
      rw [List.append_cons m d (frame d ms), List.drop_left' rfl]
    rw [chunks_of_ne_nil n hne, hframe, nextChunk_message hm.1 hm.2, hdrop, ih hms, List.map_cons]

/-- **Every chunk ends with the delimiter** exactly when the stream is one of messages that there
is room for. -/
theorem chunks_end_iff {n : Nat} : (∀ chunk ∈ chunks d n bs, chunk.getLast? = some d) ↔
    ∃ ms, (∀ m ∈ ms, d ∉ m ∧ m.length ≤ n) ∧ bs = frame d ms := by
  constructor
  · intro h
    refine ⟨(chunks d n bs).map List.dropLast, ?_, ?_⟩
    · rw [List.forall_mem_map]
      refine forall_mem_chunks fun bs hne => ⟨notMem_dropLast_nextChunk d (n + 1) bs, ?_⟩
      have hlen := length_nextChunk_le d (n + 1) bs
      rw [List.length_dropLast]
      omega
    · have hself : ((chunks d n bs).map List.dropLast).map (fun m => m ++ [d]) = chunks d n bs := by
        rw [List.map_map]
        refine (List.map_congr_left fun chunk hmem => ?_).trans (List.map_id _)
        exact List.dropLast_append_getLast? d (h chunk hmem)
      rw [frame, List.flatMap_def, hself, flatten_chunks]
  · rintro ⟨ms, hms, rfl⟩
    rw [chunks_frame hms, List.forall_mem_map]
    intro m _
    rw [List.getLast?_append, List.getLast?_singleton]
    rfl

end Delimited
