/-
The client that publishes.

Once it is registered, the publisher reads its standard input through a buffer and sends a
message for each line.  `fgets` takes up to 1023 bytes, and the newline if it gets there; the
last byte of what it has taken is then made a NUL, newline or not.

* `sendLines_eq` — the messages are the chunks of the stream, each without its last byte;
* **`sendsEveryByte_iff`** — they are the lines of the stream exactly when each line ends with a
  newline and has at most 1022 other bytes;
* `not_sendsEveryByte_noNewline` — a stream of one byte.
-/
import Mbroker.BoxRecords
import Mbroker.Delimited

namespace Mbroker

open Delimited Outcome

/-! ### Reading -/

/-- `'\n'`. -/
def newline : UInt8 := 10

theorem length_fgets (str : CharArray messageSize) (stdin : List UInt8) :
    (nextChunk newline (messageSize - 1) stdin ++ 0 ::
      str.bytes.drop ((nextChunk newline (messageSize - 1) stdin).length + 1)).length =
      messageSize := by
  have hle := length_nextChunk_le newline (messageSize - 1) stdin
  have hsize : 0 < messageSize := by decide
  rw [List.length_append, List.length_cons, List.length_drop, str.length_bytes]
  omega

/-- `fgets(str, MESSAGE_SIZE, stdin)`: the array, and what is left of the stream; nothing at its
end. -/
def fgets (str : CharArray messageSize) (stdin : List UInt8) :
    Option (CharArray messageSize × List UInt8) :=
  let line := nextChunk newline (messageSize - 1) stdin
  if stdin = [] then none
  else some (⟨line ++ 0 :: str.bytes.drop (line.length + 1), length_fgets str stdin⟩,
    stdin.drop line.length)

theorem fgets_eq_some {str str' : CharArray messageSize} {stdin rest : List UInt8}
    (h : fgets str stdin = some (str', rest)) : stdin ≠ [] ∧
      rest = stdin.drop (nextChunk newline (messageSize - 1) stdin).length ∧
      str'.bytes = nextChunk newline (messageSize - 1) stdin ++ 0 ::
        str.bytes.drop ((nextChunk newline (messageSize - 1) stdin).length + 1) := by
  rw [fgets] at h
  split at h
  case isTrue => cases h
  case isFalse hne =>
    obtain ⟨rfl, rfl⟩ := Prod.mk.inj (Option.some.inj h)
    exact ⟨hne, rfl, rfl⟩

theorem length_of_fgets {str str' : CharArray messageSize} {stdin rest : List UInt8}
    (h : fgets str stdin = some (str', rest)) : rest.length < stdin.length := by
  obtain ⟨hne, rfl, -⟩ := fgets_eq_some h
  exact length_drop_nextChunk newline (messageSize - 2) hne

/-! ### Sending -/

/-- The message that a line is made into: `strcpy(message, str)`, and then the NULs. -/
def toMessage (str message : CharArray messageSize) : Outcome (CharArray messageSize) := do
  let message ← message.strcpyFrom str
  let len := message.text.strlen
  if len = messageSize then return message.set (messageSize - 1) 0
  else if len = 0 then return message.set 0 0
  else (message.set (len - 1) 0).fillString

/-- The loop of `main`: the codes and the messages that it sends. -/
def sendLines (str message : CharArray messageSize) (stdin : List UInt8) :
    Outcome (List (UInt8 × List UInt8)) :=
  match _h : fgets str stdin with
  | none => .ok []
  | some (str, rest) => do
    let message ← toMessage str message
    let sent ← sendLines str message rest
    return (9, message.bytes) :: sent
termination_by stdin.length
decreasing_by exact length_of_fgets _h

/-! ### What is sent -/

/-- A chunk without its final newline, if it has one. -/
def textOf (chunk : List UInt8) : List UInt8 :=
  if chunk.getLast? = some newline then chunk.dropLast else chunk

/-- The newline that a chunk ends with, if it has one. -/
def newlineOf (chunk : List UInt8) : List UInt8 :=
  if chunk.getLast? = some newline then [newline] else []

/-- A message for each chunk, with its text and NULs up to the size of a message; and the texts,
with the newlines put back, are the stream. -/
def SendsEveryByte (str message : CharArray messageSize) (stdin : List UInt8) : Prop :=
  ∃ sent, sendLines str message stdin = .ok sent ∧
    sent = (chunks newline (messageSize - 2) stdin).map (fun chunk =>
      (9, padded messageSize (.ofBuffer (textOf chunk)))) ∧
    (List.zipWith (fun chunk m => (CString.ofBuffer m.2).bytes ++ newlineOf chunk)
      (chunks newline (messageSize - 2) stdin) sent).flatten = stdin

section Lines

variable {str message : CharArray messageSize} {stdin chunk : List UInt8}

/-- A line that is not empty loses its last byte. -/
theorem toMessage_returns {tail : List UInt8} (message : CharArray messageSize) (h : 0 ∉ chunk)
    (hne : chunk ≠ []) (hlen : chunk.length < messageSize) (hstr : str.bytes = chunk ++ 0 :: tail) :
    ∃ m, toMessage str message = .ok m ∧
      m.bytes = padded messageSize (.ofBuffer chunk.dropLast) := by
  have htext : str.text = ⟨chunk, h⟩ := by
    rw [CharArray.text, hstr]
    exact CString.ofBuffer_terminated ⟨chunk, h⟩ tail
  have hterm : str.Terminated := by
    rw [CharArray.Terminated, htext]
    exact hlen
  have hpos : 0 < chunk.length := List.length_pos_iff.mpr hne
  have hlast : 0 ∉ chunk.dropLast := fun hmem => h (List.dropLast_subset chunk hmem)
  obtain ⟨copy, hcopy, hcopyText, hcopyTerm⟩ :=
    CharArray.strcpyFrom_returns message hterm (le_refl _)
  have hstrlen : copy.text.strlen = chunk.length := by
    rw [hcopyText, htext]
    rfl
  -- The byte before the NUL is made a NUL as well.
  have hcut : (copy.set (chunk.length - 1) 0).text = .ofBuffer chunk.dropLast := by
    obtain ⟨line, c, rfl⟩ := (List.eq_nil_or_concat' chunk).resolve_left hne
    have hbytes : (copy.set ((line ++ [c]).length - 1) 0).bytes = line ++ 0 :: 0 :: copy.rest := by
      show copy.bytes.set _ _ = _
      rw [CharArray.bytes_eq hcopyTerm, hcopyText, htext, CString.terminated]
      simp
    have hline : 0 ∉ line := by rwa [List.dropLast_concat] at hlast
    rw [CharArray.text, hbytes, List.dropLast_concat]
    ext1
    rw [CString.bytes_ofBuffer hline]
    exact congrArg CString.bytes (CString.ofBuffer_terminated ⟨line, hline⟩ (0 :: copy.rest))
  have hcutTerm : (copy.set (chunk.length - 1) 0).Terminated := by
    rw [CharArray.Terminated, hcut, CString.strlen_ofBuffer hlast, List.length_dropLast]
    omega
  obtain ⟨m, hm, hbytes⟩ := CharArray.fillString_eq hcutTerm
  refine ⟨m, ?_, hbytes.trans (by rw [hcut])⟩
  rw [toMessage, hcopy, ok_bind, hstrlen]
  dsimp only
  rw [if_neg hlen.ne, if_neg hpos.ne', hm]

/-- **What is sent**: each chunk of the stream without its last byte. -/
theorem sendLines_eq (h : 0 ∉ stdin) (str message : CharArray messageSize) :
    sendLines str message stdin = .ok ((chunks newline (messageSize - 2) stdin).map fun chunk =>
      (9, padded messageSize (.ofBuffer chunk.dropLast))) := by
  induction stdin using chunks.induct newline (messageSize - 2) generalizing str message with
  | case1 =>
    rw [sendLines, chunks_nil]
    rfl
  | case2 stdin hne ih =>
    have hsize : messageSize - 2 + 1 = messageSize - 1 := rfl
    have hrest : 0 ∉ stdin.drop (nextChunk newline (messageSize - 1) stdin).length :=
      fun hmem => h (List.mem_of_mem_drop hmem)
    have hchunk : 0 ∉ nextChunk newline (messageSize - 1) stdin :=
      fun hmem => h ((isPrefix_nextChunk newline (messageSize - 1) stdin).subset hmem)
    have hlen : (nextChunk newline (messageSize - 1) stdin).length < messageSize :=
      Nat.lt_of_le_of_lt (length_nextChunk_le newline (messageSize - 1) stdin) (by decide)
    rw [hsize] at ih
    rw [chunks_of_ne_nil _ hne, hsize, sendLines]
    split
    case h_1 hnone =>
      rw [fgets, if_neg hne] at hnone
      cases hnone
    case h_2 str' rest hsome =>
      obtain ⟨-, rfl, hstr⟩ := fgets_eq_some hsome
      obtain ⟨m, hm, hbytes⟩ := toMessage_returns message hchunk
        (nextChunk_ne_nil newline (messageSize - 2) hne) hlen hstr
      rw [hm, ok_bind, ih hrest, hbytes]
      rfl

theorem padded_inj {size : Nat} {q q' : CString} (hq : q.strlen < size) (hq' : q'.strlen < size)
    (h : padded size q = padded size q') : q = q' := by
  rw [← ofBuffer_padded hq, h, ofBuffer_padded hq']

/-- The text of a chunk is all but its last byte exactly when that is a newline. -/
theorem dropLast_eq_textOf_iff (hne : chunk ≠ []) :
    chunk.dropLast = textOf chunk ↔ chunk.getLast? = some newline := by
  rw [textOf]
  split
  case isTrue h => exact iff_of_true rfl h
  case isFalse h =>
    refine iff_of_false (fun heq => ?_) h
    have hlen := congrArg List.length heq
    have hpos : 0 < chunk.length := List.length_pos_iff.mpr hne
    rw [List.length_dropLast] at hlen
    omega

theorem textOf_append_newlineOf (chunk : List UInt8) : textOf chunk ++ newlineOf chunk = chunk := by
  rw [textOf, newlineOf]
  split
  case isTrue h => exact List.dropLast_append_getLast? newline h
  case isFalse => exact List.append_nil chunk

/-- The text of a chunk, as a string. -/
theorem ofBuffer_textOf (h : 0 ∉ chunk) (hlen : chunk.length < messageSize) :
    (CString.ofBuffer (textOf chunk)).bytes = textOf chunk ∧
      (CString.ofBuffer (textOf chunk)).strlen < messageSize := by
  have hstart : textOf chunk <+: chunk := by
    rw [textOf]
    split
    · exact List.dropLast_prefix chunk
    · exact List.prefix_rfl
  have htext : 0 ∉ textOf chunk := fun hmem => h (hstart.subset hmem)
  refine ⟨CString.bytes_ofBuffer htext, ?_⟩
  rw [CString.strlen_ofBuffer htext]
  exact Nat.lt_of_le_of_lt hstart.length_le hlen

/-- The facts about a chunk that was read. -/
theorem of_mem_chunks (h : 0 ∉ stdin) : ∀ chunk ∈ chunks newline (messageSize - 2) stdin,
    chunk ≠ [] ∧ chunk.length < messageSize ∧ 0 ∉ chunk := by
  have hread : ∀ chunk ∈ chunks newline (messageSize - 2) stdin,
      chunk ≠ [] ∧ chunk.length < messageSize :=
    forall_mem_chunks fun bs hne => ⟨nextChunk_ne_nil newline (messageSize - 2) hne,
      Nat.lt_of_le_of_lt (length_nextChunk_le newline (messageSize - 2 + 1) bs) (by decide)⟩
  intro chunk hmem
  refine ⟨(hread chunk hmem).1, (hread chunk hmem).2, fun hzero => h ?_⟩
  rw [← flatten_chunks newline (messageSize - 2) stdin]
  exact List.mem_flatten_of_mem hmem hzero

/-- The message for a chunk is its text exactly when it ends with a newline. -/
theorem padded_dropLast_eq_iff (hne : chunk ≠ []) (hlen : chunk.length < messageSize)
    (h : 0 ∉ chunk) :
    padded messageSize (.ofBuffer chunk.dropLast) = padded messageSize (.ofBuffer (textOf chunk)) ↔
      chunk.getLast? = some newline := by
  rw [← dropLast_eq_textOf_iff hne]
  constructor
  · intro heq
    have hlast : 0 ∉ chunk.dropLast := fun hmem => h (List.dropLast_subset chunk hmem)
    obtain ⟨htext, hlt⟩ := ofBuffer_textOf h hlen
    have hlt' : (CString.ofBuffer chunk.dropLast).strlen < messageSize := by
      rw [CString.strlen_ofBuffer hlast, List.length_dropLast]
      omega
    rw [← CString.bytes_ofBuffer hlast, padded_inj hlt' hlt heq, htext]
  · intro heq
    rw [heq]

/-- The texts of the chunks, with their newlines. -/
theorem flatten_texts (h : 0 ∉ stdin) :
    (List.zipWith (fun chunk m => (CString.ofBuffer m.2).bytes ++ newlineOf chunk)
      (chunks newline (messageSize - 2) stdin)
      ((chunks newline (messageSize - 2) stdin).map fun chunk =>
        ((9 : UInt8), padded messageSize (.ofBuffer (textOf chunk))))).flatten = stdin := by
  rw [List.zipWith_map_right, List.zipWith_self]
  have hself : (chunks newline (messageSize - 2) stdin).map (fun chunk =>
      (CString.ofBuffer (padded messageSize (.ofBuffer (textOf chunk)))).bytes ++ newlineOf chunk) =
      chunks newline (messageSize - 2) stdin := by
    refine (List.map_congr_left fun chunk hmem => ?_).trans (List.map_id _)
    obtain ⟨-, hlen, hnul⟩ := of_mem_chunks h chunk hmem
    obtain ⟨htext, hlt⟩ := ofBuffer_textOf hnul hlen
    rw [ofBuffer_padded hlt, htext, textOf_append_newlineOf]
    rfl
  rw [hself, flatten_chunks]

/-- **Every byte is sent** exactly when every line ends with a newline and has at most 1022 other
bytes. -/
theorem sendsEveryByte_iff (str message : CharArray messageSize) (h : 0 ∉ stdin) :
    SendsEveryByte str message stdin ↔
      ∃ lines, (∀ line ∈ lines, newline ∉ line ∧ line.length ≤ messageSize - 2) ∧
        stdin = frame newline lines := by
  rw [← chunks_end_iff]
  constructor
  · rintro ⟨sent, hsent, hmap, -⟩ chunk hmem
    obtain ⟨hne, hlen, hnul⟩ := of_mem_chunks h chunk hmem
    rw [sendLines_eq h] at hsent
    have heq := List.map_inj_left.mp ((ok.inj hsent).trans hmap) chunk hmem
    exact (padded_dropLast_eq_iff hne hlen hnul).mp (Prod.mk.inj heq).2
  · intro hend
    refine ⟨_, ?_, rfl, flatten_texts h⟩
    rw [sendLines_eq h]
    congr 1
    refine List.map_congr_left fun chunk hmem => ?_
    obtain ⟨hne, hlen, hnul⟩ := of_mem_chunks h chunk hmem
    rw [(padded_dropLast_eq_iff hne hlen hnul).mpr (hend chunk hmem)]

end Lines

/-- A line of one byte. -/
theorem sendsEveryByte_oneLine : SendsEveryByte .zero .zero [97, newline] := by
  refine (sendsEveryByte_iff .zero .zero (by decide)).mpr ⟨[[97]], ?_, rfl⟩
  decide

/-- The same byte without a newline: an empty message is sent. -/
theorem not_sendsEveryByte_noNewline : ¬ SendsEveryByte .zero .zero [97] := by
  rintro ⟨sent, hsent, hmap, -⟩
  have hchunks : chunks newline (messageSize - 2) [97] = [[97]] := by
    have hnext : nextChunk newline (messageSize - 2 + 1) [97] = [97] := rfl
    rw [chunks_of_ne_nil _ (List.cons_ne_nil _ _), hnext, List.drop_length, chunks_nil]
  rw [sendLines_eq (by decide), hchunks] at hsent
  rw [hchunks] at hmap
  have heq := List.map_inj_left.mp ((ok.inj hsent).trans hmap) [97] List.mem_cons_self
  have hend := (padded_dropLast_eq_iff (by decide) (by decide) (by decide)).mp (Prod.mk.inj heq).2
  exact absurd hend (by decide)

end Mbroker
