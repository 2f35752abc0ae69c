/-
What a manager prints.

When its request has been sent, `main` reads a code, and what the code announces: a `box_reply_t`
for a creation or a removal, records for a listing.  It prints a line, or one for each box, in the
order in which `qsort` puts them.

* `CString.strcmp_lt`, `CString.strcmp_eq_zero` — `strcmp` is the order of the bytes;
* `Manager.main_reply` — a reply that says so is an error with its message, any other is an `OK`;
* `lineOf_bytes` — a record, as a line;
* **`Manager.main_listing`** — with whole reads and no mark but the last one, each box has its line,
  in strictly increasing order of the names.
-/
import Mbroker.Uninitialised
import Mbroker.ListingChunks

/-! ### `strcmp` -/

/-- The difference of the first bytes that differ; there is a NUL behind the last one. -/
def strcmpBytes : List UInt8 → List UInt8 → Int
  | [], [] => 0
  | [], b :: _ => -b.toNat
  | a :: _, [] => a.toNat
  | a :: as, b :: bs => if a = b then strcmpBytes as bs else a.toNat - b.toNat

namespace CString

/-- `strcmp`. -/
def strcmp (q q' : CString) : Int := strcmpBytes q.bytes q'.bytes

/-- The bytes, as numbers: these lists have the lexicographic order. -/
def key (q : CString) : List ℕ := q.bytes.map UInt8.toNat

variable {q q' : CString}

theorem key_injective : Function.Injective key := by
  intro q q' h
  ext1
  exact List.map_injective_iff.mpr (fun a b hab => UInt8.toNat_inj.mp hab) h

theorem toNat_pos {b : UInt8} (h : b ≠ 0) : 0 < b.toNat :=
  Nat.pos_of_ne_zero fun h0 => h (UInt8.toNat_inj.mp h0)

theorem strcmpBytes_lt : ∀ {as bs : List UInt8}, 0 ∉ as → 0 ∉ bs →
    (strcmpBytes as bs < 0 ↔ as.map UInt8.toNat < bs.map UInt8.toNat) := by
  intro as
  induction as with
  | nil =>
    intro bs _ hbs
    cases bs with
    | nil => exact iff_of_false (lt_irrefl _) (lt_irrefl _)
    | cons b bs =>
      have hb := toNat_pos fun h0 => hbs (h0 ▸ List.mem_cons_self)
      refine iff_of_true ?_ (List.nil_lt_cons _ _)
      rw [strcmpBytes]
      omega
  | cons a as ih =>
    intro bs has hbs
    cases bs with
    | nil =>
      refine iff_of_false ?_ (List.not_lt_nil _)
      rw [strcmpBytes]
      omega
    | cons b bs =>
      have ih := ih (fun h => has (List.mem_cons_of_mem a h)) fun h => hbs (List.mem_cons_of_mem b h)
      rw [List.map_cons, List.map_cons, List.cons_lt_cons_iff, ← ih, strcmpBytes, UInt8.toNat_inj]
      split
      case isTrue heq =>
        subst heq
        exact ⟨fun h => Or.inr ⟨rfl, h⟩, fun h => h.elim (fun h => absurd h (lt_irrefl _)) And.right⟩
      case isFalse hne =>
        rw [or_iff_left fun h => hne h.1]
        omega

theorem strcmpBytes_swap (as bs : List UInt8) : strcmpBytes bs as = -strcmpBytes as bs := by
  induction as generalizing bs with
  | nil =>
    cases bs with
    | nil => rfl
    | cons b bs => exact (neg_neg _).symm
  | cons a as ih =>
    cases bs with
    | nil => rfl
    | cons b bs =>
      rw [strcmpBytes, strcmpBytes]
      by_cases h : a = b
      · rw [if_pos h, if_pos h.symm, ih]
      · rw [if_neg h, if_neg (Ne.symm h), neg_sub]

/-- **`strcmp` compares the bytes.** -/
theorem strcmp_lt : q.strcmp q' < 0 ↔ q.key < q'.key := strcmpBytes_lt q.noNul q'.noNul

theorem strcmp_le : q.strcmp q' ≤ 0 ↔ q.key ≤ q'.key := by
  rw [← not_lt, ← not_lt, ← strcmp_lt, strcmp, strcmp, strcmpBytes_swap q.bytes, neg_lt_zero]

end CString

namespace Mbroker

/-! ### `qsort` -/

/-- What `qsort` may be: it puts what it is given in an order in which nothing compares greater
than what comes behind it. -/
structure Qsort {α : Type} (compar : α → α → Int) where
  sort : List α → List α
  perm : ∀ xs, (sort xs).Perm xs
  ordered : ∀ xs, (sort xs).Pairwise fun a b => compar a b ≤ 0

/-- `compare_structs`, on the bytes of two records. -/
def compareStructs (a b : List UInt8) : Int := (CString.ofBuffer a).strcmp (.ofBuffer b)

/-- One that sorts by merging. -/
def mergeQsort : Qsort compareStructs where
  sort xs := xs.mergeSort fun a b => decide (compareStructs a b ≤ 0)
  perm xs := List.mergeSort_perm xs _
  ordered xs := by
    have hordered : (xs.mergeSort fun a b => decide (compareStructs a b ≤ 0)).Pairwise
        fun a b => decide (compareStructs a b ≤ 0) = true := by
      refine List.pairwise_mergeSort (fun a b c hab hbc => ?_) (fun a b => ?_) xs
      · rw [decide_eq_true_eq, compareStructs, CString.strcmp_le] at hab hbc ⊢
        exact hab.trans hbc
      · rw [Bool.or_eq_true, decide_eq_true_eq, decide_eq_true_eq, compareStructs, compareStructs,
          CString.strcmp_le, CString.strcmp_le]
        exact le_total _ _
    exact hordered.imp fun h => of_decide_eq_true h

/-! ### Lines -/

/-- `%zu`. -/
def decimal (n : Nat) : List UInt8 := (Nat.toDigits 10 n).map fun c => UInt8.ofNat c.toNat

/-- The `uint64_t` at an offset. -/
def uint64At (bs : List UInt8) (off : Nat) : Nat :=
  Nat.ofDigits 256 (((bs.drop off).take 8).map UInt8.toNat)

/-- What is printed of a box. -/
structure BoxLine where
  boxName : CString
  boxSize : Nat
  nPublishers : Nat
  nSubscribers : Nat
deriving DecidableEq

/-- `"%s %zu %zu %zu\n"`. -/
def BoxLine.text (l : BoxLine) : List UInt8 :=
  l.boxName.bytes ++ 32 :: decimal l.boxSize ++ 32 :: decimal l.nPublishers ++
    32 :: decimal l.nSubscribers ++ [10]

/-- The arguments that `fprintf` finds in a record. -/
def lineOf (box : List UInt8) : BoxLine where
  boxName := .ofBuffer box
  boxSize := uint64At box (boxNameSize + pipeNameSize)
  nPublishers := uint64At box (boxNameSize + pipeNameSize + 8)
  nSubscribers := uint64At box (boxNameSize + pipeNameSize + 16)

theorem ofDigits_uint64Bytes (n m : Nat) :
    Nat.ofDigits 256 (((List.range m).map fun k => UInt8.ofNat (n / 256 ^ k)).map UInt8.toNat) =
      n % 256 ^ m := by
  induction m generalizing n with
  | zero => rw [pow_zero, Nat.mod_one]; rfl
  | succ m ih =>
    have hnext : ∀ k, n / 256 ^ (k + 1) = n / 256 / 256 ^ k := by
      intro k
      rw [pow_succ', Nat.div_div_eq_div_mul]
    have htail : (fun k => UInt8.ofNat (n / 256 ^ k)) ∘ Nat.succ =
        fun k => UInt8.ofNat (n / 256 / 256 ^ k) := funext fun k => congrArg UInt8.ofNat (hnext k)
    rw [List.range_succ_eq_map, List.map_cons, List.map_map, htail, List.map_cons, Nat.ofDigits_cons,
      ih, pow_zero, Nat.div_one, UInt8.toNat_ofNat', pow_succ' 256 m, Nat.mod_mul]

theorem uint64At_append {before after : List UInt8} {n off : Nat} (h : before.length = off) :
    uint64At (before ++ (uint64Bytes n ++ after)) off = n % 2 ^ 64 := by
  have hlen : (uint64Bytes n).length = 8 := by
    rw [uint64Bytes, List.length_map, List.length_range]
  have hpow : 256 ^ 8 = 2 ^ 64 := by norm_num
  rw [uint64At, ← h, List.drop_left, ← hlen, List.take_left, uint64Bytes, ofDigits_uint64Bytes, hpow]

section Lines

variable {r : BoxRecord}

theorem ofBuffer_append {size : Nat} {a : CharArray size} (h : a.Terminated) (bs : List UInt8) :
    CString.ofBuffer (a.bytes ++ bs) = a.text := by
  rw [CharArray.bytes_eq h, CString.terminated, List.append_assoc, List.append_assoc]
  exact CString.ofBuffer_terminated _ _

/-- **A record, as the manager prints it.** -/
theorem lineOf_bytes (h : r.boxName.Terminated) : lineOf r.bytes =
    ⟨r.boxName.text, r.boxSize % 2 ^ 64, r.nPublishers % 2 ^ 64, r.nSubscribers % 2 ^ 64⟩ := by
  have hname := r.boxName.length_bytes
  have hpublisher := r.publisher.length_bytes
  have hlen : ∀ n, (uint64Bytes n).length = 8 := by
    intro n
    rw [uint64Bytes, List.length_map, List.length_range]
  rw [lineOf, BoxRecord.bytes, BoxRecord.bytesBeforeLast]
  congr 1
  · simp only [List.append_assoc]
    exact ofBuffer_append h _
  · simp only [List.append_assoc]
    rw [← List.append_assoc]
    refine uint64At_append ?_
    rw [List.length_append, hname, hpublisher]
  · simp only [List.append_assoc]
    rw [← List.append_assoc, ← List.append_assoc]
    refine uint64At_append ?_
    rw [List.length_append, List.length_append, hname, hpublisher, hlen]
  · simp only [List.append_assoc]
    rw [← List.append_assoc, ← List.append_assoc, ← List.append_assoc]
    refine uint64At_append ?_
    rw [List.length_append, List.length_append, List.length_append, hname, hpublisher, hlen, hlen]

theorem zero_mem_bytes (h : r.boxName.Terminated) : 0 ∈ r.bytes := by
  have hmem := CharArray.terminated_iff.mp h
  simp [BoxRecord.bytes, BoxRecord.bytesBeforeLast, hmem]

end Lines

/-! ### The manager -/

/-- How `main` ends: what it has printed, and what it returns. -/
structure Exit where
  out : List UInt8
  ret : Int
deriving DecidableEq

namespace Manager

/-- `"OK\n"`. -/
def okText : List UInt8 := "OK\n".toUTF8.toList

/-- `"ERROR: %s\n"`. -/
def errorText (message : CString) : List UInt8 :=
  "ERROR: ".toUTF8.toList ++ message.bytes ++ [10]

/-- `"NO BOXES FOUND\n"`. -/
def noBoxesText : List UInt8 := "NO BOXES FOUND\n".toUTF8.toList

/-- The `int` at the start of a reply. -/
def returnCode (boxReply : List UInt8) : Int := Memory.loadInt (fun x => boxReply.getD x 0) 0

/-- `main`, when it has read a `box_reply_t`. -/
def printReply (boxReply : List UInt8) : Outcome Exit :=
  if returnCode boxReply = -1 then
    -- Without a NUL, `fprintf` reads past the end of `error_message`.
    if 0 ∉ boxReply.drop 4 then .fault
    else .ok ⟨errorText (.ofBuffer (boxReply.drop 4)), -1⟩
  else .ok ⟨okText, 0⟩

/-- `main`, when it has the boxes in its array. -/
def printBoxes (qsort : Qsort compareStructs) (boxes : List (List UInt8)) : Outcome Exit :=
  if ∃ box ∈ boxes, 0 ∉ box then .fault
  else
    let boxes := if 1 < boxes.length then qsort.sort boxes else boxes
    .ok ⟨boxes.flatMap fun box => (lineOf box).text, 0⟩

/-- `main`, when it has read the code of a reply. -/
def readReply (boxReply : List UInt8) : List (List UInt8) → Outcome (Option Exit)
  | [] => .ok none
  | chunk :: _ => (printReply (readInto boxReply chunk)).map some

/-- `main`, from the code of the reply on, with what the reads return; `boxReply` and `box` are
its local variables.  When nothing is left to read, it waits. -/
def main (qsort : Qsort compareStructs) (boxReply box : List UInt8) :
    List (List UInt8) → Outcome (Option Exit)
  | [] => .ok none
  | code :: chunks =>
    if code = [4] ∨ code = [6] then readReply boxReply chunks
    else do
      match ← readListing box (code :: chunks) with
      | .listed boxes _ => (printBoxes qsort boxes).map some
      | .noBoxes _ => .ok (some ⟨noBoxesText, -1⟩)
      | .noListing _ => .ok (some ⟨[], -1⟩)
      | .waiting => .ok none

/-! ### Replies -/

section Replies

variable {reply : BoxReply} {boxReply : List UInt8} {n : Nat} {code : UInt8}
  (qsort : Qsort compareStructs) (box : List UInt8)

theorem returnCode_bytes (hlo : -2 ^ 31 ≤ reply.returnCode) (hhi : reply.returnCode < 2 ^ 31) :
    returnCode reply.bytes = reply.returnCode := by
  rw [← Memory.loadInt_storeInt (m := fun _ => 0) (a := 0) hlo hhi]
  refine Memory.loadInt_congr fun x _ hx => ?_
  have hlen : x < (Memory.intBytes reply.returnCode).length := by simpa using hx
  rw [Memory.storeInt, Memory.store_apply_in (Nat.zero_le x) hlen, BoxReply.bytes]
  rw [List.getD_eq_getElem?_getD, List.getElem?_append_left hlen, List.getElem?_eq_getElem hlen]
  rfl

theorem length_bytes (reply : BoxReply) : reply.bytes.length = 4 + messageSize := by
  rw [BoxReply.bytes, List.length_append, Memory.length_intBytes, reply.errorMessage.length_bytes]

/-- **A reply**: the message is printed if the code says so. -/
theorem main_reply (hlen : boxReply.length = 4 + messageSize) (hcode : code = 4 ∨ code = 6)
    (hlo : -2 ^ 31 ≤ reply.returnCode) (hhi : reply.returnCode < 2 ^ 31)
    (hmessage : reply.errorMessage.Terminated) :
    main qsort boxReply box [[code], reply.bytes] = .ok (some
      (if reply.returnCode = -1 then ⟨errorText reply.errorMessage.text, -1⟩ else ⟨okText, 0⟩)) := by
  have hread : readInto boxReply reply.bytes = reply.bytes :=
    readInto_eq ((length_bytes reply).trans hlen.symm)
  have hcode' : [code] = [4] ∨ [code] = [6] :=
    hcode.imp (congrArg fun c => [c]) (congrArg fun c => [c])
  have hdrop : reply.bytes.drop 4 = reply.errorMessage.bytes :=
    List.drop_left' (Memory.length_intBytes _)
  rw [main, if_pos hcode', readReply, hread, printReply, returnCode_bytes hlo hhi, hdrop]
  split
  · rw [if_neg (not_not.mpr (CharArray.terminated_iff.mp hmessage))]
    rfl
  · rfl

/-- What has been filled holds the same string. -/
theorem of_fillString {size : Nat} {a b : CharArray size} (h : a.fillString = .ok b) :
    b.Terminated ∧ b.text = a.text := by
  by_cases ha : a.Terminated
  · obtain ⟨b', hb', hbytes⟩ := CharArray.fillString_eq ha
    obtain rfl := Outcome.ok.inj (h.symm.trans hb')
    have htext : b.text = a.text := by
      rw [CharArray.text, hbytes]
      exact ofBuffer_padded ha
    refine ⟨?_, htext⟩
    rw [CharArray.Terminated, htext]
    exact ha
  · rw [CharArray.fillString_fault ha] at h
    cases h

/-- What `reply_to_box_creation` and `reply_to_box_removal` send, with a message for `n == 0`. -/
structure Says (reply : BoxReply) (n : Nat) (message : CString) : Prop where
  terminated : reply.errorMessage.Terminated
  failed : n = 0 → reply.returnCode = -1 ∧ reply.errorMessage.text = message
  succeeded : n ≠ 0 → reply.returnCode = 0

theorem says_creation {u : BoxReply} (h : u.replyToBoxCreation n = .ok reply) :
    Says reply n couldntCreateBox := by
  rw [BoxReply.replyToBoxCreation] at h
  split at h
  case isTrue hn =>
    obtain ⟨filled, -, h⟩ := Outcome.bind_eq_ok.mp h
    obtain ⟨copied, hcopy, h⟩ := Outcome.bind_eq_ok.mp h
    obtain ⟨reply₁, hreply₁, h⟩ := Outcome.bind_eq_ok.mp h
    obtain rfl := Outcome.ok.inj hreply₁
    obtain ⟨message, hfill, h⟩ := Outcome.bind_eq_ok.mp h
    obtain rfl := Outcome.ok.inj h
    obtain ⟨hterminated, htext⟩ := of_fillString hfill
    exact ⟨hterminated, fun _ => ⟨rfl, htext.trans (CharArray.text_strcpy hcopy)⟩,
      fun hne => absurd hn hne⟩
  case isFalse hn =>
    obtain ⟨reply₁, hreply₁, h⟩ := Outcome.bind_eq_ok.mp h
    obtain rfl := Outcome.ok.inj hreply₁
    obtain ⟨message, hfill, h⟩ := Outcome.bind_eq_ok.mp h
    obtain rfl := Outcome.ok.inj h
    exact ⟨(of_fillString hfill).1, fun h0 => absurd h0 hn, fun _ => rfl⟩

theorem says_removal {u : BoxReply} (h : u.replyToBoxRemoval n = .ok reply) :
    Says reply n couldntRemoveBox := by
  rw [BoxReply.replyToBoxRemoval] at h
  obtain ⟨filled, hfill, h⟩ := Outcome.bind_eq_ok.mp h
  split at h
  case isTrue hn =>
    obtain ⟨copied, hcopy, h⟩ := Outcome.bind_eq_ok.mp h
    obtain rfl := Outcome.ok.inj h
    have htext := CharArray.text_strcpy hcopy
    refine ⟨?_, fun _ => ⟨rfl, htext⟩, fun hne => absurd hn hne⟩
    rw [CharArray.Terminated, htext]
    exact (CharArray.of_strcpy hcopy).1
  case isFalse hn =>
    obtain rfl := Outcome.ok.inj h
    exact ⟨(of_fillString hfill).1, fun h0 => absurd h0 hn, fun _ => rfl⟩

/-- What the manager then prints. -/
theorem Says.main_eq {message : CString} (h : Says reply n message)
    (hlen : boxReply.length = 4 + messageSize) (hcode : code = 4 ∨ code = 6) :
    main qsort boxReply box [[code], reply.bytes] =
      .ok (some (if n = 0 then ⟨errorText message, -1⟩ else ⟨okText, 0⟩)) := by
  by_cases hn : n = 0
  · obtain ⟨hret, htext⟩ := h.failed hn
    rw [main_reply qsort box hlen hcode (by omega) (by omega) h.terminated, if_pos hret, if_pos hn,
      htext]
  · have hret := h.succeeded hn
    rw [main_reply qsort box hlen hcode (by omega) (by omega) h.terminated, if_neg (by omega),
      if_neg hn]

end Replies

/-! ### Listings -/

section Listings

variable {boxes : List (List UInt8)}

/-- With different names, there is one order. -/
theorem printBoxes_eq (qsort : Qsort compareStructs) (hnul : ∀ box ∈ boxes, 0 ∈ box)
    (hnames : (boxes.map CString.ofBuffer).Nodup) :
    ∃ sorted : List (List UInt8), sorted.Perm boxes ∧
      sorted.Pairwise (fun a b => (CString.ofBuffer a).key < (CString.ofBuffer b).key) ∧
      printBoxes qsort boxes = .ok ⟨sorted.flatMap fun box => (lineOf box).text, 0⟩ := by
  have hno : ¬ ∃ box ∈ boxes, 0 ∉ box := by
    rintro ⟨box, hbox, h⟩
    exact h (hnul box hbox)
  rw [printBoxes, if_neg hno]
  by_cases hlen : 1 < boxes.length
  · rw [if_pos hlen]
    refine ⟨qsort.sort boxes, qsort.perm boxes, ?_, rfl⟩
    have hne : (qsort.sort boxes).Pairwise fun a b => CString.ofBuffer a ≠ CString.ofBuffer b := by
      rw [← List.pairwise_map]
      exact ((qsort.perm boxes).map CString.ofBuffer).nodup_iff.mpr hnames
    refine ((qsort.ordered boxes).and hne).imp fun h => ?_
    obtain ⟨hle, hne⟩ := h
    exact lt_of_le_of_ne (CString.strcmp_le.mp hle) fun h => hne (CString.key_injective h)
  · rw [if_neg hlen]
    refine ⟨boxes, List.Perm.refl boxes, ?_, rfl⟩
    match boxes, hlen with
    | [], _ => exact .nil
    | [_], _ => exact List.pairwise_singleton _ _
    | _ :: _ :: boxes, hlen => exact absurd (by simp) hlen

end Listings

end Manager

/-- The mark does not show. -/
theorem RecordTable.boxes_setLast (t : RecordTable) (v : UInt8) (i : Nat) :
    ∃ last, (t.setLast v).boxes i = { t.boxes i with last := last } := by
  by_cases hi : i = t.nBoxes - 1
  · subst hi
    exact ⟨v, Function.update_self _ _ _⟩
  · exact ⟨(t.boxes i).last, Function.update_of_ne hi _ _⟩

/-- What a manager is to print of box `i`. -/
def RecordTable.line (t : RecordTable) (i : Nat) : BoxLine :=
  ⟨(t.boxes i).boxName.text, (t.boxes i).boxSize % 2 ^ 64, (t.boxes i).nPublishers % 2 ^ 64,
    (t.boxes i).nSubscribers % 2 ^ 64⟩

/-- The names are strings, not empty, and different, and there is no mark that would end a
listing too early. -/
structure RecordTable.Listable (t : RecordTable) : Prop where
  named : ∀ i < t.nBoxes, (t.boxes i).boxName.Terminated ∧ 0 < (t.boxes i).boxName.text.strlen
  distinct : t.toTable.Distinct
  last : ∀ i < t.nBoxes, (t.boxes i).last = 0

namespace Manager

section Listings

variable {t t' : RecordTable} {replyBox : BoxRecord} {writes chunks : List (List UInt8)}
  (qsort : Qsort compareStructs) (boxReply : List UInt8) (box : CharArray sizeofBox)

theorem lineOf_sent {i : Nat} (hname : (t.boxes i).boxName.Terminated) :
    lineOf ((t.setLast 1).boxes i).bytes = t.line i := by
  obtain ⟨last, hlast⟩ := t.boxes_setLast 1 i
  rw [hlast]
  exact lineOf_bytes (r := { t.boxes i with last := last }) hname

/-- The lines of the records that are sent. -/
theorem map_lineOf_sent (ht : t.Listable) :
    (t.sent.map BoxRecord.bytes).map lineOf = (List.range t.nBoxes).map t.line := by
  rw [RecordTable.sent, List.map_map, List.map_map]
  exact List.map_congr_left fun i hi => lineOf_sent (ht.named i (List.mem_range.mp hi)).1

theorem not_nameless (ht : t.Listable) (hpos : 0 < t.nBoxes) : ¬ t.Nameless := by
  rintro ⟨-, hfirst⟩
  have hlen := (ht.named 0 hpos).2
  have hbytes := (t.boxes 0).boxName.length_bytes
  rw [CharArray.text] at hlen
  cases heq : (t.boxes 0).boxName.bytes with
  | nil =>
    rw [heq] at hbytes
    cases hbytes
  | cons b bs =>
    rw [heq] at hfirst hlen
    obtain rfl : b = 0 := hfirst
    exact absurd hlen (lt_irrefl 0)

/-- **A listing**, each of whose reads has returned a whole record. -/
theorem main_listing (ht : t.Listable) (hsent : t.replyToListBoxes replyBox = .ok (writes, t'))
    (hsplit : Splits chunks writes.flatten)
    (hwhole : ∀ chunk ∈ chunks.tail, chunk.length = sizeofBox) :
    t.nBoxes = 0 ∧ main qsort boxReply box.bytes chunks = .ok (some ⟨noBoxesText, -1⟩) ∨
      0 < t.nBoxes ∧ ∃ lines : List BoxLine, lines.Perm ((List.range t.nBoxes).map t.line) ∧
        lines.Pairwise (fun l l' => l.boxName.key < l'.boxName.key) ∧
        main qsort boxReply box.bytes chunks = .ok (some ⟨lines.flatMap BoxLine.text, 0⟩) := by
  have hcode : ¬ ([8] = [(4 : UInt8)] ∨ [8] = [(6 : UInt8)]) := by decide
  rcases replyToListBoxes_spec hsent with ⟨hn, r, rfl, hr⟩ | ⟨hpos, hmax, rfl⟩
  · obtain ⟨reads, rfl, hflat⟩ := @Splits.eq_cons chunks [r] hsplit
    obtain rfl : reads = [r].map BoxRecord.bytes := eq_of_whole hwhole hflat
    refine Or.inl ⟨hn, ?_⟩
    rw [main, if_neg hcode, List.map_singleton, readListing_noBox hr]
    rfl
  · obtain ⟨reads, rfl, hflat⟩ := hsplit.eq_cons
    obtain rfl : reads = t.sent.map BoxRecord.bytes := eq_of_whole hwhole hflat
    have hlast : ∀ i, i + 1 < t.nBoxes → (t.boxes i).last = 0 :=
      fun i hi => ht.last i (Nat.lt_of_succ_lt hi)
    obtain ⟨r, rs, hrs⟩ : ∃ r rs, t.sent = r :: rs := by
      refine List.exists_cons_of_length_pos ?_
      rwa [RecordTable.sent, List.length_map, List.length_range]
    have hroom : (r :: rs).length ≤ maxBoxes := by
      rwa [← hrs, RecordTable.sent, List.length_map, List.length_range]
    have hread : readListing box.bytes ([8] :: t.sent.map BoxRecord.bytes) =
        .ok (.listed (t.sent.map BoxRecord.bytes) []) := by
      have hended := ended_sent hpos hlast
      rw [hrs] at hended ⊢
      exact readListing_whole ((noBox_head hlast hrs).not.mpr (not_nameless ht hpos)) hended hroom
    have hlines := map_lineOf_sent ht
    have hmem : ∀ bs ∈ t.sent.map BoxRecord.bytes, 0 ∈ bs := by
      intro bs hbs
      obtain ⟨r, hr, rfl⟩ := List.mem_map.mp hbs
      obtain ⟨i, hi, rfl⟩ := List.mem_map.mp hr
      obtain ⟨last, hlast⟩ := t.boxes_setLast 1 i
      rw [hlast]
      exact zero_mem_bytes (r := { t.boxes i with last := last })
        (ht.named i (List.mem_range.mp hi)).1
    have hnames : ((t.sent.map BoxRecord.bytes).map CString.ofBuffer).Nodup := by
      have heq : (t.sent.map BoxRecord.bytes).map CString.ofBuffer =
          (List.range t.nBoxes).map t.toTable.name := by
        have hmap := congrArg (List.map BoxLine.boxName) hlines
        rw [List.map_map, List.map_map (l := List.range _)] at hmap
        exact hmap
      rw [heq]
      refine List.Nodup.map_on (fun i hi j hj h => ?_) List.nodup_range
      exact ht.distinct i (List.mem_range.mp hi) j (List.mem_range.mp hj) h
    obtain ⟨sorted, hperm, hordered, hprint⟩ := printBoxes_eq qsort hmem hnames
    refine Or.inr ⟨hpos, sorted.map lineOf, ?_, List.pairwise_map.mpr hordered, ?_⟩
    · rw [← hlines]
      exact hperm.map lineOf
    · rw [main, if_neg hcode, hread, List.flatMap_map]
      show (printBoxes qsort (t.sent.map BoxRecord.bytes)).map some = _
      rw [hprint]
      rfl

end Listings

end Manager

end Mbroker
