/-
How the manager reads a listing.

A record is longer than what a pipe passes on as a whole, so a `read` of `sizeof(box_t)`
bytes may return fewer.  The manager does not look at how many it got: whatever they are, it
takes its variable `box` for the next record, with the old bytes behind the new ones.

* `Splits` — the ways in which the bytes on the pipe are divided between the reads;
* `readRecords_whole` — reads of whole records are those of `readBoxes`;
* `of_readRecords` — every record in the manager's array takes a read;
* `leads_sent` — what is written, as the program of `list_boxes` sends it;
* **`listed_iff_whole`** — the listing arrives exactly when every read returns a whole record;
* `not_listed_shortRead` — a first read that returns a single byte.
-/
import Mbroker.BoxRecords
import Mbroker.Listings

namespace Mbroker

open Tfs

/-- The stream that is written, divided between reads: the first asks for a `uint8_t` and the
others ask for a `box_t`, and a read returns at least a byte and at most what it asks for. -/
structure Splits (chunks : List (List UInt8)) (stream : List UInt8) : Prop where
  flatten_eq : chunks.flatten = stream
  code : ∃ code, chunks.head? = some [code]
  nonempty : ∀ chunk ∈ chunks.tail, chunk ≠ []
  length_le : ∀ chunk ∈ chunks.tail, chunk.length ≤ sizeofBox

/-- How the manager ends, with what it has not read: the boxes it has in its array, or that it
has been told of none; or it is not a listing that it got, or it still waits for a read. -/
inductive Listing where
  | listed (boxes : List (List UInt8)) (unread : List UInt8)
  | noBoxes (unread : List UInt8)
  | noListing (unread : List UInt8)
  | waiting
deriving DecidableEq

/-- `box.last`. -/
def lastOf (box : List UInt8) : UInt8 := box.getD (sizeofBox - 1) 0

/-- `while (box.last != 1)`: the broker does not close the pipe, so that a read for which
nothing is left waits. -/
def readRecords (box : List UInt8) (boxes : List (List UInt8)) :
    List (List UInt8) → Outcome Listing
  | [] => if lastOf box = 1 then .ok (.listed boxes []) else .ok .waiting
  | chunk :: chunks =>
    if lastOf box = 1 then .ok (.listed boxes (chunk :: chunks).flatten)
    else
      let box := readInto box chunk
      if maxBoxes ≤ boxes.length then .fault else readRecords box (boxes ++ [box]) chunks

/-- The first record, and the loop if it is that of a box. -/
def readFirst (box : List UInt8) : List (List UInt8) → Outcome Listing
  | [] => .ok .waiting
  | chunk :: chunks =>
    let box := readInto box chunk
    if lastOf box = 1 ∧ box.getD 0 0 = 0 then .ok (.noBoxes chunks.flatten)
    else readRecords box [box] chunks

/-- `main`, from the code of the reply on; `box` is its local variable. -/
def readListing (box : List UInt8) : List (List UInt8) → Outcome Listing
  | [] => .ok .waiting
  | code :: chunks =>
    if code = [8] then readFirst box chunks else .ok (.noListing chunks.flatten)

/-- What the manager is to end with, when the broker has sent `records`. -/
def RecordTable.listing (t : RecordTable) (records : List (List UInt8)) : Listing :=
  if t.nBoxes = 0 then .noBoxes [] else .listed records []

/-- The only box has the empty name, for which `create_box` makes no box. -/
def RecordTable.Nameless (t : RecordTable) : Prop :=
  t.nBoxes = 1 ∧ (t.boxes 0).boxName.bytes.getD 0 0 = 0

/-! ### Blocks of one size -/

section Blocks

variable {α : Type} {n : Nat} {xs ys : List (List α)}

theorem length_flatten_of_forall (h : ∀ x ∈ xs, x.length = n) :
    xs.flatten.length = xs.length * n := by
  rw [List.length_flatten, List.map_congr_left h, List.map_const', List.sum_replicate_nat]

/-- Blocks of one size are told apart by what they come to. -/
theorem eq_of_flatten_eq (hn : 0 < n) (hx : ∀ x ∈ xs, x.length = n) (hy : ∀ y ∈ ys, y.length = n)
    (h : xs.flatten = ys.flatten) : xs = ys := by
  have hlen : xs.length = ys.length := by
    have hmul := congrArg List.length h
    rw [length_flatten_of_forall hx, length_flatten_of_forall hy] at hmul
    exact Nat.eq_of_mul_eq_mul_right hn hmul
  refine List.eq_iff_flatten_eq.mpr ⟨h, ?_⟩
  rw [List.map_congr_left hx, List.map_congr_left hy, List.map_const', List.map_const', hlen]

theorem length_flatten_le (h : ∀ x ∈ xs, x.length ≤ n) : xs.flatten.length ≤ xs.length * n := by
  induction xs with
  | nil => exact Nat.zero_le _
  | cons x xs ih =>
    have hx := h x List.mem_cons_self
    have hxs := ih fun y hmem => h y (List.mem_cons_of_mem _ hmem)
    rw [List.flatten_cons, List.length_append, List.length_cons, Nat.succ_mul]
    omega

/-- Blocks that come to as much as they can are all full. -/
theorem length_eq_of_flatten (h : ∀ x ∈ xs, x.length ≤ n)
    (hall : xs.flatten.length = xs.length * n) : ∀ x ∈ xs, x.length = n := by
  induction xs with
  | nil => exact fun x hmem => absurd hmem List.not_mem_nil
  | cons x xs ih =>
    have hx := h x List.mem_cons_self
    have htail : ∀ y ∈ xs, y.length ≤ n := fun y hmem => h y (List.mem_cons_of_mem _ hmem)
    have hxs := length_flatten_le htail
    rw [List.flatten_cons, List.length_append, List.length_cons, Nat.succ_mul] at hall
    intro y hmem
    rcases List.mem_cons.mp hmem with rfl | hmem
    · omega
    · exact ih htail (by omega) y hmem

theorem flatten_eq_nil (h : ∀ x ∈ xs, x ≠ []) (hnil : xs.flatten = []) : xs = [] := by
  cases xs with
  | nil => rfl
  | cons x xs => exact absurd (List.append_eq_nil_iff.mp hnil).1 (h x List.mem_cons_self)

end Blocks

/-! ### The manager's loop -/

section Manager

variable {box : List UInt8} {boxes out chunks : List (List UInt8)} {unread : List UInt8}

theorem readRecords_ended (h : lastOf box = 1) :
    readRecords box boxes chunks = .ok (.listed boxes chunks.flatten) := by
  cases chunks with
  | nil => rw [readRecords, if_pos h, List.flatten_nil]
  | cons chunk chunks => rw [readRecords, if_pos h]

theorem lastOf_bytes (r : BoxRecord) : lastOf r.bytes = r.last := r.last_bytes

theorem last_toBox (r : BoxRecord) : r.toBox.last = 1 ↔ r.last = 1 := UInt8.toNat_inj (b := 1)

/-- Reads that return whole records are the reads of a manager of records. -/
theorem readRecords_whole {r : BoxRecord} {rs : List BoxRecord}
    (h : readBoxes ((r :: rs).map BoxRecord.toBox) = some ((r :: rs).map BoxRecord.toBox, []))
    (hroom : boxes.length + rs.length ≤ maxBoxes) :
    readRecords r.bytes boxes (rs.map BoxRecord.bytes) =
      .ok (.listed (boxes ++ rs.map BoxRecord.bytes) []) := by
  induction rs generalizing r boxes with
  | nil =>
    have hone : r.toBox.last = 1 := by
      by_contra hne
      rw [List.map_cons, readBoxes, if_neg hne] at h
      cases h
    rw [List.map_nil, readRecords_ended ((lastOf_bytes r).trans ((last_toBox r).mp hone)),
      List.append_nil]
    rfl
  | cons r' rs ih =>
    rw [List.map_cons, readBoxes] at h
    split at h
    · cases h
    case isFalse hne =>
      obtain ⟨⟨got, left⟩, hrest, heq⟩ := Option.map_eq_some_iff.mp h
      obtain ⟨hgot, rfl⟩ := Prod.mk.inj heq
      obtain rfl := (List.cons.inj hgot).2
      rw [List.length_cons] at hroom
      have hread : readInto r.bytes r'.bytes = r'.bytes :=
        readInto_eq (r'.length_bytes.trans r.length_bytes.symm)
      have hroom' : (boxes ++ [r'.bytes]).length + rs.length ≤ maxBoxes := by
        rw [List.length_append, List.length_singleton]
        omega
      rw [List.map_cons, readRecords, if_neg (by rwa [lastOf_bytes, ← last_toBox]), hread,
        if_neg (by omega), ih hrest hroom', List.append_assoc]
      rfl

/-- **Every record in the array but the first takes a read.** -/
theorem of_readRecords (h : readRecords box boxes chunks = .ok (.listed out unread)) :
    ∃ used left, chunks = used ++ left ∧ out.length = boxes.length + used.length ∧
      unread = left.flatten := by
  induction chunks generalizing box boxes with
  | nil =>
    rw [readRecords] at h
    split at h
    · obtain ⟨rfl, rfl⟩ := Listing.listed.inj (Outcome.ok.inj h)
      exact ⟨[], [], rfl, rfl, rfl⟩
    · cases h
  | cons chunk chunks ih =>
    rw [readRecords] at h
    split at h
    · obtain ⟨rfl, rfl⟩ := Listing.listed.inj (Outcome.ok.inj h)
      exact ⟨[], chunk :: chunks, rfl, rfl, rfl⟩
    · dsimp only at h
      split at h
      · cases h
      · obtain ⟨used, left, rfl, hlen, hunread⟩ := ih h
        refine ⟨chunk :: used, left, rfl, ?_, hunread⟩
        simp only [hlen, List.length_append, List.length_cons, List.length_nil]
        omega

theorem readRecords_ne_noBoxes : readRecords box boxes chunks ≠ .ok (.noBoxes unread) := by
  induction chunks generalizing box boxes with
  | nil =>
    rw [readRecords]
    split <;> exact fun h => by cases h
  | cons chunk chunks ih =>
    rw [readRecords]
    split
    · exact fun h => by cases h
    · dsimp only
      split
      · exact fun h => by cases h
      · exact ih

end Manager

/-! ### What the broker sends -/

section Sent

variable {t t' : RecordTable} {replyBox : BoxRecord} {writes : List (List UInt8)}

/-- The records that are sent when there are boxes. -/
def RecordTable.sent (t : RecordTable) : List BoxRecord :=
  (List.range t.nBoxes).map (t.setLast 1).boxes

/-- A record that stands for no box. -/
def BoxRecord.NoBox (r : BoxRecord) : Prop := r.last = 1 ∧ r.boxName.bytes.getD 0 0 = 0

theorem replyToListBoxes_spec (h : t.replyToListBoxes replyBox = .ok (writes, t')) :
    (t.nBoxes = 0 ∧ ∃ r : BoxRecord, writes = [[8], r.bytes] ∧ r.NoBox) ∨
      0 < t.nBoxes ∧ t.nBoxes ≤ maxBoxes ∧ writes = [8] :: t.sent.map BoxRecord.bytes := by
  rw [RecordTable.replyToListBoxes] at h
  split at h
  case isTrue hn =>
    obtain ⟨publisher, -, h⟩ := Outcome.bind_eq_ok.mp h
    obtain ⟨boxName, hname, h⟩ := Outcome.bind_eq_ok.mp h
    obtain ⟨rfl, -⟩ := Prod.mk.inj (Outcome.ok.inj h)
    refine Or.inl ⟨hn, _, rfl, rfl, ?_⟩
    show boxName.bytes.getD 0 0 = 0
    rw [(CharArray.of_strcpy hname).2]
    rfl
  case isFalse hn =>
    split at h
    · cases h
    case isFalse hmax =>
      obtain ⟨rfl, -⟩ := Prod.mk.inj (Outcome.ok.inj h)
      refine Or.inr ⟨Nat.pos_of_ne_zero hn, Nat.le_of_not_lt hmax, ?_⟩
      rw [RecordTable.sent, List.map_map]
      rfl

theorem boxes_setLast_ne {i : Nat} {v : UInt8} (h : i + 1 < t.nBoxes) :
    (t.setLast v).boxes i = t.boxes i :=
  Function.update_of_ne (by omega) _ _

theorem last_setLast {v : UInt8} : ((t.setLast v).boxes (t.nBoxes - 1)).last = v := by
  rw [RecordTable.setLast, RecordTable.modify]
  dsimp only
  rw [Function.update_self]

theorem ended_sent (hpos : 0 < t.nBoxes) (hlast : ∀ i, i + 1 < t.nBoxes → (t.boxes i).last = 0) :
    Ended (t.sent.map BoxRecord.toBox) := by
  obtain ⟨n, hn⟩ : ∃ n, t.nBoxes = n + 1 := ⟨t.nBoxes - 1, by omega⟩
  refine ⟨((List.range n).map (t.setLast 1).boxes).map BoxRecord.toBox,
    ((t.setLast 1).boxes n).toBox, ?_, ?_, ?_⟩
  · rw [RecordTable.sent, hn, List.range_succ, List.map_append, List.map_append]
    rfl
  · intro box hbox
    obtain ⟨r, hr, rfl⟩ := List.mem_map.mp hbox
    obtain ⟨i, hi, rfl⟩ := List.mem_map.mp hr
    have hlt : i + 1 < t.nBoxes := by
      have := List.mem_range.mp hi
      omega
    rw [ne_eq, last_toBox, boxes_setLast_ne hlt, hlast i hlt]
    exact by decide
  · have hone : ((t.setLast 1).boxes (t.nBoxes - 1)).last = 1 := last_setLast
    rwa [hn, Nat.add_sub_cancel, ← last_toBox] at hone

/-- The first of them stands for no box exactly when the table is nameless. -/
theorem noBox_head {r : BoxRecord} {rs : List BoxRecord}
    (hlast : ∀ i, i + 1 < t.nBoxes → (t.boxes i).last = 0) (h : t.sent = r :: rs) :
    r.NoBox ↔ t.Nameless := by
  have hlen : t.nBoxes = rs.length + 1 := by
    have := congrArg List.length h
    rwa [RecordTable.sent, List.length_map, List.length_range] at this
  obtain rfl : (t.setLast 1).boxes 0 = r := by
    rw [RecordTable.sent, hlen, List.range_succ_eq_map, List.map_cons] at h
    exact (List.cons.inj h).1
  rw [BoxRecord.NoBox, RecordTable.Nameless]
  by_cases hone : t.nBoxes = 1
  · have hself : ((t.setLast 1).boxes 0).last = 1 := by
      have hset := last_setLast (t := t) (v := 1)
      rwa [hone] at hset
    have hname : ((t.setLast 1).boxes 0).boxName = (t.boxes 0).boxName := by
      rw [RecordTable.setLast, RecordTable.modify, hone]
      dsimp only
      rw [Function.update_self]
    rw [hname]
    exact and_congr (iff_of_true hself hone) Iff.rfl
  · have hlt : 0 + 1 < t.nBoxes := by omega
    rw [boxes_setLast_ne hlt, hlast 0 hlt]
    exact iff_of_false (fun h => absurd h.1 (by decide)) fun h => hone h.1

end Sent

/-! ### The listing as a program -/

section Alone

open ListingState

variable {b b' : Broker} {f : ListFrame} {sent : List Box} {a : Answer}

/-- A listing goes on; what it writes is written. -/
def listingTurn : ListingTurn Unit := .listing () { ret := 1 }

/-- A listing with no other beside it, and what it has sent. -/
def onlyListing (b : Broker) (f : ListFrame) (sent : List Box) : ListingState Unit :=
  ⟨b, fun _ => f, fun _ => sent⟩

theorem step_onlyListing (call : Call) (hcall : f.call = some call)
    (hperform : perform call { ret := 1 } b = .ok (a, b'))
    (hplace : (f.resume a).place ≠ .exit) :
    step listingTurn (onlyListing b f sent) =
      .ok ((), onlyListing b' (f.resume a) (sent ++ call.record.toList)) := by
  have hupdate : ∀ {γ : Type} (g : Unit → γ) (v : γ), Function.update g () v = fun _ => v := by
    intro γ g v
    funext k
    exact Function.update_self () v g
  rw [listingTurn, step, onlyListing]
  dsimp only
  rw [hcall]
  dsimp only
  rw [hperform, Outcome.ok_bind]
  dsimp only
  rw [if_neg hplace, hupdate, hupdate]
  rfl

/-- From one state to another, in some number of turns. -/
def Leads (s s' : ListingState Unit) : Prop :=
  ∃ n rs, Outcome.runList step (List.replicate n listingTurn) s = .ok (rs, s')

theorem Leads.refl (s : ListingState Unit) : Leads s s := ⟨0, [], rfl⟩

theorem Leads.head {s s₁ s' : ListingState Unit} (hstep : step listingTurn s = .ok ((), s₁))
    (h : Leads s₁ s') : Leads s s' := by
  obtain ⟨n, rs, hrun⟩ := h
  exact ⟨n + 1, () :: rs, Outcome.runList_cons_eq_ok.mpr ⟨(), s₁, rs, hstep, hrun, rfl⟩⟩

theorem Leads.trans {s s₁ s' : ListingState Unit} (h : Leads s s₁) (h' : Leads s₁ s') :
    Leads s s' := by
  obtain ⟨n, rs, hrun⟩ := h
  obtain ⟨n', rs', hrun'⟩ := h'
  refine ⟨n + n', rs ++ rs', ?_⟩
  rw [List.replicate_add]
  exact Outcome.runList_append_eq_ok.mpr ⟨rs, s₁, rs', hrun, hrun', rfl⟩

/-- The loop, by induction on the number of records that are left. -/
theorem leads_loop {d : Nat} (hplace : f.place = .test) (hd : f.i + d = b.table.nBoxes)
    (hmax : b.table.nBoxes ≤ maxBoxes) : ∃ f', f'.place = .clearLast ∧
      Leads (onlyListing b f sent)
        (onlyListing b f' (sent ++ (List.range' f.i d).map b.table.boxes)) := by
  induction d generalizing f sent with
  | zero =>
    have hend : ¬ (f.i : Int) < b.table.nBoxes := by omega
    have hresume : f.resume { ret := b.table.nBoxes } = { f with place := .clearLast } := by
      rw [ListFrame.resume, hplace]
      exact if_neg hend
    refine ⟨{ f with place := .clearLast }, rfl, .head (step_onlyListing .nBoxes ?_ rfl ?_) ?_⟩
    · rw [ListFrame.call, hplace]
    · rw [hresume]
      exact fun h => by cases h
    · rw [hresume]
      exact .refl _
  | succ d ih =>
    have hlt : (f.i : Int) < b.table.nBoxes := by omega
    have htest : f.resume { ret := b.table.nBoxes } = { f with place := .copyBox } := by
      rw [ListFrame.resume, hplace]
      exact if_pos hlt
    have hcopy : perform (.copyBox f.i) { ret := 1 } b = .ok ({ box := b.table.boxes f.i }, b) := by
      rw [perform, atBox, if_neg (by omega), Int.toNat_natCast]
    obtain ⟨f', hf', hleads⟩ := @ih
      { f with place := .test, i := f.i + 1, replyBox := b.table.boxes f.i }
      (sent ++ [b.table.boxes f.i]) rfl (by rw [← hd]; exact Nat.add_right_comm _ _ _)
    refine ⟨f', hf', .head (step_onlyListing .nBoxes ?_ rfl ?_) ?_⟩
    · rw [ListFrame.call, hplace]
    · rw [htest]
      exact fun h => by cases h
    · rw [htest]
      refine .head (step_onlyListing _ rfl hcopy fun h => by cases h)
        (.head (step_onlyListing _ rfl rfl ?_) ?_)
      · exact fun h => by cases h
      · rw [List.range'_succ, List.map_cons, List.append_cons]
        simp only [Call.record, Option.toList_none, List.append_nil]
        exact hleads

variable {t : RecordTable} {fs : TfsState} {env : Answer}

theorem setLast_toTable (v : UInt8) : (t.setLast v).toTable =
    t.toTable.modify (t.nBoxes - 1) fun box => { box with last := v.toNat } :=
  RecordTable.modify_toTable rfl

theorem perform_markLast (hpos : 0 < t.nBoxes) (hmax : t.nBoxes ≤ maxBoxes) :
    perform .markLast env ⟨fs, t.toTable⟩ = .ok ({}, ⟨fs, (t.setLast 1).toTable⟩) := by
  have hindex : (t.nBoxes : Int) - 1 = (t.nBoxes - 1 : Nat) := by omega
  rw [perform, RecordTable.nBoxes_toTable, hindex, atBox_of_mem (by omega), setLast_toTable]
  rfl

theorem perform_clearLast (hpos : 0 < t.nBoxes) (hmax : t.nBoxes ≤ maxBoxes) :
    perform .clearLast env ⟨fs, t.toTable⟩ = .ok ({}, ⟨fs, (t.setLast 0).toTable⟩) := by
  have hindex : (t.nBoxes : Int) - 1 = (t.nBoxes - 1 : Nat) := by omega
  rw [perform, RecordTable.nBoxes_toTable, hindex, atBox_of_mem (by omega), setLast_toTable]
  rfl

/-- **A listing on its own**: its program sends the boxes of the records that
`reply_to_list_boxes` writes, and leaves the boxes of the table that this leaves. -/
theorem leads_sent {pipes : Unit → CString} {locals : Unit → Box} (hpos : 0 < t.nBoxes)
    (hmax : t.nBoxes ≤ maxBoxes) : ∃ f,
      Leads (start ⟨fs, t.toTable⟩ pipes locals)
        (onlyListing ⟨fs, ((t.setLast 1).setLast 0).toTable⟩ f (t.sent.map BoxRecord.toBox)) ∧
      f.place = .dequeue := by
  have hne : ¬ ((t.nBoxes : Int) = 0) := by omega
  obtain ⟨f, hf, hloop⟩ := @leads_loop ⟨fs, (t.setLast 1).toTable⟩
    ⟨.test, pipes (), 1, 0, locals ()⟩ [] t.nBoxes rfl (Nat.zero_add _) hmax
  have hsent : [] ++ (List.range' 0 t.nBoxes).map (t.setLast 1).toTable.boxes =
      t.sent.map BoxRecord.toBox := by
    rw [List.nil_append, ← List.range_eq_range', RecordTable.sent, List.map_map]
    rfl
  rw [hsent] at hloop
  have hboxes : ListFrame.resume ⟨.nBoxes, pipes (), 1, 0, locals ()⟩ { ret := t.nBoxes } =
      ⟨.markLast, pipes (), 1, 0, locals ()⟩ := if_neg hne
  have hplaced : (f.resume {}).place = .dequeue := by rw [ListFrame.resume, hf]
  refine ⟨f.resume {}, ?_, hplaced⟩
  show Leads (onlyListing ⟨fs, t.toTable⟩ ⟨.openPipe, pipes (), 0, 0, locals ()⟩ []) _
  refine .head (step_onlyListing (.openPipe (pipes ()) 'w') rfl rfl fun h => by cases h) ?_
  refine .head (step_onlyListing (.write 1 (.code 8)) rfl rfl fun h => by cases h) ?_
  show Leads (onlyListing ⟨fs, t.toTable⟩ ⟨.nBoxes, pipes (), 1, 0, locals ()⟩ []) _
  refine .head (step_onlyListing .nBoxes rfl rfl ?_) ?_
  · rw [RecordTable.nBoxes_toTable, hboxes]
    exact fun h => by cases h
  rw [RecordTable.nBoxes_toTable, hboxes]
  refine .head (step_onlyListing .markLast rfl (perform_markLast hpos hmax) fun h => by cases h) ?_
  refine hloop.trans (.head (step_onlyListing .clearLast ?_ (perform_clearLast hpos hmax) ?_) ?_)
  · rw [ListFrame.call, hf]
  · rw [hplaced]
    exact fun h => by cases h
  · rw [show Call.record .clearLast = none from rfl, Option.toList_none, List.append_nil]
    exact .refl _

end Alone

/-! ### From the broker to the manager -/

section Reads

variable {box : List UInt8} {chunks out : List (List UInt8)} {rs : List BoxRecord} {r : BoxRecord}

theorem Splits.eq_cons (h : Splits chunks ([8] :: rs.map BoxRecord.bytes).flatten) :
    ∃ reads, chunks = [8] :: reads ∧ reads.flatten = (rs.map BoxRecord.bytes).flatten := by
  obtain ⟨code, hcode⟩ := h.code
  cases chunks with
  | nil => cases hcode
  | cons chunk reads =>
    obtain rfl := Option.some.inj hcode
    obtain ⟨rfl, hreads⟩ := List.cons.inj h.flatten_eq
    exact ⟨reads, rfl, hreads⟩

/-- As many reads as records are reads of whole records. -/
theorem whole_of_length (hle : ∀ chunk ∈ chunks, chunk.length ≤ sizeofBox)
    (hflat : chunks.flatten = (rs.map BoxRecord.bytes).flatten) (hlen : chunks.length = rs.length) :
    ∀ chunk ∈ chunks, chunk.length = sizeofBox := by
  refine length_eq_of_flatten hle ?_
  have hrecords : ∀ bs ∈ rs.map BoxRecord.bytes, bs.length = sizeofBox := by
    intro bs hbs
    obtain ⟨r, -, rfl⟩ := List.mem_map.mp hbs
    exact r.length_bytes
  rw [hflat, length_flatten_of_forall hrecords, List.length_map, hlen]

theorem eq_of_whole (hwhole : ∀ chunk ∈ chunks, chunk.length = sizeofBox)
    (hflat : chunks.flatten = (rs.map BoxRecord.bytes).flatten) :
    chunks = rs.map BoxRecord.bytes := by
  refine eq_of_flatten_eq (by decide) hwhole (fun bs hbs => ?_) hflat
  obtain ⟨r, -, rfl⟩ := List.mem_map.mp hbs
  exact r.length_bytes

theorem readInto_bytes {box : CharArray sizeofBox} : readInto box.bytes r.bytes = r.bytes :=
  readInto_eq (r.length_bytes.trans box.length_bytes.symm)

theorem first_bytes_eq : lastOf r.bytes = 1 ∧ r.bytes.getD 0 0 = 0 ↔ r.NoBox := by
  rw [lastOf_bytes, r.first_bytes, BoxRecord.NoBox]

theorem readListing_noBox {box : CharArray sizeofBox} (h : r.NoBox) :
    readListing box.bytes ([8] :: r.bytes :: chunks) = .ok (.noBoxes chunks.flatten) := by
  rw [readListing, if_pos rfl, readFirst, readInto_bytes, if_pos (first_bytes_eq.mpr h)]

theorem readListing_whole {box : CharArray sizeofBox} (h : ¬ r.NoBox)
    (hended : Ended ((r :: rs).map BoxRecord.toBox)) (hroom : (r :: rs).length ≤ maxBoxes) :
    readListing box.bytes ([8] :: (r :: rs).map BoxRecord.bytes) =
      .ok (.listed ((r :: rs).map BoxRecord.bytes) []) := by
  have hroom' : [r.bytes].length + rs.length ≤ maxBoxes := by
    rwa [List.length_singleton, Nat.add_comm]
  rw [readListing, if_pos rfl, List.map_cons, readFirst, readInto_bytes,
    if_neg (first_bytes_eq.not.mpr h), readRecords_whole (readBoxes_of_ended hended) hroom']
  rfl

/-- A manager that has read everything has read once for each record. -/
theorem length_of_readListing (hne : ∀ chunk ∈ chunks, chunk ≠ []) {l : Listing}
    (h : readListing box ([8] :: chunks) = .ok l)
    (hl : l = .listed (rs.map BoxRecord.bytes) [] ∨ l = .noBoxes [] ∧ rs.length = 1) :
    chunks.length = rs.length := by
  rw [readListing, if_pos rfl] at h
  cases chunks with
  | nil =>
    obtain rfl := Outcome.ok.inj h
    rcases hl with hl | ⟨hl, -⟩ <;> cases hl
  | cons chunk chunks =>
    have hchunks : ∀ c ∈ chunks, c ≠ [] := fun c hc => hne c (List.mem_cons_of_mem _ hc)
    rw [readFirst] at h
    split at h
    · obtain rfl := Outcome.ok.inj h
      rcases hl with hl | ⟨hl, hone⟩
      · cases hl
      · rw [flatten_eq_nil hchunks (Listing.noBoxes.inj hl), hone]
        rfl
    · rcases hl with rfl | ⟨rfl, -⟩
      · obtain ⟨used, left, rfl, hlen, hleft⟩ := of_readRecords h
        have hnil : left = [] :=
          flatten_eq_nil (fun c hc => hchunks c (List.mem_append_right _ hc)) hleft.symm
        rw [List.length_map, List.length_singleton] at hlen
        rw [hlen, hnil, List.append_nil, List.length_cons, Nat.add_comm]
      · exact absurd h (readRecords_ne_noBoxes)

end Reads

/-- **The listing arrives exactly when every read returns a whole record**; a box without a
name would be taken for none. -/
theorem listed_iff_whole {t t' : RecordTable} {replyBox : BoxRecord}
    {writes chunks : List (List UInt8)} {box : CharArray sizeofBox}
    (hlast : ∀ i, i + 1 < t.nBoxes → (t.boxes i).last = 0)
    (hsent : t.replyToListBoxes replyBox = .ok (writes, t'))
    (hsplit : Splits chunks writes.flatten) :
    readListing box.bytes chunks = .ok (t.listing writes.tail) ↔
      (∀ chunk ∈ chunks.tail, chunk.length = sizeofBox) ∧ ¬ t.Nameless := by
  rcases replyToListBoxes_spec hsent with ⟨hn, r, rfl, hr⟩ | ⟨hpos, hmax, rfl⟩
  · obtain ⟨reads, rfl, hflat⟩ := @Splits.eq_cons chunks [r] hsplit
    have hle : ∀ chunk ∈ reads, chunk.length ≤ sizeofBox := hsplit.length_le
    rw [RecordTable.listing, if_pos hn, List.tail_cons]
    have hnamed : ¬ t.Nameless := fun h => by
      rw [RecordTable.Nameless, hn] at h
      exact absurd h.1 (by decide)
    constructor
    · intro h
      exact ⟨whole_of_length hle hflat
        (length_of_readListing hsplit.nonempty h (Or.inr ⟨rfl, rfl⟩)), hnamed⟩
    · rintro ⟨hwhole, -⟩
      rw [eq_of_whole hwhole hflat]
      exact readListing_noBox hr
  · obtain ⟨reads, rfl, hflat⟩ := hsplit.eq_cons
    have hle : ∀ chunk ∈ reads, chunk.length ≤ sizeofBox := hsplit.length_le
    rw [RecordTable.listing, if_neg hpos.ne', List.tail_cons, List.tail_cons]
    obtain ⟨r, rs, hrs⟩ : ∃ r rs, t.sent = r :: rs := by
      refine List.exists_cons_of_length_pos ?_
      rwa [RecordTable.sent, List.length_map, List.length_range]
    have hended := ended_sent hpos hlast
    have hroom : (r :: rs).length ≤ maxBoxes := by
      rwa [← hrs, RecordTable.sent, List.length_map, List.length_range]
    have hhead := noBox_head hlast hrs
    rw [hrs] at hflat hended ⊢
    constructor
    · intro h
      have hwhole := whole_of_length hle hflat
        (length_of_readListing hsplit.nonempty h (Or.inl rfl))
      refine ⟨hwhole, fun hnameless => ?_⟩
      rw [eq_of_whole hwhole hflat, List.map_cons, readListing_noBox (hhead.mpr hnameless)] at h
      cases h
    · rintro ⟨hwhole, hnamed⟩
      rw [eq_of_whole hwhole hflat]
      exact readListing_whole (hhead.not.mpr hnamed) hended hroom

/-- The box `a`. -/
def onlyRecord : RecordTable where
  boxes := fun _ => { BoxRecord.zero with boxName := ⟨97 :: List.replicate 31 0, rfl⟩ }
  nBoxes := 1
  initialised := fun i => i == 0

/-- What the manager's variable may hold before the first read. -/
def unread : CharArray sizeofBox := .zero

theorem lastOf_unread : lastOf unread.bytes = 0 := by
  rw [unread, CharArray.zero, lastOf, List.getD_eq_getElem?_getD, List.getElem?_replicate]
  rfl

theorem sends_onlyRecord : onlyRecord.replyToListBoxes .zero =
    .ok ([[8], ((onlyRecord.setLast 1).boxes 0).bytes], (onlyRecord.setLast 1).setLast 0) := rfl

/-- The boxes `a` and `b`. -/
def twoRecords : RecordTable where
  boxes := fun i => { BoxRecord.zero with
    boxName := ⟨(if i = 0 then 97 else 98) :: List.replicate 31 0, rfl⟩ }
  nBoxes := 2
  initialised := fun i => decide (i < 2)

/-- Both are listed, when each read returns one of the records. -/
theorem listed_twoRecords : ∃ r r' t, twoRecords.replyToListBoxes .zero = .ok ([[8], r, r'], t) ∧
    r ≠ r' ∧ readListing unread.bytes [[8], r, r'] = .ok (.listed [r, r'] []) := by
  obtain ⟨t, hsent⟩ : ∃ t, twoRecords.replyToListBoxes .zero =
      .ok ([[8], (twoRecords.boxes 0).bytes, ((twoRecords.setLast 1).boxes 1).bytes], t) := ⟨_, rfl⟩
  have hwhole : ∀ chunk ∈ [(twoRecords.boxes 0).bytes, ((twoRecords.setLast 1).boxes 1).bytes],
      chunk.length = sizeofBox := by
    intro chunk hmem
    rcases List.mem_pair.mp hmem with rfl | rfl
    · exact BoxRecord.length_bytes _
    · exact BoxRecord.length_bytes _
  have hsplit : Splits [[8], (twoRecords.boxes 0).bytes, ((twoRecords.setLast 1).boxes 1).bytes]
      [[8], (twoRecords.boxes 0).bytes, ((twoRecords.setLast 1).boxes 1).bytes].flatten :=
    ⟨rfl, ⟨8, rfl⟩, fun chunk hmem => List.ne_nil_of_length_pos (hwhole chunk hmem ▸ by decide),
      fun chunk hmem => (hwhole chunk hmem).le⟩
  refine ⟨_, _, t, hsent, fun heq => ?_, (listed_iff_whole (fun i hi => ?_) hsent hsplit).mpr
    ⟨hwhole, fun h => ?_⟩⟩
  · have hhead := congrArg List.head? heq
    exact absurd hhead (by decide)
  · rfl
  · exact absurd h.1 (by decide)

/-- A read that is short leaves the old `last`. -/
theorem lastOf_readInto {box chunk : List UInt8} (h : chunk.length < sizeofBox) :
    lastOf (readInto box chunk) = lastOf box := by
  rw [lastOf, lastOf, readInto, List.getD_eq_getElem?_getD, List.getD_eq_getElem?_getD,
    List.getElem?_append_right (by omega), List.getElem?_drop]
  congr 2
  omega

/-- The first read returns a single byte of the record, the second one the rest; then the
manager waits for more. -/
theorem not_listed_shortRead : ∃ records t chunks,
    onlyRecord.replyToListBoxes .zero = .ok ([8] :: records, t) ∧
      Splits chunks ([8] :: records).flatten ∧
      readListing unread.bytes chunks = .ok .waiting := by
  have hlen := ((onlyRecord.setLast 1).boxes 0).length_bytes
  generalize hr : ((onlyRecord.setLast 1).boxes 0).bytes = bs at hlen
  have htake : (bs.take 1).length = 1 := by
    rw [List.length_take, hlen]
    rfl
  have hdrop : (bs.drop 1).length = sizeofBox - 1 := by rw [List.length_drop, hlen]
  have hsize : 1 < sizeofBox := by decide
  refine ⟨_, _, [[8], bs.take 1, bs.drop 1], sends_onlyRecord, ⟨?_, ⟨8, rfl⟩, ?_, ?_⟩, ?_⟩
  · rw [hr, List.flatten_cons, List.flatten_cons, List.flatten_cons, List.flatten_nil, List.append_nil,
      List.take_append_drop]
    simp
  · intro chunk hmem
    rcases List.mem_pair.mp hmem with rfl | rfl
    · exact List.ne_nil_of_length_pos (by omega)
    · exact List.ne_nil_of_length_pos (by omega)
  · intro chunk hmem
    rcases List.mem_pair.mp hmem with rfl | rfl
    · omega
    · omega
  · have hfirst : lastOf (readInto unread.bytes (bs.take 1)) = 0 :=
      (lastOf_readInto (by omega)).trans lastOf_unread
    have hsecond : lastOf (readInto (readInto unread.bytes (bs.take 1)) (bs.drop 1)) = 0 :=
      (lastOf_readInto (by omega)).trans hfirst
    have hne : ¬ (0 : UInt8) = 1 := by decide
    rw [readListing, if_pos rfl, readFirst, hfirst, if_neg fun h => hne h.1, readRecords, hfirst,
      if_neg hne, List.length_singleton, if_neg (show ¬ maxBoxes ≤ 1 by decide), readRecords,
      hsecond, if_neg hne]

end Mbroker
