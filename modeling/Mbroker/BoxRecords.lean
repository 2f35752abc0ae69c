/-
Boxes as they lie in memory.

`box_t` is packed: a record is its fields, one after the other.  Its arrays of characters
hold more than the strings in them, since what follows the NUL of a string stays there
until something is written over it.

* `CharArray.text_strcpy` — a copy is the string that was copied;
* `BoxRecord.length_bytes`, `BoxRecord.last_bytes` — where a record ends, and with which
  field;
* **`RecordTable.addBox_toTable`**, **`RecordTable.deleteBox_toTable`**,
  **`RecordTable.addSubscriberToBox_toTable`** — the records, as the boxes whose fields are
  the strings in the arrays.
-/
import Mbroker.Boxes

namespace Mbroker

/-- `char array[size]`. -/
structure CharArray (size : Nat) where
  bytes : List UInt8
  length_bytes : bytes.length = size
deriving DecidableEq

namespace CharArray

variable {size : Nat} {a b dest : CharArray size} {q : CString}

@[ext] theorem ext (h : a.bytes = b.bytes) : a = b := by
  cases a; cases b; simpa using h

/-- An array of NULs. -/
def zero : CharArray size := ⟨List.replicate size 0, List.length_replicate⟩

/-- The string in the array. -/
def text (a : CharArray size) : CString := .ofBuffer a.bytes

/-- There is a NUL in the array. -/
def Terminated (a : CharArray size) : Prop := a.text.strlen < size

instance (a : CharArray size) : Decidable a.Terminated := inferInstanceAs (Decidable (_ < _))

theorem length_strcpy (dest : CharArray size) (h : q.strlen < size) :
    (q.terminated ++ dest.bytes.drop (q.strlen + 1)).length = size := by
  rw [List.length_append, q.length_terminated, List.length_drop, dest.length_bytes]
  omega

/-- `strcpy(dest, q)`: what lies behind the NUL stays. -/
def strcpy (dest : CharArray size) (q : CString) : Outcome (CharArray size) :=
  if h : q.strlen < size then
    .ok ⟨q.terminated ++ dest.bytes.drop (q.strlen + 1), dest.length_strcpy h⟩
  else .fault

theorem length_strncpy (size : Nat) (q : CString) : ((padded size q).take size).length = size := by
  rw [List.length_take, padded, List.length_append, List.length_replicate, ← CString.strlen]
  omega

/-- `strncpy(dest, q, size)`. -/
def strncpy (q : CString) : CharArray size := ⟨(padded size q).take size, length_strncpy size q⟩

theorem length_fillString (h : a.Terminated) :
    (Mbroker.fillString size a.bytes).length = size := by
  have hlt : (CString.ofBuffer a.bytes).strlen < size := h
  have ha := a.length_bytes
  simp only [Mbroker.fillString, List.length_append, List.length_take, List.length_replicate]
  omega

/-- `fill_string(size, array)`; without a NUL in the array, `strlen` leaves it. -/
def fillString (a : CharArray size) : Outcome (CharArray size) :=
  if h : a.Terminated then .ok ⟨Mbroker.fillString size a.bytes, length_fillString h⟩ else .fault

/-- What lies behind the string and its NUL. -/
def rest (a : CharArray size) : List UInt8 := a.bytes.drop (a.text.strlen + 1)

theorem of_strcpy (h : dest.strcpy q = .ok b) :
    q.strlen < size ∧ b.bytes = q.terminated ++ dest.bytes.drop (q.strlen + 1) := by
  rw [strcpy] at h
  split at h
  case isTrue hlt =>
    obtain rfl := Outcome.ok.inj h
    exact ⟨hlt, rfl⟩
  case isFalse => cases h

theorem strcpy_returns (h : q.strlen < size) : ∃ b, dest.strcpy q = .ok b := by
  rw [strcpy, dif_pos h]
  exact ⟨_, rfl⟩

theorem strcpy_fault (h : ¬ q.strlen < size) : dest.strcpy q = .fault := by
  rw [strcpy, dif_neg h]

/-- **The copy is the string copied.** -/
theorem text_strcpy (h : dest.strcpy q = .ok b) : b.text = q := by
  rw [text, (of_strcpy h).2, CString.terminated, List.append_assoc]
  exact CString.ofBuffer_terminated q _

theorem text_strncpy (h : q.strlen < size) : (strncpy q : CharArray size).text = q := by
  show CString.ofBuffer ((padded size q).take size) = q
  rw [List.take_of_length_le (length_padded h.le).le, ofBuffer_padded h]

theorem take_text (a : CharArray size) : a.bytes.take a.text.strlen = a.text.bytes := by
  have hpre : a.text.bytes <+: a.bytes := List.takeWhile_prefix _
  exact (List.prefix_iff_eq_take.mp hpre).symm

/-- What is filled is the string, and NULs. -/
theorem fillString_eq (h : a.Terminated) :
    ∃ b : CharArray size, a.fillString = .ok b ∧ b.bytes = padded size a.text := by
  rw [fillString, dif_pos h]
  refine ⟨_, rfl, ?_⟩
  show a.bytes.take a.text.strlen ++ List.replicate (size - a.text.strlen) 0 = _
  rw [take_text, padded]

/-- A message, copied into an array that has been filled. -/
theorem strcpy_fillString (h : a.Terminated) (hq : q.strlen < size) :
    ∃ b c : CharArray size, a.fillString = .ok b ∧ b.strcpy q = .ok c ∧ c.text = q ∧
      c.bytes = q.terminated ++ (padded size a.text).drop (q.strlen + 1) := by
  obtain ⟨b, hb, hbytes⟩ := fillString_eq h
  obtain ⟨c, hc⟩ : ∃ c, b.strcpy q = .ok c := strcpy_returns hq
  refine ⟨b, c, hb, hc, text_strcpy hc, ?_⟩
  rw [(of_strcpy hc).2, hbytes]

theorem fillString_fault (h : ¬ a.Terminated) : a.fillString = .fault := by
  rw [fillString, dif_neg h]

/-- A string, its NUL, and what lies behind it. -/
theorem bytes_eq (h : a.Terminated) : a.bytes = a.text.terminated ++ a.rest :=
  CString.eq_terminated_append (a.length_bytes.symm ▸ h)

theorem bytes_of_not_terminated (h : ¬ a.Terminated) : a.bytes = a.text.bytes := by
  rw [← take_text, List.take_of_length_le]
  rw [a.length_bytes]
  exact Nat.le_of_not_lt h

/-- The string and what lies behind it are all of the array. -/
theorem eq_of_text_rest (h : a.text = b.text) (hrest : a.rest = b.rest) : a = b := by
  ext1
  by_cases ha : a.Terminated
  · have hb : b.Terminated := by rwa [Terminated, ← h]
    rw [bytes_eq ha, bytes_eq hb, h, hrest]
  · have hb : ¬ b.Terminated := by rwa [Terminated, ← h]
    rw [bytes_of_not_terminated ha, bytes_of_not_terminated hb, h]

/-- What is filled is determined by the string. -/
theorem fillString_congr (h : a.text = b.text) : a.fillString = b.fillString := by
  by_cases ha : a.Terminated
  · have hb : b.Terminated := by rwa [Terminated, ← h]
    obtain ⟨c, hc, hbytes⟩ := fillString_eq ha
    obtain ⟨d, hd, hbytes'⟩ := fillString_eq hb
    rw [hc, hd, ext (hbytes.trans (h ▸ hbytes'.symm))]
  · have hb : ¬ b.Terminated := by rwa [Terminated, ← h]
    rw [fillString_fault ha, fillString_fault hb]

/-! #### From array to array -/

section Copies

variable {size' : Nat} {src : CharArray size'}

/-- `strcpy(dest, src)`; without a NUL in `src`, it reads past its end. -/
def strcpyFrom (dest : CharArray size) (src : CharArray size') : Outcome (CharArray size) :=
  if src.Terminated then dest.strcpy src.text else .fault

/-- `array[i] = c`. -/
def set (a : CharArray size) (i : Nat) (c : UInt8) : CharArray size :=
  ⟨a.bytes.set i c, List.length_set.trans a.length_bytes⟩

theorem terminated_iff : a.Terminated ↔ 0 ∈ a.bytes := by
  constructor
  · intro h
    rw [bytes_eq h, CString.terminated]
    simp
  · intro h
    by_contra hno
    rw [bytes_of_not_terminated hno] at h
    exact a.text.noNul h

theorem strcpyFrom_fault (h : ¬ src.Terminated) : dest.strcpyFrom src = .fault := by
  rw [strcpyFrom, if_neg h]

theorem strcpyFrom_returns (dest : CharArray size) (h : src.Terminated) (hle : size' ≤ size) :
    ∃ b : CharArray size, dest.strcpyFrom src = .ok b ∧ b.text = src.text ∧ b.Terminated := by
  obtain ⟨b, hb⟩ : ∃ b, dest.strcpy src.text = .ok b := strcpy_returns (lt_of_lt_of_le h hle)
  have htext : b.text = src.text := text_strcpy hb
  refine ⟨b, ?_, htext, ?_⟩
  · rw [strcpyFrom, if_pos h, hb]
  · rw [Terminated, htext]
    exact lt_of_lt_of_le h hle

/-- The NUL that is written after the copy is there already. -/
theorem text_set_strcpyFrom {b : CharArray size} (h : dest.strcpyFrom src = .ok b) :
    (b.set src.text.strlen 0).text = src.text := by
  rw [strcpyFrom] at h
  split at h
  case isFalse => cases h
  case isTrue =>
    have hbytes : (b.set src.text.strlen 0).bytes = b.bytes := by
      show b.bytes.set _ _ = _
      rw [(of_strcpy h).2, CString.terminated, CString.strlen, List.append_assoc,
        List.set_append_right _ _ (le_refl _), Nat.sub_self]
      rfl
    rw [ext hbytes, text_strcpy h]

end Copies

end CharArray

/-! ### `box_t` -/

/-- `sizeof(box_t)`. -/
def sizeofBox : Nat := 16701

/-- The bytes of a `uint64_t`. -/
def uint64Bytes (n : Nat) : List UInt8 := (List.range 8).map fun k => UInt8.ofNat (n / 256 ^ k)

/-- `box_t`. -/
structure BoxRecord where
  boxName : CharArray boxNameSize
  publisher : CharArray pipeNameSize
  boxSize : Nat
  nPublishers : Nat
  nSubscribers : Nat
  subscribers : Nat → CharArray pipeNameSize
  subscriberIndex : Int
  last : UInt8

namespace BoxRecord

/-- A record of a static array. -/
def zero : BoxRecord where
  boxName := .zero
  publisher := .zero
  boxSize := 0
  nPublishers := 0
  nSubscribers := 0
  subscribers := fun _ => .zero
  subscriberIndex := 0
  last := 0

/-- The bytes before `last`. -/
def bytesBeforeLast (r : BoxRecord) : List UInt8 :=
  r.boxName.bytes ++ r.publisher.bytes ++ uint64Bytes r.boxSize ++ uint64Bytes r.nPublishers ++
    uint64Bytes r.nSubscribers ++ ((List.range maxBoxes).flatMap fun k => (r.subscribers k).bytes) ++
    Memory.intBytes r.subscriberIndex

/-- The record, as `write` sends it. -/
def bytes (r : BoxRecord) : List UInt8 := r.bytesBeforeLast ++ [r.last]

/-- The box whose fields are the strings in the record. -/
def toBox (r : BoxRecord) : Box where
  boxName := r.boxName.text
  publisher := r.publisher.text
  boxSize := r.boxSize
  nPublishers := r.nPublishers
  nSubscribers := r.nSubscribers
  subscribers := fun k => (r.subscribers k).text
  subscriberIndex := r.subscriberIndex
  last := r.last.toNat

variable {r : BoxRecord}

theorem length_bytesBeforeLast (r : BoxRecord) : r.bytesBeforeLast.length = sizeofBox - 1 := by
  have hsubscribers : ((List.range maxBoxes).flatMap fun k => (r.subscribers k).bytes).length =
      maxBoxes * pipeNameSize := by
    simp [List.length_flatMap, CharArray.length_bytes]
  simp only [bytesBeforeLast, List.length_append, hsubscribers, CharArray.length_bytes,
    uint64Bytes, List.length_map, List.length_range, Memory.length_intBytes]
  rfl

/-- **The size of a record.** -/
theorem length_bytes (r : BoxRecord) : r.bytes.length = sizeofBox := by
  rw [bytes, List.length_append, length_bytesBeforeLast]
  rfl

/-- Its last byte is the field `last`. -/
theorem last_bytes (r : BoxRecord) : r.bytes.getD (sizeofBox - 1) 0 = r.last := by
  rw [bytes, List.getD_eq_getElem?_getD, ← length_bytesBeforeLast r, List.getElem?_concat_length]
  rfl

/-- Its first byte is the first one of the name. -/
theorem first_bytes (r : BoxRecord) : r.bytes.getD 0 0 = r.boxName.bytes.getD 0 0 := by
  have hlt : 0 < r.boxName.bytes.length := by
    rw [r.boxName.length_bytes]
    exact by decide
  simp only [bytes, bytesBeforeLast, List.append_assoc, List.getD_eq_getElem?_getD]
  rw [List.getElem?_append_left hlt]

/-- The fields that `delete_box` takes from the other record; the strings are copied. -/
def swapped (box other : BoxRecord) : Outcome BoxRecord := do
  let boxName ← box.boxName.strcpy other.boxName.text
  let publisher ← box.publisher.strcpy other.publisher.text
  return { box with
    boxName := boxName
    publisher := publisher
    boxSize := other.boxSize
    nPublishers := other.nPublishers
    nSubscribers := other.nSubscribers
    last := other.last }

end BoxRecord

/-! ### `boxes` -/

/-- `boxes` and `n_boxes`, and the slots of `box_conditions` and `box_mutexes` in use. -/
structure RecordTable where
  boxes : Nat → BoxRecord
  nBoxes : Nat
  initialised : Nat → Bool

namespace RecordTable

/-- The table when `main` starts. -/
def empty : RecordTable := ⟨fun _ => .zero, 0, fun _ => false⟩

/-- The boxes of the records. -/
def toTable (t : RecordTable) : BoxTable := ⟨fun i => (t.boxes i).toBox, t.nBoxes, t.initialised⟩

/-- Assignment to fields of `boxes[i]`. -/
def modify (t : RecordTable) (i : Nat) (f : BoxRecord → BoxRecord) : RecordTable :=
  { t with boxes := Function.update t.boxes i (f (t.boxes i)) }

/-- `add_box`. -/
def addBox (box : BoxRecord) (t : RecordTable) : Outcome RecordTable :=
  if maxBoxes ≤ t.nBoxes then .fault
  else
    .ok
      { boxes := Function.update t.boxes t.nBoxes box
        nBoxes := t.nBoxes + 1
        initialised := Function.update t.initialised t.nBoxes true }

/-- `delete_box`, from where it has opened and closed the pipe of the publisher, if the record
has one. -/
def deleteBox (i : Int) (t : RecordTable) : Outcome RecordTable :=
  if i < 0 ∨ maxBoxes ≤ i.toNat ∨ t.nBoxes = 0 ∨ maxBoxes ≤ t.nBoxes then .fault
  else do
    let box ← (t.boxes i.toNat).swapped (t.boxes (t.nBoxes - 1))
    let lastBox ← (t.boxes (t.nBoxes - 1)).swapped (t.boxes i.toNat)
    return {
      boxes := Function.update (Function.update t.boxes i.toNat box) (t.nBoxes - 1) lastBox
      nBoxes := t.nBoxes - 1
      initialised := Function.update t.initialised t.nBoxes false }

/-- `boxes[n_boxes - 1].last = last`. -/
def setLast (last : UInt8) (t : RecordTable) : RecordTable :=
  t.modify (t.nBoxes - 1) fun box => { box with last := last }

/-- `reply_to_list_boxes`: what each `write` sends, and the table afterwards.  `replyBox` is
its local variable. -/
def replyToListBoxes (replyBox : BoxRecord) (t : RecordTable) :
    Outcome (List (List UInt8) × RecordTable) :=
  if t.nBoxes = 0 then do
    let publisher ← replyBox.publisher.strcpy .empty
    let boxName ← replyBox.boxName.strcpy .empty
    let replyBox := { replyBox with
      last := 1, publisher := publisher, boxName := boxName
      boxSize := 0, nPublishers := 0, nSubscribers := 0 }
    return ([[8], replyBox.bytes], t)
  else if maxBoxes < t.nBoxes then .fault
  else
    let t := t.setLast 1
    .ok ([8] :: (List.range t.nBoxes).map fun i => (t.boxes i).bytes, t.setLast 0)

/-- `add_subscriber_to_box`. -/
def addSubscriberToBox (boxIndex : Nat) (pipeName : CString) (t : RecordTable) :
    Outcome RecordTable :=
  let i := (t.boxes boxIndex).subscriberIndex
  if i < 0 ∨ maxBoxes ≤ i.toNat then .fault
  else
    .ok (t.modify boxIndex fun box =>
      { box with
        subscribers := Function.update box.subscribers i.toNat (.strncpy pipeName)
        subscriberIndex := i + 1 })

variable {t t' : RecordTable} {i : Int} {j : Nat} {box : BoxRecord} {pipeName : CString}

@[simp] theorem nBoxes_toTable : t.toTable.nBoxes = t.nBoxes := rfl

theorem toBox_update (boxes : Nat → BoxRecord) (j : Nat) (box : BoxRecord) :
    (fun k => (Function.update boxes j box k).toBox) =
      Function.update (fun k => (boxes k).toBox) j box.toBox := by
  funext k
  exact Function.apply_update (fun _ => BoxRecord.toBox) boxes j box k

theorem modify_toTable {f : BoxRecord → BoxRecord} {g : Box → Box}
    (h : (f (t.boxes j)).toBox = g (t.boxes j).toBox) :
    (t.modify j f).toTable = t.toTable.modify j g := by
  rw [toTable, modify, BoxTable.modify]
  simp only [toBox_update, h]
  rfl

theorem toBox_swapped {other box' : BoxRecord} (h : box.swapped other = .ok box') :
    box'.toBox = box.toBox.swapped other.toBox := by
  obtain ⟨boxName, hname, h⟩ := Outcome.bind_eq_ok.mp h
  obtain ⟨publisher, hpublisher, h⟩ := Outcome.bind_eq_ok.mp h
  obtain rfl := Outcome.ok.inj h
  simp only [BoxRecord.toBox, Box.swapped, CharArray.text_strcpy hname,
    CharArray.text_strcpy hpublisher]

theorem addBox_toTable (h : t.addBox box = .ok t') :
    Mbroker.addBox box.toBox t.toTable = .ok t'.toTable := by
  rw [addBox] at h
  split at h
  case isTrue => cases h
  case isFalse hroom =>
    obtain rfl := Outcome.ok.inj h
    rw [Mbroker.addBox, nBoxes_toTable, if_neg hroom]
    simp only [toTable, toBox_update]

theorem deleteBox_toTable (h : t.deleteBox i = .ok t') :
    Mbroker.deleteBox i t.toTable = .ok t'.toTable := by
  rw [deleteBox] at h
  split at h
  case isTrue => cases h
  case isFalse hrange =>
    obtain ⟨box, hbox, h⟩ := Outcome.bind_eq_ok.mp h
    obtain ⟨lastBox, hlast, h⟩ := Outcome.bind_eq_ok.mp h
    obtain rfl := Outcome.ok.inj h
    rw [Mbroker.deleteBox, nBoxes_toTable, if_neg hrange]
    simp only [toTable, toBox_update, toBox_swapped hbox, toBox_swapped hlast]

theorem addSubscriberToBox_toTable (hname : pipeName.strlen < pipeNameSize)
    (h : t.addSubscriberToBox j pipeName = .ok t') :
    Mbroker.addSubscriberToBox j pipeName t.toTable = .ok t'.toTable := by
  rw [addSubscriberToBox] at h
  split at h
  case isTrue => cases h
  case isFalse hrange =>
    obtain rfl := Outcome.ok.inj h
    have hindex : (t.toTable.boxes j).subscriberIndex = (t.boxes j).subscriberIndex := rfl
    rw [Mbroker.addSubscriberToBox, hindex, if_neg hrange, modify_toTable]
    -- The name in its slot is the string that `strncpy` was given.
    simp only [BoxRecord.toBox, Box.mk.injEq, true_and, and_true]
    funext k
    rw [Function.apply_update (fun _ => CharArray.text), CharArray.text_strncpy hname]

end RecordTable

end Mbroker
