/-
Listings at the same time as creations and removals.

`reply_to_list_boxes` marks the last record of the array, sends the records one after the
other, and takes the mark away again: from whatever record is the last one by then.
Here any number of listings do so, with calls of `add_box` and `delete_box` in
between.  A process exit ends the run.

* `readBoxes` — how the manager reads;
* `ListingState.Inv` — the mark is on the last record, as long as a listing needs it;
* **`listed_of_permitted`** — as long as no box is added or removed behind a listing, the
  managers read exactly what is sent, and no mark is left;
* `not_listed_boxAdded` — a box that is added in between.
-/
import Mbroker.BrokerRuns

namespace Mbroker

open Tfs

/-- The loop of the manager: what it has read when it stops, and what is left then. -/
def readBoxes : List Box → Option (List Box × List Box)
  | [] => none
  | box :: boxes =>
    if box.last = 1 then some ([box], boxes)
    else (readBoxes boxes).map fun r => (box :: r.1, r.2)

/-- The record that a call sends. -/
def Call.record : Call → Option Box
  | .write _ (.record box) => some box
  | _ => none

/-- The broker, the listings, and what each of them has sent. -/
structure ListingState (ι : Type) where
  broker : Broker
  listings : ι → ListFrame
  sent : ι → List Box

inductive ListingTurn (ι : Type) where
  | listing (k : ι) (env : Answer)
  | addBox (box : Box)
  | deleteBox (i : Nat)

/-- The mark has been set and not been taken away. -/
def ListFrame.Marked (f : ListFrame) : Prop :=
  f.place = .test ∨ f.place = .copyBox ∨ f.place = .writeBox ∨ f.place = .clearLast

instance (f : ListFrame) : Decidable f.Marked :=
  inferInstanceAs (Decidable (_ ∨ _ ∨ _ ∨ _))

/-- The record that is copied next. -/
def ListFrame.next (f : ListFrame) : Nat := if f.place = .writeBox then f.i + 1 else f.i

namespace ListingState

variable {ι : Type}

/-- Nobody has sent anything. -/
def start (b : Broker) (pipes : ι → CString) (locals : ι → Box) : ListingState ι :=
  ⟨b, fun k => ⟨.openPipe, pipes k, 0, 0, locals k⟩, fun _ => []⟩

/-- A turn. -/
def step [DecidableEq ι] : ListingTurn ι → ListingState ι → Outcome (Unit × ListingState ι)
  | .listing k env, s =>
    match (s.listings k).call with
    | none => .ok ((), s)
    | some call => do
      let (a, b) ← perform call env s.broker
      let f := (s.listings k).resume a
      if f.place = .exit then .panic "exit(EXIT_FAILURE)"
      else
        return ((),
          { broker := b
            listings := Function.update s.listings k f
            sent := Function.update s.sent k (s.sent k ++ call.record.toList) })
  | .addBox box, s => do
    let table ← addBox box s.broker.table
    return ((), { s with broker := { s.broker with table := table } })
  | .deleteBox i, s => do
    let table ← deleteBox i s.broker.table
    return ((), { s with broker := { s.broker with table := table } })

def nBoxes (s : ListingState ι) : Nat := s.broker.table.nBoxes

def last (s : ListingState ι) (j : Nat) : Nat := (s.broker.table.boxes j).last

/-- The managers read what is sent, and no mark is left. -/
structure Listed (s : ListingState ι) : Prop where
  whole : ∀ k, (s.listings k).place = .dequeue ∨ (s.listings k).place = .returned →
    readBoxes (s.sent k) = some (s.sent k, [])
  notBefore : ∀ k, readBoxes (s.sent k) = none ∨ readBoxes (s.sent k) = some (s.sent k, [])
  reset : (∀ k, ¬ (s.listings k).Marked) → ∀ j < s.nBoxes, s.last j = 0

/-- No box is added while there is a mark, nor one whose `last` has not been
initialised to 0; a box is removed only where the mark moves to the new last record
before the listings get there, or when they have sent it; and a listing takes the mark
away only when the others have sent it. -/
def Permitted : ListingTurn ι → ListingState ι → Prop
  | .listing k _, s => (s.listings k).place = .clearLast →
      ∀ k' ≠ k, (s.listings k').Marked → s.nBoxes ≤ (s.listings k').next
  | .addBox box, s => box.last = 0 ∧ ∀ k, ¬ (s.listings k).Marked
  | .deleteBox i, s => ∀ k, (s.listings k).Marked →
      i + 2 = s.nBoxes ∧ ((s.listings k).next ≤ i ∨ s.nBoxes ≤ (s.listings k).next) ∨
      s.nBoxes ≤ i + 1 ∧ s.nBoxes ≤ (s.listings k).next

end ListingState

/-! ### What has been sent -/

/-- No record ends the list. -/
def Unended (boxes : List Box) : Prop := ∀ box ∈ boxes, box.last ≠ 1

/-- The final record does, and no other. -/
def Ended (boxes : List Box) : Prop := ∃ before box, boxes = before ++ [box] ∧ Unended before ∧
  box.last = 1

theorem unended_nil : Unended [] := fun _ h => absurd h List.not_mem_nil

theorem Unended.append {boxes : List Box} {box : Box} (h : Unended boxes) (hbox : box.last ≠ 1) :
    Unended (boxes ++ [box]) := by
  intro box' hmem
  rcases List.mem_append.mp hmem with hmem | hmem
  · exact h box' hmem
  · rw [List.mem_singleton.mp hmem]
    exact hbox

theorem readBoxes_of_unended {boxes : List Box} (h : Unended boxes) : readBoxes boxes = none := by
  induction boxes with
  | nil => rfl
  | cons box boxes ih =>
    rw [readBoxes, if_neg (h box List.mem_cons_self),
      ih fun box' hmem => h box' (List.mem_cons_of_mem box hmem)]
    rfl

/-- **The manager stops at the end and not before.** -/
theorem readBoxes_of_ended {boxes : List Box} (h : Ended boxes) :
    readBoxes boxes = some (boxes, []) := by
  obtain ⟨before, box, rfl, hbefore, hbox⟩ := h
  induction before with
  | nil =>
    show readBoxes [box] = some ([box], [])
    rw [readBoxes, if_pos hbox]
  | cons box' before ih =>
    rw [List.cons_append, readBoxes, if_neg (hbefore box' List.mem_cons_self),
      ih fun box hmem => hbefore box (List.mem_cons_of_mem box' hmem)]
    rfl

/-- What a listing has sent and is going to send, with `n` boxes in the table. -/
def ListFrame.Sends (f : ListFrame) (n : Nat) (sent : List Box) : Prop :=
  match f.place with
  | .openPipe | .writeCode | .nBoxes | .markLast => sent = []
  | .writeNone => sent = [] ∧ f.replyBox.last = 1
  | .test => (f.i < n → Unended sent) ∧ (n ≤ f.i → Ended sent)
  | .copyBox => f.i < n ∧ Unended sent
  | .writeBox => Unended sent ∧ (f.i + 1 < n → f.replyBox.last = 0) ∧
      (n ≤ f.i + 1 → f.replyBox.last = 1)
  | .clearLast => n ≤ f.i ∧ Ended sent
  | .dequeue | .returned => Ended sent
  | .exit => False

theorem ListFrame.Sends.listed {f : ListFrame} {n : Nat} {sent : List Box} (h : f.Sends n sent) :
    Unended sent ∨ Ended sent := by
  obtain ⟨place, pipeName, manPipe, i, replyBox⟩ := f
  cases place with
  | test =>
    by_cases hi : i < n
    · exact Or.inl (h.1 hi)
    · exact Or.inr (h.2 (not_lt.mp hi))
  | copyBox => exact Or.inl h.2
  | writeBox => exact Or.inl h.1
  | clearLast => exact Or.inr h.2
  | dequeue | returned => exact Or.inr h
  | exit => exact h.elim
  | writeNone => exact Or.inl (h.1 ▸ unended_nil)
  | _ => exact Or.inl ((show sent = [] from h) ▸ unended_nil)

/-- Before a mark is set, the boxes do not matter. -/
theorem ListFrame.Sends.congr {f : ListFrame} {n n' : Nat} {sent : List Box} (h : f.Sends n sent)
    (hno : ¬ f.Marked) : f.Sends n' sent := by
  obtain ⟨place, pipeName, manPipe, i, replyBox⟩ := f
  cases place with
  | test => exact absurd (Or.inl rfl) hno
  | copyBox => exact absurd (Or.inr (Or.inl rfl)) hno
  | writeBox => exact absurd (Or.inr (Or.inr (Or.inl rfl))) hno
  | clearLast => exact absurd (Or.inr (Or.inr (Or.inr rfl))) hno
  | _ => exact h

/-- A box less, far enough ahead of the listing or behind it. -/
theorem ListFrame.Sends.shrink {f : ListFrame} {n n' : Nat} {sent : List Box} (h : f.Sends n sent)
    (hn : n' ≤ n) (hnext : f.Marked → f.next < n' ∨ n ≤ f.next) : f.Sends n' sent := by
  by_cases hmarked : f.Marked
  · have hnext := hnext hmarked
    obtain ⟨place, pipeName, manPipe, i, replyBox⟩ := f
    cases place with
    | test =>
      have hnext : i < n' ∨ n ≤ i := hnext
      exact ⟨fun hi => h.1 (hi.trans_le hn), fun hi => h.2 (by dsimp only at hi ⊢; omega)⟩
    | copyBox =>
      have hnext : i < n' ∨ n ≤ i := hnext
      obtain ⟨hi, hsent⟩ := h
      exact ⟨by dsimp only at hi ⊢; omega, hsent⟩
    | writeBox =>
      have hnext : i + 1 < n' ∨ n ≤ i + 1 := hnext
      obtain ⟨hsent, hzero, hone⟩ := h
      exact ⟨hsent, fun hi => hzero (hi.trans_le hn), fun hi => hone (by dsimp only at hi ⊢; omega)⟩
    | clearLast => exact ⟨hn.trans h.1, h.2⟩
    | _ => rcases hmarked with h | h | h | h <;> cases h
  · exact h.congr hmarked

namespace ListingState

variable {ι : Type} {s s' : ListingState ι} {t : ListingTurn ι} {k : ι} {b : Broker}
  {a env : Answer} {call : Call} {r : Unit}

/-- **The invariant**: at most the last record is marked, it is as long as a listing has
not sent it, and only while there is a listing that has marked it. -/
structure Inv (s : ListingState ι) : Prop where
  below : ∀ j, j + 1 < s.nBoxes → s.last j = 0
  top : ∀ j, j + 1 = s.nBoxes → s.last j = 0 ∨ s.last j = 1
  mark : ∀ k, (s.listings k).Marked → (s.listings k).next < s.nBoxes →
    ∀ j, j + 1 = s.nBoxes → s.last j = 1
  marker : ∀ j, j + 1 = s.nBoxes → s.last j = 1 → ∃ k, (s.listings k).Marked
  sends : ∀ k, (s.listings k).Sends s.nBoxes (s.sent k)

theorem inv_start (pipes : ι → CString) (locals : ι → Box)
    (hb : ∀ j < b.table.nBoxes, (b.table.boxes j).last = 0) : (start b pipes locals).Inv := by
  refine ⟨fun j hj => hb j ?_, fun j hj => Or.inl (hb j ?_), fun k hk => ?_, fun j hj h1 => ?_,
    fun _ => rfl⟩
  · have hj : j + 1 < b.table.nBoxes := hj
    omega
  · have hj : j + 1 = b.table.nBoxes := hj
    omega
  · rcases hk with h | h | h | h <;> cases h
  · have hj : j + 1 = b.table.nBoxes := hj
    have h1 : (b.table.boxes j).last = 1 := h1
    rw [hb j (by omega)] at h1
    cases h1

theorem Inv.listed (h : s.Inv) : s.Listed := by
  refine ⟨fun k hk => ?_, fun k => ?_, fun hno j hj => ?_⟩
  · have hsends := h.sends k
    rw [ListFrame.Sends] at hsends
    rcases hk with hk | hk
    · rw [hk] at hsends
      exact readBoxes_of_ended hsends
    · rw [hk] at hsends
      exact readBoxes_of_ended hsends
  · rcases (h.sends k).listed with hsent | hsent
    · exact Or.inl (readBoxes_of_unended hsent)
    · exact Or.inr (readBoxes_of_ended hsent)
  · by_cases hlast : j + 1 < s.nBoxes
    · exact h.below j hlast
    · have hlast : j + 1 = s.nBoxes := by omega
      rcases h.top j hlast with h0 | h1
      · exact h0
      · obtain ⟨k, hk⟩ := h.marker j hlast h1
        exact absurd hk (hno k)

variable [DecidableEq ι]

/-- A listing goes on, and nothing changes but perhaps the mark on the last record. -/
theorem Inv.put (h : s.Inv) (f : ListFrame) (sent : List Box) (hn : b.table.nBoxes = s.nBoxes)
    (hbelow : ∀ j, j + 1 < s.nBoxes → (b.table.boxes j).last = s.last j)
    (htop : ∀ j, j + 1 = s.nBoxes → (b.table.boxes j).last = 0 ∨ (b.table.boxes j).last = 1)
    (hmark : ∀ k' ≠ k, (s.listings k').Marked → (s.listings k').next < s.nBoxes →
      ∀ j, j + 1 = s.nBoxes → (b.table.boxes j).last = 1)
    (hmark' : f.Marked → f.next < s.nBoxes →
      ∀ j, j + 1 = s.nBoxes → (b.table.boxes j).last = 1)
    (hmarker : ∀ j, j + 1 = s.nBoxes → (b.table.boxes j).last = 1 →
      f.Marked ∨ ∃ k' ≠ k, (s.listings k').Marked)
    (hsends : f.Sends s.nBoxes sent) :
    Inv ⟨b, Function.update s.listings k f, Function.update s.sent k sent⟩ := by
  have hn : nBoxes ⟨b, Function.update s.listings k f, Function.update s.sent k sent⟩ =
    s.nBoxes := hn
  refine ⟨fun j hj => ?_, fun j hj => ?_, fun k' hk' hnext j hj => ?_, fun j hj h1 => ?_,
    fun k' => ?_⟩
  · rw [hn] at hj
    exact (hbelow j hj).trans (h.below j hj)
  · exact htop j (hn ▸ hj)
  · rw [hn] at hnext hj
    dsimp only at hk' hnext
    by_cases hkk : k' = k
    · subst hkk
      rw [Function.update_self] at hk' hnext
      exact hmark' hk' hnext j hj
    · rw [Function.update_of_ne hkk] at hk' hnext
      exact hmark k' hkk hk' hnext j hj
  · rw [hn] at hj
    dsimp only
    rcases hmarker j hj h1 with hf | ⟨k', hkk, hk'⟩
    · exact ⟨k, by rw [Function.update_self]; exact hf⟩
    · exact ⟨k', by rw [Function.update_of_ne hkk]; exact hk'⟩
  · rw [hn]
    dsimp only
    by_cases hkk : k' = k
    · subst hkk
      rw [Function.update_self, Function.update_self]
      exact hsends
    · rw [Function.update_of_ne hkk, Function.update_of_ne hkk]
      exact h.sends k'

/-- A listing goes on, and nothing changes. -/
theorem Inv.go (h : s.Inv) (f : ListFrame) (sent : List Box) (hb : b.table = s.broker.table)
    (hmarked : (s.listings k).Marked → f.Marked)
    (hnext : f.Marked → f.next < s.nBoxes →
      (s.listings k).Marked ∧ (s.listings k).next < s.nBoxes)
    (hsends : f.Sends s.nBoxes sent) :
    Inv ⟨b, Function.update s.listings k f, Function.update s.sent k sent⟩ := by
  have hlast : ∀ j, (b.table.boxes j).last = s.last j := by
    intro j
    rw [hb]
    rfl
  refine h.put f sent (by rw [hb]; rfl) (fun j _ => hlast j) (fun j hj => ?_)
    (fun k' _ hk' hnext' j hj => ?_) (fun hf hlt j hj => ?_) (fun j hj h1 => ?_) hsends
  · rw [hlast]
    exact h.top j hj
  · rw [hlast]
    exact h.mark k' hk' hnext' j hj
  · rw [hlast]
    obtain ⟨hk, hlt⟩ := hnext hf hlt
    exact h.mark k hk hlt j hj
  · rw [hlast] at h1
    obtain ⟨k', hk'⟩ := h.marker j hj h1
    by_cases hkk : k' = k
    · exact Or.inl (hmarked (hkk ▸ hk'))
    · exact Or.inr ⟨k', hkk, hk'⟩

/-- A listing sets the mark, or takes it away. -/
theorem Inv.putLast (h : s.Inv) (f : ListFrame) (sent : List Box) (v : Nat)
    (hb : b.table = s.broker.table.modify ((s.broker.table.nBoxes : Int) - 1).toNat
      fun box => { box with last := v })
    (hv : v = 1 ∧ f.Marked ∨ v = 0 ∧ ¬ f.Marked ∧
      ∀ k' ≠ k, (s.listings k').Marked → s.nBoxes ≤ (s.listings k').next)
    (hsends : f.Sends s.nBoxes sent) :
    Inv ⟨b, Function.update s.listings k f, Function.update s.sent k sent⟩ := by
  have hbelow : ∀ j, j + 1 < s.nBoxes → (b.table.boxes j).last = s.last j := by
    intro j hj
    rw [nBoxes] at hj
    rw [hb, BoxTable.boxes_modify_ne (by omega)]
    rfl
  have htop : ∀ j, j + 1 = s.nBoxes → (b.table.boxes j).last = v := by
    intro j hj
    rw [nBoxes] at hj
    have hindex : ((s.broker.table.nBoxes : Int) - 1).toNat = j := by omega
    rw [hb, hindex, BoxTable.boxes_modify_self]
  have hn : b.table.nBoxes = s.nBoxes := by
    rw [hb]
    rfl
  rcases hv with ⟨rfl, hf⟩ | ⟨rfl, hf, hothers⟩
  · exact h.put f sent hn hbelow (fun j hj => Or.inr (htop j hj)) (fun _ _ _ _ => htop)
      (fun _ _ => htop) (fun _ _ _ => Or.inl hf) hsends
  · refine h.put f sent hn hbelow (fun j hj => Or.inl (htop j hj)) (fun k' hkk hk' hnext => ?_)
      (fun hf' => absurd hf' hf) (fun j hj h1 => ?_) hsends
    · exact absurd hnext (not_lt.mpr (hothers k' hkk hk'))
    · exact absurd ((htop j hj).symm.trans h1) (by decide)

/-- A listing goes on that has not marked anything. -/
theorem Inv.goUnmarked (h : s.Inv) (f : ListFrame) (sent : List Box)
    (hb : b.table = s.broker.table) (hk : ¬ (s.listings k).Marked)
    (hf : ¬ f.Marked) (hsends : f.Sends s.nBoxes sent) :
    Inv ⟨b, Function.update s.listings k f, Function.update s.sent k sent⟩ :=
  h.go f sent hb (fun hk' => absurd hk' hk) (fun hf' => absurd hf' hf) hsends

/-- **A turn of a listing.** -/
theorem Inv.listing (h : s.Inv) (hok : Permitted (.listing k env) s)
    (hcall : (s.listings k).call = some call) (hperform : perform call env s.broker = .ok (a, b))
    (hexit : ((s.listings k).resume a).place ≠ .exit) :
    Inv ⟨b, Function.update s.listings k ((s.listings k).resume a),
      Function.update s.sent k (s.sent k ++ call.record.toList)⟩ := by
  have hsends := h.sends k
  rw [Permitted] at hok
  have hgo := h.go (b := b) (k := k)
  have hunmarked := h.goUnmarked (b := b) (k := k)
  have hputLast := h.putLast (b := b) (k := k)
  rcases hk : s.listings k with ⟨place, pipeName, manPipe, i, replyBox⟩
  rw [hk] at hcall hexit hsends hok hgo hunmarked
  rw [ListFrame.resume] at hexit ⊢
  cases place with
  | openPipe =>
    cases hcall
    obtain ⟨-, rfl⟩ := Prod.mk.inj (Outcome.ok.inj hperform)
    exact hunmarked _ _ rfl (by simp [ListFrame.Marked]) (by simp [ListFrame.Marked])
      ((List.append_nil _).trans hsends)
  | writeCode =>
    cases hcall
    obtain ⟨-, rfl⟩ := Prod.mk.inj (Outcome.ok.inj hperform)
    dsimp only at hexit ⊢
    split at hexit
    · exact absurd rfl hexit
    case isFalse hwritten =>
      rw [if_neg hwritten]
      exact hunmarked _ _ rfl (by simp [ListFrame.Marked]) (by simp [ListFrame.Marked])
        ((List.append_nil _).trans hsends)
  | nBoxes =>
    cases hcall
    obtain ⟨-, rfl⟩ := Prod.mk.inj (Outcome.ok.inj hperform)
    dsimp only
    split
    · exact hunmarked _ _ rfl (by simp [ListFrame.Marked]) (by simp [ListFrame.Marked])
        ⟨(List.append_nil _).trans hsends, rfl⟩
    · exact hunmarked _ _ rfl (by simp [ListFrame.Marked]) (by simp [ListFrame.Marked])
        ((List.append_nil _).trans hsends)
  | writeNone =>
    cases hcall
    obtain ⟨-, rfl⟩ := Prod.mk.inj (Outcome.ok.inj hperform)
    obtain ⟨hsent, hlast⟩ := hsends
    dsimp only at hexit ⊢
    split at hexit
    · exact absurd rfl hexit
    case isFalse hwritten =>
      -- Without boxes there is one record, which is marked.
      rw [if_neg hwritten]
      refine hunmarked _ _ rfl (by simp [ListFrame.Marked]) (by simp [ListFrame.Marked]) ?_
      rw [hsent]
      exact ⟨[], replyBox, rfl, unended_nil, hlast⟩
  | markLast =>
    -- The mark is set on the last record.
    cases hcall
    rw [perform] at hperform
    obtain ⟨hrange, hperform⟩ := atBox_eq_ok.mp hperform
    obtain ⟨-, rfl⟩ := Prod.mk.inj (Outcome.ok.inj hperform)
    have hpos : 0 < s.nBoxes := by
      rw [nBoxes]
      omega
    exact hputLast _ _ 1 rfl (Or.inl ⟨rfl, Or.inl rfl⟩)
      ⟨fun _ => ((List.append_nil _).trans hsends) ▸ unended_nil,
        fun hle => absurd hpos (not_lt.mpr hle)⟩
  | test =>
    cases hcall
    obtain ⟨rfl, rfl⟩ := Prod.mk.inj (Outcome.ok.inj hperform)
    dsimp only
    split
    case isTrue hlt =>
      have hlt : i < s.nBoxes := Int.ofNat_lt.mp hlt
      refine hgo _ _ rfl (fun _ => Or.inr (Or.inl rfl)) (fun _ _ => ⟨Or.inl rfl, hlt⟩) ⟨hlt, ?_⟩
      exact (List.append_nil _).symm ▸ hsends.1 hlt
    case isFalse hge =>
      have hge : s.nBoxes ≤ i := not_lt.mp fun hlt => hge (Int.ofNat_lt.mpr hlt)
      refine hgo _ _ rfl (fun _ => Or.inr (Or.inr (Or.inr rfl)))
        (fun _ hlt => absurd hlt (not_lt.mpr hge)) ⟨hge, ?_⟩
      exact (List.append_nil _).symm ▸ hsends.2 hge
  | copyBox =>
    -- The copy is marked exactly when it is that of the last record.
    cases hcall
    rw [perform] at hperform
    obtain ⟨-, hperform⟩ := atBox_eq_ok.mp hperform
    obtain ⟨rfl, rfl⟩ := Prod.mk.inj (Outcome.ok.inj hperform)
    obtain ⟨hlt, hsent⟩ := hsends
    have hlt : i < s.nBoxes := hlt
    refine hgo _ _ rfl (fun _ => Or.inr (Or.inr (Or.inl rfl)))
      (fun _ _ => ⟨Or.inr (Or.inl rfl), hlt⟩) ⟨(List.append_nil _).symm ▸ hsent, ?_, ?_⟩
    · exact fun hi => h.below i hi
    · refine fun hle => h.mark k ?_ ?_ i (le_antisymm hlt hle)
      · rw [hk]
        exact Or.inr (Or.inl rfl)
      · rw [hk]
        exact hlt
  | writeBox =>
    cases hcall
    obtain ⟨-, rfl⟩ := Prod.mk.inj (Outcome.ok.inj hperform)
    obtain ⟨hsent, hzero, hone⟩ := hsends
    dsimp only at hexit ⊢
    split at hexit
    · exact absurd rfl hexit
    case isFalse hwritten =>
      rw [if_neg hwritten]
      -- The record that has been sent is marked exactly when no more are to come.
      refine hgo _ _ rfl (fun _ => Or.inl rfl)
        (fun _ hlt => ⟨Or.inr (Or.inr (Or.inl rfl)), hlt⟩) ⟨fun hlt => ?_, fun hle => ?_⟩
      · exact hsent.append (by rw [hzero hlt]; decide)
      · exact ⟨s.sent k, replyBox, rfl, hsent, hone hle⟩
  | clearLast =>
    -- The other listings do not need the mark any more.
    cases hcall
    rw [perform] at hperform
    obtain ⟨hrange, hperform⟩ := atBox_eq_ok.mp hperform
    obtain ⟨-, rfl⟩ := Prod.mk.inj (Outcome.ok.inj hperform)
    refine hputLast _ _ 0 rfl (Or.inr ⟨rfl, ?_, hok rfl⟩) ((List.append_nil _).symm ▸ hsends.2)
    rintro (h | h | h | h) <;> cases h
  | dequeue =>
    cases hcall
    obtain ⟨-, rfl⟩ := Prod.mk.inj (Outcome.ok.inj hperform)
    refine hunmarked _ _ rfl (by simp [ListFrame.Marked]) (by simp [ListFrame.Marked]) ?_
    rw [show s.sent k ++ Call.pcqDequeue.record.toList = s.sent k from List.append_nil _]
    exact hsends
  | returned => cases hcall
  | exit => exact hsends.elim

omit [DecidableEq ι] in
/-- No record is marked when no listing is under way. -/
theorem Inv.unmarked (h : s.Inv) (hno : ∀ k, ¬ (s.listings k).Marked) :
    ∀ j < s.nBoxes, s.last j = 0 :=
  h.listed.reset hno

omit [DecidableEq ι] in
theorem Inv.addBox {box : Box} {table : BoxTable} (h : s.Inv) (hok : Permitted (.addBox box) s)
    (hadd : Mbroker.addBox box s.broker.table = .ok table) :
    Inv { s with broker := { s.broker with table := table } } := by
  obtain ⟨hbox, hno⟩ := hok
  obtain ⟨-, hn, hself, hother⟩ := BoxTable.addBox_ok hadd
  have hlast : ∀ j < table.nBoxes, (table.boxes j).last = 0 := by
    intro j hj
    by_cases hnew : j = s.broker.table.nBoxes
    · rw [hnew, hself]
      exact hbox
    · rw [hother j hnew]
      exact h.unmarked hno j (by rw [nBoxes]; omega)
  refine ⟨fun j hj => hlast j ?_, fun j hj => Or.inl (hlast j ?_), fun k hk => absurd hk (hno k),
    fun j hj h1 => ?_, fun k => (h.sends k).congr (hno k)⟩
  · have hj : j + 1 < table.nBoxes := hj
    omega
  · have hj : j + 1 = table.nBoxes := hj
    omega
  · have hj : j + 1 = table.nBoxes := hj
    have h1 : (table.boxes j).last = 1 := h1
    rw [hlast j (by omega)] at h1
    cases h1

omit [DecidableEq ι] in
/-- The mark moves with the last record. -/
theorem Inv.deleteBox {i : Nat} {table : BoxTable} (h : s.Inv) (hok : Permitted (.deleteBox i) s)
    (hdelete : Mbroker.deleteBox i s.broker.table = .ok table) :
    Inv { s with broker := { s.broker with table := table } } := by
  obtain ⟨-, hpos, hn, hboxes⟩ := BoxTable.deleteBox_ok hdelete
  have hlast : ∀ j, j + 1 < s.nBoxes →
      (table.boxes j).last = s.last (if j = i then s.nBoxes - 1 else j) := by
    intro j hj
    rw [nBoxes] at hj
    rw [hboxes j (by omega)]
    rfl
  have hn : table.nBoxes + 1 = s.nBoxes := by
    rw [nBoxes]
    omega
  have hsends : ∀ k, (s.listings k).Sends table.nBoxes (s.sent k) := by
    refine fun k => (h.sends k).shrink (by omega) fun hk => ?_
    rcases hok k hk with ⟨hi, hnext | hnext⟩ | ⟨-, hnext⟩
    · exact Or.inl (by omega)
    · exact Or.inr hnext
    · exact Or.inr hnext
  -- Whether the mark is needed or not, only the record that is moved can have it.
  have hzero : ∀ j, j + 1 < s.nBoxes → j ≠ i → (table.boxes j).last = 0 := by
    intro j hj hji
    rw [hlast j hj, if_neg hji]
    exact h.below j hj
  by_cases hmarked : ∃ k, (s.listings k).Marked
  · obtain ⟨k₀, hk₀⟩ := hmarked
    rcases hok k₀ hk₀ with ⟨hi, -⟩ | ⟨hi, -⟩
    · have htop : (table.boxes i).last = s.last (i + 1) := by
        rw [hlast i (by omega), if_pos rfl]
        congr 1
        omega
      have hindex : ∀ j, j + 1 = table.nBoxes → j = i := fun j hj => by omega
      refine ⟨fun j hj => hzero j ?_ ?_, fun j hj => ?_, fun k hk hnext j hj => ?_,
        fun _ _ _ => ⟨k₀, hk₀⟩, hsends⟩
      · have hj : j + 1 < table.nBoxes := hj
        omega
      · have hj : j + 1 < table.nBoxes := hj
        omega
      · obtain rfl := hindex j hj
        show (table.boxes j).last = 0 ∨ (table.boxes j).last = 1
        rw [htop]
        exact h.top (j + 1) (by omega)
      · obtain rfl := hindex j hj
        show (table.boxes j).last = 1
        rw [htop]
        have hnext : (s.listings k).next < table.nBoxes := hnext
        exact h.mark k hk (by omega) (j + 1) (by omega)
    · have hall : ∀ j < table.nBoxes, (table.boxes j).last = 0 :=
        fun j hj => hzero j (by omega) (by omega)
      refine ⟨fun j hj => hall j ?_, fun j hj => Or.inl (hall j ?_), fun k hk hnext => ?_,
        fun j hj h1 => ?_, hsends⟩
      · have hj : j + 1 < table.nBoxes := hj
        omega
      · have hj : j + 1 = table.nBoxes := hj
        omega
      · have hnext : (s.listings k).next < table.nBoxes := hnext
        rcases hok k hk with ⟨hi', -⟩ | ⟨-, hle⟩
        · omega
        · omega
      · have hj : j + 1 = table.nBoxes := hj
        exact absurd ((hall j (by omega)).symm.trans h1) (by decide)
  · have hno : ∀ k, ¬ (s.listings k).Marked := fun k hk => hmarked ⟨k, hk⟩
    have hall : ∀ j < table.nBoxes, (table.boxes j).last = 0 := by
      intro j hj
      rw [hlast j (by omega)]
      refine h.unmarked hno _ ?_
      split <;> omega
    refine ⟨fun j hj => hall j ?_, fun j hj => Or.inl (hall j ?_), fun k hk => absurd hk (hno k),
      fun j hj h1 => ?_, hsends⟩
    · have hj : j + 1 < table.nBoxes := hj
      omega
    · have hj : j + 1 = table.nBoxes := hj
      omega
    · have hj : j + 1 = table.nBoxes := hj
      exact absurd ((hall j (by omega)).symm.trans h1) (by decide)

theorem Inv.step (h : s.Inv) (hok : Permitted t s) (hstep : ListingState.step t s = .ok (r, s')) :
    s'.Inv := by
  cases t with
  | listing k env =>
    rw [ListingState.step] at hstep
    split at hstep
    case h_1 =>
      obtain ⟨-, rfl⟩ := Prod.mk.inj (Outcome.ok.inj hstep)
      exact h
    case h_2 call hcall =>
      obtain ⟨⟨a, b⟩, hperform, hstep⟩ := Outcome.bind_eq_ok.mp hstep
      dsimp only at hstep
      split at hstep
      case isTrue => cases hstep
      case isFalse hexit =>
        obtain ⟨-, rfl⟩ := Prod.mk.inj (Outcome.ok.inj hstep)
        exact h.listing hok hcall hperform hexit
  | addBox box =>
    obtain ⟨table, hadd, hstep⟩ := Outcome.bind_eq_ok.mp hstep
    obtain ⟨-, rfl⟩ := Prod.mk.inj (Outcome.ok.inj hstep)
    exact h.addBox hok hadd
  | deleteBox i =>
    obtain ⟨table, hdelete, hstep⟩ := Outcome.bind_eq_ok.mp hstep
    obtain ⟨-, rfl⟩ := Prod.mk.inj (Outcome.ok.inj hstep)
    exact h.deleteBox hok hdelete

end ListingState

open ListingState in
/-- **The managers read what is sent and no mark is left**, in every run in which no box
is added or removed behind a listing. -/
theorem listed_of_permitted {ι : Type} [DecidableEq ι] {b : Broker} {pipes : ι → CString}
    {locals : ι → Box} {turns : List (ListingTurn ι)} {rs : List Unit} {s : ListingState ι}
    (hb : ∀ j < b.table.nBoxes, (b.table.boxes j).last = 0)
    (hok : Outcome.Meets Permitted step turns (start b pipes locals))
    (hrun : Outcome.runList step turns (start b pipes locals) = .ok (rs, s)) : s.Listed := by
  have h : s.Inv := Outcome.runList_invariant_of_reaches
    (fun t s r s' hs hok hstep => hs.step hok hstep) (fun t s' hreach => hok.reaches hreach)
    (inv_start pipes locals hb) hrun
  exact h.listed

instance {ι : Type} [Fintype ι] [DecidableEq ι] :
    ∀ (t : ListingTurn ι) (s : ListingState ι), Decidable (ListingState.Permitted t s)
  | .listing k _, s => inferInstanceAs (Decidable ((s.listings k).place = .clearLast →
      ∀ k' ≠ k, (s.listings k').Marked → s.nBoxes ≤ (s.listings k').next))
  | .addBox box, s => inferInstanceAs (Decidable (box.last = 0 ∧ ∀ k, ¬ (s.listings k).Marked))
  | .deleteBox i, s => inferInstanceAs (Decidable (∀ k, (s.listings k).Marked →
      i + 2 = s.nBoxes ∧ ((s.listings k).next ≤ i ∨ s.nBoxes ≤ (s.listings k).next) ∨
      s.nBoxes ≤ i + 1 ∧ s.nBoxes ≤ (s.listings k).next))

/-- Box `a` alone. -/
def onlyA : BoxTable where
  boxes := fun i => if i = 0 then { Box.zero with boxName := .ofBuffer [97] } else .zero
  nBoxes := 1
  initialised := fun i => i == 0

/-- Two listings in turns. -/
def twoListings : List (ListingTurn Bool) :=
  .addBox { Box.zero with boxName := .ofBuffer [98] } ::
    (List.replicate 13 [.listing true { ret := 1 }, .listing false { ret := 1 }]).flatten

/-- A listing, and a box that is added when it has marked the last record. -/
def boxAdded : List (ListingTurn Unit) :=
  List.replicate 4 (.listing () { ret := 1 }) ++
    .addBox { Box.zero with boxName := .ofBuffer [98] } ::
    List.replicate 9 (.listing () { ret := 1 })

open ListingState in
theorem listed_twoListings : ∃ rs s, Outcome.runList step twoListings
      (start ⟨initial, onlyA⟩ (fun _ => .ofBuffer [112]) fun _ => .zero) = .ok (rs, s) ∧
    (∀ k, (s.listings k).place = .returned) ∧ s.Listed := by
  have hresult : (Outcome.runList step twoListings
      (start ⟨initial, onlyA⟩ (fun _ => .ofBuffer [112]) fun _ => .zero)).map (fun p =>
        decide (∀ k, (p.2.listings k).place = .returned)) = .ok true := by
    decide +kernel
  obtain ⟨⟨rs, s⟩, hrun, hreturned⟩ := Outcome.map_eq_ok.mp hresult
  have hb : ∀ j < onlyA.nBoxes, (onlyA.boxes j).last = 0 := by decide
  exact ⟨rs, s, hrun, of_decide_eq_true hreturned,
    listed_of_permitted (b := ⟨initial, onlyA⟩) hb (by decide +kernel) hrun⟩

open ListingState in
/-- The manager stops at the first of two records, and the mark stays. -/
theorem not_listed_boxAdded : ∃ rs s, Outcome.runList step boxAdded
      (start ⟨initial, onlyA⟩ (fun _ => .ofBuffer [112]) fun _ => .zero) = .ok (rs, s) ∧
    (s.listings ()).place = .returned ∧ (s.sent ()).map Box.last = [1, 0] ∧ s.last 0 = 1 ∧
    ¬ s.Listed := by
  have hresult : (Outcome.runList step boxAdded
      (start ⟨initial, onlyA⟩ (fun _ => .ofBuffer [112]) fun _ => .zero)).map (fun p =>
        ((p.2.listings ()).place, (p.2.sent ()).map Box.last, p.2.nBoxes, p.2.last 0)) =
      .ok (.returned, [1, 0], 2, 1) := by
    decide +kernel
  obtain ⟨⟨rs, s⟩, hrun, hs⟩ := Outcome.map_eq_ok.mp hresult
  simp only [Prod.mk.injEq] at hs
  obtain ⟨hreturned, hsent, hn, hlast⟩ := hs
  refine ⟨rs, s, hrun, hreturned, hsent, hlast, fun hlisted => ?_⟩
  have hno : ∀ k, ¬ (s.listings k).Marked := by
    rintro ⟨⟩ (h | h | h | h) <;> (rw [hreturned] at h; cases h)
  rw [hlisted.reset hno 0 (by omega)] at hlast
  cases hlast

end Mbroker
