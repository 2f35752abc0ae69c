/-
The root directory, as entries in a block of memory.

`DirOk m d n` says that the `n` entries at address `d` form a directory: live
entries hold NUL-terminated names of 1 to 39 bytes, no two the same, and an
entry that is not live but lies before a live one holds the empty name (it was
cleared; entries never used, whose names are whatever the block held before,
come after every entry ever used).

* `find_eq_some`, `find_eq_none` — `find_in_dir` finds the live entry of a name;
* `clear_eq_some` — `clear_dir_entry`, which compares all entries, stops at that
  same entry;
* `DirOk.addEntry`, `DirOk.clearEntry` — both updates keep the directory whole.
-/
import Mbroker.TfsState

namespace Tfs

open Memory SlotTable

variable {m m' : Memory} {d n i k : Nat} {q q' : CString}

/-- The entry is in use. -/
def Live (m : Memory) (d i : Nat) : Prop := dInumber m d i ≠ -1

/-- The name of the entry is `q`. -/
def NameIs (m : Memory) (d i : Nat) (q : CString) : Prop := StringAt m (entryAddr d i) q

structure DirOk (m : Memory) (d n : Nat) : Prop where
  named : ∀ i < n, Live m d i → ∃ q, NameIs m d i q ∧ 1 ≤ q.strlen ∧ q.strlen < maxFileName
  distinct : ∀ i < n, ∀ k < n, ∀ q, Live m d i → Live m d k → NameIs m d i q → NameIs m d k q → i = k
  swept : ∀ k < n, ∀ i < k, Live m d k → ¬ Live m d i → NameIs m d i CString.empty

/-- The memories differ in entry `i` only. -/
def OnlyEntry (m m' : Memory) (d i : Nat) : Prop :=
  ∀ x, x < entryAddr d i ∨ entryAddr d i + sizeofDirEntry ≤ x → m' x = m x

theorem OnlyEntry.agreeOn (h : OnlyEntry m m' d i) (hk : k ≠ i) :
    AgreeOn m m' (entryAddr d k) sizeofDirEntry := by
  intro x hx hx'
  refine h x ?_
  simp only [entryAddr, sizeofDirEntry, maxFileName] at *
  omega

theorem dInumber_congr (h : AgreeOn m m' (entryAddr d i) sizeofDirEntry) :
    dInumber m' d i = dInumber m d i :=
  loadInt_congr fun x hx hx' =>
    h x (by omega) (by simp only [sizeofDirEntry, maxFileName] at *; omega)

theorem live_congr (h : AgreeOn m m' (entryAddr d i) sizeofDirEntry) :
    Live m' d i ↔ Live m d i := by
  rw [Live, Live, dInumber_congr h]

theorem nameIs_congr (h : AgreeOn m m' (entryAddr d i) sizeofDirEntry)
    (hq : q.strlen < maxFileName) : NameIs m' d i q ↔ NameIs m d i q := by
  have hsub : AgreeOn m m' (entryAddr d i) (q.strlen + 1) := fun x hx hx' =>
    h x hx (by simp only [sizeofDirEntry] at *; omega)
  exact ⟨fun hm => (load_congr hsub).symm.trans hm, fun hm => hm.congr hsub⟩

/-- The name of a live entry has at most 39 bytes, so `q` has if it is that name. -/
theorem DirOk.strlen_lt (h : DirOk m d n) (hi : i < n) (hl : Live m d i) (hq : NameIs m d i q) :
    1 ≤ q.strlen ∧ q.strlen < maxFileName := by
  obtain ⟨q', hq', hlen⟩ := h.named i hi hl
  exact hq.unique hq' ▸ hlen

theorem entry_agreeOn (h : AgreeOn m m' d (sizeofDirEntry * n)) (hi : i < n) :
    AgreeOn m m' (entryAddr d i) sizeofDirEntry := by
  intro x hx hx'
  refine h x ?_ ?_ <;> simp only [entryAddr, sizeofDirEntry, maxFileName] at * <;> omega

/-- A live entry whose bytes stay keeps its name. -/
theorem DirOk.name_congr (h : DirOk m d n) (hi : i < n) (hl : Live m d i)
    (hm : AgreeOn m m' (entryAddr d i) sizeofDirEntry) : NameIs m' d i q ↔ NameIs m d i q := by
  obtain ⟨q', hq', -, hlen⟩ := h.named i hi hl
  constructor
  · intro hn
    obtain rfl := hn.unique ((nameIs_congr hm hlen).mpr hq')
    exact hq'
  · intro hn
    obtain rfl := hn.unique hq'
    exact (nameIs_congr hm hlen).mpr hq'

/-- Writes outside the directory's entries keep it whole. -/
theorem DirOk.congr (h : DirOk m d n) (hm : AgreeOn m m' d (sizeofDirEntry * n)) :
    DirOk m' d n where
  named := by
    intro i hi hl
    obtain ⟨q, hq, hlen⟩ := h.named i hi ((live_congr (entry_agreeOn hm hi)).mp hl)
    exact ⟨q, (nameIs_congr (entry_agreeOn hm hi) hlen.2).mpr hq, hlen⟩
  distinct := by
    intro i hi k hk q hli hlk hqi hqk
    have hli' := (live_congr (entry_agreeOn hm hi)).mp hli
    have hlk' := (live_congr (entry_agreeOn hm hk)).mp hlk
    obtain ⟨q', hq', hlen⟩ := h.named i hi hli'
    have hqq : q = q' := hqi.unique ((nameIs_congr (entry_agreeOn hm hi) hlen.2).mpr hq')
    subst hqq
    exact h.distinct i hi k hk q hli' hlk' hq' ((nameIs_congr (entry_agreeOn hm hk) hlen.2).mp hqk)
  swept := by
    intro k hk i hik hlk hli
    have hi : i < n := hik.trans hk
    rw [live_congr (entry_agreeOn hm hk)] at hlk
    rw [live_congr (entry_agreeOn hm hi)] at hli
    exact (nameIs_congr (entry_agreeOn hm hi) (by simp [maxFileName])).mpr
      (h.swept k hk i hik hlk hli)

/-! ### The scans -/

/-- `strncmp` over the 40 bytes of a live entry's name decides equality, for a
name of any length. -/
theorem DirOk.strncmp_eq_zero (h : DirOk m d n) (hi : i < n) (hl : Live m d i) :
    strncmp m (entryAddr d i) q maxFileName = 0 ↔ NameIs m d i q := by
  by_cases hq : q.strlen < maxFileName
  · exact Memory.strncmp_eq_zero hq
  · obtain ⟨q', hq', hlen⟩ := h.named i hi hl
    constructor
    · intro h0
      exact absurd h0 (strncmp_ne_zero hq' hlen.2 (by omega))
    · intro hn
      exact absurd (h.strlen_lt hi hl hn).2 hq

/-- The scan of `find_in_dir`. -/
def findScan (m : Memory) (d : Nat) (q : CString) (i : Nat) : Bool :=
  dInumber m d i != -1 && strncmp m (entryAddr d i) q maxFileName == 0

theorem DirOk.findScan_iff (h : DirOk m d n) (hi : i < n) :
    findScan m d q i ↔ Live m d i ∧ NameIs m d i q := by
  simp only [findScan, Bool.and_eq_true, bne_iff_ne, ne_eq, beq_iff_eq]
  constructor
  · rintro ⟨hl, h0⟩
    exact ⟨hl, (h.strncmp_eq_zero hi hl).mp h0⟩
  · rintro ⟨hl, hq⟩
    exact ⟨hl, (h.strncmp_eq_zero hi hl).mpr hq⟩

theorem DirOk.find_eq_some (h : DirOk m d n) :
    firstFit (findScan m d q) n = some i ↔ i < n ∧ Live m d i ∧ NameIs m d i q := by
  rw [firstFit_eq_some]
  constructor
  · rintro ⟨hi, hf, -⟩
    exact ⟨hi, (h.findScan_iff hi).mp hf⟩
  · rintro ⟨hi, hl, hq⟩
    refine ⟨hi, (h.findScan_iff hi).mpr ⟨hl, hq⟩, fun k hk => ?_⟩
    by_contra hf
    obtain ⟨hlk, hqk⟩ := (h.findScan_iff (hk.trans hi)).mp (by simpa using hf)
    exact absurd (h.distinct k (hk.trans hi) i hi q hlk hl hqk hq) hk.ne

theorem DirOk.find_eq_none (h : DirOk m d n) :
    firstFit (findScan m d q) n = none ↔ ∀ i < n, Live m d i → ¬ NameIs m d i q := by
  rw [firstFit_eq_none]
  constructor
  · intro hf i hi hl hq
    have := (h.findScan_iff hi).mpr ⟨hl, hq⟩
    simp [hf i hi] at this
  · intro hall i hi
    by_contra hf
    obtain ⟨hl, hq⟩ := (h.findScan_iff hi).mp (by simpa using hf)
    exact hall i hi hl hq

/-- **The two scans agree**: the first entry that `strcmp` matches, live or not,
is the live entry of that name. -/
theorem DirOk.clear_eq_some (h : DirOk m d n) (hi : i < n) (hl : Live m d i) (hq : NameIs m d i q) :
    firstFit (fun i => strcmp m (entryAddr d i) q == 0) n = some i := by
  rw [firstFit_eq_some]
  refine ⟨hi, beq_iff_eq.mpr (strcmp_eq_zero.mpr hq), fun k hk => ?_⟩
  by_contra hf
  have hqk : NameIs m d k q := strcmp_eq_zero.mp (beq_iff_eq.mp (by simpa using hf))
  by_cases hlk : Live m d k
  · exact absurd (h.distinct k (hk.trans hi) i hi q hlk hl hqk hq) hk.ne
  · -- A cleared entry before a live one has the empty name, which `q` is not.
    have hempty : q = CString.empty := hqk.unique (h.swept i hi k hk hl hlk)
    have := (h.strlen_lt hi hl hq).1
    simp [hempty] at this

/-! ### The updates -/

/-- The stores of `clear_dir_entry`. -/
def clearEntry (m : Memory) (d i : Nat) : Memory :=
  store (setInumber m d i (-1)) (entryAddr d i) (List.replicate maxFileName 0)

/-- The stores of `add_dir_entry`. -/
def addEntry (m : Memory) (d i : Nat) (q : CString) (v : Int) : Memory :=
  store (store (setInumber m d i v) (entryAddr d i) (strncpyBytes q (maxFileName - 1)))
    (entryAddr d i + (maxFileName - 1)) [0]

theorem onlyEntry_clearEntry : OnlyEntry m (clearEntry m d i) d i := by
  intro x hx
  simp only [sizeofDirEntry, maxFileName] at hx
  rw [clearEntry, store_apply_out (by simp only [List.length_replicate, maxFileName]; omega),
    setInumber, storeInt, store_apply_out (by simp only [length_intBytes, maxFileName]; omega)]

theorem onlyEntry_addEntry {v : Int} : OnlyEntry m (addEntry m d i q v) d i := by
  intro x hx
  simp only [sizeofDirEntry, maxFileName] at hx
  rw [addEntry, store_apply_out (by simp [maxFileName]; omega),
    store_apply_out (by simp only [length_strncpyBytes, maxFileName]; omega),
    setInumber, storeInt, store_apply_out (by simp only [length_intBytes, maxFileName]; omega)]

theorem dInumber_clearEntry : dInumber (clearEntry m d i) d i = -1 := by
  rw [dInumber, clearEntry, loadInt_congr (agreeOn_store (by simp)), setInumber,
    loadInt_storeInt (by omega) (by omega)]

theorem nameIs_clearEntry : NameIs (clearEntry m d i) d i CString.empty :=
  stringAt_store ⟨List.replicate (maxFileName - 1) 0, rfl⟩

theorem dInumber_addEntry {v : Int} (hlo : -2 ^ 31 ≤ v) (hhi : v < 2 ^ 31) :
    dInumber (addEntry m d i q v) d i = v := by
  rw [dInumber, addEntry, loadInt_congr (agreeOn_store (by simp [maxFileName])),
    loadInt_congr (agreeOn_store (by simp [maxFileName])), setInumber, loadInt_storeInt hlo hhi]

theorem nameIs_addEntry {v : Int} (hq : q.strlen < maxFileName) :
    NameIs (addEntry m d i q v) d i q := by
  -- A name of 39 bytes is terminated by the last store, a shorter one by the padding.
  by_cases h39 : q.strlen < maxFileName - 1
  · refine (stringAt_strncpy h39).congr (agreeOn_store ?_)
    exact Or.inl (by omega)
  · have hlen : q.strlen = maxFileName - 1 := by omega
    have hbytes : strncpyBytes q (maxFileName - 1) = q.bytes := by
      rw [strncpyBytes_of_le (by omega), hlen]
      simp
    rw [NameIs, StringAt, load_append, CString.terminated]
    congr 1
    · rw [addEntry, load_store_disjoint (Or.inl (by omega)), hbytes, CString.strlen,
        load_store_same]
    · rw [addEntry, hlen]
      exact load_store_same _ _ [0]

theorem live_addEntry {v : Int} (hlo : 0 ≤ v) (hhi : v < 2 ^ 31) :
    Live (addEntry m d i q v) d i := by
  rw [Live, dInumber_addEntry (by omega) hhi]
  omega

theorem live_of_onlyEntry (h : OnlyEntry m m' d i) (hk : k ≠ i) : Live m' d k ↔ Live m d k :=
  live_congr (h.agreeOn hk)

theorem dInumber_of_onlyEntry (h : OnlyEntry m m' d i) (hk : k ≠ i) :
    dInumber m' d k = dInumber m d k :=
  dInumber_congr (h.agreeOn hk)

theorem nameIs_of_onlyEntry (h : OnlyEntry m m' d i) (hk : k ≠ i) (hq : q.strlen < maxFileName) :
    NameIs m' d k q ↔ NameIs m d k q :=
  nameIs_congr (h.agreeOn hk) hq

/-- Clearing a live entry keeps the directory whole. -/
theorem DirOk.clearEntry (h : DirOk m d n) : DirOk (clearEntry m d i) d n := by
  have hdead : ¬ Live (Tfs.clearEntry m d i) d i := by simp [Live, dInumber_clearEntry]
  have hne : ∀ {k}, Live (Tfs.clearEntry m d i) d k → k ≠ i := fun hl hk => hdead (hk ▸ hl)
  have hold : ∀ {k}, Live (Tfs.clearEntry m d i) d k → Live m d k := fun hl =>
    (live_of_onlyEntry onlyEntry_clearEntry (hne hl)).mp hl
  refine ⟨?_, ?_, ?_⟩
  · intro k hk hl
    obtain ⟨q, hq, hlen⟩ := h.named k hk (hold hl)
    exact ⟨q, (nameIs_of_onlyEntry onlyEntry_clearEntry (hne hl) hlen.2).mpr hq, hlen⟩
  · intro k hk l hl q hlk hll hqk hql
    obtain ⟨q', hq', hlen⟩ := h.named k hk (hold hlk)
    have hqq : q = q' := hqk.unique
      ((nameIs_of_onlyEntry onlyEntry_clearEntry (hne hlk) hlen.2).mpr hq')
    subst hqq
    exact h.distinct k hk l hl q (hold hlk) (hold hll) hq'
      ((nameIs_of_onlyEntry onlyEntry_clearEntry (hne hll) hlen.2).mp hql)
  · intro k hk l hlk hlive hdead'
    by_cases hli : l = i
    · exact hli ▸ nameIs_clearEntry
    · rw [live_of_onlyEntry onlyEntry_clearEntry hli] at hdead'
      exact (nameIs_of_onlyEntry onlyEntry_clearEntry hli (by simp [maxFileName])).mpr
        (h.swept k hk l hlk (hold hlive) hdead')

/-- Filling the first entry that is not live, with a name that no live entry
has, keeps the directory whole. -/
theorem DirOk.addEntry {v : Int} (h : DirOk m d n)
    (hfirst : ∀ k < i, Live m d k) (hlo : 0 ≤ v) (hhi : v < 2 ^ 31)
    (hq1 : 1 ≤ q.strlen) (hq : q.strlen < maxFileName)
    (hnew : ∀ k < n, Live m d k → ¬ NameIs m d k q) :
    DirOk (addEntry m d i q v) d n := by
  have hlive : Live (Tfs.addEntry m d i q v) d i := live_addEntry hlo hhi
  have hname : NameIs (Tfs.addEntry m d i q v) d i q := nameIs_addEntry hq
  have hold : ∀ {k}, k ≠ i → (Live (Tfs.addEntry m d i q v) d k ↔ Live m d k) :=
    live_of_onlyEntry onlyEntry_addEntry
  have hnames : ∀ {k q'}, k ≠ i → q'.strlen < maxFileName →
      (NameIs (Tfs.addEntry m d i q v) d k q' ↔ NameIs m d k q') :=
    nameIs_of_onlyEntry onlyEntry_addEntry
  refine ⟨?_, ?_, ?_⟩
  · intro k hk hl
    by_cases hki : k = i
    · subst hki
      exact ⟨q, hname, hq1, hq⟩
    · obtain ⟨q', hq', hlen⟩ := h.named k hk ((hold hki).mp hl)
      exact ⟨q', (hnames hki hlen.2).mpr hq', hlen⟩
  · -- Two live entries of one name: either both are old, or the name is the new one.
    have hfresh : ∀ k < n, k ≠ i → ∀ q', Live (Tfs.addEntry m d i q v) d k →
        NameIs (Tfs.addEntry m d i q v) d k q' → ¬ NameIs (Tfs.addEntry m d i q v) d i q' := by
      intro k hk hki q' hl hq' hi'
      have hqq : q' = q := hi'.unique hname
      subst hqq
      exact hnew k hk ((hold hki).mp hl) ((hnames hki hq).mp hq')
    intro k hk l hl q' hlk hll hqk hql
    by_cases hki : k = i
    · by_cases hli : l = i
      · rw [hki, hli]
      · subst hki
        exact absurd hqk (hfresh l hl hli q' hll hql)
    · by_cases hli : l = i
      · subst hli
        exact absurd hql (hfresh k hk hki q' hlk hqk)
      · obtain ⟨q'', hq'', hlen⟩ := h.named k hk ((hold hki).mp hlk)
        have hqq : q' = q'' := hqk.unique ((hnames hki hlen.2).mpr hq'')
        subst hqq
        exact h.distinct k hk l hl q' ((hold hki).mp hlk) ((hold hli).mp hll) hq''
          ((hnames hli hlen.2).mp hql)
  · intro k hk l hlk hlivek hdead
    have hli : l ≠ i := by
      rintro rfl
      exact hdead hlive
    rw [hold hli] at hdead
    have hkl : k ≠ i := by
      rintro rfl
      exact hdead (hfirst l hlk)
    exact (hnames hli (by simp [maxFileName])).mpr
      (h.swept k hk l hlk ((hold hkl).mp hlivek) hdead)

/-- A block just initialized is an empty directory, whatever names it holds. -/
theorem dInumber_clearEntries : ∀ {n : Nat}, ∀ i < n, dInumber (clearEntries m d n) d i = -1 := by
  intro n
  induction n with
  | zero => intro i hi; omega
  | succ n ih =>
    intro i hi
    rw [clearEntries, List.range_succ, List.foldl_append, ← clearEntries]
    show dInumber (setInumber (clearEntries m d n) d n (-1)) d i = -1
    by_cases hin : i = n
    · subst hin
      exact loadInt_storeInt (by omega) (by omega)
    · rw [dInumber, setInumber, loadInt_storeInt_disjoint
        (by simp only [entryAddr, sizeofDirEntry, maxFileName]; omega)]
      exact ih i (by omega)

theorem dirOk_clearEntries : DirOk (clearEntries m d n) d n where
  named i hi hl := absurd (dInumber_clearEntries i hi) hl
  distinct i hi _ _ _ hl := absurd (dInumber_clearEntries i hi) hl
  swept k hk _ _ hl := absurd (dInumber_clearEntries k hk) hl

end Tfs
