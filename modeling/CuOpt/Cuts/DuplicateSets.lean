import CuOpt.Cuts.DuplicateScan
import CuOpt.Library.PairedRanks

/-! The sets of candidates that the scan of all later entries leaves, with exact ratios: in a column each
set is split by the ratio of the column's entry to the divisor, and of each part the rows are paired, the
first with the second and the third with the fourth. -/

namespace CuOpt.Cuts

open SparseList PairedRanks List Function Finset
open Nat (lt_succ_self)
open Function (update)
open List (range')

section Rows

variable {tolerance : ℚ} {rows : List (List (ℕ × ℚ))} {n : ℕ}

def passEntry (tolerance : ℚ) (newSet0 : ℕ) (e : ℕ × ℚ) (later : List (ℕ × ℚ)) (st : ColumnState) :
    ColumnState :=
  if st.stopped then st
  else if st.sets e.1 = 0 then
    { st with
      r0 := e.1
      sets := update st.sets e.1 newSet0
      divisors := update st.divisors e.1 e.2
      newRows := st.newRows + 1 }
  else if st.sets e.1 < newSet0 then
    match later.find? fun e' =>
      decide (st.sets e'.1 = st.sets e.1) && sameRatio tolerance st.divisors e e' with
    | some e' =>
      { st with
        sets := update (update st.sets e.1 st.newSet) e'.1 st.newSet
        newSet := st.newSet + 1 }
    | none =>
      { st with
        sets := update st.sets e.1 ⊤
        remaining := st.remaining - 1
        stopped := decide (st.remaining - 1 = 0) }
  else st

def passEntries (tolerance : ℚ) (newSet0 : ℕ) : List (ℕ × ℚ) → ColumnState → ColumnState
  | [], st => st
  | e :: later, st =>
    passEntries tolerance newSet0 later (passEntry tolerance newSet0 e later st)

lemma refineEntry_plain {last newSet0 p : ℕ} {e : ℕ × ℚ} {later : List (ℕ × ℚ)}
    (hentry : (cscEntries rows n).getD p (0, 0) = e)
    (hlater : (range' (p + 1) (last - p - 1)).map (fun q => (cscEntries rows n).getD q (0, 0)) =
      later) (st : ColumnState) :
    refineEntry plainScan tolerance rows n last newSet0 st p =
      passEntry tolerance newSet0 e later st := by
  subst hentry
  generalize he : (cscEntries rows n).getD p (0, 0) = e
  rw [refineEntry, passEntry]
  simp only [he]
  have hfind : (((plainScan.entriesAfter last
        (fun q => st.sets ((cscEntries rows n).getD q (0, 0)).1) (st.sets e.1) p).map
        fun q => (cscEntries rows n).getD q (0, 0)).find? fun e' =>
          decide (st.sets e'.1 = st.sets e.1) && sameRatio tolerance st.divisors e e') =
      later.find? fun e' =>
        decide (st.sets e'.1 = st.sets e.1) && sameRatio tolerance st.divisors e e' := by
    rw [← hlater, plainScan, find?_map, find?_map, find?_filter]
    congr 2
    funext q
    simp only [comp_apply]
    rw [Bool.eq_iff_iff]
    simp only [Bool.and_eq_true, decide_eq_true_eq]
    exact ⟨fun h => h.2, fun h => ⟨h.1, h⟩⟩
  rewrite [hfind]
  rfl

lemma foldl_refineEntry_plain {newSet0 : ℕ} (l : List (ℕ × ℚ)) {first last : ℕ}
    (hlen : last = first + l.length)
    (hl : (range' first l.length).map (fun q => (cscEntries rows n).getD q (0, 0)) = l)
    (st : ColumnState) :
    (range' first l.length).foldl (refineEntry plainScan tolerance rows n last newSet0) st =
      passEntries tolerance newSet0 l st := by
  induction l generalizing first st with
  | nil => rfl
  | cons e later ih =>
    rw [length_cons, range'_succ, List.map_cons, List.cons.injEq] at hl
    rw [length_cons] at hlen
    have hsub : last - first - 1 = later.length := by omega
    have hstep : refineEntry plainScan tolerance rows n last newSet0 st first =
        passEntry tolerance newSet0 e later st :=
      refineEntry_plain hl.1 (hsub ▸ hl.2) st
    rw [length_cons, range'_succ, foldl_cons, hstep, passEntries]
    exact ih (by omega) hl.2 _

lemma cscEntries_add (j : ℕ) : cscEntries rows (j + 1) = cscEntries rows j ++ cscColumn rows j := by
  rw [cscEntries, range_succ, flatMap_append, flatMap_singleton, ← cscEntries]

lemma colStart_succ (j : ℕ) : colStart rows (j + 1) = colStart rows j + (cscColumn rows j).length := by
  rw [colStart, cscEntries_add, length_append, ← colStart]

lemma map_range_colStart {j : ℕ} (hj : j < n) :
    (range' (colStart rows j) (cscColumn rows j).length).map
      (fun q => (cscEntries rows n).getD q (0, 0)) = cscColumn rows j := by
  have hsplit : ∃ rest, cscEntries rows n = cscEntries rows j ++ (cscColumn rows j ++ rest) := by
    obtain ⟨d, rfl⟩ := Nat.exists_eq_add_of_lt hj
    refine ⟨(range' (j + 1) d).flatMap (cscColumn rows), ?_⟩
    rw [← append_assoc, ← cscEntries_add, cscEntries, cscEntries, ← flatMap_append]
    congr 1
    rw [range_eq_range', range_eq_range', add_right_comm j d 1]
    have happend : range' 0 (j + 1) ++ range' (0 + (j + 1)) d =
        range' 0 (j + 1 + d) := range'_append_1
    rw [zero_add] at happend
    exact happend.symm
  obtain ⟨rest, hrest⟩ := hsplit
  apply ext_getElem (by simp)
  intro i hi hi'
  rw [getElem_map, getElem_range', one_mul, hrest, colStart,
    getD_append_right _ _ _ _ (Nat.le_add_right _ _), Nat.add_sub_cancel_left,
    getD_append _ _ _ _ hi', getD_eq_getElem _ _ hi']

def entryOf (rows : List (List (ℕ × ℚ))) (j r : ℕ) : ℚ := coeff (rows.getD r []) j

def entriesFrom (a : ℕ → ℚ) (k d : ℕ) : List (ℕ × ℚ) :=
  (range' k d).filterMap fun r => if a r = 0 then none else some (r, a r)

lemma filter_key {row : List (ℕ × ℚ)} (hrow : (keys row).Nodup) (hne : ∀ q ∈ row, q.2 ≠ 0) (j : ℕ) :
    (row.filter fun q => decide (q.1 = j)) = if coeff row j = 0 then [] else [(j, coeff row j)] := by
  induction row with
  | nil => rfl
  | cons q row ih =>
    obtain ⟨hq, hnodup⟩ := nodup_cons.mp hrow
    have hrest := ih hnodup fun p hp => hne p (List.mem_cons_of_mem q hp)
    rw [List.filter_cons, coeff_cons]
    rcases eq_or_ne q.1 j with rfl | hj
    · rw [coeff_eq_zero hq] at hrest ⊢
      rw [hrest, if_pos rfl, if_pos rfl, add_zero, if_neg (hne q List.mem_cons_self)]
      simp
    · rw [if_neg hj, zero_add, hrest, if_neg (by simpa using hj)]

lemma cscColumn_eq (hnodup : ∀ row ∈ rows, (keys row).Nodup)
    (hne : ∀ row ∈ rows, ∀ q ∈ row, q.2 ≠ 0) (j : ℕ) :
    cscColumn rows j = entriesFrom (entryOf rows j) 0 rows.length := by
  have hzip : rows.zipIdx = (range' 0 rows.length).map fun r => (rows.getD r [], r) := by
    apply ext_getElem (by simp)
    intro i hi hi'
    have hlt : i < rows.length := by simpa using hi
    rw [getElem_zipIdx, getElem_map, getElem_range', getD_eq_getElem _ _ (by omega)]
    simp
  rw [cscColumn, hzip, flatMap_map, entriesFrom, filterMap_eq_flatMap_toList]
  apply flatMap_congr
  intro r hr
  have hlt : r < rows.length := by
    have hrange := mem_range'_1.mp hr
    omega
  have hmem : rows.getD r [] ∈ rows := by
    rw [getD_eq_getElem _ _ hlt]
    exact getElem_mem hlt
  dsimp only
  rw [filter_key (hnodup _ hmem) (hne _ hmem), entryOf]
  split_ifs
  · rfl
  · rfl

def passRow (tolerance : ℚ) (newSet0 m : ℕ) (a : ℕ → ℚ) (st : ColumnState) (r : ℕ) : ColumnState :=
  if a r = 0 then st
  else passEntry tolerance newSet0 (r, a r) (entriesFrom a (r + 1) (m - (r + 1))) st

lemma passEntries_eq_foldl (newSet0 m : ℕ) (a : ℕ → ℚ) {k : ℕ} (hk : k ≤ m) (st : ColumnState) :
    passEntries tolerance newSet0 (entriesFrom a k (m - k)) st =
      (range' k (m - k)).foldl (passRow tolerance newSet0 m a) st := by
  induction hd : m - k generalizing k st with
  | zero => rfl
  | succ d ih =>
    have hd' : m - (k + 1) = d := by omega
    have hcons : entriesFrom a k (d + 1) =
        if a k = 0 then entriesFrom a (k + 1) d else (k, a k) :: entriesFrom a (k + 1) d := by
      rw [entriesFrom, range'_succ, filterMap_cons]
      split_ifs with hzero
      · rfl
      · rfl
    rw [hcons, range'_succ, foldl_cons, ← ih (by omega) _ hd']
    split_ifs with hzero
    · rw [passRow, if_pos hzero]
    · rw [passEntries, passRow, if_neg hzero, hd']

lemma find_entriesFrom (a : ℕ → ℚ) (b : ℕ × ℚ → Bool) (k d : ℕ) :
    (∀ e, (entriesFrom a k d).find? b = some e → ∃ r, e = (r, a r) ∧ k ≤ r ∧ r < k + d ∧ a r ≠ 0 ∧
        b (r, a r) = true ∧ ∀ i, k ≤ i → i < r → a i ≠ 0 → b (i, a i) = false) ∧
      ((entriesFrom a k d).find? b = none →
        ∀ r, k ≤ r → r < k + d → a r ≠ 0 → b (r, a r) = false) := by
  induction d generalizing k with
  | zero => exact ⟨fun e h => absurd h (by simp [entriesFrom]), fun _ r hr hlt => absurd hlt (by omega)⟩
  | succ d ih =>
    have hcons : entriesFrom a k (d + 1) =
        if a k = 0 then entriesFrom a (k + 1) d else (k, a k) :: entriesFrom a (k + 1) d := by
      rw [entriesFrom, range'_succ, filterMap_cons]
      split_ifs with hzero
      · rfl
      · rfl
    obtain ⟨hsome, hnone⟩ := ih (k + 1)
    rw [hcons]
    by_cases hskip : a k = 0 ∨ b (k, a k) = false
    · have hfind : (if a k = 0 then entriesFrom a (k + 1) d
          else (k, a k) :: entriesFrom a (k + 1) d).find? b = (entriesFrom a (k + 1) d).find? b := by
        split_ifs with hzero
        · rfl
        · rw [find?_cons_of_neg (by simp [hskip.resolve_left hzero])]
      have hk : a k ≠ 0 → b (k, a k) = false := fun hne => hskip.resolve_left hne
      rw [hfind]
      refine ⟨fun e he => ?_, fun h r hr hlt hne => ?_⟩
      · obtain ⟨r, hre, hr, hlt, hne, hb, hbefore⟩ := hsome e he
        refine ⟨r, hre, by omega, by omega, hne, hb, fun i hi hir hi0 => ?_⟩
        rcases hi.eq_or_lt with rfl | hki
        · exact hk hi0
        · exact hbefore i hki hir hi0
      · rcases hr.eq_or_lt with rfl | hkr
        · exact hk hne
        · exact hnone h r hkr (by omega) hne
    · rw [not_or, Bool.not_eq_false] at hskip
      rw [if_neg hskip.1, find?_cons_of_pos hskip.2]
      refine ⟨fun e he => ?_, fun h => absurd h (by simp)⟩
      refine ⟨k, (Option.some.inj he).symm, le_rfl, by omega, hskip.1, hskip.2, fun i hi hik => ?_⟩
      exact absurd hik (by omega)

end Rows

section Column

variable (m F : ℕ) (a d : ℕ → ℚ) (S : ℕ → SetId)

/-- The part of its set that a row of the column is in: the rows of the set with its ratio. -/
def partOf (r : ℕ) : Option (SetId × ℚ) :=
  if r < m ∧ a r ≠ 0 ∧ S r ≠ 0 ∧ S r ≠ ⊤ then some (S r, a r / d r) else none

def IsNew (r : ℕ) : Prop := r < m ∧ a r ≠ 0 ∧ S r = 0

instance : DecidablePred (IsNew m a S) := fun _ => inferInstanceAs (Decidable (_ ∧ _ ∧ _))

def liveRows (sets : ℕ → SetId) : Finset ℕ := (Finset.range m).filter fun r => sets r ≠ ⊤

structure Passed (k : ℕ) (st : ColumnState) : Prop where
  outside : ∀ r, ¬(r < m ∧ a r ≠ 0) → st.sets r = S r
  sentinel : ∀ r, S r = ⊤ → st.sets r = ⊤
  fresh : ∀ r, IsNew m a S r → st.sets r = if r < k then (F : SetId) else 0
  unopened : ∀ r, partOf m a d S r ≠ none → ¬Opened (partOf m a d S) k r → st.sets r = S r
  opened : ∀ r, partOf m a d S r ≠ none → Opened (partOf m a d S) k r →
    (F : SetId) < st.sets r ∧ (st.sets r = ⊤ ∨ st.sets r < st.newSet)
  pair : ∀ r i, partOf m a d S r ≠ none → partOf m a d S i ≠ none →
    Opened (partOf m a d S) k r → Opened (partOf m a d S) k i → r ≠ i →
    ((st.sets r = st.sets i ∧ st.sets r ≠ ⊤) ↔ partOf m a d S r = partOf m a d S i ∧
      rank (partOf m a d S) r / 2 = rank (partOf m a d S) i / 2)
  divisors : ∀ r, st.divisors r = if IsNew m a S r ∧ r < k then a r else d r
  newSet : F < st.newSet
  newRows : st.newRows = Nat.count (IsNew m a S) k
  r0 : st.newRows ≠ 0 → IsNew m a S st.r0 ∧ st.r0 < k
  remaining : st.remaining = (liveRows m st.sets).card
  stopped : st.stopped = true → ∀ r < m, st.sets r = ⊤

structure Starts : Prop where
  below : ∀ r, S r = ⊤ ∨ S r < F
  divisor : ∀ r < m, S r ≠ 0 → d r ≠ 0

variable {m F a d S} {k r i : ℕ} {st : ColumnState}

lemma partOf_ne_none : partOf m a d S r ≠ none ↔ r < m ∧ a r ≠ 0 ∧ S r ≠ 0 ∧ S r ≠ ⊤ := by
  rw [partOf]
  split_ifs with h
  · simp [h]
  · simp [h]

lemma partOf_eq (hr : partOf m a d S r ≠ none) (hi : partOf m a d S i ≠ none) :
    partOf m a d S r = partOf m a d S i ↔ S r = S i ∧ a r / d r = a i / d i := by
  rw [partOf, partOf, if_pos (partOf_ne_none.mp hr), if_pos (partOf_ne_none.mp hi), Option.some.injEq,
    Prod.mk.injEq]

/-- A later row is a partner exactly when it is in the same part. -/
lemma Passed.partner_iff (h : Passed m F a d S k st) (hs : Starts m F d S)
    (hk : partOf m a d S k ≠ none) (hsets : st.sets k = S k)
    (heven : rank (partOf m a d S) k % 2 = 0) (hi : i < m) (hki : k < i) (hne : a i ≠ 0) :
    (decide (st.sets i = st.sets k) && sameRatio 0 st.divisors (k, a k) (i, a i)) = true ↔
      partOf m a d S i = partOf m a d S k := by
  obtain ⟨hkm, hak, hk0, hktop⟩ := partOf_ne_none.mp hk
  have hkF : S k < F := (hs.below k).resolve_left hktop
  have hdk : d k ≠ 0 := hs.divisor k hkm hk0
  have hdivisor : ∀ r, S r ≠ 0 → st.divisors r = d r := by
    intro r hr
    rw [h.divisors r, if_neg]
    rintro ⟨hnew, -⟩
    exact hr hnew.2.2
  have hratio : S i ≠ 0 → S i ≠ ⊤ →
      (sameRatio 0 st.divisors (k, a k) (i, a i) = true ↔ a i / d i = a k / d k) := by
    intro hi0 hitop
    have hdi : d i ≠ 0 := hs.divisor i hi hi0
    rw [sameRatio]
    dsimp only
    rw [hdivisor k hk0, hdivisor i hi0, sub_zero, add_zero, Bool.and_eq_true, decide_eq_true_eq,
      decide_eq_true_eq, ← ge_antisymm_iff, div_mul_div_comm, div_eq_one_iff_eq (mul_ne_zero hdk hne),
      div_eq_div_iff hdi hdk]
    constructor
    · intro heq
      linarith
    · intro heq
      linarith
  rw [Bool.and_eq_true, decide_eq_true_eq, hsets]
  constructor
  · rintro ⟨hsame, hval⟩
    have hi0 : S i ≠ 0 := by
      intro hzero
      have hfresh := h.fresh i ⟨hi, hne, hzero⟩
      rw [hsame] at hfresh
      split_ifs at hfresh
      · exact hkF.ne hfresh
      · exact hk0 hfresh
    have hitop : S i ≠ ⊤ := by
      intro htop
      exact hktop (hsame ▸ h.sentinel i htop)
    have hipart : partOf m a d S i ≠ none := partOf_ne_none.mpr ⟨hi, hne, hi0, hitop⟩
    have hunopened : ¬Opened (partOf m a d S) k i := by
      intro hopen
      have hlt := (h.opened i hipart hopen).1
      rw [hsame] at hlt
      exact absurd hkF hlt.asymm
    rw [partOf_eq hipart hk, ← h.unopened i hipart hunopened]
    exact ⟨hsame, (hratio hi0 hitop).mp hval⟩
  · intro hpart
    have hipart : partOf m a d S i ≠ none := hpart.symm ▸ hk
    obtain ⟨-, -, hi0, hitop⟩ := partOf_ne_none.mp hipart
    obtain ⟨hS, hval⟩ := (partOf_eq hipart hk).mp hpart
    refine ⟨?_, (hratio hi0 hitop).mpr hval⟩
    rw [h.unopened i hipart (not_opened_of_lt hpart hki heven), hS]

lemma liveRows_update {sets : ℕ → SetId} {v : SetId} (hr : sets r ≠ ⊤) (hv : v ≠ ⊤) :
    liveRows m (update sets r v) = liveRows m sets := by
  apply Finset.filter_congr
  intro j _
  rcases eq_or_ne j r with rfl | hne
  · rw [update_self]
    exact iff_of_true hv hr
  · rw [update_of_ne hne]

lemma card_liveRows_update_top {sets : ℕ → SetId} (hm : r < m) (hr : sets r ≠ ⊤) :
    ((liveRows m (update sets r ⊤)).card : ℤ) = (liveRows m sets).card - 1 := by
  have herase : liveRows m (update sets r ⊤) = (liveRows m sets).erase r := by
    ext j
    rw [mem_erase, liveRows, liveRows, Finset.mem_filter, Finset.mem_filter]
    rcases eq_or_ne j r with rfl | hne
    · simp
    · rw [update_of_ne hne]
      simp [hne]
  have hmem : r ∈ liveRows m sets := Finset.mem_filter.mpr ⟨Finset.mem_range.mpr hm, hr⟩
  rw [herase, card_erase_of_mem hmem, Nat.cast_sub (card_pos.mpr ⟨r, hmem⟩)]
  rfl

lemma top_of_liveRows_eq_zero {sets : ℕ → SetId} (h : ((liveRows m sets).card : ℤ) = 0) :
    ∀ r < m, sets r = ⊤ := by
  intro r hr
  by_contra hne
  have hmem : r ∈ liveRows m sets := Finset.mem_filter.mpr ⟨Finset.mem_range.mpr hr, hne⟩
  have hzero : (liveRows m sets).card = 0 := by exact_mod_cast h
  rw [card_eq_zero.mp hzero] at hmem
  exact absurd hmem (notMem_empty r)

section

variable (h : Passed m F a d S k st)
include h

lemma Passed.skip (hnew : ¬IsNew m a S k) (hopen : ∀ r, partOf m a d S r ≠ none →
      (Opened (partOf m a d S) (k + 1) r ↔ Opened (partOf m a d S) k r)) :
    Passed m F a d S (k + 1) st := by
  have hlt : ∀ r, IsNew m a S r → (r < k + 1 ↔ r < k) := by
    intro r hr
    have hne : r ≠ k := fun heq => hnew (heq ▸ hr)
    omega
  constructor
  case outside => exact h.outside
  case sentinel => exact h.sentinel
  case fresh =>
    intro r hr
    rw [h.fresh r hr]
    simp only [hlt r hr]
  case unopened => exact fun r hr hnot => h.unopened r hr fun ho => hnot ((hopen r hr).mpr ho)
  case opened => exact fun r hr ho => h.opened r hr ((hopen r hr).mp ho)
  case pair =>
    exact fun r i hr hi hro hio => h.pair r i hr hi ((hopen r hr).mp hro) ((hopen i hi).mp hio)
  case divisors =>
    intro r
    have hiff : (IsNew m a S r ∧ r < k + 1) ↔ (IsNew m a S r ∧ r < k) :=
      and_congr_right fun hr => hlt r hr
    rw [h.divisors r]
    simp only [hiff]
  case newSet => exact h.newSet
  case newRows => rw [h.newRows, Nat.count_succ, if_neg hnew, add_zero]
  case r0 => exact fun hne => ⟨(h.r0 hne).1, (h.r0 hne).2.trans (lt_succ_self k)⟩
  case remaining => exact h.remaining
  case stopped => exact h.stopped

lemma Passed.first (hnew : IsNew m a S k) :
    Passed m F a d S (k + 1)
      { st with
        r0 := k
        sets := update st.sets k F
        divisors := update st.divisors k (a k)
        newRows := st.newRows + 1 } := by
  have hnone : partOf m a d S k = none := by
    by_contra hne
    exact (partOf_ne_none.mp hne).2.2.1 hnew.2.2
  have hopen : ∀ r, partOf m a d S r ≠ none →
      (Opened (partOf m a d S) (k + 1) r ↔ Opened (partOf m a d S) k r) := by
    intro r hr
    exact opened_succ_of_ne (hnone ▸ hr.symm)
  have hneK : ∀ r, partOf m a d S r ≠ none → r ≠ k := fun r hr heq => hr (heq ▸ hnone)
  have hsets : st.sets k = 0 := by rw [h.fresh k hnew, if_neg (lt_irrefl k)]
  constructor
  case outside =>
    intro r hr
    have hne : r ≠ k := fun heq => hr (heq ▸ ⟨hnew.1, hnew.2.1⟩)
    dsimp only
    rw [update_of_ne hne]
    exact h.outside r hr
  case sentinel =>
    intro r hr
    have hne : r ≠ k := by
      rintro rfl
      rw [hnew.2.2] at hr
      exact absurd hr WithTop.zero_ne_top
    dsimp only
    rw [update_of_ne hne]
    exact h.sentinel r hr
  case fresh =>
    intro r hr
    dsimp only
    rcases eq_or_ne r k with rfl | hne
    · rw [update_self, if_pos (lt_succ_self r)]
    · rw [update_of_ne hne, h.fresh r hr]
      have hlt : r < k + 1 ↔ r < k := by omega
      simp only [hlt]
  case unopened =>
    intro r hr hnot
    dsimp only
    rw [update_of_ne (hneK r hr)]
    exact h.unopened r hr fun ho => hnot ((hopen r hr).mpr ho)
  case opened =>
    intro r hr ho
    dsimp only
    rw [update_of_ne (hneK r hr)]
    exact h.opened r hr ((hopen r hr).mp ho)
  case pair =>
    intro r i hr hi hro hio
    dsimp only
    rw [update_of_ne (hneK r hr), update_of_ne (hneK i hi)]
    exact h.pair r i hr hi ((hopen r hr).mp hro) ((hopen i hi).mp hio)
  case divisors =>
    intro r
    dsimp only
    rcases eq_or_ne r k with rfl | hne
    · rw [update_self, if_pos ⟨hnew, lt_succ_self r⟩]
    · rw [update_of_ne hne, h.divisors r]
      have hlt : r < k + 1 ↔ r < k := by omega
      simp only [hlt]
  case newSet => exact h.newSet
  case newRows =>
    dsimp only
    rw [h.newRows, Nat.count_succ, if_pos hnew]
  case r0 => exact fun _ => ⟨hnew, lt_succ_self k⟩
  case remaining =>
    dsimp only
    have hlive : st.sets k ≠ ⊤ := hsets.symm ▸ WithTop.zero_ne_top
    have hF : (F : SetId) ≠ ⊤ := WithTop.coe_ne_top
    rw [liveRows_update hlive hF]
    exact h.remaining
  case stopped =>
    intro hstopped
    have htop := h.stopped hstopped k hnew.1
    rw [hsets] at htop
    exact absurd htop WithTop.zero_ne_top

/-- What a row and its partner, when it has one, change: their sets are now `v`. -/
lemma Passed.moved {st' : ColumnState} (hk : partOf m a d S k ≠ none) (pair : ℕ → Prop)
    (v : SetId) (hpair : ∀ r, pair r → partOf m a d S r = partOf m a d S k)
    (hopen : ∀ r, partOf m a d S r = partOf m a d S k →
      (Opened (partOf m a d S) (k + 1) r ↔ Opened (partOf m a d S) k r ∨ pair r))
    (hrank : ∀ r, partOf m a d S r = partOf m a d S k →
      (pair r ↔ rank (partOf m a d S) r / 2 = rank (partOf m a d S) k / 2))
    (halone : v = ⊤ → ∀ r i, pair r → pair i → r = i)
    (hv : (F : SetId) < v ∧ (v = ⊤ ∨ v < st'.newSet)) (hfar : v = ⊤ ∨ (st.newSet : SetId) ≤ v)
    (hnext : st.newSet ≤ st'.newSet)
    (hsets : ∀ r, (pair r → st'.sets r = v) ∧ (¬pair r → st'.sets r = st.sets r))
    (hdivisors : st'.divisors = st.divisors) (hnewRows : st'.newRows = st.newRows)
    (hr0 : st'.r0 = st.r0) (hremaining : st'.remaining = (liveRows m st'.sets).card)
    (hstopped : st'.stopped = true → ∀ r < m, st'.sets r = ⊤) : Passed m F a d S (k + 1) st' := by
  have hpart : ∀ r, partOf m a d S r = none → ¬pair r := fun r hr hp => hk ((hpair r hp).symm.trans hr)
  have hkeep : ∀ r, partOf m a d S r = none → st'.sets r = st.sets r :=
    fun r hr => (hsets r).2 (hpart r hr)
  have hopened : ∀ r, (Opened (partOf m a d S) (k + 1) r ↔ Opened (partOf m a d S) k r ∨ pair r) := by
    intro r
    by_cases hsame : partOf m a d S r = partOf m a d S k
    · exact hopen r hsame
    · rw [opened_succ_of_ne (Ne.symm hsame), or_iff_left fun hp => hsame (hpair r hp)]
  have hnew : ∀ r, IsNew m a S r → partOf m a d S r = none := by
    intro r hr
    by_contra hne
    exact (partOf_ne_none.mp hne).2.2.1 hr.2.2
  have hnewK : ¬IsNew m a S k := fun hkn => hk (hnew k hkn)
  have hlt : ∀ r, IsNew m a S r → (r < k + 1 ↔ r < k) := by
    intro r hr
    have hne : r ≠ k := fun heq => hnewK (heq ▸ hr)
    omega
  have hapart : ∀ r i, pair r → ¬pair i → partOf m a d S i ≠ none → Opened (partOf m a d S) k i →
      ((st'.sets r = st'.sets i ∧ st'.sets r ≠ ⊤) ↔ partOf m a d S r = partOf m a d S i ∧
        rank (partOf m a d S) r / 2 = rank (partOf m a d S) i / 2) := by
    intro r i hr hi hine hio
    rw [(hsets r).1 hr, (hsets i).2 hi]
    constructor
    · rintro ⟨hsame, htop⟩
      rcases (h.opened i hine hio).2 with hitop | hilt
      · exact absurd (hsame.trans hitop) htop
      · rw [← hsame] at hilt
        exact absurd hilt (not_lt.mpr (hfar.resolve_left htop))
    · rintro ⟨hsame, hranks⟩
      have hik : partOf m a d S i = partOf m a d S k := hsame.symm.trans (hpair r hr)
      exact absurd ((hrank i hik).mpr (hranks.symm.trans ((hrank r (hpair r hr)).mp hr))) hi
  constructor
  case outside =>
    intro r hr
    have hnone : partOf m a d S r = none := by
      by_contra hne
      exact hr ⟨(partOf_ne_none.mp hne).1, (partOf_ne_none.mp hne).2.1⟩
    rw [hkeep r hnone]
    exact h.outside r hr
  case sentinel =>
    intro r hr
    have hnone : partOf m a d S r = none := by
      by_contra hne
      exact (partOf_ne_none.mp hne).2.2.2 hr
    rw [hkeep r hnone]
    exact h.sentinel r hr
  case fresh =>
    intro r hr
    rw [hkeep r (hnew r hr), h.fresh r hr]
    simp only [hlt r hr]
  case unopened =>
    intro r hr hnot
    rw [hopened, not_or] at hnot
    rw [(hsets r).2 hnot.2]
    exact h.unopened r hr hnot.1
  case opened =>
    intro r hr ho
    by_cases hp : pair r
    · rw [(hsets r).1 hp]
      exact hv
    · rw [(hsets r).2 hp]
      obtain ⟨hF, hbelow⟩ := h.opened r hr (((hopened r).mp ho).resolve_right hp)
      exact ⟨hF, hbelow.imp_right fun hlt => hlt.trans_le (WithTop.coe_le_coe.mpr hnext)⟩
  case pair =>
    intro r i hr hi hro hio hne
    rw [hopened] at hro hio
    by_cases hpr : pair r
    · by_cases hpi : pair i
      · have htop : v ≠ ⊤ := fun htop => hne (halone htop r i hpr hpi)
        rw [(hsets r).1 hpr, (hsets i).1 hpi]
        refine iff_of_true ⟨rfl, htop⟩ ⟨(hpair r hpr).trans (hpair i hpi).symm, ?_⟩
        exact ((hrank r (hpair r hpr)).mp hpr).trans ((hrank i (hpair i hpi)).mp hpi).symm
      · exact hapart r i hpr hpi hi (hio.resolve_right hpi)
    · by_cases hpi : pair i
      · have hsymm := hapart i r hpi hpr hr (hro.resolve_right hpr)
        constructor
        · rintro ⟨hsame, htop⟩
          obtain ⟨hpart', hranks⟩ := hsymm.mp ⟨hsame.symm, hsame ▸ htop⟩
          exact ⟨hpart'.symm, hranks.symm⟩
        · rintro ⟨hpart', hranks⟩
          obtain ⟨hsame, htop⟩ := hsymm.mpr ⟨hpart'.symm, hranks.symm⟩
          exact ⟨hsame.symm, hsame ▸ htop⟩
      · rw [(hsets r).2 hpr, (hsets i).2 hpi]
        exact h.pair r i hr hi (hro.resolve_right hpr) (hio.resolve_right hpi) hne
  case divisors =>
    intro r
    have hiff : (IsNew m a S r ∧ r < k + 1) ↔ (IsNew m a S r ∧ r < k) :=
      and_congr_right fun hr => hlt r hr
    rw [hdivisors, h.divisors r]
    simp only [hiff]
  case newSet => exact h.newSet.trans_le hnext
  case newRows => rw [hnewRows, h.newRows, Nat.count_succ, if_neg hnewK, add_zero]
  case r0 =>
    rw [hnewRows, hr0]
    exact fun hne => ⟨(h.r0 hne).1, (h.r0 hne).2.trans (lt_succ_self k)⟩
  case remaining => exact hremaining
  case stopped => exact hstopped

lemma Passed.passRow (hs : Starts m F d S) (hk : k < m) :
    Passed m F a d S (k + 1) (passRow 0 F m a st k) := by
  rw [CuOpt.Cuts.passRow]
  by_cases hak : a k = 0
  · rw [if_pos hak]
    have hnone : partOf m a d S k = none := by
      by_contra hne
      exact (partOf_ne_none.mp hne).2.1 hak
    exact h.skip (fun hnew => hnew.2.1 hak) fun r hr => opened_succ_of_ne (hnone ▸ hr.symm)
  rw [if_neg hak]
  by_cases hnew : S k = 0
  · -- the row's first entry
    have hsets : st.sets k = 0 := by rw [h.fresh k ⟨hk, hak, hnew⟩, if_neg (lt_irrefl k)]
    have hlive : ¬st.stopped = true := by
      intro hstopped
      have htop := h.stopped hstopped k hk
      rw [hsets] at htop
      exact absurd htop WithTop.zero_ne_top
    rw [passEntry, if_neg hlive, if_pos hsets]
    exact h.first ⟨hk, hak, hnew⟩
  by_cases htop : S k = ⊤
  · -- a row without a duplicate
    have hsets : st.sets k = ⊤ := h.sentinel k htop
    have hnone : partOf m a d S k = none := by
      by_contra hne
      exact (partOf_ne_none.mp hne).2.2.2 htop
    have hsame : passEntry 0 F (k, a k) (entriesFrom a (k + 1) (m - (k + 1))) st = st := by
      rw [passEntry]
      dsimp only
      rw [hsets, if_neg WithTop.top_ne_zero, if_neg (not_lt.mpr le_top), ite_self]
    rw [hsame]
    exact h.skip (fun hkn => hnew hkn.2.2) fun r hr => opened_succ_of_ne (hnone ▸ hr.symm)
  have hpart : partOf m a d S k ≠ none := partOf_ne_none.mpr ⟨hk, hak, hnew, htop⟩
  have hkF : S k < F := (hs.below k).resolve_left htop
  rcases Nat.mod_two_eq_zero_or_one (rank (partOf m a d S) k) with heven | hodd
  · -- the first of its pair
    have hunopened : ¬Opened (partOf m a d S) k k := by
      rw [opened_self_iff]
      omega
    have hsets : st.sets k = S k := h.unopened k hpart hunopened
    have hlive : st.sets k ≠ ⊤ := hsets.symm ▸ htop
    have hrunning : ¬st.stopped = true := fun hstopped => hlive (h.stopped hstopped k hk)
    rw [passEntry, if_neg hrunning]
    dsimp only
    rw [if_neg (hsets.symm ▸ hnew), if_pos (hsets.symm ▸ hkF)]
    have hpartner : ∀ i, k + 1 ≤ i → i < k + 1 + (m - (k + 1)) → a i ≠ 0 →
        ((decide (st.sets i = st.sets k) && sameRatio 0 st.divisors (k, a k) (i, a i)) = true ↔
          partOf m a d S i = partOf m a d S k) :=
      fun i hi hlt hne => h.partner_iff hs hpart hsets heven (by omega) hi hne
    have hmember : ∀ i, partOf m a d S i = partOf m a d S k → i < m ∧ a i ≠ 0 :=
      fun i hi => ⟨(partOf_ne_none.mp (hi ▸ hpart)).1, (partOf_ne_none.mp (hi ▸ hpart)).2.1⟩
    obtain ⟨hsome, hnone⟩ := find_entriesFrom a
      (fun e => decide (st.sets e.1 = st.sets k) && sameRatio 0 st.divisors (k, a k) e) (k + 1)
      (m - (k + 1))
    split
    case h_1 e he =>
      obtain ⟨i, rfl, hki, hlt, hne, hb, hbefore⟩ := hsome e he
      have hi : partOf m a d S i = partOf m a d S k := (hpartner i hki hlt hne).mp hb
      have hnext : rank (partOf m a d S) i = rank (partOf m a d S) k + 1 := by
        refine rank_next hi hki fun r hkr hri hr => ?_
        obtain ⟨hrm, hr0⟩ := hmember r hr
        have hfalse := hbefore r hkr hri hr0
        rw [(hpartner r hkr (by omega) hr0).mpr hr] at hfalse
        exact absurd hfalse (by decide)
      have hilive : st.sets i ≠ ⊤ := by
        have hsame : st.sets i = st.sets k := of_decide_eq_true (Bool.and_eq_true_iff.mp hb).1
        rw [hsame]
        exact hlive
      have hnew' : (st.newSet : SetId) ≠ ⊤ := WithTop.coe_ne_top
      refine h.moved hpart (fun r => r = k ∨ r = i) st.newSet ?_ (fun r hr => ?_) (fun r hr => ?_)
        (fun htop => absurd htop hnew') ⟨WithTop.coe_lt_coe.mpr h.newSet, .inr ?_⟩ (.inr le_rfl)
        (Nat.le_succ _) (fun r => ⟨?_, fun hr => ?_⟩) rfl rfl rfl ?_ fun hstopped => ?_
      · rintro r (rfl | rfl)
        · rfl
        · exact hi
      · exact opened_succ_of_next hr heven hi hnext
      · constructor
        · rintro (rfl | rfl)
          · rfl
          · omega
        · intro hranks
          rcases eq_of_pair hr heven hranks with heq | heq
          · exact .inl heq
          · exact .inr (rank_injective (hr.trans hi.symm) (heq.trans hnext.symm))
      · exact WithTop.coe_lt_coe.mpr (lt_succ_self _)
      · rintro (rfl | rfl)
        · dsimp only
          rw [update_of_ne (by omega), update_self]
        · exact update_self _ _ _
      · rw [not_or] at hr
        dsimp only
        rw [update_of_ne hr.2, update_of_ne hr.1]
      · dsimp only
        have hilive' : update st.sets k (st.newSet : SetId) i ≠ ⊤ := by
          rw [update_of_ne (by omega)]
          exact hilive
        rw [liveRows_update hilive' hnew', liveRows_update hlive hnew']
        exact h.remaining
      · exact absurd hstopped hrunning
    case h_2 he =>
      have hlast : ∀ i, k < i → partOf m a d S i ≠ partOf m a d S k := by
        intro i hki hi
        obtain ⟨him, hi0⟩ := hmember i hi
        have hfalse := hnone he i hki (by omega) hi0
        rw [(hpartner i hki (by omega) hi0).mpr hi] at hfalse
        exact absurd hfalse (by decide)
      have hremaining : st.remaining - 1 = (liveRows m (update st.sets k ⊤)).card := by
        rw [card_liveRows_update_top hk hlive, h.remaining]
      refine h.moved hpart (fun r => r = k) ⊤ ?_ (fun r hr => opened_succ_of_last hr heven hlast)
        (fun r hr => ⟨?_, fun hranks => ?_⟩) (fun _ r i hr hi => hr.trans hi.symm)
        ⟨WithTop.coe_lt_top F, .inl rfl⟩ (.inl rfl) le_rfl (fun r => ⟨?_, fun hr => ?_⟩) rfl rfl rfl
        hremaining fun hstopped => ?_
      · rintro r rfl
        rfl
      · rintro rfl
        rfl
      · rcases eq_of_pair hr heven hranks with heq | heq
        · exact heq
        · rcases lt_trichotomy r k with hlt | heq' | hlt
          · have hlt' := rank_lt hr hlt
            omega
          · exact heq'
          · exact absurd hr (hlast r hlt)
      · rintro rfl
        exact update_self _ _ _
      · exact update_of_ne hr _ _
      · refine top_of_liveRows_eq_zero ?_
        rw [← hremaining]
        exact of_decide_eq_true hstopped
  · -- the second of its pair, which the first has moved
    have hopened : Opened (partOf m a d S) k k := opened_self_iff.mpr hodd
    have hmoved := (h.opened k hpart hopened).1
    have hne0 : st.sets k ≠ 0 := by
      intro hzero
      rw [hzero] at hmoved
      exact absurd hmoved (not_lt.mpr bot_le)
    have hsame : passEntry 0 F (k, a k) (entriesFrom a (k + 1) (m - (k + 1))) st = st := by
      rw [passEntry]
      dsimp only
      rw [if_neg hne0, if_neg (not_lt.mpr hmoved.le), ite_self]
    rw [hsame]
    refine h.skip (fun hkn => hnew hkn.2.2) fun r _ => ?_
    by_cases hr : partOf m a d S r = partOf m a d S k
    · exact opened_succ_of_odd hr hodd
    · exact opened_succ_of_ne (Ne.symm hr)

end

lemma Passed.start {st : RefineState} (hremaining : st.remaining = (liveRows m st.sets).card) :
    Passed m st.newSet a st.divisors st.sets 0
      ⟨{ st with newSet := st.newSet + 1 }, 0, 0, false⟩ where
  outside _ _ := rfl
  sentinel _ h := h
  fresh _ hr := hr.2.2
  unopened _ _ _ := rfl
  opened _ _ ho := absurd ho (Nat.not_lt_zero _)
  pair _ _ _ _ ho := absurd ho (Nat.not_lt_zero _)
  divisors r := (if_neg fun h => Nat.not_lt_zero r h.2).symm
  newSet := lt_succ_self _
  newRows := rfl
  r0 h := absurd rfl h
  remaining := hremaining
  stopped h := absurd h Bool.false_ne_true

lemma Passed.foldl (hs : Starts m F d S) {st : ColumnState} (h : Passed m F a d S 0 st) :
    Passed m F a d S m ((range' 0 m).foldl (CuOpt.Cuts.passRow 0 F m a) st) := by
  have hrun : ∀ k ≤ m, Passed m F a d S k
      ((range' 0 k).foldl (CuOpt.Cuts.passRow 0 F m a) st) := by
    intro k
    induction k with
    | zero => exact fun _ => h
    | succ k ih =>
      intro hk
      rw [range'_1_concat, foldl_concat, zero_add]
      exact (ih (by omega)).passRow hs hk
  exact hrun m le_rfl

lemma Passed.le_sets (h : Passed m F a d S m st) (hr : r < m) (hne : a r ≠ 0) :
    (F : SetId) ≤ st.sets r := by
  by_cases hzero : S r = 0
  · rw [h.fresh r ⟨hr, hne, hzero⟩, if_pos hr]
  · by_cases htop : S r = ⊤
    · rw [h.sentinel r htop]
      exact le_top
    · exact (h.opened r (partOf_ne_none.mpr ⟨hr, hne, hzero, htop⟩) (opened_of_lt hr)).1.le

lemma Passed.eq_of_sets (h : Passed m F a d S m st) (hs : Starts m F d S) (hr : r < m)
    (hsets : st.sets r = F) : IsNew m a S r := by
  have hF : (F : SetId) ≠ ⊤ := WithTop.coe_ne_top
  by_contra hnew
  by_cases hne : a r = 0
  · rw [h.outside r fun hand => hand.2 hne] at hsets
    rcases hs.below r with htop | hlt
    · exact hF (hsets.symm.trans htop)
    · exact hlt.ne hsets
  · have hzero : S r ≠ 0 := fun hzero => hnew ⟨hr, hne, hzero⟩
    by_cases htop : S r = ⊤
    · exact hF (hsets.symm.trans (h.sentinel r htop))
    · have hlt := (h.opened r (partOf_ne_none.mpr ⟨hr, hne, hzero, htop⟩) (opened_of_lt hr)).1
      exact hlt.ne' hsets

end Column

end CuOpt.Cuts
