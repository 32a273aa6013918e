import CuOpt.Cuts.DuplicateSets

/-! After all columns two cuts are in one set of candidates exactly when their left-hand sides are
proportional and, if they have two entries, they are a pair among the cuts with the same first two columns
and the same ratio there. -/

namespace CuOpt.Cuts

open SparseList PairedRanks List
open Nat (le_succ lt_succ_self)

def Proportional (A : ℕ → ℕ → ℚ) (j r i : ℕ) : Prop := ∃ t, t ≠ 0 ∧ ∀ c < j, A c r = t * A c i

def HasTwo (A : ℕ → ℕ → ℚ) (j r : ℕ) : Prop := ∃ c c', c < c' ∧ c' < j ∧ A c r ≠ 0 ∧ A c' r ≠ 0

def firstTwo (A : ℕ → ℕ → ℚ) (n r : ℕ) : Option (ℕ × ℕ × ℚ) :=
  match (range n).filter fun c => decide (A c r ≠ 0) with
  | c :: c' :: _ => some (c, c', A c' r / A c r)
  | _ => none

variable {A : ℕ → ℕ → ℚ} {m n j r i : ℕ}

variable {c c' : ℕ}

lemma firstTwo_eq_some (hcc : c < c') (hn : c' < n) (hc : A c r ≠ 0) (hc' : A c' r ≠ 0)
    (hzero : ∀ x < c', x ≠ c → A x r = 0) : firstTwo A n r = some (c, c', A c' r / A c r) := by
  have hsplit : range n = range' 0 c ++ c :: (range' (c + 1) (c' - (c + 1)) ++
      c' :: range' (c' + 1) (n - (c' + 1))) := by
    rw [range_eq_range', ← range'_succ]
    have hone : (c' - (c + 1)) + (n - (c' + 1) + 1) = n - (c + 1) := by omega
    have htwo : range' (c + 1) (c' - (c + 1)) ++ range' c' (n - (c' + 1) + 1) =
        range' (c + 1) (n - (c + 1)) := by
      have happend : range' (c + 1) (c' - (c + 1)) ++
          range' (c + 1 + (c' - (c + 1))) (n - (c' + 1) + 1) =
          range' (c + 1) (c' - (c + 1) + (n - (c' + 1) + 1)) := range'_append_1
      rwa [show c + 1 + (c' - (c + 1)) = c' by omega, hone] at happend
    rw [htwo, ← range'_succ]
    have happend : range' 0 c ++ range' (0 + c) (n - (c + 1) + 1) =
        range' 0 (c + (n - (c + 1) + 1)) := range'_append_1
    rw [zero_add, show c + (n - (c + 1) + 1) = n by omega] at happend
    exact happend.symm
  have hnil : ∀ k d, (∀ x, k ≤ x → x < k + d → A x r = 0) →
      ((range' k d).filter fun c => decide (A c r ≠ 0)) = [] := by
    intro k d hall
    rw [filter_eq_nil_iff]
    intro x hx
    have hrange := mem_range'_1.mp hx
    simpa using hall x hrange.1 hrange.2
  rw [firstTwo, hsplit, filter_append, filter_cons_of_pos (by simpa using hc),
    filter_append, filter_cons_of_pos (by simpa using hc'),
    hnil 0 c fun x _ hx => hzero x (by omega) (by omega),
    hnil (c + 1) _ fun x hx hx' => hzero x (by omega) (by omega)]
  rfl

lemma firstTwo_spec {q : ℚ} (h : firstTwo A n r = some (c, c', q)) :
    c < c' ∧ c' < n ∧ A c r ≠ 0 ∧ A c' r ≠ 0 ∧ (∀ x < c', x ≠ c → A x r = 0) ∧
      q = A c' r / A c r := by
  rw [firstTwo] at h
  have hsorted : ((range n).filter fun c => decide (A c r ≠ 0)).Pairwise (· < ·) :=
    List.Pairwise.filter _ pairwise_lt_range
  have hmem : ∀ x, x ∈ (range n).filter (fun c => decide (A c r ≠ 0)) ↔ x < n ∧ A x r ≠ 0 := by
    intro x
    rw [mem_filter, mem_range, decide_eq_true_eq]
  generalize (range n).filter (fun c => decide (A c r ≠ 0)) = l at h hsorted hmem
  match l with
  | [] => cases h
  | [_] => cases h
  | x :: x' :: l =>
    obtain ⟨rfl, rfl, rfl⟩ : x = c ∧ x' = c' ∧ A x' r / A x r = q := by simpa using h
    rw [pairwise_cons, pairwise_cons] at hsorted
    have hlt := hsorted.1 x' mem_cons_self
    have hx := (hmem x).mp mem_cons_self
    have hx' := (hmem x').mp (mem_cons_of_mem _ mem_cons_self)
    refine ⟨hlt, hx'.1, hx.2, hx'.2, fun y hy hne => ?_, rfl⟩
    by_contra hy0
    rcases mem_cons.mp ((hmem y).mpr ⟨hy.trans hx'.1, hy0⟩) with rfl | hy'
    · exact hne rfl
    · rcases mem_cons.mp hy' with rfl | hy'
      · exact lt_irrefl y hy
      · exact absurd (hsorted.2.1 y hy') hy.asymm

/-- The pair that a row falls into among the rows with its first two columns and their ratio. -/
def slot (A : ℕ → ℕ → ℚ) (n r : ℕ) : ℕ := rank (firstTwo A n) r / 2

lemma Proportional.mono {j' : ℕ} (h : Proportional A j' r i) (hj : j ≤ j') :
    Proportional A j r i := by
  obtain ⟨t, ht, hall⟩ := h
  exact ⟨t, ht, fun c hc => hall c (hc.trans_le hj)⟩

lemma Proportional.ne_zero_iff (h : Proportional A j r i) (hc : c < j) :
    A c r ≠ 0 ↔ A c i ≠ 0 := by
  obtain ⟨t, ht, hall⟩ := h
  rw [hall c hc, mul_ne_zero_iff_left ht]

lemma Proportional.hasTwo_iff (h : Proportional A j r i) : HasTwo A j r ↔ HasTwo A j i := by
  constructor
  · rintro ⟨c, c', hcc, hc', hne, hne'⟩
    exact ⟨c, c', hcc, hc', (h.ne_zero_iff (hcc.trans hc')).mp hne, (h.ne_zero_iff hc').mp hne'⟩
  · rintro ⟨c, c', hcc, hc', hne, hne'⟩
    exact ⟨c, c', hcc, hc', (h.ne_zero_iff (hcc.trans hc')).mpr hne, (h.ne_zero_iff hc').mpr hne'⟩

lemma HasTwo.mono {j' : ℕ} (h : HasTwo A j r) (hj : j ≤ j') : HasTwo A j' r := by
  obtain ⟨c, c', hcc, hc', hne, hne'⟩ := h
  exact ⟨c, c', hcc, hc'.trans_le hj, hne, hne'⟩

lemma HasTwo.exists_first (h : HasTwo A j r) : ∃ c c', c < c' ∧ c' < j ∧ A c r ≠ 0 ∧ A c' r ≠ 0 ∧
    ∀ x < c', x ≠ c → A x r = 0 := by
  obtain ⟨b, b', hbb, hb', hne, hne'⟩ := h
  have hex : ∃ c, A c r ≠ 0 := ⟨b, hne⟩
  classical
  generalize hc : Nat.find hex = c
  have hcne : A c r ≠ 0 := hc ▸ Nat.find_spec hex
  have hbefore : ∀ x < c, A x r = 0 := fun x hx => not_not.mp (Nat.find_min hex (hc ▸ hx))
  have hcb : c ≤ b := by
    by_contra hlt
    exact hne (hbefore b (not_le.mp hlt))
  have hex' : ∃ c', c < c' ∧ A c' r ≠ 0 := ⟨b', hcb.trans_lt hbb, hne'⟩
  have hspec := Nat.find_spec hex'
  refine ⟨c, Nat.find hex', hspec.1, (Nat.find_min' hex' ⟨hcb.trans_lt hbb, hne'⟩).trans_lt hb', hcne,
    hspec.2, fun x hx hxc => ?_⟩
  by_contra hx0
  rcases lt_or_gt_of_ne hxc with hlt | hgt
  · exact hx0 (hbefore x hlt)
  · exact Nat.find_min hex' hx ⟨hgt, hx0⟩

lemma firstTwo_eq_of_proportional (h : Proportional A j r i) (htwo : HasTwo A j r) (hj : j ≤ n) :
    firstTwo A n r = firstTwo A n i := by
  obtain ⟨c, c', hcc, hc', hne, hne', hzero⟩ := htwo.exists_first
  obtain ⟨t, ht, hall⟩ := h
  have hi : ∀ x < j, A x r = 0 ↔ A x i = 0 := by
    intro x hx
    rw [hall x hx, mul_eq_zero_iff_left ht]
  have hcj := hcc.trans hc'
  rw [firstTwo_eq_some hcc (hc'.trans_le hj) hne hne' hzero,
    firstTwo_eq_some hcc (hc'.trans_le hj) (fun h0 => hne ((hi c hcj).mpr h0))
      (fun h0 => hne' ((hi c' hc').mpr h0)) fun x hx hxc => (hi x (hx.trans hc')).mp (hzero x hx hxc),
    hall c hcj, hall c' hc', mul_div_mul_left _ _ ht]

lemma firstTwo_eq_iff (hcj : c < j) (hn : j < n) (hc : A c r ≠ 0) (hj : A j r ≠ 0)
    (hzero : ∀ x < j, x ≠ c → A x r = 0) :
    firstTwo A n i = firstTwo A n r ↔ Proportional A (j + 1) i r := by
  rw [firstTwo_eq_some hcj hn hc hj hzero]
  constructor
  · intro h
    obtain ⟨-, -, hci, hji, hzero', hratio⟩ := firstTwo_spec h
    refine ⟨A c i / A c r, div_ne_zero hci hc, fun x hx => ?_⟩
    rcases Nat.lt_succ_iff_lt_or_eq.mp hx with hlt | rfl
    · rcases eq_or_ne x c with rfl | hne
      · rw [div_mul_cancel₀ _ hc]
      · rw [hzero x hlt hne, hzero' x hlt hne, mul_zero]
    · rw [div_eq_div_iff hc hci] at hratio
      rw [div_mul_eq_mul_div, eq_div_iff hc]
      linarith
  · rintro ⟨t, ht, hall⟩
    have hcr := hall c (hcj.trans (lt_succ_self j))
    have hjr := hall j (lt_succ_self j)
    rw [firstTwo_eq_some hcj hn (hcr ▸ mul_ne_zero ht hc) (hjr ▸ mul_ne_zero ht hj) fun x hx hne => ?_,
      hcr, hjr, mul_div_mul_left _ _ ht]
    rw [hall x (hx.trans (lt_succ_self j)), hzero x hx hne, mul_zero]

lemma Proportional.refl (A : ℕ → ℕ → ℚ) (j r : ℕ) : Proportional A j r r :=
  ⟨1, one_ne_zero, fun c _ => (one_mul (A c r)).symm⟩

lemma Proportional.succ_of_zero (h : Proportional A j r i) (hr : A j r = 0) (hi : A j i = 0) :
    Proportional A (j + 1) r i := by
  obtain ⟨t, ht, hall⟩ := h
  refine ⟨t, ht, fun c hc => ?_⟩
  rcases Nat.lt_succ_iff_lt_or_eq.mp hc with hlt | rfl
  · exact hall c hlt
  · rw [hr, hi, mul_zero]

lemma Proportional.first_eq (h : Proportional A j r i) (hcj : c < j) (hc : A c r ≠ 0)
    (hbefore : ∀ x < c, A x r = 0) (hcj' : c' < j) (hc' : A c' i ≠ 0)
    (hbefore' : ∀ x < c', A x i = 0) : c = c' := by
  rcases lt_trichotomy c c' with hlt | heq | hlt
  · exact absurd (hbefore' c hlt) ((h.ne_zero_iff hcj).mp hc)
  · exact heq
  · exact absurd (hbefore c' hlt) ((h.ne_zero_iff hcj').mpr hc')

lemma HasTwo.of_succ (h : HasTwo A (j + 1) r) (hr : A j r = 0) : HasTwo A j r := by
  obtain ⟨c, c', hcc, hc', hne, hne'⟩ := h
  have hc'j : c' ≠ j := by
    rintro rfl
    exact hne' hr
  exact ⟨c, c', hcc, by omega, hne, hne'⟩

structure Refined (A : ℕ → ℕ → ℚ) (m n j : ℕ) (st : RefineState) : Prop where
  newSet : 0 < st.newSet
  below : ∀ r, st.sets r = ⊤ ∨ st.sets r < st.newSet
  zero : ∀ r < m, st.sets r = 0 ↔ ∀ c < j, A c r = 0
  divisor : ∀ r < m, st.sets r ≠ 0 →
    ∃ c < j, A c r ≠ 0 ∧ (∀ c' < c, A c' r = 0) ∧ st.divisors r = A c r
  same : ∀ r < m, ∀ i < m, r ≠ i → ((st.sets r = st.sets i ∧ st.sets r ≠ 0 ∧ st.sets r ≠ ⊤) ↔
    st.sets r ≠ 0 ∧ Proportional A j r i ∧ (HasTwo A j r → slot A n r = slot A n i))
  remaining : st.remaining = (liveRows m st.sets).card

variable {st : RefineState}

lemma Passed.newRows_ne_one {F : ℕ} {a d : ℕ → ℚ} {S : ℕ → SetId} {st : ColumnState}
    (p : Passed m F a d S m st) (hr : IsNew m a S r) (hi : IsNew m a S i) (hne : r ≠ i) :
    st.newRows ≠ 1 := by
  rw [p.newRows, Nat.count_eq_card_filter_range]
  apply ne_of_gt
  rw [Finset.one_lt_card]
  exact ⟨r, Finset.mem_filter.mpr ⟨Finset.mem_range.mpr hr.1, hr⟩, i,
    Finset.mem_filter.mpr ⟨Finset.mem_range.mpr hi.1, hi⟩, hne⟩

variable (h : Refined A m n j st)

section

include h

lemma Refined.starts : Starts m st.newSet st.divisors st.sets := by
  refine ⟨h.below, fun r hr hne => ?_⟩
  obtain ⟨c, -, hc, -, hd⟩ := h.divisor r hr hne
  rw [hd]
  exact hc

/-- The rows of a part are those of a set whose entries are still proportional with the column. -/
lemma Refined.partOf_eq_iff (hr : partOf m (A j) st.divisors st.sets r ≠ none)
    (hi : partOf m (A j) st.divisors st.sets i ≠ none) :
    partOf m (A j) st.divisors st.sets r = partOf m (A j) st.divisors st.sets i ↔
      Proportional A (j + 1) r i ∧ (HasTwo A j r → slot A n r = slot A n i) := by
  rcases eq_or_ne r i with rfl | hne
  · exact iff_of_true rfl ⟨Proportional.refl A (j + 1) r, fun _ => rfl⟩
  obtain ⟨hrm, har, hr0, hrtop⟩ := partOf_ne_none.mp hr
  obtain ⟨him, hai, hi0, -⟩ := partOf_ne_none.mp hi
  obtain ⟨c, hcj, hc, hcbefore, hdr⟩ := h.divisor r hrm hr0
  obtain ⟨c', hcj', hc', hcbefore', hdi⟩ := h.divisor i him hi0
  rw [partOf_eq hr hi]
  constructor
  · rintro ⟨hsame, hratio⟩
    obtain ⟨-, ⟨t, ht, hall⟩, hslot⟩ := (h.same r hrm i him hne).mp ⟨hsame, hr0, hrtop⟩
    refine ⟨⟨t, ht, fun x hx => ?_⟩, hslot⟩
    rcases Nat.lt_succ_iff_lt_or_eq.mp hx with hlt | rfl
    · exact hall x hlt
    · have hcc : c = c' :=
        Proportional.first_eq ⟨t, ht, hall⟩ hcj hc hcbefore hcj' hc' hcbefore'
      subst hcc
      rw [hdr, hdi, hall c hcj, div_eq_div_iff (mul_ne_zero ht hc') hc'] at hratio
      apply mul_right_cancel₀ hc'
      rw [hratio]
      ring
  · rintro ⟨hprop, hslot⟩
    refine ⟨((h.same r hrm i him hne).mpr ⟨hr0, hprop.mono (le_succ j), hslot⟩).1, ?_⟩
    have hcc : c = c' := hprop.first_eq (by omega) hc hcbefore (by omega) hc' hcbefore'
    subst hcc
    obtain ⟨t, ht, hall⟩ := hprop
    rw [hdr, hdi, hall c (by omega), hall j (lt_succ_self j), mul_div_mul_left _ _ ht]

/-- Before its second entry the rows of a part are those with the same first two columns. -/
lemma Refined.partOf_eq_iff_firstTwo (hout : ∀ k, m ≤ k → ∀ c, A c k = 0) (hjn : j < n)
    (hr : partOf m (A j) st.divisors st.sets r ≠ none) (htwo : ¬HasTwo A j r) (k : ℕ) :
    partOf m (A j) st.divisors st.sets k = partOf m (A j) st.divisors st.sets r ↔
      firstTwo A n k = firstTwo A n r := by
  obtain ⟨hrm, har, hr0, -⟩ := partOf_ne_none.mp hr
  obtain ⟨c, hcj, hc, -, -⟩ := h.divisor r hrm hr0
  have hzero : ∀ x < j, x ≠ c → A x r = 0 := by
    intro x hx hxc
    by_contra hx0
    rcases lt_or_gt_of_ne hxc with hlt | hgt
    · exact htwo ⟨x, c, hlt, hcj, hx0, hc⟩
    · exact htwo ⟨c, x, hgt, hx, hc, hx0⟩
  rw [firstTwo_eq_iff hcj hjn hc har hzero]
  constructor
  · intro hk
    exact ((h.partOf_eq_iff (hk ▸ hr) hr).mp hk).1
  · intro hk
    have hktwo : ¬HasTwo A j k := fun hktwo => htwo ((hk.mono (le_succ j)).hasTwo_iff.mp hktwo)
    rcases eq_or_ne k r with rfl | hkr
    · rfl
    have hak : A j k ≠ 0 := (hk.ne_zero_iff (lt_succ_self j)).mpr har
    have hck : A c k ≠ 0 := (hk.ne_zero_iff (hcj.trans (lt_succ_self j))).mpr hc
    have hkm : k < m := by
      by_contra hge
      exact hak (hout k (not_lt.mp hge) j)
    have hk0 : st.sets k ≠ 0 := fun hk0 => hck ((h.zero k hkm).mp hk0 c hcj)
    have hktop : st.sets k ≠ ⊤ := ((h.same k hkm r hrm hkr).mpr
      ⟨hk0, hk.mono (le_succ j), fun h2 => absurd h2 hktwo⟩).2.2
    have hkpart : partOf m (A j) st.divisors st.sets k ≠ none :=
      partOf_ne_none.mpr ⟨hkm, hak, hk0, hktop⟩
    exact (h.partOf_eq_iff hkpart hr).mpr ⟨hk, fun h2 => absurd h2 hktwo⟩

/-- The pairs of a part are those of the rows with the same first two columns. -/
lemma Refined.pair_iff (hout : ∀ k, m ≤ k → ∀ c, A c k = 0) (hjn : j < n)
    (hr : partOf m (A j) st.divisors st.sets r ≠ none) (hne : r ≠ i)
    (hpart : partOf m (A j) st.divisors st.sets r = partOf m (A j) st.divisors st.sets i) :
    rank (partOf m (A j) st.divisors st.sets) r / 2 = rank (partOf m (A j) st.divisors st.sets) i / 2 ↔
      slot A n r = slot A n i := by
  have hi : partOf m (A j) st.divisors st.sets i ≠ none := hpart ▸ hr
  obtain ⟨hprop, hslot⟩ := (h.partOf_eq_iff hr hi).mp hpart
  by_cases htwo : HasTwo A j r
  · -- only one partner was left in the set
    have hfirst : ∀ k, partOf m (A j) st.divisors st.sets k = partOf m (A j) st.divisors st.sets r →
        k = r ∨ k = i := by
      intro k hk
      have hk0 : partOf m (A j) st.divisors st.sets k ≠ none := hk ▸ hr
      obtain ⟨hkprop, hkslot⟩ := (h.partOf_eq_iff hk0 hr).mp hk
      have hktwo : HasTwo A j k := (hkprop.mono (le_succ j)).hasTwo_iff.mpr htwo
      have hkr : firstTwo A n k = firstTwo A n r :=
        firstTwo_eq_of_proportional (hkprop.mono (le_succ j)) hktwo hjn.le
      have hri : firstTwo A n r = firstTwo A n i :=
        firstTwo_eq_of_proportional (hprop.mono (le_succ j)) htwo hjn.le
      exact eq_or_eq_of_pair hkr.symm (hkr.trans hri).symm (hkslot hktwo).symm
        ((hkslot hktwo).trans (hslot htwo)).symm hne
    have hrank : rank (partOf m (A j) st.divisors st.sets) r / 2 = 0 := rank_div_two_eq_zero hfirst
    have hrank' : rank (partOf m (A j) st.divisors st.sets) i / 2 = 0 :=
      rank_div_two_eq_zero fun k hk => (hfirst k (hk.trans hpart.symm)).symm
    exact iff_of_true (hrank.trans hrank'.symm) (hslot htwo)
  · -- the column has the second entry of the rows
    have hitwo : ¬HasTwo A j i := fun h2 => htwo ((hprop.mono (le_succ j)).hasTwo_iff.mpr h2)
    rw [slot, slot, rank_congr (h.partOf_eq_iff_firstTwo hout hjn hr htwo),
      rank_congr (h.partOf_eq_iff_firstTwo hout hjn hi hitwo)]

end

/-- A column is passed, and the set of its new rows is closed when it has one row. -/
structure Closes (A : ℕ → ℕ → ℚ) (m j : ℕ) (st : RefineState) (column : ColumnState)
    (st' : RefineState) : Prop where
  passed : Passed m st.newSet (A j) st.divisors st.sets m column
  sets : ∀ r, st'.sets r = if column.newRows = 1 ∧ r = column.r0 then ⊤ else column.sets r
  divisors : st'.divisors = column.divisors
  newSet : st'.newSet = column.newSet
  remaining : st'.remaining = (liveRows m st'.sets).card

variable {st' : RefineState} {column : ColumnState} (p : Closes A m j st column st')

section

include p

lemma Closes.keep (hr : ¬IsNew m (A j) st.sets r) : st'.sets r = column.sets r := by
  rw [p.sets, if_neg]
  rintro ⟨hone, rfl⟩
  exact hr (p.passed.r0 (by omega)).1

lemma Closes.fresh (hr : IsNew m (A j) st.sets r) : st'.sets r = st.newSet ∨ st'.sets r = ⊤ := by
  rw [p.sets]
  split_ifs
  · exact .inr rfl
  · rw [p.passed.fresh r hr, if_pos hr.1]
    exact .inl rfl

lemma Closes.old (hr : A j r = 0) : st'.sets r = st.sets r := by
  rw [p.keep fun hn => hn.2.1 hr]
  exact p.passed.outside r fun hand => hand.2 hr

lemma Closes.le (hr : r < m) (hne : A j r ≠ 0) : (st.newSet : SetId) ≤ st'.sets r := by
  rw [p.sets]
  split_ifs
  · exact le_top
  · exact p.passed.le_sets hr hne

include h

lemma Closes.below (r : ℕ) : st'.sets r = ⊤ ∨ st'.sets r < st'.newSet := by
  rw [p.newSet]
  have hF : (st.newSet : SetId) < column.newSet := WithTop.coe_lt_coe.mpr p.passed.newSet
  by_cases hn : IsNew m (A j) st.sets r
  · rcases p.fresh hn with heq | heq
    · exact .inr (heq ▸ hF)
    · exact .inl heq
  rw [p.keep hn]
  by_cases hpart : partOf m (A j) st.divisors st.sets r = none
  · by_cases htop : st.sets r = ⊤
    · exact .inl (p.passed.sentinel r htop)
    rw [p.passed.outside r fun hand => ?_]
    · exact (h.below r).imp_right fun hlt => hlt.trans hF
    have hzero : st.sets r = 0 := by
      by_contra hne
      exact absurd hpart (partOf_ne_none.mpr ⟨hand.1, hand.2, hne, htop⟩)
    exact hn ⟨hand.1, hand.2, hzero⟩
  · exact (p.passed.opened r hpart (opened_of_lt (partOf_ne_none.mp hpart).1)).2

lemma Closes.sets_ne_zero (hr : r < m) (hne : A j r ≠ 0) : st'.sets r ≠ 0 := by
  have hpos : (0 : SetId) < st.newSet := WithTop.coe_lt_coe.mpr h.newSet
  exact (hpos.trans_le (p.le hr hne)).ne'

/-- A row without an entry in the column stays in an older set than one that has an entry. -/
lemma Closes.ne_of_zero (hr : A j r = 0) (hi : i < m) (hne : A j i ≠ 0) (htop : st'.sets r ≠ ⊤) :
    st'.sets r ≠ st'.sets i := by
  intro heq
  have hlt := (h.below r).resolve_left (p.old hr ▸ htop)
  rw [← p.old hr, heq] at hlt
  exact absurd (p.le hi hne) (not_le.mpr hlt)

lemma Closes.ne_of_new (hr : IsNew m (A j) st.sets r) (hi : i < m) (hni : ¬IsNew m (A j) st.sets i)
    (htop : st'.sets r ≠ ⊤) : st'.sets r ≠ st'.sets i := by
  intro heq
  rw [(p.fresh hr).resolve_right htop, p.keep hni] at heq
  exact hni (p.passed.eq_of_sets h.starts hi heq.symm)

lemma Closes.same_of_new (hr : IsNew m (A j) st.sets r) (hi : IsNew m (A j) st.sets i) (hne : r ≠ i) :
    (st'.sets r = st'.sets i ∧ st'.sets r ≠ 0 ∧ st'.sets r ≠ ⊤) ↔
      st'.sets r ≠ 0 ∧ Proportional A (j + 1) r i ∧
        (HasTwo A (j + 1) r → slot A n r = slot A n i) := by
  have hr' := p.sets_ne_zero h hr.1 hr.2.1
  have hF : ∀ k, IsNew m (A j) st.sets k → st'.sets k = st.newSet := by
    intro k hk
    rw [p.sets, if_neg fun hand => p.passed.newRows_ne_one hr hi hne hand.1, p.passed.fresh k hk,
      if_pos hk.1]
  refine iff_of_true ⟨(hF r hr).trans (hF i hi).symm, hr', hF r hr ▸ WithTop.coe_ne_top⟩ ⟨hr', ?_, ?_⟩
  · refine ⟨A j r / A j i, div_ne_zero hr.2.1 hi.2.1, fun c hc => ?_⟩
    rcases Nat.lt_succ_iff_lt_or_eq.mp hc with hlt | rfl
    · rw [(h.zero r hr.1).mp hr.2.2 c hlt, (h.zero i hi.1).mp hi.2.2 c hlt, mul_zero]
    · rw [div_mul_cancel₀ _ hi.2.1]
  · rintro ⟨c, c', hcc, hc', hc, -⟩
    exact absurd ((h.zero r hr.1).mp hr.2.2 c (by omega)) hc

lemma Closes.same_of_old (hout : ∀ k, m ≤ k → ∀ c, A c k = 0) (hjn : j < n) (hr : r < m) (hi : i < m)
    (har : A j r ≠ 0) (hai : A j i ≠ 0) (hr0 : st.sets r ≠ 0) (hi0 : st.sets i ≠ 0) (hne : r ≠ i) :
    (st'.sets r = st'.sets i ∧ st'.sets r ≠ 0 ∧ st'.sets r ≠ ⊤) ↔
      st'.sets r ≠ 0 ∧ Proportional A (j + 1) r i ∧
        (HasTwo A (j + 1) r → slot A n r = slot A n i) := by
  have hr' := p.sets_ne_zero h hr har
  rw [p.keep fun hn => hr0 hn.2.2] at hr' ⊢
  rw [p.keep fun hn => hi0 hn.2.2]
  by_cases htop : st.sets r = ⊤ ∨ st.sets i = ⊤
  · refine iff_of_false ?_ ?_
    · rintro ⟨heq, -, hne'⟩
      rcases htop with htop | htop
      · exact hne' (p.passed.sentinel r htop)
      · exact hne' (heq.trans (p.passed.sentinel i htop))
    · rintro ⟨-, hprop, hslot⟩
      obtain ⟨heq, -, hne'⟩ := (h.same r hr i hi hne).mpr
        ⟨hr0, hprop.mono (le_succ j), fun h2 => hslot (h2.mono (le_succ j))⟩
      rcases htop with htop | htop
      · exact hne' htop
      · exact hne' (heq.trans htop)
  rw [not_or] at htop
  have hrpart : partOf m (A j) st.divisors st.sets r ≠ none :=
    partOf_ne_none.mpr ⟨hr, har, hr0, htop.1⟩
  have hipart : partOf m (A j) st.divisors st.sets i ≠ none :=
    partOf_ne_none.mpr ⟨hi, hai, hi0, htop.2⟩
  have hpair := p.passed.pair r i hrpart hipart (opened_of_lt hr) (opened_of_lt hi) hne
  constructor
  · rintro ⟨heq, -, hne'⟩
    obtain ⟨hpart, hranks⟩ := hpair.mp ⟨heq, hne'⟩
    exact ⟨hr', ((h.partOf_eq_iff hrpart hipart).mp hpart).1,
      fun _ => (h.pair_iff hout hjn hrpart hne hpart).mp hranks⟩
  · rintro ⟨-, hprop, hslot⟩
    obtain ⟨c, hcj, hc, -, -⟩ := h.divisor r hr hr0
    have hsame := hslot ⟨c, j, hcj, lt_succ_self j, hc, har⟩
    have hpart := (h.partOf_eq_iff hrpart hipart).mpr ⟨hprop, fun _ => hsame⟩
    obtain ⟨heq, hne'⟩ := hpair.mpr ⟨hpart, (h.pair_iff hout hjn hrpart hne hpart).mpr hsame⟩
    exact ⟨heq, hr', hne'⟩

/-- A column refines the sets, with the only row of the column's new set left without a duplicate. -/
lemma Refined.step (hout : ∀ k, m ≤ k → ∀ c, A c k = 0) (hjn : j < n) : Refined A m n (j + 1) st' := by
  have hj := lt_succ_self j
  constructor
  case newSet =>
    rw [p.newSet]
    exact (Nat.zero_le _).trans_lt p.passed.newSet
  case below => exact p.below h
  case zero =>
    intro r hr
    by_cases ha : A j r = 0
    · rw [p.old ha, h.zero r hr, Nat.forall_lt_succ_right]
      exact (and_iff_left ha).symm
    · exact iff_of_false (p.sets_ne_zero h hr ha) fun hall => ha (hall j hj)
  case divisor =>
    intro r hr hne
    rw [p.divisors, p.passed.divisors r]
    by_cases hn : IsNew m (A j) st.sets r
    · rw [if_pos ⟨hn, hr⟩]
      exact ⟨j, hj, hn.2.1, (h.zero r hr).mp hn.2.2, rfl⟩
    · rw [if_neg fun hand => hn hand.1]
      have hr0 : st.sets r ≠ 0 := by
        intro hr0
        have hzero : A j r = 0 := not_not.mp fun hne0 => hn ⟨hr, hne0, hr0⟩
        exact hne ((p.old hzero).trans hr0)
      obtain ⟨c, hcj, hc⟩ := h.divisor r hr hr0
      exact ⟨c, hcj.trans hj, hc⟩
  case same =>
    intro r hr i hi hne
    by_cases har : A j r = 0
    · by_cases hai : A j i = 0
      · -- the column leaves both where they were
        rw [p.old har, p.old hai, h.same r hr i hi hne]
        constructor
        · rintro ⟨h0, hprop, hslot⟩
          exact ⟨h0, hprop.succ_of_zero har hai, fun h2 => hslot (h2.of_succ har)⟩
        · rintro ⟨h0, hprop, hslot⟩
          exact ⟨h0, hprop.mono (le_succ j), fun h2 => hslot (h2.mono (le_succ j))⟩
      · exact iff_of_false (fun hand => p.ne_of_zero h har hi hai hand.2.2 hand.1)
          fun hand => (hand.2.1.ne_zero_iff hj).mpr hai har
    by_cases hai : A j i = 0
    · exact iff_of_false (fun hand => p.ne_of_zero h hai hr har (hand.1 ▸ hand.2.2) hand.1.symm)
        fun hand => (hand.2.1.ne_zero_iff hj).mp har hai
    -- the column has an entry in both
    by_cases hr0 : st.sets r = 0
    · have hnr : IsNew m (A j) st.sets r := ⟨hr, har, hr0⟩
      by_cases hi0 : st.sets i = 0
      · exact p.same_of_new h hnr ⟨hi, hai, hi0⟩ hne
      · obtain ⟨c, hcj, hc, -, -⟩ := h.divisor i hi hi0
        exact iff_of_false
          (fun hand => p.ne_of_new h hnr hi (fun hn => hi0 hn.2.2) hand.2.2 hand.1)
          fun hand => (hand.2.1.ne_zero_iff (hcj.trans hj)).mpr hc ((h.zero r hr).mp hr0 c hcj)
    by_cases hi0 : st.sets i = 0
    · obtain ⟨c, hcj, hc, -, -⟩ := h.divisor r hr hr0
      have hni : IsNew m (A j) st.sets i := ⟨hi, hai, hi0⟩
      exact iff_of_false
        (fun hand => p.ne_of_new h hni hr (fun hn => hr0 hn.2.2) (hand.1 ▸ hand.2.2) hand.1.symm)
        fun hand => (hand.2.1.ne_zero_iff (hcj.trans hj)).mp hc ((h.zero i hi).mp hi0 c hcj)
    · exact p.same_of_old h hout hjn hr hi har hai hr0 hi0 hne
  case remaining => exact p.remaining

end

end CuOpt.Cuts
