import CuOpt.Cuts.DuplicateRemoval
import CuOpt.Cuts.PoolStorage

/-! What the removal of duplicates keeps of the pool: every cut is implied by a cut that is kept, and one
tightest cut of each class of parallel cuts is left when the members of the class are paired. -/

namespace CuOpt.Cuts

open List hiding keys
open SparseList PairedRanks

structure PoolCut where
  row : List (ℕ × ℚ)
  rhs : ℚ
  age : ℤ
  type : CutType

namespace PoolCut

def Holds (c : PoolCut) (x : ℕ → ℚ) : Prop := c.rhs ≤ dot c.row x

def Parallel (c c' : PoolCut) : Prop := ∃ t > 0, ∀ j, coeff c.row j = t * coeff c'.row j

/-- After scaling to the same left-hand side, the right-hand side of `c'` is at least that of `c`. -/
def Weaker (c c' : PoolCut) : Prop :=
  ∃ t > 0, (∀ j, coeff c.row j = t * coeff c'.row j) ∧ c.rhs ≤ t * c'.rhs

lemma Parallel.symm {c c' : PoolCut} (h : c.Parallel c') : c'.Parallel c := by
  obtain ⟨t, ht, hall⟩ := h
  refine ⟨t⁻¹, inv_pos.mpr ht, fun j => ?_⟩
  rw [hall j, inv_mul_cancel_left₀ ht.ne']

lemma Parallel.trans {c c' c'' : PoolCut} (h : c.Parallel c') (h' : c'.Parallel c'') :
    c.Parallel c'' := by
  obtain ⟨t, ht, hall⟩ := h
  obtain ⟨u, hu, hall'⟩ := h'
  refine ⟨t * u, mul_pos ht hu, fun j => ?_⟩
  rw [hall j, hall' j, mul_assoc]

lemma Weaker.parallel {c c' : PoolCut} (h : c.Weaker c') : c.Parallel c' := by
  obtain ⟨t, ht, hall, -⟩ := h
  exact ⟨t, ht, hall⟩

lemma Weaker.holds {c c' : PoolCut} (h : c.Weaker c') {x : ℕ → ℚ} (hx : c'.Holds x) : c.Holds x := by
  obtain ⟨t, ht, hall, hrhs⟩ := h
  have hdot : dot c.row x = t * dot c'.row x := by
    have hmem : ∀ p ∈ c.row, p.1 ∈ (keys c.row ++ keys c'.row).toFinset := fun p hp =>
      mem_toFinset.mpr (mem_append_left _ (mem_map_of_mem hp))
    have hmem' : ∀ p ∈ c'.row, p.1 ∈ (keys c.row ++ keys c'.row).toFinset := fun p hp =>
      mem_toFinset.mpr (mem_append_right _ (mem_map_of_mem hp))
    rw [dot_eq_sum c.row x _ hmem, dot_eq_sum c'.row x _ hmem', Finset.mul_sum]
    apply Finset.sum_congr rfl
    intro j _
    rw [hall j, mul_assoc]
  calc c.rhs ≤ t * c'.rhs := hrhs
    _ ≤ t * dot c'.row x := mul_le_mul_of_nonneg_left hx ht.le
    _ = dot c.row x := hdot.symm

end PoolCut

namespace CutPool

variable (pool : CutPool)

def size : ℕ := pool.cutStorage.length

def cut (r : ℕ) : PoolCut where
  row := pool.cutStorage.getD r []
  rhs := pool.rhsStorage.getD r default
  age := pool.cutAge.getD r default
  type := pool.cutType.getD r default

def cuts : List PoolCut := (range pool.size).map pool.cut

/-- The cuts that are left imply those that were removed, and are one tightest of each class of cuts
whose left-hand sides are positive multiples of each other; what is stored for them moves with them. -/
structure KeepsTightest (result : CutPool) : Prop where
  attached : result.cuts.Sublist pool.cuts
  implied : ∀ c ∈ pool.cuts, ∃ c' ∈ result.cuts, ∀ x, c'.Holds x → c.Holds x
  points : ∀ x, (∀ c ∈ result.cuts, c.Holds x) ↔ ∀ c ∈ pool.cuts, c.Holds x
  one : ∀ c ∈ pool.cuts, ∃! k, k < result.size ∧ c.Parallel (result.cut k)
  tightest : ∀ c ∈ pool.cuts, ∀ c' ∈ result.cuts, c.Parallel c' → c.Weaker c'

/-- The cuts before `r` with the same first two columns and the same ratio there, paired. -/
def pairOf (r : ℕ) : ℕ := slot (entryOf pool.cutStorage) pool.originalVars r

/-- Parallel cuts with two entries are one pair of those with the same first two columns and the same
ratio there: the first and the second, or the third and the fourth. -/
def ClassesPaired : Prop :=
  ∀ r < pool.size, ∀ i < pool.size, (pool.cut r).Parallel (pool.cut i) →
    2 ≤ (pool.cut r).row.length → pool.pairOf r = pool.pairOf i

variable {pool} {r i : ℕ}

lemma row_mem (hr : r < pool.size) : (pool.cut r).row ∈ pool.cutStorage := by
  rw [cut, getD_eq_getElem _ _ hr]
  exact getElem_mem hr

lemma entryOf_eq_zero {c : ℕ} (hc : pool.originalVars ≤ c) : entryOf pool.cutStorage c r = 0 := by
  by_cases hr : r < pool.size
  · apply coeff_eq_zero
    intro hmem
    obtain ⟨q, hq, rfl⟩ := mem_map.mp hmem
    exact absurd (pool.inRange _ (row_mem hr) q hq) (not_lt.mpr hc)
  · exact entryOf_of_le (not_lt.mp hr) c

lemma entryOf_ne_zero (hr : r < pool.size) {q : ℕ × ℚ} (hq : q ∈ (pool.cut r).row) :
    entryOf pool.cutStorage q.1 r ≠ 0 := by
  have hcoeff : entryOf pool.cutStorage q.1 r = q.2 := coeff_of_mem (pool.nodup _ (row_mem hr)) hq
  rw [hcoeff]
  exact pool.ne_zero _ (row_mem hr) q hq

lemma hasTwo_iff (hr : r < pool.size) :
    HasTwo (entryOf pool.cutStorage) pool.originalVars r ↔ 2 ≤ (pool.cut r).row.length := by
  have hnodup : (keys (pool.cut r).row).Nodup := pool.nodup _ (row_mem hr)
  have hmem : ∀ c, entryOf pool.cutStorage c r ≠ 0 → c ∈ keys (pool.cut r).row := by
    intro c hc
    by_contra hnot
    exact hc (coeff_eq_zero hnot)
  constructor
  · rintro ⟨c, c', hcc, -, hc, hc'⟩
    have hsub : [c, c'].Subperm (keys (pool.cut r).row) := by
      refine subperm_of_subset (by simp [hcc.ne]) ?_
      rintro x hx
      rcases mem_pair.mp hx with rfl | rfl
      · exact hmem x hc
      · exact hmem x hc'
    have hle := hsub.length_le
    rwa [keys, length_map] at hle
  · intro hlen
    have hvars : ∀ q ∈ (pool.cut r).row, q.1 < pool.originalVars := pool.inRange _ (row_mem hr)
    have hne : ∀ q ∈ (pool.cut r).row, entryOf pool.cutStorage q.1 r ≠ 0 :=
      fun q hq => entryOf_ne_zero hr hq
    generalize (pool.cut r).row = row at hnodup hlen hvars hne
    rcases row with _ | ⟨q, _ | ⟨q', l⟩⟩
    · exact absurd hlen (by decide)
    · exact absurd hlen (Nat.not_succ_le_self 1)
    · have hq : q ∈ q :: q' :: l := mem_cons_self
      have hq' : q' ∈ q :: q' :: l := mem_cons_of_mem q mem_cons_self
      have hqq : q.1 ≠ q'.1 := fun heq => (nodup_cons.mp hnodup).1 (heq ▸ mem_cons_self)
      rcases lt_or_gt_of_ne hqq with hlt | hlt
      · exact ⟨q.1, q'.1, hlt, hvars q' hq', hne q hq, hne q' hq'⟩
      · exact ⟨q'.1, q.1, hlt, hvars q hq, hne q' hq', hne q hq⟩

section Sets

variable {st : RefineState}

lemma sets_ne_zero (h : Refined (entryOf pool.cutStorage) pool.size pool.originalVars
    pool.originalVars st) (hr : r < pool.size) : st.sets r ≠ 0 := by
  intro hzero
  obtain ⟨q, hq⟩ := exists_mem_of_ne_nil _ (pool.ne_nil _ (row_mem hr))
  exact entryOf_ne_zero hr hq ((h.zero r hr).mp hzero q.1 (pool.inRange _ (row_mem hr) q hq))

lemma divisors_eq (h : Refined (entryOf pool.cutStorage) pool.size pool.originalVars
    pool.originalVars st) (hr : r < pool.size) (hi : i < pool.size) {t : ℚ} (ht : t ≠ 0)
    (hall : ∀ c < pool.originalVars, entryOf pool.cutStorage c r = t * entryOf pool.cutStorage c i) :
    st.divisors r = t * st.divisors i ∧ st.divisors i ≠ 0 := by
  obtain ⟨c, hc, hcr, hbefore, hdr⟩ := h.divisor r hr (sets_ne_zero h hr)
  obtain ⟨c', hc', hci, hbefore', hdi⟩ := h.divisor i hi (sets_ne_zero h hi)
  have hcc : c = c' := Proportional.first_eq ⟨t, ht, hall⟩ hc hcr hbefore hc' hci hbefore'
  subst hcc
  rw [hdr, hdi]
  exact ⟨hall c hc, hci⟩

lemma parallel_iff : (pool.cut r).Parallel (pool.cut i) ↔ ∃ t > 0, ∀ c < pool.originalVars,
    entryOf pool.cutStorage c r = t * entryOf pool.cutStorage c i := by
  constructor
  · rintro ⟨t, ht, hall⟩
    exact ⟨t, ht, fun c _ => hall c⟩
  · rintro ⟨t, ht, hall⟩
    refine ⟨t, ht, fun c => ?_⟩
    by_cases hc : c < pool.originalVars
    · exact hall c hc
    · have hr : coeff (pool.cut r).row c = 0 := entryOf_eq_zero (not_lt.mp hc)
      have hi : coeff (pool.cut i).row c = 0 := entryOf_eq_zero (not_lt.mp hc)
      rw [hr, hi, mul_zero]

lemma compared_iff (h : Refined (entryOf pool.cutStorage) pool.size pool.originalVars
    pool.originalVars st) (hr : r < pool.size) (hi : i < pool.size) (hne : r ≠ i) :
    ((st.sets i = st.sets r ∧ st.sets r ≠ 0 ∧ st.sets r ≠ ⊤) ∧ 0 < st.divisors i * st.divisors r) ↔
      (pool.cut r).Parallel (pool.cut i) ∧
        (2 ≤ (pool.cut r).row.length → pool.pairOf r = pool.pairOf i) := by
  have hsame := h.same r hr i hi hne
  rw [parallel_iff, ← hasTwo_iff hr]
  constructor
  · rintro ⟨⟨heq, h0, htop⟩, hsign⟩
    obtain ⟨-, ⟨t, ht, hall⟩, hpair⟩ := hsame.mp ⟨heq.symm, h0, htop⟩
    refine ⟨⟨t, ?_, hall⟩, hpair⟩
    obtain ⟨hd, hdi⟩ := divisors_eq h hr hi ht hall
    rw [hd, mul_left_comm] at hsign
    exact pos_of_mul_pos_left hsign (mul_self_nonneg _)
  · rintro ⟨⟨t, ht, hall⟩, hpair⟩
    obtain ⟨heq, h0, htop⟩ := hsame.mpr ⟨sets_ne_zero h hr, ⟨t, ht.ne', hall⟩, hpair⟩
    obtain ⟨hd, hdi⟩ := divisors_eq h hr hi ht.ne' hall
    refine ⟨⟨heq.symm, h0, htop⟩, ?_⟩
    rw [hd, mul_left_comm]
    exact mul_pos ht (mul_self_pos.mpr hdi)

/-- A cut that is beaten is implied by the one that beats it. -/
lemma weaker_of_beats (h : Refined (entryOf pool.cutStorage) pool.size pool.originalVars
    pool.originalVars st) (hb : Beats st.sets st.divisors (fun r => (pool.cut r).rhs) pool.size i r) :
    (pool.cut r).Weaker (pool.cut i) ∧
      (2 ≤ (pool.cut r).row.length → pool.pairOf r = pool.pairOf i) := by
  obtain ⟨hr, hi, hsets, hsign, hkey⟩ := hb
  have hne : r ≠ i := by
    rintro rfl
    exact lt_irrefl _ hkey
  obtain ⟨hparallel, hpair⟩ := (compared_iff h hr hi hne).mp ⟨hsets, hsign⟩
  refine ⟨?_, hpair⟩
  obtain ⟨t, ht, hall⟩ := hparallel
  refine ⟨t, ht, hall, ?_⟩
  obtain ⟨hd, hdi⟩ := divisors_eq h hr hi ht.ne' fun c _ => hall c
  have hle : strength (fun r => (pool.cut r).rhs) st.divisors r ≤
      strength (fun r => (pool.cut r).rhs) st.divisors i := by
    rcases Prod.Lex.toLex_lt_toLex.mp hkey with hlt | ⟨heq, -⟩
    · exact hlt.le
    · exact heq.le
  have hpos : 0 < |st.divisors i| := abs_pos.mpr hdi
  rw [strength, strength, hd, abs_mul, abs_of_pos ht, div_le_div_iff₀ (mul_pos ht hpos) hpos] at hle
  refine le_of_mul_le_mul_right ?_ hpos
  calc (pool.cut r).rhs * |st.divisors i| ≤ (pool.cut i).rhs * (t * |st.divisors i|) := hle
    _ = t * (pool.cut i).rhs * |st.divisors i| := by ring

end Sets

section Left

variable (pool) in
def cutsToRemove : ℕ → Bool := (duplicateCuts compressedScan 0 pool.cutStorage pool.originalVars
  fun r => pool.rhsStorage.getD r 0).2.2

variable (pool) in
theorem exists_refined : ∃ st, Refined (entryOf pool.cutStorage) pool.size pool.originalVars
    pool.originalVars st ∧ ∀ x, pool.cutsToRemove x = true ↔
      ∃ y, Beats st.sets st.divisors (fun r => (pool.cut r).rhs) pool.size y x := by
  have hsame : SameColumns (refineColumns compressedScan 0 pool.cutStorage pool.originalVars)
    (refineColumns plainScan 0 pool.cutStorage pool.originalVars) := sameColumns_refineColumns
  have hrefined := refined_refineColumns pool.nodup pool.ne_zero pool.originalVars
  rw [cutsToRemove, duplicateCuts]
  generalize refineColumns compressedScan 0 pool.cutStorage pool.originalVars = c at hsame ⊢
  generalize refineColumns plainScan 0 pool.cutStorage pool.originalVars = s at hsame hrefined
  obtain ⟨groups, st, stopped⟩ := c
  obtain ⟨last, st', stopped'⟩ := s
  obtain ⟨hgroups, hbelow, heq⟩ := hsame
  obtain ⟨rfl, rfl⟩ := Prod.mk.inj heq
  dsimp only at hgroups hbelow hrefined ⊢
  refine ⟨st, hrefined, fun x => ?_⟩
  rw [foldl_removed_compressed hgroups hbelow last]
  exact foldl_compareLater_iff

lemma cuts_dropCuts (removed : ℕ → Bool) :
    (pool.dropCuts removed).cuts = (keptRows removed pool.size).map pool.cut := by
  have hrhs : pool.rhsStorage.length = pool.size := pool.length_rhs
  have hage : pool.cutAge.length = pool.size := pool.length_age
  have htype : pool.cutType.length = pool.size := pool.length_type
  have hsize : (pool.dropCuts removed).size = (keptRows removed pool.size).length := by
    have hrows : (pool.dropCuts removed).size = (removeRows removed pool.cutStorage).length := rfl
    rw [hrows, removeRows_eq, length_map, ← size]
  apply ext_getElem
  · rw [cuts, length_map, length_map, length_range, hsize]
  · intro k hk hk'
    have hlt : k < (keptRows removed pool.size).length := by rwa [length_map] at hk'
    have hget : ∀ {α : Type} (f : ℕ → α) (d : α), ((keptRows removed pool.size).map f).getD k d =
        f (keptRows removed pool.size)[k] := by
      intro α f d
      rw [getD_eq_getElem _ _ (by rwa [length_map]), getElem_map]
    simp only [cuts, getElem_map, getElem_range]
    rw [cut, dropCuts]
    dsimp only
    rw [removeRows_eq, compact_eq, compact_eq, compact_eq, hrhs, hage, htype, ← size, hget, hget, hget,
      hget]
    rfl

lemma cuts_checkForDuplicateCuts : (pool.checkForDuplicateCuts 0).cuts =
    (keptRows pool.cutsToRemove pool.size).map pool.cut := by
  have heq : pool.checkForDuplicateCuts 0 =
      if (range pool.size).any pool.cutsToRemove then pool.dropCuts pool.cutsToRemove else pool :=
    rfl
  rw [heq]
  split_ifs with hany
  · exact cuts_dropCuts pool.cutsToRemove
  · have hall : keptRows pool.cutsToRemove pool.size = range pool.size := by
      apply filter_eq_self.mpr
      intro i hi
      by_contra hmark
      exact hany (any_eq_true.mpr ⟨i, hi, by simpa using hmark⟩)
    rw [hall, cuts]

end Left

section Kept

lemma exists_kept (hr : r < pool.size) : ∃ k < pool.size, pool.cutsToRemove k = false ∧
    (pool.cut r).Weaker (pool.cut k) ∧
      (2 ≤ (pool.cut r).row.length → pool.pairOf r = pool.pairOf k) := by
  obtain ⟨st, hrefined, hremoved⟩ := pool.exists_refined
  obtain ⟨k, hk, hkr, hunbeaten⟩ := @exists_unbeaten st.sets st.divisors (fun r => (pool.cut r).rhs)
    pool.size r hr
  refine ⟨k, hk, ?_, ?_⟩
  · by_contra hmark
    exact hunbeaten ((hremoved k).mp (by simpa using hmark))
  · rcases hkr with rfl | hbeats
    · refine ⟨⟨1, one_pos, fun j => (one_mul _).symm, ?_⟩, fun _ => rfl⟩
      rw [one_mul]
    · exact weaker_of_beats hrefined hbeats

lemma eq_of_kept (hr : r < pool.size) (hi : i < pool.size) (hkr : pool.cutsToRemove r = false)
    (hki : pool.cutsToRemove i = false) (h : (pool.cut r).Parallel (pool.cut i))
    (hpair : 2 ≤ (pool.cut r).row.length → pool.pairOf r = pool.pairOf i) : r = i := by
  obtain ⟨st, hrefined, hremoved⟩ := pool.exists_refined
  by_contra hne
  obtain ⟨⟨heq, h0, htop⟩, hsign⟩ := (compared_iff hrefined hr hi hne).mpr ⟨h, hpair⟩
  have hunbeaten : ∀ k, pool.cutsToRemove k = false →
      ¬∃ y, Beats st.sets st.divisors (fun r => (pool.cut r).rhs) pool.size y k := by
    intro k hk hbeats
    rw [(hremoved k).mpr hbeats] at hk
    exact absurd hk.symm Bool.false_ne_true
  have hkey : toLex (strength (fun r => (pool.cut r).rhs) st.divisors r, r) ≠
      toLex (strength (fun r => (pool.cut r).rhs) st.divisors i, i) := by
    intro heq
    exact hne (Prod.mk.inj (toLex.injective heq)).2
  rcases lt_or_gt_of_ne hkey with hlt | hlt
  · exact hunbeaten r hkr ⟨i, hr, hi, ⟨heq, h0, htop⟩, hsign, hlt⟩
  · refine hunbeaten i hki ⟨r, hi, hr, ⟨heq.symm, heq ▸ h0, heq ▸ htop⟩, ?_, hlt⟩
    rwa [mul_comm] at hsign

lemma mem_cuts_iff {c : PoolCut} : c ∈ pool.cuts ↔ ∃ r < pool.size, pool.cut r = c := by
  rw [cuts, mem_map]
  simp only [mem_range]

variable (pool) in
def left : List ℕ := keptRows pool.cutsToRemove pool.size

lemma size_checkForDuplicateCuts : (pool.checkForDuplicateCuts 0).size = pool.left.length := by
  have hlen := congrArg length (@cuts_checkForDuplicateCuts pool)
  rwa [cuts, length_map, length_map, length_range] at hlen

lemma cut_checkForDuplicateCuts {k : ℕ} (hk : k < pool.left.length) :
    (pool.checkForDuplicateCuts 0).cut k = pool.cut pool.left[k] := by
  have hk' : k < (pool.checkForDuplicateCuts 0).size := size_checkForDuplicateCuts.symm ▸ hk
  have hget := congrArg (fun l => l[k]?) (@cuts_checkForDuplicateCuts pool)
  rw [← left] at hget
  simpa [cuts, hk, hk'] using hget

lemma mem_left : r ∈ pool.left ↔ r < pool.size ∧ pool.cutsToRemove r = false := mem_keptRows

lemma nodup_left : pool.left.Nodup := nodup_range.filter _

lemma exists_weaker {c : PoolCut} (hc : c ∈ pool.cuts) :
    ∃ c' ∈ (pool.checkForDuplicateCuts 0).cuts, c.Weaker c' := by
  obtain ⟨r, hr, rfl⟩ := mem_cuts_iff.mp hc
  obtain ⟨k, hk, hkept, hweaker, -⟩ := exists_kept hr
  refine ⟨pool.cut k, ?_, hweaker⟩
  rw [cuts_checkForDuplicateCuts]
  exact mem_map_of_mem (mem_left.mpr ⟨hk, hkept⟩)

lemma sublist_checkForDuplicateCuts : (pool.checkForDuplicateCuts 0).cuts.Sublist pool.cuts := by
  rw [cuts_checkForDuplicateCuts]
  exact filter_sublist.map _

lemma holds_checkForDuplicateCuts (x : ℕ → ℚ) :
    (∀ c ∈ (pool.checkForDuplicateCuts 0).cuts, c.Holds x) ↔ ∀ c ∈ pool.cuts, c.Holds x := by
  constructor
  · intro hall c hc
    obtain ⟨c', hc', hweaker⟩ := exists_weaker hc
    exact hweaker.holds (hall c' hc')
  · exact fun hall c hc => hall c (sublist_checkForDuplicateCuts.subset hc)

/-- When the classes are paired one cut of a class is left. -/
lemma ClassesPaired.eq_of_left (hpaired : pool.ClassesPaired) {c : PoolCut} {k k' : ℕ}
    (hk : k < pool.left.length) (hk' : k' < pool.left.length) (h : c.Parallel (pool.cut pool.left[k]))
    (h' : c.Parallel (pool.cut pool.left[k'])) : k = k' := by
  obtain ⟨hm, hkept⟩ := mem_left.mp (getElem_mem hk)
  obtain ⟨hm', hkept'⟩ := mem_left.mp (getElem_mem hk')
  have hparallel := h.symm.trans h'
  exact (nodup_left.getElem_inj_iff).mp
    (eq_of_kept hm hm' hkept hkept' hparallel (hpaired _ hm _ hm' hparallel))

/-- The removal keeps one tightest cut of each parallel class exactly when the classes of cuts with two
entries are pairs of those that share the first two columns and the ratio there. -/
theorem keepsTightest_iff (pool : CutPool) :
    pool.KeepsTightest (pool.checkForDuplicateCuts 0) ↔ pool.ClassesPaired := by
  constructor
  · intro h r hr i hi hparallel htwo
    obtain ⟨k, hk, hkept, hweaker, hpair⟩ := exists_kept hr
    obtain ⟨k', hk', hkept', hweaker', hpair'⟩ := exists_kept hi
    obtain ⟨p, hp, rfl⟩ := mem_iff_getElem.mp (mem_left.mpr ⟨hk, hkept⟩)
    obtain ⟨p', hp', rfl⟩ := mem_iff_getElem.mp (mem_left.mpr ⟨hk', hkept'⟩)
    have htwo' : 2 ≤ (pool.cut i).row.length := by
      rw [← hasTwo_iff hr] at htwo
      obtain ⟨t, ht, hall⟩ := hparallel
      rw [← hasTwo_iff hi]
      exact (Proportional.hasTwo_iff ⟨t, ht.ne', fun c _ => hall c⟩).mp htwo
    obtain ⟨q, -, hunique⟩ := h.one (pool.cut r) (mem_cuts_iff.mpr ⟨r, hr, rfl⟩)
    have hpq : p = q := by
      apply hunique p
      rw [size_checkForDuplicateCuts, cut_checkForDuplicateCuts hp]
      exact ⟨hp, hweaker.parallel⟩
    have hpq' : p' = q := by
      apply hunique p'
      rw [size_checkForDuplicateCuts, cut_checkForDuplicateCuts hp']
      exact ⟨hp', hparallel.trans hweaker'.parallel⟩
    subst hpq hpq'
    exact (hpair htwo).trans (hpair' htwo').symm
  · intro hpaired
    constructor
    case attached => exact sublist_checkForDuplicateCuts
    case implied =>
      intro c hc
      obtain ⟨c', hc', hweaker⟩ := exists_weaker hc
      exact ⟨c', hc', fun x hx => hweaker.holds hx⟩
    case points => exact holds_checkForDuplicateCuts
    case one =>
      intro c hc
      obtain ⟨r, hr, rfl⟩ := mem_cuts_iff.mp hc
      obtain ⟨k, hk, hkept, hweaker, -⟩ := exists_kept hr
      obtain ⟨p, hp, rfl⟩ := mem_iff_getElem.mp (mem_left.mpr ⟨hk, hkept⟩)
      refine ⟨p, ?_, fun p' hp' => ?_⟩
      · dsimp only
        rw [size_checkForDuplicateCuts, cut_checkForDuplicateCuts hp]
        exact ⟨hp, hweaker.parallel⟩
      · have hlt : p' < pool.left.length := size_checkForDuplicateCuts ▸ hp'.1
        have hparallel' := hp'.2
        rw [cut_checkForDuplicateCuts hlt] at hparallel'
        exact hpaired.eq_of_left hlt hp hparallel' hweaker.parallel
    case tightest =>
      intro c hc c' hc' hparallel
      obtain ⟨r, hr, rfl⟩ := mem_cuts_iff.mp hc
      obtain ⟨k, hk, hkept, hweaker, -⟩ := exists_kept hr
      obtain ⟨p, hp, rfl⟩ := mem_iff_getElem.mp (mem_left.mpr ⟨hk, hkept⟩)
      rw [cuts_checkForDuplicateCuts] at hc'
      obtain ⟨i, hi, rfl⟩ := mem_map.mp hc'
      obtain ⟨p', hp', rfl⟩ := mem_iff_getElem.mp (show i ∈ pool.left from hi)
      have heq : p' = p := hpaired.eq_of_left hp' hp hparallel hweaker.parallel
      subst heq
      exact hweaker

end Kept

def threeEqual : CutPool :=
  let cut : Inequality := ⟨[(0, 1), (1, 1)], 1⟩
  let hcut : (keys cut.vector).Nodup := by decide
  (((CutPool.empty 2).addCut .knapsack cut hcut).addCut .knapsack cut hcut).addCut .knapsack cut hcut

/-- Of three equal cuts two are left. -/
theorem threeEqual_not_keepsTightest :
    ¬threeEqual.KeepsTightest (threeEqual.checkForDuplicateCuts 0) := by
  intro h
  have hrows : (threeEqual.checkForDuplicateCuts 0).cutStorage =
      [[(0, 1), (1, 1)], [(0, 1), (1, 1)]] := by decide +kernel
  have hrow : (threeEqual.cut 0).row = [(0, 1), (1, 1)] := by decide +kernel
  have hsize : (threeEqual.checkForDuplicateCuts 0).size = 2 := congrArg length hrows
  have hcut : ∀ k < 2, ((threeEqual.checkForDuplicateCuts 0).cut k).row = [(0, 1), (1, 1)] := by
    intro k hk
    rw [cut, hrows]
    match k, hk with
    | 0, _ => rfl
    | 1, _ => rfl
  have hparallel : ∀ k < 2, (threeEqual.cut 0).Parallel ((threeEqual.checkForDuplicateCuts 0).cut k) := by
    intro k hk
    refine ⟨1, one_pos, fun j => ?_⟩
    rw [one_mul, hrow, hcut k hk]
  have hmem : threeEqual.cut 0 ∈ threeEqual.cuts := mem_cuts_iff.mpr ⟨0, by decide +kernel, rfl⟩
  obtain ⟨q, -, hunique⟩ := h.one _ hmem
  have hzero : 0 = q := hunique 0 ⟨hsize ▸ Nat.zero_lt_two, hparallel 0 Nat.zero_lt_two⟩
  have hone : 1 = q := hunique 1 ⟨hsize ▸ Nat.one_lt_two, hparallel 1 Nat.one_lt_two⟩
  exact absurd (hzero.trans hone.symm) Nat.zero_ne_one

end CutPool

end CuOpt.Cuts
