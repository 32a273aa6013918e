import Mathlib

/-! Sparse vectors as lists of index-value pairs: coefficients, accumulation into a dense
vector, and moving a compressed vector back to its original positions. -/

namespace SparseList

open List Function

variable {ι K : Type*} [DecidableEq ι]

section Coeff

variable [CommRing K]

def coeff (l : List (ι × K)) (i : ι) : K := (l.map fun p => if p.1 = i then p.2 else 0).sum

def keys (l : List (ι × K)) : List ι := l.map Prod.fst

def dot (l : List (ι × K)) (f : ι → K) : K := (l.map fun p => p.2 * f p.1).sum

@[simp] lemma coeff_nil (i : ι) : coeff ([] : List (ι × K)) i = 0 := rfl

@[simp] lemma coeff_cons (p : ι × K) (l : List (ι × K)) (i : ι) :
    coeff (p :: l) i = (if p.1 = i then p.2 else 0) + coeff l i := rfl

omit [DecidableEq ι] [CommRing K] in
@[simp] theorem keys_cons (p : ι × K) (l : List (ι × K)) : keys (p :: l) = p.1 :: keys l := rfl

omit [DecidableEq ι] [CommRing K] in
@[simp] theorem keys_append (l l' : List (ι × K)) : keys (l ++ l') = keys l ++ keys l' :=
  map_append

@[simp] lemma coeff_append (l l' : List (ι × K)) (i : ι) :
    coeff (l ++ l') i = coeff l i + coeff l' i := by
  simp only [coeff, map_append, sum_append]

lemma coeff_flatMap {κ : Type*} (l : List κ) (g : κ → List (ι × K)) (i : ι) :
    coeff (l.flatMap g) i = (l.map fun k => coeff (g k) i).sum := by
  induction l with
  | nil => rfl
  | cons k l ih => rw [flatMap_cons, coeff_append, ih, map_cons, sum_cons]

variable {l : List (ι × K)}

lemma coeff_perm {l' : List (ι × K)} (h : l.Perm l') (i : ι) : coeff l i = coeff l' i :=
  (h.map _).sum_eq

lemma coeff_eq_zero {i : ι} (h : i ∉ keys l) : coeff l i = 0 := by
  induction l with
  | nil => rfl
  | cons p l ih =>
    simp only [keys, map_cons, mem_cons, not_or] at h
    rw [coeff_cons, if_neg (Ne.symm h.1), ih h.2, add_zero]

lemma coeff_of_mem (hl : (keys l).Nodup) {p : ι × K} (hp : p ∈ l) : coeff l p.1 = p.2 := by
  induction l with
  | nil => cases hp
  | cons r l ih =>
    simp only [keys, map_cons, nodup_cons] at hl
    rw [coeff_cons]
    rcases mem_cons.mp hp with rfl | hp
    · rw [if_pos rfl, coeff_eq_zero hl.1, add_zero]
    · have hne : r.1 ≠ p.1 := fun he => hl.1 (he ▸ mem_map_of_mem hp)
      rw [if_neg hne, zero_add, ih hl.2 hp]

omit [DecidableEq ι] in
theorem dot_append (l l' : List (ι × K)) (f : ι → K) : dot (l ++ l') f = dot l f + dot l' f := by
  simp only [dot, map_append, sum_append]

omit [DecidableEq ι] in
theorem dot_singleton (p : ι × K) (f : ι → K) : dot [p] f = p.2 * f p.1 := by
  rw [dot, map_singleton, sum_singleton]

omit [DecidableEq ι] in
theorem dot_snoc (l : List (ι × K)) (p : ι × K) (f : ι → K) :
    dot (l ++ [p]) f = dot l f + p.2 * f p.1 := by
  rw [dot_append, dot_singleton]

lemma dot_eq_sum (l : List (ι × K)) (f : ι → K) (s : Finset ι) (hs : ∀ p ∈ l, p.1 ∈ s) :
    dot l f = ∑ i ∈ s, coeff l i * f i := by
  induction l with
  | nil => simp [dot]
  | cons p l ih =>
    have hp := hs p mem_cons_self
    have ih' := ih fun r hr => hs r (mem_cons_of_mem _ hr)
    simp only [dot, map_cons, sum_cons] at ih' ⊢
    simp only [coeff_cons, add_mul, Finset.sum_add_distrib, ite_mul, zero_mul,
      Finset.sum_ite_eq, hp, if_true, ih']

lemma coeff_map_snd (l : List (ι × K)) (g : ι → K) (i : ι) :
    coeff (l.map fun p => (p.1, g p.1 * p.2)) i = g i * coeff l i := by
  induction l with
  | nil => simp
  | cons p l ih =>
    simp only [map_cons, coeff_cons, ih]
    split_ifs with h
    · rw [h]; ring
    · ring

lemma coeff_map_mul (l : List (ι × K)) (v : K) (i : ι) :
    coeff (l.map fun p => (p.1, v * p.2)) i = v * coeff l i :=
  coeff_map_snd l (fun _ => v) i

lemma coeff_map_idxOf {idx : List ι} (hidx : idx.Nodup) (hl : ∀ i ∈ keys l, i ∈ idx) (d : ι)
    {k : ℕ} (hk : k < idx.length) :
    coeff (l.map fun p => (idx.idxOf p.1, p.2)) k = coeff l (idx.getD k d) := by
  induction l with
  | nil => rfl
  | cons p l ih =>
    have hp : p.1 ∈ idx := hl p.1 (by simp [keys])
    have hiff : idx.idxOf p.1 = k ↔ p.1 = idx.getD k d := by
      rw [getD_eq_getElem _ _ hk]
      constructor
      · rintro rfl
        exact (getElem_idxOf hk).symm
      · intro h
        rw [h, hidx.idxOf_getElem]
    rw [map_cons, coeff_cons, coeff_cons, ih fun i hi => hl i (mem_cons_of_mem _ hi)]
    simp only [hiff]

omit [DecidableEq ι] [CommRing K] in
theorem keys_map_snd (l : List (ι × K)) (g : ι → K → K) :
    keys (l.map fun p => (p.1, g p.1 p.2)) = keys l := by
  simp only [keys, map_map, comp_def]

omit [CommRing K] in
/-- An entry and the entries of other indices are the whole list. -/
theorem perm_cons_filter_key (hl : (keys l).Nodup) {p : ι × K} (hp : p ∈ l) :
    l.Perm (p :: l.filter fun q => !decide (q.1 = p.1)) := by
  induction l with
  | nil => cases hp
  | cons r l ih =>
    obtain ⟨hr, hnodup⟩ := nodup_cons.mp hl
    rcases mem_cons.mp hp with rfl | hp
    · have hall : ∀ q ∈ l, (!decide (q.1 = p.1)) = true := by
        intro q hq
        have hne : q.1 ≠ p.1 := fun h => hr (h ▸ mem_map_of_mem hq)
        simp [hne]
      rw [filter_cons_of_neg (by simp), filter_eq_self.mpr hall]
    · have hne : r.1 ≠ p.1 := fun h => hr (h ▸ mem_map_of_mem hp)
      rw [filter_cons_of_pos (by simp [hne])]
      exact ((ih hnodup hp).cons r).trans (List.Perm.swap p r _)

end Coeff

lemma sum_map_range {M : Type*} [AddCommMonoid M] (f : ℕ → M) (n : ℕ) :
    ((range n).map f).sum = ∑ i ∈ Finset.range n, f i := rfl

lemma sum_map_filter {M κ : Type*} [AddCommMonoid M] (l : List κ) (b : κ → Bool) (f : κ → M) :
    ((l.filter b).map f).sum = (l.map fun k => if b k then f k else 0).sum := by
  induction l with
  | nil => rfl
  | cons k l ih =>
    rw [filter_cons, map_cons, sum_cons, ← ih]
    split_ifs with h
    · rw [map_cons, sum_cons]
    · rw [zero_add]

section Gather

variable [CommRing K] [DecidableEq K]

/-- Each index once, in the order of first occurrence, with its values added up; sums of zero are
dropped. -/
def gather (l : List (ι × K)) : List (ι × K) :=
  ((keys l).reverse.dedup.reverse.map fun i => (i, coeff l i)).filter fun p => decide (p.2 ≠ 0)

lemma mem_gather {l : List (ι × K)} {p : ι × K} (hp : p ∈ gather l) :
    p.1 ∈ keys l ∧ p.2 = coeff l p.1 ∧ p.2 ≠ 0 := by
  obtain ⟨hp, hne⟩ := mem_filter.mp hp
  obtain ⟨i, hi, rfl⟩ := mem_map.mp hp
  exact ⟨by simpa using hi, rfl, of_decide_eq_true hne⟩

lemma keys_gather_nodup (l : List (ι × K)) : (keys (gather l)).Nodup := by
  have hnodup : (keys ((keys l).reverse.dedup.reverse.map fun i => (i, coeff l i))).Nodup := by
    rw [keys, map_map]
    exact (map_id _).symm ▸ nodup_reverse.mpr (nodup_dedup _)
  exact hnodup.sublist (filter_sublist.map Prod.fst)

lemma dot_gather (l : List (ι × K)) (f : ι → K) : dot (gather l) f = dot l f := by
  have hmem : ∀ p ∈ l, p.1 ∈ (keys l).toFinset :=
    fun p hp => List.mem_toFinset.mpr (mem_map_of_mem hp)
  have hkeys : (keys l).reverse.dedup.reverse.toFinset = (keys l).toFinset := by
    ext i
    simp
  rw [dot_eq_sum l f _ hmem, ← hkeys,
    sum_toFinset _ (nodup_reverse.mpr (nodup_dedup _)), dot, gather, sum_map_filter, map_map]
  refine congrArg sum (map_congr_left fun i _ => ?_)
  by_cases hzero : coeff l i = 0
  · simp [hzero]
  · simp [hzero]

end Gather

section Accumulate

variable [CommRing K]

def addAt (f : ι → K) (i : ι) (v : K) : ι → K := update f i (f i + v)

def addAll (f : ι → K) (l : List (ι × K)) : ι → K := l.foldl (fun g p => addAt g p.1 p.2) f

lemma addAt_apply (f : ι → K) (i : ι) (v : K) (k : ι) :
    addAt f i v k = f k + if i = k then v else 0 := by
  unfold addAt
  by_cases h : k = i
  · subst h
    simp
  · rw [update_of_ne h, if_neg (Ne.symm h), add_zero]

lemma addAll_apply (f : ι → K) (l : List (ι × K)) (i : ι) : addAll f l i = f i + coeff l i := by
  induction l generalizing f with
  | nil => simp [addAll]
  | cons p l ih =>
    have h := ih (addAt f p.1 p.2)
    simp only [addAll, foldl_cons] at h ⊢
    rw [h, addAt_apply, coeff_cons]
    ring

end Accumulate

section UpdateAll

def updateAll (f : ι → K) (idx : List ι) (g : ι → K → K) : ι → K :=
  idx.foldl (fun f j => update f j (g j (f j))) f

lemma updateAll_of_notMem (f : ι → K) {idx : List ι} (g : ι → K → K) {j : ι} (hj : j ∉ idx) :
    updateAll f idx g j = f j := by
  induction idx generalizing f with
  | nil => rfl
  | cons i idx ih =>
    rw [mem_cons, not_or] at hj
    have h := ih (update f i (g i (f i))) hj.2
    rw [update_of_ne hj.1] at h
    exact h

lemma updateAll_of_mem (f : ι → K) {idx : List ι} (hidx : idx.Nodup) (g : ι → K → K) {j : ι}
    (hj : j ∈ idx) : updateAll f idx g j = g j (f j) := by
  induction idx generalizing f with
  | nil => cases hj
  | cons i idx ih =>
    rw [nodup_cons] at hidx
    change updateAll (update f i (g i (f i))) idx g j = g j (f j)
    rcases mem_cons.mp hj with rfl | hj
    · rw [updateAll_of_notMem _ _ hidx.1, update_self]
    · have hne : j ≠ i := fun he => hidx.1 (he ▸ hj)
      rw [ih _ hidx.2 hj, update_of_ne hne]

end UpdateAll

section Scatter

def scatter (idx : List ι) (vals : ℕ → K) (base : ι → K) : ι → K :=
  idx.zipIdx.foldl (fun f p => update f p.1 (vals p.2)) base

lemma scatter_append_singleton (idx : List ι) (j : ι) (vals : ℕ → K) (base : ι → K) :
    scatter (idx ++ [j]) vals base =
      update (scatter idx vals base) j (vals idx.length) := by
  simp only [scatter, zipIdx_append, foldl_append, zipIdx_singleton,
    foldl_cons, foldl_nil, zero_add]

variable {idx : List ι}

lemma scatter_of_notMem {j : ι} (vals : ℕ → K) (base : ι → K) (hj : j ∉ idx) :
    scatter idx vals base j = base j := by
  induction idx using reverseRecOn with
  | nil => rfl
  | append_singleton idx i ih =>
    rw [mem_append, mem_singleton, not_or] at hj
    rw [scatter_append_singleton, update_of_ne hj.2, ih hj.1]

lemma scatter_getD (hidx : idx.Nodup) (vals : ℕ → K) (base : ι → K) (d : ι) {k : ℕ}
    (hk : k < idx.length) : scatter idx vals base (idx.getD k d) = vals k := by
  induction idx using reverseRecOn with
  | nil => simp at hk
  | append_singleton idx i ih =>
    rw [nodup_append] at hidx
    rw [scatter_append_singleton]
    by_cases hlt : k < idx.length
    · have hget : (idx ++ [i]).getD k d = idx.getD k d := by
        simp [getD_eq_getElem?_getD, getElem?_append_left hlt]
      have hmem : idx.getD k d ∈ idx := by
        rw [getD_eq_getElem _ _ hlt]
        exact getElem_mem hlt
      have hne : idx.getD k d ≠ i := hidx.2.2 _ hmem i (by simp)
      rw [hget, update_of_ne hne, ih hidx.1 hlt]
    · have hk' : k = idx.length := by simp at hk; omega
      subst hk'
      simp [getD_eq_getElem?_getD]

lemma scatter_of_mem (hidx : idx.Nodup) (vals : ℕ → K) (base : ι → K) {j : ι} (hj : j ∈ idx) :
    scatter idx vals base j = vals (idx.idxOf j) := by
  have hlt := idxOf_lt_length_iff.mpr hj
  have h := scatter_getD hidx vals base j hlt
  rwa [getD_eq_getElem _ _ hlt, getElem_idxOf hlt] at h

lemma scatter_range (n : ℕ) (f : ℕ → K) : scatter (range n) f f = f := by
  funext j
  by_cases hj : j < n
  · have h := scatter_getD (nodup_range (n := n)) f f 0 (k := j) (by simpa using hj)
    rwa [getD_eq_getElem _ _ (by simpa using hj), getElem_range] at h
  · exact scatter_of_notMem f f (by simpa using hj)

end Scatter

end SparseList
