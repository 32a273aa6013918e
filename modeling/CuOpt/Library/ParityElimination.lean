import Mathlib

/-! Sorted lists as sets under symmetric difference, their vectors over the field with two elements,
and spans in which every nonzero vector starts at a recorded pivot. -/

namespace ParityElimination

open List

section Sorted

variable {α : Type*} [LinearOrder α]

def symmetricDifference : List α → List α → List α
  | [], ys => ys
  | xs, [] => xs
  | x :: xs, y :: ys =>
    if x < y then x :: symmetricDifference xs (y :: ys)
    else if y < x then y :: symmetricDifference (x :: xs) ys
    else symmetricDifference xs ys
termination_by xs ys => xs.length + ys.length

lemma mem_or_of_mem {xs ys : List α} {a : α} (h : a ∈ symmetricDifference xs ys) :
    a ∈ xs ∨ a ∈ ys := by
  fun_induction symmetricDifference xs ys with
  | case1 ys => exact .inr h
  | case2 xs => exact .inl h
  | case3 x xs y ys hlt ih =>
    rcases mem_cons.mp h with rfl | h
    · exact .inl mem_cons_self
    · exact (ih h).imp (mem_cons_of_mem x) id
  | case4 x xs y ys hxy hlt ih =>
    rcases mem_cons.mp h with rfl | h
    · exact .inr mem_cons_self
    · exact (ih h).imp id (mem_cons_of_mem y)
  | case5 x xs y ys hxy hyx ih =>
    exact (ih h).imp (mem_cons_of_mem x) (mem_cons_of_mem y)

lemma sorted_symmetricDifference {xs ys : List α} (hx : xs.Pairwise (· < ·))
    (hy : ys.Pairwise (· < ·)) : (symmetricDifference xs ys).Pairwise (· < ·) := by
  fun_induction symmetricDifference xs ys with
  | case1 ys => exact hy
  | case2 xs => exact hx
  | case3 x xs y ys hlt ih =>
    obtain ⟨hx1, hx2⟩ := pairwise_cons.mp hx
    refine pairwise_cons.mpr ⟨?_, ih hx2 hy⟩
    intro a ha
    rcases mem_or_of_mem ha with ha | ha
    · exact hx1 a ha
    · rcases mem_cons.mp ha with rfl | ha
      · exact hlt
      · exact hlt.trans (rel_of_pairwise_cons hy ha)
  | case4 x xs y ys hxy hlt ih =>
    obtain ⟨hy1, hy2⟩ := pairwise_cons.mp hy
    refine pairwise_cons.mpr ⟨?_, ih hx hy2⟩
    intro a ha
    rcases mem_or_of_mem ha with ha | ha
    · rcases mem_cons.mp ha with rfl | ha
      · exact hlt
      · exact hlt.trans (rel_of_pairwise_cons hx ha)
    · exact hy1 a ha
  | case5 x xs y ys hxy hyx ih => exact ih hx.of_cons hy.of_cons

lemma mem_symmetricDifference {xs ys : List α} (hx : xs.Pairwise (· < ·))
    (hy : ys.Pairwise (· < ·)) (a : α) : a ∈ symmetricDifference xs ys ↔ ¬ (a ∈ xs ↔ a ∈ ys) := by
  fun_induction symmetricDifference xs ys with
  | case1 ys | case2 xs => simp
  | case3 x xs y ys hlt ih =>
    have hnot : x ∉ y :: ys := by
      intro hmem
      rcases mem_cons.mp hmem with rfl | hmem
      · exact lt_irrefl _ hlt
      · exact lt_asymm hlt (rel_of_pairwise_cons hy hmem)
    by_cases heq : a = x
    · subst heq
      simp [hnot]
    · have hrest := ih hx.of_cons hy
      rw [mem_cons, mem_cons (b := x), hrest]
      simp only [heq, false_or]
  | case4 x xs y ys hxy hlt ih =>
    have hnot : y ∉ x :: xs := by
      intro hmem
      rcases mem_cons.mp hmem with rfl | hmem
      · exact lt_irrefl _ hlt
      · exact lt_asymm hlt (rel_of_pairwise_cons hx hmem)
    by_cases heq : a = y
    · subst heq
      simp [hnot]
    · have hrest := ih hx hy.of_cons
      rw [mem_cons, mem_cons (b := y), hrest]
      simp only [heq, false_or]
  | case5 x xs y ys hxy hyx ih =>
    have hsame : x = y := le_antisymm (not_lt.mp hyx) (not_lt.mp hxy)
    subst hsame
    have hrest := ih hx.of_cons hy.of_cons
    by_cases heq : a = x
    · subst heq
      have hleft : a ∉ xs := fun h => lt_irrefl a (rel_of_pairwise_cons hx h)
      have hright : a ∉ ys := fun h => lt_irrefl a (rel_of_pairwise_cons hy h)
      rw [hrest]
      simp [hleft, hright]
    · rw [hrest, mem_cons, mem_cons]
      simp only [heq, false_or]

lemma lt_of_mem_symmetricDifference {xs ys : List α} {a b : α}
    (hx : (a :: xs).Pairwise (· < ·)) (hy : (a :: ys).Pairwise (· < ·))
    (h : b ∈ symmetricDifference (a :: xs) (a :: ys)) : a < b := by
  rw [symmetricDifference, if_neg (lt_irrefl a), if_neg (lt_irrefl a)] at h
  rcases mem_or_of_mem h with h | h
  · exact rel_of_pairwise_cons hx h
  · exact rel_of_pairwise_cons hy h

def indicator {β : Type*} [DecidableEq β] (xs : List β) : β → ZMod 2 := fun b =>
  if b ∈ xs then 1 else 0

@[simp] lemma indicator_nil : indicator ([] : List α) = 0 := by
  funext a
  exact if_neg not_mem_nil

lemma indicator_symmetricDifference {xs ys : List α} (hx : xs.Pairwise (· < ·))
    (hy : ys.Pairwise (· < ·)) :
    indicator (symmetricDifference xs ys) = indicator xs + indicator ys := by
  funext a
  have hmem := mem_symmetricDifference hx hy a
  have htwo : (1 : ZMod 2) + 1 = 0 := by decide
  by_cases hax : a ∈ xs <;> by_cases hay : a ∈ ys <;>
    simp only [hax, hay, iff_self, iff_true, iff_false, not_true, not_false_iff] at hmem <;>
    simp [indicator, hax, hay, hmem, htwo]

end Sorted

section Echelon

variable {ι K M : Type*} [LinearOrder ι] [Field K] [AddCommGroup M] [Module K M]

def Leads (v : ι → K) (p : ι) : Prop := v p ≠ 0 ∧ ∀ k < p, v k = 0

lemma Leads.add {v w : ι → K} {p q : ι} (hv : Leads v p) (hw : Leads w q) (hne : p ≠ q) :
    Leads (v + w) (min p q) := by
  rcases lt_or_gt_of_ne hne with hlt | hlt
  · rw [min_eq_left hlt.le]
    refine ⟨?_, fun k hk => ?_⟩
    · rw [Pi.add_apply, hw.2 p hlt, add_zero]
      exact hv.1
    · rw [Pi.add_apply, hv.2 k hk, hw.2 k (hk.trans hlt), add_zero]
  · rw [min_eq_right hlt.le]
    refine ⟨?_, fun k hk => ?_⟩
    · rw [Pi.add_apply, hv.2 q hlt, zero_add]
      exact hw.1
    · rw [Pi.add_apply, hv.2 k (hk.trans hlt), hw.2 k hk, add_zero]

lemma Leads.smul {v : ι → K} {p : ι} {c : K} (hv : Leads v p) (hc : c ≠ 0) : Leads (c • v) p := by
  refine ⟨mul_ne_zero hc hv.1, fun k hk => ?_⟩
  rw [Pi.smul_apply, hv.2 k hk, smul_zero]

/-- Every vector of the span that is not zero starts, in its first part, at one of the pivots. -/
def Echelon (vectors : Set ((ι → K) × M)) (pivots : Set ι) : Prop :=
  ∀ w ∈ Submodule.span K vectors, w = 0 ∨ ∃ p ∈ pivots, Leads w.1 p

lemma echelon_empty : Echelon (∅ : Set ((ι → K) × M)) ∅ := by
  intro w hw
  rw [Submodule.span_empty, Submodule.mem_bot] at hw
  exact .inl hw

lemma Echelon.insert {vectors : Set ((ι → K) × M)} {pivots : Set ι} {v : (ι → K) × M} {p : ι}
    (h : Echelon vectors pivots) (hlead : Leads v.1 p) (hnew : p ∉ pivots) :
    Echelon (insert v vectors) (insert p pivots) := by
  intro w hw
  obtain ⟨c, u, hu, rfl⟩ := Submodule.mem_span_insert.mp hw
  by_cases hc : c = 0
  · subst hc
    rw [zero_smul, zero_add]
    exact (h u hu).imp id fun ⟨q, hq, hlead⟩ => ⟨q, Set.mem_insert_of_mem p hq, hlead⟩
  · right
    have hv : Leads (c • v).1 p := hlead.smul hc
    rcases h u hu with rfl | ⟨q, hq, hu⟩
    · refine ⟨p, Set.mem_insert p pivots, ?_⟩
      rw [add_zero]
      exact hv
    · have hne : p ≠ q := fun heq => hnew (heq ▸ hq)
      refine ⟨min p q, ?_, hv.add hu hne⟩
      rcases min_choice p q with hmin | hmin
      · rw [hmin]
        exact Set.mem_insert p pivots
      · rw [hmin]
        exact Set.mem_insert_of_mem p hq

lemma Echelon.eq_zero {vectors : Set ((ι → K) × M)} {pivots : Set ι} {w : (ι → K) × M}
    (h : Echelon vectors pivots) (hw : w ∈ Submodule.span K vectors) (hzero : w.1 = 0) : w = 0 := by
  rcases h w hw with rfl | ⟨p, -, hlead⟩
  · rfl
  · exact absurd (congrFun hzero p) hlead.1

end Echelon

lemma leads_indicator {α : Type*} [LinearOrder α] {a : α} {xs : List α}
    (h : (a :: xs).Pairwise (· < ·)) : Leads (indicator (a :: xs)) a := by
  refine ⟨?_, fun k hk => ?_⟩
  · rw [indicator, if_pos mem_cons_self]
    exact one_ne_zero
  · refine if_neg fun hmem => ?_
    rcases mem_cons.mp hmem with rfl | hmem
    · exact lt_irrefl _ hk
    · exact lt_asymm hk (rel_of_pairwise_cons h hmem)

end ParityElimination
