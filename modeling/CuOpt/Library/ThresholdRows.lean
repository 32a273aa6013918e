import Mathlib

/-! Rows `∑ wᵢ xᵢ ≤ t` with nonnegative weights: which rows have the same 0/1 points, and what a row
bounds over the unit cube. -/

namespace ThresholdRows

open List

section Points

variable {α M : Type*} [AddCommMonoid M] [LinearOrder M] [IsOrderedAddMonoid M]
  {ground : Finset α} {feasible : Finset α → Prop} {w : α → M} {t : M}

lemma feasible_iff_of_extremal (hw : ∀ i, 0 ≤ w i)
    (hmax : ∀ s, Maximal (fun s => s ⊆ ground ∧ feasible s) s → ∑ i ∈ s, w i ≤ t)
    (hmin : ∀ s, Minimal (fun s => s ⊆ ground ∧ ¬feasible s) s → t < ∑ i ∈ s, w i)
    {s : Finset α} (hs : s ⊆ ground) : feasible s ↔ ∑ i ∈ s, w i ≤ t := by
  have hmono : ∀ {a b : Finset α}, a ⊆ b → ∑ i ∈ a, w i ≤ ∑ i ∈ b, w i := fun hab =>
    Finset.sum_le_sum_of_subset_of_nonneg hab fun i _ _ => hw i
  have hfin : ∀ p : Finset α → Prop, {s | s ⊆ ground ∧ p s}.Finite := fun p =>
    ground.powerset.finite_toSet.subset fun s hs => Finset.mem_coe.mpr (Finset.mem_powerset.mpr hs.1)
  constructor
  · intro hfeasible
    obtain ⟨b, hsb, hb⟩ := (hfin feasible).exists_le_maximal (a := s) ⟨hs, hfeasible⟩
    exact (hmono hsb).trans (hmax b hb)
  · intro hle
    by_contra hinfeasible
    obtain ⟨b, hbs, hb⟩ := (hfin fun s => ¬feasible s).exists_le_minimal (a := s) ⟨hs, hinfeasible⟩
    exact absurd ((hmin b hb).trans_le (hmono hbs)) (not_lt.mpr hle)

end Points

section Cube

variable {κ K : Type*} [CommRing K] [LinearOrder K] [IsStrictOrderedRing K]
  {v w x : κ → K} {price capacity : K}

lemma yield_le {l : List κ} (hx : ∀ i ∈ l, x i ≤ 1) (hl : ∀ i ∈ l, price * w i ≤ v i) :
    (l.map fun i => v i * x i).sum ≤
      price * (l.map fun i => w i * x i).sum + ((l.map v).sum - price * (l.map w).sum) := by
  induction l with
  | nil => simp
  | cons i l ih =>
    obtain ⟨hxi, hx⟩ := forall_mem_cons.mp hx
    obtain ⟨hi, hl⟩ := forall_mem_cons.mp hl
    have hrest := ih hx hl
    have hgain : 0 ≤ (v i - price * w i) * (1 - x i) :=
      mul_nonneg (sub_nonneg.mpr hi) (sub_nonneg.mpr hxi)
    simp only [map_cons, sum_cons]
    linarith

lemma yield_le_of_cheap {l : List κ} (hx : ∀ i ∈ l, 0 ≤ x i) (hl : ∀ i ∈ l, v i ≤ price * w i) :
    (l.map fun i => v i * x i).sum ≤ price * (l.map fun i => w i * x i).sum := by
  induction l with
  | nil => simp
  | cons i l ih =>
    obtain ⟨hxi, hx⟩ := forall_mem_cons.mp hx
    obtain ⟨hi, hl⟩ := forall_mem_cons.mp hl
    have hrest := ih hx hl
    have hloss := mul_le_mul_of_nonneg_right hi hxi
    simp only [map_cons, sum_cons]
    linarith

lemma yield_le_of_price {taken rest : List κ} (hprice : 0 ≤ price)
    (hx : ∀ i ∈ taken ++ rest, 0 ≤ x i ∧ x i ≤ 1) (htaken : ∀ i ∈ taken, price * w i ≤ v i)
    (hrest : ∀ i ∈ rest, v i ≤ price * w i)
    (hcapacity : ((taken ++ rest).map fun i => w i * x i).sum ≤ capacity) :
    ((taken ++ rest).map fun i => v i * x i).sum ≤
      (taken.map v).sum + price * (capacity - (taken.map w).sum) := by
  rw [map_append, sum_append] at hcapacity ⊢
  have htop := yield_le (fun i hi => (hx i (mem_append_left _ hi)).2) htaken
  have hcheap := yield_le_of_cheap (fun i hi => (hx i (mem_append_right _ hi)).1) hrest
  have hpaid := mul_le_mul_of_nonneg_left hcapacity hprice
  rw [mul_add] at hpaid
  linarith

lemma yield_le_sum {l : List κ} (hv : ∀ i ∈ l, 0 ≤ v i) (hx : ∀ i ∈ l, x i ≤ 1) :
    (l.map fun i => v i * x i).sum ≤ (l.map v).sum := by
  have h := @yield_le κ K _ _ _ v v x 0 l hx fun i hi => by
    rw [zero_mul]
    exact hv i hi
  rwa [zero_mul, zero_mul, zero_add, sub_zero] at h

end Cube

end ThresholdRows
