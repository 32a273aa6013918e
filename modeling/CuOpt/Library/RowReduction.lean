import Mathlib

/-! Linear systems in reduced row form: a choice of the free columns gives a solution, every solution
arises so, and a column has one value in all solutions when its row meets no free column. -/

namespace RowReduction

open Finset

variable {ρ ι K : Type*} [Field K]

def Solves (rows : Set ρ) (cols : Finset ι) (A : ρ → ι → K) (b : ρ → K) (x : ι → K) : Prop :=
  ∀ r ∈ rows, ∑ c ∈ cols, A r c * x c = b r

section RowOperations

variable {rows : Set ρ} {cols : Finset ι} {A A' : ρ → ι → K} {b b' : ρ → K} {x : ι → K}

lemma solves_add_multiple {p : ρ} (hp : p ∈ rows) {k : ρ → K} (hk : k p = 0)
    (hA : ∀ r ∈ rows, ∀ c ∈ cols, A' r c = A r c + k r * A p c)
    (hb : ∀ r ∈ rows, b' r = b r + k r * b p) :
    Solves rows cols A' b' x ↔ Solves rows cols A b x := by
  have hsum : ∀ r ∈ rows, ∑ c ∈ cols, A' r c * x c =
      ∑ c ∈ cols, A r c * x c + k r * ∑ c ∈ cols, A p c * x c := by
    intro r hr
    rw [mul_sum, ← sum_add_distrib]
    refine sum_congr rfl fun c hc => ?_
    rw [hA r hr c hc]
    ring
  constructor
  · intro hx r hr
    have hpivot := hx p hp
    rw [hsum p hp, hb p hp, hk, zero_mul, zero_mul, add_zero, add_zero] at hpivot
    have hrow := hx r hr
    rw [hsum r hr, hb r hr, hpivot] at hrow
    exact add_right_cancel hrow
  · intro hx r hr
    rw [hsum r hr, hb r hr, hx r hr, hx p hp]

lemma solves_perm {σ : Equiv.Perm ρ} (hσ : ∀ r, σ r ∈ rows ↔ r ∈ rows)
    (hA : ∀ r ∈ rows, A' r = A (σ r)) (hb : ∀ r ∈ rows, b' r = b (σ r)) :
    Solves rows cols A' b' x ↔ Solves rows cols A b x := by
  constructor
  · intro hx r hr
    have hback : σ.symm r ∈ rows := (hσ _).mp (by rwa [Equiv.apply_symm_apply])
    have hrow := hx _ hback
    rwa [hA _ hback, hb _ hback, Equiv.apply_symm_apply] at hrow
  · intro hx r hr
    rw [hA r hr, hb r hr]
    exact hx _ ((hσ r).mpr hr)

end RowOperations

/-- Each column is free or has a row of its own, where it is one; other columns that are not free are
zero there, and rows of no column are zero. -/
structure Reduced (rows : Set ρ) (cols : Finset ι) (A : ρ → ι → K) (pivotRow : ι → Option ρ) :
    Prop where
  mem : ∀ c ∈ cols, ∀ r, pivotRow c = some r → r ∈ rows
  one : ∀ c ∈ cols, ∀ r, pivotRow c = some r → A r c = 1
  zero : ∀ c ∈ cols, ∀ r, pivotRow c = some r → ∀ r' ∈ rows, r' ≠ r → A r' c = 0
  inj : ∀ c ∈ cols, ∀ c' ∈ cols, ∀ r, pivotRow c = some r → pivotRow c' = some r → c = c'
  unused : ∀ r ∈ rows, (∀ c ∈ cols, pivotRow c ≠ some r) → ∀ c ∈ cols, A r c = 0

variable {rows : Set ρ} {cols : Finset ι} {A : ρ → ι → K} {b : ρ → K} {pivotRow : ι → Option ρ}

def free (cols : Finset ι) (pivotRow : ι → Option ρ) : Finset ι :=
  cols.filter fun c => pivotRow c = none

lemma mem_free {c : ι} : c ∈ free cols pivotRow ↔ c ∈ cols ∧ pivotRow c = none :=
  mem_filter

namespace Reduced

variable (h : Reduced rows cols A pivotRow)

include h

lemma sum_row {c : ι} (hc : c ∈ cols) {r : ρ} (hr : pivotRow c = some r) (x : ι → K) :
    ∑ k ∈ cols, A r k * x k = x c + ∑ f ∈ free cols pivotRow, A r f * x f := by
  have hsplit := sum_filter_add_sum_filter_not cols (fun k => pivotRow k = none)
    (fun k => A r k * x k)
  have hpivots : ∑ k ∈ cols.filter (fun k => ¬pivotRow k = none), A r k * x k = x c := by
    rw [sum_eq_single c]
    · rw [h.one c hc r hr, one_mul]
    · intro k hk hne
      obtain ⟨hkcols, hknone⟩ := mem_filter.mp hk
      obtain ⟨r', hr'⟩ := Option.ne_none_iff_exists'.mp hknone
      have hrow : r ≠ r' := by
        intro heq
        exact hne (h.inj k hkcols c hc r (heq ▸ hr') hr)
      rw [h.zero k hkcols r' hr' r (h.mem c hc r hr) hrow, zero_mul]
    · intro hnot
      refine absurd (mem_filter.mpr ⟨hc, ?_⟩) hnot
      rw [hr]
      exact Option.some_ne_none r
  rw [← hsplit, hpivots, add_comm]
  rfl

lemma solves_of_free (hb : ∀ r ∈ rows, (∀ c ∈ cols, pivotRow c ≠ some r) → b r = 0) (g : ι → K) :
    Solves rows cols A b fun c =>
      (pivotRow c).elim (g c) fun r => b r - ∑ f ∈ free cols pivotRow, A r f * g f := by
  intro r hr
  by_cases hpivot : ∃ c ∈ cols, pivotRow c = some r
  · obtain ⟨c, hc, hcr⟩ := hpivot
    have hfree : ∑ f ∈ free cols pivotRow, A r f * (pivotRow f).elim (g f)
        (fun r => b r - ∑ f ∈ free cols pivotRow, A r f * g f) =
        ∑ f ∈ free cols pivotRow, A r f * g f := by
      refine sum_congr rfl fun f hf => ?_
      rw [(mem_free.mp hf).2, Option.elim_none]
    rw [h.sum_row hc hcr, hfree, hcr, Option.elim_some, sub_add_cancel]
  · have hunused : ∀ c ∈ cols, pivotRow c ≠ some r := fun c hc hcr => hpivot ⟨c, hc, hcr⟩
    rw [hb r hr hunused]
    refine sum_eq_zero fun c hc => ?_
    rw [h.unused r hr hunused c hc, zero_mul]

lemma not_solves {r : ρ} (hr : r ∈ rows) (hunused : ∀ c ∈ cols, pivotRow c ≠ some r)
    (hb : b r ≠ 0) (x : ι → K) : ¬Solves rows cols A b x := by
  intro hx
  refine hb ?_
  rw [← hx r hr]
  refine sum_eq_zero fun c hc => ?_
  rw [h.unused r hr hunused c hc, zero_mul]

lemma determined_iff (hb : ∀ r ∈ rows, (∀ c ∈ cols, pivotRow c ≠ some r) → b r = 0) {c : ι}
    (hc : c ∈ cols) :
    (∀ x y, Solves rows cols A b x → Solves rows cols A b y → x c = y c) ↔
      ∃ r, pivotRow c = some r ∧ ∀ f ∈ free cols pivotRow, A r f = 0 := by
  classical
  constructor
  · intro hall
    have hsolutions := fun g : ι → K =>
      hall _ _ (h.solves_of_free hb g) (h.solves_of_free hb fun _ => 0)
    cases hpivot : pivotRow c with
    | none =>
      -- a free column may be zero and one
      have hone := hsolutions fun _ => 1
      simp only [hpivot, Option.elim_none] at hone
      exact absurd hone one_ne_zero
    | some r =>
      refine ⟨r, rfl, fun f hf => ?_⟩
      have hsingle := hsolutions fun k => if k = f then 1 else 0
      simp only [hpivot, Option.elim_some, mul_zero, sum_const_zero, sub_zero, mul_ite, mul_one,
        sum_ite_eq', if_pos hf] at hsingle
      simpa using hsingle
  · rintro ⟨r, hr, hzero⟩ x y hx hy
    have hvalue : ∀ z, Solves rows cols A b z → z c = b r := by
      intro z hz
      have hrow := hz r (h.mem c hc r hr)
      rw [h.sum_row hc hr, sum_eq_zero fun f hf => by rw [hzero f hf, zero_mul], add_zero] at hrow
      exact hrow
    rw [hvalue x hx, hvalue y hy]

end Reduced

end RowReduction
