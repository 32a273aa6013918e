import CuOpt.Library.QuadReductions

/-! The feasible points of a program restrict to feasible points of the reduced one. -/

namespace QuadProgram.Program

open Finset

variable {R C K : Type*} [Field K] [LE K]

def Restricts (P P' : Program R C K) (restrict : (C → K) → C → K) : Prop :=
  ∀ x, P.Feasible x → P'.Feasible (restrict x)

lemma Restricts.refl (P : Program R C K) : Restricts P P id := fun _ h => h

variable {P Q : Program R C K}

lemma Restricts.trans {S : Program R C K} {f g : (C → K) → C → K} (hf : Restricts P Q f)
    (hg : Restricts Q S g) : Restricts P S (g ∘ f) := fun x h => hg (f x) (hf x h)

omit [Field K] [LE K] in
theorem Agree.symm (h : Agree P Q) : Agree Q P where
  rows := h.rows.symm
  cols := h.cols.symm
  a := fun i hi j hj => (h.a i (h.rows ▸ hi) j (h.cols ▸ hj)).symm
  b := fun i hi => (h.b i (h.rows ▸ hi)).symm
  c := fun j hj => (h.c j (h.cols ▸ hj)).symm
  q := fun j hj k hk => (h.q j (h.cols ▸ hj) k (h.cols ▸ hk)).symm
  const := h.const.symm
  lower := fun j hj => (h.lower j (h.cols ▸ hj)).symm
  upper := fun j hj => (h.upper j (h.cols ▸ hj)).symm

lemma Agree.restricts (h : Agree P Q) : Restricts Q P id :=
  fun _ hx => h.symm.feasible hx

lemma fixCols_restricts [DecidableEq C] {F : Finset C} (h : P.Uncoupled F) (hF : F ⊆ P.cols)
    (v : C → K) : Restricts P (P.fixCols F v) id := by
  intro x hx
  refine ⟨fun i hi => ?_, fun j hj => hx.2 j (mem_sdiff.mp hj).1⟩
  have hrow : ∑ j ∈ P.cols \ F, P.a i j * x j + ∑ j ∈ F, P.a i j * x j = P.b i :=
    (sum_sdiff hF).trans (hx.1 i hi)
  have hzero : ∑ j ∈ F, P.a i j * x j = 0 :=
    sum_eq_zero fun j hj => by rw [(h j hj).1 i hi, zero_mul]
  rwa [hzero, add_zero] at hrow

/-- A row without its pivot entry is a combination of two rows that hold. -/
lemma pivot_restricts [DecidableEq R] [DecidableEq C] {r : R} {j : C} (hj : j ∈ P.cols)
    (hr : r ∈ P.rows) (hrj : P.a r j ≠ 0) : Restricts P (P.pivot r j) id := by
  intro x hx
  refine ⟨fun i hi => ?_, fun k hk => hx.2 k (mem_of_mem_erase hk)⟩
  have hrow : P.a i j * x j + ∑ k ∈ P.cols.erase j, P.a i k * x k = P.b i :=
    (add_sum_erase _ (fun k => P.a i k * x k) hj).trans (hx.1 i (mem_of_mem_erase hi))
  have hpivot : P.a r j * x j + ∑ k ∈ P.cols.erase j, P.a r k * x k = P.b r :=
    (add_sum_erase _ (fun k => P.a r k * x k) hj).trans (hx.1 r hr)
  have hsplit : (P.pivot r j).rowValue x i = ∑ k ∈ P.cols.erase j, P.a i k * x k -
      P.a i j / P.a r j * ∑ k ∈ P.cols.erase j, P.a r k * x k := by
    simp only [rowValue, pivot, sub_mul, sum_sub_distrib, mul_assoc, ← mul_sum]
  rw [id, hsplit, eq_sub_of_add_eq' hrow, eq_sub_of_add_eq' hpivot]
  have hcancel : P.a i j / P.a r j * P.a r j = P.a i j := div_mul_cancel₀ _ hrj
  simp only [pivot]
  linear_combination x j * hcancel

lemma Renumbering.restricts [DecidableEq R] [DecidableEq C] {rows : Finset R} {cols : Finset C}
    {er : R → R} {ec : C → C} {undo : Triple R C K → Triple R C K}
    (h : Renumbering P rows cols er ec undo) :
    Restricts P (P.renumber rows cols er ec) fun x j => x (ec j) := by
  intro x hx
  constructor
  · intro i hi
    have hmem : er i ∈ P.rows := h.image_rows ▸ mem_image_of_mem er hi
    exact (h.sum_cols fun j => P.a (er i) j * x j).symm.trans (hx.1 (er i) hmem)
  · intro j hj
    exact hx.2 (ec j) (h.image_cols ▸ mem_image_of_mem ec hj)

end QuadProgram.Program
