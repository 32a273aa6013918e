import CuOpt.Library.QuadProgram

/-! Linear programs with bounded variables: what a dual feasible point says about the objective of
every feasible point, and how much it costs to move one variable off its bound. -/

namespace QuadProgram

open Finset
open Option (getD_some)

namespace Program

variable {R C K : Type*} [Field K] [LinearOrder K] [IsStrictOrderedRing K]

def IsLinear (P : Program R C K) : Prop := ∀ j ∈ P.cols, ∀ k ∈ P.cols, P.q j k = 0

def linearValue (P : Program R C K) (x : C → K) : K := ∑ j ∈ P.cols, P.c j * x j

def boxValue (z : K) (l u : Option K) : K := if 0 < z then z * l.getD 0 else z * u.getD 0

def dualValue (P : Program R C K) (t : Triple R C K) : K :=
  ∑ i ∈ P.rows, P.b i * t.y i + ∑ j ∈ P.cols, boxValue (t.z j) (P.lower j) (P.upper j)

/-- A reduced cost that is not zero has the bound it pushes against. -/
structure DualFeasible (P : Program R C K) (t : Triple R C K) : Prop where
  stationary : P.Stationary t
  lower : ∀ j ∈ P.cols, 0 < t.z j → (P.lower j).isSome = true
  upper : ∀ j ∈ P.cols, t.z j < 0 → (P.upper j).isSome = true

variable {P : Program R C K} {t : Triple R C K} {x : C → K}

omit [IsStrictOrderedRing K] in
theorem linearValue_eq (hlin : P.IsLinear) (hstat : P.Stationary t) (hx : P.Feasible x) :
    P.linearValue x = ∑ i ∈ P.rows, P.b i * t.y i + ∑ j ∈ P.cols, t.z j * x j := by
  have hcost : ∀ j ∈ P.cols, P.c j * x j = P.colValue t.y j * x j + t.z j * x j := by
    intro j hj
    have hgrad : P.gradient t.x j = P.c j := by
      rw [gradient, sum_eq_zero, add_zero]
      intro k hk
      rw [hlin j hj k hk, zero_mul]
    rw [← add_mul, hstat j hj, hgrad]
  have hrows : ∑ j ∈ P.cols, P.colValue t.y j * x j = ∑ i ∈ P.rows, P.b i * t.y i := by
    calc ∑ j ∈ P.cols, P.colValue t.y j * x j
        = ∑ j ∈ P.cols, ∑ i ∈ P.rows, P.a i j * t.y i * x j :=
          sum_congr rfl fun j _ => by rw [colValue, sum_mul]
      _ = ∑ i ∈ P.rows, ∑ j ∈ P.cols, P.a i j * t.y i * x j := sum_comm
      _ = ∑ i ∈ P.rows, P.rowValue x i * t.y i := by
          apply sum_congr rfl
          intro i _
          rw [rowValue, sum_mul]
          exact sum_congr rfl fun j _ => by ring
      _ = ∑ i ∈ P.rows, P.b i * t.y i :=
          sum_congr rfl fun i hi => by rw [hx.1 i hi]
  rw [linearValue, sum_congr rfl hcost, sum_add_distrib, hrows]

lemma boxValue_le {z v : K} {l u : Option K} (hv : InBounds l u v)
    (hl : 0 < z → l.isSome = true) (hu : z < 0 → u.isSome = true) : boxValue z l u ≤ z * v := by
  rcases lt_trichotomy z 0 with hneg | rfl | hpos
  · obtain ⟨w, hw⟩ := Option.isSome_iff_exists.mp (hu hneg)
    rw [boxValue, if_neg hneg.le.not_gt, hw, getD_some]
    exact mul_le_mul_of_nonpos_left (hv.2 w hw) hneg.le
  · simp [boxValue]
  · obtain ⟨w, hw⟩ := Option.isSome_iff_exists.mp (hl hpos)
    rw [boxValue, if_pos hpos, hw, getD_some]
    exact mul_le_mul_of_nonneg_left (hv.1 w hw) hpos.le

variable {k : C}

section

variable (hlin : P.IsLinear) (ht : P.DualFeasible t) (hx : P.Feasible x) (hk : k ∈ P.cols)
include hlin ht hx hk

/-- What one variable adds to the dual value is bounded by the objective. -/
lemma dualValue_add_le :
    P.dualValue t + (t.z k * x k - boxValue (t.z k) (P.lower k) (P.upper k)) ≤ P.linearValue x := by
  classical
  have hbox : ∀ j ∈ P.cols, 0 ≤ t.z j * x j - boxValue (t.z j) (P.lower j) (P.upper j) := by
    intro j hj
    exact sub_nonneg.mpr (boxValue_le (hx.2 j hj) (ht.lower j hj) (ht.upper j hj))
  have hone := single_le_sum hbox hk
  rw [sum_sub_distrib] at hone
  rw [linearValue_eq hlin ht.stationary hx, dualValue]
  linarith

lemma reduced_cost_lower (hz : 0 < t.z k) {l : K} (hl : P.lower k = some l) :
    P.dualValue t + t.z k * (x k - l) ≤ P.linearValue x := by
  have hadd := dualValue_add_le hlin ht hx hk
  rw [boxValue, if_pos hz, hl, getD_some] at hadd
  rw [mul_sub]
  exact hadd

lemma reduced_cost_upper (hz : t.z k < 0) {u : K} (hu : P.upper k = some u) :
    P.dualValue t + t.z k * (x k - u) ≤ P.linearValue x := by
  have hadd := dualValue_add_le hlin ht hx hk
  rw [boxValue, if_neg hz.le.not_gt, hu, getD_some] at hadd
  rw [mul_sub]
  exact hadd

end

end Program

end QuadProgram
