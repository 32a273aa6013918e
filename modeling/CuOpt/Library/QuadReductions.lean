import CuOpt.Library.QuadProgram

/-! Reductions of equality-form quadratic programs: tightening free bounds, sign flips,
shifts, dropping zero rows, fixing uncoupled columns, splitting free columns, pivoting a
free column out, and renumbering. Each comes with the map that undoes it. -/

namespace QuadProgram.Program

open Finset Function
open Set (InjOn)

variable {R C K : Type*} [Field K]

def setBounds (P : Program R C K) (l u : C → Option K) : Program R C K :=
  { P with lower := l, upper := u }

lemma setBounds_recoversFeasible [LE K] (P : Program R C K) (l u : C → Option K)
    (h : ∀ j ∈ P.cols, (l j = P.lower j ∧ u j = P.upper j) ∨ (P.lower j = none ∧ P.upper j = none)) :
    RecoversFeasible (P.setBounds l u) P id := by
  intro t ht
  refine ⟨ht.1, fun j hj => ?_⟩
  rcases h j hj with ⟨hl, hu⟩ | ⟨hl, hu⟩
  · simpa only [setBounds, hl, hu, id] using ht.2 j hj
  · simp [InBounds, hl, hu]

/-- Moves weight `δ` from the reduced costs onto the multiplier of row `i`. -/
def dualShift [DecidableEq R] (P : Program R C K) (i : R) (δ : K) (t : Triple R C K) :
    Triple R C K :=
  { t with y := update t.y i (t.y i + δ), z := fun j => t.z j - P.a i j * δ }

lemma stationary_dualShift [DecidableEq R] (P : Program R C K) {i : R} (hi : i ∈ P.rows)
    (δ : K) {t : Triple R C K} (ht : P.Stationary t) : P.Stationary (P.dualShift i δ t) := by
  intro j hj
  have hrow : P.colValue (update t.y i (t.y i + δ)) j =
      P.colValue t.y j + P.a i j * δ := by
    unfold colValue
    rw [← add_sum_erase _ _ hi, ← add_sum_erase P.rows (fun k => P.a k j * t.y k) hi]
    have hrest : ∑ k ∈ P.rows.erase i, P.a k j * update t.y i (t.y i + δ) k =
        ∑ k ∈ P.rows.erase i, P.a k j * t.y k :=
      sum_congr rfl fun k hk => by rw [update_of_ne (ne_of_mem_erase hk)]
    rw [hrest, update_self]
    ring
  rw [dualShift, hrow]
  linear_combination ht j hj

section Flip

variable [DecidableEq C]

def sign (S : Finset C) (j : C) : K := if j ∈ S then -1 else 1

lemma sign_mul_self (S : Finset C) (j : C) : (sign S j : K) * sign S j = 1 := by
  unfold sign
  split_ifs <;> ring

def flip (P : Program R C K) (S : Finset C) : Program R C K :=
  { P with
    a := fun i j => sign S j * P.a i j
    c := fun j => sign S j * P.c j
    q := fun j k => sign S j * sign S k * P.q j k
    lower := fun j => if j ∈ S then (P.upper j).map Neg.neg else P.lower j
    upper := fun j => if j ∈ S then (P.lower j).map Neg.neg else P.upper j }

def unflip (S : Finset C) (t : Triple R C K) : Triple R C K :=
  { t with x := fun j => sign S j * t.x j, z := fun j => sign S j * t.z j }

lemma flip_recovers (P : Program R C K) (S : Finset C) : Recovers (P.flip S) P (unflip S) := by
  constructor
  · intro t
    simp only [objective, flip, unflip]
    congr 2
    · exact sum_congr rfl fun j _ => by ring
    · congr 1
      exact sum_congr rfl fun i _ => sum_congr rfl fun j _ => by ring
  · intro t ht j hj
    have h := ht j hj
    simp only [colValue, gradient, flip, unflip] at h ⊢
    have hcol : ∑ i ∈ P.rows, sign S j * P.a i j * t.y i =
        sign S j * ∑ i ∈ P.rows, P.a i j * t.y i := by
      rw [mul_sum]
      exact sum_congr rfl fun i _ => by ring
    have hquad : ∑ k ∈ P.cols, sign S j * sign S k * P.q j k * t.x k =
        sign S j * ∑ k ∈ P.cols, P.q j k * (sign S k * t.x k) := by
      rw [mul_sum]
      exact sum_congr rfl fun k _ => by ring
    rw [hcol, hquad] at h
    have hsq := sign_mul_self (K := K) S j
    linear_combination sign S j * h + (P.c j + ∑ k ∈ P.cols, P.q j k * (sign S k * t.x k)
      - ∑ i ∈ P.rows, P.a i j * t.y i) * hsq

lemma flip_recoversFeasible [LinearOrder K] [IsStrictOrderedRing K] (P : Program R C K)
    (S : Finset C) : RecoversFeasible (P.flip S) P (unflip S) := by
  intro t ht
  constructor
  · intro i hi
    have hsum : P.rowValue (unflip S t).x i = (P.flip S).rowValue t.x i :=
      sum_congr rfl fun j _ => by simp only [unflip, flip]; ring
    exact hsum.trans (ht.1 i hi)
  · intro j hj
    have hb := ht.2 j hj
    by_cases hS : j ∈ S
    · simp only [flip, hS, if_true, InBounds, Option.mem_map, forall_exists_index, and_imp,
        forall_apply_eq_imp_iff₂] at hb
      simp only [unflip, sign, hS, if_true, neg_mul, one_mul]
      exact ⟨fun w hw => le_neg_of_le_neg (hb.2 w hw), fun w hw => neg_le_of_neg_le (hb.1 w hw)⟩
    · simpa only [flip, unflip, sign, hS, if_false, one_mul] using hb

end Flip

section Shift

def unshift (s : C → K) (t : Triple R C K) : Triple R C K :=
  { t with x := fun j => t.x j + s j }

lemma shift_objective (P : Program R C K) (s x : C → K) :
    (P.shift s).objective x = P.objective (fun j => x j + s j) := by
  simp only [objective, shift]
  have hlin : ∑ j ∈ P.cols, P.c j * (x j + s j) =
      ∑ j ∈ P.cols, P.c j * x j + ∑ j ∈ P.cols, P.c j * s j := by
    rw [← sum_add_distrib]
    exact sum_congr rfl fun j _ => by ring
  have hquad : ∑ i ∈ P.cols, ∑ j ∈ P.cols, P.q i j * (x i + s i) * (x j + s j) =
      ∑ i ∈ P.cols, ∑ j ∈ P.cols, P.q i j * x i * x j
        + ∑ i ∈ P.cols, ∑ j ∈ P.cols, P.q i j * s j * x i
        + ∑ i ∈ P.cols, ∑ j ∈ P.cols, P.q i j * s i * x j
        + ∑ i ∈ P.cols, ∑ j ∈ P.cols, P.q i j * s i * s j := by
    simp only [← sum_add_distrib]
    exact sum_congr rfl fun i _ => sum_congr rfl fun j _ => by ring
  have hcost : ∑ j ∈ P.cols, (P.c j + 1 / 2 * (∑ k ∈ P.cols, P.q k j * s k
        + ∑ k ∈ P.cols, P.q j k * s k)) * x j =
      ∑ j ∈ P.cols, P.c j * x j + 1 / 2 * ∑ j ∈ P.cols, ∑ k ∈ P.cols, P.q k j * s k * x j
        + 1 / 2 * ∑ j ∈ P.cols, ∑ k ∈ P.cols, P.q j k * s k * x j := by
    simp only [mul_sum, ← sum_add_distrib]
    refine sum_congr rfl fun j _ => ?_
    rw [add_mul, sum_mul, add_assoc, ← sum_add_distrib]
    congr 1
    exact sum_congr rfl fun k _ => by ring
  have hswap : ∑ j ∈ P.cols, ∑ k ∈ P.cols, P.q k j * s k * x j =
      ∑ i ∈ P.cols, ∑ j ∈ P.cols, P.q i j * s i * x j := sum_comm
  rw [hlin, hquad, hcost, hswap]
  ring

lemma shift_recovers [CharZero K] (P : Program R C K) (hsymm : P.Symmetric) (s : C → K) :
    Recovers (P.shift s) P (unshift s) := by
  refine ⟨fun t => P.shift_objective s t.x, fun t ht j hj => ?_⟩
  have h := ht j hj
  simp only [colValue, gradient, shift, unshift] at h ⊢
  have htr : ∑ k ∈ P.cols, P.q k j * s k = ∑ k ∈ P.cols, P.q j k * s k :=
    sum_congr rfl fun k hk => by rw [hsymm k hk j hj]
  have hsum : ∑ k ∈ P.cols, P.q j k * (t.x k + s k) =
      ∑ k ∈ P.cols, P.q j k * t.x k + ∑ k ∈ P.cols, P.q j k * s k := by
    rw [← sum_add_distrib]
    exact sum_congr rfl fun k _ => by ring
  rw [hsum, h, htr]
  ring

lemma shift_recoversFeasible [LinearOrder K] [IsStrictOrderedRing K] (P : Program R C K)
    (s : C → K) : RecoversFeasible (P.shift s) P (unshift s) := by
  intro t ht
  constructor
  · intro i hi
    have h := ht.1 i hi
    simp only [rowValue, shift, unshift] at h ⊢
    have hsum : ∑ j ∈ P.cols, P.a i j * (t.x j + s j) =
        ∑ j ∈ P.cols, P.a i j * t.x j + ∑ j ∈ P.cols, P.a i j * s j := by
      rw [← sum_add_distrib]
      exact sum_congr rfl fun j _ => by ring
    rw [hsum, h]
    ring
  · intro j hj
    have hb := ht.2 j hj
    simp only [shift, InBounds, Option.mem_map, forall_exists_index, and_imp,
      forall_apply_eq_imp_iff₂] at hb
    exact ⟨fun w hw => sub_le_iff_le_add.mp (hb.1 w hw),
      fun w hw => le_sub_iff_add_le.mp (hb.2 w hw)⟩

end Shift

section KeepRows

variable [DecidableEq R]

def keepRows (P : Program R C K) (S : Finset R) : Program R C K := { P with rows := S }

def extendRows (S : Finset R) (t : Triple R C K) : Triple R C K :=
  { t with y := fun i => if i ∈ S then t.y i else 0 }

lemma keepRows_recovers (P : Program R C K) {S : Finset R} (hS : S ⊆ P.rows) :
    Recovers (P.keepRows S) P (extendRows S) := by
  refine ⟨fun _ => rfl, fun t ht j hj => ?_⟩
  have h := ht j hj
  simp only [colValue, gradient, keepRows, extendRows] at h ⊢
  have hsum : ∑ i ∈ P.rows, P.a i j * (if i ∈ S then t.y i else 0) = ∑ i ∈ S, P.a i j * t.y i := by
    simp only [mul_ite, mul_zero]
    rw [sum_ite_mem, inter_eq_right.mpr hS]
  rw [hsum, h]

lemma keepRows_recoversFeasible [LE K] (P : Program R C K) {S : Finset R}
    (hzero : ∀ i ∈ P.rows, i ∉ S → P.b i = 0 ∧ ∀ j ∈ P.cols, P.a i j = 0) :
    RecoversFeasible (P.keepRows S) P (extendRows S) := by
  intro t ht
  refine ⟨fun i hi => ?_, ht.2⟩
  by_cases hiS : i ∈ S
  · exact ht.1 i hiS
  · obtain ⟨hb, ha⟩ := hzero i hi hiS
    rw [hb]
    exact sum_eq_zero fun j hj => by rw [ha j hj, zero_mul]

end KeepRows

section FixCols

variable [DecidableEq C]

def Uncoupled (P : Program R C K) (F : Finset C) : Prop :=
  ∀ j ∈ F, (∀ i ∈ P.rows, P.a i j = 0) ∧ ∀ k ∈ P.cols, k ≠ j → P.q j k = 0 ∧ P.q k j = 0

def refix (P : Program R C K) (F : Finset C) (v : C → K) (t : Triple R C K) : Triple R C K :=
  { t with
    x := fun j => if j ∈ F then v j else t.x j
    z := fun j => if j ∈ F then P.c j + P.q j j * v j else t.z j }

lemma refix_x_of_mem (P : Program R C K) {F : Finset C} (v : C → K) (t : Triple R C K) {j : C}
    (hj : j ∈ F) : (P.refix F v t).x j = v j := by
  simp only [refix, hj, if_true]

lemma refix_x_of_notMem (P : Program R C K) {F : Finset C} (v : C → K) (t : Triple R C K) {j : C}
    (hj : j ∉ F) : (P.refix F v t).x j = t.x j := by
  simp only [refix, hj, if_false]

variable {P : Program R C K} {F : Finset C}

omit [DecidableEq C] in
theorem Uncoupled.sum_q_of_mem (h : P.Uncoupled F) (hF : F ⊆ P.cols) {j : C} (hj : j ∈ F)
    (f : C → K) : ∑ k ∈ P.cols, P.q j k * f k = P.q j j * f j := by
  rw [sum_eq_single_of_mem j (hF hj)]
  intro k hk hkj
  rw [((h j hj).2 k hk hkj).1, zero_mul]

lemma Uncoupled.sum_q_of_notMem (h : P.Uncoupled F) (hF : F ⊆ P.cols) {j : C}
    (hjc : j ∈ P.cols) (hj : j ∉ F) (f : C → K) :
    ∑ k ∈ P.cols, P.q j k * f k = ∑ k ∈ P.cols \ F, P.q j k * f k := by
  rw [← sum_sdiff hF, add_eq_left]
  refine sum_eq_zero fun k hk => ?_
  have hne : j ≠ k := fun he => hj (he ▸ hk)
  rw [((h k hk).2 j hjc hne).2, zero_mul]

lemma sum_refix (P : Program R C K) (hF : F ⊆ P.cols) (v : C → K) (t : Triple R C K)
    (f : C → K → K) :
    ∑ j ∈ P.cols, f j ((P.refix F v t).x j) =
      ∑ j ∈ P.cols \ F, f j (t.x j) + ∑ j ∈ F, f j (v j) := by
  rw [← sum_sdiff hF]
  congr 1
  · exact sum_congr rfl fun j hj => by rw [refix_x_of_notMem P v t (mem_sdiff.mp hj).2]
  · exact sum_congr rfl fun j hj => by rw [refix_x_of_mem P v t hj]

section

variable (h : P.Uncoupled F) (hF : F ⊆ P.cols) (v : C → K)
include h hF v

lemma fixCols_objective (t : Triple R C K) :
    (P.fixCols F v).objective t.x = P.objective (P.refix F v t).x := by
  simp only [objective, fixCols]
  have hlin := P.sum_refix hF v t fun j w => P.c j * w
  have hquad : ∑ i ∈ P.cols, ∑ j ∈ P.cols, P.q i j * (P.refix F v t).x i * (P.refix F v t).x j =
      ∑ i ∈ P.cols \ F, ∑ j ∈ P.cols \ F, P.q i j * t.x i * t.x j
        + ∑ j ∈ F, P.q j j * v j * v j := by
    have hpull (i : C) : ∑ j ∈ P.cols, P.q i j * (P.refix F v t).x i * (P.refix F v t).x j =
        (∑ j ∈ P.cols, P.q i j * (P.refix F v t).x j) * (P.refix F v t).x i := by
      rw [sum_mul]
      exact sum_congr rfl fun j _ => by ring
    simp only [hpull]
    rw [← sum_sdiff hF]
    congr 1
    · refine sum_congr rfl fun i hi => ?_
      obtain ⟨hic, hiF⟩ := mem_sdiff.mp hi
      rw [h.sum_q_of_notMem hF hic hiF, refix_x_of_notMem P v t hiF, sum_mul]
      refine sum_congr rfl fun j hj => ?_
      rw [refix_x_of_notMem P v t (mem_sdiff.mp hj).2]
      ring
    · refine sum_congr rfl fun j hj => ?_
      rw [h.sum_q_of_mem hF hj, refix_x_of_mem P v t hj]
  have hconst : ∑ j ∈ F, (P.c j * v j + 1 / 2 * P.q j j * v j * v j) =
      ∑ j ∈ F, P.c j * v j + 1 / 2 * ∑ j ∈ F, P.q j j * v j * v j := by
    rw [mul_sum, ← sum_add_distrib]
    exact sum_congr rfl fun j _ => by ring
  rw [hlin, hquad, hconst]
  ring

lemma fixCols_recovers :
    Recovers (P.fixCols F v) P (P.refix F v) := by
  refine ⟨fixCols_objective h hF v, fun t ht j hj => ?_⟩
  by_cases hjF : j ∈ F
  · have hcol : P.colValue t.y j = 0 :=
      sum_eq_zero fun i hi => by rw [(h j hjF).1 i hi, zero_mul]
    simp only [gradient, h.sum_q_of_mem hF hjF, refix_x_of_mem P v t hjF]
    simp only [refix, hjF, if_true, hcol, zero_add]
  · have hstat := ht j (mem_sdiff.mpr ⟨hj, hjF⟩)
    simp only [gradient, h.sum_q_of_notMem hF hj hjF]
    simp only [colValue, gradient, fixCols] at hstat
    have hsum : ∑ k ∈ P.cols \ F, P.q j k * (P.refix F v t).x k =
        ∑ k ∈ P.cols \ F, P.q j k * t.x k :=
      sum_congr rfl fun k hk => by rw [refix_x_of_notMem P v t (mem_sdiff.mp hk).2]
    rw [hsum, ← hstat]
    simp only [colValue, refix, hjF, if_false]

lemma fixCols_recoversFeasible [LE K] (hv : ∀ j ∈ F, InBounds (P.lower j) (P.upper j) (v j)) :
    RecoversFeasible (P.fixCols F v) P (P.refix F v) := by
  intro t ht
  constructor
  · intro i hi
    have hzero : ∑ j ∈ F, P.a i j * v j = 0 :=
      sum_eq_zero fun j hj => by rw [(h j hj).1 i hi, zero_mul]
    have hsum := P.sum_refix hF v t fun j w => P.a i j * w
    rw [hzero, add_zero] at hsum
    exact hsum.trans (ht.1 i hi)
  · intro j hj
    by_cases hjF : j ∈ F
    · rw [refix_x_of_mem P v t hjF]
      exact hv j hjF
    · rw [refix_x_of_notMem P v t hjF]
      exact ht.2 j (mem_sdiff.mpr ⟨hj, hjF⟩)

end

end FixCols

section Split

variable [DecidableEq C]

/-- `P'` is `P`, without quadratic part, where every free column `j` of `F` has got a
twin `w j` with the opposite coefficients. -/
structure IsSplit (P' P : Program R C K) (F : Finset C) (w : C → C) : Prop where
  rows : P'.rows = P.rows
  cols : P'.cols = P.cols ∪ F.image w
  subset : F ⊆ P.cols
  fresh : Disjoint P.cols (F.image w)
  injOn : InjOn w F
  a : ∀ i ∈ P.rows, ∀ j ∈ P.cols, P'.a i j = P.a i j
  a_twin : ∀ i ∈ P.rows, ∀ j ∈ F, P'.a i (w j) = -P.a i j
  b : ∀ i ∈ P.rows, P'.b i = P.b i
  c : ∀ j ∈ P.cols, P'.c j = P.c j
  c_twin : ∀ j ∈ F, P'.c (w j) = -P.c j
  q : ∀ j k, P.q j k = 0
  q' : ∀ j k, P'.q j k = 0
  const : P'.const = P.const
  bounds : ∀ j ∈ P.cols, j ∉ F → P'.lower j = P.lower j ∧ P'.upper j = P.upper j
  free : ∀ j ∈ F, P.lower j = none ∧ P.upper j = none

def merge (F : Finset C) (w : C → C) (t : Triple R C K) : Triple R C K :=
  { t with x := fun j => if j ∈ F then t.x j - t.x (w j) else t.x j }

variable {P' P : Program R C K} {F : Finset C} {w : C → C}

lemma IsSplit.sum_merge (h : IsSplit P' P F w) (t : Triple R C K) (f f' : C → K)
    (hf : ∀ j ∈ P.cols, f' j = f j) (hw : ∀ j ∈ F, f' (w j) = -f j) :
    ∑ j ∈ P.cols, f j * (merge F w t).x j = ∑ j ∈ P'.cols, f' j * t.x j := by
  rw [h.cols, sum_union h.fresh, sum_image h.injOn]
  have hmerge (j : C) : f j * (merge F w t).x j =
      f j * t.x j + if j ∈ F then -(f j * t.x (w j)) else 0 := by
    simp only [merge]
    split_ifs <;> ring
  simp only [hmerge, sum_add_distrib]
  rw [sum_ite_mem, inter_eq_right.mpr h.subset]
  congr 1
  · exact sum_congr rfl fun j hj => by rw [hf j hj]
  · exact sum_congr rfl fun j hj => by rw [hw j hj]; ring

lemma IsSplit.recovers (h : IsSplit P' P F w) : Recovers P' P (merge F w) := by
  constructor
  · intro t
    simp only [objective, h.q, h.q', zero_mul, sum_const_zero, h.const]
    rw [h.sum_merge t P.c P'.c h.c h.c_twin]
  · intro t ht j hj
    have hj' : j ∈ P'.cols := h.cols ▸ mem_union_left _ hj
    have hstat := ht j hj'
    simp only [gradient, h.q, h.q', zero_mul, sum_const_zero, colValue, h.rows, h.c j hj] at hstat ⊢
    rw [← hstat]
    congr 1
    exact sum_congr rfl fun i hi => by rw [h.a i hi j hj]; rfl

lemma IsSplit.recoversFeasible [LE K] (h : IsSplit P' P F w) :
    RecoversFeasible P' P (merge F w) := by
  intro t ht
  constructor
  · intro i hi
    have hsum := h.sum_merge t (P.a i) (P'.a i) (h.a i hi) (h.a_twin i hi)
    exact (hsum.trans (ht.1 i (h.rows ▸ hi))).trans (h.b i hi)
  · intro j hj
    by_cases hjF : j ∈ F
    · simp [InBounds, h.free j hjF]
    · obtain ⟨hl, hu⟩ := h.bounds j hj hjF
      rw [← hl, ← hu]
      simpa only [merge, hjF, if_false] using ht.2 j (h.cols ▸ mem_union_left _ hj)

end Split

section Pivot

variable [DecidableEq R] [DecidableEq C]

def pivot (P : Program R C K) (r : R) (j : C) : Program R C K :=
  { P with
    rows := P.rows.erase r
    cols := P.cols.erase j
    a := fun i k => P.a i k - P.a i j / P.a r j * P.a r k
    b := fun i => P.b i - P.a i j / P.a r j * P.b r }

def unpivot (P : Program R C K) (r : R) (j : C) (t : Triple R C K) : Triple R C K where
  x := update t.x j ((P.b r - ∑ k ∈ P.cols.erase j, P.a r k * t.x k) / P.a r j)
  y := update t.y r (-∑ i ∈ P.rows.erase r, P.a i j / P.a r j * t.y i)
  z := update t.z j 0

/-- Column `j` is free, costs nothing and is absent from the quadratic part. -/
structure Slack (P : Program R C K) (j : C) : Prop where
  mem : j ∈ P.cols
  lower : P.lower j = none
  upper : P.upper j = none
  c : P.c j = 0
  q : ∀ k ∈ P.cols, P.q j k = 0
  q' : ∀ k ∈ P.cols, P.q k j = 0

variable {P : Program R C K} {r : R} {j : C}

lemma sum_update_erase (s : Finset C) (hj : j ∈ s) (f x : C → K) (v : K) :
    ∑ k ∈ s, f k * update x j v k = f j * v + ∑ k ∈ s.erase j, f k * x k := by
  rw [← add_sum_erase s _ hj, update_self]
  congr 1
  exact sum_congr rfl fun k hk => by rw [update_of_ne (ne_of_mem_erase hk)]

omit [DecidableEq R] in
theorem Slack.sum_q (h : P.Slack j) {k : C} (hk : k ∈ P.cols) (x : C → K) (v : K) :
    ∑ l ∈ P.cols, P.q k l * update x j v l = ∑ l ∈ P.cols.erase j, P.q k l * x l := by
  rw [sum_update_erase P.cols h.mem, h.q' k hk, zero_mul, zero_add]

omit [DecidableEq R] in
theorem Slack.objective_update (h : P.Slack j) (x : C → K) (v : K) :
    P.objective (update x j v) =
      ∑ k ∈ P.cols.erase j, P.c k * x k
        + 1 / 2 * ∑ k ∈ P.cols.erase j, ∑ l ∈ P.cols.erase j, P.q k l * x k * x l + P.const := by
  unfold objective
  rw [sum_update_erase P.cols h.mem, h.c, zero_mul, zero_add]
  congr 3
  have hpull (k : C) : ∑ l ∈ P.cols, P.q k l * update x j v k * update x j v l =
      (∑ l ∈ P.cols, P.q k l * update x j v l) * update x j v k := by
    rw [sum_mul]
    exact sum_congr rfl fun l _ => by ring
  simp only [hpull]
  rw [sum_update_erase P.cols h.mem, sum_eq_zero fun l hl => by rw [h.q l hl, zero_mul],
    zero_mul, zero_add]
  refine sum_congr rfl fun k hk => ?_
  rw [h.sum_q (mem_of_mem_erase hk), sum_mul]
  exact sum_congr rfl fun l _ => by ring

lemma pivot_recovers (h : P.Slack j) (hr : r ∈ P.rows) (hrj : P.a r j ≠ 0) :
    Recovers (P.pivot r j) P (P.unpivot r j) := by
  refine ⟨fun t => (h.objective_update t.x _).symm, fun t ht k hk => ?_⟩
  have hcol : P.colValue (P.unpivot r j t).y k =
      ∑ i ∈ P.rows.erase r, P.a i k * t.y i
        - P.a r k * ∑ i ∈ P.rows.erase r, P.a i j / P.a r j * t.y i := by
    unfold colValue unpivot
    rw [sum_update_erase P.rows hr (fun i => P.a i k)]
    ring
  have hgrad : P.gradient (P.unpivot r j t).x k =
      P.c k + ∑ l ∈ P.cols.erase j, P.q k l * t.x l := by
    unfold gradient unpivot
    rw [h.sum_q hk]
  rw [hcol, hgrad]
  by_cases hkj : k = j
  · subst hkj
    have hsum : P.a r k * ∑ i ∈ P.rows.erase r, P.a i k / P.a r k * t.y i =
        ∑ i ∈ P.rows.erase r, P.a i k * t.y i := by
      rw [mul_sum]
      exact sum_congr rfl fun i _ => by field_simp
    have hq : ∑ l ∈ P.cols.erase k, P.q k l * t.x l = 0 :=
      sum_eq_zero fun l hl => by rw [h.q l (mem_of_mem_erase hl), zero_mul]
    rw [hsum, hq, h.c]
    simp only [unpivot, update_self, sub_self, add_zero]
  · have hstat := ht k (mem_erase.mpr ⟨hkj, hk⟩)
    simp only [colValue, gradient, pivot] at hstat
    rw [← hstat, mul_sum, ← sum_sub_distrib]
    simp only [unpivot, update_of_ne hkj]
    congr 1
    exact sum_congr rfl fun i _ => by ring

lemma pivot_recoversFeasible [LE K] (h : P.Slack j) (hrj : P.a r j ≠ 0) :
    RecoversFeasible (P.pivot r j) P (P.unpivot r j) := by
  intro t ht
  have hrow (i : R) : P.rowValue (P.unpivot r j t).x i =
      P.a i j * ((P.b r - ∑ k ∈ P.cols.erase j, P.a r k * t.x k) / P.a r j)
        + ∑ k ∈ P.cols.erase j, P.a i k * t.x k :=
    sum_update_erase P.cols h.mem (P.a i) t.x _
  constructor
  · intro i hi
    rw [hrow]
    by_cases hir : i = r
    · subst hir
      field_simp
      ring
    · have hfeas := ht.1 i (mem_erase.mpr ⟨hir, hi⟩)
      simp only [rowValue, pivot, sub_mul, sum_sub_distrib, mul_assoc, ← mul_sum] at hfeas
      linear_combination hfeas
  · intro k hk
    by_cases hkj : k = j
    · subst hkj
      simp [InBounds, h.lower, h.upper]
    · simp only [unpivot, update_of_ne hkj]
      exact ht.2 k (mem_erase.mpr ⟨hkj, hk⟩)

end Pivot

lemma image_range_getD (l : List ℕ) : (range l.length).image (l.getD · 0) = l.toFinset := by
  ext j
  simp only [mem_image, mem_range, List.mem_toFinset, List.mem_iff_getElem]
  constructor
  · rintro ⟨k, hk, rfl⟩
    exact ⟨k, hk, (List.getD_eq_getElem _ _ hk).symm⟩
  · rintro ⟨k, hk, rfl⟩
    exact ⟨k, hk, List.getD_eq_getElem _ _ hk⟩

lemma injOn_getD {l : List ℕ} (hl : l.Nodup) : InjOn (l.getD · 0) (range l.length) := by
  intro i hi k hk h
  simp only [coe_range, Set.mem_Iio] at hi hk h
  rw [List.getD_eq_getElem _ _ hi, List.getD_eq_getElem _ _ hk] at h
  exact (List.Nodup.getElem_inj_iff hl).mp h

section Renumber

variable [DecidableEq R] [DecidableEq C]

def renumber (P : Program R C K) (rows : Finset R) (cols : Finset C) (er : R → R) (ec : C → C) :
    Program R C K where
  rows := rows
  cols := cols
  a := fun i j => P.a (er i) (ec j)
  b := fun i => P.b (er i)
  c := fun j => P.c (ec j)
  q := fun j k => P.q (ec j) (ec k)
  const := P.const
  lower := fun j => P.lower (ec j)
  upper := fun j => P.upper (ec j)

structure Renumbering (P : Program R C K) (rows : Finset R) (cols : Finset C) (er : R → R)
    (ec : C → C) (undo : Triple R C K → Triple R C K) : Prop where
  image_rows : rows.image er = P.rows
  image_cols : cols.image ec = P.cols
  injOn_rows : InjOn er rows
  injOn_cols : InjOn ec cols
  x : ∀ t, ∀ j ∈ cols, (undo t).x (ec j) = t.x j
  y : ∀ t, ∀ i ∈ rows, (undo t).y (er i) = t.y i
  z : ∀ t, ∀ j ∈ cols, (undo t).z (ec j) = t.z j

variable {P : Program R C K} {rows : Finset R} {cols : Finset C} {er : R → R} {ec : C → C}
  {undo : Triple R C K → Triple R C K}

namespace Renumbering

section

variable (h : Renumbering P rows cols er ec undo)
include h

lemma sum_cols (f : C → K) :
    ∑ j ∈ P.cols, f j = ∑ j ∈ cols, f (ec j) := by
  rw [← h.image_cols, sum_image h.injOn_cols]

lemma sum_rows (f : R → K) :
    ∑ i ∈ P.rows, f i = ∑ i ∈ rows, f (er i) := by
  rw [← h.image_rows, sum_image h.injOn_rows]

lemma recovers :
    Recovers (P.renumber rows cols er ec) P undo := by
  constructor
  · intro t
    simp only [objective, renumber, h.sum_cols]
    congr 2
    · exact sum_congr rfl fun j hj => by rw [h.x t j hj]
    · congr 1
      exact sum_congr rfl fun i hi => sum_congr rfl fun j hj => by rw [h.x t i hi, h.x t j hj]
  · intro t ht k hk
    rw [← h.image_cols] at hk
    obtain ⟨j, hj, rfl⟩ := mem_image.mp hk
    have hstat := ht j hj
    simp only [colValue, gradient, renumber] at hstat
    simp only [colValue, gradient, h.sum_cols, h.sum_rows, h.z t j hj]
    calc
      _ = ∑ i ∈ rows, P.a (er i) (ec j) * t.y i + t.z j := by
        congr 1
        exact sum_congr rfl fun i hi => by rw [h.y t i hi]
      _ = _ := hstat
      _ = _ := by
        congr 1
        exact sum_congr rfl fun k hk => by rw [h.x t k hk]

lemma recoversFeasible [LE K] :
    RecoversFeasible (P.renumber rows cols er ec) P undo := by
  intro t ht
  constructor
  · intro k hk
    rw [← h.image_rows] at hk
    obtain ⟨i, hi, rfl⟩ := mem_image.mp hk
    rw [rowValue, h.sum_cols]
    refine Eq.trans (sum_congr rfl fun j hj => ?_) (ht.1 i hi)
    rw [h.x t j hj]
    rfl
  · intro k hk
    rw [← h.image_cols] at hk
    obtain ⟨j, hj, rfl⟩ := mem_image.mp hk
    rw [h.x t j hj]
    exact ht.2 j hj

end

end Renumbering

end Renumber

omit [Field K] in
theorem renumbering_getD {P : Program ℕ ℕ K} {rows cols : List ℕ}
    {undo : Triple ℕ ℕ K → Triple ℕ ℕ K} (hrows : P.rows = rows.toFinset)
    (hcols : P.cols = cols.toFinset) (hrn : rows.Nodup) (hcn : cols.Nodup)
    (hx : ∀ t, ∀ k < cols.length, (undo t).x (cols.getD k 0) = t.x k)
    (hy : ∀ t, ∀ k < rows.length, (undo t).y (rows.getD k 0) = t.y k)
    (hz : ∀ t, ∀ k < cols.length, (undo t).z (cols.getD k 0) = t.z k) :
    Renumbering P (range rows.length) (range cols.length) (rows.getD · 0) (cols.getD · 0) undo where
  image_rows := by rw [hrows, image_range_getD]
  image_cols := by rw [hcols, image_range_getD]
  injOn_rows := injOn_getD hrn
  injOn_cols := injOn_getD hcn
  x := fun t j hj => hx t j (mem_range.mp hj)
  y := fun t i hi => hy t i (mem_range.mp hi)
  z := fun t j hj => hz t j (mem_range.mp hj)

end QuadProgram.Program
