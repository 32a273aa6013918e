import Mathlib

/-! Values with infinities and nan, and sums whose infinite terms are counted apart. -/

namespace Activities

open List

inductive Extended (K : Type*) where
  | negInf
  | finite (v : K)
  | posInf
  | nan
  deriving DecidableEq

namespace Extended

variable {K : Type*} [Field K] [LinearOrder K]

def ofLower (b : Option K) : Extended K := b.elim negInf finite

def ofUpper (b : Option K) : Extended K := b.elim posInf finite

/-- Zero times an infinity is nan. -/
def scale (a : K) : Extended K → Extended K
  | negInf => if 0 < a then negInf else if a = 0 then nan else posInf
  | finite v => finite (a * v)
  | posInf => if 0 < a then posInf else if a = 0 then nan else negInf
  | nan => nan

/-- The difference of equal infinities is nan. -/
def sub : Extended K → Extended K → Extended K
  | nan, _ | _, nan => nan
  | negInf, negInf | posInf, posInf => nan
  | negInf, _ | _, posInf => negInf
  | posInf, _ | _, negInf => posInf
  | finite v, finite w => finite (v - w)

lemma sub_scale_eq_finite {a v : K} {e b : Extended K} (h : sub e (scale a b) = finite v) :
    ∃ v₀ w, e = finite v₀ ∧ b = finite w ∧ v = v₀ - a * w := by
  cases b with
  | finite w =>
    cases e with
    | finite v₀ =>
      cases h
      exact ⟨v₀, w, rfl, rfl, rfl⟩
    | _ => cases h
  | nan => cases e <;> cases h
  | _ =>
    unfold scale at h
    split_ifs at h
    all_goals cases e <;> cases h

/-- No comparison with nan holds. -/
def lt : Extended K → Extended K → Bool
  | negInf, finite _ | negInf, posInf | finite _, posInf => true
  | finite v, finite w => decide (v < w)
  | _, _ => false

def neg : Extended K → Extended K
  | negInf => posInf
  | finite v => finite (-v)
  | posInf => negInf
  | nan => nan

@[simp] lemma scale_finite (a v : K) : scale a (finite v) = finite (a * v) := rfl

omit [LinearOrder K] in
@[simp] lemma sub_finite (v w : K) : sub (finite v) (finite w) = finite (v - w) := rfl

omit [LinearOrder K] in
@[simp] lemma neg_finite (v : K) : neg (finite v) = finite (-v) := rfl

omit [LinearOrder K] in
@[simp] lemma neg_negInf : neg (negInf : Extended K) = posInf := rfl

omit [LinearOrder K] in
protected theorem neg_neg (e : Extended K) : neg (neg e) = e := by
  cases e with
  | finite v => exact congrArg finite (by ring)
  | _ => rfl

omit [LinearOrder K] in
lemma neg_eq_negInf_iff (e : Extended K) : neg e = negInf ↔ e = posInf := by
  cases e <;> simp [neg]

omit [LinearOrder K] in
protected theorem neg_sub (e e' : Extended K) : neg (sub e e') = sub (neg e) (neg e') := by
  cases e with
  | finite v =>
    cases e' with
    | finite w => exact congrArg finite (by ring)
    | _ => rfl
  | _ => cases e' <;> rfl

lemma lt_neg_negInf (e : Extended K) : lt e posInf = lt negInf (neg e) := by
  cases e <;> rfl

end Extended

section Sums

variable {κ K : Type*} [AddCommGroup K]

def finiteSum (c : κ → Option K) (l : List κ) : K := (l.map fun q => (c q).getD 0).sum

def numInfinite (c : κ → Option K) (l : List κ) : ℕ := l.countP fun q => (c q).isNone

/-- The term is one if it is infinite. -/
def infiniteTerm (o : Option K) : ℕ := if o.isNone then 1 else 0

variable {l : List κ}

lemma finiteSum_perm (c : κ → Option K) {l' : List κ} (h : l.Perm l') :
    finiteSum c l = finiteSum c l' := (h.map _).sum_eq

omit [AddCommGroup K] in
lemma numInfinite_perm (c : κ → Option K) {l' : List κ} (h : l.Perm l') :
    numInfinite c l = numInfinite c l' := h.countP_eq _

lemma finiteSum_append (c : κ → Option K) (l l' : List κ) :
    finiteSum c (l ++ l') = finiteSum c l + finiteSum c l' := by
  rw [finiteSum, map_append, sum_append]
  rfl

omit [AddCommGroup K] in
lemma numInfinite_append (c : κ → Option K) (l l' : List κ) :
    numInfinite c (l ++ l') = numInfinite c l + numInfinite c l' := countP_append

@[simp] lemma finiteSum_nil (c : κ → Option K) : finiteSum c [] = 0 := rfl

omit [AddCommGroup K] in
@[simp] lemma numInfinite_nil (c : κ → Option K) : numInfinite c [] = 0 := rfl

lemma finiteSum_cons (c : κ → Option K) (q : κ) (l : List κ) :
    finiteSum c (q :: l) = (c q).getD 0 + finiteSum c l := rfl

omit [AddCommGroup K] in
lemma numInfinite_cons (c : κ → Option K) (q : κ) (l : List κ) :
    numInfinite c (q :: l) = infiniteTerm (c q) + numInfinite c l := by
  rw [numInfinite, countP_cons, add_comm]
  rfl

variable [PartialOrder K] [IsOrderedAddMonoid K]

variable {c : κ → Option K} {f : κ → K}

lemma finiteSum_le (hc : ∀ q ∈ l, ∀ v ∈ c q, v ≤ f q) (hl : numInfinite c l = 0) :
    finiteSum c l ≤ (l.map f).sum := by
  refine sum_le_sum fun q hq => ?_
  cases hcq : c q with
  | none =>
    have hnone := countP_eq_zero.mp hl q hq
    rw [hcq] at hnone
    exact absurd rfl hnone
  | some v => exact hc q hq v (by rw [hcq]; rfl)

lemma finiteSum_sub_le {removed rest : List κ} (hc : ∀ q ∈ l, ∀ v ∈ c q, v ≤ f q)
    (hperm : l.Perm (removed ++ rest)) (hnum : numInfinite c l = numInfinite c removed) :
    finiteSum c l - finiteSum c removed ≤ (l.map f).sum - (removed.map f).sum := by
  have hzero : numInfinite c rest = 0 := by
    rw [numInfinite_perm c hperm, numInfinite_append] at hnum
    omega
  have hrest := finiteSum_le
    (fun q hq => hc q (hperm.mem_iff.mpr (mem_append_right removed hq))) hzero
  rw [finiteSum_perm c hperm, (hperm.map f).sum_eq, finiteSum_append, map_append,
    sum_append, add_sub_cancel_left, add_sub_cancel_left]
  exact hrest

lemma le_finiteSum_sub {removed rest : List κ} (hc : ∀ q ∈ l, ∀ v ∈ c q, f q ≤ v)
    (hperm : l.Perm (removed ++ rest)) (hnum : numInfinite c l = numInfinite c removed) :
    (l.map f).sum - (removed.map f).sum ≤ finiteSum c l - finiteSum c removed :=
  finiteSum_sub_le (K := Kᵒᵈ) hc hperm hnum

end Sums

end Activities
