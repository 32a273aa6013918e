import CuOpt.BranchAndBound.ReducedCostBounds
import CuOpt.Library.ReducedCosts

/-! The bounds from reduced costs keep every integral point that is better than all incumbents, in any
order of solving, cutting and tightening; the gate of the tightening looks at the stored pairs
alone. -/

namespace CuOpt.BranchAndBound

open Simplex QuadProgram Program List Function
open ReducedCostBounds (initial)

def IntegerFeasible (lp : LpProblem) (isInteger : ℕ → Bool) (x : ℕ → ℚ) : Prop :=
  lp.toProgram.Feasible x ∧ ∀ j < lp.numCols, isInteger j = true → ∃ k : ℤ, x j = k

/-- A relaxation with the columns of the problem and maybe more still has the point `x`. -/
def Covers (lp₀ lp : LpProblem) (x : ℕ → ℚ) : Prop :=
  ∃ x', (∀ j < lp₀.numCols, x' j = x j) ∧ lp.toProgram.Feasible x' ∧
    lp.toProgram.linearValue x' = lp₀.toProgram.linearValue x

/-- Reduced costs of a linear relaxation, with a value that they prove. -/
structure Certificate (lp : LpProblem) (t : Solution) (relaxationObjective : ℚ) : Prop where
  linear : lp.Q.n = 0
  dual : lp.toProgram.DualFeasible t
  value : relaxationObjective ≤ lp.toProgram.dualValue t

/-- Bounds of the first `n` columns are not loosened, other bounds are kept or not. -/
def Tighter (n : ℕ) (lower upper lower' upper' : ℕ → Option ℚ) : Prop :=
  ∀ j < n, (∀ l ∈ lower j, ∃ l' ∈ lower' j, l ≤ l') ∧ ∀ u ∈ upper j, ∃ u' ∈ upper' j, u' ≤ u

lemma Certificate.isLinear {lp : LpProblem} {t : Solution} {relaxationObjective : ℚ}
    (h : Certificate lp t relaxationObjective) : lp.toProgram.IsLinear := by
  intro i _ k _
  simp only [LpProblem.toProgram, h.linear, lt_irrefl, if_false]

lemma Certificate.lower {lp₀ lp : LpProblem} {t : Solution} {relaxationObjective : ℚ}
    (h : Certificate lp t relaxationObjective) (hcols : lp₀.numCols ≤ lp.numCols) {x : ℕ → ℚ}
    (hx : Covers lp₀ lp x) {j : ℕ} (hj : j < lp₀.numCols) (hz : 0 < t.z j) :
    ∃ l ∈ lp.lower j, relaxationObjective + t.z j * (x j - l) ≤ lp₀.toProgram.linearValue x := by
  have hk : j ∈ lp.toProgram.cols := Finset.mem_range.mpr (hj.trans_le hcols)
  obtain ⟨x', hsame, hfeas, hvalue⟩ := hx
  obtain ⟨l, hl⟩ := Option.isSome_iff_exists.mp (h.dual.lower j hk hz)
  have hcost := reduced_cost_lower h.isLinear h.dual hfeas hk hz hl
  rw [hsame j hj, hvalue] at hcost
  exact ⟨l, hl, (add_le_add_left h.value _).trans hcost⟩

lemma Certificate.upper {lp₀ lp : LpProblem} {t : Solution} {relaxationObjective : ℚ}
    (h : Certificate lp t relaxationObjective) (hcols : lp₀.numCols ≤ lp.numCols) {x : ℕ → ℚ}
    (hx : Covers lp₀ lp x) {j : ℕ} (hj : j < lp₀.numCols) (hz : t.z j < 0) :
    ∃ u ∈ lp.upper j, relaxationObjective + t.z j * (x j - u) ≤ lp₀.toProgram.linearValue x := by
  have hk : j ∈ lp.toProgram.cols := Finset.mem_range.mpr (hj.trans_le hcols)
  obtain ⟨x', hsame, hfeas, hvalue⟩ := hx
  obtain ⟨u, hu⟩ := Option.isSome_iff_exists.mp (h.dual.upper j hk hz)
  have hcost := reduced_cost_upper h.isLinear h.dual hfeas hk hz hu
  rw [hsame j hj, hvalue] at hcost
  exact ⟨u, hu, (add_le_add_left h.value _).trans hcost⟩

namespace ReducedCostBounds

lemma forall_update {α : Type*} {good : ℕ → α → Prop} {table : ℕ → Option α} {j : ℕ}
    {entry : Option α} (h : ∀ k q, table k = some q → good k q) (hentry : ∀ q ∈ entry, good j q) :
    ∀ k q, update table j entry k = some q → good k q := by
  intro k q hq
  by_cases hk : k = j
  · subst hk
    rw [update_self] at hq
    exact hentry q hq
  · rw [update_of_ne hk] at hq
    exact h k q hq

lemma addUpper_cases (r : ReducedCostBounds) (j : ℕ) (p : Option ObjectiveBoundPair) :
    r.addUpper j p = r ∨ ∃ q ∈ p, r.addUpper j p = r.storeUpper j q := by
  cases p with
  | none => exact .inl rfl
  | some p =>
    unfold addUpper addUpperBound
    split_ifs
    · cases r.upperBounds j with
      | none => exact .inr ⟨p, rfl, rfl⟩
      | some q =>
        simp only
        split_ifs with htight hsame
        · exact .inr ⟨p, rfl, rfl⟩
        · rw [← hsame.1]
          exact .inr ⟨p, rfl, rfl⟩
        · exact .inl rfl
    · exact .inl rfl

lemma addLower_cases (r : ReducedCostBounds) (j : ℕ) (p : Option ObjectiveBoundPair) :
    r.addLower j p = r ∨ ∃ q ∈ p, r.addLower j p = r.storeLower j q := by
  cases p with
  | none => exact .inl rfl
  | some p =>
    unfold addLower addLowerBound
    split_ifs
    · cases r.lowerBounds j with
      | none => exact .inr ⟨p, rfl, rfl⟩
      | some q =>
        simp only
        split_ifs with htight hsame
        · exact .inr ⟨p, rfl, rfl⟩
        · rw [← hsame.1]
          exact .inr ⟨p, rfl, rfl⟩
        · exact .inl rfl
    · exact .inl rfl

lemma le_raiseMax (m : WithBot ℚ) (o : ℚ) : m ≤ raiseMax m o ∧ (o : WithBot ℚ) ≤ raiseMax m o := by
  unfold raiseMax
  split_ifs with hlt
  · exact ⟨hlt.le, le_rfl⟩
  · exact ⟨le_rfl, not_lt.mp hlt⟩

section Point

variable {x : ℕ → ℚ} {value : ℚ}

structure Keeps (x : ℕ → ℚ) (value : ℚ) (lowerBounds upperBounds : ℕ → Option ObjectiveBoundPair) :
    Prop where
  lower : ∀ j p, lowerBounds j = some p → value < p.objective → p.bound ≤ x j
  upper : ∀ j p, upperBounds j = some p → value < p.objective → x j ≤ p.bound

variable {relax integerTol b : ℚ} {p : ObjectiveBoundPair}

lemma nextUpper_holds {isInteger : Bool} {lower upper : Option ℚ} {z v l : ℚ}
    (hp : nextUpper isInteger lower upper relax z = some p) (hz : 0 < z) (hl : lower = some l)
    (hcost : relax + z * (v - l) ≤ value) (hint : isInteger = true → ∃ k : ℤ, v = k)
    (hvalue : value < p.objective) : v ≤ p.bound := by
  subst hl
  cases upper with
  | none => cases hp
  | some u =>
    cases isInteger with
    | true =>
      simp only [nextUpper, if_true, true_and] at hp
      split_ifs at hp
      cases hp
      obtain ⟨k, rfl⟩ := hint rfl
      have hlt : z * ((k : ℚ) - l) < z * (u - tol - l) := by
        have hobj : value < relax + (u - tol - l) * z := hvalue
        linarith
      have hk : (k : ℚ) ≤ u - tol := by
        have hsub := lt_of_mul_lt_mul_left hlt hz.le
        linarith
      exact Int.cast_le.mpr (Int.le_floor.mpr hk)
    | false =>
      simp only [nextUpper, Bool.false_eq_true, if_false, false_and] at hp
      cases hp
      have hobj : value < relax + (max (u - 1) l - l) * z := hvalue
      have hlt : z * (v - l) < z * (max (u - 1) l - l) := by linarith
      have hsub := lt_of_mul_lt_mul_left hlt hz.le
      show v ≤ max (u - 1) l
      linarith

lemma nextLower_holds {isInteger : Bool} {lower upper : Option ℚ} {z v u : ℚ}
    (hp : nextLower isInteger lower upper relax z = some p) (hz : z < 0) (hu : upper = some u)
    (hcost : relax + z * (v - u) ≤ value) (hint : isInteger = true → ∃ k : ℤ, v = k)
    (hvalue : value < p.objective) : p.bound ≤ v := by
  subst hu
  cases lower with
  | none => cases hp
  | some l =>
    cases isInteger with
    | true =>
      simp only [nextLower, if_true, true_and] at hp
      split_ifs at hp
      cases hp
      obtain ⟨k, rfl⟩ := hint rfl
      have hlt : z * ((k : ℚ) - u) < z * (l + tol - u) := by
        have hobj : value < relax + (l + tol - u) * z := hvalue
        linarith
      have hk : l + tol ≤ (k : ℚ) := by
        have hsub := (mul_lt_mul_left_of_neg hz).mp hlt
        linarith
      exact Int.cast_le.mpr (Int.ceil_le.mpr hk)
    | false =>
      simp only [nextLower, Bool.false_eq_true, if_false, false_and] at hp
      cases hp
      have hobj : value < relax + (min (l + 1) u - u) * z := hvalue
      have hlt : z * (v - u) < z * (min (l + 1) u - u) := by linarith
      have hsub := (mul_lt_mul_left_of_neg hz).mp hlt
      show min (l + 1) u ≤ v
      linarith

variable {r : ReducedCostBounds} {j n : ℕ}

lemma Keeps.addUpper (h : Keeps x value r.lowerBounds r.upperBounds)
    {p : Option ObjectiveBoundPair} (hp : ∀ q ∈ p, value < q.objective → x j ≤ q.bound) :
    Keeps x value (r.addUpper j p).lowerBounds (r.addUpper j p).upperBounds := by
  rcases addUpper_cases r j p with hr | ⟨q, hq, hr⟩
  · rw [hr]
    exact h
  · rw [hr]
    refine ⟨h.lower, forall_update h.upper ?_⟩
    intro q' hq'
    cases hq'
    exact hp q hq

lemma Keeps.addLower (h : Keeps x value r.lowerBounds r.upperBounds)
    {p : Option ObjectiveBoundPair} (hp : ∀ q ∈ p, value < q.objective → q.bound ≤ x j) :
    Keeps x value (r.addLower j p).lowerBounds (r.addLower j p).upperBounds := by
  rcases addLower_cases r j p with hr | ⟨q, hq, hr⟩
  · rw [hr]
    exact h
  · rw [hr]
    refine ⟨forall_update h.lower ?_, h.upper⟩
    intro q' hq'
    cases hq'
    exact hp q hq

lemma Keeps.mono {lower upper lower' upper' : ℕ → Option ObjectiveBoundPair}
    (h : Keeps x value lower upper) (hlower : ∀ j p, lower' j = some p → lower j = some p)
    (hupper : ∀ j p, upper' j = some p → upper j = some p) : Keeps x value lower' upper' :=
  ⟨fun j p hp => h.lower j p (hlower j p hp), fun j p hp => h.upper j p (hupper j p hp)⟩

structure Priced (n : ℕ) (x : ℕ → ℚ) (value : ℚ) (lower upper : ℕ → Option ℚ)
    (reducedCosts : ℕ → ℚ) (relax : ℚ) : Prop where
  lower : ∀ j < n, 0 < reducedCosts j → ∃ l ∈ lower j, relax + reducedCosts j * (x j - l) ≤ value
  upper : ∀ j < n, reducedCosts j < 0 → ∃ u ∈ upper j, relax + reducedCosts j * (x j - u) ≤ value

lemma Priced.tighter {lower upper lower' upper' : ℕ → Option ℚ} {z : ℕ → ℚ}
    (h : Priced n x value lower upper z relax) (htighter : Tighter n lower upper lower' upper') :
    Priced n x value lower' upper' z relax := by
  constructor
  · intro j hj hz
    obtain ⟨l, hl, hcost⟩ := h.lower j hj hz
    obtain ⟨l', hl', hle⟩ := (htighter j hj).1 l hl
    refine ⟨l', hl', ?_⟩
    have hmul := mul_le_mul_of_nonneg_left hle hz.le
    linarith
  · intro j hj hz
    obtain ⟨u, hu, hcost⟩ := h.upper j hj hz
    obtain ⟨u', hu', hle⟩ := (htighter j hj).2 u hu
    refine ⟨u', hu', ?_⟩
    have hmul := mul_le_mul_of_nonpos_left hle hz.le
    linarith

lemma addUpper_numCols (r : ReducedCostBounds) (j : ℕ) (p : Option ObjectiveBoundPair) :
    (r.addUpper j p).numCols = r.numCols := by
  rcases addUpper_cases r j p with hr | ⟨q, -, hr⟩
  · rw [hr]
  · rw [hr]
    rfl

lemma addLower_numCols (r : ReducedCostBounds) (j : ℕ) (p : Option ObjectiveBoundPair) :
    (r.addLower j p).numCols = r.numCols := by
  rcases addLower_cases r j p with hr | ⟨q, -, hr⟩
  · rw [hr]
  · rw [hr]
    rfl

def storeStep (lp : LpProblem) (integerTol : ℚ) (isInteger : ℕ → Bool)
    (relaxationObjective : ℚ) (reducedCosts : ℕ → ℚ) (basic : ℕ → Bool) (r : ReducedCostBounds)
    (j : ℕ) : ReducedCostBounds :=
  let z := reducedCosts j
  if 100 * integerTol < |z| ∧ basic j = false then
    let r :=
      if 0 < z then
        r.addUpper j (nextUpper (isInteger j) (lp.lower j) (lp.upper j) relaxationObjective z)
      else r
    if z < 0 then
      r.addLower j (nextLower (isInteger j) (lp.lower j) (lp.upper j) relaxationObjective z)
    else r
  else r

lemma storeStep_cases (lp : LpProblem) (integerTol : ℚ) (isInteger : ℕ → Bool) (relax : ℚ)
    (reducedCosts : ℕ → ℚ) (basic : ℕ → Bool) (r : ReducedCostBounds) (j : ℕ) :
    let r' := r.storeStep lp integerTol isInteger relax reducedCosts basic j
    r' = r ∨
      (0 < reducedCosts j ∧ r' = r.addUpper j
        (nextUpper (isInteger j) (lp.lower j) (lp.upper j) relax (reducedCosts j))) ∨
      (reducedCosts j < 0 ∧ r' = r.addLower j
        (nextLower (isInteger j) (lp.lower j) (lp.upper j) relax (reducedCosts j))) := by
  simp only [storeStep]
  by_cases hlarge : 100 * integerTol < |reducedCosts j| ∧ basic j = false
  · rw [if_pos hlarge]
    rcases lt_trichotomy (reducedCosts j) 0 with hneg | hzero | hpos
    · rw [if_neg hneg.le.not_gt, if_pos hneg]
      exact .inr (.inr ⟨hneg, rfl⟩)
    · rw [hzero, if_neg (lt_irrefl _), if_neg (lt_irrefl _)]
      exact .inl rfl
    · rw [if_pos hpos, if_neg hpos.le.not_gt]
      exact .inr (.inl ⟨hpos, rfl⟩)
  · rw [if_neg hlarge]
    exact .inl rfl

lemma storeStep_numCols (lp : LpProblem) (integerTol : ℚ) (isInteger : ℕ → Bool) (relax : ℚ)
    (reducedCosts : ℕ → ℚ) (basic : ℕ → Bool) (js : List ℕ) (r : ReducedCostBounds) :
    (js.foldl (storeStep lp integerTol isInteger relax reducedCosts basic) r).numCols =
      r.numCols := by
  induction js generalizing r with
  | nil => rfl
  | cons j js ih =>
    rw [foldl_cons, ih]
    rcases storeStep_cases lp integerTol isInteger relax reducedCosts basic r j with
      h | ⟨-, h⟩ | ⟨-, h⟩
    · rw [h]
    · rw [h, addUpper_numCols]
    · rw [h, addLower_numCols]

variable {isInteger : ℕ → Bool} {lp : LpProblem} {reducedCosts : ℕ → ℚ}

lemma Keeps.storeSteps {basic : ℕ → Bool}
    (hprice : Priced n x value lp.lower lp.upper reducedCosts relax)
    (hint : ∀ j < n, isInteger j = true → ∃ k : ℤ, x j = k) {js : List ℕ} (hjs : ∀ j ∈ js, j < n)
    (h : Keeps x value r.lowerBounds r.upperBounds) :
    let r' := js.foldl (storeStep lp integerTol isInteger relax reducedCosts basic) r
    Keeps x value r'.lowerBounds r'.upperBounds := by
  induction js generalizing r with
  | nil => exact h
  | cons j js ih =>
    have hj := hjs j mem_cons_self
    apply ih fun k hk => hjs k (mem_cons_of_mem j hk)
    rcases storeStep_cases lp integerTol isInteger relax reducedCosts basic r j with
      hr | ⟨hz, hr⟩ | ⟨hz, hr⟩
    · rw [hr]
      exact h
    · rw [hr]
      apply h.addUpper
      intro q hq
      obtain ⟨l, hl, hcost⟩ := hprice.lower j hj hz
      exact nextUpper_holds hq hz hl hcost (hint j hj)
    · rw [hr]
      apply h.addLower
      intro q hq
      obtain ⟨u, hu, hcost⟩ := hprice.upper j hj hz
      exact nextLower_holds hq hz hu hcost (hint j hj)

/-- The bounds `s` let the point in, are not looser than those of `lp`, and are the same from column
`n` on. -/
structure Good (n : ℕ) (lp : LpProblem) (x : ℕ → ℚ) (s : Strengthened) : Prop where
  inside : ∀ j < n, InBounds (s.lower j) (s.upper j) (x j)
  tighter : Tighter n lp.lower lp.upper s.lower s.upper
  rest : ∀ j, n ≤ j → s.lower j = lp.lower j ∧ s.upper j = lp.upper j

lemma Good.of_column {s s' : Strengthened} (h : Good n lp x s) (hj : j < n)
    (hothers : ∀ k ≠ j, s'.lower k = s.lower k ∧ s'.upper k = s.upper k)
    (hinside : InBounds (s'.lower j) (s'.upper j) (x j))
    (hlower : ∀ l ∈ lp.lower j, ∃ l' ∈ s'.lower j, l ≤ l')
    (hupper : ∀ u ∈ lp.upper j, ∃ u' ∈ s'.upper j, u' ≤ u) : Good n lp x s' := by
  refine ⟨fun k hk => ?_, fun k hk => ?_, fun k hk => ?_⟩
  · by_cases hkj : k = j
    · exact hkj ▸ hinside
    · rw [(hothers k hkj).1, (hothers k hkj).2]
      exact h.inside k hk
  · by_cases hkj : k = j
    · exact hkj ▸ ⟨hlower, hupper⟩
    · rw [(hothers k hkj).1, (hothers k hkj).2]
      exact h.tighter k hk
  · have hkj : k ≠ j := (hj.trans_le hk).ne'
    rw [(hothers k hkj).1, (hothers k hkj).2]
    exact h.rest k hk

lemma Good.setUpper {s : Strengthened} (h : Good n lp x s) (hj : j < n) (hx : x j ≤ b)
    (hb : ∀ u ∈ lp.upper j, b ≤ u) (counted : Bool) : Good n lp x (s.setUpper j b counted) := by
  have hset : (s.setUpper j b counted).upper j = some b := update_self j _ s.upper
  apply h.of_column hj
  · exact fun k hk => ⟨rfl, update_of_ne hk _ s.upper⟩
  · rw [hset]
    refine ⟨(h.inside j hj).1, ?_⟩
    rintro w ⟨⟩
    exact hx
  · exact (h.tighter j hj).1
  · exact fun u hu => ⟨b, hset, hb u hu⟩

lemma Good.setLower {s : Strengthened} (h : Good n lp x s) (hj : j < n) (hx : b ≤ x j)
    (hb : ∀ l ∈ lp.lower j, l ≤ b) (counted : Bool) : Good n lp x (s.setLower j b counted) := by
  have hset : (s.setLower j b counted).lower j = some b := update_self j _ s.lower
  apply h.of_column hj
  · exact fun k hk => ⟨update_of_ne hk _ s.lower, rfl⟩
  · rw [hset]
    refine ⟨?_, (h.inside j hj).2⟩
    rintro w ⟨⟩
    exact hx
  · exact fun l hl => ⟨b, hset, hb l hl⟩
  · exact (h.tighter j hj).2

lemma belowUpper_le {u : Option ℚ} (h : belowUpper u b = true) : ∀ v ∈ u, b ≤ v := by
  intro v hv
  cases hv
  exact (of_decide_eq_true h).le

lemma aboveLower_le {l : Option ℚ} (h : aboveLower l b = true) : ∀ v ∈ l, v ≤ b := by
  intro v hv
  cases hv
  exact (of_decide_eq_true h).le

lemma strengthenInteger_cases (lp : LpProblem) (integerTol : ℚ) (isInteger : ℕ → Bool)
    (reducedCosts : ℕ → ℚ) (absGap : ℚ) (s : Strengthened) (j : ℕ) :
    strengthenInteger lp integerTol isInteger reducedCosts absGap s j = s ∨
      (isInteger j = true ∧ strengthenInteger lp integerTol isInteger reducedCosts absGap s j =
        strengthenLower lp integerTol absGap (reducedCosts j)
          (strengthenUpper lp integerTol absGap (reducedCosts j) s j) j) := by
  cases hinteger : isInteger j with
  | false =>
    refine .inl ?_
    simp only [strengthenInteger, hinteger, true_or, if_true]
  | true =>
    simp only [strengthenInteger]
    split_ifs
    · exact .inl rfl
    · exact .inl rfl
    · exact .inr ⟨trivial, rfl⟩

lemma Good.strengthenUpper (hprice : Priced n x value lp.lower lp.upper reducedCosts relax)
    (hj : j < n) (hint : ∃ k : ℤ, x j = k) {incumbent : ℚ} (htol : 0 ≤ integerTol)
    (hvalue : value < incumbent) {s : Strengthened} (h : Good n lp x s) :
    Good n lp x (strengthenUpper lp integerTol (incumbent - relax) (reducedCosts j) s j) := by
  unfold ReducedCostBounds.strengthenUpper
  cases hl : lp.lower j with
  | none => exact h
  | some l =>
    simp only
    split_ifs with hrc hbelow
    · obtain ⟨l', hl', hcost⟩ := hprice.lower j hj hrc
      rw [hl] at hl'
      cases hl'
      obtain ⟨k, hk⟩ := hint
      apply h.setUpper hj _ (belowUpper_le hbelow)
      rw [hk, Int.cast_le, Int.le_floor, ← hk]
      have hmove : x j - l ≤ (incumbent - relax) / reducedCosts j := by
        rw [le_div_iff₀ hrc]
        linarith
      linarith
    · exact h
    · exact h

lemma Good.strengthenLower (hprice : Priced n x value lp.lower lp.upper reducedCosts relax)
    (hj : j < n) (hint : ∃ k : ℤ, x j = k) {incumbent : ℚ} (htol : 0 ≤ integerTol)
    (hvalue : value < incumbent) {s : Strengthened} (h : Good n lp x s) :
    Good n lp x (strengthenLower lp integerTol (incumbent - relax) (reducedCosts j) s j) := by
  unfold ReducedCostBounds.strengthenLower
  cases hu : lp.upper j with
  | none => exact h
  | some u =>
    simp only
    split_ifs with hrc habove
    · obtain ⟨u', hu', hcost⟩ := hprice.upper j hj hrc
      rw [hu] at hu'
      cases hu'
      obtain ⟨k, hk⟩ := hint
      apply h.setLower hj _ (aboveLower_le habove)
      rw [hk, Int.cast_le, Int.ceil_le, ← hk]
      have hmove : (incumbent - relax) / reducedCosts j ≤ x j - u := by
        rw [div_le_iff_of_neg hrc]
        linarith
      linarith
    · exact h
    · exact h

variable {incumbent : WithTop ℚ}

lemma Good.strengthenIntegers (hprice : Priced n x value lp.lower lp.upper reducedCosts relax)
    (hint : ∀ j < n, isInteger j = true → ∃ k : ℤ, x j = k) (htol : 0 ≤ integerTol)
    (hvalue : (value : WithTop ℚ) < incumbent) (h : Good n lp x ⟨lp.lower, lp.upper, 0⟩) :
    Good n lp x (strengthenIntegers n lp integerTol isInteger reducedCosts relax incumbent
      lp.lower lp.upper) := by
  unfold ReducedCostBounds.strengthenIntegers
  cases incumbent with
  | top => exact h
  | coe incumbent =>
    simp only
    split_ifs
    · have hlt : value < incumbent := WithTop.coe_lt_coe.mp hvalue
      have hrounds : ∀ js : List ℕ, (∀ j ∈ js, j < n) → ∀ s, Good n lp x s → Good n lp x
          (js.foldl (strengthenInteger lp integerTol isInteger reducedCosts
            (incumbent - relax)) s) := by
        intro js hjs
        induction js with
        | nil => exact fun s hs => hs
        | cons j js ih =>
          intro s hs
          have hj := hjs j mem_cons_self
          apply ih fun k hk => hjs k (mem_cons_of_mem j hk)
          rcases strengthenInteger_cases lp integerTol isInteger reducedCosts
            (incumbent - relax) s j with hsame | ⟨hinteger, hboth⟩
          · rw [hsame]
            exact hs
          · rw [hboth]
            have hjint := hint j hj hinteger
            exact (hs.strengthenUpper hprice hj hjint htol hlt).strengthenLower hprice hj hjint
              htol hlt
      exact hrounds _ (fun j hj => mem_range.mp hj) _ h
    · exact h

structure Replaying (n : ℕ) (lp : LpProblem) (x : ℕ → ℚ) (value : ℚ) (s : Replay) : Prop where
  good : Good n lp x s.bounds
  keeps : Keeps x value s.lowerBounds s.upperBounds

/-- What the round of a column does to the pairs of one side: its pair counts for the maximum or is
gone. -/
structure Round (pairs pairs' : ℕ → Option ObjectiveBoundPair) (m m' : WithBot ℚ) (j : ℕ) :
    Prop where
  max_le : m ≤ m'
  kept : ∀ k q, pairs' k = some q → pairs k = some q
  counted : ∀ q, pairs' j = some q → (q.objective : WithBot ℚ) ≤ m'

section

variable {pairs : ℕ → Option ObjectiveBoundPair} {m : WithBot ℚ} {p : ObjectiveBoundPair}

lemma Round.idle (hp : pairs j = none) : Round pairs pairs m m j :=
  ⟨le_rfl, fun _ _ => id, fun _ hq => nomatch hp.symm.trans hq⟩

lemma Round.raise (hp : pairs j = some p) : Round pairs pairs m (raiseMax m p.objective) j := by
  have hraise := le_raiseMax m p.objective
  refine ⟨hraise.1, fun _ _ => id, fun q hq => ?_⟩
  cases hp.symm.trans hq
  exact hraise.2

lemma Round.drop : Round pairs (update pairs j none) m m j := by
  refine ⟨le_rfl, forall_update (fun _ _ => id) nofun, fun q hq => ?_⟩
  rw [update_self] at hq
  cases hq

end

lemma replayLower_round (isInteger : ℕ → Bool) (incumbent : WithTop ℚ) (s : Replay) (j : ℕ) :
    let s' := replayLower isInteger incumbent s j
    s'.upperBounds = s.upperBounds ∧
      Round s.lowerBounds s'.lowerBounds s.maxObjective s'.maxObjective j ∧
      (s'.bounds = s.bounds ∨ ∃ p, s.lowerBounds j = some p ∧ incumbent ≤ p.objective ∧
        aboveLower (s.bounds.lower j) p.bound = true ∧
        s'.bounds = s.bounds.setLower j p.bound (isInteger j)) := by
  unfold replayLower
  cases hp : s.lowerBounds j with
  | none => exact ⟨rfl, .idle hp, .inl rfl⟩
  | some p =>
    dsimp only
    split_ifs with happly
    · exact ⟨rfl, .raise hp, .inr ⟨p, rfl, happly.1, happly.2, rfl⟩⟩
    · exact ⟨rfl, .drop, .inr ⟨p, rfl, happly.1, happly.2, rfl⟩⟩
    · exact ⟨rfl, .raise hp, .inl rfl⟩
    · exact ⟨rfl, .drop, .inl rfl⟩

lemma replayUpper_round (isInteger : ℕ → Bool) (incumbent : WithTop ℚ) (s : Replay) (j : ℕ) :
    let s' := replayUpper isInteger incumbent s j
    s'.lowerBounds = s.lowerBounds ∧
      Round s.upperBounds s'.upperBounds s.maxObjective s'.maxObjective j ∧
      (s'.bounds = s.bounds ∨ ∃ p, s.upperBounds j = some p ∧ incumbent ≤ p.objective ∧
        belowUpper (s.bounds.upper j) p.bound = true ∧
        s'.bounds = s.bounds.setUpper j p.bound (isInteger j)) := by
  unfold replayUpper
  cases hp : s.upperBounds j with
  | none => exact ⟨rfl, .idle hp, .inl rfl⟩
  | some p =>
    dsimp only
    split_ifs with happly
    · exact ⟨rfl, .raise hp, .inr ⟨p, rfl, happly.1, happly.2, rfl⟩⟩
    · exact ⟨rfl, .drop, .inr ⟨p, rfl, happly.1, happly.2, rfl⟩⟩
    · exact ⟨rfl, .raise hp, .inl rfl⟩
    · exact ⟨rfl, .drop, .inl rfl⟩

variable {s : Replay}

lemma Replaying.replayLower (hvalue : (value : WithTop ℚ) < incumbent)
    (h : Replaying n lp x value s) (hj : j < n) :
    Replaying n lp x value (replayLower isInteger incumbent s j) := by
  obtain ⟨hupper, hround, hbounds⟩ := replayLower_round isInteger incumbent s j
  refine ⟨?_, h.keeps.mono hround.kept fun k q hq => hupper ▸ hq⟩
  rcases hbounds with hsame | ⟨p, hp, hgate, habove, hset⟩
  · rw [hsame]
    exact h.good
  · have hlt : value < p.objective := WithTop.coe_lt_coe.mp (hvalue.trans_le hgate)
    rw [hset]
    refine h.good.setLower hj (h.keeps.lower j p hp hlt) ?_ _
    intro l hl
    obtain ⟨l', hl', hle⟩ := (h.good.tighter j hj).1 l hl
    exact hle.trans (aboveLower_le habove l' hl')

lemma Replaying.replayUpper (hvalue : (value : WithTop ℚ) < incumbent)
    (h : Replaying n lp x value s) (hj : j < n) :
    Replaying n lp x value (replayUpper isInteger incumbent s j) := by
  obtain ⟨hlower, hround, hbounds⟩ := replayUpper_round isInteger incumbent s j
  refine ⟨?_, h.keeps.mono (fun k q hq => hlower ▸ hq) hround.kept⟩
  rcases hbounds with hsame | ⟨p, hp, hgate, hbelow, hset⟩
  · rw [hsame]
    exact h.good
  · have hlt : value < p.objective := WithTop.coe_lt_coe.mp (hvalue.trans_le hgate)
    rw [hset]
    refine h.good.setUpper hj (h.keeps.upper j p hp hlt) ?_ _
    intro u hu
    obtain ⟨u', hu', hle⟩ := (h.good.tighter j hj).2 u hu
    exact (belowUpper_le hbelow u' hu').trans hle

lemma Replaying.replay (isInteger : ℕ → Bool) (hvalue : (value : WithTop ℚ) < incumbent)
    {js : List ℕ} (hjs : ∀ j ∈ js, j < n) (h : Replaying n lp x value s) :
    Replaying n lp x value (js.foldl (replayStep isInteger incumbent) s) := by
  induction js generalizing s with
  | nil => exact h
  | cons j js ih =>
    have hj := hjs j mem_cons_self
    apply ih fun k hk => hjs k (mem_cons_of_mem j hk)
    exact (h.replayLower hvalue hj).replayUpper hvalue hj

end Point

structure MaxOk (n : ℕ) (lowerBounds upperBounds : ℕ → Option ObjectiveBoundPair)
    (maxObjective : WithBot ℚ) : Prop where
  lower : ∀ j < n, ∀ p, lowerBounds j = some p → (p.objective : WithBot ℚ) ≤ maxObjective
  upper : ∀ j < n, ∀ p, upperBounds j = some p → (p.objective : WithBot ℚ) ≤ maxObjective

variable {n : ℕ} {r : ReducedCostBounds}

lemma MaxOk.mono {lower upper lower' upper' : ℕ → Option ObjectiveBoundPair} {m m' : WithBot ℚ}
    (h : MaxOk n lower upper m) (hlower : ∀ j p, lower' j = some p → lower j = some p)
    (hupper : ∀ j p, upper' j = some p → upper j = some p) (hm : m ≤ m') :
    MaxOk n lower' upper' m' :=
  ⟨fun j hj p hp => (h.lower j hj p (hlower j p hp)).trans hm,
    fun j hj p hp => (h.upper j hj p (hupper j p hp)).trans hm⟩

lemma counted_update {pairs : ℕ → Option ObjectiveBoundPair} {m : WithBot ℚ}
    (h : ∀ j < n, ∀ p, pairs j = some p → (p.objective : WithBot ℚ) ≤ m) (j : ℕ)
    (q : ObjectiveBoundPair) : ∀ k < n, ∀ p, update pairs j (some q) k = some p →
      (p.objective : WithBot ℚ) ≤ raiseMax m q.objective := by
  have hraise := le_raiseMax m q.objective
  intro k hk p hp
  by_cases hkj : k = j
  · rw [hkj, update_self] at hp
    cases hp
    exact hraise.2
  · rw [update_of_ne hkj] at hp
    exact (h k hk p hp).trans hraise.1

lemma MaxOk.addUpper (h : MaxOk n r.lowerBounds r.upperBounds r.maxObjective) (j : ℕ)
    (p : Option ObjectiveBoundPair) :
    MaxOk n (r.addUpper j p).lowerBounds (r.addUpper j p).upperBounds
      (r.addUpper j p).maxObjective := by
  rcases addUpper_cases r j p with hr | ⟨q, -, hr⟩
  · rw [hr]
    exact h
  · rw [hr]
    have hold := h.mono (fun _ _ => id) (fun _ _ => id) (le_raiseMax r.maxObjective q.objective).1
    exact ⟨hold.lower, counted_update h.upper j q⟩

lemma MaxOk.addLower (h : MaxOk n r.lowerBounds r.upperBounds r.maxObjective) (j : ℕ)
    (p : Option ObjectiveBoundPair) :
    MaxOk n (r.addLower j p).lowerBounds (r.addLower j p).upperBounds
      (r.addLower j p).maxObjective := by
  rcases addLower_cases r j p with hr | ⟨q, -, hr⟩
  · rw [hr]
    exact h
  · rw [hr]
    have hold := h.mono (fun _ _ => id) (fun _ _ => id) (le_raiseMax r.maxObjective q.objective).1
    exact ⟨counted_update h.lower j q, hold.upper⟩

lemma MaxOk.storeSteps {lp : LpProblem} {integerTol : ℚ} {isInteger : ℕ → Bool} {relax : ℚ}
    {reducedCosts : ℕ → ℚ} {basic : ℕ → Bool} (js : List ℕ)
    (h : MaxOk n r.lowerBounds r.upperBounds r.maxObjective) :
    let r' := js.foldl (storeStep lp integerTol isInteger relax reducedCosts basic) r
    MaxOk n r'.lowerBounds r'.upperBounds r'.maxObjective := by
  induction js generalizing r with
  | nil => exact h
  | cons j js ih =>
    apply ih
    rcases storeStep_cases lp integerTol isInteger relax reducedCosts basic r j with
      hr | ⟨-, hr⟩ | ⟨-, hr⟩
    · rw [hr]
      exact h
    · rw [hr]
      exact h.addUpper j _
    · rw [hr]
      exact h.addLower j _

/-- The pairs of the columns up to `n` that are still stored have been counted. -/
lemma MaxOk.replayStep (isInteger : ℕ → Bool) (incumbent : WithTop ℚ) {s : Replay}
    (h : MaxOk n s.lowerBounds s.upperBounds s.maxObjective) :
    let s' := replayStep isInteger incumbent s n
    MaxOk (n + 1) s'.lowerBounds s'.upperBounds s'.maxObjective := by
  obtain ⟨hupper₁, ⟨hmax₁, hlower₁, hlast₁⟩, -⟩ := replayLower_round isInteger incumbent s n
  obtain ⟨hlower₂, ⟨hmax₂, hupper₂, hlast₂⟩, -⟩ :=
    replayUpper_round isInteger incumbent (replayLower isInteger incumbent s n) n
  have hold : MaxOk n _ _ _ := (h.mono hlower₁ (fun k q hq => hupper₁ ▸ hq) hmax₁).mono
    (fun k q hq => hlower₂ ▸ hq) hupper₂ hmax₂
  refine ⟨fun k hk q hq => ?_, fun k hk q hq => ?_⟩
  · rcases Nat.lt_succ_iff_lt_or_eq.mp hk with hlt | rfl
    · exact hold.lower k hlt q hq
    · exact (hlast₁ q (hlower₂ ▸ hq)).trans hmax₂
  · rcases Nat.lt_succ_iff_lt_or_eq.mp hk with hlt | rfl
    · exact hold.upper k hlt q hq
    · exact hlast₂ q hq

lemma MaxOk.replay (r : ReducedCostBounds) (isInteger : ℕ → Bool) (incumbent : WithTop ℚ)
    (bounds : Strengthened) :
    let s := r.replay isInteger incumbent bounds
    MaxOk r.numCols s.lowerBounds s.upperBounds s.maxObjective := by
  have hrounds : ∀ n : ℕ,
      let start : Replay := ⟨bounds, r.lowerBounds, r.upperBounds, ⊥⟩
      let s := (range n).foldl (ReducedCostBounds.replayStep isInteger incumbent) start
      MaxOk n s.lowerBounds s.upperBounds s.maxObjective := by
    intro n
    induction n with
    | zero => exact ⟨fun j hj => absurd hj j.not_lt_zero, fun j hj => absurd hj j.not_lt_zero⟩
    | succ n ih =>
      simp only [range_succ, foldl_append]
      exact MaxOk.replayStep isInteger incumbent ih
  exact hrounds r.numCols

section Idle

variable {n : ℕ} (isInteger : ℕ → Bool) {incumbent : WithTop ℚ} {m : WithBot ℚ}

variable {s : Replay}

section

variable (hm : ∀ o : ℚ, (o : WithBot ℚ) ≤ m → (o : WithTop ℚ) < incumbent)
include hm

lemma replayLower_idle {j : ℕ} (hj : j < n) (h : MaxOk n s.lowerBounds s.upperBounds m) :
    let s' := replayLower isInteger incumbent s j
    s'.bounds = s.bounds ∧ MaxOk n s'.lowerBounds s'.upperBounds m := by
  obtain ⟨hupper, hround, hbounds⟩ := replayLower_round isInteger incumbent s j
  refine ⟨?_, h.mono hround.kept (fun k q hq => hupper ▸ hq) le_rfl⟩
  rcases hbounds with hsame | ⟨p, hp, hgate, -⟩
  · exact hsame
  · exact absurd hgate (not_le.mpr (hm p.objective (h.lower j hj p hp)))

lemma replayUpper_idle {j : ℕ} (hj : j < n) (h : MaxOk n s.lowerBounds s.upperBounds m) :
    let s' := replayUpper isInteger incumbent s j
    s'.bounds = s.bounds ∧ MaxOk n s'.lowerBounds s'.upperBounds m := by
  obtain ⟨hlower, hround, hbounds⟩ := replayUpper_round isInteger incumbent s j
  refine ⟨?_, h.mono (fun k q hq => hlower ▸ hq) hround.kept le_rfl⟩
  rcases hbounds with hsame | ⟨p, hp, hgate, -⟩
  · exact hsame
  · exact absurd hgate (not_le.mpr (hm p.objective (h.upper j hj p hp)))

lemma replay_idle {js : List ℕ} (hjs : ∀ j ∈ js, j < n)
    (h : MaxOk n s.lowerBounds s.upperBounds m) :
    (js.foldl (replayStep isInteger incumbent) s).bounds = s.bounds := by
  induction js generalizing s with
  | nil => rfl
  | cons j js ih =>
    have hj := hjs j mem_cons_self
    obtain ⟨hbounds, hok⟩ := replayLower_idle isInteger hm hj h
    obtain ⟨hbounds', hok'⟩ := replayUpper_idle isInteger hm hj hok
    have hrest := ih (fun k hk => hjs k (mem_cons_of_mem j hk)) hok'
    exact hrest.trans (hbounds'.trans hbounds)

end

end Idle

end ReducedCostBounds

namespace RootState

open ReducedCostBounds

variable (lp₀ : LpProblem) (integerTol : ℚ) (isInteger : ℕ → Bool)

def Better (s : RootState) (x : ℕ → ℚ) : Prop :=
  ∀ u ∈ s.incumbents, (lp₀.toProgram.linearValue x : WithTop ℚ) < u

/-- Solving, tightening with any incumbent, and cutting or strengthening in between, in any order. A
cut may add columns; it keeps the better integral points and loosens no bound. -/
inductive Reachable : RootState → Prop
  | root {t : Solution} {relax : ℚ} (cert : Certificate lp₀ t relax) :
    Reachable ⟨lp₀, t.z, relax, initial lp₀.numCols, ⊤, []⟩
  | solve {s : RootState} {t : Solution} {relax : ℚ} (basic : ℕ → Bool) (h : Reachable s)
    (cert : Certificate s.lp t relax) : Reachable (s.solve integerTol isInteger t.z relax basic)
  | tighten {s : RootState} (upperBound : WithTop ℚ) (h : Reachable s) :
    Reachable (s.tighten integerTol isInteger upperBound)
  | cut {s : RootState} {lp : LpProblem} (h : Reachable s) (hcols : lp₀.numCols ≤ lp.numCols)
    (htighter : Tighter lp₀.numCols s.lp.lower s.lp.upper lp.lower lp.upper)
    (hcover : ∀ x, IntegerFeasible lp₀ isInteger x → s.Better lp₀ x → Covers lp₀ s.lp x →
      Covers lp₀ lp x) : Reachable { s with lp := lp }

structure Shape (s : RootState) : Prop where
  cols : lp₀.numCols ≤ s.lp.numCols
  numCols : s.bounds.numCols = lp₀.numCols
  maxOk : MaxOk lp₀.numCols s.bounds.lowerBounds s.bounds.upperBounds s.bounds.maxObjective

variable {lp₀ integerTol isInteger}

lemma Reachable.shape {s : RootState} (h : Reachable lp₀ integerTol isInteger s) :
    s.Shape lp₀ := by
  induction h with
  | root cert =>
    refine ⟨le_rfl, rfl, fun j _ p hp => ?_, fun j _ p hp => ?_⟩
    · cases hp
    · cases hp
  | solve basic h cert ih =>
    refine ⟨ih.cols, ?_, ?_⟩
    · rw [← ih.numCols]
      exact storeStep_numCols _ _ _ _ _ _ _ _
    · exact ih.maxOk.storeSteps _
  | @tighten s upperBound h ih =>
    refine ⟨ih.cols, ih.numCols, ?_⟩
    rw [← ih.numCols]
    exact MaxOk.replay s.bounds isInteger upperBound _
  | cut h hcols htighter hcover ih => exact ⟨hcols, ih.numCols, ih.maxOk⟩

structure Holds (lp₀ : LpProblem) (s : RootState) (x : ℕ → ℚ) : Prop where
  covers : Covers lp₀ s.lp x
  keeps : Keeps x (lp₀.toProgram.linearValue x) s.bounds.lowerBounds s.bounds.upperBounds
  priced : Priced lp₀.numCols x (lp₀.toProgram.linearValue x) s.lp.lower s.lp.upper
    s.reducedCosts s.relaxationObjective

lemma priced_of_certificate {lp : LpProblem} {t : Solution} {relax : ℚ}
    (cert : Certificate lp t relax) (hcols : lp₀.numCols ≤ lp.numCols) {x : ℕ → ℚ}
    (hx : Covers lp₀ lp x) :
    Priced lp₀.numCols x (lp₀.toProgram.linearValue x) lp.lower lp.upper t.z relax :=
  ⟨fun _ hj hz => cert.lower hcols hx hj hz, fun _ hj hz => cert.upper hcols hx hj hz⟩

lemma Reachable.holds (htol : 0 ≤ integerTol) {s : RootState}
    (h : Reachable lp₀ integerTol isInteger s) {x : ℕ → ℚ}
    (hx : IntegerFeasible lp₀ isInteger x) (hbetter : s.Better lp₀ x) : s.Holds lp₀ x := by
  induction h with
  | @root t relax cert =>
    have hcovers : Covers lp₀ lp₀ x := ⟨x, fun _ _ => rfl, hx.1, rfl⟩
    refine ⟨hcovers, ⟨fun j p hp => ?_, fun j p hp => ?_⟩,
      priced_of_certificate cert le_rfl hcovers⟩
    · cases hp
    · cases hp
  | @solve s t relax basic h cert ih =>
    have hold := ih hbetter
    have hshape := h.shape
    have hprice := priced_of_certificate cert hshape.cols hold.covers
    refine ⟨hold.covers, ?_, hprice⟩
    apply hold.keeps.storeSteps hprice hx.2
    intro j hj
    rw [← hshape.numCols]
    exact mem_range.mp hj
  | @tighten s upperBound h ih =>
    have hold := ih fun u hu => hbetter u (mem_cons_of_mem _ hu)
    have hvalue := hbetter upperBound mem_cons_self
    have hshape := h.shape
    obtain ⟨x', hsame, hfeas, hobj⟩ := hold.covers
    have hstart : Good lp₀.numCols s.lp x ⟨s.lp.lower, s.lp.upper, 0⟩ := by
      refine ⟨fun j hj => ?_, fun j hj => ⟨fun l hl => ⟨l, hl, le_rfl⟩,
        fun u hu => ⟨u, hu, le_rfl⟩⟩, fun j hj => ⟨rfl, rfl⟩⟩
      rw [← hsame j hj]
      exact hfeas.2 j (Finset.mem_range.mpr (hj.trans_le hshape.cols))
    have hdirect := Good.strengthenIntegers hold.priced hx.2 htol hvalue hstart
    have hready : Replaying lp₀.numCols s.lp x (lp₀.toProgram.linearValue x)
        ⟨strengthenIntegers lp₀.numCols s.lp integerTol isInteger s.reducedCosts
          s.relaxationObjective upperBound s.lp.lower s.lp.upper, s.bounds.lowerBounds,
          s.bounds.upperBounds, ⊥⟩ := ⟨hdirect, hold.keeps⟩
    have hreplay := hready.replay isInteger hvalue
      (fun j hj => mem_range.mp hj : ∀ j ∈ range lp₀.numCols, j < lp₀.numCols)
    have hfinal : Replaying lp₀.numCols s.lp x (lp₀.toProgram.linearValue x)
        (s.bounds.replay isInteger upperBound (strengthenIntegers s.bounds.numCols s.lp integerTol
          isInteger s.reducedCosts s.relaxationObjective upperBound s.lp.lower s.lp.upper)) := by
      unfold ReducedCostBounds.replay
      rw [hshape.numCols]
      exact hreplay
    refine ⟨⟨x', hsame, ⟨hfeas.1, fun j hj => ?_⟩, hobj⟩, hfinal.keeps,
      hold.priced.tighter hfinal.good.tighter⟩
    rcases lt_or_ge j lp₀.numCols with hlt | hge
    · rw [hsame j hlt]
      exact hfinal.good.inside j hlt
    · have hrest := hfinal.good.rest j hge
      have hbox := hfeas.2 j hj
      show InBounds _ _ (x' j)
      simp only [LpProblem.toProgram] at hbox
      rw [← hrest.1, ← hrest.2] at hbox
      exact hbox
  | @cut s lp h hcols htighter hcover ih =>
    have hold := ih hbetter
    exact ⟨hcover x hx hbetter hold.covers, hold.keeps, hold.priced.tighter htighter⟩

/-- Every integral point that is better than all incumbents so far is within the bounds; and a call
that the gate leaves out would have changed nothing but what its own reduced costs change. -/
theorem reduced_costs_keep_improving (htol : 0 ≤ integerTol) {s : RootState}
    (h : Reachable lp₀ integerTol isInteger s) :
    (∀ x, IntegerFeasible lp₀ isInteger x → s.Better lp₀ x →
      ∀ j < lp₀.numCols, InBounds (s.lp.lower j) (s.lp.upper j) (x j)) ∧
    ∀ upperBound, s.gate upperBound = false →
      let direct := strengthenIntegers s.bounds.numCols s.lp integerTol isInteger s.reducedCosts
        s.relaxationObjective upperBound s.lp.lower s.lp.upper
      (s.tighten integerTol isInteger upperBound).lp =
        { s.lp with lower := direct.lower, upper := direct.upper } := by
  have hshape := h.shape
  constructor
  · intro x hx hbetter j hj
    obtain ⟨x', hsame, hfeas, -⟩ := (h.holds htol hx hbetter).covers
    rw [← hsame j hj]
    exact hfeas.2 j (Finset.mem_range.mpr (hj.trans_le hshape.cols))
  · intro upperBound hgate
    have hmax : ∀ o : ℚ, (o : WithBot ℚ) ≤ s.bounds.maxObjective →
        (o : WithTop ℚ) < upperBound := by
      intro o ho
      simp only [gate, Bool.or_eq_false_iff] at hgate
      cases hm : s.bounds.maxObjective with
      | bot =>
        rw [hm] at ho
        exact absurd ho (not_le.mpr (WithBot.bot_lt_coe o))
      | coe m =>
        rw [hm] at ho hgate
        have hlt : (m : WithTop ℚ) < upperBound := by
          rw [← not_le]
          exact of_decide_eq_false hgate.2
        exact (WithTop.coe_le_coe.mpr (WithBot.coe_le_coe.mp ho)).trans_lt hlt
    have hidle := replay_idle isInteger hmax
      (fun j hj => List.mem_range.mp hj : ∀ j ∈ range lp₀.numCols, j < lp₀.numCols)
      (s := ⟨strengthenIntegers s.bounds.numCols s.lp integerTol isInteger s.reducedCosts
        s.relaxationObjective upperBound s.lp.lower s.lp.upper, s.bounds.lowerBounds,
        s.bounds.upperBounds, ⊥⟩) hshape.maxOk
    rw [← hshape.numCols] at hidle
    have hbounds : (s.bounds.replay isInteger upperBound (strengthenIntegers s.bounds.numCols s.lp
        integerTol isInteger s.reducedCosts s.relaxationObjective upperBound s.lp.lower
        s.lp.upper)).bounds = _ := hidle
    simp only [tighten, updateBoundsFromNewIncumbent, hbounds]

/-! Two columns, an integer variable `x 0` with bounds 0 and 3 and a continuous one, which the
objective minimises, with the row `x 1 - x 0 = 0`. -/

def twoColumns : LpProblem where
  numRows := 1
  numCols := 2
  objective := fun j => if j = 1 then 1 else 0
  Q := ⟨0, 0, fun _ => []⟩
  A := ⟨1, 2, fun j => if j = 0 then [(0, -1)] else [(0, 1)]⟩
  rhs := fun _ => 0
  lower := fun _ => some 0
  upper := fun _ => some 3
  objConstant := 0
  coneVarStart := 0
  secondOrderConeDims := []

def firstDual : Solution := ⟨fun _ => 0, fun _ => 0, fun j => if j = 1 then 1 else 0⟩

def secondDual : Solution := ⟨fun _ => 0, fun _ => 1, fun j => if j = 0 then 1 else 0⟩

lemma secondDual_certificate : Certificate twoColumns secondDual 0 := by
  refine ⟨rfl, ⟨?_, ?_, ?_⟩, ?_⟩
  · decide +kernel
  · decide +kernel
  · decide +kernel
  · decide +kernel

def firstIsInteger : ℕ → Bool := fun j => decide (j = 0)

def priced : RootState :=
  ⟨twoColumns, secondDual.z, 0, initial 2, ⊤, []⟩

lemma priced_reachable : Reachable twoColumns (1 / 100000) firstIsInteger priced :=
  Reachable.root secondDual_certificate

/-- With an incumbent of 2.5 the point `2, 2` stays. -/
theorem reduced_costs_keep_improving_two :
    InBounds ((priced.tighten (1 / 100000) firstIsInteger ((5 / 2 : ℚ) : WithTop ℚ)).lp.lower 0)
        ((priced.tighten (1 / 100000) firstIsInteger ((5 / 2 : ℚ) : WithTop ℚ)).lp.upper 0) 2 ∧
      (priced.tighten (1 / 100000) firstIsInteger ((5 / 2 : ℚ) : WithTop ℚ)).lp.upper 0 =
        some 2 := by
  have htol : (0 : ℚ) ≤ 1 / 100000 := by norm_num
  have hfeasible : IntegerFeasible twoColumns firstIsInteger fun _ => 2 := by
    refine ⟨by decide +kernel, ?_⟩
    intro j _ _
    exact ⟨2, rfl⟩
  have hbetter : (priced.tighten (1 / 100000) firstIsInteger
      ((5 / 2 : ℚ) : WithTop ℚ)).Better twoColumns fun _ => 2 := by
    intro u hu
    rw [List.mem_singleton.mp hu, WithTop.coe_lt_coe]
    decide +kernel
  constructor
  · exact (reduced_costs_keep_improving htol (Reachable.tighten _ priced_reachable)).1 (fun _ => 2)
      hfeasible hbetter 0 (by decide)
  · decide +kernel

def worseIncumbent : RootState :=
  (priced.tighten (1 / 100000) firstIsInteger ((5 / 2 : ℚ) : WithTop ℚ)).tighten (1 / 100000)
    firstIsInteger ((4 : ℚ) : WithTop ℚ)

/-- The incumbent 2.995 is used while the reduced cost is on the continuous column. -/
def beforeGate : RootState :=
  (((⟨twoColumns, firstDual.z, 0, initial 2, ⊤, []⟩ : RootState).solve
    (1 / 100000) firstIsInteger firstDual.z 0 fun _ => false).tighten (1 / 100000) firstIsInteger
      ((599 / 200 : ℚ) : WithTop ℚ)).solve (1 / 100000) firstIsInteger secondDual.z 0 fun _ => false

/-- A worse incumbent brings no points back; and the gate leaves out a call whose own reduced costs
would have tightened, since a pair is stored for a bound moved by `tol` and the call allows less. -/
theorem worse_incumbent_and_gate :
    (Reachable twoColumns (1 / 100000) firstIsInteger worseIncumbent ∧
      ∃ x, IntegerFeasible twoColumns firstIsInteger x ∧ twoColumns.toProgram.linearValue x < 4 ∧
        ¬ InBounds (worseIncumbent.lp.lower 0) (worseIncumbent.lp.upper 0) (x 0)) ∧
    (Reachable twoColumns (1 / 100000) firstIsInteger beforeGate ∧
      beforeGate.gate ((599 / 200 : ℚ) : WithTop ℚ) = false ∧ beforeGate.lp.upper 0 = some 3 ∧
      (beforeGate.tighten (1 / 100000) firstIsInteger
        ((599 / 200 : ℚ) : WithTop ℚ)).lp.upper 0 = some 2) := by
  have hreachable : Reachable twoColumns (1 / 100000) firstIsInteger beforeGate := by
    have hfirst : Certificate twoColumns firstDual 0 := by
      refine ⟨rfl, ⟨?_, ?_, ?_⟩, ?_⟩
      · decide +kernel
      · decide +kernel
      · decide +kernel
      · decide +kernel
    apply Reachable.solve
    · exact Reachable.tighten _ (Reachable.solve _ (Reachable.root hfirst) hfirst)
    · refine ⟨rfl, ⟨?_, ?_, ?_⟩, ?_⟩
      · decide +kernel
      · decide +kernel
      · decide +kernel
      · decide +kernel
  refine ⟨⟨?_, fun _ => 3, ?_, ?_, ?_⟩, hreachable, ?_, ?_, ?_⟩
  · exact Reachable.tighten _ (Reachable.tighten _ priced_reachable)
  · refine ⟨by decide +kernel, ?_⟩
    intro j _ _
    exact ⟨3, rfl⟩
  · decide +kernel
  · decide +kernel
  · decide +kernel
  · decide +kernel
  · decide +kernel

end RootState

end CuOpt.BranchAndBound
