import CuOpt.Cuts.VariableBounds

/-! Every recorded variable bound is finite and holds at every feasible point. -/

namespace CuOpt.Cuts

open SparseList QuadProgram Activities Activities.Extended List

/-- The value `e` of a term that is `inf` or, for a zero coefficient, nan where the term has no finite
bound. -/
def TermValue (inf : Extended ℚ) (o : Option ℚ) (e : Extended ℚ) : Prop :=
  match o with
  | none => e = inf ∨ e = nan
  | some v => e = finite v

/-- A sum above `-inf` is finite, and then the two terms taken out are all the infinite ones. -/
lemma adjustedLowerActivity_spec {activity : ℚ} {num : ℕ} {oi oj : Option ℚ}
    {ei ej : Extended ℚ} (hi : TermValue negInf oi ei) (hj : TermValue negInf oj ej)
    (hnum : infiniteTerm oi + infiniteTerm oj ≤ num)
    (hlt : lt negInf (adjustedLowerActivity activity num ei ej) = true) :
    num = infiniteTerm oi + infiniteTerm oj ∧
      adjustedLowerActivity activity num ei ej = finite (activity - oi.getD 0 - oj.getD 0) := by
  unfold adjustedLowerActivity at hlt ⊢
  cases oi with
  | some v =>
    cases hi
    cases oj with
    | some w =>
      cases hj
      by_cases hzero : num = 0
      · simp [hzero, infiniteTerm]
      · simp [hzero, lt] at hlt
    | none =>
      have hpos : num ≠ 0 := by
        rintro rfl
        exact absurd hnum (by simp [infiniteTerm])
      rcases hj with rfl | rfl
      · by_cases hone : num = 1
        · simp [hone, infiniteTerm]
        · simp [hpos, hone, lt] at hlt
      · simp [hpos, lt] at hlt
  | none =>
    have hpos : num ≠ 0 := by
      rintro rfl
      exact absurd hnum (by simp [infiniteTerm])
    cases oj with
    | some w =>
      cases hj
      rcases hi with rfl | rfl
      · by_cases hone : num = 1
        · simp [hone, infiniteTerm]
        · simp [hpos, hone, lt] at hlt
      · simp [hpos, lt] at hlt
    | none =>
      have hone : num ≠ 1 := by
        rintro rfl
        exact absurd hnum (by decide)
      rcases hi with rfl | rfl <;> rcases hj with rfl | rfl
      · by_cases htwo : num = 2
        · simp [htwo, infiniteTerm]
        · simp [hpos, hone, htwo, lt] at hlt
      all_goals simp [hpos, hone, lt] at hlt

variable {o : Option ℚ} {e : Extended ℚ}

lemma TermValue.neg (h : TermValue posInf o e) : TermValue negInf (o.map (- ·)) e.neg := by
  cases o with
  | some v =>
    cases h
    rfl
  | none =>
    rcases h with rfl | rfl
    · exact .inl rfl
    · exact .inr rfl

lemma TermValue.of_lt_negInf (h : TermValue negInf o e) (hlt : lt negInf e = true) :
    ∃ v, o = some v ∧ e = finite v := by
  cases o with
  | some v => exact ⟨v, rfl, h⟩
  | none =>
    rcases h with rfl | rfl
    · cases hlt
    · cases hlt

lemma TermValue.of_lt_posInf (h : TermValue posInf o e) (hlt : lt e posInf = true) :
    ∃ v, o = some v ∧ e = finite v := by
  cases o with
  | some v => exact ⟨v, rfl, h⟩
  | none =>
    rcases h with rfl | rfl
    · cases hlt
    · cases hlt

lemma adjustedUpperActivity_eq_neg (activity : ℚ) (num : ℕ) (ei ej : Extended ℚ) :
    adjustedUpperActivity activity num ei ej =
      (adjustedLowerActivity (-activity) num ei.neg ej.neg).neg := by
  unfold adjustedUpperActivity adjustedLowerActivity
  simp only [neg_eq_negInf_iff]
  split_ifs <;> simp [Extended.neg_sub, Extended.neg_neg]

lemma adjustedUpperActivity_spec {activity : ℚ} {num : ℕ} {oi oj : Option ℚ}
    {ei ej : Extended ℚ} (hi : TermValue posInf oi ei) (hj : TermValue posInf oj ej)
    (hnum : infiniteTerm oi + infiniteTerm oj ≤ num)
    (hlt : lt (adjustedUpperActivity activity num ei ej) posInf = true) :
    num = infiniteTerm oi + infiniteTerm oj ∧
      adjustedUpperActivity activity num ei ej = finite (activity - oi.getD 0 - oj.getD 0) := by
  have hterm : ∀ o : Option ℚ, infiniteTerm (o.map (- ·)) = infiniteTerm o := by
    intro o
    cases o <;> rfl
  have hvalue : ∀ o : Option ℚ, (o.map (- ·)).getD 0 = -o.getD 0 := by
    intro o
    cases o with
    | none => exact neg_zero.symm
    | some v => rfl
  rw [adjustedUpperActivity_eq_neg, lt_neg_negInf, Extended.neg_neg] at hlt
  rw [← hterm oi, ← hterm oj] at hnum
  obtain ⟨hcount, hsum⟩ := adjustedLowerActivity_spec hi.neg hj.neg hnum hlt
  rw [hterm, hterm] at hcount
  refine ⟨hcount, ?_⟩
  rw [adjustedUpperActivity_eq_neg, hsum, hvalue, hvalue]
  refine congrArg finite ?_
  ring

namespace LpProblem

variable {lp : LpProblem} {x : ℕ → ℚ} {i j : ℕ} {q : ℕ × ℚ}

lemma termValue_lower (q : ℕ × ℚ) : TermValue negInf (lp.lowerTerm q) (lp.lowerActivity q) := by
  unfold lowerTerm lowerActivity
  split_ifs with hpos
  · cases lp.lower q.1 with
    | none => exact .inl (if_pos hpos)
    | some v => rfl
  · cases lp.upper q.1 with
    | none =>
      by_cases hzero : q.2 = 0
      · exact .inr (by simp [ofUpper, scale, hzero])
      · exact .inl (by simp [ofUpper, scale, hpos, hzero])
    | some v => rfl

lemma termValue_upper (q : ℕ × ℚ) : TermValue posInf (lp.upperTerm q) (lp.upperActivity q) := by
  unfold upperTerm upperActivity
  split_ifs with hpos
  · cases lp.upper q.1 with
    | none => exact .inl (if_pos hpos)
    | some v => rfl
  · cases lp.lower q.1 with
    | none =>
      by_cases hzero : q.2 = 0
      · exact .inr (by simp [ofLower, scale, hzero])
      · exact .inl (by simp [ofLower, scale, hpos, hzero])
    | some v => rfl

lemma lowerTerm_le (h : InBounds (lp.lower q.1) (lp.upper q.1) (x q.1)) :
    ∀ v ∈ lp.lowerTerm q, v ≤ q.2 * x q.1 := by
  intro v hv
  unfold lowerTerm at hv
  split_ifs at hv with hpos
  · obtain ⟨w, hw, rfl⟩ := Option.mem_map.mp hv
    exact mul_le_mul_of_nonneg_left (h.1 w hw) hpos.le
  · obtain ⟨w, hw, rfl⟩ := Option.mem_map.mp hv
    exact mul_le_mul_of_nonpos_left (h.2 w hw) (not_lt.mp hpos)

lemma le_upperTerm (h : InBounds (lp.lower q.1) (lp.upper q.1) (x q.1)) :
    ∀ v ∈ lp.upperTerm q, q.2 * x q.1 ≤ v := by
  intro v hv
  unfold upperTerm at hv
  split_ifs at hv with hpos
  · obtain ⟨w, hw, rfl⟩ := Option.mem_map.mp hv
    exact mul_le_mul_of_nonneg_left (h.2 w hw) hpos.le
  · obtain ⟨w, hw, rfl⟩ := Option.mem_map.mp hv
    exact mul_le_mul_of_nonpos_left (h.1 w hw) (not_lt.mp hpos)

lemma slackMap_mem {s : ℕ × ℚ} (h : lp.slackMap i = some s) :
    s.1 ∈ lp.newSlacks ∧ (i, s.2) ∈ lp.columns s.1 := by
  unfold slackMap at h
  revert h
  induction lp.newSlacks using reverseRecOn with
  | nil =>
    intro h
    cases h
  | append_singleton l k ih =>
    intro h
    rw [foldl_concat] at h
    cases hk : lp.columns k with
    | nil =>
      rw [hk] at h
      exact ⟨mem_append_left _ (ih h).1, (ih h).2⟩
    | cons p column =>
      rw [hk] at h
      dsimp only at h
      by_cases hp : i = p.1
      · subst hp
        rw [Function.update_self] at h
        cases h
        refine ⟨mem_append_right _ (mem_singleton_self k), ?_⟩
        rw [hk]
        exact mem_cons_self
      · rw [Function.update_of_ne hp] at h
        exact ⟨mem_append_left _ (ih h).1, (ih h).2⟩

end LpProblem

/-- A problem whose two copies of the matrix agree and whose slacks are continuous columns. -/
structure SlackForm extends LpProblem where
  rows_nodup : ∀ i < numRows, (keys (rows i)).Nodup
  rows_lt : ∀ i < numRows, ∀ q ∈ rows i, q.1 < numCols
  mem_rows : ∀ j < numCols, ∀ p ∈ columns j, p.1 < numRows ∧ (j, p.2) ∈ rows p.1
  slack_lt : ∀ j ∈ newSlacks, j < numCols
  slack_continuous : ∀ j ∈ newSlacks, varTypes j = .continuous

namespace SlackForm

variable {lp : SlackForm} {x : ℕ → ℚ} {i j : ℕ} {aij : ℚ} {q : ℕ × ℚ}

def slackTerm (lp : SlackForm) (x : ℕ → ℚ) (i : ℕ) : ℚ :=
  (lp.slackMap i).elim 0 fun s => s.2 * x s.1

def term (x : ℕ → ℚ) (q : ℕ × ℚ) : ℚ := q.2 * x q.1

lemma slack_mem_rows {s : ℕ × ℚ} (h : lp.slackMap i = some s) : s ∈ lp.rows i := by
  obtain ⟨hs, hcolumn⟩ := LpProblem.slackMap_mem h
  exact (lp.mem_rows s.1 (lp.slack_lt s.1 hs) _ hcolumn).2

lemma rhs_eq (hx : x ∈ lp.feasible) (hi : i < lp.numRows) :
    lp.rhs i = lp.slackTerm x i + ((lp.rowWithoutSlack i).map (term x)).sum := by
  rw [← hx.1 i hi, slackTerm, LpProblem.rowWithoutSlack]
  cases hs : lp.slackMap i with
  | none =>
    have hall : ∀ q ∈ lp.rows i, (!lp.isSlack i q.1) = true := by
      intro q _
      simp [LpProblem.isSlack, hs]
    rw [filter_eq_self.mpr hall]
    exact (zero_add _).symm
  | some s =>
    have hfilter : (lp.rows i).filter (fun q => !lp.isSlack i q.1) =
        (lp.rows i).filter fun q => !decide (q.1 = s.1) := by
      refine filter_congr fun q _ => ?_
      simp [LpProblem.isSlack, hs, eq_comm]
    rw [hfilter]
    exact dot_perm (perm_cons_filter_key (lp.rows_nodup i hi) (slack_mem_rows hs)) x

lemma inBounds_of_mem (hx : x ∈ lp.feasible) (hi : i < lp.numRows) (hq : q ∈ lp.rows i) :
    InBounds (lp.lower q.1) (lp.upper q.1) (x q.1) :=
  hx.2 q.1 (lp.rows_lt i hi q hq)

lemma mem_rowWithoutSlack (hq : q ∈ lp.rows i) (hinteger : lp.varTypes q.1 ≠ .continuous) :
    q ∈ lp.rowWithoutSlack i := by
  refine mem_filter.mpr ⟨hq, ?_⟩
  cases hs : lp.slackMap i with
  | none => simp [LpProblem.isSlack, hs]
  | some s =>
    have hne : s.1 ≠ q.1 := by
      intro h
      exact hinteger (h ▸ lp.slack_continuous s.1 (LpProblem.slackMap_mem hs).1)
    simp [LpProblem.isSlack, hs, hne]

lemma keys_rowWithoutSlack_nodup (hi : i < lp.numRows) : (keys (lp.rowWithoutSlack i)).Nodup :=
  (lp.rows_nodup i hi).sublist (filter_sublist.map Prod.fst)

/-- A row without its slack, split at an integer column and, unless it is the slack, at the
target. -/
lemma exists_perm (hi : i < lp.numRows) (hj : (j, aij) ∈ lp.rows i) (hq : q ∈ lp.rows i)
    (hcontinuous : lp.varTypes j = .continuous) (hinteger : lp.varTypes q.1 ≠ .continuous) :
    (lp.slackMap i = some (j, aij) ∧ ∃ rest, (lp.rowWithoutSlack i).Perm (q :: rest)) ∨
      ∃ rest, (lp.rowWithoutSlack i).Perm ((j, aij) :: q :: rest) := by
  have hq' := mem_rowWithoutSlack hq hinteger
  have hnodup : (keys (lp.rowWithoutSlack i)).Nodup := keys_rowWithoutSlack_nodup hi
  have hperm := perm_cons_filter_key hnodup hq'
  by_cases hslack : lp.isSlack i j = true
  · left
    refine ⟨?_, _, hperm⟩
    cases hs : lp.slackMap i with
    | none => simp [LpProblem.isSlack, hs] at hslack
    | some s =>
      have hsj : s.1 = j := by simpa [LpProblem.isSlack, hs] using hslack
      have hvalue := coeff_of_mem (lp.rows_nodup i hi) (slack_mem_rows hs)
      rw [hsj, coeff_of_mem (lp.rows_nodup i hi) hj] at hvalue
      exact congrArg some (Prod.ext hsj hvalue.symm)
  · right
    have hne : j ≠ q.1 := fun h => hinteger (h ▸ hcontinuous)
    have hj' : (j, aij) ∈ lp.rowWithoutSlack i := by
      refine mem_filter.mpr ⟨hj, ?_⟩
      simp [hslack]
    have hrest : (j, aij) ∈ (lp.rowWithoutSlack i).filter fun r => !decide (r.1 = q.1) := by
      refine mem_filter.mpr ⟨hj', ?_⟩
      simp [hne]
    have hsplit := perm_cons_filter_key (hnodup.sublist (filter_sublist.map Prod.fst)) hrest
    exact ⟨_, hperm.trans ((hsplit.cons q).trans (List.Perm.swap _ _ _))⟩

lemma sigmaSlackLower_spec (hx : x ∈ lp.feasible) (hi : i < lp.numRows)
    (hlt : lt negInf (lp.sigmaSlackLower i) = true) :
    ∃ v, lp.sigmaSlackLower i = finite v ∧ v ≤ lp.slackTerm x i := by
  unfold LpProblem.sigmaSlackLower slackTerm at *
  cases hs : lp.slackMap i with
  | none => exact ⟨0, rfl, le_rfl⟩
  | some s =>
    rw [hs] at hlt
    obtain ⟨v, hterm, hvalue⟩ := (LpProblem.termValue_lower s).of_lt_negInf hlt
    refine ⟨v, hvalue, LpProblem.lowerTerm_le ?_ v hterm⟩
    exact inBounds_of_mem hx hi (slack_mem_rows hs)

lemma sigmaSlackUpper_spec (hx : x ∈ lp.feasible) (hi : i < lp.numRows)
    (hlt : lt (lp.sigmaSlackUpper i) posInf = true) :
    ∃ v, lp.sigmaSlackUpper i = finite v ∧ lp.slackTerm x i ≤ v := by
  unfold LpProblem.sigmaSlackUpper slackTerm at *
  cases hs : lp.slackMap i with
  | none => exact ⟨0, rfl, le_rfl⟩
  | some s =>
    rw [hs] at hlt
    obtain ⟨v, hterm, hvalue⟩ := (LpProblem.termValue_upper s).of_lt_posInf hlt
    refine ⟨v, hvalue, LpProblem.le_upperTerm ?_ v hterm⟩
    exact inBounds_of_mem hx hi (slack_mem_rows hs)

/-- The columns that an activity without the target and an integer column leaves out; where the target
is the slack itself, its bound `v` cancels. -/
lemma exists_split (term' : ℕ × ℚ → Option ℚ) (v : ℚ) (hx : x ∈ lp.feasible)
    (hi : i < lp.numRows) (hj : (j, aij) ∈ lp.rows i) (hq : q ∈ lp.rows i)
    (hcontinuous : lp.varTypes j = .continuous) (hinteger : lp.varTypes q.1 ≠ .continuous) :
    ∃ (oj : Option ℚ) (d : ℚ) (taken rest : List (ℕ × ℚ)),
      (lp.slackMap i = some (j, aij) ∧ oj = some v ∧ d = 0 ∨
        oj = term' (j, aij) ∧ d = lp.slackTerm x i - v) ∧
      (lp.rowWithoutSlack i).Perm (taken ++ rest) ∧
      infiniteTerm oj + infiniteTerm (term' q) = numInfinite term' taken ∧
      ∀ activity : ℚ,
        lp.rhs i - v - q.2 * x q.1 - (activity - oj.getD 0 - (term' q).getD 0) =
          aij * x j + d + (((lp.rowWithoutSlack i).map (term x)).sum - (taken.map (term x)).sum -
            (activity - finiteSum term' taken)) := by
  have hrhs := rhs_eq hx hi
  rcases exists_perm hi hj hq hcontinuous hinteger with ⟨hslack, rest, hperm⟩ | ⟨rest, hperm⟩
  · refine ⟨some v, 0, [q], rest, .inl ⟨hslack, rfl, rfl⟩, hperm, ?_, fun activity => ?_⟩
    · rw [numInfinite_cons, numInfinite_nil]
      exact Nat.zero_add _
    · have hslackTerm : lp.slackTerm x i = aij * x j := by
        rw [slackTerm, hslack]
        rfl
      rw [hslackTerm] at hrhs
      simp only [finiteSum_cons, finiteSum_nil, map_cons, map_nil, sum_cons, sum_nil, Option.getD_some]
      rw [hrhs, term]
      ring
  · refine ⟨term' (j, aij), _, [(j, aij), q], rest, .inr ⟨rfl, rfl⟩, hperm, ?_, fun activity => ?_⟩
    · rw [numInfinite_cons, numInfinite_cons, numInfinite_nil, Nat.add_zero]
    · simp only [finiteSum_cons, finiteSum_nil, map_cons, map_nil, sum_cons, sum_nil]
      rw [hrhs, term, term]
      ring

lemma le_of_lowerActivity (hx : x ∈ lp.feasible) (hi : i < lp.numRows)
    (hj : (j, aij) ∈ lp.rows i) (hq : q ∈ lp.rows i) (hcontinuous : lp.varTypes j = .continuous)
    (hinteger : lp.varTypes q.1 ≠ .continuous) {v : ℚ} (hv : lp.sigmaSlackLower i = finite v)
    (hle : v ≤ lp.slackTerm x i)
    (hlt : lt negInf (adjustedLowerActivity (lp.lowerActivities i) (lp.numNegInf i)
      (lp.lowerActivity (j, aij)) (lp.lowerActivity q)) = true) :
    ∃ sum, adjustedLowerActivity (lp.lowerActivities i) (lp.numNegInf i)
        (lp.lowerActivity (j, aij)) (lp.lowerActivity q) = finite sum ∧
      aij * x j ≤ lp.rhs i - v - q.2 * x q.1 - sum := by
  have hterms : ∀ r ∈ lp.rowWithoutSlack i, ∀ w ∈ lp.lowerTerm r, w ≤ term x r :=
    fun r hr => LpProblem.lowerTerm_le (inBounds_of_mem hx hi (mem_of_mem_filter hr))
  obtain ⟨oj, d, taken, rest, hcase, hperm, hcount, hsum⟩ :=
    exists_split lp.lowerTerm v hx hi hj hq hcontinuous hinteger
  have htarget : TermValue negInf oj (lp.lowerActivity (j, aij)) ∧ 0 ≤ d := by
    rcases hcase with ⟨hslack, rfl, rfl⟩ | ⟨rfl, rfl⟩
    · rw [LpProblem.sigmaSlackLower, hslack] at hv
      exact ⟨hv, le_rfl⟩
    · exact ⟨LpProblem.termValue_lower (j, aij), sub_nonneg.mpr hle⟩
  have hnum : numInfinite lp.lowerTerm taken ≤ lp.numNegInf i := by
    rw [LpProblem.numNegInf, numInfinite_perm lp.lowerTerm hperm, numInfinite_append]
    exact Nat.le_add_right _ _
  obtain ⟨hall, hvalue⟩ := adjustedLowerActivity_spec htarget.1 (LpProblem.termValue_lower q)
    (hcount ▸ hnum) hlt
  refine ⟨_, hvalue, ?_⟩
  have hrest := finiteSum_sub_le hterms hperm (hall.trans hcount)
  rw [hsum, LpProblem.lowerActivities]
  linarith [htarget.2]

lemma ge_of_upperActivity (hx : x ∈ lp.feasible) (hi : i < lp.numRows)
    (hj : (j, aij) ∈ lp.rows i) (hq : q ∈ lp.rows i) (hcontinuous : lp.varTypes j = .continuous)
    (hinteger : lp.varTypes q.1 ≠ .continuous) {v : ℚ} (hv : lp.sigmaSlackUpper i = finite v)
    (hle : lp.slackTerm x i ≤ v)
    (hlt : lt (adjustedUpperActivity (lp.upperActivities i) (lp.numPosInf i)
      (lp.upperActivity (j, aij)) (lp.upperActivity q)) posInf = true) :
    ∃ sum, adjustedUpperActivity (lp.upperActivities i) (lp.numPosInf i)
        (lp.upperActivity (j, aij)) (lp.upperActivity q) = finite sum ∧
      lp.rhs i - v - q.2 * x q.1 - sum ≤ aij * x j := by
  have hterms : ∀ r ∈ lp.rowWithoutSlack i, ∀ w ∈ lp.upperTerm r, term x r ≤ w :=
    fun r hr => LpProblem.le_upperTerm (inBounds_of_mem hx hi (mem_of_mem_filter hr))
  obtain ⟨oj, d, taken, rest, hcase, hperm, hcount, hsum⟩ :=
    exists_split lp.upperTerm v hx hi hj hq hcontinuous hinteger
  have htarget : TermValue posInf oj (lp.upperActivity (j, aij)) ∧ d ≤ 0 := by
    rcases hcase with ⟨hslack, rfl, rfl⟩ | ⟨rfl, rfl⟩
    · rw [LpProblem.sigmaSlackUpper, hslack] at hv
      exact ⟨hv, le_rfl⟩
    · exact ⟨LpProblem.termValue_upper (j, aij), sub_nonpos.mpr hle⟩
  have hnum : numInfinite lp.upperTerm taken ≤ lp.numPosInf i := by
    rw [LpProblem.numPosInf, numInfinite_perm lp.upperTerm hperm, numInfinite_append]
    exact Nat.le_add_right _ _
  obtain ⟨hall, hvalue⟩ := adjustedUpperActivity_spec htarget.1 (LpProblem.termValue_upper q)
    (hcount ▸ hnum) hlt
  refine ⟨_, hvalue, ?_⟩
  have hrest := le_finiteSum_sub hterms hperm (hall.trans hcount)
  rw [hsum, LpProblem.upperActivities]
  linarith [htarget.2]

variable {b : VariableBound}

/-- The bound, with a finite bias, scaled by the target's coefficient. -/
lemma mem_boundsFromLowerActivity (hx : x ∈ lp.feasible) (hi : i < lp.numRows)
    (hj : (j, aij) ∈ lp.rows i) (hcontinuous : lp.varTypes j = .continuous) (haij : aij ≠ 0)
    (hlt : lt negInf (lp.sigmaSlackLower i) = true) (hb : b ∈ lp.boundsFromLowerActivity i j aij) :
    ∃ δ, b.bias = finite δ ∧ aij * x j ≤ aij * (b.weight * x b.var + δ) := by
  obtain ⟨v, hv, hle⟩ := sigmaSlackLower_spec hx hi hlt
  obtain ⟨q, hq, hrecord⟩ := mem_filterMap.mp hb
  dsimp only at hrecord
  split_ifs at hrecord with hinteger habove
  obtain ⟨sum, hsum, hbound⟩ :=
    le_of_lowerActivity hx hi hj hq hcontinuous hinteger hv hle habove
  cases hrecord
  refine ⟨1 / aij * (lp.rhs i - v) - 1 / aij * sum, ?_, hbound.trans_eq ?_⟩
  · rw [hv, hsum]
    rfl
  · field_simp
    ring

lemma mem_boundsFromUpperActivity (hx : x ∈ lp.feasible) (hi : i < lp.numRows)
    (hj : (j, aij) ∈ lp.rows i) (hcontinuous : lp.varTypes j = .continuous) (haij : aij ≠ 0)
    (hlt : lt (lp.sigmaSlackUpper i) posInf = true) (hb : b ∈ lp.boundsFromUpperActivity i j aij) :
    ∃ δ, b.bias = finite δ ∧ aij * (b.weight * x b.var + δ) ≤ aij * x j := by
  obtain ⟨v, hv, hle⟩ := sigmaSlackUpper_spec hx hi hlt
  obtain ⟨q, hq, hrecord⟩ := mem_filterMap.mp hb
  dsimp only at hrecord
  split_ifs at hrecord with hinteger hbelow
  obtain ⟨sum, hsum, hbound⟩ :=
    ge_of_upperActivity hx hi hj hq hcontinuous hinteger hv hle hbelow
  cases hrecord
  refine ⟨1 / aij * (lp.rhs i - v) - 1 / aij * sum, ?_, le_of_eq_of_le ?_ hbound⟩
  · rw [hv, hsum]
    rfl
  · field_simp
    ring

lemma mem_upperBoundsFromRow (hx : x ∈ lp.feasible) (hj : j < lp.numCols) {p : ℕ × ℚ}
    (hp : p ∈ lp.columns j) (hcontinuous : lp.varTypes j = .continuous)
    (hb : b ∈ lp.upperBoundsFromRow j p) :
    ∃ δ, b.bias = finite δ ∧ x j ≤ b.weight * x b.var + δ := by
  obtain ⟨hi, hrow⟩ := lp.mem_rows j hj p hp
  simp only [LpProblem.upperBoundsFromRow, mem_ite_nil_left, mem_ite_nil_right, mem_append] at hb
  rcases hb.2.2.2 with ⟨⟨hlt, hpos, -⟩, hb⟩ | ⟨⟨hlt, hneg, -⟩, hb⟩
  · obtain ⟨δ, hδ, hle⟩ := mem_boundsFromLowerActivity hx hi hrow hcontinuous hpos.ne' hlt hb
    exact ⟨δ, hδ, le_of_mul_le_mul_left hle hpos⟩
  · obtain ⟨δ, hδ, hle⟩ := mem_boundsFromUpperActivity hx hi hrow hcontinuous hneg.ne hlt hb
    exact ⟨δ, hδ, (mul_le_mul_left_of_neg hneg).mp hle⟩

lemma mem_lowerBoundsFromRow (hx : x ∈ lp.feasible) (hj : j < lp.numCols) {p : ℕ × ℚ}
    (hp : p ∈ lp.columns j) (hcontinuous : lp.varTypes j = .continuous)
    (hb : b ∈ lp.lowerBoundsFromRow j p) :
    ∃ δ, b.bias = finite δ ∧ b.weight * x b.var + δ ≤ x j := by
  obtain ⟨hi, hrow⟩ := lp.mem_rows j hj p hp
  simp only [LpProblem.lowerBoundsFromRow, mem_ite_nil_left, mem_ite_nil_right, mem_append] at hb
  rcases hb.2.2 with ⟨⟨hlt, hneg, -⟩, hb⟩ | ⟨⟨hlt, hpos, -⟩, hb⟩
  · obtain ⟨δ, hδ, hle⟩ := mem_boundsFromLowerActivity hx hi hrow hcontinuous hneg.ne hlt hb
    exact ⟨δ, hδ, (mul_le_mul_left_of_neg hneg).mp hle⟩
  · obtain ⟨δ, hδ, hle⟩ := mem_boundsFromUpperActivity hx hi hrow hcontinuous hpos.ne' hlt hb
    exact ⟨δ, hδ, le_of_mul_le_mul_left hle hpos⟩

/-- Each recorded bound has a finite bias and holds at every point of the rows and bounds. -/
theorem variableBounds_hold (hx : x ∈ lp.feasible) (hj : j < lp.numCols) (insideSubmip : Bool) :
    (∀ b ∈ lp.variableUpperBounds insideSubmip j,
      ∃ δ, b.bias = finite δ ∧ x j ≤ b.weight * x b.var + δ) ∧
    ∀ b ∈ lp.variableLowerBounds insideSubmip j,
      ∃ δ, b.bias = finite δ ∧ b.weight * x b.var + δ ≤ x j := by
  refine ⟨fun b hb => ?_, fun b hb => ?_⟩
  · simp only [LpProblem.variableUpperBounds, mem_ite_nil_left, mem_flatMap] at hb
    obtain ⟨-, hcontinuous, p, hp, hb⟩ := hb
    exact mem_upperBoundsFromRow hx hj hp (not_not.mp hcontinuous) hb
  · simp only [LpProblem.variableLowerBounds, mem_ite_nil_left, mem_flatMap] at hb
    obtain ⟨-, hcontinuous, p, hp, hb⟩ := hb
    exact mem_lowerBoundsFromRow hx hj hp (not_not.mp hcontinuous) hb

end SlackForm

def indicatorRow : SlackForm where
  numRows := 1
  numCols := 3
  columns := fun j => if j = 0 then [(0, 1)] else if j = 1 then [(0, -3)] else
    if j = 2 then [(0, 1)] else []
  rows := fun i => if i = 0 then [(0, 1), (1, -3), (2, 1)] else []
  rhs := fun _ => 0
  lower := fun j => if j = 0 then none else some 0
  upper := fun j => if j = 1 then some 1 else none
  varTypes := fun j => if j = 1 then .integer else .continuous
  newSlacks := [2]
  rows_nodup := by decide
  rows_lt := by decide
  mem_rows := by decide
  slack_lt := by decide
  slack_continuous := by decide

/-- The only upper bound recorded for `y` is `y <= 3 b`; it is applied at `y = 2`, `b = 1`, `s = 1`. -/
theorem variableBounds_hold_indicatorRow :
    indicatorRow.variableUpperBounds false 0 = [⟨1, 3, finite 0⟩] ∧
    ∀ b ∈ indicatorRow.variableUpperBounds false 0,
      ∃ δ, b.bias = finite δ ∧ 2 ≤ b.weight * (if b.var = 0 then 2 else 1) + δ := by
  refine ⟨by decide +kernel, ?_⟩
  have hx : (fun j => if j = 0 then 2 else 1) ∈ indicatorRow.feasible := by
    refine ⟨by decide +kernel, by decide +kernel⟩
  exact (SlackForm.variableBounds_hold hx (j := 0) (by decide) false).1

end CuOpt.Cuts
