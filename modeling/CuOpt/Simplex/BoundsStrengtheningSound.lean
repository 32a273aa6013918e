import CuOpt.Library.BufferWrites
import CuOpt.Simplex.BoundsStrengthening
import CuOpt.Simplex.ConvertSound

/-! Bound strengthening keeps every mixed-integer feasible point of the bounds it starts from, in
any number of rounds and with any rows to start with. -/

namespace CuOpt.Simplex

open SparseList QuadProgram Activities Activities.Extended List
open CuOpt.Cuts (VariableType)
open BoundsStrengthening (isInteger make)
open BufferWrites (getD_map_range)
open Extended (neg_scale)
open UserProblem (SenseHolds)

section Activity

variable {lower upper : ℕ → Extended ℚ} {x : ℕ → ℚ} {m : Extended ℚ} {row : List (ℕ × ℚ)}

def RowWithin (lower upper : ℕ → Extended ℚ) (x : ℕ → ℚ) (row : List (ℕ × ℚ)) : Prop :=
  ∀ p ∈ row, AtMost (lower p.1) (x p.1) ∧ AtLeast (upper p.1) (x p.1)

def minTerm (lower upper : ℕ → Extended ℚ) (p : ℕ × ℚ) : Extended ℚ :=
  if p.2 < 0 then scale p.2 (upper p.1) else scale p.2 (lower p.1)

/-- `m` is `-inf`, or finite with finite terms: it is below the activity at `x`, and so is each
remainder below the activity without that column. -/
def Estimates (lower upper : ℕ → Extended ℚ) (x : ℕ → ℚ) (m : Extended ℚ) (row : List (ℕ × ℚ)) :
    Prop :=
  m = negInf ∨ ∃ v, m = finite v ∧ v ≤ dot row x ∧ ∀ p ∈ row, ∃ w,
    (minTerm lower upper p = finite w ∨ minTerm lower upper p = nan) ∧
      v - w ≤ dot row x - p.2 * x p.1

variable {p : ℕ × ℚ}

lemma Estimates.snoc (h : Estimates lower upper x m row) {w : ℚ}
    (hterm : minTerm lower upper p = finite w ∨ minTerm lower upper p = nan) (hw : w ≤ p.2 * x p.1)
    : Estimates lower upper x (add m (finite w)) (row ++ [p]) := by
  rcases h with rfl | ⟨v, rfl, hv, hleft⟩
  · exact .inl rfl
  · refine .inr ⟨v + w, rfl, ?_, fun q hq => ?_⟩
    · rw [dot_snoc]
      exact add_le_add hv hw
    · rw [dot_snoc]
      rcases mem_append.mp hq with hold | hnew
      · obtain ⟨w', hterm', hle⟩ := hleft q hold
        exact ⟨w', hterm', by linarith⟩
      · obtain rfl := mem_singleton.mp hnew
        exact ⟨w, hterm, by linarith⟩

lemma minActivityStep_of_neg (ha : p.2 < 0) :
    minActivityStep lower upper m p =
      if upper p.1 = posInf then negInf else add m (scale p.2 (upper p.1)) := by
  simp only [minActivityStep, ha.not_gt, ha, and_true, and_false, if_true, if_false]

lemma minActivityStep_of_zero (ha : p.2 = 0) : minActivityStep lower upper m p = m := by
  simp only [minActivityStep, ha, lt_irrefl, and_false, if_false]

lemma minActivityStep_of_pos (ha : 0 < p.2) :
    minActivityStep lower upper m p =
      if lower p.1 = negInf then negInf else add m (scale p.2 (lower p.1)) := by
  simp only [minActivityStep, ha.not_gt, ha, and_true, and_false, if_true, if_false]

/-- A step either adds a finite term or meets an infinite bound. -/
lemma minActivityStep_cases (hp : AtMost (lower p.1) (x p.1) ∧ AtLeast (upper p.1) (x p.1)) :
    minActivityStep lower upper m p = negInf ∨
      ∃ w, (minTerm lower upper p = finite w ∨ minTerm lower upper p = nan) ∧
        w ≤ p.2 * x p.1 ∧ minActivityStep lower upper m p = add m (finite w) := by
  obtain ⟨hlow, hhigh⟩ := hp
  rcases lt_trichotomy p.2 0 with ha | ha | ha
  · rw [minActivityStep_of_neg ha]
    cases hu : upper p.1 with
    | posInf => exact .inl rfl
    | finite u =>
      rw [hu] at hhigh
      refine .inr ⟨p.2 * u, .inl ?_, mul_le_mul_of_nonpos_left hhigh ha.le, if_neg (by simp)⟩
      rw [minTerm, if_pos ha, hu, scale_finite]
    | negInf | nan => exact absurd (show False by rwa [hu] at hhigh) id
  · have hzero : add m (finite 0) = m := by
      cases m with
      | finite v => exact congrArg finite (add_zero v)
      | _ => rfl
    refine .inr ⟨0, ?_, (by rw [ha, zero_mul]), by rw [minActivityStep_of_zero ha, hzero]⟩
    rw [minTerm, ha, if_neg (lt_irrefl _)]
    cases lower p.1 with
    | finite l => exact .inl (congrArg finite (zero_mul l))
    | _ => exact .inr rfl
  · rw [minActivityStep_of_pos ha]
    cases hl : lower p.1 with
    | negInf => exact .inl rfl
    | finite l =>
      rw [hl] at hlow
      refine .inr ⟨p.2 * l, .inl ?_, mul_le_mul_of_nonneg_left hlow ha.le, if_neg (by simp)⟩
      rw [minTerm, if_neg ha.not_gt, hl, scale_finite]
    | posInf | nan => exact absurd (show False by rwa [hl] at hlow) id

lemma minActivityStep_estimates (h : Estimates lower upper x m row)
    (hp : AtMost (lower p.1) (x p.1) ∧ AtLeast (upper p.1) (x p.1)) :
    Estimates lower upper x (minActivityStep lower upper m p) (row ++ [p]) := by
  rcases minActivityStep_cases hp with hinf | ⟨w, hterm, hw, hstep⟩
  · exact .inl hinf
  · rw [hstep]
    exact h.snoc hterm hw

section

variable (h : RowWithin lower upper x row)
include h

lemma minActivity_estimates :
    Estimates lower upper x (minActivity lower upper row) row := by
  induction row using reverseRecOn with
  | nil => exact .inr ⟨0, rfl, le_rfl, nofun⟩
  | append_singleton row p ih =>
    rw [minActivity, foldl_append]
    exact minActivityStep_estimates (ih fun q hq => h q (mem_append_left _ hq))
      (h p (mem_append_right _ mem_cons_self))

lemma minActivity_atMost :
    AtMost (minActivity lower upper row) (dot row x) := by
  rcases minActivity_estimates h with hm | ⟨v, hm, hv, -⟩
  · rw [hm]
    exact trivial
  · rw [hm]
    exact hv

lemma minActivity_eq_negInf (hp : p ∈ row) (ha : p.2 < 0) (hu : upper p.1 = posInf) :
    minActivity lower upper row = negInf := by
  induction row using reverseRecOn with
  | nil => cases hp
  | append_singleton row q ih =>
    rw [minActivity, foldl_append]
    change minActivityStep lower upper (minActivity lower upper row) q = negInf
    rcases mem_append.mp hp with hold | hnew
    · rw [ih (fun r hr => h r (mem_append_left _ hr)) hold]
      rcases minActivityStep_cases (h q (mem_append_right _ mem_cons_self)) with
        hinf | ⟨w, -, -, hstep⟩
      · exact hinf
      · rw [hstep]
        rfl
    · rw [← mem_singleton.mp hnew, minActivityStep_of_neg ha, if_pos hu]

/-- With its own term put back, the slack of a row bounds the term of a column from above. -/
lemma deltaMin_above {cub : Extended ℚ} (hcub : AtLeast cub (dot row x)) (hp : p ∈ row) :
    Above (add (sub cub (minActivity lower upper row)) (minTerm lower upper p)) (p.2 * x p.1) := by
  have hinf : cub = posInf ∨ minActivity lower upper row = negInf →
      Above (add (sub cub (minActivity lower upper row)) (minTerm lower upper p)) (p.2 * x p.1) := by
    intro hor
    have hsub : sub cub (minActivity lower upper row) = posInf := by
      have hm := minActivity_atMost h
      generalize minActivity lower upper row = m at hm hor
      cases cub <;> cases m <;> simp_all [sub, AtMost, AtLeast]
    rw [hsub]
    cases minTerm lower upper p with
    | nan | negInf => exact above_nan _
    | _ => exact .inr trivial
  rcases minActivity_estimates h with hm | ⟨v, hm, -, hleft⟩
  · exact hinf (.inr hm)
  · cases cub with
    | posInf => exact hinf (.inl rfl)
    | negInf | nan => exact absurd hcub id
    | finite c =>
      obtain ⟨w, hterm, hle⟩ := hleft p hp
      rw [hm, sub_finite]
      rcases hterm with hw | hw
      · rw [hw]
        refine above_finite.mpr ?_
        have hc : dot row x ≤ c := hcub
        linarith
      · rw [hw]
        exact above_nan _

end

def negRow (row : List (ℕ × ℚ)) : List (ℕ × ℚ) := row.map fun p => (p.1, -p.2)

lemma dot_negRow (row : List (ℕ × ℚ)) (x : ℕ → ℚ) : dot (negRow row) x = -dot row x := by
  induction row with
  | nil => exact neg_zero.symm
  | cons p row ih =>
    change -p.2 * x p.1 + dot (negRow row) x = -(p.2 * x p.1 + dot row x)
    rw [ih]
    ring

lemma RowWithin.negRow (h : RowWithin lower upper x row) :
    RowWithin lower upper x (negRow row) := by
  intro p hp
  obtain ⟨q, hq, rfl⟩ := mem_map.mp hp
  exact h q hq

lemma maxActivityStep_eq (m : Extended ℚ) (p : ℕ × ℚ) :
    maxActivityStep lower upper (neg m) p = neg (minActivityStep lower upper m (p.1, -p.2)) := by
  rcases lt_trichotomy p.2 0 with ha | ha | ha
  · have ha' : 0 < -p.2 := Left.neg_pos_iff.mpr ha
    simp only [maxActivityStep, minActivityStep, ha, ha.not_gt, ha', ha'.not_gt, and_true, and_false,
      if_true, if_false]
    split_ifs with hl
    · rfl
    · rw [Extended.neg_add, neg_scale, neg_neg]
  · simp only [maxActivityStep, minActivityStep, ha, neg_zero, lt_irrefl, and_false, if_false]
  · have ha' : -p.2 < 0 := Left.neg_neg_iff.mpr ha
    simp only [maxActivityStep, minActivityStep, ha, ha.not_gt, ha', ha'.not_gt, and_true, and_false,
      if_true, if_false]
    split_ifs with hu
    · rfl
    · rw [Extended.neg_add, neg_scale, neg_neg]

lemma maxActivity_eq (row : List (ℕ × ℚ)) :
    maxActivity lower upper row = neg (minActivity lower upper (negRow row)) := by
  induction row using reverseRecOn with
  | nil => exact congrArg finite neg_zero.symm
  | append_singleton row p ih =>
    have hmax : maxActivity lower upper (row ++ [p]) =
        maxActivityStep lower upper (maxActivity lower upper row) p := foldl_append ..
    have hmin : minActivity lower upper (negRow (row ++ [p])) =
        minActivityStep lower upper (minActivity lower upper (negRow row)) (p.1, -p.2) := by
      rw [minActivity, negRow, map_append, foldl_append]
      rfl
    rw [hmax, hmin, ih, maxActivityStep_eq]

lemma maxActivity_atLeast (h : RowWithin lower upper x row) :
    AtLeast (maxActivity lower upper row) (dot row x) := by
  have hmin := (minActivity_atMost h.negRow).neg
  rw [dot_negRow, neg_neg] at hmin
  rw [maxActivity_eq]
  exact hmin

lemma maxActivity_eq_posInf (h : RowWithin lower upper x row) (hp : p ∈ row) (ha : 0 < p.2)
    (hu : upper p.1 = posInf) : maxActivity lower upper row = posInf := by
  have hmem : (p.1, -p.2) ∈ negRow row := mem_map_of_mem hp
  rw [maxActivity_eq, minActivity_eq_negInf h.negRow hmem (Left.neg_neg_iff.mpr ha) hu]
  rfl

def maxTerm (lower upper : ℕ → Extended ℚ) (p : ℕ × ℚ) : Extended ℚ :=
  if 0 < p.2 then scale p.2 (upper p.1) else scale p.2 (lower p.1)

lemma deltaMax_below (h : RowWithin lower upper x row) {clb : Extended ℚ}
    (hclb : AtMost clb (dot row x)) (hp : p ∈ row) :
    Below (add (sub clb (maxActivity lower upper row)) (maxTerm lower upper p)) (p.2 * x p.1) := by
  have hneg : AtLeast (neg clb) (dot (negRow row) x) := by
    rw [dot_negRow]
    exact hclb.neg
  have hmem : (p.1, -p.2) ∈ negRow row := mem_map_of_mem hp
  have habove := (deltaMin_above h.negRow hneg hmem).neg
  have hterm : neg (minTerm lower upper (p.1, -p.2)) = maxTerm lower upper p := by
    simp only [minTerm, maxTerm, Left.neg_neg_iff]
    split_ifs
    · rw [neg_scale, neg_neg]
    · rw [neg_scale, neg_neg]
  rw [Extended.neg_add, Extended.neg_sub, hterm, Extended.neg_neg, ← maxActivity_eq] at habove
  have hval : -(-p.2 * x p.1) = p.2 * x p.1 := by ring
  rwa [hval] at habove

end Activity

def Box.Contains (box : Box) (n : ℕ) (x : ℕ → ℚ) : Prop :=
  ∀ j < n, AtMost (box.lb j) (x j) ∧ AtLeast (box.ub j) (x j)

/-- The bounds on a term become bounds on its column, whatever the sign of the coefficient. -/
lemma updateLb_atMost {cur deltaMinAct deltaMaxAct : Extended ℚ} {a v : ℚ} (hcur : AtMost cur v)
    (habove : Above deltaMinAct (a * v)) (hbelow : Below deltaMaxAct (a * v)) :
    AtMost (updateLb cur a deltaMinAct deltaMaxAct) v := by
  apply stdMax_atMost hcur
  split_ifs with ha
  · exact habove.div_neg ha
  · exact hbelow.div (not_lt.mp ha)

lemma updateUb_atLeast {cur deltaMinAct deltaMaxAct : Extended ℚ} {a v : ℚ} (hcur : AtLeast cur v)
    (habove : Above deltaMinAct (a * v)) (hbelow : Below deltaMaxAct (a * v)) :
    AtLeast (updateUb cur a deltaMinAct deltaMaxAct) v := by
  apply stdMin_atLeast hcur
  split_ifs with ha
  · exact hbelow.div_neg ha
  · exact habove.div (not_lt.mp ha)

instance (box : Box) (n : ℕ) (x : ℕ → ℚ) : Decidable (box.Contains n x) :=
  inferInstanceAs (Decidable (∀ j < n, AtMost (box.lb j) (x j) ∧ AtLeast (box.ub j) (x j)))

namespace BoundsStrengthening

variable {b : BoundsStrengthening} {settings : StrengtheningSettings} {x : ℕ → ℚ}

/-- What the rounds rely on: `x` satisfies the rows of `Arow`, which are the rows of `A`, and is
integral where the variable types say so; the tolerances are not negative. A row whose sides are both
`inf` says nothing: it has an entry in a column of `U`, and such columns meet no other rows. -/
structure Keeps (b : BoundsStrengthening) (settings : StrengtheningSettings) (x : ℕ → ℚ)
    (U : ℕ → Prop) : Prop where
  primalTol : 0 ≤ settings.primalTol
  integerTol : 0 ≤ settings.integerTol
  mem_row : ∀ i p, p ∈ b.Arow.row i ↔ p.1 < b.A.n ∧ (i, p.2) ∈ b.A.col p.1
  lower : ∀ i < b.A.m, AtMost (b.constraintLb i) (dot (b.Arow.row i) x) ∨
    b.constraintLb i = posInf ∧ ∃ p ∈ b.Arow.row i, 0 < p.2 ∧ U p.1
  upper : ∀ i < b.A.m, AtLeast (b.constraintUb i) (dot (b.Arow.row i) x)
  integral : ∀ k < b.A.n, b.isInteger k = true → ∃ z : ℤ, x k = z
  openColumn : ∀ k, U k → k < b.A.n ∧
    ∀ p ∈ b.A.col k, 0 < p.2 ∧ b.constraintUb p.1 = posInf

structure Admits (b : BoundsStrengthening) (x : ℕ → ℚ) (U : ℕ → Prop) (box : Box) : Prop where
  contains : box.Contains b.A.n x
  openColumn : ∀ k, U k → box.ub k = posInf

namespace Keeps

variable {U : ℕ → Prop} (h : Keeps b settings x U)
include h

variable {box original : Box}

lemma rowWithin (hbox : b.Admits x U box) (i : ℕ) : RowWithin box.lb box.ub x (b.Arow.row i) :=
  fun p hp => hbox.contains p.1 ((h.mem_row i p).mp hp).1

variable {i k : ℕ}

/-- A row that says nothing upwards has no largest activity. -/
lemma lower_cases (hbox : b.Admits x U box) (hi : i < b.A.m) :
    AtMost (b.constraintLb i) (dot (b.Arow.row i) x) ∨
      b.constraintLb i = posInf ∧ maxActivity box.lb box.ub (b.Arow.row i) = posInf := by
  rcases h.lower i hi with hlow | ⟨hinf, p, hp, ha, hU⟩
  · exact .inl hlow
  · exact .inr ⟨hinf, maxActivity_eq_posInf (h.rowWithin hbox i) hp ha (hbox.openColumn p.1 hU)⟩

lemma rowInfeasible_eq_false (hbox : b.Admits x U box) (hi : i < b.A.m) :
    b.rowInfeasible settings box i = false := by
  have hwithin := h.rowWithin hbox i
  have hmin : lt (add (b.constraintUb i) (finite settings.primalTol))
      (minActivity box.lb box.ub (b.Arow.row i)) = false :=
    lt_eq_false (minActivity_atMost hwithin).below ((h.upper i hi).add_finite h.primalTol).above
  have hmax : lt (maxActivity box.lb box.ub (b.Arow.row i))
      (sub (b.constraintLb i) (finite settings.primalTol)) = false := by
    rcases h.lower_cases hbox hi with hlow | ⟨hinf, hmax⟩
    · exact lt_eq_false (hlow.sub_finite h.primalTol).below (maxActivity_atLeast hwithin).above
    · rw [hinf, hmax]
      rfl
  rw [rowInfeasible, checkInfeasibility, hmin, hmax, Bool.false_or]

def Stored (b : BoundsStrengthening) (s : StrengtheningState) : Prop :=
  ∀ i, s.constraintChanged.getD i false = true →
    i < b.A.m ∧ s.deltas.getD i (nan, nan) = b.rowDelta s.box i

variable {s : StrengtheningState} {new : Extended ℚ × Extended ℚ}

/-- One entry of a column keeps the value of the column between the new bounds. -/
lemma entryUpdate_keeps (hbox : b.Admits x U s.box) (hstored : Stored b s) (hk : k < b.A.n)
    (hnew : AtMost new.1 (x k) ∧ AtLeast new.2 (x k)) {p : ℕ × ℚ} (hp : p ∈ b.A.col k) :
    AtMost (entryUpdate s.constraintChanged s.deltas (s.box.lb k) (s.box.ub k) new p).1 (x k) ∧
      AtLeast (entryUpdate s.constraintChanged s.deltas (s.box.lb k) (s.box.ub k) new p).2 (x k) := by
  cases hchanged : s.constraintChanged.getD p.1 false with
  | false =>
    rw [entryUpdate, hchanged, if_neg Bool.false_ne_true]
    exact hnew
  | true =>
    obtain ⟨hi, hdelta⟩ := hstored p.1 hchanged
    have hmem : (k, p.2) ∈ b.Arow.row p.1 := (h.mem_row p.1 (k, p.2)).mpr ⟨hk, hp⟩
    have hwithin := h.rowWithin hbox p.1
    have habove : Above (add (s.deltas.getD p.1 (nan, nan)).1
        (if p.2 < 0 then scale p.2 (s.box.ub k) else scale p.2 (s.box.lb k))) (p.2 * x k) := by
      rw [hdelta]
      exact deltaMin_above hwithin (h.upper p.1 hi) hmem
    have hbelow : Below (add (s.deltas.getD p.1 (nan, nan)).2
        (if 0 < p.2 then scale p.2 (s.box.ub k) else scale p.2 (s.box.lb k))) (p.2 * x k) := by
      rw [hdelta]
      rcases h.lower_cases hbox hi with hlow | ⟨hinf, hmax⟩
      · exact deltaMax_below hwithin hlow hmem
      · rw [rowDelta, hinf, hmax]
        exact below_nan _
    obtain ⟨hlow, hhigh⟩ := hbox.contains k hk
    rw [entryUpdate, hchanged, if_pos rfl]
    exact ⟨stdMax_atMost hnew.1 (updateLb_atMost hlow habove hbelow).below,
      stdMin_atLeast hnew.2 (updateUb_atLeast hhigh habove hbelow).above⟩

lemma column_keeps (hbox : b.Admits x U s.box) (hstored : Stored b s) (hk : k < b.A.n)
    {col : List (ℕ × ℚ)} (hcol : ∀ p ∈ col, p ∈ b.A.col k)
    (hnew : AtMost new.1 (x k) ∧ AtLeast new.2 (x k)) :
    AtMost (col.foldl (entryUpdate s.constraintChanged s.deltas (s.box.lb k) (s.box.ub k)) new).1
        (x k) ∧
      AtLeast (col.foldl (entryUpdate s.constraintChanged s.deltas (s.box.lb k) (s.box.ub k)) new).2
        (x k) := by
  induction col generalizing new with
  | nil => exact hnew
  | cons p col ih =>
    exact ih (fun q hq => hcol q (mem_cons_of_mem p hq))
      (h.entryUpdate_keeps hbox hstored hk hnew (hcol p mem_cons_self))

lemma roundBounds_keeps (hk : k < b.A.n) (hnew : AtMost new.1 (x k) ∧ AtLeast new.2 (x k)) :
    AtMost (b.roundBounds settings k new).1 (x k) ∧
      AtLeast (b.roundBounds settings k new).2 (x k) := by
  rw [roundBounds]
  split_ifs with hint
  · obtain ⟨z, hz⟩ := h.integral k hk hint
    constructor
    · apply (hnew.1.sub_finite h.integerTol).mapFinite
      intro v hv
      rw [hz] at hv ⊢
      exact Int.cast_le.mpr (Int.ceil_le.mpr hv)
    · apply (hnew.2.add_finite h.integerTol).mapFinite
      intro v hv
      rw [hz] at hv ⊢
      exact Int.cast_le.mpr (Int.le_floor.mpr hv)
  · exact hnew

def ColumnKeeps (u : ColumnUpdate) (v : ℚ) : Prop :=
  AtMost u.lower v ∧ AtLeast u.upper v ∧ u.infeasible = false

lemma strengthenColumn_keeps (horiginal : b.Admits x U original) (hbox : b.Admits x U s.box)
    (hstored : Stored b s) (hk : k < b.A.n) :
    ColumnKeeps (b.strengthenColumn settings original s k) (x k) := by
  have hcolumn := h.column_keeps hbox hstored hk (fun p hp => hp)
    (show AtMost (s.box.lb k, s.box.ub k).1 (x k) ∧ AtLeast (s.box.lb k, s.box.ub k).2 (x k) from
      hbox.contains k hk)
  have hrounded := h.roundBounds_keeps hk hcolumn
  have hlow := stdMax_atMost hrounded.1 (horiginal.contains k hk).1.below
  have hhigh := stdMin_atLeast hrounded.2 (horiginal.contains k hk).2.above
  exact ⟨stdMin_atMost hlow hhigh, stdMax_atLeast hlow hhigh,
    lt_eq_false hlow.below (hhigh.add_finite h.primalTol).above⟩

lemma columnUpdate_keeps (horiginal : b.Admits x U original) (hbox : b.Admits x U s.box)
    (hstored : Stored b s) (hk : k < b.A.n) :
    ColumnKeeps (b.columnUpdate settings original s k) (x k) := by
  rw [columnUpdate]
  split_ifs with hchanged
  · exact h.strengthenColumn_keeps horiginal hbox hstored hk
  · exact ⟨(hbox.contains k hk).1, (hbox.contains k hk).2, rfl⟩

/-- A column of `U` meets only rows without an upper side, which leave it without an upper bound. -/
lemma entryUpdate_open (hbox : b.Admits x U s.box) (hstored : Stored b s) (hU : U k)
    (hnew : new.2 = posInf) {p : ℕ × ℚ} (hp : p ∈ b.A.col k) :
    (entryUpdate s.constraintChanged s.deltas (s.box.lb k) (s.box.ub k) new p).2 = posInf := by
  obtain ⟨hk, hcol⟩ := h.openColumn k hU
  obtain ⟨ha, hub⟩ := hcol p hp
  cases hchanged : s.constraintChanged.getD p.1 false with
  | false =>
    rw [entryUpdate, hchanged, if_neg Bool.false_ne_true]
    exact hnew
  | true =>
    obtain ⟨hi, hdelta⟩ := hstored p.1 hchanged
    have hmin : (s.deltas.getD p.1 (nan, nan)).1 = posInf := by
      have hm := minActivity_atMost (h.rowWithin hbox p.1)
      rw [hdelta, rowDelta, hub]
      dsimp only
      cases hact : minActivity s.box.lb s.box.ub (b.Arow.row p.1) with
      | negInf => rfl
      | finite v => rfl
      | posInf => exact absurd (show False by rwa [hact] at hm) id
      | nan => exact absurd (show False by rwa [hact] at hm) id
    have hterm : add posInf (scale p.2 (s.box.lb k)) = posInf ∨
        add posInf (scale p.2 (s.box.lb k)) = nan := by
      cases scale p.2 (s.box.lb k) with
      | finite v => exact .inl rfl
      | posInf => exact .inl rfl
      | negInf => exact .inr rfl
      | nan => exact .inr rfl
    have hdiv : div (add posInf (scale p.2 (s.box.lb k))) p.2 = posInf ∨
        div (add posInf (scale p.2 (s.box.lb k))) p.2 = nan := by
      rcases hterm with hinf | hnan
      · rw [hinf, Extended.div, if_neg ha.not_gt]
        exact .inl rfl
      · rw [hnan]
        exact .inr rfl
    rw [entryUpdate, hchanged, if_pos rfl]
    dsimp only
    rw [hmin, hnew, hbox.openColumn k hU, updateUb, if_neg ha.not_gt, if_neg ha.not_gt]
    rcases hdiv with hinf | hnan
    · rw [hinf]
      rfl
    · rw [hnan]
      rfl

lemma column_open (hbox : b.Admits x U s.box) (hstored : Stored b s) (hU : U k)
    {col : List (ℕ × ℚ)} (hcol : ∀ p ∈ col, p ∈ b.A.col k) (hnew : new.2 = posInf) :
    (col.foldl (entryUpdate s.constraintChanged s.deltas (s.box.lb k) (s.box.ub k)) new).2 =
      posInf := by
  induction col generalizing new with
  | nil => exact hnew
  | cons p col ih =>
    exact ih (fun q hq => hcol q (mem_cons_of_mem p hq))
      (h.entryUpdate_open hbox hstored hU hnew (hcol p mem_cons_self))

lemma columnUpdate_open (horiginal : b.Admits x U original) (hbox : b.Admits x U s.box)
    (hstored : Stored b s) (hU : U k) : (b.columnUpdate settings original s k).upper = posInf := by
  rw [columnUpdate]
  split_ifs with hchanged
  · obtain ⟨hk, -⟩ := h.openColumn k hU
    have hcolumn := h.column_open hbox hstored hU (fun p hp => hp)
      (show (s.box.lb k, s.box.ub k).2 = posInf from hbox.openColumn k hU)
    have hkept := h.roundBounds_keeps hk (h.column_keeps hbox hstored hk (fun p hp => hp)
      (show AtMost (s.box.lb k, s.box.ub k).1 (x k) ∧ AtLeast (s.box.lb k, s.box.ub k).2 (x k) from
        hbox.contains k hk))
    have hrounded : (b.roundBounds settings k ((b.A.col k).foldl
        (entryUpdate s.constraintChanged s.deltas (s.box.lb k) (s.box.ub k))
        (s.box.lb k, s.box.ub k))).2 = posInf := by
      rw [roundBounds]
      split_ifs
      · dsimp only
        rw [hcolumn]
        rfl
      · exact hcolumn
    have hlow := stdMax_atMost hkept.1 (horiginal.contains k hk).1.below
    rw [strengthenColumn]
    dsimp only
    rw [hrounded, horiginal.openColumn k hU]
    exact stdMax_posInf hlow
  · exact hbox.openColumn k hU

structure Inv (b : BoundsStrengthening) (x : ℕ → ℚ) (U : ℕ → Prop) (s : StrengtheningState) :
    Prop where
  admits : b.Admits x U s.box
  changed_lt : ∀ i, s.constraintChanged.getD i false = true → i < b.A.m

lemma strengthenRound_keeps (horiginal : b.Admits x U original) (hs : Inv b x U s) :
    ∃ s' again, b.strengthenRound settings original s = some (s', again) ∧ Inv b x U s' := by
  have hrows : ((range b.A.m).any fun i =>
      s.constraintChanged.getD i false && b.rowInfeasible settings s.box i) = false := by
    apply any_eq_false.mpr
    intro i hi
    rw [h.rowInfeasible_eq_false hs.admits (mem_range.mp hi), Bool.and_false]
    exact Bool.false_ne_true
  rw [strengthenRound, hrows, if_neg Bool.false_ne_true]
  dsimp only
  set mid : StrengtheningState := { s with
    deltas := (range b.A.m).map fun i =>
      if s.constraintChanged.getD i false then b.rowDelta s.box i else s.deltas.getD i (nan, nan) }
    with hmid
  have hstored : Stored b mid := by
    intro i hi
    have hlt := hs.changed_lt i hi
    refine ⟨hlt, ?_⟩
    rw [hmid]
    dsimp only
    rw [getD_map_range _ hlt]
    exact if_pos hi
  have hkeeps : ∀ k < b.A.n, ColumnKeeps (b.columnUpdate settings original mid k) (x k) :=
    fun k hk => h.columnUpdate_keeps (s := mid) horiginal hs.admits hstored hk
  have hcols : ((range b.A.n).map (b.columnUpdate settings original mid)).any
      ColumnUpdate.infeasible = false := by
    apply any_eq_false.mpr
    intro u hu
    obtain ⟨k, hk, rfl⟩ := mem_map.mp hu
    rw [(hkeeps k (mem_range.mp hk)).2.2]
    exact Bool.false_ne_true
  rw [hcols, if_neg Bool.false_ne_true]
  refine ⟨_, _, rfl, ⟨?_, ?_⟩, ?_⟩
  · intro k hk
    dsimp only [Box.lb, Box.ub]
    rw [map_map, map_map, getD_map_range _ hk, getD_map_range _ hk]
    exact ⟨(hkeeps k hk).1, (hkeeps k hk).2.1⟩
  · intro k hU
    dsimp only [Box.ub]
    rw [map_map, getD_map_range _ (h.openColumn k hU).1]
    exact h.columnUpdate_open (s := mid) horiginal hs.admits hstored hU
  · intro i hi
    by_contra hge
    dsimp only at hi
    rw [BufferWrites.getD_map_range_of_le _ (not_lt.mp hge)] at hi
    exact Bool.false_ne_true hi

lemma strengthenRounds_keeps (horiginal : b.Admits x U original) (limit : ℕ) (hs : Inv b x U s) :
    ∃ s', b.strengthenRounds settings original limit s = some s' ∧ s'.box.Contains b.A.n x := by
  induction limit generalizing s with
  | zero => exact ⟨s, rfl, hs.admits.contains⟩
  | succ limit ih =>
    obtain ⟨s', again, hround, hs'⟩ := h.strengthenRound_keeps horiginal hs
    rw [strengthenRounds, hround]
    dsimp only
    cases again with
    | true => exact ih hs'
    | false => exact ⟨s', rfl, hs'.admits.contains⟩

omit h in
theorem initiallyChanged_lt (boundsChanged : Option (ℕ → Bool))
    (hi : (b.initiallyChanged boundsChanged).getD i false = true) : i < b.A.m := by
  by_contra hge
  have hle := not_lt.mp hge
  rw [initiallyChanged.eq_def] at hi
  cases boundsChanged with
  | none =>
    dsimp only at hi
    rw [getD_eq_getElem?_getD, getElem?_eq_none (by rwa [length_replicate])] at hi
    exact Bool.false_ne_true hi
  | some changed =>
    dsimp only at hi
    rw [BufferWrites.getD_map_range_of_le _ hle] at hi
    exact Bool.false_ne_true hi

/-- Whatever the rows to start with, a point of the box stays in it. -/
lemma boundsWithin_keeps (limit : ℕ) (boundsChanged : Option (ℕ → Bool))
    (hbox : b.Admits x U box) :
    ∃ box', b.boundsWithin settings limit boundsChanged box = some box' ∧
      box'.Contains b.A.n x := by
  obtain ⟨s', hrun, hcontains⟩ := h.strengthenRounds_keeps hbox limit
    (s := ⟨box, replicate b.A.m (nan, nan), b.initiallyChanged boundsChanged⟩)
    ⟨hbox, fun i hi => initiallyChanged_lt boundsChanged hi⟩
  exact ⟨s'.box, by rw [boundsWithin, hrun, Option.map_some], hcontains⟩

end Keeps

def Whole (e : Extended ℚ) : Prop := ∀ v, e = finite v → ∃ z : ℤ, v = z

lemma whole_intCast (z : ℤ) : Whole (finite (z : ℚ)) := fun _ h => ⟨z, (finite.inj h).symm⟩

lemma Whole.mapFinite {f : ℚ → ℚ} (hf : ∀ v, ∃ z : ℤ, f v = z) (e : Extended ℚ) :
    Whole (mapFinite f e) := by
  intro v hv
  cases e with
  | finite w =>
    cases hv
    exact hf w
  | _ => cases hv

variable {e e' : Extended ℚ}

lemma Whole.stdMax (h : Whole e) (h' : Whole e') : Whole (stdMax e e') := by
  rw [Extended.stdMax]
  split_ifs
  · exact h'
  · exact h

lemma Whole.stdMin (h : Whole e) (h' : Whole e') : Whole (stdMin e e') := by
  rw [Extended.stdMin]
  split_ifs
  · exact h'
  · exact h

/-- Whole bounds that cross do so by one at least. -/
lemma Whole.lt_eq_false (h : Whole e) (h' : Whole e') {tol : ℚ} (htol : tol < 1)
    (hlt : lt (add e (finite tol)) e' = false) : lt e e' = false := by
  cases e with
  | finite v => cases e' with
    | finite w =>
      obtain ⟨z, rfl⟩ := h v rfl
      obtain ⟨z', rfl⟩ := h' w rfl
      have hle : (z' : ℚ) ≤ z + tol := not_lt.mp (of_decide_eq_false hlt)
      have hcast : (z' : ℚ) < ((z + 1 : ℤ) : ℚ) := by
        rw [Int.cast_add, Int.cast_one]
        exact hle.trans_lt (add_lt_add_right htol _)
      have hint : z' ≤ z := Int.lt_add_one_iff.mp (Int.cast_lt.mp hcast)
      exact decide_eq_false (not_lt.mpr (Int.cast_le.mpr hint))
    | _ => exact hlt
  | _ => exact hlt

/-- No tolerance, or whole bounds of an integer column and a tolerance below one: feasible bounds of
the column do not cross. -/
def Sharp (b : BoundsStrengthening) (settings : StrengtheningSettings) (k : ℕ)
    (lower upper : Extended ℚ) : Prop :=
  settings.primalTol = 0 ∨ settings.primalTol < 1 ∧ b.isInteger k = true ∧ Whole lower ∧ Whole upper

lemma column_ne_nan (s : StrengtheningState) (k : ℕ) (col : List (ℕ × ℚ))
    {new : Extended ℚ × Extended ℚ} (hnew : new.1 ≠ nan ∧ new.2 ≠ nan) :
    (col.foldl (entryUpdate s.constraintChanged s.deltas (s.box.lb k) (s.box.ub k)) new).1 ≠ nan ∧
      (col.foldl (entryUpdate s.constraintChanged s.deltas (s.box.lb k) (s.box.ub k)) new).2 ≠
        nan := by
  induction col generalizing new with
  | nil => exact hnew
  | cons p col ih =>
    apply ih
    rw [entryUpdate]
    cases s.constraintChanged.getD p.1 false with
    | false => exact hnew
    | true => exact ⟨stdMax_ne_nan hnew.1, stdMin_ne_nan hnew.2⟩

lemma roundBounds_ne_nan (settings : StrengtheningSettings) (k : ℕ) {new : Extended ℚ × Extended ℚ}
    (hnew : new.1 ≠ nan ∧ new.2 ≠ nan) : (b.roundBounds settings k new).1 ≠ nan ∧
      (b.roundBounds settings k new).2 ≠ nan := by
  obtain ⟨lb, ub⟩ := new
  rw [roundBounds]
  split_ifs
  · constructor
    · cases lb with
      | nan => exact absurd rfl hnew.1
      | _ =>
        intro heq
        cases heq
    · cases ub with
      | nan => exact absurd rfl hnew.2
      | _ =>
        intro heq
        cases heq
  · exact hnew

variable {k : ℕ}

lemma roundBounds_whole (settings : StrengtheningSettings) (hint : b.isInteger k = true)
    (new : Extended ℚ × Extended ℚ) :
    Whole (b.roundBounds settings k new).1 ∧ Whole (b.roundBounds settings k new).2 := by
  rw [roundBounds, if_pos hint]
  exact ⟨Whole.mapFinite (fun v => ⟨⌈v⌉, rfl⟩) _, Whole.mapFinite (fun v => ⟨⌊v⌋, rfl⟩) _⟩

/-- New bounds of a column that are numbers, and admit no value that `lower` and `upper` exclude. -/
structure Narrowed (b : BoundsStrengthening) (settings : StrengtheningSettings) (k : ℕ)
    (lower upper newLower newUpper : Extended ℚ) : Prop where
  lower_ne_nan : newLower ≠ nan
  upper_ne_nan : newUpper ≠ nan
  sharp : b.Sharp settings k newLower newUpper
  lower_le : ∀ v, AtMost newLower v → AtMost lower v
  le_upper : ∀ v, AtLeast newUpper v → AtLeast upper v

variable {original : Box} {s s' : StrengtheningState}

lemma strengthenColumn_narrowed (hsharp : b.Sharp settings k (original.lb k) (original.ub k))
    (horiginal : original.lb k ≠ nan ∧ original.ub k ≠ nan)
    (hbox : s.box.lb k ≠ nan ∧ s.box.ub k ≠ nan)
    (hfeasible : (b.strengthenColumn settings original s k).infeasible = false) :
    b.Narrowed settings k (original.lb k) (original.ub k)
      (b.strengthenColumn settings original s k).lower
      (b.strengthenColumn settings original s k).upper := by
  have hrounded := b.roundBounds_ne_nan settings k (column_ne_nan s k (b.A.col k)
    (show (s.box.lb k, s.box.ub k).1 ≠ nan ∧ (s.box.lb k, s.box.ub k).2 ≠ nan from hbox))
  have hwhole := fun hint => b.roundBounds_whole settings (k := k) hint ((b.A.col k).foldl
    (entryUpdate s.constraintChanged s.deltas (s.box.lb k) (s.box.ub k)) (s.box.lb k, s.box.ub k))
  rw [strengthenColumn] at hfeasible ⊢
  dsimp only at hfeasible ⊢
  generalize b.roundBounds settings k ((b.A.col k).foldl
    (entryUpdate s.constraintChanged s.deltas (s.box.lb k) (s.box.ub k))
    (s.box.lb k, s.box.ub k)) = new at hrounded hwhole hfeasible ⊢
  have hlow : stdMax new.1 (original.lb k) ≠ nan := stdMax_ne_nan hrounded.1
  have hhigh : stdMin new.2 (original.ub k) ≠ nan := stdMin_ne_nan hrounded.2
  have hnew : b.Sharp settings k (stdMax new.1 (original.lb k)) (stdMin new.2 (original.ub k)) := by
    rcases hsharp with hzero | ⟨htol, hint, hlower, hupper⟩
    · exact .inl hzero
    · exact .inr ⟨htol, hint, (hwhole hint).1.stdMax hlower, (hwhole hint).2.stdMin hupper⟩
  have hordered : lt (stdMin new.2 (original.ub k)) (stdMax new.1 (original.lb k)) = false := by
    rcases hnew with hzero | ⟨htol, -, hlower, hupper⟩
    · rw [hzero] at hfeasible
      cases hcase : stdMin new.2 (original.ub k) with
      | finite v =>
        rw [hcase, show add (finite v) (finite 0) = finite v from congrArg finite (add_zero v)]
          at hfeasible
        exact hfeasible
      | _ =>
        rw [hcase] at hfeasible
        exact hfeasible
    · exact hupper.lt_eq_false hlower htol hfeasible
  have hmin : stdMin (stdMax new.1 (original.lb k)) (stdMin new.2 (original.ub k)) =
      stdMax new.1 (original.lb k) := if_neg (by rw [hordered]; exact Bool.false_ne_true)
  rw [stdMax_eq_right hordered hlow hhigh, hmin]
  exact ⟨hlow, hhigh, hnew, fun v => AtMost.of_stdMax horiginal.1,
    fun v => AtLeast.of_stdMin horiginal.2⟩

/-- The bounds of one column after some rounds on the bounds `original`. -/
lemma strengthenRound_narrowed (hk : k < b.A.n)
    (hsharp : b.Sharp settings k (original.lb k) (original.ub k))
    (horiginal : original.lb k ≠ nan ∧ original.ub k ≠ nan) {again : Bool}
    (hs : b.Narrowed settings k (original.lb k) (original.ub k) (s.box.lb k) (s.box.ub k))
    (hround : b.strengthenRound settings original s = some (s', again)) :
    b.Narrowed settings k (original.lb k) (original.ub k) (s'.box.lb k) (s'.box.ub k) := by
  rw [strengthenRound] at hround
  split_ifs at hround with hrows
  dsimp only at hround
  split_ifs at hround with hcols
  cases hround
  dsimp only [Box.lb, Box.ub]
  rw [map_map, map_map, getD_map_range _ hk, getD_map_range _ hk]
  have hfeasible := any_eq_false.mp (Bool.not_eq_true _ ▸ hcols) _
    (mem_map_of_mem (mem_range.mpr hk))
  rw [Bool.not_eq_true] at hfeasible
  dsimp only [Function.comp_apply]
  rw [columnUpdate] at hfeasible ⊢
  split_ifs at hfeasible ⊢ with hchanged
  · exact strengthenColumn_narrowed hsharp horiginal ⟨hs.lower_ne_nan, hs.upper_ne_nan⟩ hfeasible
  · exact hs

lemma strengthenRound_length {again : Bool}
    (hround : b.strengthenRound settings original s = some (s', again)) :
    s'.box.lower.length = b.A.n ∧ s'.box.upper.length = b.A.n := by
  rw [strengthenRound] at hround
  split_ifs at hround with hrows
  dsimp only at hround
  split_ifs at hround with hcols
  cases hround
  constructor
  · rw [length_map, length_map, length_range]
  · rw [length_map, length_map, length_range]

/-- What a round keeps holds after the rounds. -/
lemma strengthenRounds_induction {P : Box → Prop}
    (hround : ∀ s s' again, P s.box → b.strengthenRound settings original s = some (s', again) →
      P s'.box) (limit : ℕ) (hs : P s.box)
    (hrounds : b.strengthenRounds settings original limit s = some s') : P s'.box := by
  induction limit generalizing s with
  | zero =>
    cases hrounds
    exact hs
  | succ limit ih =>
    rw [strengthenRounds] at hrounds
    cases hfirst : b.strengthenRound settings original s with
    | none =>
      rw [hfirst] at hrounds
      cases hrounds
    | some result =>
      obtain ⟨s₁, again⟩ := result
      rw [hfirst] at hrounds
      have hs₁ := hround s s₁ again hs hfirst
      cases again with
      | true => exact ih hs₁ hrounds
      | false =>
        cases hrounds
        exact hs₁

lemma boundsWithin_narrowed {limit : ℕ} {boundsChanged : Option (ℕ → Bool)} {box box' : Box}
    (hk : k < b.A.n) (hsharp : b.Sharp settings k (box.lb k) (box.ub k))
    (hbox : box.lb k ≠ nan ∧ box.ub k ≠ nan)
    (hrun : b.boundsWithin settings limit boundsChanged box = some box') :
    b.Narrowed settings k (box.lb k) (box.ub k) (box'.lb k) (box'.ub k) := by
  obtain ⟨s', hrounds, rfl⟩ := Option.map_eq_some_iff.mp hrun
  apply strengthenRounds_induction (P := fun box' => b.Narrowed settings k (box.lb k) (box.ub k)
    (box'.lb k) (box'.ub k)) (fun s s' again hs => strengthenRound_narrowed hk hsharp hbox hs) limit
    ⟨hbox.1, hbox.2, hsharp, fun v => id, fun v => id⟩ hrounds

lemma boundsWithin_length {limit : ℕ} {boundsChanged : Option (ℕ → Bool)} {box box' : Box}
    (hbox : box.lower.length = b.A.n ∧ box.upper.length = b.A.n)
    (hrun : b.boundsWithin settings limit boundsChanged box = some box') :
    box'.lower.length = b.A.n ∧ box'.upper.length = b.A.n := by
  obtain ⟨s', hrounds, rfl⟩ := Option.map_eq_some_iff.mp hrun
  exact strengthenRounds_induction (P := fun box' => box'.lower.length = b.A.n ∧
    box'.upper.length = b.A.n) (fun s s' again _ => strengthenRound_length) limit hbox hrounds

end BoundsStrengthening

instance (sense : RowSense) (rhs v : ℚ) : Decidable (SenseHolds sense rhs v) :=
  match sense with
  | .L => inferInstanceAs (Decidable (v ≤ rhs))
  | .G => inferInstanceAs (Decidable (rhs ≤ v))
  | .E => inferInstanceAs (Decidable (v = rhs))

instance (sense : RowSense) (rhs range v : ℚ) :
    Decidable (UserProblem.RangeHolds sense rhs range v) :=
  match sense with
  | .L => inferInstanceAs (Decidable (rhs - |range| ≤ v ∧ v ≤ rhs))
  | .G => inferInstanceAs (Decidable (rhs ≤ v ∧ v ≤ rhs + |range|))
  | .E => inferInstanceAs (Decidable (if 0 < range then rhs ≤ v ∧ v ≤ rhs + |range|
    else rhs - |range| ≤ v ∧ v ≤ rhs))

instance (user : UserProblem) (i : ℕ) (v : ℚ) : Decidable (user.RowHolds i v) :=
  match h : user.ranges.lookup i with
  | some range => decidable_of_iff (UserProblem.RangeHolds (user.rowSense i) (user.rhs i) range v)
    (by rw [UserProblem.RowHolds, h])
  | none => decidable_of_iff (SenseHolds (user.rowSense i) (user.rhs i) v)
    (by rw [UserProblem.RowHolds, h])

/-- The rows with their senses, and the integrality of the columns; no `varTypes` is the empty
vector. -/
structure MixedFeasible (problem : LpProblem) (rowSense : Option (ℕ → RowSense))
    (varTypes : Option (ℕ → VariableType)) (x : ℕ → ℚ) : Prop where
  rows : ∀ i < problem.numRows, SenseHolds (senseOf rowSense i) (problem.rhs i)
    (problem.toProgram.rowValue x i)
  integral : ∀ types ∈ varTypes, ∀ k < problem.numCols, types k ≠ .continuous → ∃ z : ℤ, x k = z

variable {problem : LpProblem}

lemma dot_toCompressedRow (hn : problem.A.n = problem.numCols) (x : ℕ → ℚ) (i : ℕ) :
    dot (problem.A.toCompressedRow.row i) x = problem.toProgram.rowValue x i := by
  have hcols : ∀ p ∈ problem.A.toCompressedRow.row i, p.1 ∈ Finset.range problem.numCols :=
    fun p hp => Finset.mem_range.mpr (hn ▸ (mem_transposed.mp hp).1)
  rw [dot_eq_sum _ x _ hcols]
  apply Finset.sum_congr rfl
  intro j hj
  rw [CscMatrix.toCompressedRow_row, coeff_transposed, hn, if_pos (Finset.mem_range.mp hj)]
  rfl

lemma MixedFeasible.keeps {rowSense : Option (ℕ → RowSense)}
    {varTypes : Option (ℕ → VariableType)} {x : ℕ → ℚ} {settings : StrengtheningSettings}
    (hx : MixedFeasible problem rowSense varTypes x) (hm : problem.A.m = problem.numRows)
    (hn : problem.A.n = problem.numCols) (hprimal : 0 ≤ settings.primalTol)
    (hinteger : 0 ≤ settings.integerTol) :
    (make problem problem.A.toCompressedRow rowSense varTypes).Keeps settings
      x (fun _ => False) where
  primalTol := hprimal
  integerTol := hinteger
  mem_row := fun i p => mem_transposed
  lower := by
    intro i hi
    left
    have hrow := hx.rows i (hm ▸ hi)
    simp only [make, dot_toCompressedRow hn]
    cases hsense : senseOf rowSense i with
    | L => exact trivial
    | G =>
      rw [hsense] at hrow
      exact hrow
    | E =>
      rw [hsense] at hrow
      exact ge_of_eq hrow
  upper := by
    intro i hi
    have hrow := hx.rows i (hm ▸ hi)
    simp only [make, dot_toCompressedRow hn]
    cases hsense : senseOf rowSense i with
    | L =>
      rw [hsense] at hrow
      exact hrow
    | G => exact trivial
    | E =>
      rw [hsense] at hrow
      exact le_of_eq hrow
  integral := by
    intro k hk hint
    cases hvar : varTypes with
    | none =>
      rw [isInteger, make, hvar] at hint
      cases hint
    | some types =>
      apply hx.integral types hvar k (hn ▸ hk)
      intro hcontinuous
      rw [isInteger, make, hvar] at hint
      dsimp only at hint
      rw [hcontinuous] at hint
      exact absurd hint (by decide)
  openColumn := fun k hU => hU.elim

lemma crushPrimalSolution_user {user : UserProblem} {newSlacks : List ℕ}
    (hexact : ExactConversion user problem newSlacks) (hcones : user.secondOrderConeDims = [])
    (x : ℕ → ℚ) {j : ℕ} (hj : j < user.numCols) :
    crushPrimalSolution user problem x newSlacks j = x j := by
  have huncrush := hexact.uncrush_crush x j hj
  rwa [uncrushPrimalSolution, userColToProblemCol, if_pos hcones] at huncrush

/-- A mixed-integer feasible point of the user problem is one of the equality-form problem. -/
lemma mixedFeasible_crush {user : UserProblem} {newSlacks : List ℕ}
    (hexact : ExactConversion user problem newSlacks) (hcones : user.secondOrderConeDims = [])
    {varTypes : ℕ → VariableType} {x : ℕ → ℚ} (hx : user.Feasible x)
    (hint : ∀ j < user.numCols, varTypes j ≠ .continuous → ∃ z : ℤ, x j = z) :
    MixedFeasible problem none (some (resizedTypes user varTypes))
      (crushPrimalSolution user problem x newSlacks) where
  rows := fun i hi => (hexact.crush_feasible x hx).1 i (Finset.mem_range.mpr hi)
  integral := by
    intro types htypes k hk hne
    cases htypes
    unfold resizedTypes at hne
    split_ifs at hne with hlt
    · rw [crushPrimalSolution_user hexact hcones x hlt]
      exact hint k hlt hne
    · exact absurd rfl hne

/-- Strengthening, by any number of rounds from any changed columns, keeps every mixed-integer
feasible point of its box, and says infeasible only of a box without one: for rows of any senses, and
for a user problem with ranges by way of its equality form. The code's `boundsStrengthening` makes
`iterLimit` rounds at most, with tolerances that are not negative. -/
theorem boundsWithin_sound (settings : StrengtheningSettings) (hprimal : 0 ≤ settings.primalTol)
    (hinteger : 0 ≤ settings.integerTol) (limit : ℕ) (boundsChanged : Option (ℕ → Bool))
    (box : Box) :
    (∀ (problem : LpProblem) (rowSense : Option (ℕ → RowSense))
      (varTypes : Option (ℕ → VariableType)), problem.A.m = problem.numRows →
      problem.A.n = problem.numCols → ∀ x, MixedFeasible problem rowSense varTypes x →
      box.Contains problem.numCols x →
      ∃ box', (make problem problem.A.toCompressedRow rowSense
          varTypes).boundsWithin settings limit boundsChanged box = some box' ∧
        box'.Contains problem.numCols x) ∧
    ∀ (dualize : Dualization) (user : UserProblem) (lpSettings : SimplexSolverSettings)
      (problem : LpProblem) (newSlacks : List ℕ), user.WellFormed →
      user.secondOrderConeDims = [] → dualizes user lpSettings (inequalityState user) = false →
      convertUserProblem dualize user lpSettings = some (problem, newSlacks) →
      ∀ (varTypes : ℕ → VariableType) (x : ℕ → ℚ), user.Feasible x →
      (∀ j < user.numCols, varTypes j ≠ .continuous → ∃ z : ℤ, x j = z) →
      box.Contains problem.numCols (crushPrimalSolution user problem x newSlacks) →
      ∃ box', (make problem problem.A.toCompressedRow none
          (some (resizedTypes user varTypes))).boundsWithin settings limit boundsChanged box =
            some box' ∧
        box'.Contains problem.numCols (crushPrimalSolution user problem x newSlacks) ∧
        box'.Contains user.numCols x := by
  constructor
  · intro problem rowSense varTypes hm hn x hx hbox
    have hkeeps := hx.keeps hm hn hprimal hinteger
    obtain ⟨box', hrun, hcontains⟩ := hkeeps.boundsWithin_keeps limit boundsChanged
      ⟨hn ▸ hbox, fun k hU => hU.elim⟩
    exact ⟨box', hrun, hn ▸ hcontains⟩
  · intro dualize user lpSettings problem newSlacks hwf hcones hdual hconvert varTypes x hx hint hbox
    have hexact := convertUserProblem_exact hwf hdual hconvert
    obtain ⟨emb, sgn, hlift, hemb⟩ := convertUserProblem_lifted hwf hdual hconvert
    have hm := hlift.inRange.A_m
    have hn := hlift.inRange.A_n
    have hkeeps := (mixedFeasible_crush hexact hcones hx hint).keeps hm hn hprimal hinteger
    obtain ⟨box', hrun, hcontains⟩ := hkeeps.boundsWithin_keeps limit boundsChanged
      ⟨hn ▸ hbox, fun k hU => hU.elim⟩
    have hcontains' : box'.Contains problem.numCols
        (crushPrimalSolution user problem x newSlacks) := hn ▸ hcontains
    refine ⟨box', hrun, hcontains', fun j hj => ?_⟩
    have hlt : j < problem.numCols := by
      have hcol := hlift.emb_lt j hj
      rwa [← hemb j hj, userColToProblemCol, if_pos hcones] at hcol
    have hvalue := hcontains' j hlt
    rwa [crushPrimalSolution_user hexact hcones x hj] at hvalue

/-- The point `(1, 2)`, integral in its second column. -/
theorem boundsWithin_sound_mixedSenses :
    (∃ box', (make mixedSenses.toLpProblem
        mixedSenses.toLpProblem.A.toCompressedRow (some mixedSenses.rowSense)
        (some fun j => if j = 1 then .integer else .continuous)).boundsWithin ⟨0, 0⟩ 10 none
          ⟨[finite 0, finite 0], [posInf, finite (5 / 2)]⟩ = some box' ∧
      box'.Contains 2 fun j => if j = 0 then 1 else 2) ∧
    ∀ problem newSlacks, convertUserProblem id mixedSenses simplexSettings =
        some (problem, newSlacks) → ∀ box : Box, box.Contains problem.numCols
        (crushPrimalSolution mixedSenses problem (fun j => if j = 0 then 1 else 2) newSlacks) →
      ∃ box', (make problem problem.A.toCompressedRow none
          (some (resizedTypes mixedSenses fun j => if j = 1 then .integer else
            .continuous))).boundsWithin ⟨0, 0⟩ 10 none box = some box' ∧
        box'.Contains 2 fun j => if j = 0 then 1 else 2 := by
  have hrow : ∀ x : ℕ → ℚ, ∀ i, mixedSenses.rowValue x i =
      mixedSenses.A.entry i 0 * x 0 + mixedSenses.A.entry i 1 * x 1 := by
    intro x i
    exact Finset.sum_range_succ _ 1 |>.trans (congrArg (· + _) (Finset.sum_range_one _))
  have hint : ∀ j < 2, (if j = 1 then VariableType.integer else .continuous) ≠ .continuous →
      ∃ z : ℤ, (if j = 0 then 1 else 2 : ℚ) = z := by
    intro j _ hne
    split_ifs at hne with hone
    · exact ⟨2, by rw [hone]; rfl⟩
    · exact absurd rfl hne
  constructor
  · apply (boundsWithin_sound ⟨0, 0⟩ le_rfl le_rfl 10 none _).1 mixedSenses.toLpProblem
      (some mixedSenses.rowSense) (some fun j => if j = 1 then .integer else .continuous) rfl rfl
      (fun j => if j = 0 then 1 else 2)
    · constructor
      · intro i hi
        change SenseHolds _ _ (mixedSenses.rowValue _ i)
        rw [hrow]
        have hlt : i < 3 := hi
        interval_cases i <;> decide +kernel
      · intro types htypes k hk hne
        cases htypes
        exact hint k hk hne
    · decide +kernel
  · intro problem newSlacks hconvert box hbox
    have hfeasible : mixedSenses.Feasible fun j => if j = 0 then 1 else 2 := by
      constructor
      · intro i hi
        rw [hrow]
        have hlt : i < 3 := hi
        interval_cases i <;> decide +kernel
      · intro j hj
        have hlt : j < 2 := hj
        interval_cases j <;> exact ⟨by decide +kernel, by decide +kernel⟩
    obtain ⟨box', hrun, -, hcontains⟩ := (boundsWithin_sound ⟨0, 0⟩ le_rfl le_rfl 10 none box).2 id
      mixedSenses simplexSettings problem newSlacks wellFormed_mixedSenses rfl rfl hconvert
      (fun j => if j = 1 then .integer else .continuous) _ hfeasible hint hbox
    exact ⟨box', hrun, hcontains⟩

end CuOpt.Simplex
