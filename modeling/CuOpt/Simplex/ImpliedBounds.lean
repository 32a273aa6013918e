import CuOpt.Simplex.Problem

/-! First reduction of `presolve`: a free variable that is the only unbounded one of an equality
row gets the bound that the row implies. Postsolve moves its reduced cost back to that row. -/

namespace CuOpt.Simplex

open SparseList QuadProgram List Function

structure RowActivity where
  lowerActivity : ℚ := 0
  upperActivity : ℚ := 0
  lowerInf : ℕ := 0
  upperInf : ℕ := 0
  lastFree : Option (ℕ × ℚ) := none

namespace RowActivity

def addLower (r : RowActivity) (aij : ℚ) : Option ℚ → RowActivity
  | some bound => { r with lowerActivity := r.lowerActivity + aij * bound }
  | none => { r with lowerInf := r.lowerInf + 1 }

def addUpper (r : RowActivity) (aij : ℚ) : Option ℚ → RowActivity
  | some bound => { r with upperActivity := r.upperActivity + aij * bound }
  | none => { r with upperInf := r.upperInf + 1 }

def noteFree (r : RowActivity) (p : ℕ × ℚ) (lower upper : Option ℚ) : RowActivity :=
  if lower = none ∧ upper = none then { r with lastFree := some p } else r

def addEntry (linearCols : ℕ) (lower upper : ℕ → Option ℚ) (r : RowActivity) (p : ℕ × ℚ) :
    RowActivity :=
  if linearCols ≤ p.1 then r
  else if 0 < p.2 then
    ((r.noteFree p (lower p.1) (upper p.1)).addLower p.2 (lower p.1)).addUpper p.2 (upper p.1)
  else
    ((r.noteFree p (lower p.1) (upper p.1)).addLower p.2 (upper p.1)).addUpper p.2 (lower p.1)

end RowActivity

def rowActivity (linearCols : ℕ) (lower upper : ℕ → Option ℚ) (row : List (ℕ × ℚ)) : RowActivity :=
  row.foldl (RowActivity.addEntry linearCols lower upper) {}

def maxBound : ℚ := 10 ^ 10

structure ImpliedBounds where
  lower : ℕ → Option ℚ
  upper : ℕ → Option ℚ
  lowerBoundConstraint : ℕ → Option (ℕ × ℚ) := fun _ => none
  upperBoundConstraint : ℕ → Option (ℕ × ℚ) := fun _ => none

namespace ImpliedBounds

def setUpper (s : ImpliedBounds) (i j : ℕ) (aij newUpper : ℚ) : ImpliedBounds :=
  if newUpper < maxBound then
    { s with
      upper := update s.upper j (some newUpper)
      upperBoundConstraint := update s.upperBoundConstraint j (some (i, aij)) }
  else s

def setLower (s : ImpliedBounds) (i j : ℕ) (aij newLower : ℚ) : ImpliedBounds :=
  if -maxBound < newLower then
    { s with
      lower := update s.lower j (some newLower)
      lowerBoundConstraint := update s.lowerBoundConstraint j (some (i, aij)) }
  else s

def applyActivity (s : ImpliedBounds) (rhs : ℚ) (r : RowActivity) (i : ℕ) : ImpliedBounds :=
  match r.lastFree with
  | none => s
  | some (j, aij) =>
    if aij = 0 then s
    else if 0 < aij then
      let s := if r.lowerInf = 1 then s.setUpper i j aij (1 / aij * (rhs - r.lowerActivity)) else s
      if r.upperInf = 1 then s.setLower i j aij (1 / aij * (rhs - r.upperActivity)) else s
    else
      let s := if r.lowerInf = 1 then s.setLower i j aij (1 / aij * (rhs - r.lowerActivity)) else s
      if r.upperInf = 1 then s.setUpper i j aij (1 / aij * (rhs - r.upperActivity)) else s

def checkConstraint (linearCols : ℕ) (Arow : CsrMatrix) (rhs : ℕ → ℚ) (s : ImpliedBounds) (i : ℕ) :
    ImpliedBounds :=
  s.applyActivity (rhs i) (rowActivity linearCols s.lower s.upper (Arow.row i)) i

/-- Of two finite bounds only the one closer to zero is kept. -/
def keepOneBound (s : ImpliedBounds) (j : ℕ) : ImpliedBounds :=
  match s.lower j, s.upper j with
  | some l, some u =>
    if |l| < |u| then { s with upper := update s.upper j none }
    else { s with lower := update s.lower j none }
  | _, _ => s

def boundedFreeVar (s : ImpliedBounds) (j : ℕ) : Option BoundedFreeVar :=
  match s.lower j, s.lowerBoundConstraint j with
  | some _, some (i, aij) => some ⟨j, i, aij⟩
  | _, _ =>
    match s.upper j, s.upperBoundConstraint j with
    | some _, some (i, aij) => some ⟨j, i, aij⟩
    | _, _ => none

end ImpliedBounds

def constraintsOf (A : CscMatrix) (cols : List ℕ) : List ℕ :=
  distinct (cols.flatMap fun j => keys (A.col j))

def touchesCone (linearCols : ℕ) (Arow : CsrMatrix) (i : ℕ) : Bool :=
  (Arow.row i).any fun p => linearCols ≤ p.1

def impliedBounds (problem : LpProblem) : ImpliedBounds :=
  let linearCols := problem.linearVariableCount
  let freeVariables := (range linearCols).filter problem.isFree
  let Arow := problem.A.toCompressedRow
  let constraintsToCheck :=
    if problem.secondOrderConeDims = [] then constraintsOf problem.A freeVariables
    else (constraintsOf problem.A freeVariables).filter fun i => !touchesCone linearCols Arow i
  let s := constraintsToCheck.foldl (ImpliedBounds.checkConstraint linearCols Arow problem.rhs)
    { lower := problem.lower, upper := problem.upper }
  freeVariables.foldl ImpliedBounds.keepOneBound s

def boundFreeVariables (problem : LpProblem) : LpProblem × List BoundedFreeVar :=
  let s := impliedBounds problem
  let freeVariables := (range problem.linearVariableCount).filter problem.isFree
  ({ problem with lower := s.lower, upper := s.upper }, freeVariables.filterMap s.boundedFreeVar)

def correctDual (Arow : CsrMatrix) (bfv : BoundedFreeVar) (t : Solution) : Solution :=
  let w := t.z bfv.var
  if w = 0 then t
  else
    let du := w / bfv.coefficient
    { t with
      y := addAt t.y bfv.constraint du
      z := addAll t.z ((Arow.row bfv.constraint).map fun p => (p.1, -(p.2 * du))) }

def correctDuals (A : CscMatrix) (boundedFreeVariables : List BoundedFreeVar) (t : Solution) :
    Solution :=
  boundedFreeVariables.foldr (correctDual A.toCompressedRow) t

lemma rowActivity_lastFree {linearCols : ℕ} {lower upper : ℕ → Option ℚ} {row : List (ℕ × ℚ)}
    {p : ℕ × ℚ} (h : (rowActivity linearCols lower upper row).lastFree = some p) :
    p ∈ row ∧ lower p.1 = none ∧ upper p.1 = none := by
  have hadd (r : RowActivity) (aij : ℚ) (b : Option ℚ) :
      (r.addLower aij b).lastFree = r.lastFree ∧ (r.addUpper aij b).lastFree = r.lastFree := by
    cases b <;> exact ⟨rfl, rfl⟩
  induction row using reverseRecOn with
  | nil => cases h
  | append_singleton row q ih =>
    rw [rowActivity, foldl_concat] at h
    -- the last entry either is the free one or leaves `lastFree` alone
    have hcases : (rowActivity linearCols lower upper row).lastFree = some p ∨
        (p = q ∧ lower q.1 = none ∧ upper q.1 = none) := by
      unfold RowActivity.addEntry at h
      split_ifs at h with hcone hpos
      · exact .inl h
      all_goals
        rw [(hadd _ _ _).2, (hadd _ _ _).1] at h
        unfold RowActivity.noteFree at h
        split_ifs at h with hfree
        · exact .inr ⟨(Option.some.inj h).symm, hfree⟩
        · exact .inl h
    rcases hcases with hrow | ⟨rfl, hfree⟩
    · exact ⟨mem_append_left _ (ih hrow).1, (ih hrow).2⟩
    · exact ⟨by simp, hfree⟩

/-- The bounds of `s` are those of the problem, except on free columns with an entry, and every
recorded row is a row of the problem. -/
structure ImpliedBounds.Sound (problem : LpProblem) (s : ImpliedBounds) : Prop where
  bounds : ∀ j, (s.lower j = problem.lower j ∧ s.upper j = problem.upper j) ∨
    (problem.isFree j = true ∧ problem.A.col j ≠ [])
  lowerRow : ∀ j i aij, s.lowerBoundConstraint j = some (i, aij) → i < problem.numRows
  upperRow : ∀ j i aij, s.upperBoundConstraint j = some (i, aij) → i < problem.numRows

namespace ImpliedBounds.Sound

variable {problem : LpProblem} {s : ImpliedBounds} {i j : ℕ}

section

variable (h : s.Sound problem) (hi : i < problem.numRows)
include h hi

lemma setUpper (hj : problem.isFree j = true ∧ problem.A.col j ≠ []) (aij v : ℚ) :
    (s.setUpper i j aij v).Sound problem := by
  unfold ImpliedBounds.setUpper
  split_ifs
  · refine ⟨fun k => ?_, h.lowerRow, fun k i' a' hk => ?_⟩
    · by_cases hkj : k = j
      · exact .inr (hkj ▸ hj)
      · simpa only [update_of_ne hkj] using h.bounds k
    · by_cases hkj : k = j
      · subst hkj
        simp only [update_self, Option.some.injEq, Prod.mk.injEq] at hk
        exact hk.1 ▸ hi
      · simp only [update_of_ne hkj] at hk
        exact h.upperRow k i' a' hk
  · exact h

lemma setLower (hj : problem.isFree j = true ∧ problem.A.col j ≠ []) (aij v : ℚ) :
    (s.setLower i j aij v).Sound problem := by
  unfold ImpliedBounds.setLower
  split_ifs
  · refine ⟨fun k => ?_, fun k i' a' hk => ?_, h.upperRow⟩
    · by_cases hkj : k = j
      · exact .inr (hkj ▸ hj)
      · simpa only [update_of_ne hkj] using h.bounds k
    · by_cases hkj : k = j
      · subst hkj
        simp only [update_self, Option.some.injEq, Prod.mk.injEq] at hk
        exact hk.1 ▸ hi
      · simp only [update_of_ne hkj] at hk
        exact h.lowerRow k i' a' hk
  · exact h

lemma applyActivity (rhs : ℚ) (r : RowActivity)
    (hr : ∀ p, r.lastFree = some p → problem.isFree p.1 = true ∧ problem.A.col p.1 ≠ []) :
    (s.applyActivity rhs r i).Sound problem := by
  unfold ImpliedBounds.applyActivity
  match hlast : r.lastFree with
  | none => exact h
  | some (j, aij) =>
    have hj := hr (j, aij) hlast
    simp only
    split_ifs
    · exact h
    · exact (h.setUpper hi hj _ _).setLower hi hj _ _
    · exact h.setLower hi hj _ _
    · exact h.setUpper hi hj _ _
    · exact h
    · exact (h.setLower hi hj _ _).setUpper hi hj _ _
    · exact h.setUpper hi hj _ _
    · exact h.setLower hi hj _ _
    · exact h

lemma checkConstraint (linearCols : ℕ) (rhs : ℕ → ℚ) :
    (s.checkConstraint linearCols problem.A.toCompressedRow rhs i).Sound problem := by
  refine h.applyActivity hi (rhs i) _ fun p hp => ?_
  obtain ⟨hmem, hl, hu⟩ := rowActivity_lastFree hp
  have hentry := (mem_transposed.mp hmem).2
  have hne : problem.A.col p.1 ≠ [] := ne_nil_of_mem hentry
  refine ⟨?_, hne⟩
  rcases h.bounds p.1 with ⟨hl', hu'⟩ | ⟨hfree, _⟩
  · simp only [LpProblem.isFree, ← hl', ← hu', hl, hu, decide_true, Bool.and_self]
  · exact hfree

end

lemma keepOneBound (h : s.Sound problem)
    (hj : problem.isFree j = true) : (s.keepOneBound j).Sound problem := by
  unfold ImpliedBounds.keepOneBound
  match hl : s.lower j, hu : s.upper j with
  | none, _ => exact h
  | some _, none => exact h
  | some l, some u =>
    have hne : problem.A.col j ≠ [] := by
      rcases h.bounds j with ⟨hl', _⟩ | ⟨_, hne⟩
      · simp only [LpProblem.isFree, ← hl', hl, Bool.and_eq_true, decide_eq_true_eq,
          reduceCtorEq, false_and] at hj
      · exact hne
    simp only
    split_ifs
    all_goals
      refine ⟨fun k => ?_, h.lowerRow, h.upperRow⟩
      by_cases hkj : k = j
      · exact .inr ⟨hkj ▸ hj, hkj ▸ hne⟩
      · simpa only [update_of_ne hkj] using h.bounds k

lemma boundedFreeVar_constraint_lt (h : s.Sound problem) {bfv : BoundedFreeVar}
    (hb : s.boundedFreeVar j = some bfv) : bfv.constraint < problem.numRows := by
  unfold ImpliedBounds.boundedFreeVar at hb
  split at hb
  · next hrow =>
    cases hb
    exact h.lowerRow j _ _ hrow
  · split at hb
    · next hrow =>
      cases hb
      exact h.upperRow j _ _ hrow
    · cases hb

end ImpliedBounds.Sound

lemma mem_constraintsOf {A : CscMatrix} {cols : List ℕ} {i : ℕ} :
    i ∈ constraintsOf A cols ↔ ∃ j ∈ cols, i ∈ keys (A.col j) := by
  rw [constraintsOf, mem_distinct, mem_flatMap]

variable {problem : LpProblem}

lemma foldl_sound {f : ImpliedBounds → ℕ → ImpliedBounds} {l : List ℕ}
    (hstep : ∀ s, ∀ k ∈ l, ImpliedBounds.Sound problem s → (f s k).Sound problem)
    {s : ImpliedBounds} (hs : s.Sound problem) : (l.foldl f s).Sound problem := by
  induction l generalizing s with
  | nil => exact hs
  | cons k l ih =>
    exact ih (fun s' k' hk' => hstep s' k' (mem_cons_of_mem _ hk')) (hstep s k mem_cons_self hs)

lemma impliedBounds_sound (hwf : problem.WellFormed)
    (hcones : problem.linearVariableCount ≤ problem.numCols) :
    (impliedBounds problem).Sound problem := by
  have hrow {i : ℕ} (hi : i ∈ constraintsOf problem.A
      ((range problem.linearVariableCount).filter problem.isFree)) : i < problem.numRows := by
    obtain ⟨j, hj, hij⟩ := mem_constraintsOf.mp hi
    have hlt := mem_range.mp (mem_filter.mp hj).1
    exact hwf.A_lt j (by omega) i hij
  have hinit : ImpliedBounds.Sound problem { lower := problem.lower, upper := problem.upper } :=
    ⟨fun _ => .inl ⟨rfl, rfl⟩, fun _ _ _ h => (by cases h), fun _ _ _ h => (by cases h)⟩
  unfold impliedBounds
  apply foldl_sound
  · intro s j hj hs
    exact hs.keepOneBound (mem_filter.mp hj).2
  apply foldl_sound _ hinit
  intro s i hi hs
  refine hs.checkConstraint ?_ _ _
  split_ifs at hi
  · exact hrow hi
  · exact hrow (mem_filter.mp hi).1

lemma correctDual_stationary (hwf : problem.WellFormed) {bfv : BoundedFreeVar}
    (hrow : bfv.constraint < problem.numRows) {t : Solution} (ht : problem.toProgram.Stationary t) :
    problem.toProgram.Stationary (correctDual problem.A.toCompressedRow bfv t) := by
  unfold correctDual
  simp only
  split_ifs with hw
  · exact ht
  · set du := t.z bfv.var / bfv.coefficient
    refine (problem.toProgram.stationary_dualShift (Finset.mem_range.mpr hrow) du ht).congr
      (fun _ _ => rfl) (fun _ _ => rfl) fun j hj => ?_
    have hneg : (fun p : ℕ × ℚ => (p.1, -(p.2 * du))) = fun p => (p.1, -du * p.2) := by
      funext p
      simp only [neg_mul, mul_comm du]
    change addAll t.z _ j = _
    rw [addAll_apply, hneg, coeff_map_mul, CscMatrix.toCompressedRow_row, coeff_transposed,
      if_pos (hwf.A_n ▸ Finset.mem_range.mp hj)]
    simp only [Program.dualShift, LpProblem.toProgram, CscMatrix.entry]
    ring

lemma correctDuals_x (A : CscMatrix) (l : List BoundedFreeVar) (t : Solution) :
    (correctDuals A l t).x = t.x := by
  induction l with
  | nil => rfl
  | cons bfv l ih =>
    rw [← ih]
    simp only [correctDuals, foldr_cons, correctDual]
    split_ifs <;> rfl

lemma correctDuals_stationary (hwf : problem.WellFormed) {l : List BoundedFreeVar}
    (hl : ∀ bfv ∈ l, bfv.constraint < problem.numRows) {t : Solution}
    (ht : problem.toProgram.Stationary t) :
    problem.toProgram.Stationary (correctDuals problem.A l t) := by
  induction l with
  | nil => exact ht
  | cons bfv l ih =>
    exact correctDual_stationary hwf (hl bfv mem_cons_self)
      (ih fun b hb => hl b (mem_cons_of_mem _ hb))

section Stage

variable {problem : LpProblem}

section

variable (hwf : problem.WellFormed)
include hwf

lemma boundFreeVariables_wellFormed :
    (boundFreeVariables problem).1.WellFormed :=
  ⟨hwf.A_m, hwf.A_n, hwf.A_lt, hwf.A_nodup, hwf.Q⟩

lemma boundFreeVariables_constraint_lt (hcones : problem.linearVariableCount ≤ problem.numCols) :
    ∀ bfv ∈ (boundFreeVariables problem).2, bfv.constraint < problem.numRows := by
  intro bfv hb
  obtain ⟨j, _, hj⟩ := mem_filterMap.mp hb
  exact (impliedBounds_sound hwf hcones).boundedFreeVar_constraint_lt hj

lemma boundFreeVariables_recovers (hcones : problem.linearVariableCount ≤ problem.numCols) :
    Program.Recovers (boundFreeVariables problem).1.toProgram problem.toProgram
      (correctDuals problem.A (boundFreeVariables problem).2) := by
  refine ⟨fun t => ?_, fun t ht => ?_⟩
  · rw [correctDuals_x]
    rfl
  · exact correctDuals_stationary hwf (boundFreeVariables_constraint_lt hwf hcones) ht

lemma boundFreeVariables_recoversFeasible
    (hcones : problem.linearVariableCount ≤ problem.numCols) :
    Program.RecoversFeasible (boundFreeVariables problem).1.toProgram problem.toProgram
      (correctDuals problem.A (boundFreeVariables problem).2) := by
  intro t ht
  rw [correctDuals_x]
  refine Program.setBounds_recoversFeasible problem.toProgram _ _ (fun j _ => ?_) t ht
  rcases (impliedBounds_sound hwf hcones).bounds j with hsame | ⟨hfree, _⟩
  · exact .inl hsame
  · simp only [LpProblem.isFree, Bool.and_eq_true, decide_eq_true_eq] at hfree
    exact .inr hfree

/-- A column without entries keeps its bounds. -/
lemma boundFreeVariables_bounds_of_empty (hcones : problem.linearVariableCount ≤ problem.numCols)
    {j : ℕ} (hj : problem.A.col j = []) :
    (boundFreeVariables problem).1.lower j = problem.lower j ∧
      (boundFreeVariables problem).1.upper j = problem.upper j := by
  rcases (impliedBounds_sound hwf hcones).bounds j with hsame | ⟨_, hne⟩
  · exact hsame
  · exact absurd hj hne

end

end Stage

end CuOpt.Simplex
