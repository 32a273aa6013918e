import CuOpt.Simplex.ImpliedBounds

/-! The two reductions of `presolve` that bring every bounded variable to the form `0 ≤ x`:
columns with only an upper bound are negated, then nonzero lower bounds are shifted to zero. -/

namespace CuOpt.Simplex

open SparseList QuadProgram List Finset
open Program (shift)

def negatedVariables (problem : LpProblem) : List ℕ :=
  (List.range problem.linearVariableCount).filter fun j =>
    problem.lower j = none && problem.upper j ≠ none

def negateColumns (problem : LpProblem) : LpProblem :=
  let negated := negatedVariables problem
  { problem with
    lower := fun j => if j ∈ negated then (problem.upper j).map Neg.neg else problem.lower j
    upper := fun j => if j ∈ negated then none else problem.upper j
    objective := fun j => if j ∈ negated then problem.objective j * -1 else problem.objective j
    A := { problem.A with
      col := fun j =>
        if j ∈ negated then (problem.A.col j).map fun p => (p.1, p.2 * -1) else problem.A.col j }
    Q := if 0 < problem.Q.n then
        { problem.Q with
          row := fun row => (problem.Q.row row).map fun p =>
            if (decide (row ∈ negated)) ≠ (decide (p.1 ∈ negated)) then (p.1, p.2 * -1) else p }
      else problem.Q }

def unnegate (negated : List ℕ) (t : Solution) : Solution :=
  { t with
    x := updateAll t.x negated fun _ v => v * -1
    z := updateAll t.z negated fun _ v => v * -1 }

lemma nodup_negatedVariables (problem : LpProblem) : (negatedVariables problem).Nodup :=
  nodup_range.filter _

section Negate

variable {problem : LpProblem}

lemma negateColumns_entry (i j : ℕ) :
    (negateColumns problem).A.entry i j =
      Program.sign (negatedVariables problem).toFinset j * problem.A.entry i j := by
  simp only [negateColumns, CscMatrix.entry, Program.sign, mem_toFinset]
  split_ifs
  · simp only [mul_comm _ (-1 : ℚ), coeff_map_mul]
  · rw [one_mul]

lemma negateColumns_Q_row (hQ : 0 < problem.Q.n) (j : ℕ) :
    (negateColumns problem).Q.row j = (problem.Q.row j).map fun p =>
      (p.1, (Program.sign (negatedVariables problem).toFinset j *
        Program.sign (negatedVariables problem).toFinset p.1) * p.2) := by
  simp only [negateColumns, hQ, if_true]
  refine map_congr_left fun p _ => ?_
  by_cases hj : j ∈ negatedVariables problem <;>
    by_cases hp : p.1 ∈ negatedVariables problem <;> simp [Program.sign, hj, hp]

lemma negateColumns_Q_entry (hQ : 0 < problem.Q.n) (j k : ℕ) :
    (negateColumns problem).Q.entry j k =
      Program.sign (negatedVariables problem).toFinset j *
        Program.sign (negatedVariables problem).toFinset k * problem.Q.entry j k := by
  rw [CsrMatrix.entry, negateColumns_Q_row hQ]
  exact coeff_map_snd _ (fun k => Program.sign (negatedVariables problem).toFinset j *
    Program.sign (negatedVariables problem).toFinset k) k

lemma negateColumns_keys (problem : LpProblem) (j : ℕ) :
    keys ((negateColumns problem).A.col j) = keys (problem.A.col j) := by
  simp only [negateColumns]
  split_ifs
  · exact keys_map_snd _ fun _ v => v * -1
  · rfl

lemma negateColumns_Q_keys (hQ : 0 < problem.Q.n) (j : ℕ) :
    keys ((negateColumns problem).Q.row j) = keys (problem.Q.row j) := by
  rw [negateColumns_Q_row hQ]
  exact keys_map_snd _ fun k v => (Program.sign (negatedVariables problem).toFinset j *
    Program.sign (negatedVariables problem).toFinset k) * v

lemma negateColumns_Q_m : (negateColumns problem).Q.m = problem.Q.m := by
  simp only [negateColumns]
  split_ifs <;> rfl

lemma negateColumns_Q_n : (negateColumns problem).Q.n = problem.Q.n := by
  simp only [negateColumns]
  split_ifs <;> rfl

lemma negateColumns_isSymmetric (hQ : 0 < problem.Q.n) {n : ℕ} (h : problem.Q.IsSymmetric n) :
    (negateColumns problem).Q.IsSymmetric n where
  m_eq := negateColumns_Q_m.trans h.m_eq
  n_eq := negateColumns_Q_n.trans h.n_eq
  lt := fun i hi => by
    rw [negateColumns_Q_keys hQ]
    exact h.lt i hi
  symm := fun i hi j hj => by
    rw [negateColumns_Q_entry hQ, negateColumns_Q_entry hQ, h.symm i hi j hj]
    ring
  pattern := fun i hi j hj => by
    rw [negateColumns_Q_keys hQ, negateColumns_Q_keys hQ]
    exact h.pattern i hi j hj

lemma negateColumns_wellFormed (hwf : problem.WellFormed) :
    (negateColumns problem).WellFormed where
  __ := hwf
  A_lt := fun j hj => by
    rw [negateColumns_keys]
    exact hwf.A_lt j hj
  A_nodup := fun j hj => by
    rw [negateColumns_keys]
    exact hwf.A_nodup j hj
  Q := by
    rw [negateColumns_Q_n]
    exact fun hQ => negateColumns_isSymmetric hQ (hwf.Q hQ)

lemma negateColumns_agree :
    Program.Agree (negateColumns problem).toProgram
      (problem.toProgram.flip (negatedVariables problem).toFinset) where
  rows := rfl
  cols := rfl
  a := fun i _ j _ => negateColumns_entry i j
  b := fun _ _ => rfl
  c := fun j _ => by
    simp only [LpProblem.toProgram, Program.flip, Program.sign, negateColumns, mem_toFinset]
    split_ifs <;> ring
  q := fun j _ k _ => by
    simp only [LpProblem.toProgram, Program.flip, negateColumns_Q_n]
    split_ifs with hQ
    · exact negateColumns_Q_entry hQ j k
    · rw [mul_zero]
  const := rfl
  lower := fun j _ => by
    simp only [LpProblem.toProgram, Program.flip, negateColumns, mem_toFinset]
  upper := fun j _ => by
    simp only [LpProblem.toProgram, Program.flip, negateColumns, mem_toFinset]
    split_ifs with hj
    · have hnone : problem.lower j = none := by
        simp only [negatedVariables, mem_filter, Bool.and_eq_true, decide_eq_true_eq] at hj
        exact hj.2.1
      rw [hnone]
      rfl
    · rfl

lemma unnegate_sameOn (P : Program ℕ ℕ ℚ) :
    Program.SameOn P (Program.unflip (negatedVariables problem).toFinset)
      (unnegate (negatedVariables problem)) := by
  have hval (f : ℕ → ℚ) (j : ℕ) : updateAll f (negatedVariables problem) (fun _ v => v * -1) j =
      Program.sign (negatedVariables problem).toFinset j * f j := by
    by_cases hj : j ∈ negatedVariables problem
    · rw [updateAll_of_mem f (nodup_negatedVariables problem) _ hj, Program.sign,
        if_pos (mem_toFinset.mpr hj)]
      ring
    · rw [updateAll_of_notMem f _ hj, Program.sign, if_neg (mt mem_toFinset.mp hj)]
      ring
  exact ⟨fun t j _ => hval t.x j, fun _ _ _ => rfl, fun t j _ => hval t.z j⟩

lemma negateColumns_recovers :
    Program.Recovers (negateColumns problem).toProgram problem.toProgram
      (unnegate (negatedVariables problem)) :=
  ((Program.flip_recovers _ _).trans negateColumns_agree.recovers).congr (unnegate_sameOn _)

lemma negateColumns_recoversFeasible :
    Program.RecoversFeasible (negateColumns problem).toProgram problem.toProgram
      (unnegate (negatedVariables problem)) :=
  ((Program.flip_recoversFeasible _ _).trans negateColumns_agree.recoversFeasible).congr
    (unnegate_sameOn _)

end Negate

def lowerBoundRemoved (problem : LpProblem) (j : ℕ) : Bool :=
  j < problem.linearVariableCount && problem.lower j ≠ some 0 && problem.lower j ≠ none

def removedLowerBounds (problem : LpProblem) (j : ℕ) : ℚ :=
  if lowerBoundRemoved problem j then (problem.lower j).getD 0 else 0

def shiftQuadEntry (removed : ℕ → Bool) (lower : ℕ → ℚ) (s : (ℕ → ℚ) × ℚ) (e : ℕ × ℕ × ℚ) :
    (ℕ → ℚ) × ℚ :=
  let (row, col, qij) := e
  let objective := if removed row then addAt s.1 col (1 / 2 * qij * lower row) else s.1
  let objective := if removed col then addAt objective row (1 / 2 * qij * lower col) else objective
  (objective,
    if removed row && removed col then s.2 + 1 / 2 * qij * lower row * lower col else s.2)

def quadEntries (Q : CsrMatrix) (n : ℕ) : List (ℕ × ℕ × ℚ) :=
  (List.range n).flatMap fun row => (Q.row row).map fun p => (row, p.1, p.2)

/-- Compensated addition of `p.2` to position `p.1`; the second component holds the errors. -/
def kahanAdd (s : (ℕ → ℚ) × (ℕ → ℚ)) (p : ℕ × ℚ) : (ℕ → ℚ) × (ℕ → ℚ) :=
  let y := p.2 - s.2 p.1
  let t := s.1 p.1 + y
  (Function.update s.1 p.1 t, Function.update s.2 p.1 (t - s.1 p.1 - y))

def shiftLowerBounds (problem : LpProblem) : LpProblem :=
  let linearCols := problem.linearVariableCount
  let removed := lowerBoundRemoved problem
  let lower := fun j => (problem.lower j).getD 0
  let (objective, quadConstant) :=
    if 0 < problem.Q.n then
      (quadEntries problem.Q linearCols).foldl (shiftQuadEntry removed lower)
        (problem.objective, problem.objConstant)
    else (problem.objective, problem.objConstant)
  let shifted := (List.range linearCols).filter removed
  let updates := shifted.flatMap fun j => (problem.A.col j).map fun p => (p.1, -p.2 * lower j)
  { problem with
    objective := objective
    objConstant := quadConstant + (shifted.map fun j => problem.objective j * lower j).sum
    rhs := (updates.foldl kahanAdd (problem.rhs, fun _ => 0)).1
    upper := fun j => if removed j then (problem.upper j).map (· - lower j) else problem.upper j
    lower := fun j => if removed j then some 0 else problem.lower j }

def addLowerBounds (removed : Option (ℕ → ℚ)) (t : Solution) : Solution :=
  match removed with
  | none => t
  | some lower => { t with x := fun j => t.x j + lower j }

section Shift

variable {problem : LpProblem}

lemma foldl_kahanAdd (f : ℕ → ℚ) (l : List (ℕ × ℚ)) :
    l.foldl kahanAdd (f, fun _ => 0) = (addAll f l, fun _ => 0) := by
  induction l generalizing f with
  | nil => rfl
  | cons p l ih =>
    have hstep : kahanAdd (f, fun _ => 0) p = (addAt f p.1 p.2, fun _ => 0) := by
      simp only [kahanAdd, addAt, sub_zero, Prod.mk.injEq, true_and]
      funext k
      by_cases hk : k = p.1
      · subst hk
        simp
      · rw [Function.update_of_ne hk]
    rw [foldl_cons, hstep, ih]
    rfl

lemma shiftQuadEntry_fst (s : (ℕ → ℚ) × ℚ) (e : ℕ × ℕ × ℚ) (k : ℕ) :
    (shiftQuadEntry (lowerBoundRemoved problem) (fun j => (problem.lower j).getD 0) s e).1 k =
      s.1 k + 1 / 2 * ((if e.2.1 = k then e.2.2 * removedLowerBounds problem e.1 else 0)
        + if e.1 = k then e.2.2 * removedLowerBounds problem e.2.1 else 0) := by
  obtain ⟨row, col, q⟩ := e
  simp only [shiftQuadEntry, removedLowerBounds]
  split_ifs <;> simp_all [addAt_apply] <;> ring

lemma shiftQuadEntry_snd (s : (ℕ → ℚ) × ℚ) (e : ℕ × ℕ × ℚ) :
    (shiftQuadEntry (lowerBoundRemoved problem) (fun j => (problem.lower j).getD 0) s e).2 =
      s.2 + 1 / 2 * (e.2.2 * removedLowerBounds problem e.1 * removedLowerBounds problem e.2.1) := by
  obtain ⟨row, col, q⟩ := e
  simp only [shiftQuadEntry, removedLowerBounds]
  split_ifs <;> simp_all
  ring

lemma foldl_shiftQuadEntry (l : List (ℕ × ℕ × ℚ)) (s : (ℕ → ℚ) × ℚ) :
    (∀ k, (l.foldl (shiftQuadEntry (lowerBoundRemoved problem)
        (fun j => (problem.lower j).getD 0)) s).1 k =
      s.1 k + 1 / 2 * ((l.map fun e =>
        if e.2.1 = k then e.2.2 * removedLowerBounds problem e.1 else 0).sum
        + (l.map fun e => if e.1 = k then e.2.2 * removedLowerBounds problem e.2.1 else 0).sum)) ∧
    (l.foldl (shiftQuadEntry (lowerBoundRemoved problem) (fun j => (problem.lower j).getD 0)) s).2 =
      s.2 + 1 / 2 * (l.map fun e =>
        e.2.2 * removedLowerBounds problem e.1 * removedLowerBounds problem e.2.1).sum := by
  induction l generalizing s with
  | nil => simp
  | cons e l ih =>
    obtain ⟨hobj, hconst⟩ := ih (shiftQuadEntry (lowerBoundRemoved problem)
      (fun j => (problem.lower j).getD 0) s e)
    constructor
    · intro k
      rw [foldl_cons, hobj, shiftQuadEntry_fst]
      simp only [List.map_cons, List.sum_cons]
      ring
    · rw [foldl_cons, hconst, shiftQuadEntry_snd]
      simp only [List.map_cons, List.sum_cons]
      ring

lemma sum_quadEntries (Q : CsrMatrix) (n : ℕ) (g : ℕ → ℕ × ℚ → ℚ) :
    ((quadEntries Q n).map fun e => g e.1 e.2).sum =
      ∑ i ∈ range n, ((Q.row i).map (g i)).sum := by
  induction n with
  | zero => rfl
  | succ n ih =>
    rw [Finset.sum_range_succ, ← ih, quadEntries, range_succ, flatMap_append,
      map_append, sum_append]
    simp only [quadEntries, flatMap_cons, flatMap_nil, append_nil, List.map_map, Function.comp_def]

lemma shiftLowerBounds_rhs (hlin : problem.linearVariableCount = problem.numCols) (i : ℕ) :
    (shiftLowerBounds problem).rhs i =
      problem.rhs i - problem.toProgram.rowValue (removedLowerBounds problem) i := by
  simp only [shiftLowerBounds, foldl_kahanAdd, addAll_apply, coeff_flatMap]
  rw [sub_eq_add_neg, Program.rowValue, ← sum_neg_distrib, sum_map_filter, sum_map_range, hlin]
  congr 1
  refine sum_congr rfl fun j _ => ?_
  have hcol : coeff ((problem.A.col j).map fun p => (p.1, -p.2 * (problem.lower j).getD 0)) i =
      -(problem.lower j).getD 0 * coeff (problem.A.col j) i := by
    rw [← coeff_map_mul]
    congr 1
    exact map_congr_left fun p _ => by rw [neg_mul_comm, mul_comm]
  simp only [removedLowerBounds, LpProblem.toProgram, CscMatrix.entry, hcol]
  split_ifs <;> ring

section

variable (hwf : problem.WellFormed)
include hwf

lemma shiftLowerBounds_objective (hlin : problem.linearVariableCount = problem.numCols) {k : ℕ}
    (hk : k < problem.numCols) :
    (shiftLowerBounds problem).objective k =
      (problem.toProgram.shift (removedLowerBounds problem)).c k := by
  simp only [shiftLowerBounds, shift, LpProblem.toProgram]
  split_ifs with hQ
  · rw [(foldl_shiftQuadEntry _ _).1 k, hlin]
    have hcol := sum_quadEntries problem.Q problem.numCols fun i p =>
      if p.1 = k then p.2 * removedLowerBounds problem i else 0
    have hrow := sum_quadEntries problem.Q problem.numCols fun i p =>
      if i = k then p.2 * removedLowerBounds problem p.1 else 0
    rw [hcol, hrow]
    congr 3
    · refine sum_congr rfl fun i _ => ?_
      rw [CsrMatrix.entry, coeff, ← sum_map_mul_right]
      simp only [ite_mul, zero_mul]
    · have hdot := dot_eq_sum (problem.Q.row k) (removedLowerBounds problem)
        (range problem.numCols) fun p hp =>
          Finset.mem_range.mpr ((hwf.Q hQ).lt k hk p.1 (mem_map_of_mem hp))
      rw [sum_eq_single_of_mem k (Finset.mem_range.mpr hk)]
      · simp only [if_true]
        exact hdot
      · intro i _ hik
        simp only [hik, if_false, map_const', sum_replicate, smul_zero]
  · simp

lemma shiftLowerBounds_objConstant (hlin : problem.linearVariableCount = problem.numCols) :
    (shiftLowerBounds problem).objConstant =
      (problem.toProgram.shift (removedLowerBounds problem)).const := by
  have hcost : (((List.range problem.linearVariableCount).filter (lowerBoundRemoved problem)).map
      fun j => problem.objective j * (problem.lower j).getD 0).sum =
        ∑ j ∈ range problem.numCols, problem.objective j * removedLowerBounds problem j := by
    rw [sum_map_filter, sum_map_range, hlin]
    refine sum_congr rfl fun j _ => ?_
    unfold removedLowerBounds
    split_ifs <;> ring
  simp only [shiftLowerBounds, shift, LpProblem.toProgram, hcost]
  congr 1
  split_ifs with hQ
  · rw [(foldl_shiftQuadEntry _ _).2, hlin]
    have hquad := sum_quadEntries problem.Q problem.numCols fun i p =>
      p.2 * removedLowerBounds problem i * removedLowerBounds problem p.1
    rw [hquad]
    congr 2
    refine sum_congr rfl fun i hi => ?_
    have hdot := dot_eq_sum (problem.Q.row i) (removedLowerBounds problem)
      (range problem.numCols)
      fun p hp => Finset.mem_range.mpr
        ((hwf.Q hQ).lt i (Finset.mem_range.mp hi) p.1 (mem_map_of_mem hp))
    calc
      _ = removedLowerBounds problem i * dot (problem.Q.row i) (removedLowerBounds problem) := by
        rw [dot, ← sum_map_mul_left]
        exact congrArg sum (map_congr_left fun p _ => by ring)
      _ = _ := by
        rw [hdot, mul_sum]
        exact sum_congr rfl fun j _ => by rw [CsrMatrix.entry]; ring
  · simp

lemma shiftLowerBounds_agree (hlin : problem.linearVariableCount = problem.numCols) :
    Program.Agree (shiftLowerBounds problem).toProgram
      (problem.toProgram.shift (removedLowerBounds problem)) where
  rows := rfl
  cols := rfl
  a := fun _ _ _ _ => rfl
  b := fun i _ => shiftLowerBounds_rhs hlin i
  c := fun k hk => shiftLowerBounds_objective hwf hlin (Finset.mem_range.mp hk)
  q := fun _ _ _ _ => rfl
  const := shiftLowerBounds_objConstant hwf hlin
  lower := fun j hj => by
    have hj' : j < problem.linearVariableCount := hlin ▸ Finset.mem_range.mp hj
    simp only [LpProblem.toProgram, shiftLowerBounds, shift, removedLowerBounds,
      lowerBoundRemoved, hj', decide_true, Bool.true_and]
    cases hl : problem.lower j with
    | none => simp
    | some l =>
      by_cases hzero : l = 0
      · simp [hzero]
      · simp [hzero]
  upper := fun j _ => by
    simp only [LpProblem.toProgram, shiftLowerBounds, shift, removedLowerBounds]
    split_ifs
    · rfl
    · simp

lemma shiftLowerBounds_wellFormed :
    (shiftLowerBounds problem).WellFormed :=
  ⟨hwf.A_m, hwf.A_n, hwf.A_lt, hwf.A_nodup, hwf.Q⟩

lemma LpProblem.WellFormed.symmetric :
    problem.toProgram.Symmetric := by
  intro j hj k hk
  simp only [LpProblem.toProgram]
  split_ifs with hQ
  · exact (hwf.Q hQ).symm j (Finset.mem_range.mp hj) k (Finset.mem_range.mp hk)
  · rfl

lemma shiftLowerBounds_recovers (hlin : problem.linearVariableCount = problem.numCols) :
    Program.Recovers (shiftLowerBounds problem).toProgram problem.toProgram
      (addLowerBounds (some (removedLowerBounds problem))) :=
  (Program.shift_recovers _ hwf.symmetric _).trans (shiftLowerBounds_agree hwf hlin).recovers

lemma shiftLowerBounds_recoversFeasible (hlin : problem.linearVariableCount = problem.numCols) :
    Program.RecoversFeasible (shiftLowerBounds problem).toProgram problem.toProgram
      (addLowerBounds (some (removedLowerBounds problem))) :=
  (Program.shift_recoversFeasible _ _).trans (shiftLowerBounds_agree hwf hlin).recoversFeasible

end

end Shift

end CuOpt.Simplex
