import CuOpt.Library.QuadReductions
import CuOpt.Library.SparseList

/-! The equality-form problem of the simplex and barrier code: compressed matrices, `lp_problem_t`,
the solver settings and the record `presolve_info_t` that presolve leaves for postsolve. -/

namespace CuOpt.Simplex

open List hiding keys
open SparseList QuadProgram

structure CscMatrix where
  m : ℕ
  n : ℕ
  col : ℕ → List (ℕ × ℚ)

structure CsrMatrix where
  m : ℕ
  n : ℕ
  row : ℕ → List (ℕ × ℚ)

def unmarked (n : ℕ) (marker : ℕ → Bool) : List ℕ := (range n).filter fun j => !marker j

def distinct (l : List ℕ) : List ℕ :=
  l.foldl (fun seen i => if i ∈ seen then seen else seen ++ [i]) []

namespace CscMatrix

def entry (A : CscMatrix) (i j : ℕ) : ℚ := coeff (A.col j) i

def colLength (A : CscMatrix) (j : ℕ) : ℕ := (A.col j).length

def toCompressedRow (A : CscMatrix) : CsrMatrix where
  m := A.m
  n := A.n
  row := fun i => (range A.n).flatMap fun j =>
    ((A.col j).filter fun p => p.1 = i).map fun p => (j, p.2)

def removeColumns (A : CscMatrix) (colsToRemove : ℕ → Bool) : CscMatrix :=
  { A with
    n := (unmarked A.n colsToRemove).length
    col := fun j => A.col ((unmarked A.n colsToRemove).getD j 0) }

end CscMatrix

namespace CsrMatrix

def entry (A : CsrMatrix) (i j : ℕ) : ℚ := coeff (A.row i) j

def toCompressedCol (A : CsrMatrix) : CscMatrix where
  m := A.m
  n := A.n
  col := fun j => (range A.m).flatMap fun i =>
    ((A.row i).filter fun p => p.1 = j).map fun p => (i, p.2)

def removeRows (A : CsrMatrix) (rowMarker : ℕ → Bool) : CsrMatrix :=
  { A with
    m := (unmarked A.m rowMarker).length
    row := fun i => A.row ((unmarked A.m rowMarker).getD i 0) }

structure IsSymmetric (A : CsrMatrix) (n : ℕ) : Prop where
  m_eq : A.m = n
  n_eq : A.n = n
  lt : ∀ i < n, ∀ j ∈ keys (A.row i), j < n
  symm : ∀ i < n, ∀ j < n, A.entry i j = A.entry j i
  pattern : ∀ i < n, ∀ j < n, j ∈ keys (A.row i) → i ∈ keys (A.row j)

end CsrMatrix

/-- `none` in `lower` is `-inf` and `none` in `upper` is `inf`. `Q.n = 0` is the absence of a
quadratic part. -/
structure LpProblem where
  numRows : ℕ
  numCols : ℕ
  objective : ℕ → ℚ
  Q : CsrMatrix
  A : CscMatrix
  rhs : ℕ → ℚ
  lower : ℕ → Option ℚ
  upper : ℕ → Option ℚ
  objConstant : ℚ
  coneVarStart : ℕ
  secondOrderConeDims : List ℕ

structure SimplexSolverSettings where
  barrier : Bool
  barrierPresolve : Bool
  barrierEliminateFreeVariables : Bool
  barrierPresolveBoundFreeVariables : ℤ
  folding : ℤ
  dualize : ℤ

namespace LpProblem

/-- Number of leading linear columns; cone variables occupy the columns from there on. -/
def linearVariableCount (problem : LpProblem) : ℕ :=
  if problem.secondOrderConeDims = [] then problem.numCols else problem.coneVarStart

def isFree (problem : LpProblem) (j : ℕ) : Bool :=
  problem.lower j = none && problem.upper j = none

def toProgram (problem : LpProblem) : Program ℕ ℕ ℚ where
  rows := Finset.range problem.numRows
  cols := Finset.range problem.numCols
  a := problem.A.entry
  b := problem.rhs
  c := problem.objective
  q := fun j k => if 0 < problem.Q.n then problem.Q.entry j k else 0
  const := problem.objConstant
  lower := problem.lower
  upper := problem.upper

/-- What the matrices of a problem satisfy: indices in range, no entry of `A` stored twice, and a
symmetric `Q`. -/
structure WellFormed (problem : LpProblem) : Prop where
  A_m : problem.A.m = problem.numRows
  A_n : problem.A.n = problem.numCols
  A_lt : ∀ j < problem.numCols, ∀ i ∈ keys (problem.A.col j), i < problem.numRows
  A_nodup : ∀ j < problem.numCols, (keys (problem.A.col j)).Nodup
  Q : 0 < problem.Q.n → problem.Q.IsSymmetric problem.numCols

end LpProblem

structure BoundedFreeVar where
  var : ℕ
  constraint : ℕ
  coefficient : ℚ

/-- A free variable eliminated through an equality row; `pivotRow = none` is the source's `-1`. -/
structure FreeVariableElimination where
  var : ℕ
  pivotRow : Option ℕ
  pivotCoefficient : ℚ
  rhs : ℚ
  columns : List (ℕ × ℚ)
  affectedRows : List (ℕ × ℚ)

structure FoldingInfo where
  D : CscMatrix
  Cs : CscMatrix
  Ds : CscMatrix
  previousFreeVariablePairs : List (ℕ × ℕ)
  isFolded : Bool

structure PresolveInfo where
  remainingVariables : List ℕ := []
  removedVariables : List ℕ := []
  removedValues : List ℚ := []
  removedReducedCosts : List ℚ := []
  freeVariablePairs : List (ℕ × ℕ) := []
  removedLowerBounds : Option (ℕ → ℚ) := none
  remainingConstraints : List ℕ := []
  removedConstraints : List ℕ := []
  foldingInfo : FoldingInfo :=
    ⟨⟨0, 0, fun _ => []⟩, ⟨0, 0, fun _ => []⟩, ⟨0, 0, fun _ => []⟩, [], false⟩
  negatedVariables : List ℕ := []
  directFreeVariables : List ℕ := []
  boundedFreeVariables : List BoundedFreeVar := []
  freeVariableEliminations : List FreeVariableElimination := []
  freeEliminationRemainingVariables : List ℕ := []
  freeEliminationRemainingConstraints : List ℕ := []

abbrev Solution := Triple ℕ ℕ ℚ

variable {n k : ℕ} {marker : ℕ → Bool}

lemma mem_unmarked {j : ℕ} : j ∈ unmarked n marker ↔ j < n ∧ marker j = false := by
  simp only [unmarked, mem_filter, mem_range, Bool.not_eq_true']

lemma nodup_unmarked (n : ℕ) (marker : ℕ → Bool) : (unmarked n marker).Nodup :=
  nodup_range.filter _

lemma getD_unmarked_mem (hk : k < (unmarked n marker).length) :
    (unmarked n marker).getD k 0 ∈ unmarked n marker := by
  rw [getD_eq_getElem _ _ hk]
  exact getElem_mem hk

lemma getD_unmarked_lt (hk : k < (unmarked n marker).length) : (unmarked n marker).getD k 0 < n :=
  (mem_unmarked.mp (getD_unmarked_mem hk)).1

lemma distinct_append_singleton (l : List ℕ) (i : ℕ) :
    distinct (l ++ [i]) = if i ∈ distinct l then distinct l else distinct l ++ [i] := by
  rw [distinct, foldl_concat]
  rfl

lemma mem_distinct {l : List ℕ} : k ∈ distinct l ↔ k ∈ l := by
  induction l using reverseRecOn with
  | nil => rfl
  | append_singleton l i ih =>
    rw [distinct_append_singleton, mem_append, mem_singleton, ← ih]
    split_ifs with hi
    · constructor
      · exact Or.inl
      · rintro (h | rfl)
        · exact h
        · exact hi
    · rw [mem_append, mem_singleton]

lemma nodup_distinct (l : List ℕ) : (distinct l).Nodup := by
  induction l using reverseRecOn with
  | nil => exact nodup_nil
  | append_singleton l i ih =>
    rw [distinct_append_singleton]
    split_ifs with hi
    · exact ih
    · refine nodup_append.mpr ⟨ih, nodup_singleton i, fun a ha b hb hab => hi ?_⟩
      rw [mem_singleton] at hb
      rwa [← hb, ← hab]

section Transpose

variable {n : ℕ} {line : ℕ → List (ℕ × ℚ)}

def transposed (n : ℕ) (line : ℕ → List (ℕ × ℚ)) (i : ℕ) : List (ℕ × ℚ) :=
  (range n).flatMap fun j => ((line j).filter fun p => p.1 = i).map fun p => (j, p.2)

lemma CscMatrix.toCompressedRow_row (A : CscMatrix) :
    A.toCompressedRow.row = transposed A.n A.col := rfl

lemma CsrMatrix.toCompressedCol_col (A : CsrMatrix) :
    A.toCompressedCol.col = transposed A.m A.row := rfl

lemma mem_transposed {i : ℕ} {p : ℕ × ℚ} :
    p ∈ transposed n line i ↔ p.1 < n ∧ (i, p.2) ∈ line p.1 := by
  simp only [transposed, mem_flatMap, mem_range, mem_map, mem_filter,
    decide_eq_true_eq]
  constructor
  · rintro ⟨j, hj, r, ⟨hr, rfl⟩, rfl⟩
    exact ⟨hj, hr⟩
  · rintro ⟨hp, hmem⟩
    exact ⟨p.1, hp, (i, p.2), ⟨hmem, rfl⟩, rfl⟩

lemma mem_keys_transposed {i j : ℕ} :
    j ∈ keys (transposed n line i) ↔ j < n ∧ i ∈ keys (line j) := by
  simp only [keys, mem_map]
  constructor
  · rintro ⟨p, hp, rfl⟩
    obtain ⟨hlt, hmem⟩ := mem_transposed.mp hp
    exact ⟨hlt, (i, p.2), hmem, rfl⟩
  · rintro ⟨hj, p, hp, rfl⟩
    exact ⟨(j, p.2), mem_transposed.mpr ⟨hj, hp⟩, rfl⟩

lemma coeff_filter_map (l : List (ℕ × ℚ)) (i j k : ℕ) :
    coeff ((l.filter fun p => p.1 = i).map fun p => (j, p.2)) k =
      if j = k then coeff l i else 0 := by
  induction l with
  | nil => simp
  | cons p l ih =>
    simp only [filter_cons, decide_eq_true_eq]
    split_ifs with hp hjk hjk <;> simp_all

lemma coeff_transposed (n : ℕ) (line : ℕ → List (ℕ × ℚ)) (i j : ℕ) :
    coeff (transposed n line i) j = if j < n then coeff (line j) i else 0 := by
  induction n with
  | zero => simp [transposed]
  | succ n ih =>
    have hsplit : transposed (n + 1) line i = transposed n line i ++
        ((line n).filter fun p => p.1 = i).map fun p => (n, p.2) := by
      simp only [transposed, range_succ, flatMap_append, flatMap_cons,
        flatMap_nil, append_nil]
    rw [hsplit, coeff_append, ih, coeff_filter_map]
    by_cases hlt : j < n
    · simp [hlt, Nat.lt_succ_of_lt hlt, Nat.ne_of_gt hlt]
    · by_cases heq : n = j
      · subst heq
        simp
      · have hge : ¬ j < n + 1 := by omega
        simp [hlt, heq, hge]

lemma nodup_keys_transposed (hline : ∀ j < n, (keys (line j)).Nodup) (i : ℕ) :
    (keys (transposed n line i)).Nodup := by
  unfold keys transposed
  rw [map_flatMap, nodup_flatMap]
  constructor
  · intro j hj
    have hnodup := hline j (mem_range.mp hj)
    -- at most one entry of the line has key `i`
    have hlen : ((line j).filter fun p => p.1 = i).length ≤ 1 := by
      have hcount : (keys (line j)).count i ≤ 1 := nodup_iff_count_le_one.mp hnodup i
      rwa [keys, count, countP_map, countP_eq_length_filter] at hcount
    simp only [map_map, Function.comp_def, map_const']
    exact nodup_replicate.mpr hlen
  · refine nodup_range.imp_of_mem ?_
    intro j k _ _ hne
    simp only [Function.onFun, map_map, Function.comp_def]
    intro x hx hx'
    simp only [mem_map] at hx hx'
    obtain ⟨_, _, rfl⟩ := hx
    obtain ⟨_, _, h⟩ := hx'
    exact hne h.symm

end Transpose

end CuOpt.Simplex
