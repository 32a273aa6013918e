import CuOpt.Cuts.Inequality
import CuOpt.Library.Activities

/-! The variable bounds read off the rows: `x_j <= weight * x_l + bias` and `x_j >= weight * x_l + bias`
for a continuous `x_j` and an integer `x_l` of one row, from the row's activity without the two. -/

namespace CuOpt.Cuts

open SparseList QuadProgram Activities Activities.Extended

/-- The rows are equalities. `columns` and `rows` are the matrix by columns and by rows; `none` in
`lower` is `-inf` and `none` in `upper` is `inf`. -/
structure LpProblem where
  numRows : ℕ
  numCols : ℕ
  columns : ℕ → List (ℕ × ℚ)
  rows : ℕ → List (ℕ × ℚ)
  rhs : ℕ → ℚ
  lower : ℕ → Option ℚ
  upper : ℕ → Option ℚ
  varTypes : ℕ → VariableType
  newSlacks : List ℕ

namespace LpProblem

variable (lp : LpProblem)

def feasible : Set (ℕ → ℚ) :=
  {x | (∀ i < lp.numRows, dot (lp.rows i) x = lp.rhs i) ∧
    ∀ j < lp.numCols, InBounds (lp.lower j) (lp.upper j) (x j)}

def slackMap : ℕ → Option (ℕ × ℚ) :=
  lp.newSlacks.foldl
    (fun m j =>
      match lp.columns j with
      | [] => m
      | p :: _ => Function.update m p.1 (some (j, p.2)))
    fun _ => none

def isSlack (i j : ℕ) : Bool := (lp.slackMap i).any fun s => decide (s.1 = j)

def rowWithoutSlack (i : ℕ) : List (ℕ × ℚ) := (lp.rows i).filter fun q => !lp.isSlack i q.1

def upperTerm (q : ℕ × ℚ) : Option ℚ :=
  if 0 < q.2 then (lp.upper q.1).map (q.2 * ·) else (lp.lower q.1).map (q.2 * ·)

def lowerTerm (q : ℕ × ℚ) : Option ℚ :=
  if 0 < q.2 then (lp.lower q.1).map (q.2 * ·) else (lp.upper q.1).map (q.2 * ·)

def upperActivities (i : ℕ) : ℚ := finiteSum lp.upperTerm (lp.rowWithoutSlack i)

def lowerActivities (i : ℕ) : ℚ := finiteSum lp.lowerTerm (lp.rowWithoutSlack i)

def numPosInf (i : ℕ) : ℕ := numInfinite lp.upperTerm (lp.rowWithoutSlack i)

def numNegInf (i : ℕ) : ℕ := numInfinite lp.lowerTerm (lp.rowWithoutSlack i)

def numIntegerInRow (i : ℕ) : ℕ :=
  (lp.rowWithoutSlack i).countP fun q => decide (lp.varTypes q.1 = .integer)

def lowerActivity (q : ℕ × ℚ) : Extended ℚ :=
  scale q.2 (if 0 < q.2 then ofLower (lp.lower q.1) else ofUpper (lp.upper q.1))

def upperActivity (q : ℕ × ℚ) : Extended ℚ :=
  scale q.2 (if 0 < q.2 then ofUpper (lp.upper q.1) else ofLower (lp.lower q.1))

def sigmaSlackLower (i : ℕ) : Extended ℚ := (lp.slackMap i).elim (finite 0) lp.lowerActivity

def sigmaSlackUpper (i : ℕ) : Extended ℚ := (lp.slackMap i).elim (finite 0) lp.upperActivity

end LpProblem

def adjustedLowerActivity (activity : ℚ) (numLowerInf : ℕ) (lowerActivityI lowerActivityJ : Extended ℚ) :
    Extended ℚ :=
  if numLowerInf = 0 then sub (sub (finite activity) lowerActivityI) lowerActivityJ
  else if numLowerInf = 1 ∧ lowerActivityJ = negInf then sub (finite activity) lowerActivityI
  else if numLowerInf = 1 ∧ lowerActivityI = negInf then sub (finite activity) lowerActivityJ
  else if numLowerInf = 2 ∧ lowerActivityI = negInf ∧ lowerActivityJ = negInf then finite activity
  else negInf

def adjustedUpperActivity (activity : ℚ) (numUpperInf : ℕ) (upperActivityI upperActivityJ : Extended ℚ) :
    Extended ℚ :=
  if numUpperInf = 0 then sub (sub (finite activity) upperActivityI) upperActivityJ
  else if numUpperInf = 1 ∧ upperActivityJ = posInf then sub (finite activity) upperActivityI
  else if numUpperInf = 1 ∧ upperActivityI = posInf then sub (finite activity) upperActivityJ
  else if numUpperInf = 2 ∧ upperActivityI = posInf ∧ upperActivityJ = posInf then finite activity
  else posInf

structure VariableBound where
  var : ℕ
  weight : ℚ
  bias : Extended ℚ
  deriving DecidableEq

namespace LpProblem

variable (lp : LpProblem)

/-- From `sum_k a_ik x_k <= beta`, for the entry `(j, a_ij)` of row `i`. -/
def boundsFromLowerActivity (i j : ℕ) (aij : ℚ) : List VariableBound :=
  let beta := sub (finite (lp.rhs i)) (lp.sigmaSlackLower i)
  (lp.rows i).filterMap fun q =>
    if lp.varTypes q.1 = .continuous then none
    else
      let sum := adjustedLowerActivity (lp.lowerActivities i) (lp.numNegInf i)
        (lp.lowerActivity (j, aij)) (lp.lowerActivity q)
      if lt negInf sum then some ⟨q.1, -q.2 / aij, sub (scale (1 / aij) beta) (scale (1 / aij) sum)⟩
      else none

/-- From `sum_k a_ik x_k >= beta`. -/
def boundsFromUpperActivity (i j : ℕ) (aij : ℚ) : List VariableBound :=
  let beta := sub (finite (lp.rhs i)) (lp.sigmaSlackUpper i)
  (lp.rows i).filterMap fun q =>
    if lp.varTypes q.1 = .continuous then none
    else
      let sum := adjustedUpperActivity (lp.upperActivities i) (lp.numPosInf i)
        (lp.upperActivity (j, aij)) (lp.upperActivity q)
      if lt sum posInf then some ⟨q.1, -q.2 / aij, sub (scale (1 / aij) beta) (scale (1 / aij) sum)⟩
      else none

def upperBoundsFromRow (j : ℕ) (p : ℕ × ℚ) : List VariableBound :=
  let (i, aij) := p
  if lp.numIntegerInRow i < 1 then []
  else if 2 < lp.numNegInf i ∧ 2 < lp.numPosInf i then []
  else if (lp.rows i).length < 2 then []
  else
    (if lt negInf (lp.sigmaSlackLower i) ∧ 0 < aij ∧ lp.numNegInf i ≤ 2 then
      lp.boundsFromLowerActivity i j aij else []) ++
    (if lt (lp.sigmaSlackUpper i) posInf ∧ aij < 0 ∧ lp.numPosInf i ≤ 2 then
      lp.boundsFromUpperActivity i j aij else [])

def lowerBoundsFromRow (j : ℕ) (p : ℕ × ℚ) : List VariableBound :=
  let (i, aij) := p
  if lp.numIntegerInRow i < 1 then []
  else if (lp.rows i).length < 2 then []
  else
    (if lt negInf (lp.sigmaSlackLower i) ∧ aij < 0 ∧ lp.numNegInf i ≤ 2 then
      lp.boundsFromLowerActivity i j aij else []) ++
    (if lt (lp.sigmaSlackUpper i) posInf ∧ 0 < aij ∧ lp.numPosInf i ≤ 2 then
      lp.boundsFromUpperActivity i j aij else [])

def variableUpperBounds (insideSubmip : Bool) (j : ℕ) : List VariableBound :=
  if insideSubmip then []
  else if lp.varTypes j ≠ .continuous then []
  else (lp.columns j).flatMap (lp.upperBoundsFromRow j)

def variableLowerBounds (insideSubmip : Bool) (j : ℕ) : List VariableBound :=
  if insideSubmip then []
  else if lp.varTypes j ≠ .continuous then []
  else (lp.columns j).flatMap (lp.lowerBoundsFromRow j)

end LpProblem

end CuOpt.Cuts
