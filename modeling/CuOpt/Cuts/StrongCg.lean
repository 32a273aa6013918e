import CuOpt.Cuts.Inequality
import CuOpt.Library.Activities

/-! The strong Chvátal-Gomory cut of a row: continuous columns are dropped at a bound, integer columns
are shifted to one, the strong function is applied, and the cut is mapped back. -/

namespace CuOpt.Cuts

open SparseList QuadProgram Activities Activities.Extended

/-- How a column is substituted: as it is, as `x - lower` or as `upper - x`. -/
inductive BoundShift where
  | unshifted
  | lower
  | upper
  deriving DecidableEq

section

variable (p : MixedProblem)

def transformedVariable (xstar : ℕ → ℚ) (j : ℕ) : BoundShift :=
  if p.varTypes j = .integer ∧ p.lower j ≠ some 0 then
    match p.lower j, p.upper j with
    | _, none => .lower
    | none, some _ => .upper
    | some l, some u => if max 0 (xstar j - l) ≤ max 0 (u - xstar j) then .lower else .upper
  else .unshifted

/-- The entries and the right-hand side of `sum_j a_j x_j <= rhs` with every continuous column's entry
set to zero; `none` where one cannot be dropped. -/
def dropContinuous :
    List (ℕ × ℚ) → (ℕ → BoundShift) → Extended ℚ →
      (ℕ → BoundShift) × Option (List (ℕ × ℚ) × Extended ℚ)
  | [], marks, rhs => (marks, some ([], rhs))
  | (j, aj) :: rest, marks, rhs =>
    let keep (q : ℕ × ℚ) (marks : ℕ → BoundShift) (rhs : Extended ℚ) :=
      let (marks, result) := dropContinuous rest marks rhs
      (marks, result.map fun r => (q :: r.1, r.2))
    if p.varTypes j = .continuous then
      if aj = 0 then keep (j, aj) marks rhs
      else if 0 < aj ∧ p.lower j ≠ none then
        keep (j, 0) (Function.update marks j .lower) (sub rhs (scale aj (ofLower (p.lower j))))
      else if aj < 0 ∧ p.upper j ≠ none then
        keep (j, 0) (Function.update marks j .upper) (sub rhs (scale aj (ofUpper (p.upper j))))
      else (marks, none)
    else
      match marks j with
      | .lower => keep (j, aj) marks (sub rhs (scale aj (ofLower (p.lower j))))
      | .upper => keep (j, -aj) marks (sub rhs (scale aj (ofUpper (p.upper j))))
      | .unshifted => keep (j, aj) marks rhs

def squeeze (v : List (ℕ × ℚ)) : List (ℕ × ℚ) := v.filter fun q => decide (q.2 ≠ 0)

def removeContinuousVariables (marks : ℕ → BoundShift) (inequality : Inequality) :
    (ℕ → BoundShift) × Option (List (ℕ × ℚ) × Extended ℚ) :=
  let (marks, result) := dropContinuous p inequality.vector marks (finite inequality.rhs)
  (marks, result.map fun r => (squeeze r.1, r.2))

def toOriginalIntegerVariables (marks : ℕ → BoundShift) (cut : Inequality) : Inequality where
  vector := cut.vector.map fun q => (q.1, if marks q.1 = .upper then -q.2 else q.2)
  rhs := cut.vector.foldl
    (fun rhs q =>
      match marks q.1 with
      | .lower => rhs + q.2 * (p.lower q.1).getD 0
      | .upper => rhs - q.2 * (p.upper q.1).getD 0
      | .unshifted => rhs)
    cut.rhs

def fractionalPart (a : ℚ) : ℚ := a - ⌊a⌋

def strongCgCoefficient (k : ℤ) (fa0 aj : ℚ) : ℚ :=
  let faj := fractionalPart aj
  let tol : ℚ := 1 / 10 ^ 4
  if faj ≤ fa0 + tol then (k + 1) * ⌊aj⌋
  else
    let piece : ℤ := ⌊k * faj⌋
    let rhsj := fa0 + piece / k * (1 - fa0)
    let coeff : ℤ := (k + 1) * ⌊aj⌋ + piece
    if rhsj + tol < faj then ((coeff + 1 : ℤ) : ℚ) else coeff

def generateStrongCgCutHelper (vector : List (ℕ × ℚ)) (rhs : ℚ) : Option Inequality :=
  let fa0 := fractionalPart rhs
  let minFractionalPart : ℚ := 1 / 10 ^ 2
  if fa0 < minFractionalPart then none
  else if 1 - minFractionalPart < fa0 then none
  else
    let k : ℤ := ⌈1 / fa0⌉ - 1
    if 1 / ((k : ℚ) + 1) ≤ fa0 ∧ fa0 < 1 / k then
      if vector.all fun q => decide (p.varTypes q.1 = .integer) then
        some ⟨vector.map fun q => (q.1, strongCgCoefficient k fa0 q.2), (k + 1) * ⌊rhs⌋⟩
      else none
    else none

/-- A right-hand side that is not finite has no fractional part, and nan compares with nothing. -/
def generateStrongCgCutIntegerOnly (vector : List (ℕ × ℚ)) (rhs : Extended ℚ) : Option Inequality :=
  match rhs with
  | .finite rhs =>
    if fractionalPart rhs = 0 then
      if vector.all fun q => decide (p.varTypes q.1 = .integer) then
        some ⟨vector.map fun q => (q.1, (⌊q.2⌋ : ℚ)), ⌊rhs⌋⟩
      else none
    else generateStrongCgCutHelper p vector rhs
  | _ => none

/-- From an inequality `vector · x ≤ rhs`, and if its continuous columns cannot be removed from its
negation; the cut is `vector · x ≥ rhs`. -/
def generateStrongCgCut (xstar : ℕ → ℚ) (marks : ℕ → BoundShift) (inequality : Inequality) :
    (ℕ → BoundShift) × Option Inequality :=
  let (marks, removed) :=
    match removeContinuousVariables p marks inequality with
    | (marks, some r) => (marks, some r)
    | (marks, none) => removeContinuousVariables p marks inequality.negate
  let cut := do
    let (vector, rhs) ← removed
    let cut ← generateStrongCgCutIntegerOnly p vector rhs
    let cut := toOriginalIntegerVariables p marks cut
    if 1 / 10 ^ 6 < dot cut.vector xstar - cut.rhs then some cut.negate else none
  (marks, cut)

def strongCgCuts (xstar : ℕ → ℚ) : List Inequality → (ℕ → BoundShift) → List (Option Inequality)
  | [], _ => []
  | inequality :: rest, marks =>
    let (marks, cut) := generateStrongCgCut p xstar marks inequality
    cut :: strongCgCuts xstar rest marks

end

end CuOpt.Cuts
