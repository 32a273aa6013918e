import CuOpt.Presolve.IntegerScaling

/-! Continuous variables that the feasibility jump turns integer: those that an equality over integers
forces to be integral, found with a worklist of rows, and pairs that some optimal point makes integral. -/

namespace CuOpt.FeasibilityJump

open Function (update)
open Cuts (stdRound)
open Presolve (scalingBoundFinite)
open SparseList

inductive VarType
  | continuous
  | integer
  deriving DecidableEq

/-- `row` and `reverseConstraints` are the ranges of the matrix and of its transpose; an infinite bound
is `none`. -/
structure Problem where
  nVariables : ℕ
  nConstraints : ℕ
  row : ℕ → List (ℕ × ℚ)
  reverseConstraints : ℕ → List ℕ
  cstrLb : ℕ → Option ℚ
  cstrUb : ℕ → Option ℚ
  varTypes : ℕ → VarType
  objCoeffs : ℕ → ℚ
  lower : ℕ → Option ℚ
  upper : ℕ → Option ℚ

structure Start where
  assignment : ℕ → ℚ
  bestAssignment : ℕ → ℚ
  isBinaryVariable : ℕ → Bool
  binaryIndices : List ℕ

structure Detection where
  varTypes : ℕ → VarType
  nContinuousInRow : ℕ → ℕ
  pendingRows : List ℕ
  changedVars : List ℕ

def Detection.turn (s : Detection) (var : ℕ) : Detection :=
  { s with varTypes := update s.varTypes var .integer, changedVars := s.changedVars ++ [var] }

def Detection.continuousEntries (s : Detection) (row : List (ℕ × ℚ)) : List (ℕ × ℚ) :=
  row.filter fun e => s.varTypes e.1 = .continuous

/-- A row has one unknown less, unless it has none or is no equality. -/
def Detection.countDown (s : Detection) (incidentRow : ℕ) : Detection :=
  let count := s.nContinuousInRow incidentRow
  { s with
    nContinuousInRow := update s.nContinuousInRow incidentRow (count - 1)
    pendingRows := if count = 2 then s.pendingRows ++ [incidentRow] else s.pendingRows }

namespace Problem

def isEquality (p : Problem) (row : ℕ) : Bool := (p.cstrLb row).isSome && p.cstrLb row = p.cstrUb row

variable (rowIntScale : List ℚ → ℚ → ℚ)

/-- `rowIntScale` is zero when it finds no scaling. -/
def impliedIntegerRowScale (p : Problem) (row : ℕ) (pivotCoeff : ℚ) : ℚ :=
  match p.cstrLb row with
  | none => 0
  | some rhs =>
    let scale := rowIntScale ((p.row row).map Prod.snd) rhs
    let divisor := stdRound (scale * pivotCoeff)
    if scalingBoundFinite rhs = false ∨ scale = 0 ∨ divisor = 0 ∨
        (stdRound (scale * rhs)).tmod divisor ≠ 0 ∨
        (p.row row).any (fun e => (stdRound (scale * e.2)).tmod divisor ≠ 0) then 0
    else scale

def integralBound : Option ℚ → Bool
  | none => false
  | some b => scalingBoundFinite b && b = stdRound b

def forceRow (p : Problem) (s : Detection) (row : ℕ) : Detection :=
  match (p.row row).find? fun e => s.varTypes e.1 = .continuous with
  | none => s
  | some (var, pivotCoeff) =>
    if s.nContinuousInRow row = 1 ∧ p.impliedIntegerRowScale rowIntScale row pivotCoeff ≠ 0 ∧
        integralBound (p.lower var) = true ∧ integralBound (p.upper var) = true then
      (p.reverseConstraints var).foldl Detection.countDown (s.turn var)
    else s

def propagate (p : Problem) : ℕ → Detection → Detection
  | 0, s => s
  | fuel + 1, s =>
    match s.pendingRows with
    | [] => s
    | row :: pending => p.propagate fuel (p.forceRow rowIntScale { s with pendingRows := pending } row)

def completable (p : Problem) (var : ℕ) : Bool :=
  (p.reverseConstraints var).length = 1 && p.lower var = some 0 &&
    (p.upper var).any (fun u => 0 ≤ u) && integralBound (p.upper var)

def pairRow (p : Problem) (s : Detection) (row : ℕ) : Detection :=
  match s.continuousEntries (p.row row) with
  | (firstVar, pivotCoeff) :: other :: others =>
    let second := others.getLastD other
    let scale := p.impliedIntegerRowScale rowIntScale row pivotCoeff
    if s.nContinuousInRow row = 2 ∧ firstVar ≠ second.1 ∧ scale ≠ 0 ∧
        stdRound (scale * second.2) = -stdRound (scale * pivotCoeff) ∧ 0 < p.objCoeffs firstVar ∧
        p.objCoeffs firstVar = p.objCoeffs second.1 ∧ p.completable firstVar = true ∧
        p.completable second.1 = true then
      (s.turn firstVar).turn second.1
    else s
  | _ => s

/-- The counts of the rows, and the equalities with one unknown. -/
def initialDetection (p : Problem) : Detection :=
  let count (row : ℕ) :=
    if p.isEquality row then (p.row row).countP fun e => p.varTypes e.1 = .continuous else 0
  { varTypes := p.varTypes
    nContinuousInRow := count
    pendingRows := (List.range p.nConstraints).filter fun row => count row = 1
    changedVars := [] }

def propagation (p : Problem) : Detection :=
  p.propagate rowIntScale p.nConstraints p.initialDetection

def detection (p : Problem) : Detection :=
  if (List.range p.nVariables).all fun var => p.varTypes var ≠ .continuous then p.initialDetection
  else (List.range p.nConstraints).foldl (p.pairRow rowIntScale) (p.propagation rowIntScale)

def classify (p : Problem) (c : Start) (var : ℕ) : Start :=
  let binary := p.lower var = some 0 ∧ p.upper var = some 1
  { assignment := update c.assignment var (stdRound (c.assignment var))
    bestAssignment := update c.bestAssignment var (stdRound (c.bestAssignment var))
    isBinaryVariable := if binary then update c.isBinaryVariable var true else c.isBinaryVariable
    binaryIndices := if binary then c.binaryIndices ++ [var] else c.binaryIndices }

def detectImpliedIntegers (p : Problem) (c : Start) : Problem × Start :=
  let s := p.detection rowIntScale
  ({ p with varTypes := s.varTypes }, s.changedVars.foldl p.classify c)

end Problem

end CuOpt.FeasibilityJump
