import CuOpt.Simplex.BoundsStrengthening

/-! `reformulate_semi_continuous`: variables that are zero or in `[L, U]` get a binary variable and
two linking rows, with an upper bound from bound strengthening, and
`append_semi_continuous_auxiliaries_to_assignment` extends a point by the binaries. -/

namespace CuOpt.Presolve

open SparseList QuadProgram Activities
open CuOpt.Simplex (RowSense UserProblem CsrMatrix SimplexSolverSettings BoundsStrengthening Box
  convertUserProblem resizedTypes)
open CuOpt.Cuts (VariableType)
open List (replicate)

inductive VarT where
  | continuous
  | integer
  | semiContinuous
  deriving DecidableEq

/-- `none` is an infinite bound. Rows have the two vectors of bounds, or types and one bound. -/
structure OptimizationProblem where
  numVars : ℕ
  objective : List ℚ
  objectiveOffset : ℚ
  rows : List (List (ℕ × ℚ))
  constraintLower : List (Option ℚ)
  constraintUpper : List (Option ℚ)
  rowTypes : List RowSense
  constraintBounds : List ℚ
  varTypes : List VarT
  varLower : List (Option ℚ)
  varUpper : List (Option ℚ)
  deriving DecidableEq

structure MipSettings where
  presolveAbsoluteTolerance : ℚ
  absoluteTolerance : ℚ
  integralityTolerance : ℚ
  semiContinuousBigM : ℚ

def scInfinityThreshold : ℚ := 10 ^ 30

def isEffectivelyInfiniteScUpperBound : Option ℚ → Bool
  | none => true
  | some ub => decide (scInfinityThreshold ≤ ub)

def transformBounds (sense : RowSense) (b : ℚ) : Option ℚ × Option ℚ :=
  match sense with
  | .E => (some b, some b)
  | .G => (some b, none)
  | .L => (none, some b)

namespace OptimizationProblem

variable (p : OptimizationProblem)

def hasSemiContinuousVariables : Bool := p.varTypes.contains .semiContinuous

def ensureConstraintBoundsPopulated : OptimizationProblem :=
  if p.constraintLower ≠ [] ∨ p.constraintUpper ≠ [] then p
  else if p.rowTypes = [] ∨ p.constraintBounds = [] then p
  else { p with
    constraintLower := (List.zipWith transformBounds p.rowTypes p.constraintBounds).map Prod.fst
    constraintUpper := (List.zipWith transformBounds p.rowTypes p.constraintBounds).map Prod.snd }

def rowBounds (i : ℕ) : Option ℚ × Option ℚ :=
  (p.constraintLower.getD i none, p.constraintUpper.getD i none)

/-- Sense, right-hand side and range of a row. The right-hand side of a row without bounds is `-inf`:
`isFreeRow` marks it. -/
def rowForm : Option ℚ × Option ℚ → RowSense × ℚ × Option ℚ
  | (some l, some u) => if l = u then (.E, l, none) else (.E, l, some (u - l))
  | (some l, none) => (.G, l, none)
  | (none, some u) => (.L, u, none)
  | (none, none) => (.G, 0, none)

def isFreeRow (i : ℕ) : Bool := p.rowBounds i = (none, none)

def toUserProblem : UserProblem where
  numRows := p.rows.length
  numCols := p.numVars
  objective := fun j => p.objective.getD j 0
  A := CsrMatrix.toCompressedCol ⟨p.rows.length, p.numVars, fun i => p.rows.getD i []⟩
  rhs := fun i => (rowForm (p.rowBounds i)).2.1
  rowSense := fun i => (rowForm (p.rowBounds i)).1
  lower := fun j => p.varLower.getD j none
  upper := fun j => p.varUpper.getD j none
  ranges := (List.range p.rows.length).filterMap fun i =>
    (rowForm (p.rowBounds i)).2.2.map fun range => (i, range)
  objConstant := p.objectiveOffset
  Q := ⟨0, 0, fun _ => []⟩
  coneVarStart := 0
  secondOrderConeDims := []

def userVarTypes (j : ℕ) : VariableType :=
  if p.varTypes.getD j .continuous = .continuous then .continuous else .integer

def hostSettings : SimplexSolverSettings := ⟨false, false, true, -1, -1, -1⟩

/-- The strengthening object: the right-hand side of a row without bounds is `inf` after its sign
flip, and nothing else of the conversion reads it. -/
def hostStrengthening (lp : Simplex.LpProblem) : BoundsStrengthening :=
  let b := BoundsStrengthening.make lp lp.A.toCompressedRow none
    (some (resizedTypes p.toUserProblem p.userVarTypes))
  { b with
    constraintLb := fun i => if p.isFreeRow i then .posInf else b.constraintLb i
    constraintUb := fun i => if p.isFreeRow i then .posInf else b.constraintUb i }

/-- The barrier is off, so nothing is dualized; no result is a failed assertion. -/
def callHostBoundsStrengthening (settings : MipSettings) (scIndices : List ℕ) :
    Option (List (Extended ℚ)) :=
  match convertUserProblem id p.toUserProblem hostSettings with
  | none => none
  | some (lp, _) =>
    let bounds : Box := ⟨(List.range lp.numCols).map fun j => .ofLower (lp.lower j),
      (List.range lp.numCols).map fun j => .ofUpper (lp.upper j)⟩
    match (p.hostStrengthening lp).boundsStrengthening
        ⟨settings.presolveAbsoluteTolerance, settings.integralityTolerance⟩
        (some fun j => scIndices.contains j) bounds with
    | none => some (p.varUpper.map .ofUpper)
    | some box => some (box.upper.take p.numVars)

def normalizedTypes : List VarT :=
  p.varTypes.mapIdx fun i t =>
    if t = .semiContinuous ∧ p.varLower.getD i none = some 0 then .continuous else t

def scIndices : List ℕ :=
  (List.range p.varTypes.length).filter fun i =>
    p.varTypes.getD i .continuous = .semiContinuous ∧ p.varLower.getD i none ≠ some 0

def normalized : OptimizationProblem :=
  { p with
    varTypes := p.normalizedTypes
    varUpper := p.varUpper.mapIdx fun i u =>
      if i ∈ p.scIndices ∧ isEffectivelyInfiniteScUpperBound u then none else u }

def relaxed (scIndices : List ℕ) : OptimizationProblem :=
  ensureConstraintBoundsPopulated { p with
    varTypes := p.varTypes.mapIdx fun i t => if i ∈ scIndices then .continuous else t
    varLower := p.varLower.mapIdx fun i l => if i ∈ scIndices then l.map (min 0) else l
    varUpper := p.varUpper.mapIdx fun i u => if i ∈ scIndices then u.map (max 0) else u }

def tightUpper (settings : MipSettings) (scIndices : List ℕ) : Option (List (Extended ℚ)) :=
  if 0 < p.rows.length then (p.relaxed scIndices).callHostBoundsStrengthening settings scIndices
  else some (p.varUpper.map .ofUpper)

end OptimizationProblem

def needsBinary (l u : Option ℚ) : Bool :=
  !((∀ v ∈ l, v ≤ 0) && u.isSome && (∀ v ∈ u, 0 ≤ v)) && !((∀ v ∈ l, v ≤ 0) && u.isNone)

def scUpper (bigM : ℚ) (origU : Option ℚ) (tight : Extended ℚ) : ℚ × Bool :=
  let u := if (∀ v ∈ origU, 0 ≤ v) then tight else .ofUpper origU
  match u, origU with
  | .finite v, _ => (v, false)
  | _, some v => (v, false)
  | _, none => (bigM, true)

structure ScState where
  problem : OptimizationProblem
  binaryToOriginal : List ℕ
  usedFallbackBigM : List Bool
  deriving DecidableEq

/-- Two linking rows `x - L b ≥ 0` and `x - U b ≤ 0`. Problem checking leaves only finite lower
bounds. -/
def reformulateVariable (nOrig : ℕ) (bigM : ℚ) (tight : List (Extended ℚ)) (needs : ℕ → Bool)
    (s : ScState) (idx : ℕ) : ScState :=
  let p := s.problem
  let lower := (p.varLower.getD idx none).getD 0
  let origU := p.varUpper.getD idx none
  if needs idx then
    let upper := scUpper bigM origU (tight.getD idx .nan)
    let bIdx := nOrig + s.binaryToOriginal.length
    { problem := { p with
        varTypes := p.varTypes.set idx .continuous
        varLower := p.varLower.set idx (some (min 0 lower))
        varUpper := p.varUpper.set idx (some (max 0 upper.1))
        rows := p.rows ++ [[(idx, 1), (bIdx, -lower)], [(idx, 1), (bIdx, -upper.1)]]
        constraintLower := p.constraintLower ++ [some 0, none]
        constraintUpper := p.constraintUpper ++ [none, some 0]
        constraintBounds := if p.constraintBounds = [] then []
          else p.constraintBounds ++ [0, 0]
        rowTypes := if p.rowTypes = [] then [] else p.rowTypes ++ [.G, .L] }
      binaryToOriginal := s.binaryToOriginal ++ [idx]
      usedFallbackBigM := if upper.2 then s.usedFallbackBigM.set idx true
        else s.usedFallbackBigM }
  else { s with problem := { p with varTypes := p.varTypes.set idx .continuous } }

def OptimizationProblem.withBinaries (p : OptimizationProblem) (binaries : ℕ) :
    OptimizationProblem :=
  { p with
    numVars := p.numVars + binaries
    objective := (if p.objective = [] then replicate p.numVars 0 else p.objective) ++
      replicate binaries 0
    varTypes := p.varTypes ++ replicate binaries .integer
    varLower := p.varLower ++ replicate binaries (some 0)
    varUpper := p.varUpper ++ replicate binaries (some 1) }

/-- The problem after the call, what it returned, and its two output vectors; `none` is a failed
assertion in the conversion for bound strengthening. -/
def reformulateSemiContinuous (p : OptimizationProblem) (settings : MipSettings) :
    Option (ScState × Bool) :=
  if p.hasSemiContinuousVariables then
    let indices := p.scIndices
    let p := p.normalized
    if indices = [] then some (⟨p, [], []⟩, false)
    else
      match p.tightUpper settings indices with
      | none => none
      | some tight =>
        let p := p.ensureConstraintBoundsPopulated
        let needs := fun idx => needsBinary (p.varLower.getD idx none) (p.varUpper.getD idx none)
        some (indices.foldl (reformulateVariable p.numVars settings.semiContinuousBigM tight needs)
          ⟨p.withBinaries (indices.filter needs).length, [], replicate p.numVars false⟩, true)
  else some (⟨p, [], []⟩, false)

def appendAuxiliaries (settings : MipSettings) (assignment : List ℚ) (binaryToOriginal : List ℕ) :
    Option (List ℚ) :=
  let activeTol := max settings.absoluteTolerance settings.integralityTolerance
  if binaryToOriginal.all fun idx => decide (idx < assignment.length) then
    some (assignment ++ binaryToOriginal.map fun idx =>
      if assignment.getD idx 0 ≤ activeTol then 0 else 1)
  else none

def DomainHolds (t : VarT) (lower upper : Option ℚ) (v : ℚ) : Prop :=
  match t with
  | .continuous => InBounds lower upper v
  | .integer => InBounds lower upper v ∧ ∃ z : ℤ, v = z
  | .semiContinuous => v = 0 ∨ InBounds lower upper v

namespace OptimizationProblem

def RowsHold (p : OptimizationProblem) (x : ℕ → ℚ) : Prop :=
  ∀ i < p.rows.length, InBounds (p.rowBounds i).1 (p.rowBounds i).2 (dot (p.rows.getD i []) x)

def DomainsHold (p : OptimizationProblem) (x : ℕ → ℚ) : Prop :=
  ∀ j < p.numVars, DomainHolds (p.varTypes.getD j .continuous) (p.varLower.getD j none)
    (p.varUpper.getD j none) (x j)

def Feasible (p : OptimizationProblem) (x : ℕ → ℚ) : Prop :=
  p.ensureConstraintBoundsPopulated.RowsHold x ∧ p.DomainsHold x

/-- The vectors have the lengths the code reads, and the columns of the rows are variables. -/
structure WellFormed (p : OptimizationProblem) : Prop where
  varTypes : p.varTypes.length = p.numVars
  varLower : p.varLower.length = p.numVars
  varUpper : p.varUpper.length = p.numVars
  rows_lt : ∀ row ∈ p.rows, ∀ q ∈ row, q.1 < p.numVars
  rowTypes : p.rowTypes = [] ∨ p.rowTypes.length = p.rows.length
  bounds : p.constraintLower.length = p.rows.length ∧ p.constraintUpper.length = p.rows.length ∨
    p.constraintLower = [] ∧ p.constraintUpper = [] ∧ p.rowTypes.length = p.rows.length ∧
      p.constraintBounds.length = p.rows.length

end OptimizationProblem

end CuOpt.Presolve
