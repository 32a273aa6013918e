import CuOpt.Simplex.Presolve

/-! `convert_user_problem`: a user problem with rows of three senses and range rows becomes an
equality-form problem, by sign flips, slack columns and artificial columns; `crush_primal_solution`
and `uncrush_primal_solution` move points between the two. -/

namespace CuOpt.Simplex

open SparseList QuadProgram List
open Function (update)

inductive RowSense
  | L
  | G
  | E
  deriving DecidableEq

/-- `ranges` pairs the entries of `range_rows` and `range_value`. -/
structure UserProblem where
  numRows : ℕ
  numCols : ℕ
  objective : ℕ → ℚ
  A : CscMatrix
  rhs : ℕ → ℚ
  rowSense : ℕ → RowSense
  lower : ℕ → Option ℚ
  upper : ℕ → Option ℚ
  ranges : List (ℕ × ℚ)
  objConstant : ℚ
  Q : CsrMatrix
  coneVarStart : ℕ
  secondOrderConeDims : List ℕ

namespace UserProblem

def rangeRows (user : UserProblem) : List ℕ := user.ranges.map Prod.fst

def RangeHolds (sense : RowSense) (rhs range v : ℚ) : Prop :=
  match sense with
  | .L => rhs - |range| ≤ v ∧ v ≤ rhs
  | .G => rhs ≤ v ∧ v ≤ rhs + |range|
  | .E => if 0 < range then rhs ≤ v ∧ v ≤ rhs + |range| else rhs - |range| ≤ v ∧ v ≤ rhs

def SenseHolds (sense : RowSense) (rhs v : ℚ) : Prop :=
  match sense with
  | .L => v ≤ rhs
  | .G => rhs ≤ v
  | .E => v = rhs

def RowHolds (user : UserProblem) (i : ℕ) (v : ℚ) : Prop :=
  match user.ranges.lookup i with
  | some range => RangeHolds (user.rowSense i) (user.rhs i) range v
  | none => SenseHolds (user.rowSense i) (user.rhs i) v

def rowValue (user : UserProblem) (x : ℕ → ℚ) (i : ℕ) : ℚ :=
  ∑ j ∈ Finset.range user.numCols, user.A.entry i j * x j

def Feasible (user : UserProblem) (x : ℕ → ℚ) : Prop :=
  (∀ i < user.numRows, user.RowHolds i (user.rowValue x i)) ∧
    ∀ j < user.numCols, InBounds (user.lower j) (user.upper j) (x j)

def linearVariableCount (user : UserProblem) : ℕ :=
  if user.secondOrderConeDims = [] then user.numCols else user.coneVarStart

/-- Indices are in range, and no row has two ranges. `Q` has no row past the last column. -/
structure WellFormed (user : UserProblem) : Prop where
  A_m : user.A.m = user.numRows
  A_n : user.A.n = user.numCols
  A_lt : ∀ j < user.numCols, ∀ i ∈ keys (user.A.col j), i < user.numRows
  range_lt : ∀ i ∈ user.rangeRows, i < user.numRows
  range_nodup : user.rangeRows.Nodup
  Q_lt : 0 < user.Q.n → ∀ i < user.numCols, ∀ j ∈ keys (user.Q.row i), j < user.numCols
  Q_nil : 0 < user.Q.n → ∀ i, user.numCols ≤ i → user.Q.row i = []
  cones : user.linearVariableCount ≤ user.numCols

def toLpProblem (user : UserProblem) : LpProblem where
  numRows := user.numRows
  numCols := user.numCols
  objective := user.objective
  Q := user.Q
  A := user.A
  rhs := user.rhs
  lower := user.lower
  upper := user.upper
  objConstant := user.objConstant
  coneVarStart := user.coneVarStart
  secondOrderConeDims := user.secondOrderConeDims

def objectiveValue (user : UserProblem) (x : ℕ → ℚ) : ℚ := user.toLpProblem.toProgram.objective x

end UserProblem

/-- Position of column `j` after `k` columns have been inserted at `at_`. -/
def shiftCol (at_ k j : ℕ) : ℕ := if j < at_ then j else j + k

def insertAt {α : Type*} (f new : ℕ → α) (at_ k j : ℕ) : α :=
  if j < at_ then f j else if j < at_ + k then new (j - at_) else f (j - k)

/-- One column of cost zero for each entry of `new`, at `at_`. -/
def insertColumns (problem : LpProblem) (at_ : ℕ) (new : List (ℕ × ℚ))
    (lower upper : ℕ → Option ℚ) : LpProblem :=
  { problem with
    A := { problem.A with
      n := problem.numCols + new.length
      col := insertAt problem.A.col (fun k => [new.getD k (0, 0)]) at_ new.length }
    objective := insertAt problem.objective (fun _ => 0) at_ new.length
    lower := insertAt problem.lower lower at_ new.length
    upper := insertAt problem.upper upper at_ new.length
    numCols := problem.numCols + new.length }

def insertQuadratic (Q : CsrMatrix) (at_ numNew numCols : ℕ) : CsrMatrix :=
  if 0 < Q.n then
    { m := numCols
      n := numCols
      row := insertAt (fun i => (Q.row i).map fun p => (shiftCol at_ numNew p.1, p.2))
        (fun _ => []) at_ numNew }
  else Q

def insertSlackColumns (problem : LpProblem) (rows : List ℕ) (isRange : Bool)
    (lower upper : ℕ → Option ℚ) (newSlacks : List ℕ) : LpProblem × List ℕ :=
  let numNew := rows.length
  if numNew = 0 then (problem, newSlacks)
  else
    let at_ := problem.linearVariableCount
    let value : ℚ := if isRange then -1 else 1
    ({ insertColumns problem at_ (rows.map fun i => (i, value)) lower upper with
        Q := insertQuadratic problem.Q at_ numNew (problem.numCols + numNew)
        coneVarStart := if problem.secondOrderConeDims = [] then problem.coneVarStart
          else problem.coneVarStart + numNew },
      newSlacks ++ (range numNew).map (at_ + ·))

structure ConvertState where
  problem : LpProblem
  rowSense : ℕ → RowSense
  lessRows : ℤ
  equalRows : ℤ
  greaterRows : ℤ
  newSlacks : List ℕ

def getRangeBoundsFromSense (sense : RowSense) (rhs range : ℚ) : ℚ × ℚ :=
  match sense with
  | .L => (rhs - |range|, rhs)
  | .G => (rhs, rhs + |range|)
  | .E => if 0 < range then (rhs, rhs + |range|) else (rhs - |range|, rhs)

structure RangeState where
  rhs : ℕ → ℚ
  rowSense : ℕ → RowSense
  lessRows : ℤ
  equalRows : ℤ
  greaterRows : ℤ
  bounds : List (ℚ × ℚ)

def convertRangeRow (s : RangeState) (p : ℕ × ℚ) : RangeState where
  rhs := update s.rhs p.1 0
  rowSense := update s.rowSense p.1 .E
  lessRows := if s.rowSense p.1 = .L then s.lessRows - 1 else s.lessRows
  equalRows := if s.rowSense p.1 = .L ∨ s.rowSense p.1 = .G then s.equalRows + 1 else s.equalRows
  greaterRows := if s.rowSense p.1 = .G then s.greaterRows - 1 else s.greaterRows
  bounds := s.bounds ++ [getRangeBoundsFromSense (s.rowSense p.1) (s.rhs p.1) p.2]

def convertRangeRows (user : UserProblem) (s : ConvertState) : ConvertState :=
  let r := user.ranges.foldl convertRangeRow
    ⟨s.problem.rhs, s.rowSense, s.lessRows, s.equalRows, s.greaterRows, []⟩
  let (problem, newSlacks) := insertSlackColumns { s.problem with rhs := r.rhs } user.rangeRows true
    (fun k => some (r.bounds.getD k (0, 0)).1) (fun k => some (r.bounds.getD k (0, 0)).2)
    s.newSlacks
  ⟨problem, r.rowSense, r.lessRows, r.equalRows, r.greaterRows, newSlacks⟩

def senseCount (m : ℕ) (rowSense : ℕ → RowSense) (sense : RowSense) : ℤ :=
  ((range m).filter fun i => rowSense i = sense).length

def convertGreaterToLess (s : ConvertState) : ConvertState :=
  let Arow := s.problem.A.toCompressedRow
  let flipped : CsrMatrix :=
    { Arow with
      row := fun i => if s.rowSense i = .G then (Arow.row i).map fun p => (p.1, p.2 * -1)
        else Arow.row i }
  { s with
    problem := { s.problem with
      A := flipped.toCompressedCol
      rhs := fun i => if s.rowSense i = .G then s.problem.rhs i * -1 else s.problem.rhs i }
    rowSense := fun i => if s.rowSense i = .G then .L else s.rowSense i
    lessRows := s.lessRows + senseCount s.problem.numRows s.rowSense .G
    greaterRows := s.greaterRows - senseCount s.problem.numRows s.rowSense .G }

def convertLessThanToEqual (s : ConvertState) : ConvertState :=
  let rows := (range s.problem.numRows).filter fun i => s.rowSense i = .L
  let (problem, newSlacks) := insertSlackColumns s.problem rows false (fun _ => some 0)
    (fun _ => none) s.newSlacks
  { s with
    problem := problem
    rowSense := fun i => if s.rowSense i = .L then .E else s.rowSense i
    newSlacks := newSlacks }

/-- One column fixed at zero for each equality row that is no range row. The arrays are resized for
`|equalityRows| - |rangeRows|` columns; `none` is the failure of the closing assertion that this is
the number of columns written. -/
def addArtificalVariables (problem : LpProblem) (rangeRows equalityRows newSlacks : List ℕ) :
    Option (LpProblem × List ℕ) :=
  let numArtificialVars : ℤ := (equalityRows.length : ℤ) - rangeRows.length
  let rows := equalityRows.filter fun i => i ∉ rangeRows
  let n := problem.numCols
  if (rows.length : ℤ) = numArtificialVars then
    some (insertColumns problem n (rows.map fun i => (i, 1)) (fun _ => some 0) (fun _ => some 0),
      newSlacks ++ (range rows.length).map (n + ·))
  else none

def maxRowNz (problem : LpProblem) : ℕ :=
  ((range problem.numRows).map fun i => (problem.A.toCompressedRow.row i).length).foldl max 0

def maxColumnNz (problem : LpProblem) : ℕ :=
  ((range problem.numCols).map problem.A.colLength).foldl max 0

def dualizes (user : UserProblem) (settings : SimplexSolverSettings) (s : ConvertState) : Bool :=
  settings.barrier && settings.dualize ≠ 0 && user.Q.n = 0 && s.problem.secondOrderConeDims = [] &&
    (settings.dualize = 1 ||
      (settings.dualize = -1 && (12 / 10 * s.problem.numCols : ℚ) < s.lessRows &&
        s.equalRows < 20000)) &&
    (range s.problem.numCols).all (fun j => s.problem.lower j = some 0) &&
    !(settings.dualize = -1 && 10000 < maxRowNz s.problem &&
      maxColumnNz s.problem < maxRowNz s.problem)

abbrev Dualization := ConvertState → ConvertState

def initialState (user : UserProblem) : ConvertState where
  problem := user.toLpProblem
  rowSense := user.rowSense
  lessRows := senseCount user.numRows user.rowSense .L
  equalRows := senseCount user.numRows user.rowSense .E
  greaterRows := senseCount user.numRows user.rowSense .G
  newSlacks := []

def inequalityState (user : UserProblem) : ConvertState :=
  let s := initialState user
  let s := if user.ranges = [] then s else convertRangeRows user s
  if 0 < s.greaterRows then convertGreaterToLess s else s

/-- `none` stands for a failed assertion in `addArtificalVariables`. -/
def convertUserProblem (dualize : Dualization) (user : UserProblem)
    (settings : SimplexSolverSettings) : Option (LpProblem × List ℕ) :=
  let equalityRows := (range user.numRows).filter fun i => user.rowSense i = .E
  let s := inequalityState user
  let s := if dualizes user settings s then dualize s else s
  let s := if 0 < s.lessRows then convertLessThanToEqual s else s
  if settings.barrierPresolve then some (s.problem, s.newSlacks)
  else addArtificalVariables s.problem user.rangeRows equalityRows s.newSlacks

def userColToProblemCol (user : UserProblem) (problem : LpProblem) (userCol : ℕ) : ℕ :=
  if user.secondOrderConeDims = [] then userCol
  else if problem.coneVarStart ≤ user.coneVarStart then userCol
  else if userCol < user.coneVarStart then userCol
  else problem.coneVarStart + (userCol - user.coneVarStart)

def clamp (lower upper : Option ℚ) (v : ℚ) : ℚ :=
  let capped := upper.elim v (min v)
  lower.elim capped fun l => max l capped

def crushPrimalSolution (user : UserProblem) (problem : LpProblem) (userSolution : ℕ → ℚ)
    (newSlacks : List ℕ) : ℕ → ℚ :=
  let solution := (range user.numCols).foldl
    (fun s j => update s (userColToProblemCol user problem j) (userSolution j)) fun _ => 0
  let primalResidual := problem.A.mulVec solution
  newSlacks.foldl
    (fun s j =>
      let (i, alpha) := (problem.A.col j).headD (0, 0)
      update s j
        (clamp (problem.lower j) (problem.upper j) ((problem.rhs i - primalResidual i) / alpha)))
    solution

def uncrushPrimalSolution (user : UserProblem) (problem : LpProblem) (solution : ℕ → ℚ) : ℕ → ℚ :=
  fun j => solution (userColToProblemCol user problem j)

end CuOpt.Simplex
