import CuOpt.Simplex.SubstitutionMatrix

/-! `eliminate_free_variables`: one pass over the columns that substitutes zero-cost free variables
outside `Q` through an equality row, and the replay of these substitutions in postsolve. -/

namespace CuOpt.Simplex

open SparseList QuadProgram
open Function (update)

structure EliminationState where
  matrix : SubstitutionMatrix
  rhs : ℕ → ℚ
  activeRow : ℕ → Bool
  activeCol : ℕ → Bool
  eliminations : List FreeVariableElimination
  pivotRejected : ℕ

def incidentRows (s : EliminationState) (j : ℕ) : List (ℕ × ℚ) :=
  (distinct (s.matrix.colRow j)).filterMap fun i =>
    if s.activeRow i then
      match SparseRow.find (s.matrix.row i) j with
      | none => none
      | some offset =>
        if SparseRow.value (s.matrix.row i) offset = 0 then none
        else some (i, SparseRow.value (s.matrix.row i) offset)
    else none

/-- The shortest row among those whose entry is the largest of its column and of its row. -/
def choosePivot (matrix : SubstitutionMatrix) (incident : List (ℕ × ℚ)) : Option (ℕ × ℚ) :=
  incident.foldl
    (fun best e =>
      if |e.2| < SparseRow.maxAbs incident then best
      else if |e.2| < SparseRow.maxAbs (matrix.row e.1) then best
      else
        match best with
        | none => some e
        | some b => if (matrix.row e.1).length < (matrix.row b.1).length then some e else best)
    none

def fillCount (matrix : SubstitutionMatrix) (rows : List ℕ) (columns : List (ℕ × ℚ)) : ℕ :=
  (rows.map fun i =>
    (columns.filter fun p => SparseRow.find (matrix.row i) p.1 = none).length).sum

structure PivotProgress where
  matrix : SubstitutionMatrix
  rhs : ℕ → ℚ
  affectedRows : List (ℕ × ℚ)

def reduceRow (j : ℕ) (pivotCoefficient pivotRhs : ℚ) (columns : List (ℕ × ℚ)) (s : PivotProgress)
    (i : ℕ) : PivotProgress :=
  match SparseRow.find (s.matrix.row i) j with
  | none => s
  | some offset =>
    let factor := SparseRow.value (s.matrix.row i) offset / pivotCoefficient
    { matrix := s.matrix.subtractRow i offset factor columns
      rhs := update s.rhs i (s.rhs i - factor * pivotRhs)
      affectedRows := s.affectedRows ++ [(i, factor)] }

def substituteColumn (s : EliminationState) (j pivot : ℕ) (pivotCoefficient : ℚ)
    (columns : List (ℕ × ℚ)) (others : List ℕ) : EliminationState :=
  let pivotRhs := s.rhs pivot
  let done := others.foldl (reduceRow j pivotCoefficient pivotRhs columns) ⟨s.matrix, s.rhs, []⟩
  { s with
    matrix := done.matrix
    rhs := done.rhs
    activeRow := update s.activeRow pivot false
    activeCol := update s.activeCol j false
    eliminations := s.eliminations ++
      [⟨j, some pivot, pivotCoefficient, pivotRhs, columns, done.affectedRows⟩] }

def qPresent (problem : LpProblem) (j : ℕ) : Bool :=
  0 < problem.Q.n && j < min problem.Q.m problem.numCols && !(problem.Q.row j).isEmpty

def eliminateColumn (problem : LpProblem) (s : EliminationState) (j : ℕ) : EliminationState :=
  if !s.activeCol j || problem.lower j ≠ none || problem.upper j ≠ none ||
      problem.objective j ≠ 0 || qPresent problem j then s
  else
    let incident := incidentRows s j
    -- the column list is compacted to the rows found
    let s := { s with
      matrix := { s.matrix with
        colRow := update s.matrix.colRow j (keys incident) } }
    if incident = [] then
      { s with
        eliminations := s.eliminations ++ [⟨j, none, 1, 0, [], []⟩]
        activeCol := update s.activeCol j false }
    else
      match choosePivot s.matrix incident with
      | none => { s with pivotRejected := s.pivotRejected + 1 }
      | some (pivot, pivotCoefficient) =>
        let columns := (s.matrix.row pivot).filter fun p => p.1 ≠ j
        let others := (keys incident).filter fun i => i ≠ pivot
        if (s.matrix.row pivot).length + incident.length - 1 < fillCount s.matrix others columns
        then s
        else substituteColumn s j pivot pivotCoefficient columns others

def eliminationPass (problem : LpProblem) : EliminationState :=
  (List.range problem.linearVariableCount).foldl (eliminateColumn problem)
    { matrix := SubstitutionMatrix.build problem.A
      rhs := problem.rhs
      activeRow := fun _ => true
      activeCol := fun _ => true
      eliminations := []
      pivotRejected := 0 }

def reducedProblem (problem : LpProblem) (s : EliminationState) : LpProblem :=
  let remainingCols := unmarked problem.numCols fun j => !s.activeCol j
  let remainingRows := unmarked problem.numRows fun i => !s.activeRow i
  let reducedA : CsrMatrix :=
    { m := remainingRows.length
      n := remainingCols.length
      row := fun i =>
        ((s.matrix.row (remainingRows.getD i 0)).filter fun p => s.activeCol p.1 && p.2 ≠ 0).map
          fun p => (remainingCols.idxOf p.1, p.2) }
  { problem with
    Q := if 0 < problem.Q.n then
        removeVariablesFromQ problem.Q (fun j => !s.activeCol j) remainingCols
      else problem.Q
    A := reducedA.toCompressedCol
    rhs := fun i => s.rhs (remainingRows.getD i 0)
    objective := fun j => problem.objective (remainingCols.getD j 0)
    lower := fun j => problem.lower (remainingCols.getD j 0)
    upper := fun j => problem.upper (remainingCols.getD j 0)
    numRows := remainingRows.length
    numCols := remainingCols.length
    coneVarStart := if problem.secondOrderConeDims = [] then problem.coneVarStart
      else remainingCols.idxOf problem.coneVarStart }

def freeLinearVariables (problem : LpProblem) : List ℕ :=
  (List.range problem.linearVariableCount).filter problem.isFree

def eliminateFreeVariables (problem : LpProblem) (info : PresolveInfo) : LpProblem × PresolveInfo :=
  if problem.numRows = 0 ∨ problem.linearVariableCount = 0 then (problem, info)
  else
    let s := eliminationPass problem
    if s.eliminations = [] then (problem, info)
    else
      let reduced := reducedProblem problem s
      (reduced,
        { info with
          freeVariableEliminations := s.eliminations
          freeEliminationRemainingVariables := unmarked problem.numCols fun j => !s.activeCol j
          freeEliminationRemainingConstraints := unmarked problem.numRows fun i => !s.activeRow i
          directFreeVariables := freeLinearVariables reduced })

def undoElimination (e : FreeVariableElimination) (t : Solution) : Solution where
  x := update t.x e.var ((e.rhs - dot e.columns t.x) / e.pivotCoefficient)
  y := match e.pivotRow with
    | none => t.y
    | some pivot => update t.y pivot (-dot e.affectedRows t.y)
  z := update t.z e.var 0

def undoEliminations (eliminations : List FreeVariableElimination) (t : Solution) : Solution :=
  eliminations.foldr undoElimination t

def restoreEliminated (info : PresolveInfo) (t : Solution) : Solution :=
  if info.freeVariableEliminations = [] then t
  else
    undoEliminations info.freeVariableEliminations
      { x := scatter info.freeEliminationRemainingVariables t.x fun _ => 0
        y := scatter info.freeEliminationRemainingConstraints t.y fun _ => 0
        z := scatter info.freeEliminationRemainingVariables t.z fun _ => 0 }

end CuOpt.Simplex
