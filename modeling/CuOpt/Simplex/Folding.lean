import CuOpt.Simplex.ColorGraph
import CuOpt.Simplex.Presolve

/-! `folding`: the equality-form problem is replaced by one with a row for each row color and a
column for each column color of its augmented matrix. -/

namespace CuOpt.Simplex

open SparseList QuadProgram
open List (range)

section Augmented

def boundedColumns (problem : LpProblem) : List ℕ :=
  (range problem.numCols).filter fun j => problem.upper j ≠ none

def numUpperBounds (problem : LpProblem) : ℕ := (boundedColumns problem).length

def finiteUpperBound (problem : LpProblem) (k : ℕ) : ℚ :=
  (problem.upper ((boundedColumns problem).getD k 0)).getD 0

def augmented (problem : LpProblem) : WeightMatrix (WithTop ℚ) :=
  let m := problem.numRows
  let n := problem.numCols
  let upperBounds := numUpperBounds problem
  { m := m + 1 + upperBounds
    n := n + upperBounds + 1
    col := fun j =>
      if j < n then
        (problem.A.col j).map (fun p => (p.1, (p.2 : WithTop ℚ))) ++
          (if problem.upper j ≠ none then [(m + (boundedColumns problem).idxOf j, 1)] else []) ++
          if problem.objective j ≠ 0 then [(m + upperBounds, (problem.objective j : WithTop ℚ))]
          else []
      else if j < n + upperBounds then [(m + (j - n), 1)]
      else
        ((range m).filter fun i => problem.rhs i ≠ 0).map
            (fun i => (i, (problem.rhs i : WithTop ℚ))) ++
          (range upperBounds).map
            (fun k => (m + k, (finiteUpperBound problem k : WithTop ℚ))) ++ [(m + upperBounds, ⊤)] }

def numInf (A : WeightMatrix (WithTop ℚ)) : ℕ :=
  ((range A.n).map fun j => ((A.col j).filter fun p => p.2 = ⊤).length).sum

variable {K : Type*}

def WeightMatrix.removeRow (A : WeightMatrix K) (row : ℕ) : WeightMatrix K :=
  { A with
    m := A.m - 1
    col := fun j => ((A.col j).filter fun p => p.1 ≠ row).map fun p =>
      (if row < p.1 then p.1 - 1 else p.1, p.2) }

def WeightMatrix.removeColumn (A : WeightMatrix K) (col : ℕ) : WeightMatrix K :=
  { A with
    n := A.n - 1
    col := fun j => A.col (if j < col then j else j + 1) }

def WeightMatrix.finite (A : WeightMatrix (WithTop ℚ)) : CscMatrix where
  m := A.m
  n := A.n
  col := fun j => (A.col j).map fun p => (p.1, p.2.untopD 0)

def augmentedTilde (problem : LpProblem) : CscMatrix :=
  (((augmented problem).removeRow (problem.numRows + numUpperBounds problem)).removeColumn
    (problem.numCols + numUpperBounds problem)).finite

def bTilde (problem : LpProblem) (i : ℕ) : ℚ :=
  if i < problem.numRows then problem.rhs i else finiteUpperBound problem (i - problem.numRows)

def cTilde (problem : LpProblem) (j : ℕ) : ℚ :=
  if j < problem.numCols then problem.objective j else 0

end Augmented

section Folded

/-- Column `j` of the product, its rows in the order in which `scatter` meets them. -/
def multiply (A B : CscMatrix) : CscMatrix where
  m := A.m
  n := B.n
  col := fun j =>
    let products := (B.col j).flatMap fun p => (A.col p.1).map fun r => (r.1, p.2 * r.2)
    (distinct (keys products)).map fun i => (i, coeff products i)

/-- A color that consists of one vertex, the objective row or the right-hand side column. -/
def isSingleton (state : Coloring) (side : Side) (v c : ℕ) : Bool :=
  (state.colors c).active && (state.colors c).side = side && (state.colors c).vertices = {v}

/-- The active colors of one side, but for that of the objective or of the right-hand side. -/
def foldedColors (state : Coloring) (side : Side) (v : ℕ) : List ℕ :=
  (range state.totalColorsSeen).filter fun c =>
    (state.colors c).active && (state.colors c).side = side && !isSingleton state side v c

def colorVertices (order : IterationOrder) (state : Coloring) (c : ℕ) : List ℕ :=
  order.list c (state.colors c).vertices

def averageRows (order : IterationOrder) (state : Coloring) (colors : List ℕ) (reduced previous : ℕ) :
    CscMatrix :=
  CsrMatrix.toCompressedCol
    { m := reduced
      n := previous
      row := fun k => (colorVertices order state (colors.getD k 0)).map fun v =>
        (v, 1 / ((state.colors (colors.getD k 0)).vertices.card : ℚ)) }

def memberColumns (order : IterationOrder) (state : Coloring) (colors : List ℕ)
    (previous reduced : ℕ) : CscMatrix where
  m := previous
  n := reduced
  col := fun k => (colorVertices order state (colors.getD k 0)).map fun v => (v, 1)

structure FoldMatrices where
  Cs : CscMatrix
  D : CscMatrix
  Ds : CscMatrix

def foldThresholds (problem : LpProblem) (settings : SimplexSolverSettings) : ColorThresholds :=
  if settings.folding = -1 then ⟨problem.numRows / 2, problem.numCols / 2⟩
  else ⟨problem.numRows, problem.numCols⟩

def foldMatrices (order : IterationOrder) (problem : LpProblem) (state : Coloring) :
    Option FoldMatrices :=
  let previousRows := problem.numRows + numUpperBounds problem
  let previousCols := problem.numCols + numUpperBounds problem
  let reducedRows := state.numSideColors .row - 1
  let reducedCols := state.numSideColors .col - 1
  let rowColors := foldedColors state .row previousRows
  let colColors := foldedColors state .col previousCols
  let nnz := ((range reducedRows).map fun k =>
    (state.colors (rowColors.getD k 0)).vertices.card).sum
  if ¬(range state.totalColorsSeen).any (isSingleton state .row previousRows) then none
  else if ¬(range state.totalColorsSeen).any (isSingleton state .col previousCols) then none
  else if nnz ≠ previousRows then none
  else if rowColors.length ≠ reducedRows then none
  else
    some
      { Cs := averageRows order state rowColors reducedRows previousRows
        D := memberColumns order state colColors previousCols reducedCols
        Ds := averageRows order state colColors reducedCols previousCols }

def foldedProblem (problem : LpProblem) (M : FoldMatrices) : LpProblem :=
  { problem with
    numRows := M.Cs.m
    numCols := M.D.n
    objective := M.D.mulTransposeVec (cTilde problem)
    A := multiply M.Cs (multiply (augmentedTilde problem) M.D)
    rhs := M.Cs.mulVec (bTilde problem)
    lower := fun _ => some 0
    upper := fun _ => none }

def foldChecked (order : IterationOrder) (problem : LpProblem) (settings : SimplexSolverSettings) :
    Option FoldMatrices := do
  if settings.folding = -1 ∧ (1000000 < problem.numRows ∨ 1000000 < problem.numCols) then none
  else if (range problem.numCols).any fun j => problem.lower j ≠ some 0 then none
  else if numInf (augmented problem) ≠ 1 then none
  else
    let state ← colorGraph (augmented problem) order (foldThresholds problem settings)
    let M ← foldMatrices order problem state
    if (augmentedTilde problem).m ≠ problem.numRows + numUpperBounds problem ∨
        (augmentedTilde problem).n ≠ problem.numCols + numUpperBounds problem then none
    else if M.D.n < M.Cs.m then none
    else some M

/-- A return that does not fold may leave matrices in `folding_info`, which nothing reads then. -/
def folding (order : IterationOrder) : Folding := fun problem settings info =>
  match foldChecked order problem settings with
  | none => (problem, info)
  | some M =>
    (foldedProblem problem M,
      { info with
        foldingInfo :=
          { D := M.D
            Cs := M.Cs
            Ds := M.Ds
            previousFreeVariablePairs := info.freeVariablePairs
            isFolded := true }
        freeVariablePairs := [] })

end Folded

end CuOpt.Simplex
