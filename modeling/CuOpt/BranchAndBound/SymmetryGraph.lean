import CuOpt.Cuts.Inequality
import CuOpt.Library.CountingScatter
import CuOpt.Library.KeyColors
import CuOpt.Simplex.Problem

/-! The colored graph whose automorphisms are searched for symmetries: one vertex for each variable and
each row, and in each row one vertex for each value among its coefficients, between the row and the
variables with that value. -/

namespace CuOpt.BranchAndBound.SymmetryGraph

open Simplex SparseList QuadProgram KeyColors CountingScatter
open Cuts (VariableType)
open List (range)

def typeRank : VariableType → ℕ
  | .continuous => 0
  | .binary => 1
  | .integer => 2

structure VarKey where
  objective : ℚ
  lower : WithBot ℚ
  upper : WithTop ℚ
  type : ℕ

def VarKey.less (v w : VarKey) : Bool :=
  if v.objective ≠ w.objective then v.objective < w.objective
  else if v.lower ≠ w.lower then v.lower < w.lower
  else if v.upper ≠ w.upper then v.upper < w.upper
  else v.type < w.type

section Graph

variable (tol : ℚ) (problem : LpProblem) (varTypes : ℕ → VariableType)

def varKey (j : ℕ) : VarKey :=
  ⟨problem.objective j, problem.lower j, problem.upper j, typeRank (varTypes j)⟩

/-- Whether a variable gets a color of its own behind the variable that got the last one. -/
def startsVarColor (last v : VarKey) : Bool :=
  tol < v.objective - last.objective || v.lower ≠ last.lower || v.upper ≠ last.upper ||
    v.type ≠ last.type

def varColors : Sweep VarKey :=
  sweep (startsVarColor tol) (varKey problem varTypes) 0
    (sortedIndices (fun a b => (varKey problem varTypes a).less (varKey problem varTypes b))
      problem.numCols)

def startsColor (last v : ℚ) : Bool := tol < v - last

def rhsColors : Sweep ℚ :=
  sweep (startsColor tol) problem.rhs ((varColors tol problem varTypes).color + 1)
    (sortedIndices (fun a b => problem.rhs a < problem.rhs b) problem.numRows)

def nonzeros : List (ℕ × ℚ) := (range problem.numRows).flatMap problem.A.toCompressedRow.row

def rowLength (i : ℕ) : ℕ := (problem.A.toCompressedRow.row i).length

def rowStart (i : ℕ) : ℕ := ((range i).map (rowLength problem)).sum

def nonzeroValue (p : ℕ) : ℚ := ((nonzeros problem).getD p (0, 0)).2

def nonzeroColumn (p : ℕ) : ℕ := ((nonzeros problem).getD p (0, 0)).1

def nonzeroColors : Sweep ℚ :=
  sweep (startsColor tol) (nonzeroValue problem) 0
    (sortedIndices (fun a b => nonzeroValue problem a < nonzeroValue problem b)
      (nonzeros problem).length)

structure GraphState where
  edgeColorMap : List ℕ
  sortedNonzerosInRow : List ℕ
  currentVertex : ℕ
  vertexColors : List ℕ
  edges : List (ℕ × ℕ)

/-- Pass 1: counts of the colors in a row, and the colors in the order in which they come up. -/
def countColor (colorOf : ℕ → ℕ) (s : List ℕ × List ℕ) (p : ℕ) : List ℕ × List ℕ :=
  let counts := increment s.1 (colorOf p)
  (counts, if counts.getD (colorOf p) 0 = 1 then s.2 ++ [colorOf p] else s.2)

def resize (l : List ℕ) (n : ℕ) : List ℕ := l.take n ++ List.replicate (n - l.length) 0

/-- Passes 1 to 3: the nonzeros of a row grouped by color, with the counters cleared for the next row. -/
def groupRow (colorOf : ℕ → ℕ) (positions : List ℕ) (edgeColorMap buffer : List ℕ) :
    List ℕ × List ℕ :=
  let counted := positions.foldl (countColor colorOf) (edgeColorMap, [])
  let starts := (assignStarts counted.2 counted.1).1
  let placed := scatter (fun _ => 0) colorOf id starts (resize buffer positions.length) positions
  (counted.2.foldl (fun counts c => counts.set c 0) placed.1, placed.2)

/-- Pass 4: an edge from the variable of a nonzero to the vertex of its color, which is new unless the
nonzero before has the same color. -/
def addNonzero (colorOf columnOf : ℕ → ℕ) (firstColor rowVertex : ℕ) (s : Option ℕ × GraphState)
    (p : ℕ) : Option ℕ × GraphState :=
  let g := s.2
  if s.1 = some (colorOf p) then
    (s.1, { g with edges := g.edges ++ [(columnOf p, g.currentVertex - 1)] })
  else
    (some (colorOf p), { g with
      vertexColors := g.vertexColors ++ [firstColor + colorOf p]
      edges := g.edges ++ [(columnOf p, g.currentVertex), (g.currentVertex, rowVertex)]
      currentVertex := g.currentVertex + 1 })

def addRow (colorOf columnOf : ℕ → ℕ) (firstColor : ℕ) (s : GraphState) (i : ℕ) : GraphState :=
  let positions := List.range' (rowStart problem i) (rowLength problem i)
  let grouped := groupRow colorOf positions s.edgeColorMap s.sortedNonzerosInRow
  let s := { s with edgeColorMap := grouped.1, sortedNonzerosInRow := grouped.2 }
  (grouped.2.foldl (addNonzero colorOf columnOf firstColor (problem.numCols + i)) (none, s)).2

structure ColoredGraph where
  vertexColors : List ℕ
  edges : List (ℕ × ℕ)
  deriving DecidableEq

def startState : GraphState where
  edgeColorMap := List.replicate ((nonzeroColors tol problem).color + 1) 0
  sortedNonzerosInRow := []
  currentVertex := problem.numCols + problem.numRows
  vertexColors :=
    (range problem.numCols).map (varColors tol problem varTypes).colors ++
      (range problem.numRows).map (rhsColors tol problem varTypes).colors
  edges := []

/-- The graph that `detect_symmetry` hands to the search: every edge from its lower to its upper end. -/
def detectSymmetryGraph : ColoredGraph :=
  let s := (range problem.numRows).foldl
    (addRow problem (nonzeroColors tol problem).colors (nonzeroColumn problem)
      ((rhsColors tol problem varTypes).color + 1)) (startState tol problem varTypes)
  ⟨s.vertexColors, s.edges.map fun e => (min e.1 e.2, max e.1 e.2)⟩

end Graph

namespace ColoredGraph

variable (g : ColoredGraph)

def size : ℕ := g.vertexColors.length

def color (v : ℕ) : ℕ := g.vertexColors.getD v 0

def Adjacent (u v : ℕ) : Prop := (min u v, max u v) ∈ g.edges

structure Automorphism (σ : Equiv.Perm ℕ) : Prop where
  fixes : ∀ v, g.size ≤ v → σ v = v
  color : ∀ v < g.size, g.color (σ v) = g.color v
  adjacent : ∀ u < g.size, ∀ v < g.size, g.Adjacent (σ u) (σ v) ↔ g.Adjacent u v

end ColoredGraph

structure MixedFeasible (problem : LpProblem) (varTypes : ℕ → VariableType) (x : ℕ → ℚ) : Prop where
  rows : ∀ i < problem.numRows,
    ∑ j ∈ Finset.range problem.numCols, problem.A.entry i j * x j = problem.rhs i
  bounds : ∀ j < problem.numCols, InBounds (problem.lower j) (problem.upper j) (x j)
  integral : ∀ j < problem.numCols, varTypes j ≠ .continuous → ∃ z : ℤ, x j = z

def linearObjective (problem : LpProblem) (x : ℕ → ℚ) : ℚ :=
  ∑ j ∈ Finset.range problem.numCols, problem.objective j * x j

end CuOpt.BranchAndBound.SymmetryGraph
