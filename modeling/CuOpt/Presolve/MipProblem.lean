import CuOpt.Library.QuadProgram
import CuOpt.Library.SparseList

/-! The part of `problem_t` that presolve rewrites, with the record `presolve_data_t` from which
postsolve restores assignments of the original variables. -/

namespace CuOpt.Presolve

open SparseList QuadProgram

structure Substitution where
  substitutingVar : ℕ
  substitutedVar : ℕ
  offset : ℚ
  coefficient : ℚ
  deriving DecidableEq

structure BveReconstruction where
  interior : List ℕ
  boundary : List ℕ
  witness : List ℕ

inductive PostsolveReconstruction
  | affineSub (sub : Substitution)
  | blockBve (bve : BveReconstruction)

/-- `none` in `additionalVarIdPerVar` is `-1`. -/
structure PresolveData where
  additionalVarUsed : ℕ → Bool
  additionalVarIdPerVar : ℕ → Option ℕ
  objectiveOffset : ℚ
  variableMapping : List ℕ
  fixedVarAssignment : List ℚ
  impliedInteger : ℕ → Bool
  postsolveReconstructions : List PostsolveReconstruction

/-- Every array by variable has `nVariables` entries and every array by row `nConstraints`. `none` in
a lower bound is `-inf` and in an upper bound `inf`. -/
structure MipProblem where
  nVariables : ℕ
  nConstraints : ℕ
  row : ℕ → List (ℕ × ℚ)
  constraintLowerBounds : ℕ → Option ℚ
  constraintUpperBounds : ℕ → Option ℚ
  variableBounds : ℕ → Option ℚ × Option ℚ
  objectiveCoefficients : ℕ → ℚ
  isInteger : ℕ → Bool
  presolveData : PresolveData

namespace MipProblem

def RowHolds (p : MipProblem) (x : ℕ → ℚ) (i : ℕ) : Prop :=
  InBounds (p.constraintLowerBounds i) (p.constraintUpperBounds i) (dot (p.row i) x)

def RowsHold (p : MipProblem) (x : ℕ → ℚ) : Prop := ∀ i < p.nConstraints, p.RowHolds x i

def objectiveValue (p : MipProblem) (x : ℕ → ℚ) : ℚ :=
  ∑ v ∈ Finset.range p.nVariables, p.objectiveCoefficients v * x v + p.presolveData.objectiveOffset

def Feasible (p : MipProblem) (x : ℕ → ℚ) : Prop :=
  p.RowsHold x ∧ ∀ v < p.nVariables,
    InBounds (p.variableBounds v).1 (p.variableBounds v).2 (x v) ∧
      (p.isInteger v = true → ∃ k : ℤ, x v = k)

def InRange (p : MipProblem) : Prop :=
  ∀ i < p.nConstraints, ∀ e ∈ p.row i, e.1 < p.nVariables

end MipProblem

end CuOpt.Presolve
