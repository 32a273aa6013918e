import Mathlib

/-! Objective values on a lattice: rounding node bounds up to it, the cutoff that an incumbent
implies, and the test for accepting a new incumbent. -/

namespace CuOpt.BranchAndBound

/-- Objective values are `k * stepSize + bias`; no step is known when `stepSize` is not positive. -/
structure ObjectiveStep where
  stepSize : ℚ := 0
  bias : ℚ := 0

def ObjectiveStep.hasStep (s : ObjectiveStep) : Bool := 0 < s.stepSize

structure LatticeSettings where
  objectiveStep : ObjectiveStep
  objectiveIsIntegral : Bool
  integerTol : ℚ
  dualTol : ℚ
  primalTol : ℚ

namespace LatticeSettings

def snapToLattice (lp : LatticeSettings) (leafObj : ℚ) : ℚ :=
  if lp.objectiveStep.hasStep then
    let step := lp.objectiveStep.stepSize
    let bias := lp.objectiveStep.bias
    let k : ℤ := ⌈(leafObj - bias) / step - lp.integerTol⌉
    k * step + bias
  else if lp.objectiveIsIntegral then ⌈leafObj - lp.integerTol⌉
  else leafObj

def computeNodeCutoff (lp : LatticeSettings) (upperBound : ℚ) : ℚ :=
  if lp.objectiveStep.hasStep then
    let step := lp.objectiveStep.stepSize
    let bias := lp.objectiveStep.bias
    let k : ℤ := ⌈(upperBound - bias) / step - lp.integerTol⌉
    (k - 1) * step + bias + lp.dualTol
  else if lp.objectiveIsIntegral then ⌈upperBound - lp.integerTol⌉ - 1 + lp.dualTol
  else upperBound + lp.dualTol

def acceptNewIncumbent (lp : LatticeSettings) (incumbent : Option ℚ) (obj : ℚ) : Bool :=
  match incumbent with
  | none => true
  | some objective =>
    let threshold := objective - lp.primalTol
    let step := if lp.objectiveStep.hasStep then lp.objectiveStep.stepSize
      else if lp.objectiveIsIntegral then 1 else 0
    let threshold := if 0 < step then
        -- half a step above the greatest lattice value strictly below the incumbent
        let latticeBelow := lp.computeNodeCutoff objective - lp.dualTol
        min threshold (latticeBelow + 1 / 2 * step)
      else threshold
    obj < threshold

end LatticeSettings

end CuOpt.BranchAndBound
