import CuOpt.Library.BooleanCubes
import CuOpt.Presolve.BveBlocks

/-! What a projected block says about its boundary columns: the ones it fixes, and the ones that a
value of another one fixes. -/

namespace CuOpt.Presolve

open BooleanCubes
open List (range)

/-- `probe_forcing_t`: with `var` at `value`, `forcedVar` is at `forcedValue`. -/
structure ProbeForcing where
  var : ℕ
  forcedVar : ℕ
  value : Bool
  forcedValue : Bool
  deriving DecidableEq

structure ProbeFindings where
  forcings : List ProbeForcing
  fixings : List (ℕ × Bool)
  deriving DecidableEq

/-- The accumulators: slot `2 * j + a` for the patterns with value `a` at `j`, slot `2 * nb` for
all. -/
structure ForcingMasks where
  andAcc : List ℕ
  orAcc : List ℕ
  nFeasible : ℕ
  deriving DecidableEq

namespace ForcingMasks

def start (nb : ℕ) : ForcingMasks where
  andAcc := List.replicate (2 * nb + 1) (2 ^ nb - 1)
  orAcc := List.replicate (2 * nb + 1) 0
  nFeasible := 0

def record (acc : ForcingMasks) (m s : ℕ) : ForcingMasks :=
  { acc with
    andAcc := acc.andAcc.modify s (· &&& m)
    orAcc := acc.orAcc.modify s (· ||| m) }

def slots (nb m : ℕ) : List ℕ := 2 * nb :: (range nb).map fun j => 2 * j + ((m >>> j) &&& 1)

def addPattern (nb : ℕ) (admits : ℕ → Bool) (acc : ForcingMasks) (m : ℕ) : ForcingMasks :=
  if admits m then
    (slots nb m).foldl (fun acc s => acc.record m s) { acc with nFeasible := acc.nFeasible + 1 }
  else acc

def accumulate (nb : ℕ) (admits : ℕ → Bool) : ForcingMasks :=
  (range (2 ^ nb)).foldl (addPattern nb admits) (start nb)

def allSet (acc : ForcingMasks) (s k : ℕ) : Bool := (acc.andAcc.getD s 0).testBit k

def anySet (acc : ForcingMasks) (s k : ℕ) : Bool := (acc.orAcc.getD s 0).testBit k

/-- `and_acc | (~or_acc & all_ones)` of the unconditional slot. -/
def fixedMask (nb : ℕ) (acc : ForcingMasks) : ℕ :=
  acc.andAcc.getD (2 * nb) 0 ||| Nat.ldiff (2 ^ nb - 1) (acc.orAcc.getD (2 * nb) 0)

end ForcingMasks

def forcedAt (cand : BveCandidate) (acc : ForcingMasks) (j : ℕ) (a : Bool) (k : ℕ) :
    Option ProbeForcing :=
  let s := 2 * j + a.toNat
  if k = j ∨ (acc.fixedMask cand.blk.nb).testBit k then none
  else if acc.allSet s k then
    some ⟨cand.boundary.getD j 0, cand.boundary.getD k 0, a, true⟩
  else if !acc.anySet s k then
    some ⟨cand.boundary.getD j 0, cand.boundary.getD k 0, a, false⟩
  else none

def bveExtractForcings (cand : BveCandidate) (out : ProbeFindings) : ProbeFindings :=
  let nb := cand.blk.nb
  let acc := ForcingMasks.accumulate nb cand.admits
  if acc.nFeasible = 0 then out
  else
    let fixedMask := acc.fixedMask nb
    { fixings := out.fixings ++ (range nb).filterMap fun j =>
        if fixedMask.testBit j then some (cand.boundary.getD j 0, acc.allSet (2 * nb) j) else none
      forcings := out.forcings ++ (range nb).flatMap fun j =>
        if fixedMask.testBit j then []
        else [false, true].flatMap fun a => (range nb).filterMap (forcedAt cand acc j a) }

/-- The loop over the sorted fixings: the columns with their values, unless two fixings of one
original column disagree. `reverseOriginalIds` is negative at an eliminated column. -/
def gatherFixings (reverseOriginalIds : List ℤ) (nVariables : ℕ) :
    Option (ℕ × Bool) → List (ℕ × Bool) → Option (List (ℕ × Bool))
  | _, [] => some []
  | last, f :: rest =>
    if last.map Prod.fst = some f.1 then
      if last.map Prod.snd = some f.2 then gatherFixings reverseOriginalIds nVariables (some f) rest
      else none
    else
      let column := reverseOriginalIds.getD f.1 (-1)
      let later := gatherFixings reverseOriginalIds nVariables (some f) rest
      if column < 0 ∨ (nVariables : ℤ) ≤ column then later
      else later.map fun updates => (column.toNat, f.2) :: updates

def fixingLe (f g : ℕ × Bool) : Prop := f.1 < g.1 ∨ f.1 = g.1 ∧ (f.2 → g.2)

instance : DecidableRel fixingLe := fun f g =>
  inferInstanceAs (Decidable (f.1 < g.1 ∨ f.1 = g.1 ∧ (f.2 → g.2)))

structure ColumnBounds where
  lower : ℕ → ℚ
  upper : ℕ → ℚ

def ColumnBounds.fix (b : ColumnBounds) (update : ℕ × Bool) : ColumnBounds where
  lower := Function.update b.lower update.1 (if update.2 then 1 else 0)
  upper := Function.update b.upper update.1 (if update.2 then 1 else 0)

def applyBveFixings (reverseOriginalIds : List ℤ) (nVariables : ℕ) (b : ColumnBounds)
    (fixings : List (ℕ × Bool)) : Option (ColumnBounds × ℕ) :=
  (gatherFixings reverseOriginalIds nVariables none (fixings.insertionSort fixingLe)).map fun updates =>
    (updates.foldl ColumnBounds.fix b, updates.length)

def exportFindings (variableMapping : ℕ → ℕ) (current out : ProbeFindings) : ProbeFindings where
  forcings := out.forcings ++ current.forcings.map fun f =>
    { f with var := variableMapping f.var, forcedVar := variableMapping f.forcedVar }
  fixings := out.fixings ++ current.fixings.map fun f => (variableMapping f.1, f.2)

def harvest (variableMapping : ℕ → ℕ) (cands : List BveCandidate) (out : ProbeFindings) :
    ProbeFindings :=
  exportFindings variableMapping
    (cands.foldl (fun findings cand => bveExtractForcings cand findings) ⟨[], []⟩) out

end CuOpt.Presolve
