import CuOpt.Simplex.Problem

/-! Bounds that reduced costs imply once an incumbent is good enough: they are stored while
relaxations are solved and replayed against later incumbents. -/

namespace CuOpt.BranchAndBound

open Simplex
open Function (update)
open List (range)

/-- The bound holds for every point that is better than an incumbent of at most this objective. An
invalid pair is `none` where one is stored. -/
structure ObjectiveBoundPair where
  objective : ℚ
  bound : ℚ

inductive BoundInfo
  | dominated
  | variableOutOfBounds
  | accepted
  | tightened

structure ReducedCostBounds where
  numCols : ℕ
  maxObjective : WithBot ℚ
  lowerBounds : ℕ → Option ObjectiveBoundPair
  upperBounds : ℕ → Option ObjectiveBoundPair

structure Strengthened where
  lower : ℕ → Option ℚ
  upper : ℕ → Option ℚ
  integerBoundsUpdated : ℕ

def aboveLower (l : Option ℚ) (b : ℚ) : Bool :=
  match l with
  | none => true
  | some l => l < b

def belowUpper (u : Option ℚ) (b : ℚ) : Bool :=
  match u with
  | none => true
  | some u => b < u

namespace Strengthened

def setLower (s : Strengthened) (j : ℕ) (b : ℚ) (counted : Bool) : Strengthened where
  lower := update s.lower j (some b)
  upper := s.upper
  integerBoundsUpdated := if counted then s.integerBoundsUpdated + 1 else s.integerBoundsUpdated

def setUpper (s : Strengthened) (j : ℕ) (b : ℚ) (counted : Bool) : Strengthened where
  lower := s.lower
  upper := update s.upper j (some b)
  integerBoundsUpdated := if counted then s.integerBoundsUpdated + 1 else s.integerBoundsUpdated

end Strengthened

namespace ReducedCostBounds

def initial (originalCols : ℕ) : ReducedCostBounds :=
  ⟨originalCols, ⊥, fun _ => none, fun _ => none⟩

def storeLower (r : ReducedCostBounds) (col : ℕ) (p : ObjectiveBoundPair) : ReducedCostBounds :=
  { r with
    lowerBounds := update r.lowerBounds col (some p)
    maxObjective := if r.maxObjective < p.objective then p.objective else r.maxObjective }

def storeUpper (r : ReducedCostBounds) (col : ℕ) (p : ObjectiveBoundPair) : ReducedCostBounds :=
  { r with
    upperBounds := update r.upperBounds col (some p)
    maxObjective := if r.maxObjective < p.objective then p.objective else r.maxObjective }

def addLowerBound (r : ReducedCostBounds) (col : ℕ) (objective bound : ℚ) :
    BoundInfo × ReducedCostBounds :=
  if col < r.numCols then
    match r.lowerBounds col with
    | none => (.accepted, r.storeLower col ⟨objective, bound⟩)
    | some p =>
      if p.bound < bound then (.tightened, r.storeLower col ⟨objective, bound⟩)
      else if bound = p.bound ∧ p.objective < objective then
        (.accepted, r.storeLower col ⟨objective, p.bound⟩)
      else (.dominated, r)
  else (.variableOutOfBounds, r)

def addUpperBound (r : ReducedCostBounds) (col : ℕ) (objective bound : ℚ) :
    BoundInfo × ReducedCostBounds :=
  if col < r.numCols then
    match r.upperBounds col with
    | none => (.accepted, r.storeUpper col ⟨objective, bound⟩)
    | some p =>
      if bound < p.bound then (.tightened, r.storeUpper col ⟨objective, bound⟩)
      else if bound = p.bound ∧ p.objective < objective then
        (.accepted, r.storeUpper col ⟨objective, p.bound⟩)
      else (.dominated, r)
  else (.variableOutOfBounds, r)

def tol : ℚ := 1 / 100

/-- The upper bound that a positive reduced cost `z` would imply next, with the objective it takes;
nothing where an infinite bound makes one of the two infinite. -/
def nextUpper (isInteger : Bool) (lower upper : Option ℚ) (relaxationObjective z : ℚ) :
    Option ObjectiveBoundPair :=
  match lower, upper with
  | some l, some u =>
    let uTilde := if isInteger then u - tol else max (u - 1) l
    let bound : ℚ := if isInteger then ⌊uTilde⌋ else uTilde
    let diff := uTilde - l
    if isInteger = true ∧ bound ≠ u - 1 then none
    else some ⟨relaxationObjective + diff * z, bound⟩
  | _, _ => none

def nextLower (isInteger : Bool) (lower upper : Option ℚ) (relaxationObjective z : ℚ) :
    Option ObjectiveBoundPair :=
  match lower, upper with
  | some l, some u =>
    let lTilde := if isInteger then l + tol else min (l + 1) u
    let bound : ℚ := if isInteger then ⌈lTilde⌉ else lTilde
    let diff := lTilde - u
    if isInteger = true ∧ bound ≠ l + 1 then none
    else some ⟨relaxationObjective + diff * z, bound⟩
  | _, _ => none

def addUpper (r : ReducedCostBounds) (j : ℕ) : Option ObjectiveBoundPair → ReducedCostBounds
  | none => r
  | some p => (r.addUpperBound j p.objective p.bound).2

def addLower (r : ReducedCostBounds) (j : ℕ) : Option ObjectiveBoundPair → ReducedCostBounds
  | none => r
  | some p => (r.addLowerBound j p.objective p.bound).2

def updateReducedCostBounds (r : ReducedCostBounds) (lp : LpProblem) (integerTol : ℚ)
    (isInteger : ℕ → Bool) (relaxationObjective : ℚ) (reducedCosts : ℕ → ℚ) (basic : ℕ → Bool) :
    ReducedCostBounds :=
  (range r.numCols).foldl (fun r j =>
    let z := reducedCosts j
    if 100 * integerTol < |z| ∧ basic j = false then
      let r :=
        if 0 < z then
          r.addUpper j (nextUpper (isInteger j) (lp.lower j) (lp.upper j) relaxationObjective z)
        else r
      if z < 0 then
        r.addLower j (nextLower (isInteger j) (lp.lower j) (lp.upper j) relaxationObjective z)
      else r
    else r) r

def strengthenUpper (lp : LpProblem) (integerTol absGap rc : ℚ) (s : Strengthened) (j : ℕ) :
    Strengthened :=
  match lp.lower j with
  | some l =>
    if 0 < rc then
      let bound : ℚ := ⌊l + absGap / rc + integerTol⌋
      if belowUpper (lp.upper j) bound then s.setUpper j bound true else s
    else s
  | none => s

def strengthenLower (lp : LpProblem) (integerTol absGap rc : ℚ) (s : Strengthened) (j : ℕ) :
    Strengthened :=
  match lp.upper j with
  | some u =>
    if rc < 0 then
      let bound : ℚ := ⌈u + absGap / rc - integerTol⌉
      if aboveLower (lp.lower j) bound then s.setLower j bound true else s
    else s
  | none => s

def strengthenInteger (lp : LpProblem) (integerTol : ℚ) (isInteger : ℕ → Bool)
    (reducedCosts : ℕ → ℚ) (absGap : ℚ) (s : Strengthened) (j : ℕ) : Strengthened :=
  let narrow :=
    match lp.lower j, lp.upper j with
    | some l, some u => decide (u - l ≤ 1)
    | _, _ => false
  if isInteger j = false ∨ narrow = true then s
  else
    let rc := reducedCosts j
    if |rc| ≤ 100 * integerTol then s
    else
      strengthenLower lp integerTol absGap rc (strengthenUpper lp integerTol absGap rc s j) j

def strengthenIntegers (numCols : ℕ) (lp : LpProblem) (integerTol : ℚ) (isInteger : ℕ → Bool)
    (reducedCosts : ℕ → ℚ) (relaxationObjective : ℚ) (incumbentObjective : WithTop ℚ)
    (lower upper : ℕ → Option ℚ) : Strengthened :=
  match incumbentObjective with
  | ⊤ => ⟨lower, upper, 0⟩
  | (incumbent : ℚ) =>
    if relaxationObjective ≤ incumbent then
      (range numCols).foldl (strengthenInteger lp integerTol isInteger reducedCosts
        (incumbent - relaxationObjective)) ⟨lower, upper, 0⟩
    else ⟨lower, upper, 0⟩

structure Replay where
  bounds : Strengthened
  lowerBounds : ℕ → Option ObjectiveBoundPair
  upperBounds : ℕ → Option ObjectiveBoundPair
  maxObjective : WithBot ℚ

def raiseMax (maxObjective : WithBot ℚ) (objective : ℚ) : WithBot ℚ :=
  if maxObjective < objective then objective else maxObjective

def replayLower (isInteger : ℕ → Bool) (incumbentObjective : WithTop ℚ) (s : Replay) (j : ℕ) :
    Replay :=
  match s.lowerBounds j with
  | none => s
  | some p =>
    let s :=
      if incumbentObjective ≤ p.objective ∧ aboveLower (s.bounds.lower j) p.bound = true then
        { s with bounds := s.bounds.setLower j p.bound (isInteger j) }
      else s
    -- a pair that cannot tighten any more is dropped and does not count for the maximum
    if aboveLower (s.bounds.lower j) p.bound then
      { s with maxObjective := raiseMax s.maxObjective p.objective }
    else { s with lowerBounds := update s.lowerBounds j none }

def replayUpper (isInteger : ℕ → Bool) (incumbentObjective : WithTop ℚ) (s : Replay) (j : ℕ) :
    Replay :=
  match s.upperBounds j with
  | none => s
  | some p =>
    let s :=
      if incumbentObjective ≤ p.objective ∧ belowUpper (s.bounds.upper j) p.bound = true then
        { s with bounds := s.bounds.setUpper j p.bound (isInteger j) }
      else s
    if belowUpper (s.bounds.upper j) p.bound then
      { s with maxObjective := raiseMax s.maxObjective p.objective }
    else { s with upperBounds := update s.upperBounds j none }

def replayStep (isInteger : ℕ → Bool) (incumbentObjective : WithTop ℚ) (s : Replay) (j : ℕ) :
    Replay :=
  replayUpper isInteger incumbentObjective (replayLower isInteger incumbentObjective s j) j

def replay (r : ReducedCostBounds) (isInteger : ℕ → Bool) (incumbentObjective : WithTop ℚ)
    (bounds : Strengthened) : Replay :=
  (range r.numCols).foldl (replayStep isInteger incumbentObjective)
    ⟨bounds, r.lowerBounds, r.upperBounds, ⊥⟩

def updateBoundsFromNewIncumbent (r : ReducedCostBounds) (lp : LpProblem) (integerTol : ℚ)
    (reducedCosts : ℕ → ℚ) (relaxationObjective : ℚ) (incumbentObjective : WithTop ℚ)
    (isInteger : ℕ → Bool) (lower upper : ℕ → Option ℚ) : Strengthened × ReducedCostBounds :=
  let direct := strengthenIntegers r.numCols lp integerTol isInteger reducedCosts
    relaxationObjective incumbentObjective lower upper
  let s := r.replay isInteger incumbentObjective direct
  (s.bounds, { r with
    maxObjective := s.maxObjective
    lowerBounds := s.lowerBounds
    upperBounds := s.upperBounds })

end ReducedCostBounds

structure RootState where
  lp : LpProblem
  reducedCosts : ℕ → ℚ
  relaxationObjective : ℚ
  bounds : ReducedCostBounds
  lastUpperBound : WithTop ℚ
  incumbents : List (WithTop ℚ)

namespace RootState

variable (integerTol : ℚ) (isInteger : ℕ → Bool)

def solve (s : RootState) (reducedCosts : ℕ → ℚ) (relaxationObjective : ℚ) (basic : ℕ → Bool) :
    RootState :=
  { s with
    reducedCosts := reducedCosts
    relaxationObjective := relaxationObjective
    bounds := s.bounds.updateReducedCostBounds s.lp integerTol isInteger relaxationObjective
      reducedCosts basic }

/-- The call of `update_bounds_from_new_incumbent`. -/
def tighten (s : RootState) (upperBound : WithTop ℚ) : RootState :=
  let (new, bounds) := s.bounds.updateBoundsFromNewIncumbent s.lp integerTol s.reducedCosts
    s.relaxationObjective upperBound isInteger s.lp.lower s.lp.upper
  { s with
    lp := { s.lp with lower := new.lower, upper := new.upper }
    bounds := bounds
    lastUpperBound := upperBound
    incumbents := upperBound :: s.incumbents }

def gate (s : RootState) (upperBound : WithTop ℚ) : Bool :=
  upperBound < s.lastUpperBound || match s.bounds.maxObjective with
    | ⊥ => false
    | (maxObjective : ℚ) => upperBound ≤ maxObjective

end RootState

end CuOpt.BranchAndBound
