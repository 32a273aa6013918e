import CuOpt.Cuts.Rational

/-! The lattice of each variable: a step that its values are multiples of, found from the steps of the
other variables of a row, in rationals of two 64-bit integers. -/

namespace CuOpt.Cuts

open WrappingInt
open List (range)
open Function (update)

structure Rational128 where
  p : ℤ
  q : ℤ
  deriving DecidableEq

namespace Rational128

def zero : Rational128 := ⟨0, 1⟩

def isZero (a : Rational128) : Bool := decide (a.p = 0)

def safeFromFloatingPoint (x : ℚ) : Rational128 :=
  match rationalApproximation x 10000000 with
  | (some (num, den), true) => if den ≤ 0 then zero else ⟨num, den⟩
  | _ => zero

def toFloatingPoint (a : Rational128) : ℚ := a.p / a.q

/-- `std::abs`, which does not change `-2 ^ 63`. -/
def abs64 (z : ℤ) : ℤ := wrap |z|

def reduced (a : Rational128) : Rational128 :=
  if a.p = 0 then zero
  else
    let g := gcd64 (abs64 a.p) a.q
    ⟨a.p.tdiv g, a.q.tdiv g⟩

def mulNumerator (a o : Rational128) : ℤ :=
  a.p.tdiv (gcd64 (abs64 a.p) o.q) * o.p.tdiv (gcd64 (abs64 o.p) a.q)

def mulDenominator (a o : Rational128) : ℤ :=
  a.q.tdiv (gcd64 (abs64 o.p) a.q) * o.q.tdiv (gcd64 (abs64 a.p) o.q)

def mul (a o : Rational128) : Rational128 := ⟨wrap (mulNumerator a o), wrap (mulDenominator a o)⟩

def inverse (o : Rational128) : Rational128 := if 0 < o.p then ⟨o.q, o.p⟩ else ⟨wrap (-o.q), wrap (-o.p)⟩

def div (a o : Rational128) : Rational128 := if o.p = 0 then zero else mul a (inverse o)

def abs (a : Rational128) : Rational128 := ⟨abs64 a.p, a.q⟩

def gcdPositive (a b : Rational128) : Rational128 :=
  let num := gcd64 (wrap (a.p * b.q)) (wrap (b.p * a.q))
  let den := wrap (a.q * b.q)
  let g := gcd64 num den
  ⟨num.tdiv g, den.tdiv g⟩

def gcd (a b : Rational128) : Rational128 :=
  if a.isZero then b.abs else if b.isZero then a.abs else gcdPositive a.abs b.abs

end Rational128

open Rational128

structure StepCall where
  row : List (ℕ × Rational128)
  solveFor : ℕ
  steps : ℕ → Rational128

namespace StepCall

/-- The coefficient of the variable and the common divisor so far; `none` after an overflow. -/
def accumulate (c : StepCall) (st : Option (Rational128 × Rational128)) (e : ℕ × Rational128) :
    Option (Rational128 × Rational128) :=
  match st with
  | none => none
  | some (aUnknown, stepSum) =>
    if e.1 = c.solveFor then some (e.2, stepSum)
    else if (c.steps e.1).isZero then some (aUnknown, stepSum)
    else
      let stepSum := gcd stepSum (mul e.2 (c.steps e.1)).abs
      if stepSum.q ≤ 0 then none else some (aUnknown, stepSum)

def computeStep (c : StepCall) : Rational128 :=
  match c.row.foldl c.accumulate (some (zero, zero)) with
  | none => zero
  | some (aUnknown, stepSum) =>
    if aUnknown.isZero then zero
    else
      let result := div stepSum aUnknown.abs
      if result.q ≤ 0 then zero else result

def gives (c : StepCall) : Bool := !c.computeStep.isZero && decide (0 < c.computeStep.q)

end StepCall

/-- `none` is an infinite side. -/
structure LatticeProblem where
  numVars : ℕ
  rows : List (List (ℕ × ℚ))
  conLb : ℕ → Option ℚ
  conUb : ℕ → Option ℚ
  knownInitially : ℕ → Bool
  objCoefs : ℕ → ℚ

structure LatticeState where
  steps : ℕ → Rational128
  unknownCount : ℕ → ℤ
  anyDiscovered : Bool

namespace LatticeProblem

variable (d : LatticeProblem)

def row (i : ℕ) : List (ℕ × ℚ) := d.rows.getD i []

def coefRow (i : ℕ) : List (ℕ × Rational128) := (d.row i).map fun e => (e.1, safeFromFloatingPoint e.2)

def hasBadCoef (i : ℕ) : Bool :=
  (d.row i).any fun e => (safeFromFloatingPoint e.2).isZero && decide (e.2 ≠ 0)

def isEquality (i : ℕ) : Bool :=
  !d.hasBadCoef i && match d.conLb i, d.conUb i with
    | some lb, some ub => decide (|lb - ub| < 1 / 10 ^ 8)
    | _, _ => false

def column (j : ℕ) : List ℕ :=
  (range d.rows.length).flatMap fun i => ((d.row i).filter fun e => decide (e.1 = j)).map fun _ => i

def start : LatticeState where
  steps j := if d.knownInitially j then ⟨1, 1⟩ else zero
  unknownCount i := (d.row i).countP fun e => !d.knownInitially e.1
  anyDiscovered := false

def rowCall (st : LatticeState) (i : ℕ) : Option StepCall :=
  if st.unknownCount i ≠ 1 then none
  else (((d.row i).map Prod.fst).find? fun j => (st.steps j).isZero).map fun j => ⟨d.coefRow i, j, st.steps⟩

def assignStep (st : LatticeState) (j : ℕ) (newStep : Rational128) : LatticeState where
  steps := update st.steps j newStep.reduced
  unknownCount := (d.column j).foldl (fun count i => update count i (count i - 1)) st.unknownCount
  anyDiscovered := true

def processRow (st : LatticeState × List ℕ) (i : ℕ) : LatticeState × List ℕ :=
  match d.rowCall st.1 i with
  | none => st
  | some c =>
    if c.gives then (d.assignStep st.1 c.solveFor c.computeStep, st.2 ++ [c.solveFor]) else st

/-- By the number of unknown entries, ascending. -/
def sortChanged (st : LatticeState) (changed : List ℕ) : List ℕ :=
  changed.insertionSort fun i i' => st.unknownCount i ≤ st.unknownCount i'

def nextChanged (discovered : List ℕ) : List ℕ :=
  ((discovered.flatMap d.column).filter d.isEquality).foldl
    (fun next i => if i ∈ next then next else next ++ [i]) []

/-- The state and the worklist that is left. -/
def equalityPasses : ℕ → LatticeState → List ℕ → LatticeState × List ℕ
  | 0, st, changed => (st, changed)
  | passes + 1, st, changed =>
    if changed = [] then (st, [])
    else
      let (st', discovered) := (sortChanged st changed).foldl d.processRow (st, [])
      equalityPasses passes st' (d.nextChanged discovered)

def maxPasses : ℕ := (d.rows.map List.length).sum + 2

def equalityRows : List ℕ := (range d.rows.length).filter d.isEquality

def afterEqualities : LatticeState := (d.equalityPasses d.maxPasses d.start d.equalityRows).1

def unknownObjective (st : LatticeState) : List ℕ :=
  (range d.numVars).filter fun j => decide (d.objCoefs j ≠ 0) && (st.steps j).isZero

def qualifies (st : LatticeState) (objVar i : ℕ) : Bool :=
  let coef := (((d.row i).find? fun e => decide (e.1 = objVar)).map Prod.snd).getD 0
  !d.isEquality i && !d.hasBadCoef i && decide (st.unknownCount i = 1) &&
    ((d.conUb i).isSome && decide (coef * d.objCoefs objVar < 0) ||
      (d.conLb i).isSome && decide (0 < coef * d.objCoefs objVar))

def inequalityCalls (st : LatticeState) (objVar : ℕ) : List StepCall :=
  ((d.column objVar).filter (d.qualifies st objVar)).map fun i => ⟨d.coefRow i, objVar, st.steps⟩

end LatticeProblem

def negligible (a : Rational128) : Bool :=
  decide (a.q < 0) || (decide (a.q ≠ 0) && decide (|a.toFloatingPoint| < 1 / 10 ^ 10))

def combineSteps : List StepCall → Option Rational128 → Option Rational128
  | [], combined => combined
  | c :: calls, combined =>
    if !c.gives then combineSteps calls combined
    else
      match combined with
      | none => combineSteps calls (some c.computeStep)
      | some s =>
        if negligible (gcd s c.computeStep) then none else combineSteps calls (some (gcd s c.computeStep))

namespace LatticeProblem

variable (d : LatticeProblem)

def propagateInequalities (st : LatticeState) : LatticeState :=
  match d.unknownObjective st with
  | [objVar] =>
    match combineSteps (d.inequalityCalls st objVar) none with
    | some combined =>
      if combined.isZero then st
      else { st with steps := update st.steps objVar combined.reduced, anyDiscovered := true }
    | none => st
  | _ => st

def propagateSteps : LatticeState := d.propagateInequalities d.afterEqualities

def propagateLattice : (ℕ → ℚ) × Bool :=
  (fun j => if (d.propagateSteps.steps j).isZero then 0 else (d.propagateSteps.steps j).toFloatingPoint,
    d.propagateSteps.anyDiscovered)

end LatticeProblem

end CuOpt.Cuts
