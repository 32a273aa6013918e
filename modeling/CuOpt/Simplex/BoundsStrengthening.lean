import CuOpt.Cuts.Inequality
import CuOpt.Library.ExtendedBounds
import CuOpt.Simplex.Convert

/-! `bounds_strengthening_t`: rounds of bound propagation over the rows whose columns changed, with
integer rounding. -/

namespace CuOpt.Simplex

open SparseList Activities Activities.Extended
open CuOpt.Cuts (VariableType)
open List (range)

def updateLb (currLb : Extended ℚ) (coeff : ℚ) (deltaMinAct deltaMaxAct : Extended ℚ) : Extended ℚ :=
  stdMax currLb (if coeff < 0 then div deltaMinAct coeff else div deltaMaxAct coeff)

def updateUb (currUb : Extended ℚ) (coeff : ℚ) (deltaMinAct deltaMaxAct : Extended ℚ) : Extended ℚ :=
  stdMin currUb (if coeff < 0 then div deltaMaxAct coeff else div deltaMinAct coeff)

def checkInfeasibility (minA maxA cnstLb cnstUb : Extended ℚ) (eps : ℚ) : Bool :=
  lt (add cnstUb (finite eps)) minA || lt maxA (sub cnstLb (finite eps))

/-- The members of the class that its constructor sets; no `varTypes` is the empty vector, for which
every column is continuous. -/
structure BoundsStrengthening where
  A : CscMatrix
  Arow : CsrMatrix
  varTypes : Option (ℕ → VariableType)
  constraintLb : ℕ → Extended ℚ
  constraintUb : ℕ → Extended ℚ

def senseOf (rowSense : Option (ℕ → RowSense)) (i : ℕ) : RowSense :=
  rowSense.elim .E fun sense => sense i

def BoundsStrengthening.make (problem : LpProblem) (Arow : CsrMatrix)
    (rowSense : Option (ℕ → RowSense)) (varTypes : Option (ℕ → VariableType)) :
    BoundsStrengthening where
  A := problem.A
  Arow := Arow
  varTypes := varTypes
  constraintLb := fun i =>
    match senseOf rowSense i with
    | .E => finite (problem.rhs i)
    | .L => negInf
    | .G => finite (problem.rhs i)
  constraintUb := fun i =>
    match senseOf rowSense i with
    | .E => finite (problem.rhs i)
    | .L => finite (problem.rhs i)
    | .G => posInf

structure Box where
  lower : List (Extended ℚ)
  upper : List (Extended ℚ)
  deriving DecidableEq

def Box.lb (box : Box) (j : ℕ) : Extended ℚ := box.lower.getD j nan

def Box.ub (box : Box) (j : ℕ) : Extended ℚ := box.upper.getD j nan

def minActivityStep (lower upper : ℕ → Extended ℚ) (minA : Extended ℚ) (p : ℕ × ℚ) : Extended ℚ :=
  let minA :=
    if 0 < p.2 then add minA (scale p.2 (lower p.1))
    else if p.2 < 0 then add minA (scale p.2 (upper p.1))
    else minA
  let minA := if lower p.1 = negInf ∧ 0 < p.2 then negInf else minA
  if upper p.1 = posInf ∧ p.2 < 0 then negInf else minA

def maxActivityStep (lower upper : ℕ → Extended ℚ) (maxA : Extended ℚ) (p : ℕ × ℚ) : Extended ℚ :=
  let maxA :=
    if 0 < p.2 then add maxA (scale p.2 (upper p.1))
    else if p.2 < 0 then add maxA (scale p.2 (lower p.1))
    else maxA
  let maxA := if upper p.1 = posInf ∧ 0 < p.2 then posInf else maxA
  if lower p.1 = negInf ∧ p.2 < 0 then posInf else maxA

def minActivity (lower upper : ℕ → Extended ℚ) (row : List (ℕ × ℚ)) : Extended ℚ :=
  row.foldl (minActivityStep lower upper) (finite 0)

def maxActivity (lower upper : ℕ → Extended ℚ) (row : List (ℕ × ℚ)) : Extended ℚ :=
  row.foldl (maxActivityStep lower upper) (finite 0)

structure StrengtheningSettings where
  primalTol : ℚ
  integerTol : ℚ

structure StrengtheningState where
  box : Box
  deltas : List (Extended ℚ × Extended ℚ)
  constraintChanged : List Bool

structure ColumnUpdate where
  lower : Extended ℚ
  upper : Extended ℚ
  changed : Bool
  boundsUpdated : Bool
  infeasible : Bool

namespace BoundsStrengthening

variable (b : BoundsStrengthening) (settings : StrengtheningSettings)

def rowInfeasible (box : Box) (i : ℕ) : Bool :=
  checkInfeasibility (minActivity box.lb box.ub (b.Arow.row i))
    (maxActivity box.lb box.ub (b.Arow.row i)) (b.constraintLb i) (b.constraintUb i)
    settings.primalTol

def rowDelta (box : Box) (i : ℕ) : Extended ℚ × Extended ℚ :=
  (sub (b.constraintUb i) (minActivity box.lb box.ub (b.Arow.row i)),
    sub (b.constraintLb i) (maxActivity box.lb box.ub (b.Arow.row i)))

/-- The bounds of one column after the entry `p` of it; the terms of its old bounds leave the
activities of the row. -/
def entryUpdate (constraintChanged : List Bool) (deltas : List (Extended ℚ × Extended ℚ))
    (oldLb oldUb : Extended ℚ) (new : Extended ℚ × Extended ℚ) (p : ℕ × ℚ) :
    Extended ℚ × Extended ℚ :=
  if constraintChanged.getD p.1 false then
    let delta := deltas.getD p.1 (nan, nan)
    let deltaMinAct := add delta.1 (if p.2 < 0 then scale p.2 oldUb else scale p.2 oldLb)
    let deltaMaxAct := add delta.2 (if 0 < p.2 then scale p.2 oldUb else scale p.2 oldLb)
    (stdMax new.1 (updateLb oldLb p.2 deltaMinAct deltaMaxAct),
      stdMin new.2 (updateUb oldUb p.2 deltaMinAct deltaMaxAct))
  else new

def isInteger (k : ℕ) : Bool :=
  match b.varTypes with
  | none => false
  | some varTypes => varTypes k = .integer || varTypes k = .binary

def roundBounds (k : ℕ) (new : Extended ℚ × Extended ℚ) : Extended ℚ × Extended ℚ :=
  if b.isInteger k then
    (mapFinite (fun v => (⌈v⌉ : ℚ)) (sub new.1 (finite settings.integerTol)),
      mapFinite (fun v => (⌊v⌋ : ℚ)) (add new.2 (finite settings.integerTol)))
  else new

/-- `original` are the bounds that were passed in, `s` the state after the rows of the round. -/
def strengthenColumn (original : Box) (s : StrengtheningState) (k : ℕ) : ColumnUpdate :=
  let oldLb := s.box.lb k
  let oldUb := s.box.ub k
  let new := (b.A.col k).foldl (entryUpdate s.constraintChanged s.deltas oldLb oldUb) (oldLb, oldUb)
  let new := b.roundBounds settings k new
  let lbUpdated := lt (finite (1000 * settings.primalTol)) (Extended.abs (sub new.1 oldLb))
  let ubUpdated := lt (finite (1000 * settings.primalTol)) (Extended.abs (sub new.2 oldUb))
  let newLb := stdMax new.1 (original.lb k)
  let newUb := stdMin new.2 (original.ub k)
  { lower := stdMin newLb newUb
    upper := stdMax newLb newUb
    changed := newLb ≠ oldLb || newUb ≠ oldUb
    boundsUpdated := lbUpdated || ubUpdated
    infeasible := lt (add newUb (finite settings.primalTol)) newLb }

def variableChanged (constraintChanged : List Bool) (k : ℕ) : Bool :=
  (range b.A.m).any fun i =>
    constraintChanged.getD i false && (keys (b.Arow.row i)).contains k

def columnUpdate (original : Box) (s : StrengtheningState) (k : ℕ) : ColumnUpdate :=
  if b.variableChanged s.constraintChanged k then b.strengthenColumn settings original s k
  else ⟨s.box.lb k, s.box.ub k, false, false, false⟩

/-- A round and whether a bound moved far enough for another one; `none` is the return of false, at
the first row or column found infeasible. -/
def strengthenRound (original : Box) (s : StrengtheningState) : Option (StrengtheningState × Bool) :=
  if (range b.A.m).any fun i =>
      s.constraintChanged.getD i false && b.rowInfeasible settings s.box i then none
  else
    let s := { s with
      deltas := (range b.A.m).map fun i =>
        if s.constraintChanged.getD i false then b.rowDelta s.box i
        else s.deltas.getD i (nan, nan) }
    let updates := (range b.A.n).map (b.columnUpdate settings original s)
    if updates.any ColumnUpdate.infeasible then none
    else
      some ({ s with
        box := ⟨updates.map ColumnUpdate.lower, updates.map ColumnUpdate.upper⟩
        constraintChanged := (range b.A.m).map fun i =>
          (range b.A.n).any fun k =>
            ((updates.map ColumnUpdate.changed).getD k false) && (keys (b.A.col k)).contains i },
        updates.any ColumnUpdate.boundsUpdated)

def strengthenRounds (original : Box) : ℕ → StrengtheningState → Option StrengtheningState
  | 0, s => some s
  | limit + 1, s =>
    match b.strengthenRound settings original s with
    | none => none
    | some (s, again) => if again then strengthenRounds original limit s else some s

def initiallyChanged (boundsChanged : Option (ℕ → Bool)) : List Bool :=
  match boundsChanged with
  | none => List.replicate b.A.m true
  | some changed => (range b.A.m).map fun i =>
    (range b.A.n).any fun j => changed j && (keys (b.A.col j)).contains i

def iterLimit : ℕ := 10

def boundsWithin (limit : ℕ) (boundsChanged : Option (ℕ → Bool)) (bounds : Box) : Option Box :=
  (b.strengthenRounds settings bounds limit
    ⟨bounds, List.replicate b.A.m (nan, nan), b.initiallyChanged boundsChanged⟩).map
      StrengtheningState.box

def boundsStrengthening (boundsChanged : Option (ℕ → Bool)) (bounds : Box) : Option Box :=
  b.boundsWithin settings iterLimit boundsChanged bounds

end BoundsStrengthening

def resizedTypes (user : UserProblem) (varTypes : ℕ → VariableType) (j : ℕ) : VariableType :=
  if j < user.numCols then varTypes j else .continuous

end CuOpt.Simplex
