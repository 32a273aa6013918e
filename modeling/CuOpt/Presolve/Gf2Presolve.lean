import CuOpt.Cuts.ConflictCuts
import CuOpt.Presolve.Gf2Solve

/-! The presolver of parity rows: rows of binary columns and one key column of coefficient two become
a system over two elements, whose determined columns are fixed, and the keys after them. -/

namespace CuOpt.Presolve

open SparseList Cuts

structure Num where
  epsilon : ℚ
  feasTol : ℚ
  epsilon_nonneg : 0 ≤ epsilon
  feasTol_nonneg : 0 ≤ feasTol
  epsilon_lt : epsilon < 1

def Num.isEq (num : Num) (a b : ℚ) : Bool := decide (|a - b| ≤ num.epsilon)

def Num.isZero (num : Num) (a : ℚ) : Bool := decide (|a| ≤ num.epsilon)

def Num.isInteger (num : Num) (value : ℚ) : Bool :=
  decide (|value - stdRound value| ≤ num.feasTol)

structure Domain where
  lower : ℚ
  upper : ℚ
  lbInf : Bool
  ubInf : Bool
  integral : Bool

def Domain.Contains (d : Domain) (v : ℚ) : Prop :=
  (d.lbInf = false → d.lower ≤ v) ∧ (d.ubInf = false → v ≤ d.upper) ∧
    (d.integral = true → ∃ k : ℤ, v = k)

structure RowActivity where
  min : ℚ
  max : ℚ
  ninfmin : ℕ
  ninfmax : ℕ

structure PapiloRow where
  coefficients : List (ℕ × ℚ)
  lhs : ℚ
  rhs : ℚ
  equation : Bool
  lhsInf : Bool
  rhsInf : Bool
  redundant : Bool
  activity : RowActivity

def PapiloRow.Holds (row : PapiloRow) (x : ℕ → ℚ) : Prop :=
  (row.lhsInf = false → row.lhs ≤ dot row.coefficients x) ∧
    (row.rhsInf = false → dot row.coefficients x ≤ row.rhs)

structure PapiloProblem where
  rows : List PapiloRow
  domains : ℕ → Domain
  nodup : ∀ row ∈ rows, (keys row.coefficients).Nodup
  equation : ∀ row ∈ rows, row.equation = true →
    row.lhsInf = false ∧ row.rhsInf = false ∧ row.lhs = row.rhs
  activity_min : ∀ row ∈ rows, row.activity.ninfmin = 0 →
    ∀ x : ℕ → ℚ, (∀ j, (domains j).Contains (x j)) → row.activity.min ≤ dot row.coefficients x
  activity_max : ∀ row ∈ rows, row.activity.ninfmax = 0 →
    ∀ x : ℕ → ℚ, (∀ j, (domains j).Contains (x j)) → dot row.coefficients x ≤ row.activity.max

def PapiloProblem.InDomains (p : PapiloProblem) (x : ℕ → ℚ) : Prop :=
  ∀ j, (p.domains j).Contains (x j)

def PapiloProblem.Feasible (p : PapiloProblem) (x : ℕ → ℚ) : Prop :=
  p.InDomains x ∧ ∀ row ∈ p.rows, row.Holds x

def positiveModulo (i n : ℤ) : ℤ := (i.tmod n + n).tmod n

def pinnedRowValue (num : Num) (row : PapiloRow) : Option ℚ :=
  if row.equation then some row.lhs
  else if !row.rhsInf ∧ row.activity.ninfmin = 0 ∧ num.isEq row.activity.min row.rhs then
    some row.rhs
  else if !row.lhsInf ∧ row.activity.ninfmax = 0 ∧ num.isEq row.activity.max row.lhs then
    some row.lhs
  else none

def gf2MaxRowValue : ℚ := 2 ^ 24

structure Gf2Constraint where
  cstrIdx : ℕ
  binVars : List (ℕ × ℤ)
  keyVar : ℕ × ℤ
  rhs : ℤ

def isBinary (d : Domain) : Bool :=
  if d.lbInf then false else if d.ubInf then false else d.lower == 0 && d.upper == 1

/-- One coefficient of a row; `none` is not a parity row. -/
def scanCoefficient (num : Num) (domains : ℕ → Domain) (st : Option (ℕ × ℤ) × List (ℕ × ℤ))
    (entry : ℕ × ℚ) : Option (Option (ℕ × ℤ) × List (ℕ × ℤ)) :=
  let coeff := stdRound entry.2
  if !num.isInteger entry.2 then none
  else if !(domains entry.1).integral then none
  else if isBinary (domains entry.1) ∧ |coeff| ≠ 1 ∧ |coeff| ≠ 2 then none
  else if !isBinary (domains entry.1) ∧ |coeff| ≠ 2 then none
  else if |coeff| = 2 then
    if st.1.isSome then none else some (some (entry.1, coeff), st.2)
  else some (st.1, st.2 ++ [(entry.1, coeff)])

def scanRow (num : Num) (domains : ℕ → Domain) (row : PapiloRow) (cstrIdx : ℕ) :
    Option Gf2Constraint :=
  if row.redundant then none
  else
    (pinnedRowValue num row).bind fun rowValue =>
      if !num.isInteger rowValue then none
      else if gf2MaxRowValue < |rowValue| then none
      else
        (row.coefficients.foldlM (scanCoefficient num domains) (none, [])).bind fun st =>
          st.1.map fun keyVar => ⟨cstrIdx, st.2, keyVar, stdRound rowValue⟩

/-- The columns in the order of their first insertion: a column's index is its position. -/
def insertAll (vars : List ℕ) : List ℕ :=
  vars.foldl (fun m v => if v ∈ m then m else m ++ [v]) []

section Execute

variable (num : Num) (p : PapiloProblem)

def gf2Constraints : List Gf2Constraint :=
  p.rows.zipIdx.filterMap fun row => scanRow num p.domains row.1 row.2

def gf2KeyVars : List ℕ := insertAll ((gf2Constraints num p).map fun cons => cons.keyVar.1)

def gf2BinVars : List ℕ :=
  insertAll ((gf2Constraints num p).flatMap fun cons => keys cons.binVars)

def gf2Row (binVars : List ℕ) (cons : Gf2Constraint) : List (BitVec 64) :=
  cons.binVars.foldl (fun row v => gf2SetBit row (binVars.idxOf v.1))
    (Bitset.empty (gf2NWords binVars.length))

def setFixing (fixings : List (ℕ × ℤ)) (v : ℕ) (value : ℤ) : List (ℕ × ℤ) :=
  (v, value) :: fixings.filter fun f => f.1 ≠ v

def binFixings (binVars : List ℕ) (solution determined : List Bool) : List (ℕ × ℤ) :=
  (List.range binVars.length).foldl
    (fun fixings i =>
      if determined.getD i false then
        setFixing fixings (binVars.getD i 0) (if solution.getD i false then 1 else 0)
      else fixings)
    []

/-- `none` is infeasible. -/
def fixKey (binVars : List ℕ) (determined : List Bool) (fixings : List (ℕ × ℤ))
    (cons : Gf2Constraint) : Option (List (ℕ × ℤ)) :=
  if cons.binVars.any fun v => !determined.getD (binVars.idxOf v.1) false then some fixings
  else
    let lhs := cons.binVars.foldl (fun s v => s + (fixings.lookup v.1).getD 0 * v.2) (-cons.rhs)
    let keyVal := stdRound (-lhs / cons.keyVar.2)
    let d := p.domains cons.keyVar.1
    if !num.isEq (lhs + keyVal * cons.keyVar.2) 0 then none
    else if (fixings.lookup cons.keyVar.1).any fun f : ℤ => !num.isEq f keyVal then none
    else if !d.lbInf ∧ keyVal < d.lower - num.feasTol then none
    else if !d.ubInf ∧ keyVal > d.upper + num.feasTol then none
    else some (setFixing fixings cons.keyVar.1 keyVal)

inductive PresolveStatus where
  | unchanged
  | infeasible
  | reduced
deriving DecidableEq

def execute : PresolveStatus × List (ℕ × ℤ) :=
  let constraints := gf2Constraints num p
  let binVars := gf2BinVars num p
  if constraints = [] then (.unchanged, [])
  else if (gf2KeyVars num p).length ≠ constraints.length then (.unchanged, [])
  else if 1000 < constraints.length ∨ 1000 < binVars.length then (.unchanged, [])
  else
    let A := constraints.map (gf2Row binVars)
    let b := constraints.map fun cons => decide (positiveModulo cons.rhs 2 = 1)
    match gf2Solve A binVars.length b with
    | none => (.infeasible, [])
    | some (solution, determined) =>
      match constraints.foldlM (fixKey num p binVars determined)
          (binFixings binVars solution determined) with
      | none => (.infeasible, [])
      | some fixings =>
        if fixings = [] then (.unchanged, [])
        else (.reduced, fixings.map fun f => (f.1, if num.isZero f.2 then 0 else f.2))

end Execute

end CuOpt.Presolve
