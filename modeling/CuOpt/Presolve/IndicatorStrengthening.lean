import CuOpt.Library.CountingScatter
import CuOpt.Presolve.Gf2Presolve

/-! Strengthening of rows over indicators: a row that pays for a head with members gets a copy that
pays with their indicators, and a capacity row whose members share an indicator is lifted by it. -/

namespace CuOpt.Presolve

open SparseList CountingScatter

structure ConstraintRow where
  coefficients : List (ℕ × ℚ)
  lhs : ℚ
  rhs : ℚ
  lhsInf : Bool
  rhsInf : Bool

def ConstraintRow.Holds (row : ConstraintRow) (x : ℕ → ℚ) : Prop :=
  (row.lhsInf = false → row.lhs ≤ dot row.coefficients x) ∧
    (row.rhsInf = false → dot row.coefficients x ≤ row.rhs)

structure IndicatorProblem where
  numCols : ℕ
  domains : ℕ → Domain
  rows : List ConstraintRow
  constraintNames : List String

structure Triplet where
  row : ℕ
  col : ℕ
  val : ℚ
  deriving DecidableEq

def Triplet.Before (a b : Triplet) : Prop := a.row < b.row ∨ a.row = b.row ∧ a.col < b.col

namespace ConstraintRow

variable (row : ConstraintRow)

def orientation : ℤ :=
  if row.lhsInf = row.rhsInf then 0 else if row.lhsInf then 1 else -1

def side : ℚ := if row.orientation = 1 then row.rhs else row.lhs

end ConstraintRow

namespace IndicatorProblem

variable (p : IndicatorProblem)

def isBinary (j : ℕ) : Bool :=
  (p.domains j).integral && !((p.domains j).lbInf || (p.domains j).ubInf) &&
    decide ((p.domains j).lower = 0) && decide ((p.domains j).upper = 1)

def variableUpperBound (row : ConstraintRow) : Option (ℕ × ℕ) :=
  if row.orientation = 0 then none
  else
    match row.coefficients with
    | [(j₀, a₀), (j₁, a₁)] =>
      if row.side ≠ 0 then none
      else if !p.isBinary j₀ || !p.isBinary j₁ then none
      else if row.orientation * a₀ = 1 ∧ row.orientation * a₁ = -1 then some (j₀, j₁)
      else if row.orientation * a₀ = -1 ∧ row.orientation * a₁ = 1 then some (j₁, j₀)
      else none
    | _ => none

def variableUpperBounds : List (ℕ × ℕ) := p.rows.filterMap p.variableUpperBound

def variableUpperBoundOffsets : List ℕ := offsets p.numCols Prod.fst p.variableUpperBounds

def variableUpperBoundIndicators : List ℕ :=
  scatterAscending p.numCols Prod.fst Prod.snd 0 p.variableUpperBounds

def indicatorsOf (j : ℕ) : List ℕ :=
  slice p.variableUpperBoundIndicators (p.variableUpperBoundOffsets.getD j 0)
    (p.variableUpperBoundOffsets.getD (j + 1) 0)

/-- The entries of a row read so far; `mark` has the last row that a column is an indicator of. -/
structure DisjunctionScan where
  head : Option ℕ
  usable : Bool
  indicators : List ℕ
  mark : ℕ → Option ℕ

/-- The head is the entry of coefficient one, and each member gives its first indicator, or itself. -/
def scanEntry (row : ℕ) (direction : ℤ) (numMembers : ℕ) (s : DisjunctionScan) (q : ℕ × ℚ) :
    DisjunctionScan :=
  if !s.usable then s
  else if !p.isBinary q.1 then { s with usable := false }
  else if direction * q.2 = 1 then { s with usable := s.head.isNone, head := some q.1 }
  else if direction * q.2 = -1 then
    let z := (p.indicatorsOf q.1).headD q.1
    if s.mark z ≠ some row then
      { s with
        mark := Function.update s.mark z (some row)
        indicators := s.indicators ++ [z]
        -- without a shared indicator the relaxation implies the new row
        usable := decide ((s.indicators ++ [z]).length < numMembers) }
    else s
  else { s with usable := false }

def scanRow (row : ℕ) (r : ConstraintRow) (mark : ℕ → Option ℕ) : DisjunctionScan :=
  r.coefficients.foldl (p.scanEntry row r.orientation (r.coefficients.length - 1))
    ⟨none, true, [], mark⟩

def impliedEntries (impliedRow head : ℕ) (indicators : List ℕ) : List Triplet :=
  let sorted := indicators.insertionSort (· ≤ ·)
  (sorted.takeWhile (· < head)).map (fun z => ⟨impliedRow, z, -1⟩) ++ [⟨impliedRow, head, 1⟩] ++
    (sorted.dropWhile (· < head)).map fun z => ⟨impliedRow, z, -1⟩

structure ImpliedState where
  mark : ℕ → Option ℕ
  numImplied : ℕ
  entries : List Triplet

def implyRow (s : ImpliedState) (q : ConstraintRow × ℕ) : ImpliedState :=
  let (r, row) := q
  if r.orientation = 0 ∨ r.coefficients.length < 3 then s
  else if r.side ≠ 0 then s
  else
    let scan := p.scanRow row r s.mark
    match scan.head with
    | none => { s with mark := scan.mark }
    | some head =>
      if !scan.usable || scan.mark head = some row then { s with mark := scan.mark }
      else
        { mark := scan.mark
          numImplied := s.numImplied + 1
          entries := s.entries ++
            impliedEntries (p.rows.length + s.numImplied) head scan.indicators }

def addImpliedIndicatorRows : ImpliedState :=
  p.rows.zipIdx.foldl p.implyRow ⟨fun _ => none, 0, []⟩

structure CapacityScan where
  members : List ℕ
  pivot : Option ℕ
  usable : Bool

/-- The integral entries are members, and the pivot is the one with the fewest indicators. -/
def scanCapacity (direction : ℤ) (s : CapacityScan) (q : ℕ × ℚ) : CapacityScan :=
  if !s.usable then s
  else if (p.domains q.1).integral then
    if p.isBinary q.1 && decide (direction * q.2 = 1) &&
        decide (0 < (p.indicatorsOf q.1).length) then
      { s with
        members := s.members ++ [q.1]
        pivot :=
          match s.pivot with
          | none => some q.1
          | some pivot =>
            if (p.indicatorsOf q.1).length < (p.indicatorsOf pivot).length then some q.1
            else some pivot }
    else { s with usable := false }
  else
    { s with usable := decide (direction * q.2 < 0) && !(p.domains q.1).lbInf &&
        decide (0 ≤ (p.domains q.1).lower) }

def liftRow (q : ConstraintRow × ℕ) : Option Triplet :=
  let (r, row) := q
  if r.orientation = 0 then none
  else
    let capacity := r.orientation * r.side
    if capacity ≤ 0 then none
    else
      let scan := r.coefficients.foldl (p.scanCapacity r.orientation) ⟨[], none, true⟩
      if !scan.usable || decide (scan.members.length < 2) then none
      else if (scan.members.length : ℚ) ≤ capacity then none
      else
        match scan.pivot with
        | none => none
        | some pivot =>
          match (p.indicatorsOf pivot).find? fun z =>
              scan.members.all fun k => k = pivot || (p.indicatorsOf k).contains z with
          | none => none
          | some indicator => some ⟨row, indicator, r.orientation * -capacity⟩

def findLiftCapacityRows : List Triplet := p.rows.zipIdx.filterMap p.liftRow

def insertLifted (row : ℕ) (coefficients : List (ℕ × ℚ)) (lifted : Triplet) : List Triplet :=
  (coefficients.takeWhile fun q => q.1 < lifted.col).map (fun q => ⟨row, q.1, q.2⟩) ++ [lifted] ++
    (coefficients.dropWhile fun q => q.1 < lifted.col).map fun q => ⟨row, q.1, q.2⟩

/-- One row of the loop that rebuilds the matrix; the lifted entries not reached yet go along. -/
def rebuildRow (s : List Triplet × List Triplet) (q : ConstraintRow × ℕ) :
    List Triplet × List Triplet :=
  match s.2 with
  | lifted :: rest =>
    if lifted.row = q.2 then (s.1 ++ insertLifted q.2 q.1.coefficients lifted, rest)
    else (s.1 ++ q.1.coefficients.map fun e => ⟨q.2, e.1, e.2⟩, s.2)
  | [] => (s.1 ++ q.1.coefficients.map fun e => ⟨q.2, e.1, e.2⟩, s.2)

def strengthenedEntries : List Triplet :=
  (p.rows.zipIdx.foldl rebuildRow ([], p.findLiftCapacityRows)).1 ++
    p.addImpliedIndicatorRows.entries

def liftedSides (lifted : List Triplet) : List ConstraintRow :=
  lifted.foldl (fun rows entry => rows.modify entry.row fun r =>
    if r.orientation = 1 then { r with rhs := 0 } else { r with lhs := 0 }) p.rows

def impliedSides : ConstraintRow := ⟨[], 0, 0, true, false⟩

def setConstraintMatrix (entries : List Triplet) (sides : List ConstraintRow) :
    List ConstraintRow :=
  sides.mapIdx fun row r => { r with
    coefficients := (entries.filter fun e => e.row = row).map fun e => (e.col, e.val) }

def strengthenIndicators : IndicatorProblem :=
  if p.variableUpperBounds.isEmpty then p
  else
    let implied := p.addImpliedIndicatorRows
    let lifted := p.findLiftCapacityRows
    if implied.numImplied = 0 && lifted.isEmpty then p
    else
      { p with
        rows := setConstraintMatrix p.strengthenedEntries
          (p.liftedSides lifted ++ List.replicate implied.numImplied impliedSides)
        constraintNames :=
          if p.constraintNames.isEmpty then []
          else p.constraintNames ++
            (List.range implied.numImplied).map fun k => "implied_indicator_" ++ toString k }

def InDomains (x : ℕ → ℚ) : Prop := ∀ j < p.numCols, (p.domains j).Contains (x j)

def Feasible (x : ℕ → ℚ) : Prop := p.InDomains x ∧ ∀ row ∈ p.rows, row.Holds x

def WellFormed : Prop :=
  ∀ row ∈ p.rows, (keys row.coefficients).Pairwise (· < ·) ∧
    ∀ j ∈ keys row.coefficients, j < p.numCols

instance : Decidable p.WellFormed := inferInstanceAs (Decidable (∀ row ∈ p.rows,
  (keys row.coefficients).Pairwise (· < ·) ∧ ∀ j ∈ keys row.coefficients, j < p.numCols))

end IndicatorProblem

end CuOpt.Presolve
