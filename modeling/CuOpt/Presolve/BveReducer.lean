import CuOpt.Presolve.BveBlocks
import CuOpt.Presolve.BveCover
import CuOpt.Presolve.IntegerScaling

/-! The working model of a variable elimination: staging a block, selecting a batch of blocks over
disjoint columns, and committing them. -/

namespace CuOpt.Presolve

open Cuts BooleanCubes

def bveMaxBoundary : ℕ := 12
def bveMaxScope : ℕ := 16
def bveMaxInterior : ℕ := bveMaxScope - 1
def bveMaxRows : ℕ := 64
def bveMaxRowLen : ℕ := 24
def bveMaxNnz : ℕ := bveMaxRows * bveMaxRowLen
def bveMaxClauses : ℕ := 64
def bveIntScaleMax : ℤ := 10 ^ 6
def bveBatchProjectionBudget : ℕ := 10 ^ 8

structure WorkRow where
  terms : List (ℕ × ℚ)
  lo : Option ℚ
  up : Option ℚ
  active : Bool
  deriving DecidableEq

namespace WorkRow

def columns (R : WorkRow) : List ℕ := R.terms.map Prod.fst

def retire (R : WorkRow) : WorkRow := { R with active := false, terms := [] }

def missing : WorkRow := ⟨[], none, none, false⟩

end WorkRow

structure BveReduction where
  interior : List ℕ
  boundary : List ℕ
  witness : List ℕ
  deriving DecidableEq

structure BveReducer where
  nRowsOrig : ℕ
  boundaryCap : ℕ
  scopeCap : ℕ
  clauseGrowthMargin : ℕ
  rows : List WorkRow
  col2rows : ℕ → Finset ℕ
  isBin : ℕ → Bool
  done : ℕ → Bool
  reductions : List BveReduction
  coverScratch : BveCoverScratch

namespace BveReducer

def row (S : BveReducer) (r : ℕ) : WorkRow := S.rows.getD r WorkRow.missing

def scopeOf (S : BveReducer) (interior : List ℕ) : Finset ℕ × Finset ℕ :=
  let affectedRows := interior.toFinset.biUnion S.col2rows
  (affectedRows, (affectedRows.biUnion fun r => (S.row r).columns.toFinset) \ interior.toFinset)

def blockRowScale (row : BveRow) : Option ℚ := do
  let sides := (row.lo.toList ++ row.up.toList).filter scalingBoundFinite
  let vals := row.terms.map Prod.snd ++ sides
  let scale ← findScaling vals (10 ^ 12) bveIntScaleMax bveIntScaleMax intcheckTol
  if scale ≤ 0 then none
  else if 2 ^ 53 ≤ (vals.foldl (fun m v => max m |v * scale|) 0) * bveMaxRowLen then none
  else some scale

def scaleSide (s : ℚ) (b : ℚ) : ℚ := if scalingBoundFinite b then stdRound (b * s) else b

def integerizeRow (row : BveRow) : Option BveRow :=
  (blockRowScale row).map fun s =>
    ⟨row.terms.map fun p => (p.1, stdRound (p.2 * s)), row.lo.map (scaleSide s),
      row.up.map (scaleSide s)⟩

/-- The rows of the block over local columns, unless one is too long or they do not fit. -/
def gatherRows (S : BveReducer) (localIds : List ℕ) : ℕ → List ℕ → Option (List BveRow)
  | _, [] => some []
  | nzc, r :: rest =>
    let R := S.row r
    if bveMaxRowLen < R.terms.length ∨ bveMaxNnz < nzc + R.terms.length then none
    else (gatherRows S localIds (nzc + R.terms.length) rest).map fun later =>
      ⟨R.terms.map fun p => (localIds.idxOf p.1, p.2), R.lo, R.up⟩ :: later

def stage (S : BveReducer) (interiorIn : List ℕ) : Option BveCandidate :=
  let interior := interiorIn.insertionSort (· ≤ ·)
  let scope := S.scopeOf interior
  let affectedRows := scope.1.sort (· ≤ ·)
  let boundary := scope.2.sort (· ≤ ·)
  let nb := boundary.length
  let na := interior.length
  if nb = 0 ∨ S.boundaryCap < nb ∨ S.scopeCap < na + nb then none
  else if boundary.any fun v => !S.isBin v then none
  else if bveMaxInterior < na ∨ bveMaxBoundary < nb ∨ bveMaxScope < na + nb then none
  else if bveMaxRows < affectedRows.length then none
  else do
    let gathered ← S.gatherRows (interior ++ boundary) 0 affectedRows
    let rows ← gathered.mapM integerizeRow
    some ⟨interior, boundary, affectedRows, ⟨na, nb, rows⟩,
      ⟨List.replicate (2 ^ nb) false, List.replicate (2 ^ nb) 0, false⟩⟩

def projectCandidate (cand : BveCandidate) : BveCandidate :=
  { cand with projection := cand.blk.project }

def clauseRow (boundary : List ℕ) (nb : ℕ) (c : BveClause) : WorkRow :=
  let positions := (List.range nb).filter fun j => c.lit.testBit j
  { terms := positions.map fun j =>
      (boundary.getD j 0, if c.bit.testBit j then (-1 : ℚ) else 1)
    lo := some (1 - (positions.countP fun j => c.bit.testBit j : ℕ))
    up := none
    active := true }

def retireRow (S : BveReducer) (r : ℕ) : BveReducer :=
  let R := S.row r
  { S with
    col2rows := fun c => if c ∈ R.columns then (S.col2rows c).erase r else S.col2rows c
    rows := S.rows.modify r WorkRow.retire }

def addRow (S : BveReducer) (R : WorkRow) : BveReducer :=
  let id := S.rows.length
  { S with
    rows := S.rows ++ [R]
    col2rows := fun c => if c ∈ R.columns then insert id (S.col2rows c) else S.col2rows c }

def eliminate (S : BveReducer) (interior : List ℕ) : BveReducer :=
  { S with
    col2rows := fun c => if c ∈ interior then ∅ else S.col2rows c
    done := fun c => if c ∈ interior then true else S.done c }

/-- What `commit_projected` does with clauses that pass its gates. -/
def install (S : BveReducer) (cand : BveCandidate) (clauses : List BveClause) : BveReducer :=
  let recorded := { S with
    reductions := S.reductions ++ [⟨cand.interior, cand.boundary, cand.projection.witness⟩] }
  let retired := cand.rows.foldl retireRow recorded
  let added := clauses.foldl (fun S c => S.addRow (clauseRow cand.boundary cand.blk.nb c)) retired
  added.eliminate cand.interior

def commitProjected (S : BveReducer) (cand : BveCandidate) : BveReducer :=
  let nb := cand.blk.nb
  let cover := bveGreedyPrimeCover cand.admits nb bveMaxClauses S.coverScratch
  let S := { S with coverScratch := cover.2 }
  match cover.1 with
  | .clauses clauses =>
    if cand.blk.rows.length + S.clauseGrowthMargin < clauses.length then S
    else if !bveSanityCheck cand.admits nb clauses then S
    else S.install cand clauses
  | _ => S

/-- The commits of a projected batch; `none` when a block admits no boundary pattern, which abandons
the plan. -/
def commitLoop : BveReducer → List BveCandidate → Option BveReducer
  | S, [] => some S
  | S, cand :: rest => if cand.admitsNothing then none else commitLoop (S.commitProjected cand) rest

def scope (cand : BveCandidate) : List ℕ := cand.interior ++ cand.boundary

def projectionOps (cand : BveCandidate) : ℕ :=
  2 ^ (cand.blk.na + cand.blk.nb) * (cand.blk.rows.map fun row => row.terms.length).sum

def selectBatch (S : BveReducer) : List (List ℕ) → Finset ℕ → ℕ → List BveCandidate
  | [], _, _ => []
  | interior :: rest, claimed, ops =>
    match S.stage interior with
    | none => selectBatch S rest claimed ops
    | some cand =>
      if (scope cand).any fun c => decide (c ∈ claimed) then selectBatch S rest claimed ops
      else
        let total := ops + projectionOps cand
        cand :: if bveBatchProjectionBudget ≤ total then []
          else selectBatch S rest (claimed ∪ (scope cand).toFinset) total

def commitBatch (S : BveReducer) (cands : List BveCandidate) : Option BveReducer :=
  S.commitLoop (cands.map projectCandidate)

/-- Each interior staged, projected and committed before the next one is staged. -/
def commitOneByOne : BveReducer → List (List ℕ) → Option BveReducer
  | S, [] => some S
  | S, interior :: rest =>
    match S.stage interior with
    | none => commitOneByOne S rest
    | some cand =>
      if (projectCandidate cand).admitsNothing then none
      else commitOneByOne (S.commitProjected (projectCandidate cand)) rest

def start (rows : List BveRow) (isBin : ℕ → Bool) (boundaryCap scopeCap clauseGrowthMargin : ℕ) :
    BveReducer :=
  let empty : BveReducer :=
    ⟨rows.length, boundaryCap, scopeCap, clauseGrowthMargin, [], fun _ => ∅, isBin, fun _ => false,
      [], ⟨[], [], [], []⟩⟩
  rows.foldl (fun S row => S.addRow
    ⟨row.terms, row.lo.filter scalingBoundFinite, row.up.filter scalingBoundFinite, true⟩) empty

structure Plan where
  reductions : List BveReduction
  removedRows : List ℕ
  addedRows : List (List (ℕ × ℚ) × Option ℚ)
  deriving DecidableEq

def finalize (S : BveReducer) : Plan where
  reductions := S.reductions
  removedRows := (List.range S.nRowsOrig).filter fun r => !(S.row r).active
  addedRows := ((S.rows.drop S.nRowsOrig).filter WorkRow.active).map fun R => (R.terms, R.lo)

end BveReducer

end CuOpt.Presolve
