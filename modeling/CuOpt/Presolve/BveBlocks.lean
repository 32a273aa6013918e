import Mathlib

/-! The blocks of a variable elimination: interior columns with all their rows, and the projection of
these rows on the boundary columns. -/

namespace CuOpt.Presolve

/-- A row over local columns; `none` in `lo` is `-inf` and `none` in `up` is `inf`. -/
structure BveRow where
  terms : List (ℕ × ℚ)
  lo : Option ℚ
  up : Option ℚ
  deriving DecidableEq

/-- `bve_block_t`: the local columns below `na` are interior, the next `nb` are boundary. -/
structure BveBlock where
  na : ℕ
  nb : ℕ
  rows : List BveRow
  deriving DecidableEq

structure BveProjection where
  feasible : List Bool
  witness : List ℕ
  projected : Bool
  deriving DecidableEq

structure BveCandidate where
  interior : List ℕ
  boundary : List ℕ
  rows : List ℕ
  blk : BveBlock
  projection : BveProjection
  deriving DecidableEq

namespace BveBlock

def localValue (blk : BveBlock) (interiorPattern boundaryPattern var : ℕ) : ℚ :=
  if var < blk.na then (if interiorPattern.testBit var then 1 else 0)
  else if boundaryPattern.testBit (var - blk.na) then 1 else 0

def rowSatisfied (blk : BveBlock) (interiorPattern boundaryPattern : ℕ) (row : BveRow) : Bool :=
  let sum := (row.terms.map fun p =>
    p.2 * blk.localValue interiorPattern boundaryPattern p.1).sum
  decide ((∀ u ∈ row.up, sum ≤ u) ∧ ∀ l ∈ row.lo, l ≤ sum)

def findWitness (blk : BveBlock) (boundaryPattern : ℕ) : Option ℕ :=
  (List.range (2 ^ blk.na)).find? fun am => blk.rows.all (blk.rowSatisfied am boundaryPattern)

def project (blk : BveBlock) : BveProjection where
  feasible := (List.range (2 ^ blk.nb)).map fun m => (blk.findWitness m).isSome
  witness := (List.range (2 ^ blk.nb)).map fun m => (blk.findWitness m).getD 0
  projected := true

end BveBlock

namespace BveCandidate

def admits (cand : BveCandidate) (m : ℕ) : Bool := cand.projection.feasible.getD m false

def admitsNothing (cand : BveCandidate) : Bool :=
  cand.projection.projected && cand.projection.feasible.all fun feasible => !feasible

end BveCandidate

structure ProjectedCandidate extends BveCandidate where
  boundary_length : boundary.length = blk.nb
  boundary_nodup : boundary.Nodup
  table_length : projection.feasible.length = 2 ^ blk.nb
  isProjected : projection.projected = true

end CuOpt.Presolve
