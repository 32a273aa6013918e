import Mathlib

/-! The scores of single moves and of pairs of moves in the general feasibility jump. Single moves
are scored by a vector kernel with a scalar tail, pairs row by row. -/

namespace CuOpt.FeasibilityJump

structure RowState where
  slack : ℚ
  weight : ℚ

/-- What the scores read. The entries of variable `v` are those of its range in the reverse matrix,
which lists a row at most once for a variable. -/
structure Climber where
  rowTolerance : ℚ
  excessImprovementWeight : ℚ
  rowState : ℕ → RowState
  slackSumcomp : ℕ → ℚ
  reverseConstraints : ℕ → ℕ
  reverseCoefficients : ℕ → ℚ
  rangeForVariable : ℕ → ℕ × ℕ
  rows_nodup : ∀ v, ((List.Ico (rangeForVariable v).1 (rangeForVariable v).2).map
    reverseConstraints).Nodup

structure Move where
  varIdx : ℕ
  value : ℚ

def trunc (x : ℚ) : ℤ := if 0 ≤ x then ⌊x⌋ else ⌈x⌉

def toInt32 (outside : ℚ → ℤ) (x : ℚ) : ℤ :=
  if -2 ^ 31 ≤ trunc x ∧ trunc x < 2 ^ 31 then trunc x else outside x

namespace Climber

def feasScoreConstraint (c : Climber) (delta cstrCoeff oldSlack cstrWeight : ℚ) : ℚ × ℚ :=
  let tol := c.rowTolerance
  let newSlack := oldSlack - cstrCoeff * delta
  let oldSat := -tol < oldSlack
  let newSat := -tol < newSlack
  let baseFeas :=
    if ¬ oldSat ∧ newSat then cstrWeight
    else if oldSat ∧ ¬ newSat then -cstrWeight
    else if ¬ oldSat ∧ ¬ newSat ∧ oldSlack < newSlack then cstrWeight * c.excessImprovementWeight
    else if ¬ oldSat ∧ ¬ newSat ∧ newSlack < oldSlack then
      -(cstrWeight * c.excessImprovementWeight)
    else 0
  let oldStable := tol < oldSlack
  let newStable := tol < newSlack
  let bonusRobust :=
    if ¬ oldStable ∧ newStable then cstrWeight
    else if oldStable ∧ ¬ newStable then -cstrWeight
    else 0
  (baseFeas, bonusRobust)

def scoreLane (c : Climber) (delta : ℚ) (i : ℕ) : ℚ × ℚ :=
  let row := c.rowState (c.reverseConstraints i)
  let next := row.slack - c.reverseCoefficients i * delta
  let os := -c.rowTolerance < row.slack
  let ns := -c.rowTolerance < next
  let partialCredit : ℚ := trunc (row.weight * c.excessImprovementWeight)
  let direction :=
    if row.slack < next then partialCredit else if next < row.slack then -partialCredit else 0
  let rowBase := (if ns then row.weight else 0) - (if os then row.weight else 0) +
    (if ¬ os ∧ ¬ ns then direction else 0)
  (rowBase, (if c.rowTolerance < next then row.weight else 0) -
    (if c.rowTolerance < row.slack then row.weight else 0))

def scoreScalar (c : Climber) (outside : ℚ → ℤ) (delta : ℚ) (i : ℕ) : ℚ × ℚ :=
  let a := c.reverseCoefficients i
  if a = 0 then 0
  else
    let row := c.rowState (c.reverseConstraints i)
    let next := row.slack - a * delta
    let os := -c.rowTolerance < row.slack
    let ns := -c.rowTolerance < next
    let partialCredit : ℚ := toInt32 outside (row.weight * c.excessImprovementWeight)
    (if ¬ os ∧ ns then row.weight
      else if os ∧ ¬ ns then -row.weight
      else if ¬ os ∧ ¬ ns ∧ row.slack < next then partialCredit
      else if ¬ os ∧ ¬ ns ∧ next < row.slack then -partialCredit
      else 0,
      if row.slack ≤ c.rowTolerance ∧ c.rowTolerance < next then row.weight
      else if c.rowTolerance < row.slack ∧ next ≤ c.rowTolerance then -row.weight
      else 0)

/-- `fj_simd_score_rows`: whole blocks of `lanes` entries are added lane by lane, the lanes are
summed up, and the entries that are left over follow one at a time. -/
def simdScoreRows (c : Climber) (lanes : ℕ) (outside : ℚ → ℤ) (first last : ℕ) (delta : ℚ) : ℚ × ℚ :=
  let nblk := last - (last - first) % lanes
  let acc := (List.range ((last - first) / lanes)).foldl
    (fun acc block lane => acc lane + c.scoreLane delta (first + block * lanes + lane))
    (fun _ => (0 : ℚ × ℚ))
  (List.Ico nblk last).foldl (fun sums i => sums + c.scoreScalar outside delta i)
    (∑ lane ∈ Finset.range lanes, acc lane)

/-- The feasibility part of `compute_score`. -/
def moveFeasibility (c : Climber) (lanes : ℕ) (outside : ℚ → ℤ) (m : Move) : ℚ × ℚ :=
  c.simdScoreRows lanes outside (c.rangeForVariable m.varIdx).1 (c.rangeForVariable m.varIdx).2
    m.value

def rowDeltas (c : Climber) (m : Move) : List (ℕ × ℚ) :=
  (List.Ico (c.rangeForVariable m.varIdx).1 (c.rangeForVariable m.varIdx).2).map fun i =>
    (c.reverseConstraints i, c.reverseCoefficients i * m.value)

def pairLe (a b : ℕ × ℚ) : Bool := decide (a.1 < b.1 ∨ a.1 = b.1 ∧ a.2 ≤ b.2)

def scoreGroups (c : Climber) : List (ℕ × ℚ) → ℚ × ℚ → ℚ × ℚ
  | [], sums => sums
  | (row, delta) :: rest, sums =>
    let shared := rest.takeWhile fun e => e.1 == row
    let lhsDelta := shared.foldl (fun sum e => sum + e.2) delta
    scoreGroups c (rest.dropWhile fun e => e.1 == row)
      (sums + c.feasScoreConstraint lhsDelta 1 ((c.rowState row).slack + c.slackSumcomp row)
        (c.rowState row).weight)
  termination_by l => l.length
  decreasing_by
    exact Nat.lt_succ_of_le (List.dropWhile_sublist _).length_le

/-- The feasibility part of `two_opt_compute_pair_score`. -/
def pairFeasibility (c : Climber) (m₁ m₂ : Move) : ℚ × ℚ :=
  c.scoreGroups ((c.rowDeltas m₁ ++ c.rowDeltas m₂).mergeSort pairLe) 0

end Climber

end CuOpt.FeasibilityJump
