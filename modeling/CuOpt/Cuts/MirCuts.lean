import CuOpt.Cuts.BoundSubstitutionSound
import CuOpt.Library.Sorting

/-! Mixed-integer rounding cuts: the rounded inequality, the search for a divisor and a
complementation, the way back to the structural columns, and the loop that aggregates rows. -/

namespace CuOpt.Cuts

open SparseList QuadProgram Sorting

section Generate

variable (varTypes : ℕ → VariableType) (s : ℕ → ColumnSubstitution)

def mirCoefficient (q₁ q₂ : ℚ) : ℚ :=
  min (fractionalPart q₁) (fractionalPart q₂) + fractionalPart q₂ * ⌊q₁⌋

def generateCutNonnegative (c : Inequality) : Option Inequality :=
  let fBeta := fractionalPart c.rhs
  if fBeta < 5 / 100 ∨ 95 / 100 < fBeta then none
  else
    some ⟨c.vector.map fun q =>
        (q.1, if varTypes q.1 = .integer then mirCoefficient q.2 c.rhs else max q.2 0),
      fBeta * ⌈c.rhs⌉⟩

def Inequality.scale (factor : ℚ) (c : Inequality) : Inequality :=
  ⟨c.vector.map fun q => (q.1, q.2 * factor), c.rhs * factor⟩

def complementAt (c : Inequality) (l : ℕ) : Inequality :=
  match c.vector[l]? with
  | none => c
  | some (j, aj) => ⟨c.vector.set l (j, -aj), c.rhs - aj * (s j).transformedUpper.getD 0⟩

def scaleUncomplementAndGenerateCut (complementedIndices : List ℕ) (complemented : Inequality)
    (delta : ℚ) : Option Inequality :=
  let scaled := if delta ≠ 1 then complemented.scale (1 / delta) else complemented
  (generateCutNonnegative varTypes scaled).map fun cut =>
    complementedIndices.foldl (complementAt s) cut

def computeViolation (c : Inequality) (x : ℕ → ℚ) : ℚ := c.rhs - dot c.vector x

/-- A cut that is violated enough, its divisor, its violation, and the inequality that it comes from
with the entries complemented in it. -/
structure FoundCut where
  cut : Inequality
  delta : ℚ
  violation : ℚ
  complemented : Inequality
  complementedIndices : List ℕ

inductive CutSearch where
  | timeUp
  | notFound
  | found (f : FoundCut)

variable (transformedXstar : ℕ → ℚ)

def deltasToTry (c : Inequality) : List ℚ :=
  let integers := c.vector.filter fun q => decide (varTypes q.1 = .integer)
  let maxCoeff := integers.foldl (fun m q => max m |q.2|) 0
  let between := integers.filter fun q =>
    decide (1 / 10 ^ 6 < transformedXstar q.1) &&
      (s q.1).transformedUpper.all (fun u => decide (0 < u - transformedXstar q.1)) &&
      decide (1 / 10 ^ 6 < |q.2|)
  1 :: between.map (fun q => |q.2|) ++
    if 1 / 10 ^ 6 < maxCoeff ∧ maxCoeff ≠ 1 then [maxCoeff, maxCoeff + 1] else []

/-- The entries that may be complemented, those farthest above the middle of their range first. -/
def complementOrder (std : Sorter) (c : Inequality) : List ℕ :=
  let integerIndices := (List.range c.vector.length).filter fun k =>
    c.vector[k]?.any fun q =>
      decide (varTypes q.1 = .integer) && (s q.1).transformedUpper.isSome &&
        decide (1 / 10 ^ 6 < transformedXstar q.1)
  let distance : ℕ → ℚ := fun k =>
    c.vector[k]?.elim 0 fun q => transformedXstar q.1 - (s q.1).transformedUpper.getD 0 / 2
  std.sort (fun a b => decide (distance b < distance a)) integerIndices

def timeLimitReached (clock : ℕ → Bool) (candidates : ℕ) : Bool :=
  decide (candidates % 64 = 0) && clock candidates

def tryDeltas (clock : ℕ → Bool) (complementedIndices : List ℕ) (complemented : Inequality) :
    List ℚ → ℕ → CutSearch × ℕ
  | [], candidates => (.notFound, candidates)
  | delta :: rest, candidates =>
    if timeLimitReached clock candidates then (.timeUp, candidates + 1)
    else
      match scaleUncomplementAndGenerateCut varTypes s complementedIndices complemented delta with
      | none => tryDeltas clock complementedIndices complemented rest (candidates + 1)
      | some cut =>
        let violation := computeViolation cut transformedXstar
        if 1 / 10 ^ 6 < violation then
          (.found ⟨cut, delta, violation, complemented, complementedIndices⟩, candidates + 1)
        else tryDeltas clock complementedIndices complemented rest (candidates + 1)

def tryComplements (clock : ℕ → Bool) (deltas : List ℚ) :
    List ℕ → List ℕ → Inequality → ℕ → CutSearch × ℕ
  | [], _, _, candidates => (.notFound, candidates)
  | l :: rest, complementedIndices, complemented, candidates =>
    let complemented := complementAt s complemented l
    let complementedIndices := complementedIndices ++ [l]
    match tryDeltas varTypes s transformedXstar clock complementedIndices complemented deltas
      candidates with
    | (.notFound, candidates) =>
      tryComplements clock deltas rest complementedIndices complemented candidates
    | result => result

def tryScaledDelta (f : FoundCut) (delta : ℚ) : FoundCut :=
  match scaleUncomplementAndGenerateCut varTypes s f.complementedIndices f.complemented delta with
  | none => f
  | some cut =>
    let violation := computeViolation cut transformedXstar
    if f.violation < violation then { f with cut := cut, delta := delta, violation := violation } else f

def improveByComplements (clock : ℕ → Bool) (delta : ℚ) :
    List ℕ → List ℕ → Inequality → ℕ → Inequality × ℚ → Option (Inequality × ℚ)
  | [], _, _, _, best => some best
  | l :: rest, complementedIndices, complemented, candidates, best =>
    if timeLimitReached clock candidates then none
    else
      let complemented := complementAt s complemented l
      let complementedIndices := complementedIndices ++ [l]
      let best :=
        match scaleUncomplementAndGenerateCut varTypes s complementedIndices complemented delta with
        | none => best
        | some cut =>
          let violation := computeViolation cut transformedXstar
          if best.2 < violation then (cut, violation) else best
      improveByComplements clock delta rest complementedIndices complemented (candidates + 1) best

/-- First without any complementation, then with more and more entries complemented. -/
def searchCut (clock : ℕ → Bool) (deltas : List ℚ) (order : List ℕ) (transformed : Inequality) :
    CutSearch × ℕ :=
  match tryDeltas varTypes s transformedXstar clock [] transformed deltas 0 with
  | (.notFound, candidates) =>
    tryComplements varTypes s transformedXstar clock deltas order [] transformed candidates
  | result => result

def cutGenerationHeuristic (std : Sorter) (clock : ℕ → Bool) (transformed : Inequality) :
    Option Inequality :=
  let deltas := deltasToTry varTypes s transformedXstar transformed
  let order := complementOrder varTypes s transformedXstar std transformed
  match searchCut varTypes s transformedXstar clock deltas order transformed with
  | (.found f, candidates) =>
    let f := [f.delta / 2, f.delta / 4, f.delta / 8].foldl (tryScaledDelta varTypes s transformedXstar) f
    match improveByComplements varTypes s transformedXstar clock f.delta order [] transformed candidates
      (f.cut, f.violation) with
    | none => none
    | some (cut, violation) => if 1 / 10 ^ 6 < violation then some cut else none
  | _ => none

end Generate

section Restore

variable (lp : LpProblem)

/-- What a small entry takes off the right-hand side when it is removed, at the bound that allows
it. -/
def smallTerm (q : ℕ × ℚ) : Option ℚ :=
  if |q.2| < 1 / 10 ^ 6 then
    if 0 ≤ q.2 ∧ lp.upper q.1 ≠ none then some (q.2 * (lp.upper q.1).getD 0)
    else if q.2 ≤ 0 ∧ lp.lower q.1 ≠ none then some (q.2 * (lp.lower q.1).getD 0)
    else none
  else none

def removeSmallCoefficients (c : Inequality) : Inequality :=
  let replaced := c.replace fun q => (smallTerm lp q).elim ([q], 0) fun w => ([(q.1, 0)], w)
  if c.vector.any fun q => (smallTerm lp q).isSome then ⟨squeeze replaced.vector, replaced.rhs⟩
  else replaced

def substituteSlack (q : ℕ × ℚ) : List (ℕ × ℚ) × ℚ :=
  if q.1 ∈ lp.newSlacks then
    match lp.columns q.1 with
    | [] => ([q], 0)
    | (i, alpha) :: _ =>
      (((lp.rows i).filter fun r => decide (r.1 ≠ q.1)).map fun r => (r.1, -q.2 * r.2 / alpha),
        q.2 * lp.rhs i / alpha)
  else ([q], 0)

def substituteSlacks (c : Inequality) : Inequality :=
  if c.vector.any fun q => decide (q.1 ∈ lp.newSlacks) then
    let replaced := (c.replace (substituteSlack lp)).gather
    ⟨sortVector lp.numCols replaced.vector, replaced.rhs⟩
  else c

/-- Eliminates column `xj` by the pivot row; the multiplier of the row is returned, and zero if there is
nothing to eliminate. -/
def combineRows (xj : ℕ) (pivotRow c : Inequality) : Inequality × ℚ :=
  let alj := (pivotRow.vector.find? fun q => decide (q.1 = xj)).elim 0 Prod.snd
  let aij := (c.vector.find? fun q => decide (q.1 = xj)).elim 0 Prod.snd
  if alj = 0 ∨ aij = 0 then (c, 0)
  else
    let pivotValue := aij / alj
    let kept := (c.vector.filter fun q => decide (q.1 ≠ xj)) ++
      (pivotRow.vector.filter fun q => decide (q.1 ≠ xj)).map fun q => (q.1, -pivotValue * q.2)
    (⟨gather kept, c.rhs - pivotValue * pivotRow.rhs⟩, -pivotValue)

end Restore

/-- Which cuts are asked for, the clock at each place where it is read, and whether the work limit is
reached after a number of rows. -/
structure MirSettings where
  strongChvatalGomoryCuts : Bool
  mirCuts : Bool
  rowTimeUp : ℕ → Bool
  workUp : ℕ → Bool
  searchTimeUp : ℕ → ℕ → ℕ → Bool
  returnTimeUp : ℕ → ℕ → Bool

inductive AddedCut where
  | strongCg (cut : Inequality)
  | mir (base cut : Inequality)
  deriving DecidableEq

def AddedCut.cut : AddedCut → Inequality
  | .strongCg cut => cut
  | .mir _ cut => cut

inductive AggregateOutcome where
  | added (base cut : Inequality)
  | noCut
  | timeUp

structure MirState where
  scores : ℕ → ℚ
  scoreQueue : List (ℚ × ℕ)
  aggregatedMark : List ℕ
  aggregatedRows : List ℕ
  cgMarks : ℕ → BoundShift
  cutsProcessed : ℕ
  pops : ℕ

section Loop

variable (lp : LpProblem) (s : ℕ → ColumnSubstitution) (std : Sorter) (xstar : ℕ → ℚ)
  (settings : MirSettings)

def restoreCut (cut : Inequality) : Inequality :=
  removeSmallCoefficients lp
    (substituteSlacks lp (removeSmallCoefficients lp (untransformInequality lp.varTypes s cut)))

def pivotColumn (c : Inequality) : Option ℕ :=
  let continuous := c.vector.filter fun q =>
    decide (q.2 ≠ 0) && decide (lp.varTypes q.1 = .continuous)
  let offBound (j : ℕ) : ℚ :=
    min ((s j).lbStar.elim |xstar j| fun lb => xstar j - lb)
      ((s j).ubStar.elim |xstar j| fun ub => ub - xstar j)
  let best : ℚ × Option ℕ := continuous.foldl
    (fun best q =>
      if best.1 < offBound q.1 ∧ 1 < (lp.columns q.1).length then (offBound q.1, some q.1) else best)
    (0, none)
  if continuous.isEmpty ∨ best.1 < 1 / 10 ^ 6 then none else best.2

def maxScoreRow (scores : ℕ → ℚ) (rows : List ℕ) : Option ℕ :=
  rows.foldl
    (fun best r =>
      match best with
      | none => some r
      | some b => if scores b < scores r then some r else some b)
    none

/-- A row to aggregate, its multiplier and the new inequality; a multiplier of zero has an infinite
ratio. -/
def choosePivotRow (scores : ℕ → ℚ) (xj : ℕ) (c : Inequality) (minAbs maxAbs : ℚ) :
    ℕ → List ℕ → Option (ℕ × ℚ × Inequality)
  | 0, _ => none
  | fuel + 1, potentialRows =>
    match maxScoreRow scores potentialRows with
    | none => none
    | some pivotRow =>
      let (combined, multiplier) := combineRows xj ⟨lp.rows pivotRow, lp.rhs pivotRow⟩ c
      if multiplier = 0 ∨ 10000 < maxAbs / |multiplier| ∨ 10000 < |multiplier| / minAbs then
        choosePivotRow scores xj c minAbs maxAbs fuel
          (potentialRows.filter fun r => decide (r ≠ pivotRow))
      else some (pivotRow, multiplier, combined)

/-- The number of aggregated rows is `6 - fuel`. -/
def aggregateLoop (scores : ℕ → ℚ) (processed : ℕ) :
    ℕ → Inequality → ℚ → ℚ → List ℕ → List ℕ → AggregateOutcome × List ℕ × List ℕ
  | 0, _, _, _, marks, rows => (.noCut, marks, rows)
  | fuel + 1, c, minAbs, maxAbs, marks, rows =>
    let transformed := transformInequality lp.varTypes s ⟨squeeze c.vector, c.rhs⟩
    let cut := cutGenerationHeuristic lp.varTypes s (fun j => (s j).transformedXstar) std
      (settings.searchTimeUp processed (6 - (fuel + 1))) transformed
    if settings.returnTimeUp processed (6 - (fuel + 1)) then (.timeUp, marks, rows)
    else
      match (cut.map (restoreCut lp s)).filter fun cut =>
        decide (1 / 10 ^ 6 < computeViolation cut xstar) with
      | some cut => (.added c cut, marks, rows)
      | none =>
        match pivotColumn lp s xstar c with
        | none => (.noCut, marks, rows)
        | some xj =>
          let potentialRows := ((lp.columns xj).filter fun p =>
            decide (1 / 10 ^ 4 < |p.2|) && decide (p.1 ∉ marks)).map Prod.fst
          match choosePivotRow lp scores xj c minAbs maxAbs potentialRows.length potentialRows with
          | none => (.noCut, marks, rows)
          | some (pivotRow, multiplier, combined) =>
            aggregateLoop scores processed fuel combined (min minAbs |multiplier|)
              (max maxAbs |multiplier|) (pivotRow :: marks) (rows ++ [pivotRow])

/-- The row as `vector · x ≥ rhs`, its slack dropped; `none` for a slack that cannot be. -/
def rowWithoutSlackTerm (i : ℕ) : Option Inequality :=
  let zeroed := (lp.rows i).map fun q => if lp.isSlack i q.1 then (q.1, 0) else q
  match (lp.rows i).find? fun q => lp.isSlack i q.1 with
  | none => some (Inequality.negate ⟨zeroed, lp.rhs i⟩)
  | some (j, aj) =>
    if aj = 1 then some (Inequality.negate ⟨zeroed, lp.rhs i⟩)
    else if aj = -1 ∧ (lp.lower j).any fun l => decide (0 ≤ l) then some ⟨zeroed, lp.rhs i⟩
    else none

def scoreLess (a b : ℚ × ℕ) : Bool :=
  decide (a.1 < b.1) || decide (a.1 = b.1) && decide (a.2 < b.2)

def nextRow : ℕ → MirState → Option (ℕ × ℚ × MirState)
  | 0, _ => none
  | fuel + 1, st =>
    if settings.rowTimeUp st.pops then none
    else
      match popTop scoreLess st.scoreQueue with
      | none => none
      | some ((score, i), rest) =>
        let st := { st with scoreQueue := rest, pops := st.pops + 1 }
        if score ≠ st.scores i then nextRow fuel st else some (i, score, st)

/-- After a cut the scores of the aggregated rows are lowered; the row itself is not tried again. -/
def finishRow (addCut : Bool) (i : ℕ) (st : MirState) : MirState :=
  let st := if addCut then
    st.aggregatedRows.foldl
      (fun st row =>
        let score := 99 / 100 * st.scores row
        { st with scores := Function.update st.scores row score
                  scoreQueue := (score, row) :: st.scoreQueue })
      st
    else st
  { st with
    aggregatedMark := st.aggregatedMark.filter fun row => decide (row ∉ st.aggregatedRows)
    aggregatedRows := []
    scores := Function.update st.scores i 0
    scoreQueue := (0, i) :: st.scoreQueue }

def strongCgOfRow (i : ℕ) (cgMarks : ℕ → BoundShift) (p : MixedProblem) :
    (ℕ → BoundShift) × Option Inequality :=
  let row : Inequality := ⟨lp.rows i, lp.rhs i⟩
  let fractional := fractionalPart row.rhs
  if settings.strongChvatalGomoryCuts ∧ 1 / 10 ^ 6 < fractional ∧ fractional < 1 - 1 / 10 ^ 6 then
    generateStrongCgCut p xstar cgMarks (if fractional < 1 / 2 then row.negate else row)
  else (cgMarks, none)

def mirLoop (p : MixedProblem) : ℕ → MirState → List AddedCut
  | 0, _ => []
  | fuel + 1, st =>
    match nextRow settings st.scoreQueue.length st with
    | none => []
    | some (i, maxScore, st) =>
      let st := { st with
        aggregatedMark := i :: st.aggregatedMark
        aggregatedRows := st.aggregatedRows ++ [i]
        cutsProcessed := st.cutsProcessed + 1 }
      if maxScore ≤ 0 then []
      else if settings.workUp st.cutsProcessed then []
      else
        let (cgMarks, cgCut) := strongCgOfRow lp xstar settings i st.cgMarks p
        let st := { st with cgMarks := cgMarks }
        (cgCut.map AddedCut.strongCg).toList ++
          if settings.mirCuts then
            match rowWithoutSlackTerm lp i with
            | none => mirLoop p fuel st
            | some c =>
              match aggregateLoop lp s std xstar settings st.scores st.cutsProcessed 6 c 1 1
                st.aggregatedMark st.aggregatedRows with
              | (.timeUp, _) => []
              | (.noCut, marks, rows) =>
                mirLoop p fuel (finishRow false i
                  { st with aggregatedMark := marks, aggregatedRows := rows })
              | (.added base cut, marks, rows) =>
                .mir base cut :: mirLoop p fuel (finishRow true i
                  { st with aggregatedMark := marks, aggregatedRows := rows })
          else mirLoop p fuel st

end Loop

def CutSetting.generateMirCuts (lp : CutSetting) (std : Sorter) (xstar : ℕ → ℚ)
    (scores : ℕ → ℚ) (settings : MirSettings) : List AddedCut :=
  mirLoop lp.toLpProblem (lp.substitution xstar false) std xstar settings
    lp.problem.toMixedProblem (min lp.numRows 100000)
    { scores := scores
      scoreQueue := (List.range lp.numRows).map fun i => (scores i, i)
      aggregatedMark := []
      aggregatedRows := []
      cgMarks := transformedVariable lp.problem.toMixedProblem xstar
      cutsProcessed := 0
      pops := 0 }

end CuOpt.Cuts
