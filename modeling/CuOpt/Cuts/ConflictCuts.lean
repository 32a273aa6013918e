import CuOpt.Cuts.OddCycles
import CuOpt.Library.Sorting

/-! Clique cuts and odd-wheel cuts over the literals of binary variables: the greedy extension of a
clique, the cycle of a path of the double cover, and the cuts built from them. -/

namespace CuOpt.Cuts

open SparseList QuadProgram Sorting

/-- What the separators read of the clique table: the vertex `j` is a variable and `j + numVars` its
complement. -/
structure ConflictGraph where
  numVars : ℕ
  checkAdjacency : ℕ → ℕ → Bool
  degree : ℕ → ℤ
  adjSet : ℕ → List ℕ
  avgSliceSize : ℚ

/-- The clock, read at the start and at each vertex of a loop, the work limit, and the values of
`log2`. -/
structure ConflictLimits where
  timeUpAtStart : Bool
  anchorTimeUp : ℕ → Bool
  candidateTimeUp : ℕ → Bool
  greedyTimeUp : ℕ → Bool
  maxWorkEstimate : WithTop ℚ
  log2 : ℚ → ℚ

def stdRound (v : ℚ) : ℤ := if 0 ≤ v then ⌊v + 1 / 2⌋ else ⌈v - 1 / 2⌉

lemma stdRound_intCast (k : ℤ) : stdRound (k : ℚ) = k := by
  rw [stdRound]
  split_ifs
  · rw [Int.floor_eq_iff]
    constructor <;> linarith
  · rw [Int.ceil_eq_iff]
    constructor <;> linarith

inductive CutBuild where
  | noCut
  | cutAdded (cut : Inequality)
  | infeasible
  deriving DecidableEq

section Extension

variable (g : ConflictGraph) (limits : ConflictLimits)

/-- The first vertex of smallest degree; none if the clock stops the scan. -/
def minDegreeAnchor : List ℕ → ℤ → Option ℕ → Option ℕ
  | [], _, smallestDegreeVar => smallestDegreeVar
  | v :: rest, smallestDegree, smallestDegreeVar =>
    if limits.anchorTimeUp v then none
    else if g.degree v < smallestDegree then minDegreeAnchor rest (g.degree v) (some v)
    else minDegreeAnchor rest smallestDegree smallestDegreeVar

def maxInt : ℤ := 2 ^ 31 - 1

def cgReducedCost (reducedCosts : ℕ → Option ℚ) (vertexIdx : ℕ) : ℚ :=
  let rc := (reducedCosts (vertexIdx % g.numVars)).getD 0
  if g.numVars ≤ vertexIdx then -rc else rc

def sortCandidatesByReducedCost (std : Sorter) (reducedCosts : ℕ → Option ℚ)
    (candidates : List ℕ) : List ℕ :=
  std.sort (fun a b => decide (cgReducedCost g reducedCosts a < cgReducedCost g reducedCosts b))
    candidates

def greedyExtendClique (adjCheckCost : ℚ) : List ℕ → List ℕ → Option ℚ → List ℕ × Option ℚ
  | [], selected, work => (selected, work)
  | candidate :: rest, selected, work =>
    if limits.greedyTimeUp candidate then (selected, work)
    else
      let adjacent := selected.takeWhile (g.checkAdjacency candidate)
      let add : Bool := decide (adjacent.length = selected.length)
      let checks := if add then adjacent.length else adjacent.length + 1
      let (work, isOver) := addWorkEstimate (adjCheckCost * checks) work limits.maxWorkEstimate
      if isOver then (selected, work)
      else
        greedyExtendClique adjCheckCost rest (if add then selected ++ [candidate] else selected) work

def sortWork (size : ℚ) : ℚ := if 0 < size then 2 * size * limits.log2 (size + 1) else 0

def literalValue (xstar : ℕ → ℚ) (v : ℕ) : ℚ :=
  if g.numVars ≤ v then 1 - xstar (v % g.numVars) else xstar (v % g.numVars)

def extendCliqueVertices (std : Sorter) (xstar : ℕ → ℚ) (reducedCosts : ℕ → Option ℚ)
    (integerTol : ℚ) (clique : List ℕ) (work : Option ℚ) : List ℕ × Option ℚ :=
  if limits.timeUpAtStart then (clique, work)
  else if clique.isEmpty then (clique, work)
  else
    match minDegreeAnchor g limits clique maxInt none with
    | none => (clique, work)
    | some anchor =>
      let adjSet := g.adjSet anchor
      if adjSet.any limits.candidateTimeUp then (clique, work)
      else
        let candidates := adjSet.filter fun candidate =>
          decide (candidate ∉ clique) &&
            decide (|literalValue g xstar candidate - stdRound (literalValue g xstar candidate)| ≤
              integerTol)
        let addtlCliquesScanCost := 1 + g.avgSliceSize
        let estimatedPreloopWork := 2 * clique.length + 2 * adjSet.length + 3 * adjSet.length +
          sortWork limits candidates.length + 2 * candidates.length +
          addtlCliquesScanCost * clique.length + addtlCliquesScanCost
        let (work, isOver) := addWorkEstimate estimatedPreloopWork work limits.maxWorkEstimate
        if isOver then (clique, work)
        else
          greedyExtendClique g limits (5 + addtlCliquesScanCost)
            (sortCandidatesByReducedCost g std reducedCosts candidates) clique work

def extendToOddWheel (std : Sorter) (reducedCosts : ℕ → Option ℚ) (cycleVertices : List ℕ)
    (work : Option ℚ) : List ℕ × Option ℚ :=
  if cycleVertices.isEmpty then ([], work)
  else if limits.timeUpAtStart then ([], work)
  else
    match minDegreeAnchor g limits cycleVertices maxInt none with
    | none => ([], work)
    | some anchor =>
      let adjSet := g.adjSet anchor
      if adjSet.any limits.candidateTimeUp then ([], work)
      else
        let candidates := adjSet.filter fun candidate =>
          decide (candidate ∉ cycleVertices) &&
            cycleVertices.all fun v => decide (candidate ≠ v) && g.checkAdjacency candidate v
        if candidates.isEmpty then ([], work)
        else
          let (work, isOver) := addWorkEstimate (2 * adjSet.length +
            cycleVertices.length * candidates.length + sortWork limits candidates.length) work
            limits.maxWorkEstimate
          if isOver then ([], work)
          else
            greedyExtendClique g limits 5
              (sortCandidatesByReducedCost g std reducedCosts candidates) [] work

end Extension

structure SeenLiterals where
  original : List ℕ
  complement : List ℕ
  pairs : List ℕ

section Build

variable (numVars numCols : ℕ) (limits : ConflictLimits) (xstar : ℕ → ℚ) (minViolation : ℚ)

def SeenLiterals.see (seen : SeenLiterals) (vertexIdx : ℕ) : SeenLiterals :=
  let varIdx := vertexIdx % numVars
  if numVars ≤ vertexIdx then
    { seen with
      pairs := if varIdx ∈ seen.original then seen.pairs.insert varIdx else seen.pairs
      complement := seen.complement.insert varIdx }
  else
    { seen with
      pairs := if varIdx ∈ seen.complement then seen.pairs.insert varIdx else seen.pairs
      original := seen.original.insert varIdx }

def acceptCut (cut : Inequality) : CutBuild :=
  if minViolation < cut.rhs - dot cut.vector xstar then .cutAdded cut else .noCut

def buildCliqueCut (cliqueVertices : List ℕ) (work : Option ℚ) : CutBuild × Option ℚ :=
  if cliqueVertices.length < 2 then (.noCut, work)
  else
    let cliqueSize : ℚ := cliqueVertices.length
    let (work, isOver) := addWorkEstimate
      (9 * cliqueSize + sortWork limits cliqueSize + 2 * cliqueSize) work limits.maxWorkEstimate
    if isOver then (.noCut, work)
    else
      let seen := cliqueVertices.foldl (SeenLiterals.see numVars) ⟨[], [], []⟩
      if 2 ≤ seen.pairs.length then (.infeasible, work)
      else
        let hasPair := decide (seen.pairs.length = 1)
        let kept := cliqueVertices.filter fun v =>
          !(hasPair && decide (v % numVars ∈ seen.pairs))
        let numComplements := kept.countP fun v => decide (numVars ≤ v)
        let cut := kept.map fun v => (v % numVars, if numVars ≤ v then (1 : ℚ) else -1)
        if cut.isEmpty then (.noCut, work)
        else
          let cutRhs : ℚ := if hasPair then numComplements else (numComplements : ℚ) - 1
          (acceptCut xstar minViolation ⟨sortVector numCols cut, cutRhs⟩, work)

structure CycleAccumulator where
  coeffByVar : List (ℕ × ℚ)
  original : List ℕ
  complement : List ℕ
  rhs : ℚ

def addCoeff (coeffs : List (ℕ × ℚ)) (i : ℕ) (weight : ℚ) : List (ℕ × ℚ) :=
  if i ∈ keys coeffs then coeffs.map fun p => if p.1 = i then (p.1, p.2 + weight) else p
  else coeffs ++ [(i, weight)]

/-- Fails when a variable is met with both signs. -/
def accumulate (weight : ℚ) : List ℕ → CycleAccumulator → Option CycleAccumulator
  | [], acc => some acc
  | vertexIdx :: rest, acc =>
    let varIdx := vertexIdx % numVars
    if numVars ≤ vertexIdx then
      if varIdx ∈ acc.original then none
      else
        accumulate weight rest
          { acc with
            complement := acc.complement.insert varIdx
            coeffByVar := addCoeff acc.coeffByVar varIdx weight
            rhs := acc.rhs + weight }
    else if varIdx ∈ acc.complement then none
    else
      accumulate weight rest
        { acc with
          original := acc.original.insert varIdx
          coeffByVar := addCoeff acc.coeffByVar varIdx (-weight) }

def buildZeroHalfCut (cycleVertices wheelCenters : List ℕ) (work : Option ℚ) :
    CutBuild × Option ℚ :=
  let cycleSize := cycleVertices.length
  if cycleSize < 5 ∨ cycleSize % 2 = 0 then (.noCut, work)
  else
    let m := (cycleSize - 1) / 2
    let totalSize : ℚ := cycleSize + wheelCenters.length
    let (work, isOver) := addWorkEstimate
      (8 * totalSize + 2 * totalSize * limits.log2 (totalSize + 1)) work limits.maxWorkEstimate
    if isOver then (.noCut, work)
    else
      let accumulated := (accumulate numVars 1 cycleVertices ⟨[], [], [], -m⟩).bind fun acc =>
        if 0 < m ∧ wheelCenters ≠ [] then accumulate numVars m wheelCenters acc else some acc
      match accumulated with
      | none => (.noCut, work)
      | some acc =>
        let cut := acc.coeffByVar.filter fun p => decide (1 / 10 ^ 12 < |p.2|)
        if cut.isEmpty then (.noCut, work)
        else (acceptCut xstar minViolation ⟨sortVector numCols cut, acc.rhs⟩, work)

end Build

/-- The vertices of a path of the double cover without the last one; `none` where the source returns
false. -/
def pathToOddCycle (limits : ConflictLimits) (numLocal numVars : ℕ) (vertices : List ℕ)
    (bipartitePath : List ℕ) (work : Option ℚ) : Option (List ℕ) × Option ℚ :=
  if bipartitePath.length < 4 then (none, work)
  else
    let (work, isOver) :=
      addWorkEstimate (bipartitePath.length * 2) work limits.maxWorkEstimate
    if isOver then (none, work)
    else
      let localSeq := (bipartitePath.map (· % numLocal)).dropLast
      if ¬ localSeq.Nodup then (none, work)
      else
        let cycleVertices := localSeq.map (vertices.getD · 0)
        if ¬ (cycleVertices.map (· % numVars)).Nodup then (none, work)
        else if 5 ≤ cycleVertices.length then (some cycleVertices, work)
        else (none, work)

def cliqueCut (g : ConflictGraph) (limits : ConflictLimits) (numCols : ℕ) (std : Sorter)
    (xstar : ℕ → ℚ) (reducedCosts : ℕ → Option ℚ) (integerTol minViolation : ℚ)
    (clique : List ℕ) (work : Option ℚ) : CutBuild × Option ℚ :=
  let (clique, work) := extendCliqueVertices g limits std xstar reducedCosts integerTol clique work
  buildCliqueCut g.numVars numCols limits xstar minViolation clique work

def oddCycleCut (g : ConflictGraph) (limits : ConflictLimits) (numCols numLocal : ℕ)
    (vertices : List ℕ) (std : Sorter) (xstar : ℕ → ℚ) (reducedCosts : ℕ → Option ℚ)
    (minViolation : ℚ) (bipartitePath : List ℕ) (work : Option ℚ) : CutBuild × Option ℚ :=
  match pathToOddCycle limits numLocal g.numVars vertices bipartitePath work with
  | (none, work) => (.noCut, work)
  | (some cycleVertices, work) =>
    let (wheelCenters, work) := extendToOddWheel g limits std reducedCosts cycleVertices work
    buildZeroHalfCut g.numVars numCols limits xstar minViolation cycleVertices wheelCenters work

end CuOpt.Cuts
