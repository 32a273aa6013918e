import CuOpt.Cuts.MirCuts
import CuOpt.Cuts.Mod2Rows

/-! Zero-half cuts: rows whose odd entries cancel are added up and halved, and the sum gives a rounded
cut and a lifted mixed binary cover. -/

namespace CuOpt.Cuts

open SparseList QuadProgram Sorting

section LiftedCover

variable (varTypes : ℕ → VariableType) (s : ℕ → ColumnSubstitution) (transformedXstar : ℕ → ℚ)
  (tolerance : ℚ)

structure CoverTerm where
  position : ℕ
  index : ℕ
  coeff : ℚ
  solutionValue : ℚ
  isIntegral : Bool
  locallyComplemented : Bool
  deriving DecidableEq

def newUpper (j : ℕ) : ℚ := (s j).transformedUpper.getD 0

/-- Continuous entries are kept where they are negative, integral ones are made nonnegative. -/
def coverTerm (p : (ℕ × ℚ) × ℕ) : CoverTerm :=
  let ((j, aj), k) := p
  if varTypes j = .continuous then
    ⟨k, j, if 0 < aj then 0 else aj, transformedXstar j, false, false⟩
  else if aj < 0 then ⟨k, j, -aj, newUpper s j - transformedXstar j, true, true⟩
  else ⟨k, j, aj, transformedXstar j, true, false⟩

def liftedCoverOrder (a b : CoverTerm) : Bool :=
  let aAtUpper := decide (1 - tolerance ≤ a.solutionValue)
  let bAtUpper := decide (1 - tolerance ≤ b.solutionValue)
  if aAtUpper ≠ bAtUpper then aAtUpper
  else
    let contributionA := a.solutionValue * a.coeff
    let contributionB := b.solutionValue * b.coeff
    if contributionA ≠ contributionB then decide (contributionB < contributionA)
    else decide (b.coeff < a.coeff)

def takeCover (rhs : ℚ) : ℚ → List CoverTerm → List CoverTerm
  | _, [] => []
  | coverWeight, t :: rest =>
    let coverWeight := coverWeight + t.coeff
    if tolerance * max 1 |rhs| < coverWeight - rhs then [t]
    else t :: takeCover rhs coverWeight rest

def runningSums : ℚ → List ℚ → List ℚ
  | _, [] => []
  | total, a :: l => (total + a) :: runningSums (total + a) l

def liftedCoverCoefficient (coefficient lam : ℚ) : ℕ → ℚ → List ℚ → ℚ
  | h, last, [] => h * lam + coefficient - last
  | h, _, total :: rest =>
    if coefficient ≤ total - lam + tolerance then h * lam
    else if coefficient ≤ total + tolerance then (h + 1) * lam + coefficient - total
    else liftedCoverCoefficient coefficient lam (h + 1) total rest

def liftedCoefficient (lam : ℚ) (cover : List CoverTerm) (sums : List ℚ) (t : CoverTerm) : ℚ :=
  if !t.isIntegral then if 0 ≤ t.coeff then 0 else t.coeff
  else if cover.any fun c => decide (c.position = t.position) then min t.coeff lam
  else liftedCoverCoefficient tolerance t.coeff lam 0 0 sums

def liftedCut (lam : ℚ) (cover : List CoverTerm) (sums : List ℚ) (terms : List CoverTerm) :
    Inequality :=
  let coefficient := liftedCoefficient tolerance lam cover sums
  let inCover := terms.filter fun t =>
    t.isIntegral && cover.any fun c => decide (c.position = t.position)
  let rhs := -lam + (inCover.map coefficient).sum
  let vector := terms.map fun t =>
    (t.index, if t.locallyComplemented then -coefficient t else coefficient t)
  Inequality.negate ⟨squeeze vector, rhs -
    ((terms.filter CoverTerm.locallyComplemented).map fun t => coefficient t * newUpper s t.index).sum⟩

/-- The work limit is read twice. -/
def generateLiftedMixedBinaryCover (std : Sorter) (workUp : ℕ → Bool) (transformed : Inequality) :
    Option Inequality :=
  let base := transformed.negate
  if workUp 0 then none
  else if base.vector.any fun q => decide (varTypes q.1 ≠ .continuous) &&
      !(s q.1).transformedUpper.any fun upper => decide (|upper - 1| ≤ tolerance) then none
  else
    let terms := base.vector.zipIdx.map (coverTerm varTypes s transformedXstar)
    let rhs := base.rhs - (base.vector.map fun q =>
      if varTypes q.1 ≠ .continuous ∧ q.2 < 0 then q.2 * newUpper s q.1 else 0).sum
    let entries := terms.filter fun t =>
      t.isIntegral && decide (tolerance < t.coeff) && decide (tolerance < t.solutionValue)
    let cover := takeCover tolerance rhs 0 (insertionSorter.sort (liftedCoverOrder tolerance) entries)
    let lam := (cover.map CoverTerm.coeff).sum - rhs
    let sorted := std.sort (fun a b => decide (b.coeff < a.coeff)) cover
    let large := sorted.takeWhile fun t => decide (tolerance < t.coeff - lam)
    if entries.isEmpty ∨ lam ≤ tolerance ∨ large.isEmpty then none
    else if workUp 1 then none
    else
      let sums := runningSums 0 (large.map CoverTerm.coeff)
      some (liftedCut s tolerance lam sorted sums terms)

end LiftedCover

structure ZeroHalfSettings where
  rowTightTol : ℚ
  coefficientIntegralTol : ℚ
  coverTolerance : ℚ
  minViolation : ℚ
  limits : Mod2Limits
  stopsEarly : Bool
  rowStops : ℕ → Bool
  scaleStops : ℕ → ℕ → Bool
  combinationStops : ℕ → Bool
  reverseStops : ℕ → Bool
  aggregateStops : ℕ → Bool → ℕ → Bool

structure Mod2Candidate extends Mod2ParityRow where
  row : ℕ
  transformedInequality : Inequality
  reversible : Bool

structure ZeroHalfCut where
  rows : List ℕ
  reversed : Bool
  aggregate : Inequality
  cut : Inequality
  deriving DecidableEq

def valueIsIntegral (tolerance value : ℚ) : Bool := decide (|value - round value| ≤ tolerance)

/-- Drops the slack of a row `vector · x = rhs`, in the direction that makes it `vector · x >= rhs`. -/
def withoutSlack (slack : ℕ) (c : Inequality) : Option Inequality :=
  match c.vector.find? fun q => decide (q.1 = slack) with
  | none => none
  | some q =>
    if q.2 = 0 then none
    else
      let oriented := if 0 < q.2 then c.negate else c
      some ⟨squeeze (oriented.vector.map fun r => if r.1 = slack then (r.1, 0) else r), oriented.rhs⟩

lemma keys_negate (c : Inequality) : keys c.negate.vector = keys c.vector := by
  rw [Inequality.negate, keys, List.map_map]
  rfl

lemma keys_zeroed (slack : ℕ) (l : List (ℕ × ℚ)) :
    keys (l.map fun r => if r.1 = slack then (r.1, 0) else r) = keys l := by
  rw [keys, List.map_map]
  refine List.map_congr_left fun r _ => ?_
  simp only [Function.comp_apply]
  split_ifs <;> rfl

lemma keys_squeeze_sublist (l : List (ℕ × ℚ)) : (keys (squeeze l)).Sublist (keys l) :=
  List.filter_sublist.map Prod.fst

lemma keys_withoutSlack {slack : ℕ} {c c' : Inequality} (h : withoutSlack slack c = some c') :
    (keys c'.vector).Sublist (keys c.vector) := by
  unfold withoutSlack at h
  split at h
  · cases h
  · dsimp only at h
    split_ifs at h
    · cases h
      have hsub := keys_squeeze_sublist
        (c.negate.vector.map fun r => if r.1 = slack then (r.1, 0) else r)
      rwa [keys_zeroed, keys_negate] at hsub
    · cases h
      have hsub := keys_squeeze_sublist (c.vector.map fun r => if r.1 = slack then (r.1, 0) else r)
      rwa [keys_zeroed] at hsub

section Candidates

variable (lp : LpProblem) (s : ℕ → ColumnSubstitution) (settings : ZeroHalfSettings)

def inParitySystem (q : ℕ × ℚ) : Bool :=
  decide (lp.varTypes q.1 ≠ .continuous) && decide (settings.rowTightTol < (s q.1).transformedXstar)

def integralAtScale (c : Inequality) (scale : ℕ) : Bool :=
  valueIsIntegral settings.coefficientIntegralTol (scale * c.rhs) &&
    c.vector.all fun q => !inParitySystem lp s settings q ||
      valueIsIntegral settings.coefficientIntegralTol (scale * q.2)

/-- The first scale from `scale` on, zero if there is none. -/
def mod2IntegralScale (row : ℕ) (c : Inequality) : ℕ → ℕ → ℕ
  | 0, _ => 0
  | fuel + 1, scale =>
    if settings.scaleStops row scale then 0
    else if integralAtScale lp s settings c scale then scale
    else mod2IntegralScale row c fuel (scale + 1)

def maxIntegerRowLength : ℕ := 1000 + lp.numCols / 10

def transformedRow (i : ℕ) : Inequality :=
  let c := transformInequality lp.varTypes s ⟨lp.rows i, lp.rhs i⟩
  ⟨sortVector lp.numCols c.vector, c.rhs⟩

def oddIndices (c : Inequality) : List ℕ :=
  (c.vector.filter fun q => inParitySystem lp s settings q && decide (round q.2 % 2 ≠ 0)).map
    Prod.fst

lemma sorted_oddIndices {i slack scale : ℕ} {c : Inequality}
    (h : withoutSlack slack (transformedRow lp s i) = some c) :
    (oddIndices lp s settings (if scale ≠ 1 then c.scale scale else c)).Pairwise (· < ·) := by
  have hrow := sorted_keys_sortVector (n := lp.numCols)
    (keys_transformInequality_nodup lp.varTypes s ⟨lp.rows i, lp.rhs i⟩)
  have hkeys := hrow.sublist (keys_withoutSlack h)
  have hscaled : keys (if scale ≠ 1 then c.scale scale else c).vector = keys c.vector := by
    split_ifs
    · rw [Inequality.scale, keys, List.map_map]
      rfl
    · rfl
  rw [← hscaled] at hkeys
  exact hkeys.sublist (List.filter_sublist.map Prod.fst)

/-- A row whose slack and continuous columns are at their bounds, scaled to odd and even entries. -/
def mod2Candidate (i : ℕ) : Option Mod2Candidate :=
  (lp.slackMap i).bind fun (slack, _) =>
    if settings.rowTightTol < (s slack).transformedXstar ∨
      maxIntegerRowLength lp < (lp.rows i).length then none
    else
      match hc : withoutSlack slack (transformedRow lp s i) with
      | none => none
      | some c =>
        if c.vector.any fun q => decide (lp.varTypes q.1 = .continuous) &&
            decide (settings.coefficientIntegralTol < |q.2|) &&
            decide (settings.rowTightTol < (s q.1).transformedXstar) then none
        else
          let scale := mod2IntegralScale lp s settings i c 1000 1
          let scaled := if scale ≠ 1 then c.scale scale else c
          if scale = 0 ∨ maxIntegerRowLength lp < (oddIndices lp s settings scaled).length then none
          else
            some {
              parity := oddIndices lp s settings scaled
              rhsParity := decide (round scaled.rhs % 2 ≠ 0)
              sorted := sorted_oddIndices lp s settings hc
              row := i
              transformedInequality := scaled
              reversible := (lp.upper slack).any fun u => (lp.lower slack).any fun l =>
                decide (|u - l| ≤ settings.rowTightTol) }

def mod2CollectCandidates : List ℕ → List Mod2Candidate
  | [] => []
  | i :: rest =>
    if settings.rowStops i then []
    else (mod2Candidate lp s settings i).toList ++ mod2CollectCandidates rest

def halfSum (candidates : List Mod2Candidate) : Inequality :=
  let sum := gather (candidates.flatMap fun c => c.transformedInequality.vector)
  Inequality.scale (1 / 2) ⟨sortVector lp.numCols sum,
    (candidates.map fun c => c.transformedInequality.rhs).sum⟩

variable (std : Sorter) (xstar : ℕ → ℚ)

def addTransformedZeroHalfCut (rows : List ℕ) (reversed : Bool) (aggregate : Inequality)
    (cut : Option Inequality) : List ZeroHalfCut :=
  (((cut.map (restoreCut lp s)).filter fun cut =>
    decide (settings.minViolation < computeViolation cut xstar)).map
      (⟨rows, reversed, aggregate, ·⟩)).toList

def mod2GenerateCutsFromAggregate (n : ℕ) (rows : List ℕ) (reversed : Bool)
    (aggregate : Inequality) : List ZeroHalfCut :=
  let stops := settings.aggregateStops n reversed
  if stops 0 then []
  else
    addTransformedZeroHalfCut lp s settings xstar rows reversed aggregate
        (generateCutNonnegative lp.varTypes aggregate) ++
      if stops 1 then []
      else
        addTransformedZeroHalfCut lp s settings xstar rows reversed aggregate
          (if stops 2 then none
            else generateLiftedMixedBinaryCover lp.varTypes s (fun j => (s j).transformedXstar)
              settings.coverTolerance std (fun k => stops (3 + k)) aggregate)

def zeroHalfLoop (candidates : List Mod2Candidate) : List (List ℕ) → ℕ → List ZeroHalfCut
  | [], _ => []
  | combination :: rest, n =>
    if settings.combinationStops n then []
    else
      let used := combination.filterMap (candidates[·]?)
      let aggregate := halfSum lp used
      let rows := used.map Mod2Candidate.row
      mod2GenerateCutsFromAggregate lp s settings std xstar n rows false aggregate ++
        (if (used.all Mod2Candidate.reversible) && !settings.reverseStops n then
          mod2GenerateCutsFromAggregate lp s settings std xstar n rows true aggregate.negate
        else []) ++
        zeroHalfLoop candidates rest (n + 1)

end Candidates

def CutSetting.generateMod2ZeroHalfCuts (lp : CutSetting) (std : Sorter) (xstar : ℕ → ℚ)
    (settings : ZeroHalfSettings) : List ZeroHalfCut :=
  let s := lp.substitution xstar true
  let candidates :=
    mod2CollectCandidates lp.toLpProblem s settings (List.range lp.numRows)
  if settings.stopsEarly then []
  else
    match findMod2RowCombinations (candidates.map Mod2Candidate.toMod2ParityRow)
      { settings.limits with maxCombinationSize := 64, maxCombinations := 1000 } with
    | none => []
    | some e => zeroHalfLoop lp.toLpProblem s settings std xstar candidates e.combinations 0

end CuOpt.Cuts
