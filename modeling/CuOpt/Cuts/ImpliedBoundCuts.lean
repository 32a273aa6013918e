import CuOpt.Cuts.ScoreCutsSound

/-! The cuts from the implied bounds that probing found: their two indices are stored in the order of the
implication, which the choice of cuts does not expect. -/

namespace CuOpt.Cuts

open SparseList Sorting

/-- Fixing a binary variable bounds `target`; `none` is an infinite bound. -/
structure BoundImplication where
  target : ℕ
  lower : Option ℚ
  upper : Option ℚ

structure ProbingImpliedBound where
  numCols : ℕ
  zero : ℕ → List BoundImplication
  one : ℕ → List BoundImplication

structure BoundedProblem where
  numCols : ℕ
  varTypes : ℕ → VariableType
  lower : ℕ → Option ℚ
  upper : ℕ → Option ℚ

abbrev SimpleCut := { c : Inequality // (keys c.vector).Nodup }

section Generate

variable (lp : BoundedProblem) (xstar : ℕ → ℚ)

def impliedTolerance : ℚ := 1 / 10 ^ 4

def violatedCut (i j : ℕ) (hne : i ≠ j) (coeffI coeffJ rhs : ℚ) : List SimpleCut :=
  if coeffI * xstar i + coeffJ * xstar j < rhs - impliedTolerance then
    [⟨⟨[(i, coeffI), (j, coeffJ)], rhs⟩, by simpa [keys] using hne⟩]
  else []

/-- The tightened bounds at `x j = 0`; with an infinite bound of the problem the comparison of the
violation fails. -/
def zeroCuts (j : ℕ) (p : BoundImplication) : List SimpleCut :=
  let i := p.target
  if hne : i ≠ j then
    (match p.upper, lp.upper i with
      | some b, some u =>
        if b < u - impliedTolerance then violatedCut xstar i j hne (-1) (u - b) (-b) else []
      | _, _ => []) ++
    match p.lower, lp.lower i with
    | some b, some l =>
      if l + impliedTolerance < b then violatedCut xstar i j hne 1 (b - l) b else []
    | _, _ => []
  else []

def oneCuts (j : ℕ) (p : BoundImplication) : List SimpleCut :=
  let i := p.target
  if hne : i ≠ j then
    (match p.upper, lp.upper i with
      | some b, some u =>
        if b < u - impliedTolerance then violatedCut xstar i j hne (-1) (-(u - b)) (-u) else []
      | _, _ => []) ++
    match p.lower, lp.lower i with
    | some b, some l =>
      if l + impliedTolerance < b then violatedCut xstar i j hne 1 (-(b - l)) l else []
    | _, _ => []
  else []

structure ImpliedState where
  pool : CutPool
  work : ℕ
  returned : Bool

def maxImpliedWork : ℕ := 10 ^ 8

def ImpliedState.check (st : ImpliedState) (timeUp : Bool) : ImpliedState :=
  if maxImpliedWork < st.work || timeUp then { st with returned := true } else st

def addImplied (cuts : BoundImplication → List SimpleCut) (st : ImpliedState) (p : BoundImplication) :
    ImpliedState :=
  (cuts p).foldl
    (fun st c => { st with pool := st.pool.addCut .impliedBound c.1 c.2, work := st.work + 16 })
    { st with work := st.work + 16 }

def impliedOf (probing : ProbingImpliedBound) (clock : ℕ → ℕ → Bool) (st : ImpliedState) (j : ℕ) :
    ImpliedState :=
  if st.returned then st
  else
    let st := st.check (clock j 0)
    if st.returned then st
    else if lp.varTypes j = .continuous then st
    else
      let st := ((probing.zero j).foldl (addImplied (zeroCuts lp xstar j)) st).check (clock j 1)
      if st.returned then st
      else ((probing.one j).foldl (addImplied (oneCuts lp xstar j)) st).check (clock j 2)

def generateImpliedBoundCuts (probing : ProbingImpliedBound) (clock : ℕ → ℕ → Bool) (pool : CutPool) :
    CutPool :=
  ((List.range (min lp.numCols probing.numCols)).foldl (impliedOf lp xstar probing clock)
    ⟨pool, 0, false⟩).pool

end Generate

section OutOfOrder

def threeColumns : BoundedProblem where
  numCols := 3
  varTypes j := if j = 2 then .continuous else .binary
  lower _ := some 0
  upper j := if j = 2 then some 10 else some 1

def oneImplication : ProbingImpliedBound where
  numCols := 3
  zero j := if j = 1 then [⟨2, none, some (38 / 5)⟩] else []
  one _ := []

def atTen (j : ℕ) : ℚ := if j = 2 then 10 else 0

def outOfOrder : CutPool :=
  (generateImpliedBoundCuts threeColumns atTen oneImplication (fun _ _ => false)
    (CutPool.empty 3)).addCut .mixedIntegerRounding ⟨[(0, 3), (1, 4)], 5⟩ (by decide)

def exactSetting : ScoreSetting ℚ := ⟨Rat.sqrt, insertionSorter, 1 / 2⟩

def lenientSetting : ScoreSetting ℚ := { exactSetting with minOrthogonality := 1 / 4 }

end OutOfOrder

end CuOpt.Cuts
