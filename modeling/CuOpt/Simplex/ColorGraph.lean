import CuOpt.Simplex.Problem

/-! `color_graph`: refinement of a coloring of the rows and the columns of a matrix until rows of one
color have equal sums over every column color and columns of one color over every row color. -/

namespace CuOpt.Simplex

open Function (update)

inductive Side
  | row
  | col
  deriving DecidableEq

def Side.other : Side → Side
  | .row => .col
  | .col => .row

structure WeightMatrix (K : Type*) where
  m : ℕ
  n : ℕ
  col : ℕ → List (ℕ × K)

namespace WeightMatrix

variable {K : Type*}

def row (A : WeightMatrix K) (i : ℕ) : List (ℕ × K) :=
  (List.range A.n).flatMap fun j => ((A.col j).filter fun p => p.1 = i).map fun p => (j, p.2)

def size (A : WeightMatrix K) : Side → ℕ
  | .row => A.m
  | .col => A.n

def line (A : WeightMatrix K) : Side → ℕ → List (ℕ × K)
  | .row => A.row
  | .col => A.col

end WeightMatrix

/-- The order in which the hash set of vertices of a color is walked. A color only loses vertices, so
that the order may depend on all that happened to the set. -/
structure IterationOrder where
  list : ℕ → Finset ℕ → List ℕ
  nodup : ∀ c s, (list c s).Nodup
  mem_list : ∀ c s v, v ∈ list c s ↔ v ∈ s

structure Color where
  side : Side
  active : Bool
  vertices : Finset ℕ

structure Coloring where
  colors : ℕ → Color
  colorStack : List ℕ
  colorMap : Side → ℕ → ℕ
  numSideColors : Side → ℕ
  totalColorsSeen : ℕ

structure RefinedSums (K : Type*) where
  verticesToRefineByColor : ℕ → List ℕ
  colorsToUpdate : List ℕ
  vertexToSum : ℕ → K

section Refinement

variable {K : Type*} [AddCommMonoid K] [LinearOrder K]

def lineSum (l : List (ℕ × K)) (v : ℕ) : K := ((l.filter fun p => p.1 = v).map Prod.snd).sum

def computeSums (A : WeightMatrix K) (order : IterationOrder) (state : Coloring)
    (refiningColor : ℕ) : RefinedSums K :=
  let color := state.colors refiningColor
  let entries := (order.list refiningColor color.vertices).flatMap (A.line color.side)
  let verticesToRefine := distinct (entries.map Prod.fst)
  let colorMap := state.colorMap color.side.other
  { verticesToRefineByColor := fun c => verticesToRefine.filter fun v => colorMap v = c
    colorsToUpdate := distinct (verticesToRefine.map colorMap)
    vertexToSum := lineSum entries }

def minMaxSum (sums : RefinedSums K) (state : Coloring) (color : ℕ) : K × K :=
  let seen := (sums.verticesToRefineByColor color).map sums.vertexToSum
  let maxSum := seen.foldl max (seen.headD 0)
  let minSum := seen.foldl min maxSum
  if (sums.verticesToRefineByColor color).length ≠ (state.colors color).vertices.card then
    (min minSum 0, max maxSum 0)
  else (minSum, maxSum)

def findColorsToSplit (sums : RefinedSums K) (state : Coloring) : Option (List ℕ) :=
  if sums.colorsToUpdate.any fun c => (minMaxSum sums state c).2 < (minMaxSum sums state c).1 then
    none
  else some (sums.colorsToUpdate.filter fun c =>
    (minMaxSum sums state c).1 < (minMaxSum sums state c).2)

def addColor (side : Side) (state : Coloring) (vertices : List ℕ) : Coloring :=
  { colors := update state.colors state.totalColorsSeen ⟨side, true, vertices.toFinset⟩
    colorStack := state.totalColorsSeen :: state.colorStack
    colorMap := update state.colorMap side fun v =>
      if v ∈ vertices then state.totalColorsSeen else state.colorMap side v
    numSideColors := update state.numSideColors side (state.numSideColors side + 1)
    totalColorsSeen := state.totalColorsSeen + 1 }

def partSums (sums : RefinedSums K) (state : Coloring) (color : ℕ) : List K :=
  let touched := sums.verticesToRefineByColor color
  let zero := if touched.length ≠ (state.colors color).vertices.card then [0] else []
  (touched.map sums.vertexToSum ++ zero).dedup.insertionSort (· ≤ ·)

def sumToSize (sums : RefinedSums K) (state : Coloring) (color : ℕ) (sum : K) : ℕ :=
  let touched := sums.verticesToRefineByColor color
  (touched.filter fun v => sums.vertexToSum v = sum).length +
    if sum = 0 then (state.colors color).vertices.card - touched.length else 0

def largestSum (size : K → ℕ) (keys : List K) : Option K :=
  keys.foldl (fun best sum =>
    match best with
    | none => some sum
    | some b => if size b < size sum then some sum else some b) none

/-- `color_sums`: for the sum zero also the vertices that were not touched, if they have to move. -/
def partVertices (order : IterationOrder) (sums : RefinedSums K) (state : Coloring) (color : ℕ)
    (adjustZero : Bool) (sum : K) : List ℕ :=
  let touched := (sums.verticesToRefineByColor color).filter fun v => sums.vertexToSum v = sum
  -- the sums of the touched vertices were overwritten by `NaN`
  touched ++ if adjustZero && sum = 0 then
    (order.list color (state.colors color).vertices).filter fun v =>
      sums.vertexToSum v = 0 && v ∉ touched
  else []

/-- The largest part keeps the number of the color and its place in the stack. -/
def splitColors (order : IterationOrder) (side : Side) (sums : RefinedSums K) (state : Coloring)
    (color : ℕ) : Option Coloring :=
  let touched := sums.verticesToRefineByColor color
  let whole := (state.colors color).vertices
  let keys := partSums sums state color
  let size := sumToSize sums state color
  let maxSum := largestSum size keys
  let largestIsZero := maxSum = some 0
  let adjustZero : Bool := ¬largestIsZero ∧ 0 ∈ keys
  let vertices := partVertices order sums state color adjustZero
  let partSize sum := (vertices sum).length +
    if sum = 0 ∧ adjustZero = false then whole.card - touched.length else 0
  let isLargest sum : Bool := maxSum = some sum ∧ partSize sum = size sum
  if whole.card < touched.length then none
  else if keys.length = 1 then none
  else if (keys.map partSize).sum ≠ whole.card then none
  else
    let moved := (keys.filter fun sum => !isLargest sum).foldl
      (fun state sum => addColor side state (vertices sum)) state
    let kept := whole.filter fun v => ¬(v ∈ touched ∧ moved.colorMap side v ≠ color) ∧
      ¬(¬largestIsZero ∧ v ∈ vertices 0)
    let emptied := kept.card = 0
    some { moved with
      colors := update moved.colors color
        ⟨(moved.colors color).side, (moved.colors color).active && ¬emptied, kept⟩
      numSideColors := update moved.numSideColors side
        (moved.numSideColors side - if emptied then 1 else 0) }

def refineBy (A : WeightMatrix K) (order : IterationOrder) (state : Coloring)
    (refiningColor : ℕ) : Option Coloring := do
  let sums := computeSums A order state refiningColor
  let colorsToSplit ← findColorsToSplit sums state
  colorsToSplit.foldlM (splitColors order (state.colors refiningColor).side.other sums) state

structure ColorThresholds where
  row : ℕ
  col : ℕ

def withinThresholds (A : WeightMatrix K) (thresholds : ColorThresholds) (state : Coloring) : Bool :=
  state.numSideColors .row < max A.m A.n && state.numSideColors .col < max A.m A.n &&
    state.numSideColors .row ≤ thresholds.row && state.numSideColors .col ≤ thresholds.col

def refineColors (A : WeightMatrix K) (order : IterationOrder) (thresholds : ColorThresholds) :
    ℕ → Coloring → Option Coloring
  | 0, state => some state
  | fuel + 1, state =>
    match state.colorStack with
    | [] => some state
    | refiningColor :: rest =>
      match refineBy A order { state with colorStack := rest } refiningColor with
      | none => none
      | some state =>
        if withinThresholds A thresholds state then refineColors A order thresholds fuel state
        else none

def initialColoring (A : WeightMatrix K) : Coloring where
  colors := fun c => if c = 0 then ⟨.row, true, Finset.range A.m⟩ else ⟨.col, true, Finset.range A.n⟩
  colorStack := [1, 0]
  colorMap := fun side _ => match side with
    | .row => 0
    | .col => 1
  numSideColors := fun _ => 1
  totalColorsSeen := 2

def colorLowerBound (A : WeightMatrix K) (side : Side) : ℕ :=
  ((List.range (A.size side)).map fun u => ((A.line side u).map Prod.snd).sum).dedup.length

/-- `none` is `COLORING_FAILED`. Each color leaves the stack once, and there are at most as many as
there are vertices. -/
def colorGraph (A : WeightMatrix K) (order : IterationOrder) (thresholds : ColorThresholds) :
    Option Coloring :=
  if thresholds.row < colorLowerBound A .row || thresholds.col < colorLowerBound A .col then none
  else refineColors A order thresholds (A.m + A.n) (initialColoring A)

end Refinement

end CuOpt.Simplex
