import CuOpt.Library.SortedMap
import CuOpt.Presolve.IntegerScaling

/-! Coefficient reduction of rows over 0/1 variables. A row is scaled to integers, its negative
coefficients are complemented and its coefficients sorted; of the weights that separate its feasible from
its infeasible points the first that do not weaken the relaxation are taken. -/

namespace CuOpt.Presolve

open Cuts Sorting
open List (range)

def maxLen : ℕ := 12

def exactMaxWeight : ℕ := 6

def intScaleMax : ℤ := 1000000

inductive Direction where
  | lessEqual
  | greaterEqual
  deriving DecidableEq

def Direction.sign : Direction → ℤ
  | lessEqual => 1
  | greaterEqual => -1

def pointActivity {K : Type} [AddCommMonoid K] (a : List K) (mask : ℕ) : K :=
  (((range a.length).filter fun i => mask.testBit i).map fun i => a.getD i 0).sum

def weightActivity (w : List ℕ) (mask : ℕ) : ℕ := pointActivity w mask

/-- Coefficients that are positive and sorted, and a side: what of a normalized row the reduction reads. -/
structure RowShape where
  coef : List ℕ
  rhs : ℤ
  deriving DecidableEq

def RowShape.feasible (row : RowShape) (m : ℕ) : Bool := decide ((weightActivity row.coef m : ℤ) ≤ row.rhs)

def RowShape.maximal (row : RowShape) (m : ℕ) : Bool :=
  (range row.coef.length).all fun i => m.testBit i || !row.feasible (m ||| 1 <<< i)

def RowShape.minimal (row : RowShape) (m : ℕ) : Bool :=
  (range row.coef.length).all fun i => !m.testBit i || row.feasible (m ^^^ 1 <<< i)

def RowShape.strictAt (row : RowShape) (i : ℕ) : Bool :=
  decide (row.coef.getD (i + 1) 0 < row.coef.getD i 0) &&
    (range (2 ^ row.coef.length)).any fun m =>
      !m.testBit i && m.testBit (i + 1) && row.feasible m && !row.feasible ((m ^^^ 1 <<< (i + 1)) ||| 1 <<< i)

structure Partition where
  maximalFeasible : List ℕ
  minimalInfeasible : List ℕ
  strict : List Bool
  deriving DecidableEq

def Partition.suffixStrict (part : Partition) (pos : ℕ) : ℕ := (part.strict.drop pos).count true

def buildPartition (row : RowShape) : Option Partition :=
  let points := range (2 ^ row.coef.length)
  let nFeasible := points.countP row.feasible
  if nFeasible = 0 ∨ nFeasible = 2 ^ row.coef.length then none
  else some {
    maximalFeasible := points.filter fun m => row.feasible m && row.maximal m
    minimalInfeasible := points.filter fun m => !row.feasible m && row.minimal m
    strict := (range (row.coef.length - 1)).map row.strictAt }

/-- The bound of the weights, when it is below their activity at every minimal infeasible point. -/
def accepts (part : Partition) (w : List ℕ) : Option ℤ :=
  let hi := part.maximalFeasible.foldl (fun hi m => max hi (weightActivity w m : ℤ)) (-2 ^ 63)
  let lo := part.minimalInfeasible.foldl (fun lo m => min lo (weightActivity w m : ℤ)) int64Max
  if hi < lo then some hi else none

structure Weighted (w : List ℕ) where
  index : ℕ
  hasWeight : w.getD index 0 ≠ 0

def weightedItems (w : List ℕ) (k : ℕ) : List (Weighted w) :=
  (range k).filterMap fun i => if h : w.getD i 0 ≠ 0 then some ⟨i, h⟩ else none

/-- The larger ratio of coefficient and weight first, then the smaller index. -/
def ratioBefore (coef w : List ℕ) (x y : Weighted w) : Bool :=
  let dx := coef.getD x.index 0 * w.getD y.index 0
  let dy := coef.getD y.index 0 * w.getD x.index 0
  if dx ≠ dy then decide (dy < dx) else decide (x.index < y.index)

def fillCapacity (coef w : List ℕ) : List ℕ → ℤ → ℤ → ℤ × ℤ × Option ℕ
  | [], value, capacity => (value, capacity, none)
  | i :: order, value, capacity =>
    if (w.getD i 0 : ℤ) ≤ capacity then
      fillCapacity coef w order (value + coef.getD i 0) (capacity - w.getD i 0)
    else (value, capacity, if 0 < capacity then some i else none)

def lpNoWeakening (std : Sorter) (row : RowShape) (w : List ℕ) (t : ℤ) : Bool :=
  let free := (range row.coef.length).filter fun i => decide (w.getD i 0 = 0)
  let order := std.sort (ratioBefore row.coef w) (weightedItems w row.coef.length)
  match fillCapacity row.coef w (order.map Weighted.index) (free.map fun i => row.coef.getD i 0).sum t with
  | (value, _, none) => decide (value ≤ row.rhs)
  | (value, capacity, some fractional) =>
    decide (value * w.getD fractional 0 + capacity * row.coef.getD fractional 0 ≤
      row.rhs * w.getD fractional 0)

structure Reduction where
  weights : List ℕ
  bound : ℤ
  deriving DecidableEq

def Reduction.nonzeros (r : Reduction) : ℕ := r.weights.countP fun v => decide (v ≠ 0)

def acceptWeights (std : Sorter) (row : RowShape) (part : Partition) (w : List ℕ) : Option Reduction :=
  match accepts part w with
  | none => none
  | some bound => if lpNoWeakening std row w bound then some ⟨w, bound⟩ else none

def keepBest (best : Option Reduction) (r : Reduction) : Option Reduction :=
  match best with
  | none => some r
  | some b =>
    if b.nonzeros < r.nonzeros ∨ (r.nonzeros = b.nonzeros ∧ b.weights.sum ≤ r.weights.sum) then some b
    else some r

def countDown (upper : ℤ) (lower : ℕ) : List ℕ :=
  (range (upper + 1 - lower).toNat).map fun d => (upper - d).toNat

def searchPositions (std : Sorter) (row : RowShape) (part : Partition) :
    ℕ → List ℕ → Option Reduction → Option Reduction
  | 0, w, best =>
    match acceptWeights std row part w with
    | none => best
    | some r => keepBest best r
  | remaining + 1, w, best =>
    let pos := w.length
    let upper : ℤ := w.getD (pos - 1) 0 - if part.strict.getD (pos - 1) false then 1 else 0
    (countDown upper (part.suffixStrict pos)).foldl
      (fun best v => searchPositions std row part remaining (w ++ [v]) best) best

/-- The coefficients divided by the last, rounded, and the row of ones. -/
def heuristicCandidates (row : RowShape) : List (List ℕ) :=
  let aMin := row.coef.getLastD 0
  [row.coef.map fun a => (a + aMin / 2) / aMin, row.coef.map fun _ => 1]

structure HeuristicBest where
  bestMax : ℕ
  bestNonzeros : ℕ
  found : Option Reduction
  deriving DecidableEq

def tryCandidate (std : Sorter) (row : RowShape) (part : Partition) (best : HeuristicBest)
    (candidate : List ℕ) : HeuristicBest :=
  match acceptWeights std row part candidate with
  | none => best
  | some r =>
    let candidateMax := candidate.foldl max 0
    if best.bestMax < candidateMax ∨ (candidateMax = best.bestMax ∧ best.bestNonzeros ≤ r.nonzeros) then best
    else ⟨candidateMax, r.nonzeros, some r⟩

def heuristicReduce (std : Sorter) (row : RowShape) (part : Partition) : Option Reduction :=
  ((heuristicCandidates row).foldl (tryCandidate std row part)
    ⟨row.coef.headD 0, row.coef.length, none⟩).found

def reduceShape (std : Sorter) (row : RowShape) : Option Reduction := do
  let part ← buildPartition row
  let current := row.coef.headD 0
  if current ≤ part.suffixStrict 0 then none
  else
    let mLow := max (part.suffixStrict 0) 1
    let mHigh := min exactMaxWeight (current - 1)
    match (List.range' mLow (mHigh + 1 - mLow)).findSome? fun m =>
        searchPositions std row part (row.coef.length - 1) [m] none with
    | some r => some r
    | none => heuristicReduce std row part

def RowShape.key (row : RowShape) : List ℤ := row.coef.map Nat.cast ++ [row.rhs]

structure ShapeCache (std : Sorter) where
  results : SortedMap (List ℤ) (Option Reduction)
  sound : ∀ row r, results.get? (RowShape.key row) = some r → r = reduceShape std row

lemma RowShape.key_injective : Function.Injective RowShape.key := by
  intro row row' h
  obtain ⟨hcoef, hrhs⟩ := List.append_inj' h rfl
  obtain ⟨coef, rhs⟩ := row
  obtain ⟨coef', rhs'⟩ := row'
  have hcoef' : coef = coef' := List.map_injective_iff.mpr Nat.cast_injective hcoef
  have hrhs' : rhs = rhs' := List.singleton_inj.mp hrhs
  rw [hcoef', hrhs']

def ShapeCache.empty (std : Sorter) : ShapeCache std where
  results := SortedMap.empty
  sound _ _ h := nomatch h

def ShapeCache.emplace {std : Sorter} (cache : ShapeCache std) (row : RowShape) : ShapeCache std where
  results := cache.results.insert row.key (reduceShape std row)
  sound row' r h := by
    rw [SortedMap.get?_insert] at h
    split_ifs at h with heq
    · rw [RowShape.key_injective heq]
      exact (Option.some.inj h).symm
    · exact cache.sound row' r h

def cachedReduce {std : Sorter} (cache : Option (ShapeCache std)) (row : RowShape) :
    Option Reduction × Option (ShapeCache std) :=
  match cache with
  | none => (reduceShape std row, none)
  | some cache =>
    match cache.results.get? row.key with
    | some r => (r, some cache)
    | none => (reduceShape std row, some (cache.emplace row))

/-- A coefficient in its normal form: its place in the row and whether its variable is complemented. -/
structure NormEntry where
  coef : ℕ
  slot : ℕ
  flipped : Bool
  deriving DecidableEq

def normEntries (std : Sorter) (integral : List ℤ) : List NormEntry :=
  let magnitude := fun x => (integral.getD x 0).natAbs
  let order := std.sort
    (fun x y => if magnitude x ≠ magnitude y then decide (magnitude y < magnitude x) else decide (x < y))
    (range integral.length)
  order.map fun j => ⟨magnitude j, j, decide (integral.getD j 0 < 0)⟩

def normRhs (integral : List ℤ) (integralSide : ℤ) : ℤ :=
  (integral.filter fun a => decide (a < 0)).foldl (fun rhs a => rhs - a) integralSide

def integerizationPreservesBinaryFeasibleSet (coefficients : List ℚ) (side : ℚ) (direction : Direction)
    (integral : List ℤ) (integralSide : ℤ) : Bool :=
  (range (2 ^ coefficients.length)).all fun m =>
    let originalFeasible := match direction with
      | .lessEqual => decide (pointActivity coefficients m ≤ side)
      | .greaterEqual => decide (side ≤ pointActivity coefficients m)
    originalFeasible == decide (pointActivity integral m ≤ integralSide)

structure RowRewrite where
  coefficients : List ℤ
  side : ℤ
  maxCoefBefore : ℕ
  maxCoefAfter : ℕ
  deriving DecidableEq

def placeWeight (st : List ℤ × ℤ) (q : NormEntry × ℕ) : List ℤ × ℤ :=
  if q.1.flipped then (st.1.set q.1.slot (-q.2), st.2 - q.2) else (st.1.set q.1.slot q.2, st.2)

def undoNormalization (direction : Direction) (len : ℕ) (entries : List NormEntry) (r : Reduction) :
    List ℤ × ℤ :=
  let undone := (entries.zip r.weights).foldl placeWeight (List.replicate len 0, r.bound)
  (undone.1.map fun c => c * direction.sign, undone.2 * direction.sign)

def integralRow (coefficients : List ℚ) (side : ℚ) (direction : Direction) (scale : ℚ) : List ℤ × ℤ :=
  (coefficients.map fun c => stdRound (c * scale) * direction.sign, stdRound (side * scale) * direction.sign)

def bhwReduceRow (std : Sorter) (coefficients : List ℚ) (side : ℚ) (direction : Direction)
    (cache : Option (ShapeCache std)) : Option RowRewrite × Option (ShapeCache std) :=
  if coefficients.length < 2 ∨ maxLen < coefficients.length then (none, cache)
  else if !scalingBoundFinite side then (none, cache)
  else match rowIntScale coefficients side maxLen intScaleMax with
  | none => (none, cache)
  | some scale =>
    let (integral, integralSide) := integralRow coefficients side direction scale
    if 0 ∈ integral then (none, cache)
    else if integral.all fun a => decide (a.natAbs ≤ 1) then (none, cache)
    else
      let entries := normEntries std integral
      let row : RowShape := ⟨entries.map NormEntry.coef, normRhs integral integralSide⟩
      let (result, cache) := cachedReduce cache row
      match result with
      | none => (none, cache)
      | some r =>
        if !integerizationPreservesBinaryFeasibleSet coefficients side direction integral integralSide then
          (none, cache)
        else
          let (newCoefficients, newSide) := undoNormalization direction coefficients.length entries r
          (some ⟨newCoefficients, newSide, row.coef.headD 0, r.weights.headD 0⟩, cache)

end CuOpt.Presolve
