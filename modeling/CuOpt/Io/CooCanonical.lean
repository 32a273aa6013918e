import CuOpt.Library.CountingScatter

/-! Quadratic matrices of a problem file as coordinate lists: the entries are ordered by their upper
triangular pair with two counting passes over compressed indices, then merged or checked run by run. -/

namespace CuOpt.Io

open BufferWrites CountingScatter

structure Coo where
  rows : List ℤ
  cols : List ℤ
  vals : List ℚ
  deriving DecidableEq

namespace Coo

def ofEntries (entries : List (ℤ × ℤ × ℚ)) : Coo :=
  ⟨entries.map fun e => e.1, entries.map fun e => e.2.1, entries.map fun e => e.2.2⟩

def entries (m : Coo) : List (ℤ × ℤ × ℚ) := m.rows.zip (m.cols.zip m.vals)

def row (m : Coo) (k : ℕ) : ℤ := m.rows.getD k 0

def col (m : Coo) (k : ℕ) : ℤ := m.cols.getD k 0

def val (m : Coo) (k : ℕ) : ℚ := m.vals.getD k 0

def push (m : Coo) (row col : ℤ) (val : ℚ) : Coo :=
  ⟨m.rows ++ [row], m.cols ++ [col], m.vals ++ [val]⟩

end Coo

structure CooScratch where
  rowRank : List ℕ
  colRank : List ℕ
  sortedValues : List ℤ
  order : List ℕ
  passScratch : List ℕ
  count : List ℕ
  outRows : List ℤ
  outCols : List ℤ
  outVals : List ℚ

inductive CooError
  | lengthMismatch
  | duplicateEntry (row col : ℤ)
  | missingTranspose (row col : ℤ)
  | unequalTranspose (row col : ℤ) (value transposed : ℚ)
  deriving DecidableEq

def CooError.format : CooError → String
  | .lengthMismatch => "COO rows/cols/vals length mismatch"
  | .duplicateEntry _ _ => "QCMATRIX duplicate entry (%d,%d)"
  | .missingTranspose _ _ => "QCMATRIX off-diagonal (%d,%d) requires a matching (%d,%d) entry"
  | .unequalTranspose _ _ _ _ => "QCMATRIX symmetric off-diagonals (%d,%d) and (%d,%d) must match; " ++
      "got %.17g and %.17g"

section Buffers

variable {α : Type*}

def resize (l : List α) (n : ℕ) (d : α) : List α := l.take n ++ List.replicate (n - l.length) d

/-- A buffer of `n` cells, whatever it held, overwritten from its start to its end. -/
def overwrite (l : List α) (n : ℕ) (d : α) (f : ℕ → α) : List α :=
  writeAll (fun k => k) (fun _ k => f k) (resize l n d) (List.range n)

end Buffers

def countingSortPass (key : List ℕ) (keyRange : ℕ) (order scratch : List ℕ) :
    List ℕ × List ℕ × List ℕ :=
  let keyOf := fun entry => key.getD entry 0
  let count := offsets keyRange keyOf order
  let written := scatter (fun _ => 0) keyOf id count scratch order
  (written.2, order, written.1)

/-- The loop counts how often `v - 1` can be halved before it is 0. -/
def log2Ceil (v : ℕ) : ℕ := if v ≤ 1 then 1 else Nat.size (v - 1)

section Compress

variable (rows cols : List ℤ)

def pairRow (k : ℕ) : ℤ := min (rows.getD k 0) (cols.getD k 0)

def pairCol (k : ℕ) : ℤ := max (rows.getD k 0) (cols.getD k 0)

def minIndex : ℤ :=
  (List.range rows.length).foldl (fun m k => min (min m (rows.getD k 0)) (cols.getD k 0))
    (rows.getD 0 0)

def maxIndex : ℤ :=
  (List.range rows.length).foldl (fun m k => max (max m (rows.getD k 0)) (cols.getD k 0))
    (rows.getD 0 0)

def indexRange : ℕ := (maxIndex rows cols - minIndex rows cols).toNat + 1

def writeRanks (rank : ℤ → ℕ) (s : CooScratch) : CooScratch :=
  { s with
    rowRank := overwrite s.rowRank rows.length 0 fun k => rank (pairRow rows cols k)
    colRank := overwrite s.colRank rows.length 0 fun k => rank (pairCol rows cols k) }

def compressDirect (s : CooScratch) : CooScratch × ℕ :=
  let low := minIndex rows cols
  let range := indexRange rows cols
  let s := writeRanks rows cols (fun v => (v - low).toNat) s
  ({ s with sortedValues := overwrite s.sortedValues range 0 fun t => low + t }, range)

def distinctIndices : List ℤ := ((rows ++ cols).insertionSort (· ≤ ·)).destutter (· ≠ ·)

def lowerBound (values : List ℤ) (v : ℤ) : ℕ := values.findIdx fun w => !decide (w < v)

def compressRanking (s : CooScratch) : CooScratch × ℕ :=
  let values := distinctIndices rows cols
  let s := writeRanks rows cols (lowerBound values) s
  ({ s with sortedValues := values }, values.length)

def directCost : ℕ := 2 * rows.length + 2 * indexRange rows cols

def rankingCost : ℕ := 2 * rows.length * log2Ceil (2 * rows.length)

def compressCanonicalPairs (s : CooScratch) : CooScratch × ℕ :=
  if directCost rows cols ≤ rankingCost rows then compressDirect rows cols s
  else compressRanking rows cols s

end Compress

/-- A way to compress the pairs: what it leaves in the scratch and the number of its ranks. -/
abbrev Compress := List ℤ → List ℤ → CooScratch → CooScratch × ℕ

def orderByCanonicalPair (compress : Compress) (rows cols : List ℤ) (s : CooScratch) : CooScratch :=
  let nnz := rows.length
  let compressed := compress rows cols s
  let s := compressed.1
  let order := overwrite s.order nnz 0 id
  let byCol := countingSortPass s.colRank compressed.2 order (resize s.passScratch nnz 0)
  let byRow := countingSortPass s.rowRank compressed.2 byCol.1 byCol.2.1
  { s with order := byRow.1, passScratch := byRow.2.1, count := byRow.2.2 }

def CooScratch.sameRun (s : CooScratch) (a e : ℕ) : Bool :=
  s.rowRank.getD e 0 == s.rowRank.getD a 0 && s.colRank.getD e 0 == s.colRank.getD a 0

def checkRun (eps : ℚ) (m : Coo) (s : CooScratch) (a : ℕ) (rest : List ℕ) : Except CooError Unit :=
  if s.rowRank.getD a 0 = s.colRank.getD a 0 then
    if rest = [] then .ok () else .error (.duplicateEntry (m.row a) (m.col a))
  else
    match rest with
    | [] => .error (.missingTranspose (m.row a) (m.col a))
    | b :: more =>
      if more = [] ∧ m.row a ≠ m.row b then
        if |m.val a - m.val b| ≤ eps then .ok ()
        else .error (.unequalTranspose (m.row a) (m.col a) (m.val a) (m.val b))
      else .error (.duplicateEntry (m.row b) (m.col b))

def checkRuns (eps : ℚ) (m : Coo) (s : CooScratch) : List ℕ → Except CooError Unit
  | [] => .ok ()
  | a :: order => do
    checkRun eps m s a (order.takeWhile (s.sameRun a))
    checkRuns eps m s (order.dropWhile (s.sameRun a))
  termination_by order => order.length
  decreasing_by exact Nat.lt_succ_of_le (List.dropWhile_sublist _).length_le

def checkSymmetricOffdiagonalPairs (eps : ℚ) (m : Coo) (s : CooScratch) :
    Except CooError CooScratch :=
  if m.rows.length = m.vals.length ∧ m.cols.length = m.vals.length then
    if m.vals = [] then .ok s
    else do
      let s := orderByCanonicalPair compressCanonicalPairs m.rows m.cols s
      checkRuns eps m s s.order
      .ok s
  else .error .lengthMismatch

def mergeRuns (eps : ℚ) (m : Coo) (s : CooScratch) : List ℕ → Coo → Coo
  | [], out => out
  | a :: order, out =>
    let row := s.rowRank.getD a 0
    let col := s.colRank.getD a 0
    let sum := (order.takeWhile (s.sameRun a)).foldl (fun sum e => sum + m.val e) (m.val a)
    mergeRuns eps m s (order.dropWhile (s.sameRun a))
      (if eps < |sum| then out.push (s.sortedValues.getD row 0) (s.sortedValues.getD col 0) sum
      else out)
  termination_by order => order.length
  decreasing_by exact Nat.lt_succ_of_le (List.dropWhile_sublist _).length_le

/-- The matrix afterwards, and the scratch, which keeps the old lists as its staging buffers. -/
def canonicalizeCooMatrixWith (compress : Compress) (eps : ℚ) (m : Coo) (s : CooScratch) :
    Except CooError (Coo × CooScratch) :=
  if m.rows.length = m.vals.length ∧ m.cols.length = m.vals.length then
    if m.vals = [] then .ok (⟨[], [], []⟩, s)
    else
      let s := orderByCanonicalPair compress m.rows m.cols s
      let out := mergeRuns eps m s s.order ⟨[], [], []⟩
      .ok (out, { s with outRows := m.rows, outCols := m.cols, outVals := m.vals })
  else .error .lengthMismatch

def canonicalizeCooMatrix (eps : ℚ) (m : Coo) (s : CooScratch) : Except CooError (Coo × CooScratch) :=
  canonicalizeCooMatrixWith compressCanonicalPairs eps m s

end CuOpt.Io
