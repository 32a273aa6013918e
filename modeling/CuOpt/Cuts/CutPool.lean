import CuOpt.Cuts.Inequality

/-! The pool of cuts and the removal of duplicates from it: the cuts are split column by column into
sets of candidates, whose members are found through groups of entries built once for a column. -/

namespace CuOpt.Cuts

open SparseList List
open Function (update)

inductive CutType where
  | mixedIntegerGomory
  | mixedIntegerRounding
  | knapsack
  | chvatalGomory
  | clique
  | impliedBound
  | zeroHalf
  | flowCover
  deriving DecidableEq

/-- The id of a set of candidates: zero for a cut without an entry so far, and `⊤` is the sentinel. -/
abbrev SetId := WithTop ℕ

section Groups

/-- Entries of one set are contiguous in `entries`, in ascending order; the arrays are reused. -/
structure SetGroups where
  firstEntry : ℕ
  bucketBySet : List (Option ℕ)
  activeSetIds : List ℕ
  setCounts : List ℕ
  setStarts : List ℕ
  entries : List ℕ
  positionByEntry : List ℕ

def SetGroups.empty : SetGroups := ⟨0, [], [], [], [], [], []⟩

/-- Stale values stay in what is kept. -/
def resize (l : List ℕ) (n : ℕ) : List ℕ := l.take n ++ replicate (n - l.length) 0

def groupOf (setIdLimit : ℕ) : SetId → Option ℕ
  | ⊤ => none
  | (s : ℕ) => if 0 < s ∧ s < setIdLimit then some s else none

structure CountState where
  bucketBySet : List (Option ℕ)
  activeSetIds : List ℕ
  setCounts : List ℕ

def countEntry (setIdLimit : ℕ) (setOf : ℕ → SetId) (st : CountState) (entry : ℕ) : CountState :=
  match groupOf setIdLimit (setOf entry) with
  | none => st
  | some s =>
    match st.bucketBySet.getD s none with
    | none =>
      ⟨st.bucketBySet.set s (some st.activeSetIds.length), st.activeSetIds ++ [s],
        st.setCounts ++ [1]⟩
    | some bucket => { st with setCounts := st.setCounts.modify bucket (· + 1) }

structure FillState where
  nextEntryInSet : List ℕ
  entries : List ℕ
  positionByEntry : List ℕ

def fillEntry (first setIdLimit : ℕ) (setOf : ℕ → SetId) (bucketBySet : List (Option ℕ))
    (st : FillState) (entry : ℕ) : FillState :=
  match groupOf setIdLimit (setOf entry) with
  | none => st
  | some s =>
    let bucket := (bucketBySet.getD s none).getD 0
    let position := st.nextEntryInSet.getD bucket 0
    ⟨st.nextEntryInSet.modify bucket (· + 1), st.entries.set position entry,
      st.positionByEntry.set (entry - first) position⟩

/-- The buckets of the sets that were active are cleared, and there are enough of them. -/
def SetGroups.clearBuckets (g : SetGroups) (setIdLimit : ℕ) : List (Option ℕ) :=
  let cleared := g.activeSetIds.foldl (fun (b : List (Option ℕ)) s => b.set s none) g.bucketBySet
  cleared ++ replicate (setIdLimit - cleared.length) none

def SetGroups.build (g : SetGroups) (first last setIdLimit : ℕ) (setOf : ℕ → SetId) : SetGroups :=
  let range := range' first (last - first)
  let counted := range.foldl (countEntry setIdLimit setOf) ⟨g.clearBuckets setIdLimit, [], []⟩
  let starts := counted.setCounts.scanl (· + ·) 0
  let filled := range.foldl (fillEntry first setIdLimit setOf counted.bucketBySet)
    ⟨starts, resize g.entries (starts.getLastD 0), resize g.positionByEntry (last - first)⟩
  ⟨first, counted.bucketBySet, counted.activeSetIds, counted.setCounts, starts, filled.entries,
    filled.positionByEntry⟩

def SetGroups.entriesAfter (g : SetGroups) (setId : SetId) (entry : ℕ) : List ℕ :=
  match groupOf g.bucketBySet.length setId with
  | none => []
  | some s =>
    match g.bucketBySet.getD s none with
    | none => []
    | some bucket =>
      let position := g.positionByEntry.getD (entry - g.firstEntry) 0
      let stop := g.setStarts.getD (bucket + 1) 0
      (g.entries.drop (position + 1)).take (stop - position - 1)

end Groups

structure EntryScan (G : Type) where
  start : G
  build : G → ℕ → ℕ → ℕ → (ℕ → SetId) → G
  entriesAfter : G → (ℕ → SetId) → SetId → ℕ → List ℕ

def compressedScan : EntryScan SetGroups where
  start := SetGroups.empty
  build := SetGroups.build
  entriesAfter g _ s entry := g.entriesAfter s entry

def plainScan : EntryScan ℕ where
  start := 0
  build _ _ last _ _ := last
  entriesAfter last setOf s entry :=
    (range' (entry + 1) (last - entry - 1)).filter fun q => decide (setOf q = s)

section Refine

def cscColumn (rows : List (List (ℕ × ℚ))) (j : ℕ) : List (ℕ × ℚ) :=
  rows.zipIdx.flatMap fun row => (row.1.filter fun q => decide (q.1 = j)).map fun q => (row.2, q.2)

def cscEntries (rows : List (List (ℕ × ℚ))) (n : ℕ) : List (ℕ × ℚ) :=
  (range n).flatMap (cscColumn rows)

def colStart (rows : List (List (ℕ × ℚ))) (j : ℕ) : ℕ := (cscEntries rows j).length

structure RefineState where
  divisors : ℕ → ℚ
  sets : ℕ → SetId
  newSet : ℕ
  remaining : ℤ

/-- The state within a column: the first row of the column's new set, the number of new rows, and
whether no potential duplicate remains. -/
structure ColumnState extends RefineState where
  r0 : ℕ
  newRows : ℕ
  stopped : Bool

variable {G : Type} (scan : EntryScan G) (tolerance : ℚ) (rows : List (List (ℕ × ℚ))) (n : ℕ)

def sameRatio (divisors : ℕ → ℚ) (e e' : ℕ × ℚ) : Bool :=
  let val := (e.2 / divisors e.1) * (divisors e'.1 / e'.2)
  decide (1 - tolerance ≤ val) && decide (val ≤ 1 + tolerance)

def refineEntry (g : G) (newSet0 : ℕ) (st : ColumnState) (p : ℕ) : ColumnState :=
  let entry (q : ℕ) : ℕ × ℚ := (cscEntries rows n).getD q (0, 0)
  let r := (entry p).1
  if st.stopped then st
  else if st.sets r = 0 then
    { st with
      r0 := r
      sets := update st.sets r newSet0
      divisors := update st.divisors r (entry p).2
      newRows := st.newRows + 1 }
  else if st.sets r < newSet0 then
    let oldSet := st.sets r
    let later := scan.entriesAfter g (fun q => st.sets (entry q).1) oldSet p
    match (later.map entry).find? fun e =>
      decide (st.sets e.1 = oldSet) && sameRatio tolerance st.divisors (entry p) e with
    | some e =>
      { st with
        sets := update (update st.sets r st.newSet) e.1 st.newSet
        newSet := st.newSet + 1 }
    | none =>
      { st with
        sets := update st.sets r ⊤
        remaining := st.remaining - 1
        stopped := decide (st.remaining - 1 = 0) }
  else st

def refineColumn (st : G × RefineState × Bool) (j : ℕ) : G × RefineState × Bool :=
  if st.2.2 then st
  else
    let first := colStart rows j
    let last := colStart rows (j + 1)
    let newSet0 := st.2.1.newSet
    let g := scan.build st.1 first last newSet0 fun q =>
      st.2.1.sets ((cscEntries rows n).getD q (0, 0)).1
    let column := (range' first (last - first)).foldl
      (refineEntry scan tolerance rows n g newSet0) ⟨{ st.2.1 with newSet := newSet0 + 1 }, 0, 0, false⟩
    if column.remaining = 0 then (g, column.toRefineState, true)
    else if column.newRows = 1 then
      let remaining := column.remaining - 1
      (g, { column.toRefineState with
          sets := update column.sets column.r0 ⊤
          remaining := remaining }, decide (remaining = 0))
    else (g, column.toRefineState, false)

def refineColumns : G × RefineState × Bool :=
  (range n).foldl (refineColumn scan tolerance rows n)
    (scan.start, ⟨fun _ => 0, fun _ => 0, 1, rows.length⟩, false)

end Refine

section Remove

def compareCuts (rhs : ℕ → ℚ) (divisors : ℕ → ℚ) (r : ℕ) (removed : ℕ → Bool) (i : ℕ) : ℕ → Bool :=
  let thetaR := rhs r / divisors r
  let thetaI := rhs i / divisors i
  if 0 < divisors r ∧ 0 < divisors i then
    if thetaR ≤ thetaI then update removed r true else update removed i true
  else if divisors r < 0 ∧ divisors i < 0 then
    if thetaI ≤ thetaR then update removed r true else update removed i true
  else removed

variable {G : Type} (scan : EntryScan G) (tolerance : ℚ) (rows : List (List (ℕ × ℚ))) (n : ℕ)

def duplicateCuts (rhs : ℕ → ℚ) : (ℕ → SetId) × (ℕ → ℚ) × (ℕ → Bool) :=
  let (g, st, _) := refineColumns scan tolerance rows n
  let g := scan.build g 0 rows.length st.newSet st.sets
  let removed := (range rows.length).foldl
    (fun removed r =>
      if st.sets r = 0 ∨ st.sets r = ⊤ ∨ removed r = true then removed
      else (scan.entriesAfter g st.sets (st.sets r) r).foldl (compareCuts rhs st.divisors r) removed)
    fun _ => false
  (st.sets, st.divisors, removed)

end Remove

end CuOpt.Cuts
