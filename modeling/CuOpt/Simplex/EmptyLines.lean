import CuOpt.Simplex.ShiftBounds

/-! Removal of empty rows and of empty columns, with the renumbering of what remains. -/

namespace CuOpt.Simplex

open List hiding isEmpty_iff keys
open SparseList QuadProgram
open Bool (and_eq_true)
open Function (comp_apply)
open Option (mem_def)

def removeRows (problem : LpProblem) (rowMarker : ℕ → Bool) (errorOnNonzeroRhs : Bool) :
    Option LpProblem :=
  if errorOnNonzeroRhs &&
      (range problem.numRows).any fun i => rowMarker i && problem.rhs i ≠ 0 then none
  else
    some { problem with
      numRows := (unmarked problem.numRows rowMarker).length
      rhs := fun i => problem.rhs ((unmarked problem.numRows rowMarker).getD i 0)
      A := (problem.A.toCompressedRow.removeRows rowMarker).toCompressedCol }

def emptyRow (problem : LpProblem) (i : ℕ) : Bool := (problem.A.toCompressedRow.row i).isEmpty

def removeEmptyRows (problem : LpProblem) (info : PresolveInfo) :
    Option (LpProblem × PresolveInfo) :=
  (removeRows problem (emptyRow problem) true).map fun problem' =>
    (problem', { info with
      removedConstraints := (range problem.numRows).filter (emptyRow problem)
      remainingConstraints := unmarked problem.numRows (emptyRow problem) })

def restoreConstraints (info : PresolveInfo) (t : Solution) : Solution :=
  if info.removedConstraints = [] then t
  else
    { t with
      y := scatter info.removedConstraints (fun _ => 0)
        (scatter info.remainingConstraints t.y t.y) }

section Rows

variable {problem problem' : LpProblem} {marker : ℕ → Bool}

variable {j : ℕ}

section

variable (hwf : problem.WellFormed)
include hwf

lemma removeRows_entry {k : ℕ} (hk : k < (unmarked problem.numRows marker).length)
    (hj : j < problem.numCols) :
    (problem.A.toCompressedRow.removeRows marker).toCompressedCol.entry k j =
      problem.A.entry ((unmarked problem.numRows marker).getD k 0) j := by
  have hm : problem.A.toCompressedRow.m = problem.numRows := hwf.A_m
  have hn : j < problem.A.n := hwf.A_n.symm ▸ hj
  simp only [CscMatrix.entry, CsrMatrix.toCompressedCol_col, coeff_transposed,
    CsrMatrix.removeRows, CscMatrix.toCompressedRow_row, hm, hk, hn, if_true]

lemma mem_keys_removeRows {k : ℕ} :
    k ∈ keys ((problem.A.toCompressedRow.removeRows marker).toCompressedCol.col j) ↔
      k < (unmarked problem.numRows marker).length ∧ j < problem.numCols ∧
        (unmarked problem.numRows marker).getD k 0 ∈ keys (problem.A.col j) := by
  have hm : problem.A.toCompressedRow.m = problem.numRows := hwf.A_m
  simp only [CsrMatrix.toCompressedCol_col, mem_keys_transposed, CsrMatrix.removeRows,
    CscMatrix.toCompressedRow_row, hm, hwf.A_n]

lemma removeRows_wellFormed {b : Bool} (h : removeRows problem marker b = some problem') :
    problem'.WellFormed := by
  unfold removeRows at h
  split_ifs at h
  cases h
  have hm : problem.A.toCompressedRow.m = problem.numRows := hwf.A_m
  refine ⟨?_, hwf.A_n, fun j _ i hi => ((mem_keys_removeRows hwf).mp hi).1, fun j _ => ?_, hwf.Q⟩
  · simp only [CsrMatrix.toCompressedCol, CsrMatrix.removeRows, hm]
  · refine nodup_keys_transposed (fun i _ => ?_) j
    exact nodup_keys_transposed (fun k hk => hwf.A_nodup k (hwf.A_n ▸ hk)) _

lemma removeRows_agree {b : Bool} (h : removeRows problem marker b = some problem') :
    Program.Agree problem'.toProgram
      ((problem.toProgram.keepRows (unmarked problem.numRows marker).toFinset).renumber
        (Finset.range (unmarked problem.numRows marker).length) (Finset.range problem.numCols)
        ((unmarked problem.numRows marker).getD · 0) id) := by
  unfold removeRows at h
  split_ifs at h
  cases h
  exact ⟨rfl, rfl,
    fun k hk j hj => removeRows_entry hwf (Finset.mem_range.mp hk) (Finset.mem_range.mp hj),
    fun _ _ => rfl, fun _ _ => rfl, fun _ _ _ _ => rfl, rfl, fun _ _ => rfl, fun _ _ => rfl⟩

lemma emptyRow_entry {i : ℕ} (hi : emptyRow problem i = true) (hj : j < problem.numCols) :
    problem.A.entry i j = 0 := by
  have hcoeff := coeff_transposed problem.A.n problem.A.col i j
  rw [emptyRow, List.isEmpty_iff] at hi
  rw [← CscMatrix.toCompressedRow_row, hi, if_pos (hwf.A_n.symm ▸ hj)] at hcoeff
  exact hcoeff.symm

end

variable {info info' : PresolveInfo}

lemma removeEmptyRows_spec (h : removeEmptyRows problem info = some (problem', info')) :
    removeRows problem (emptyRow problem) true = some problem' ∧
      info' = { info with
        removedConstraints := (range problem.numRows).filter (emptyRow problem)
        remainingConstraints := unmarked problem.numRows (emptyRow problem) } := by
  simp only [removeEmptyRows, Option.map_eq_some_iff, Prod.mk.injEq] at h
  obtain ⟨p, hp, rfl, rfl⟩ := h
  exact ⟨hp, rfl⟩

lemma removeRows_rhs_eq_zero (h : removeRows problem marker true = some problem') {i : ℕ}
    (hi : i < problem.numRows) (hm : marker i = true) : problem.rhs i = 0 := by
  unfold removeRows at h
  split_ifs at h with hany
  by_contra hne
  refine hany ?_
  simp only [Bool.true_and, any_eq_true, mem_range, and_eq_true, decide_eq_true_eq]
  exact ⟨i, hi, hm, hne⟩

def expandRows (kept : List ℕ) (t : Solution) : Solution := { t with y := scatter kept t.y t.y }

lemma renumbering_expandRows (P : Program ℕ ℕ ℚ) {kept : List ℕ} (hkept : kept.Nodup)
    (hrows : P.rows = kept.toFinset) :
    Program.Renumbering P (Finset.range kept.length) P.cols (kept.getD · 0) id
      (expandRows kept) where
  image_rows := by rw [hrows, Program.image_range_getD]
  image_cols := Finset.image_id
  injOn_rows := Program.injOn_getD hkept
  injOn_cols := Function.injective_id.injOn
  x := fun _ _ _ => rfl
  y := fun t i hi => scatter_getD hkept t.y t.y 0 (Finset.mem_range.mp hi)
  z := fun _ _ _ => rfl

lemma restoreConstraints_sameOn (n : ℕ) (info : PresolveInfo)
    (hremoved : info.removedConstraints = (range n).filter marker)
    (hremaining : info.remainingConstraints = unmarked n marker)
    {P : Program ℕ ℕ ℚ} (hrows : P.rows = Finset.range n) :
    Program.SameOn P (Program.extendRows (unmarked n marker).toFinset ∘
      expandRows (unmarked n marker)) (restoreConstraints info) := by
  refine ⟨fun t j _ => ?_, fun t i hi => ?_, fun t j _ => ?_⟩
  · unfold restoreConstraints
    split_ifs <;> rfl
  · rw [hrows, Finset.mem_range] at hi
    simp only [comp_apply, Program.extendRows, expandRows, mem_toFinset]
    unfold restoreConstraints
    have hnodup : ((range n).filter marker).Nodup := nodup_range.filter _
    split_ifs with hnil hmem hmem
    · -- nothing was removed, so every row is kept in place
      have hall : unmarked n marker = range n := by
        rw [unmarked, filter_eq_self]
        intro k hk
        rw [hremoved, filter_eq_nil_iff] at hnil
        simpa using hnil k hk
      rw [hall, scatter_range]
    · rw [hremoved, filter_eq_nil_iff] at hnil
      refine absurd (mem_unmarked.mpr ⟨hi, ?_⟩) hmem
      simpa using hnil i (mem_range.mpr hi)
    · have hmem' : i ∉ (range n).filter marker := by
        simp only [mem_filter, (mem_unmarked.mp hmem).2, Bool.false_eq_true, and_false,
          not_false_iff]
      rw [hremoved, hremaining]
      exact scatter_of_notMem (fun _ => (0 : ℚ)) (scatter (unmarked n marker) t.y t.y) hmem'
    · have hmem' : i ∈ (range n).filter marker := by
        simp only [mem_unmarked, hi, true_and, Bool.not_eq_false] at hmem
        exact mem_filter.mpr ⟨mem_range.mpr hi, hmem⟩
      rw [hremoved]
      exact scatter_of_mem hnodup (fun _ => (0 : ℚ)) _ hmem'
  · unfold restoreConstraints
    split_ifs <;> rfl

section

variable (hwf : problem.WellFormed) (h : removeEmptyRows problem info = some (problem', info'))
include hwf h

lemma removeEmptyRows_recovers :
    Program.Recovers problem'.toProgram problem.toProgram (restoreConstraints info') := by
  obtain ⟨hrem, rfl⟩ := removeEmptyRows_spec h
  have hsub : (unmarked problem.numRows (emptyRow problem)).toFinset ⊆ problem.toProgram.rows := by
    intro i hi
    exact Finset.mem_range.mpr (mem_unmarked.mp (mem_toFinset.mp hi)).1
  have hren := renumbering_expandRows
    (problem.toProgram.keepRows (unmarked problem.numRows (emptyRow problem)).toFinset)
    (nodup_unmarked _ _) rfl
  exact ((Program.keepRows_recovers _ hsub).trans
    (hren.recovers.trans (removeRows_agree hwf hrem).recovers)).congr
      (restoreConstraints_sameOn _ _ rfl rfl rfl)

lemma removeEmptyRows_recoversFeasible :
    Program.RecoversFeasible problem'.toProgram problem.toProgram (restoreConstraints info') := by
  obtain ⟨hrem, rfl⟩ := removeEmptyRows_spec h
  have hzero : ∀ i ∈ problem.toProgram.rows,
      i ∉ (unmarked problem.numRows (emptyRow problem)).toFinset →
        problem.toProgram.b i = 0 ∧ ∀ j ∈ problem.toProgram.cols, problem.toProgram.a i j = 0 := by
    intro i hi hnot
    have hlt := Finset.mem_range.mp hi
    have hempty : emptyRow problem i = true := by
      simpa only [mem_toFinset, mem_unmarked, hlt, true_and, Bool.not_eq_false] using hnot
    exact ⟨removeRows_rhs_eq_zero hrem hlt hempty,
      fun j hj => emptyRow_entry hwf hempty (Finset.mem_range.mp hj)⟩
  have hren := renumbering_expandRows
    (problem.toProgram.keepRows (unmarked problem.numRows (emptyRow problem)).toFinset)
    (nodup_unmarked _ _) rfl
  exact ((Program.keepRows_recoversFeasible _ hzero).trans
    (hren.recoversFeasible.trans (removeRows_agree hwf hrem).recoversFeasible)).congr
      (restoreConstraints_sameOn _ _ rfl rfl rfl)

lemma removeEmptyRows_col_eq_nil (hj : j < problem.numCols) (hcol : problem'.A.col j = []) :
    problem.A.col j = [] := by
  obtain ⟨hrem, -⟩ := removeEmptyRows_spec h
  unfold removeRows at hrem
  split_ifs at hrem
  cases hrem
  by_contra hne
  obtain ⟨p, hp⟩ := exists_mem_of_ne_nil _ hne
  have hkey : p.1 ∈ keys (problem.A.col j) := mem_map_of_mem hp
  have hrow : (j, p.2) ∈ problem.A.toCompressedRow.row p.1 :=
    mem_transposed.mpr ⟨hwf.A_n.symm ▸ hj, hp⟩
  have hkept : p.1 ∈ unmarked problem.numRows (emptyRow problem) := by
    refine mem_unmarked.mpr ⟨hwf.A_lt j hj p.1 hkey, ?_⟩
    rw [emptyRow, isEmpty_eq_false_iff]
    exact ne_nil_of_mem hrow
  have hlt := idxOf_lt_length_iff.mpr hkept
  have hmem := (mem_keys_removeRows hwf (k := (unmarked problem.numRows
    (emptyRow problem)).idxOf p.1) (j := j)).mpr ⟨hlt, hj, by
      rwa [getD_eq_getElem _ _ hlt, getElem_idxOf hlt]⟩
  simp only at hcol
  rw [hcol] at hmem
  simp [keys] at hmem

end

end Rows

/-- Drops the marked variables from the rows of a square matrix and renumbers the columns. -/
def removeVariablesFromQ (Q : CsrMatrix) (colMarker : ℕ → Bool) (kept : List ℕ) : CsrMatrix :=
  { Q.removeRows colMarker with
    n := kept.length
    row := fun i => ((Q.removeRows colMarker).row i).map fun p => (kept.idxOf p.1, p.2) }

section RemoveVariables

variable {Q : CsrMatrix} {n : ℕ} {marker : ℕ → Bool}

section

variable (hQ : Q.IsSymmetric n)
  (hclosed : ∀ i ∈ unmarked n marker, ∀ j ∈ keys (Q.row i), j ∈ unmarked n marker)
include hQ hclosed

lemma removeVariablesFromQ_entry {k l : ℕ} (hk : k < (unmarked n marker).length)
    (hl : l < (unmarked n marker).length) :
    (removeVariablesFromQ Q marker (unmarked n marker)).entry k l =
      Q.entry ((unmarked n marker).getD k 0) ((unmarked n marker).getD l 0) := by
  simp only [CsrMatrix.entry, removeVariablesFromQ, CsrMatrix.removeRows, hQ.m_eq]
  exact coeff_map_idxOf (nodup_unmarked _ _) (hclosed _ (getD_unmarked_mem hk)) 0 hl

lemma mem_keys_removeVariablesFromQ {k l : ℕ} (hk : k < (unmarked n marker).length) :
    l ∈ keys ((removeVariablesFromQ Q marker (unmarked n marker)).row k) ↔
      l < (unmarked n marker).length ∧
        (unmarked n marker).getD l 0 ∈ keys (Q.row ((unmarked n marker).getD k 0)) := by
  simp only [keys, removeVariablesFromQ, CsrMatrix.removeRows, hQ.m_eq, map_map,
    mem_map, comp_apply]
  constructor
  · rintro ⟨p, hp, rfl⟩
    have hmem := hclosed _ (getD_unmarked_mem hk) p.1 (mem_map_of_mem hp)
    have hlt := idxOf_lt_length_iff.mpr hmem
    refine ⟨hlt, p, hp, ?_⟩
    rw [getD_eq_getElem _ _ hlt, getElem_idxOf hlt]
  · rintro ⟨hl, p, hp, heq⟩
    refine ⟨p, hp, ?_⟩
    rw [heq, getD_eq_getElem _ _ hl, (nodup_unmarked n marker).idxOf_getElem]

lemma removeVariablesFromQ_isSymmetric :
    (removeVariablesFromQ Q marker (unmarked n marker)).IsSymmetric (unmarked n marker).length where
  m_eq := by simp only [removeVariablesFromQ, CsrMatrix.removeRows, hQ.m_eq]
  n_eq := rfl
  lt := fun k hk l hl => ((mem_keys_removeVariablesFromQ hQ hclosed hk).mp hl).1
  symm := fun k hk l hl => by
    rw [removeVariablesFromQ_entry hQ hclosed hk hl, removeVariablesFromQ_entry hQ hclosed hl hk]
    exact hQ.symm _ (getD_unmarked_lt hk) _ (getD_unmarked_lt hl)
  pattern := fun k hk l hl h => by
    have hkey := ((mem_keys_removeVariablesFromQ hQ hclosed hk).mp h).2
    exact (mem_keys_removeVariablesFromQ hQ hclosed hl).mpr
      ⟨hk, hQ.pattern _ (getD_unmarked_lt hk) _ (getD_unmarked_lt hl) hkey⟩

end

end RemoveVariables

def quadratic1dObj (x c q : ℚ) : ℚ := c * x + 1 / 2 * q * x * x

/-- Minimizer of `c * x + (1/2) q x^2` over `[lower, upper]`, `none` if unbounded. -/
def unconstrained1dQpMinimizer (c q : ℚ) (lower upper : Option ℚ) : Option ℚ :=
  if 0 < q then
    let raised := lower.elim (-c / q) fun l => max l (-c / q)
    some (upper.elim raised fun u => min u raised)
  else if q < 0 then
    match lower, upper with
    | some l, some u => some (if quadratic1dObj l c q ≤ quadratic1dObj u c q then l else u)
    | _, _ => none
  else
    match lower, upper with
    | some l, some u => if 0 ≤ c then some l else some u
    | some l, none => if 0 ≤ c then some l else none
    | none, some u => if c ≤ 0 then some u else none
    | none, none => none

def qDiag (Q : CsrMatrix) (j : ℕ) : ℚ := if j < Q.m then Q.entry j j else 0

def qCoupled (Q : CsrMatrix) (j : ℕ) : Bool :=
  (range Q.m).any fun i => (keys (Q.row i)).any fun col => i ≠ col && (i = j || col = j)

def emptyColValue (problem : LpProblem) (j : ℕ) : Option ℚ :=
  let q := if 0 < problem.Q.n then qDiag problem.Q j else 0
  if problem.A.colLength j ≠ 0 ∨ (0 < problem.Q.n ∧ qCoupled problem.Q j = true) then none
  else unconstrained1dQpMinimizer (problem.objective j) q (problem.lower j) (problem.upper j)

def colMarker (problem : LpProblem) (j : ℕ) : Bool :=
  j < problem.linearVariableCount && (emptyColValue problem j).isSome

def removeEmptyCols (problem : LpProblem) (info : PresolveInfo) : LpProblem × PresolveInfo :=
  let q := fun j => if 0 < problem.Q.n then qDiag problem.Q j else 0
  let fix := fun j => (emptyColValue problem j).getD 0
  let removed := (range problem.linearVariableCount).filter (colMarker problem)
  let remaining := unmarked problem.numCols (colMarker problem)
  ({ problem with
      objConstant := problem.objConstant +
        (removed.map fun j => quadratic1dObj (fix j) (problem.objective j) (q j)).sum
      A := problem.A.removeColumns (colMarker problem)
      objective := fun j => problem.objective (remaining.getD j 0)
      lower := fun j => problem.lower (remaining.getD j 0)
      upper := fun j => problem.upper (remaining.getD j 0)
      Q := if 0 < problem.Q.n then removeVariablesFromQ problem.Q (colMarker problem) remaining
        else problem.Q
      coneVarStart := if problem.secondOrderConeDims = [] then problem.coneVarStart
        else remaining.idxOf problem.coneVarStart
      numCols := remaining.length },
    { info with
      removedVariables := removed
      removedValues := removed.map fix
      removedReducedCosts := removed.map fun j => problem.objective j + q j * fix j
      remainingVariables := remaining })

def restoreVariables (info : PresolveInfo) (t : Solution) : Solution :=
  if info.removedVariables = [] then t
  else
    { t with
      x := scatter info.removedVariables (info.removedValues.getD · 0)
        (scatter info.remainingVariables t.x t.x)
      z := scatter info.removedVariables (info.removedReducedCosts.getD · 0)
        (scatter info.remainingVariables t.z t.z) }

def OrderedBounds (lower upper : Option ℚ) : Prop := ∀ l ∈ lower, ∀ u ∈ upper, l ≤ u

lemma unconstrained1dQpMinimizer_inBounds {c q : ℚ} {lower upper : Option ℚ} {x : ℚ}
    (hord : OrderedBounds lower upper)
    (h : unconstrained1dQpMinimizer c q lower upper = some x) : InBounds lower upper x := by
  unfold unconstrained1dQpMinimizer at h
  cases lower with
  | none =>
    cases upper with
    | none => simp [InBounds]
    | some u =>
      simp only [InBounds, mem_def, reduceCtorEq, false_implies, implies_true, true_and,
        Option.some.injEq, forall_eq']
      simp only at h
      split_ifs at h
      · cases h
        exact min_le_left _ _
      · exact (Option.some.inj h).ge
  | some l =>
    cases upper with
    | none =>
      simp only [InBounds, mem_def, reduceCtorEq, false_implies, implies_true, and_true,
        Option.some.injEq, forall_eq']
      simp only at h
      split_ifs at h
      · cases h
        exact le_max_left _ _
      · exact (Option.some.inj h).le
    | some u =>
      have hlu : l ≤ u := hord l rfl u rfl
      simp only [InBounds, mem_def, Option.some.injEq, forall_eq']
      simp only at h
      split_ifs at h <;> cases h
      · exact ⟨le_min hlu (le_max_left _ _), min_le_left _ _⟩
      · exact ⟨le_rfl, hlu⟩
      · exact ⟨hlu, le_rfl⟩
      · exact ⟨le_rfl, hlu⟩
      · exact ⟨hlu, le_rfl⟩

section Cols

variable {problem : LpProblem}

variable {j : ℕ}

lemma emptyColValue_isSome (h : (emptyColValue problem j).isSome = true) :
    problem.A.col j = [] ∧ (0 < problem.Q.n → qCoupled problem.Q j = false) := by
  have hcond : ¬(problem.A.colLength j ≠ 0 ∨ (0 < problem.Q.n ∧ qCoupled problem.Q j = true)) := by
    intro hcond
    simp only [emptyColValue, hcond, if_true, Option.isSome_none, Bool.false_eq_true] at h
  rw [not_or, not_not, not_and, Bool.not_eq_true] at hcond
  exact ⟨length_eq_zero_iff.mp hcond.1, hcond.2⟩

lemma notMem_keys_of_not_qCoupled {Q : CsrMatrix} {n k : ℕ} (hQ : Q.IsSymmetric n)
    (h : qCoupled Q j = false) (hj : j < n) (hk : k < n) (hne : k ≠ j) :
    k ∉ keys (Q.row j) ∧ j ∉ keys (Q.row k) := by
  simp only [qCoupled, any_eq_false, mem_range, any_eq_true, not_exists, not_and,
    hQ.m_eq, and_eq_true, Bool.or_eq_true, decide_eq_true_eq] at h
  constructor
  · intro hmem
    exact h j hj k hmem (Ne.symm hne) (.inl rfl)
  · intro hmem
    exact h k hk j hmem hne (.inr rfl)

section

variable (hwf : problem.WellFormed)
include hwf

lemma colMarker_uncoupled (hlin : problem.linearVariableCount = problem.numCols) :
    problem.toProgram.Uncoupled
      ((range problem.linearVariableCount).filter (colMarker problem)).toFinset := by
  intro j hj
  simp only [mem_toFinset, mem_filter, mem_range, colMarker, and_eq_true,
    decide_eq_true_eq] at hj
  obtain ⟨hlt, _, hsome⟩ := hj
  obtain ⟨hcol, hcoupled⟩ := emptyColValue_isSome hsome
  refine ⟨fun i _ => ?_, fun k hk hkj => ?_⟩
  · simp only [LpProblem.toProgram, CscMatrix.entry, hcol, coeff_nil]
  · simp only [LpProblem.toProgram]
    split_ifs with hQ
    · obtain ⟨hrow, hcol⟩ := notMem_keys_of_not_qCoupled (hwf.Q hQ) (hcoupled hQ) (hlin ▸ hlt)
        (Finset.mem_range.mp hk) hkj
      exact ⟨coeff_eq_zero hrow, coeff_eq_zero hcol⟩
    · exact ⟨rfl, rfl⟩

/-- A kept row of `Q` has no entry in a removed column. -/
lemma colMarker_closed (hQ : 0 < problem.Q.n) :
    ∀ i ∈ unmarked problem.numCols (colMarker problem), ∀ j ∈ keys (problem.Q.row i),
      j ∈ unmarked problem.numCols (colMarker problem) := by
  intro i hi j hj
  obtain ⟨hilt, himark⟩ := mem_unmarked.mp hi
  have hjlt := (hwf.Q hQ).lt i hilt j hj
  refine mem_unmarked.mpr ⟨hjlt, ?_⟩
  by_contra hmark
  rw [Bool.not_eq_false] at hmark
  have hne : i ≠ j := by
    rintro rfl
    rw [hmark] at himark
    cases himark
  simp only [colMarker, and_eq_true, decide_eq_true_eq] at hmark
  have hcoupled := (emptyColValue_isSome hmark.2).2 hQ
  exact (notMem_keys_of_not_qCoupled (hwf.Q hQ) hcoupled hjlt hilt hne).2 hj

lemma removeEmptyCols_wellFormed (info : PresolveInfo) :
    (removeEmptyCols problem info).1.WellFormed := by
  have hcol {j : ℕ} (hj : j < (unmarked problem.numCols (colMarker problem)).length) :
      (removeEmptyCols problem info).1.A.col j =
        problem.A.col ((unmarked problem.numCols (colMarker problem)).getD j 0) := by
    simp only [removeEmptyCols, CscMatrix.removeColumns, hwf.A_n]
  refine ⟨hwf.A_m, ?_, fun j hj => ?_, fun j hj => ?_, fun hQ' => ?_⟩
  · simp only [removeEmptyCols, CscMatrix.removeColumns, hwf.A_n]
  · rw [hcol hj]
    exact hwf.A_lt _ (getD_unmarked_lt hj)
  · rw [hcol hj]
    exact hwf.A_nodup _ (getD_unmarked_lt hj)
  · by_cases hQ : 0 < problem.Q.n
    · simp only [removeEmptyCols, hQ, if_true]
      exact removeVariablesFromQ_isSymmetric (hwf.Q hQ) (colMarker_closed hwf hQ)
    · simp only [removeEmptyCols, hQ, if_false] at hQ'

lemma removeEmptyCols_agree (hlin : problem.linearVariableCount = problem.numCols)
    (info : PresolveInfo) :
    Program.Agree (removeEmptyCols problem info).1.toProgram
      ((problem.toProgram.fixCols
        ((range problem.linearVariableCount).filter (colMarker problem)).toFinset
        fun j => (emptyColValue problem j).getD 0).renumber (Finset.range problem.numRows)
        (Finset.range (unmarked problem.numCols (colMarker problem)).length) id
        ((unmarked problem.numCols (colMarker problem)).getD · 0)) where
  rows := rfl
  cols := rfl
  a := fun i _ j _ => by
    simp only [LpProblem.toProgram, Program.renumber, Program.fixCols, removeEmptyCols,
      CscMatrix.entry, CscMatrix.removeColumns, hwf.A_n, id]
  b := fun _ _ => rfl
  c := fun _ _ => rfl
  q := fun j hj k hk => by
    have hjlt := Finset.mem_range.mp hj
    simp only [LpProblem.toProgram, Program.renumber, Program.fixCols, removeEmptyCols]
    by_cases hQ : 0 < problem.Q.n
    · have hn : 0 < (removeVariablesFromQ problem.Q (colMarker problem)
          (unmarked problem.numCols (colMarker problem))).n := lt_of_le_of_lt (Nat.zero_le _) hjlt
      simp only [hQ, if_true, hn]
      exact removeVariablesFromQ_entry (hwf.Q hQ) (colMarker_closed hwf hQ) hjlt
        (Finset.mem_range.mp hk)
    · simp only [hQ, if_false]
  const := by
    simp only [LpProblem.toProgram, Program.renumber, Program.fixCols, removeEmptyCols]
    congr 1
    rw [← sum_toFinset _ (nodup_range.filter _)]
    refine Finset.sum_congr rfl fun j hj => ?_
    have hlt : j < problem.numCols := by
      simp only [mem_toFinset, mem_filter, mem_range] at hj
      exact hlin ▸ hj.1
    by_cases hQ : 0 < problem.Q.n
    · have hm : j < problem.Q.m := by rw [(hwf.Q hQ).m_eq]; exact hlt
      simp only [quadratic1dObj, qDiag, hQ, hm, if_true]
    · simp only [quadratic1dObj, hQ, if_false]
  lower := fun _ _ => rfl
  upper := fun _ _ => rfl

end

def expandCols (kept : List ℕ) (t : Solution) : Solution :=
  { t with x := scatter kept t.x t.x, z := scatter kept t.z t.z }

lemma renumbering_expandCols (P : Program ℕ ℕ ℚ) {kept : List ℕ} (hkept : kept.Nodup)
    (hcols : P.cols = kept.toFinset) :
    Program.Renumbering P P.rows (Finset.range kept.length) id (kept.getD · 0)
      (expandCols kept) where
  image_rows := Finset.image_id
  image_cols := by rw [hcols, Program.image_range_getD]
  injOn_rows := Function.injective_id.injOn
  injOn_cols := Program.injOn_getD hkept
  x := fun t j hj => scatter_getD hkept t.x t.x 0 (Finset.mem_range.mp hj)
  y := fun _ _ _ => rfl
  z := fun t j hj => scatter_getD hkept t.z t.z 0 (Finset.mem_range.mp hj)

lemma getD_map_idxOf {l : List ℕ} (hj : j ∈ l) (f : ℕ → ℚ) (d : ℚ) :
    (l.map f).getD (l.idxOf j) d = f j := by
  have hlt := idxOf_lt_length_iff.mpr hj
  rw [getD_eq_getElem _ _ (by simpa using hlt), getElem_map, getElem_idxOf hlt]

lemma scatter_removed (n : ℕ) (marker : ℕ → Bool) (f g : ℕ → ℚ) (j : ℕ) :
    scatter ((range n).filter marker) ((((range n).filter marker).map f).getD · 0) g j =
      if j ∈ ((range n).filter marker).toFinset then f j else g j := by
  by_cases hmem : j ∈ (range n).filter marker
  · rw [scatter_of_mem (nodup_range.filter _) _ _ hmem, getD_map_idxOf hmem,
      if_pos (mem_toFinset.mpr hmem)]
  · rw [scatter_of_notMem _ _ hmem, if_neg (mt mem_toFinset.mp hmem)]

lemma restoreVariables_sameOn (hwf : problem.WellFormed)
    (hlin : problem.linearVariableCount = problem.numCols) (info : PresolveInfo) :
    Program.SameOn problem.toProgram
      (problem.toProgram.refix
        ((range problem.linearVariableCount).filter (colMarker problem)).toFinset
        (fun j => (emptyColValue problem j).getD 0) ∘
        expandCols (unmarked problem.numCols (colMarker problem)))
      (restoreVariables (removeEmptyCols problem info).2) := by
  by_cases hnil : (range problem.linearVariableCount).filter (colMarker problem) = []
  · -- nothing was removed, so every column is kept in place
    have hall : unmarked problem.numCols (colMarker problem) = range problem.numCols := by
      rw [unmarked, filter_eq_self]
      intro k hk
      rw [hlin, filter_eq_nil_iff] at hnil
      simpa using hnil k hk
    have hid (t : Solution) : restoreVariables (removeEmptyCols problem info).2 t = t := by
      simp only [restoreVariables, removeEmptyCols, hnil, if_true]
    refine ⟨fun t j _ => ?_, fun t i _ => ?_, fun t j _ => ?_⟩ <;> rw [hid] <;>
      simp only [comp_apply, Program.refix, expandCols, hall, scatter_range, hnil,
        toFinset_nil, Finset.notMem_empty, if_false]
  · have hval (t : Solution) : restoreVariables (removeEmptyCols problem info).2 t =
        { t with
          x := scatter ((range problem.linearVariableCount).filter (colMarker problem))
            ((((range problem.linearVariableCount).filter (colMarker problem)).map fun j =>
              (emptyColValue problem j).getD 0).getD · 0)
            (scatter (unmarked problem.numCols (colMarker problem)) t.x t.x)
          z := scatter ((range problem.linearVariableCount).filter (colMarker problem))
            ((((range problem.linearVariableCount).filter (colMarker problem)).map fun j =>
              problem.objective j + (if 0 < problem.Q.n then qDiag problem.Q j else 0) *
                (emptyColValue problem j).getD 0).getD · 0)
            (scatter (unmarked problem.numCols (colMarker problem)) t.z t.z) } := by
      simp only [restoreVariables, removeEmptyCols, hnil, if_false]
    refine ⟨fun t j _ => ?_, fun t i _ => ?_, fun t j hj => ?_⟩
    · rw [hval]
      exact scatter_removed _ _ _ _ j
    · rw [hval]
      rfl
    · have hjlt := Finset.mem_range.mp hj
      rw [hval]
      refine (scatter_removed _ _ _ _ j).trans ?_
      simp only [comp_apply, Program.refix, expandCols]
      congr 1
      by_cases hQ : 0 < problem.Q.n
      · have hm : j < problem.Q.m := by rw [(hwf.Q hQ).m_eq]; exact hjlt
        simp only [LpProblem.toProgram, qDiag, hQ, hm, if_true]
      · simp only [LpProblem.toProgram, hQ, if_false]

lemma fixCols_cols (hlin : problem.linearVariableCount = problem.numCols) (v : ℕ → ℚ) :
    (problem.toProgram.fixCols
      ((range problem.linearVariableCount).filter (colMarker problem)).toFinset v).cols =
        (unmarked problem.numCols (colMarker problem)).toFinset := by
  ext j
  simp only [Program.fixCols, LpProblem.toProgram, Finset.mem_sdiff, Finset.mem_range,
    mem_toFinset, mem_filter, mem_range, mem_unmarked, hlin, not_and,
    Bool.not_eq_true]
  tauto

lemma removed_subset (hlin : problem.linearVariableCount = problem.numCols) :
    ((range problem.linearVariableCount).filter (colMarker problem)).toFinset ⊆
      problem.toProgram.cols := by
  intro j hj
  simp only [mem_toFinset, mem_filter, mem_range] at hj
  exact Finset.mem_range.mpr (hlin ▸ hj.1)

lemma removeEmptyCols_recovers (hwf : problem.WellFormed)
    (hlin : problem.linearVariableCount = problem.numCols) (info : PresolveInfo) :
    Program.Recovers (removeEmptyCols problem info).1.toProgram problem.toProgram
      (restoreVariables (removeEmptyCols problem info).2) :=
  have hren := renumbering_expandCols _ (nodup_unmarked problem.numCols (colMarker problem))
    (fixCols_cols hlin _)
  ((Program.fixCols_recovers (colMarker_uncoupled hwf hlin) (removed_subset hlin) _).trans
    (hren.recovers.trans (removeEmptyCols_agree hwf hlin info).recovers)).congr
      (restoreVariables_sameOn hwf hlin info)

/-- The columns that `removeEmptyCols` may fix have their bounds in order. -/
def EmptyColsOrdered (problem : LpProblem) : Prop :=
  ∀ j < problem.numCols, problem.A.col j = [] →
    (0 < problem.Q.n → qCoupled problem.Q j = false) →
      OrderedBounds (problem.lower j) (problem.upper j)

lemma removeEmptyCols_recoversFeasible (hwf : problem.WellFormed)
    (hlin : problem.linearVariableCount = problem.numCols) (hord : EmptyColsOrdered problem)
    (info : PresolveInfo) :
    Program.RecoversFeasible (removeEmptyCols problem info).1.toProgram problem.toProgram
      (restoreVariables (removeEmptyCols problem info).2) := by
  have hren := renumbering_expandCols _ (nodup_unmarked problem.numCols (colMarker problem))
    (fixCols_cols hlin fun j => (emptyColValue problem j).getD 0)
  have hv : ∀ j ∈ ((range problem.linearVariableCount).filter (colMarker problem)).toFinset,
      InBounds (problem.lower j) (problem.upper j) ((emptyColValue problem j).getD 0) := by
    intro j hj
    simp only [mem_toFinset, mem_filter, mem_range, colMarker, and_eq_true,
      decide_eq_true_eq] at hj
    obtain ⟨hcol, hcoupled⟩ := emptyColValue_isSome hj.2.2
    obtain ⟨x, hx⟩ := Option.isSome_iff_exists.mp hj.2.2
    rw [hx, Option.getD_some]
    unfold emptyColValue at hx
    simp only at hx
    split at hx
    · cases hx
    · exact unconstrained1dQpMinimizer_inBounds (hord j (hlin ▸ hj.1) hcol hcoupled) hx
  exact ((Program.fixCols_recoversFeasible (colMarker_uncoupled hwf hlin) (removed_subset hlin) _
    hv).trans (hren.recoversFeasible.trans
      (removeEmptyCols_agree hwf hlin info).recoversFeasible)).congr
        (restoreVariables_sameOn hwf hlin info)

end Cols

end CuOpt.Simplex
