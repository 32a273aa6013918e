import CuOpt.Library.EquitableFolding
import CuOpt.Simplex.ColorGraphSound
import CuOpt.Simplex.Folding
import CuOpt.Simplex.PresolveSound

/-! Folding and unfolding: the folded problem has the same objective values as the problem, and what
unfolding does to multipliers. -/

namespace CuOpt.Simplex

open List hiding keys mem_range range sum_eq_zero sum_singleton
open Function (comp_def)
open Finset (mem_range range sum_congr sum_empty sum_eq_zero sum_filter sum_ite_eq' sum_range_add
  sum_singleton)

open SparseList QuadProgram
open Program (average fiber share)

section Entries

variable {problem : LpProblem} {i j k : ℕ}

def augmentedEntry (problem : LpProblem) (i j : ℕ) : ℚ := (augmented problem).finite.entry i j

lemma lineSum_eq_coe {l : List (ℕ × WithTop ℚ)} (h : ∀ p ∈ l, p.1 = i → p.2 ≠ ⊤) :
    lineSum l i = (coeff (l.map fun p => (p.1, p.2.untopD 0)) i : ℚ) := by
  induction l with
  | nil => rfl
  | cons p l ih =>
    have ih' := ih fun q hq => h q (mem_cons_of_mem _ hq)
    rw [map_cons, coeff_cons, WithTop.coe_add, ← ih']
    by_cases hp : p.1 = i
    · obtain ⟨v, hv⟩ := WithTop.ne_top_iff_exists.mp (h p mem_cons_self hp)
      simp [lineSum, hp, ← hv]
    · simp [lineSum, hp]

lemma lineSum_eq_top {l : List (ℕ × WithTop ℚ)} (h : (i, ⊤) ∈ l) : lineSum l i = ⊤ := by
  obtain ⟨l₁, l₂, rfl⟩ := append_of_mem h
  simp [lineSum]

lemma lineSum_row {K : Type*} [AddCommMonoid K] (A : WeightMatrix K) (hj : j < A.n) :
    lineSum (A.row i) j = lineSum (A.col j) i := by
  have hone : ∀ j' : ℕ, lineSum (((A.col j').filter fun p => p.1 = i).map fun p => (j', p.2)) j =
      if j' = j then lineSum (A.col j) i else 0 := by
    intro j'
    split_ifs with heq
    · subst heq
      simp [lineSum, filter_map, comp_def, map_map]
    · apply lineSum_eq_zero
      intro hmem
      simp only [map_map, mem_map, comp_def] at hmem
      obtain ⟨_, _, h⟩ := hmem
      exact heq h
  rw [WeightMatrix.row, lineSum_flatMap]
  simp only [hone]
  rw [sum_map_range, sum_ite_eq', if_pos (mem_range.mpr hj)]

lemma mem_boundedColumns :
    j ∈ boundedColumns problem ↔ j < problem.numCols ∧ problem.upper j ≠ none := by
  rw [boundedColumns, mem_filter, List.mem_range, decide_eq_true_eq]

lemma nodup_boundedColumns : (boundedColumns problem).Nodup := nodup_range.filter _

def boundedColumn (problem : LpProblem) (k : ℕ) : ℕ := (boundedColumns problem).getD k 0

section

variable (hk : k < numUpperBounds problem)
include hk

lemma boundedColumn_mem :
    boundedColumn problem k ∈ boundedColumns problem := by
  rw [boundedColumn, getD_eq_getElem _ _ hk]
  exact getElem_mem hk

lemma boundedColumn_lt :
    boundedColumn problem k < problem.numCols :=
  (mem_boundedColumns.mp (boundedColumn_mem hk)).1

lemma upper_boundedColumn :
    problem.upper (boundedColumn problem k) = some (finiteUpperBound problem k) := by
  obtain ⟨u, hu⟩ := Option.ne_none_iff_exists'.mp (mem_boundedColumns.mp (boundedColumn_mem hk)).2
  show _ = some ((problem.upper (boundedColumn problem k)).getD 0)
  rw [hu]
  rfl

lemma idxOf_eq_iff (hj : j ∈ boundedColumns problem) :
    (boundedColumns problem).idxOf j = k ↔ boundedColumn problem k = j := by
  rw [boundedColumn, getD_eq_getElem _ _ hk]
  constructor
  · rintro rfl
    exact getElem_idxOf _
  · rintro rfl
    exact nodup_boundedColumns.idxOf_getElem _ _

end

lemma exists_boundedColumn (hj : j ∈ boundedColumns problem) :
    ∃ k < numUpperBounds problem, boundedColumn problem k = j := by
  have hlt := idxOf_lt_length_iff.mpr hj
  exact ⟨_, hlt, (idxOf_eq_iff hlt hj).mp rfl⟩

lemma augmented_col (hj : j < problem.numCols) : (augmented problem).col j =
    (problem.A.col j).map (fun p => (p.1, (p.2 : WithTop ℚ))) ++
      (if problem.upper j ≠ none then
        [(problem.numRows + (boundedColumns problem).idxOf j, 1)] else []) ++
      if problem.objective j ≠ 0 then
        [(problem.numRows + numUpperBounds problem, (problem.objective j : WithTop ℚ))] else [] :=
  if_pos hj

lemma augmented_col_slack (hk : k < numUpperBounds problem) :
    (augmented problem).col (problem.numCols + k) = [(problem.numRows + k, 1)] := by
  have hnot : ¬problem.numCols + k < problem.numCols := by omega
  have hlt : problem.numCols + k < problem.numCols + numUpperBounds problem := by omega
  show (if problem.numCols + k < problem.numCols then _ else if _ then _ else _) = _
  rw [if_neg hnot, if_pos hlt, Nat.add_sub_cancel_left]

lemma augmented_col_rhs :
    (augmented problem).col (problem.numCols + numUpperBounds problem) =
      ((List.range problem.numRows).filter fun i => problem.rhs i ≠ 0).map
          (fun i => (i, (problem.rhs i : WithTop ℚ))) ++
        (List.range (numUpperBounds problem)).map
          (fun k => (problem.numRows + k, (finiteUpperBound problem k : WithTop ℚ))) ++
        [(problem.numRows + numUpperBounds problem, ⊤)] := by
  have hnot : ¬problem.numCols + numUpperBounds problem < problem.numCols := by omega
  show (if problem.numCols + numUpperBounds problem < problem.numCols then _
    else if _ then _ else _) = _
  rw [if_neg hnot, if_neg (lt_irrefl _)]

/-- A column is one of the problem, a slack, or the right-hand side. -/
lemma augmented_cases (hj : j < (augmented problem).n) : j < problem.numCols ∨
    (∃ k < numUpperBounds problem, j = problem.numCols + k) ∨
      j = problem.numCols + numUpperBounds problem := by
  have hj' : j < problem.numCols + numUpperBounds problem + 1 := hj
  by_cases hlt : j < problem.numCols
  · exact .inl hlt
  · by_cases hslack : j < problem.numCols + numUpperBounds problem
    · exact .inr (.inl ⟨j - problem.numCols, by omega, by omega⟩)
    · exact .inr (.inr (by omega))

/-- The one infinite entry. -/
lemma augmented_top {p : ℕ × WithTop ℚ} (hj : j < (augmented problem).n)
    (hp : p ∈ (augmented problem).col j) (htop : p.2 = ⊤) :
    p.1 = problem.numRows + numUpperBounds problem ∧
      j = problem.numCols + numUpperBounds problem := by
  have hcoe : ∀ {v : ℚ} {r : ℕ}, (r, (v : WithTop ℚ)) = p → False := by
    rintro v r rfl
    exact WithTop.coe_ne_top htop
  rcases augmented_cases hj with hlt | ⟨k, hk, rfl⟩ | rfl
  · rw [augmented_col hlt, mem_append, mem_append, mem_map] at hp
    rcases hp with (⟨r, _, heq⟩ | hp) | hp
    · exact (hcoe heq).elim
    · split_ifs at hp
      · exact (hcoe (mem_singleton.mp hp).symm).elim
      · cases hp
    · split_ifs at hp
      · exact (hcoe (mem_singleton.mp hp).symm).elim
      · cases hp
  · rw [augmented_col_slack hk] at hp
    exact (hcoe (mem_singleton.mp hp).symm).elim
  · rw [augmented_col_rhs, mem_append, mem_append, mem_map, mem_map] at hp
    rcases hp with (⟨r, _, heq⟩ | ⟨r, _, heq⟩) | hp
    · exact (hcoe heq).elim
    · exact (hcoe heq).elim
    · rw [mem_singleton.mp hp]
      exact ⟨rfl, rfl⟩

lemma augmented_inRange (hwf : problem.WellFormed) : (augmented problem).InRange := by
  intro j hj p hp
  show p.1 < problem.numRows + 1 + numUpperBounds problem
  rcases augmented_cases hj with hlt | ⟨k, hk, rfl⟩ | rfl
  · rw [augmented_col hlt, mem_append, mem_append, mem_map] at hp
    rcases hp with (⟨r, hr, rfl⟩ | hp) | hp
    · have := hwf.A_lt j hlt r.1 (mem_map_of_mem hr)
      simp only
      omega
    · split_ifs at hp with hupper
      · have hidx : (boundedColumns problem).idxOf j < numUpperBounds problem :=
          idxOf_lt_length_iff.mpr (mem_boundedColumns.mpr ⟨hlt, hupper⟩)
        rw [mem_singleton.mp hp]
        simp only
        omega
      · cases hp
    · split_ifs at hp
      · rw [mem_singleton.mp hp]
        simp only
        omega
      · cases hp
  · rw [augmented_col_slack hk] at hp
    rw [mem_singleton.mp hp]
    simp only
    omega
  · rw [augmented_col_rhs, mem_append, mem_append, mem_map, mem_map] at hp
    rcases hp with (⟨r, hr, rfl⟩ | ⟨r, hr, rfl⟩) | hp
    · have := List.mem_range.mp (mem_of_mem_filter hr)
      simp only
      omega
    · have := List.mem_range.mp hr
      simp only
      omega
    · rw [mem_singleton.mp hp]
      simp only
      omega

def augmentedWeight (problem : LpProblem) : Side → ℕ → ℕ → ℚ
  | .row, i, j => augmentedEntry problem i j
  | .col, j, i => augmentedEntry problem i j

def corner (problem : LpProblem) : Side → ℕ
  | .row => problem.numRows + numUpperBounds problem
  | .col => problem.numCols + numUpperBounds problem

lemma lineSum_augmented_col (hj : j < (augmented problem).n)
    (hne : i = corner problem .row → j ≠ corner problem .col) :
    lineSum ((augmented problem).col j) i = (augmentedEntry problem i j : ℚ) := by
  apply lineSum_eq_coe
  intro p hp hi htop
  obtain ⟨hrow, hcol⟩ := augmented_top hj hp htop
  exact hne (hi.symm.trans hrow) hcol

lemma lineSum_augmented_corner :
    lineSum ((augmented problem).col (corner problem .col)) (corner problem .row) = ⊤ := by
  apply lineSum_eq_top
  show _ ∈ (augmented problem).col (problem.numCols + numUpperBounds problem)
  rw [augmented_col_rhs]
  exact mem_append_right _ (mem_singleton_self _)

lemma lineSum_augmented {side : Side} {u v : ℕ} (hu : u < (augmented problem).size side)
    (hv : v < (augmented problem).size side.other) : lineSum ((augmented problem).line side u) v =
      if u = corner problem side ∧ v = corner problem side.other then (⊤ : WithTop ℚ)
      else ((augmentedWeight problem side u v : ℚ) : WithTop ℚ) := by
  cases side with
  | row =>
    show lineSum ((augmented problem).row u) v = _
    rw [lineSum_row _ hv]
    split_ifs with hcorner
    · rw [hcorner.1, hcorner.2]
      exact lineSum_augmented_corner
    · exact lineSum_augmented_col hv fun hrow hcol => hcorner ⟨hrow, hcol⟩
  | col =>
    show lineSum ((augmented problem).col u) v = _
    split_ifs with hcorner
    · rw [hcorner.1, hcorner.2]
      exact lineSum_augmented_corner
    · exact lineSum_augmented_col hu fun hrow hcol => hcorner ⟨hcol, hrow⟩

lemma sum_lineSum_augmented {side : Side} {lines : Finset ℕ} {v : ℕ}
    (hlines : lines ⊆ range ((augmented problem).size side))
    (hv : v < (augmented problem).size side.other) :
    ∑ u ∈ lines, lineSum ((augmented problem).line side u) v =
      if corner problem side ∈ lines ∧ v = corner problem side.other then (⊤ : WithTop ℚ)
      else ((∑ u ∈ lines, augmentedWeight problem side u v : ℚ) : WithTop ℚ) := by
  have hlt : ∀ u ∈ lines, u < (augmented problem).size side := fun u hu =>
    mem_range.mp (hlines hu)
  split_ifs with hcorner
  · obtain ⟨hmem, rfl⟩ := hcorner
    rw [← Finset.add_sum_erase _ _ hmem, lineSum_augmented (hlt _ hmem) hv, if_pos ⟨rfl, rfl⟩,
      WithTop.top_add]
  · rw [WithTop.coe_sum]
    apply sum_congr rfl
    intro u hu
    rw [lineSum_augmented (hlt u hu) hv, if_neg]
    rintro ⟨rfl, hcol⟩
    exact hcorner ⟨hu, hcol⟩

lemma augmented_tracks (problem : LpProblem) :
    TracksWeight (augmented problem) (augmentedWeight problem) := by
  intro side lines hlines v hv w hw heq
  by_cases hvw : v = w
  · rw [hvw]
  rw [sum_lineSum_augmented hlines hv, sum_lineSum_augmented hlines hw] at heq
  split_ifs at heq with hvc hwc
  · exact absurd (hvc.2.trans hwc.2.symm) hvw
  · exact absurd heq.symm WithTop.coe_ne_top
  · exact absurd heq WithTop.coe_ne_top
  · exact WithTop.coe_inj.mp heq

lemma augmentedEntry_col (hj : j < problem.numCols) : augmentedEntry problem i j =
    problem.A.entry i j +
      (if problem.upper j ≠ none ∧ problem.numRows + (boundedColumns problem).idxOf j = i
        then 1 else 0) +
      if problem.numRows + numUpperBounds problem = i then problem.objective j else 0 := by
  show coeff (((augmented problem).col j).map fun p => (p.1, p.2.untopD 0)) i = _
  rw [augmented_col hj, map_append, map_append, coeff_append, coeff_append]
  congr 1
  · congr 1
    · show _ = coeff (problem.A.col j) i
      have hid : ((fun p : ℕ × WithTop ℚ => (p.1, p.2.untopD 0)) ∘
          fun p : ℕ × ℚ => (p.1, (p.2 : WithTop ℚ))) = id := rfl
      rw [map_map, hid, map_id]
    · by_cases hupper : problem.upper j ≠ none
      · rw [if_pos hupper]
        by_cases hi : problem.numRows + (boundedColumns problem).idxOf j = i
        · rw [if_pos ⟨hupper, hi⟩]
          simp [hi]
        · rw [if_neg fun hand => hi hand.2]
          simp [hi]
      · rw [if_neg hupper, if_neg fun hand => hupper hand.1]
        rfl
  · by_cases hobj : problem.objective j = 0
    · rw [if_neg (not_not.mpr hobj), hobj, ite_self]
      rfl
    · rw [if_pos hobj]
      simp

lemma augmentedEntry_slack (hk : k < numUpperBounds problem) :
    augmentedEntry problem i (problem.numCols + k) =
      if problem.numRows + k = i then 1 else 0 := by
  show coeff (((augmented problem).col (problem.numCols + k)).map
    fun p => (p.1, p.2.untopD 0)) i = _
  rw [augmented_col_slack hk, map_singleton, coeff_cons, coeff_nil, add_zero]
  rfl

lemma coeff_map_index (n : ℕ) (f : ℕ → ℕ) (hf : Function.Injective f) (v : ℕ → ℚ) (hk : k < n) :
    coeff ((List.range n).map fun t => (f t, v t)) (f k) = v k := by
  simp only [coeff, map_map, comp_def, hf.eq_iff]
  rw [sum_map_range, sum_ite_eq', if_pos (mem_range.mpr hk)]

lemma augmentedEntry_rhs (hi : i < problem.numRows + numUpperBounds problem) :
    augmentedEntry problem i (problem.numCols + numUpperBounds problem) = bTilde problem i := by
  show coeff (((augmented problem).col (problem.numCols + numUpperBounds problem)).map
    fun p => (p.1, p.2.untopD 0)) i = _
  rw [augmented_col_rhs, map_append, map_append, coeff_append, coeff_append, map_map,
    map_map]
  have hcorner : coeff ([(problem.numRows + numUpperBounds problem, (⊤ : WithTop ℚ))].map
      fun p => (p.1, p.2.untopD 0)) i = 0 := by
    simp [hi.ne']
  rw [hcorner, add_zero]
  by_cases hlt : i < problem.numRows
  · have hbounds : coeff ((List.range (numUpperBounds problem)).map
        ((fun p : ℕ × WithTop ℚ => (p.1, p.2.untopD 0)) ∘ fun k =>
          (problem.numRows + k, (finiteUpperBound problem k : WithTop ℚ)))) i = 0 := by
      apply coeff_eq_zero
      simp only [keys, map_map, mem_map, comp_def, not_exists, not_and]
      intro k _
      omega
    rw [hbounds, add_zero, bTilde, if_pos hlt]
    have hrow := coeff_map_index problem.numRows id Function.injective_id problem.rhs hlt
    by_cases hzero : problem.rhs i = 0
    · rw [hzero]
      apply coeff_eq_zero
      simp only [keys, map_map, mem_map, mem_filter, comp_def, not_exists, not_and]
      rintro r ⟨_, hr⟩ rfl
      exact of_decide_eq_true hr hzero
    · apply coeff_of_mem (p := (i, problem.rhs i))
      · simp only [keys, map_map, comp_def, map_id']
        exact nodup_range.filter _
      · apply mem_map.mpr
        exact ⟨i, mem_filter.mpr ⟨List.mem_range.mpr hlt, decide_eq_true hzero⟩, rfl⟩
  · have hrows : coeff (((List.range problem.numRows).filter fun i => problem.rhs i ≠ 0).map
        ((fun p : ℕ × WithTop ℚ => (p.1, p.2.untopD 0)) ∘ fun i =>
          (i, (problem.rhs i : WithTop ℚ)))) i = 0 := by
      apply coeff_eq_zero
      simp only [keys, map_map, mem_map, mem_filter, List.mem_range,
        comp_def, not_exists, not_and]
      rintro r ⟨hr, _⟩
      omega
    obtain ⟨k, rfl⟩ := Nat.exists_eq_add_of_le (not_lt.mp hlt)
    rw [hrows, zero_add, bTilde, if_neg hlt, Nat.add_sub_cancel_left]
    exact coeff_map_index (numUpperBounds problem) (problem.numRows + ·) (add_right_injective _)
      (finiteUpperBound problem) (by omega)

lemma augmentedEntry_objective (hwf : problem.WellFormed)
    (hj : j < problem.numCols + numUpperBounds problem) :
    augmentedEntry problem (problem.numRows + numUpperBounds problem) j = cTilde problem j := by
  by_cases hlt : j < problem.numCols
  · have hA : problem.A.entry (problem.numRows + numUpperBounds problem) j = 0 := by
      apply coeff_eq_zero
      intro hmem
      have := hwf.A_lt j hlt _ hmem
      omega
    have hbound : ¬(problem.upper j ≠ none ∧ problem.numRows + (boundedColumns problem).idxOf j =
        problem.numRows + numUpperBounds problem) := by
      rintro ⟨hupper, hidx⟩
      have : (boundedColumns problem).idxOf j < numUpperBounds problem :=
        idxOf_lt_length_iff.mpr (mem_boundedColumns.mpr ⟨hlt, hupper⟩)
      omega
    rw [augmentedEntry_col hlt, hA, if_neg hbound, if_pos rfl, cTilde, if_pos hlt, zero_add,
      zero_add]
  · obtain ⟨k, rfl⟩ := Nat.exists_eq_add_of_le (not_lt.mp hlt)
    have hk : k < numUpperBounds problem := by omega
    have hne : ¬problem.numRows + k = problem.numRows + numUpperBounds problem := by omega
    rw [augmentedEntry_slack hk, if_neg hne, cTilde, if_neg hlt]

lemma augmentedEntry_row (hi : i < problem.numRows) (hj : j < problem.numCols) :
    augmentedEntry problem i j = problem.A.entry i j := by
  have hbound : ¬(problem.upper j ≠ none ∧
      problem.numRows + (boundedColumns problem).idxOf j = i) := by
    rintro ⟨_, hidx⟩
    omega
  have hobj : ¬problem.numRows + numUpperBounds problem = i := by omega
  rw [augmentedEntry_col hj, if_neg hbound, if_neg hobj, add_zero, add_zero]

lemma augmentedEntry_bound (hwf : problem.WellFormed) (hk : k < numUpperBounds problem)
    (hj : j < problem.numCols) : augmentedEntry problem (problem.numRows + k) j =
      if j = boundedColumn problem k then 1 else 0 := by
  have hA : problem.A.entry (problem.numRows + k) j = 0 := by
    apply coeff_eq_zero
    intro hmem
    have := hwf.A_lt j hj _ hmem
    omega
  have hobj : ¬problem.numRows + numUpperBounds problem = problem.numRows + k := by omega
  rw [augmentedEntry_col hj, hA, if_neg hobj, zero_add, add_zero]
  congr 1
  apply propext
  constructor
  · rintro ⟨hupper, hidx⟩
    have hmem := mem_boundedColumns.mpr ⟨hj, hupper⟩
    exact ((idxOf_eq_iff hk hmem).mp (by omega)).symm
  · rintro rfl
    refine ⟨(mem_boundedColumns.mp (boundedColumn_mem hk)).2, ?_⟩
    rw [(idxOf_eq_iff hk (boundedColumn_mem hk)).mpr rfl]

/-- Removal of the last row and the last column. -/
lemma augmentedTilde_entry (hi : i < problem.numRows + numUpperBounds problem)
    (hj : j < problem.numCols + numUpperBounds problem) :
    (augmentedTilde problem).entry i j = augmentedEntry problem i j := by
  show coeff ((((((augmented problem).col (if j < _ then j else j + 1)).filter _).map _).map _)) i =
    coeff (((augmented problem).col j).map fun p => (p.1, p.2.untopD 0)) i
  rw [if_pos hj]
  induction (augmented problem).col j with
  | nil => rfl
  | cons p l ih =>
    rw [map_cons, coeff_cons, ← ih, filter_cons]
    by_cases hp : p.1 = problem.numRows + numUpperBounds problem
    · have hpi : p.1 ≠ i := by omega
      simp [hp, hi.ne']
    · rw [if_pos (decide_eq_true hp), map_cons, map_cons, coeff_cons]
      congr 1
      by_cases hlt : problem.numRows + numUpperBounds problem < p.1
      · have hpi : ¬p.1 = i := by omega
        have hpi' : ¬p.1 - 1 = i := by omega
        simp only [if_pos hlt, if_neg hpi, if_neg hpi']
      · simp only [if_neg hlt]

end Entries

section BoundRows

variable {problem : LpProblem} {x : ℕ → ℚ}

/-- The problem with a row `x_j + w_j = u_j` for each upper bound. -/
def boundRowProgram (problem : LpProblem) : Program ℕ ℕ ℚ where
  rows := Finset.range (problem.numRows + numUpperBounds problem)
  cols := Finset.range (problem.numCols + numUpperBounds problem)
  a := augmentedEntry problem
  b := bTilde problem
  c := cTilde problem
  q := fun _ _ => 0
  const := problem.objConstant
  lower := fun _ => some 0
  upper := fun _ => none

def withSlacks (problem : LpProblem) (x : ℕ → ℚ) (j : ℕ) : ℚ :=
  if j < problem.numCols then x j
  else finiteUpperBound problem (j - problem.numCols) -
    x (boundedColumn problem (j - problem.numCols))

lemma withSlacks_col (x : ℕ → ℚ) {j : ℕ} (hj : j < problem.numCols) :
    withSlacks problem x j = x j := if_pos hj

lemma withSlacks_slack (x : ℕ → ℚ) (k : ℕ) : withSlacks problem x (problem.numCols + k) =
    finiteUpperBound problem k - x (boundedColumn problem k) := by
  have hnot : ¬problem.numCols + k < problem.numCols := by omega
  rw [withSlacks, if_neg hnot, Nat.add_sub_cancel_left]

lemma boundRowProgram_rowValue (x : ℕ → ℚ) {i : ℕ} (hi : i < problem.numRows) :
    (boundRowProgram problem).rowValue x i = problem.toProgram.rowValue x i := by
  show ∑ j ∈ range (problem.numCols + numUpperBounds problem),
    augmentedEntry problem i j * x j = ∑ j ∈ range problem.numCols, problem.A.entry i j * x j
  rw [sum_range_add, sum_eq_zero (s := range (numUpperBounds problem)), add_zero]
  · apply sum_congr rfl
    intro j hj
    rw [augmentedEntry_row hi (mem_range.mp hj)]
  · intro k hk
    have hne : ¬problem.numRows + k = i := by omega
    rw [augmentedEntry_slack (mem_range.mp hk), if_neg hne, zero_mul]

lemma boundRowProgram_rowValue_bound (hwf : problem.WellFormed) (x : ℕ → ℚ) {k : ℕ}
    (hk : k < numUpperBounds problem) :
    (boundRowProgram problem).rowValue x (problem.numRows + k) =
      x (boundedColumn problem k) + x (problem.numCols + k) := by
  show ∑ j ∈ range (problem.numCols + numUpperBounds problem),
    augmentedEntry problem (problem.numRows + k) j * x j = _
  rw [sum_range_add]
  congr 1
  · rw [Finset.sum_eq_single_of_mem (boundedColumn problem k)
      (mem_range.mpr (boundedColumn_lt hk)),
      augmentedEntry_bound hwf hk (boundedColumn_lt hk), if_pos rfl, one_mul]
    intro j hj hne
    rw [augmentedEntry_bound hwf hk (mem_range.mp hj), if_neg hne, zero_mul]
  · rw [Finset.sum_eq_single_of_mem k (mem_range.mpr hk), augmentedEntry_slack hk, if_pos rfl,
      one_mul]
    intro t ht hne
    have hne' : ¬problem.numRows + t = problem.numRows + k := by omega
    rw [augmentedEntry_slack (mem_range.mp ht), if_neg hne', zero_mul]

lemma boundRowProgram_objective (hQ : problem.Q.n = 0) (x : ℕ → ℚ) :
    (boundRowProgram problem).objective x = problem.toProgram.objective x := by
  have hq : ∀ j ∈ problem.toProgram.cols, ∀ k ∈ problem.toProgram.cols,
      problem.toProgram.q j k = 0 := by
    intro j _ k _
    simp only [LpProblem.toProgram, hQ, lt_irrefl, if_false]
  rw [Program.IsFold.objective_linear (fun _ _ _ _ => rfl), Program.IsFold.objective_linear hq]
  show ∑ j ∈ range (problem.numCols + numUpperBounds problem), cTilde problem j * x j +
      problem.objConstant = ∑ j ∈ range problem.numCols, problem.objective j * x j +
        problem.objConstant
  congr 1
  rw [sum_range_add, sum_eq_zero (s := range (numUpperBounds problem)), add_zero]
  · apply sum_congr rfl
    intro j hj
    rw [cTilde, if_pos (mem_range.mp hj)]
  · intro k _
    have hnot : ¬problem.numCols + k < problem.numCols := by omega
    rw [cTilde, if_neg hnot, zero_mul]

lemma feasible_of_boundRowProgram (hwf : problem.WellFormed)
    (hlower : ∀ j < problem.numCols, problem.lower j = some 0)
    (hx : (boundRowProgram problem).Feasible x) : problem.toProgram.Feasible x := by
  have hnonneg : ∀ j < problem.numCols + numUpperBounds problem, 0 ≤ x j := fun j hj =>
    (hx.2 j (mem_range.mpr hj)).1 0 rfl
  constructor
  · intro i hi
    have hi' : i < problem.numRows := mem_range.mp hi
    rw [← boundRowProgram_rowValue x hi', hx.1 i (mem_range.mpr (by omega))]
    exact if_pos hi'
  · intro j hj
    have hj' : j < problem.numCols := mem_range.mp hj
    show InBounds (problem.lower j) (problem.upper j) (x j)
    rw [hlower j hj']
    refine ⟨fun w hw => ?_, fun u hu => ?_⟩
    · cases hw
      exact hnonneg j (by omega)
    · have hupper : problem.upper j = some u := hu
      obtain ⟨k, hk, rfl⟩ := exists_boundedColumn (mem_boundedColumns.mpr ⟨hj', by
        rw [hupper]
        exact Option.some_ne_none u⟩)
      rw [upper_boundedColumn hk] at hupper
      have hrow := hx.1 (problem.numRows + k) (mem_range.mpr (by omega))
      have hb : (boundRowProgram problem).b (problem.numRows + k) = finiteUpperBound problem k := by
        have hnot : ¬problem.numRows + k < problem.numRows := by omega
        show bTilde problem (problem.numRows + k) = _
        rw [bTilde, if_neg hnot, Nat.add_sub_cancel_left]
      rw [boundRowProgram_rowValue_bound hwf x hk, hb, Option.some.inj hupper] at hrow
      have := hnonneg (problem.numCols + k) (by omega)
      linarith

lemma withSlacks_feasible (hwf : problem.WellFormed)
    (hlower : ∀ j < problem.numCols, problem.lower j = some 0) (hx : problem.toProgram.Feasible x) :
    (boundRowProgram problem).Feasible (withSlacks problem x) := by
  have hsame : ∀ j ∈ problem.toProgram.cols, withSlacks problem x j = x j := fun j hj =>
    withSlacks_col x (mem_range.mp hj)
  have hbounds : ∀ j < problem.numCols, InBounds (problem.lower j) (problem.upper j) (x j) :=
    fun j hj => hx.2 j (mem_range.mpr hj)
  constructor
  · intro i hi
    have hlt : i < problem.numRows + numUpperBounds problem := mem_range.mp hi
    by_cases hrow : i < problem.numRows
    · rw [boundRowProgram_rowValue _ hrow, (hx.congr hsame).1 i (mem_range.mpr hrow)]
      exact (if_pos hrow).symm
    · obtain ⟨k, rfl⟩ := Nat.exists_eq_add_of_le (not_lt.mp hrow)
      have hk : k < numUpperBounds problem := by omega
      rw [boundRowProgram_rowValue_bound hwf _ hk, withSlacks_col x (boundedColumn_lt hk),
        withSlacks_slack, add_sub_cancel]
      show _ = bTilde problem (problem.numRows + k)
      rw [bTilde, if_neg hrow, Nat.add_sub_cancel_left]
  · intro j hj
    have hlt : j < problem.numCols + numUpperBounds problem := mem_range.mp hj
    refine ⟨fun w hw => ?_, nofun⟩
    cases hw
    by_cases hcol : j < problem.numCols
    · rw [withSlacks_col x hcol]
      have hbound := (hbounds j hcol).1 0
      rw [hlower j hcol] at hbound
      exact hbound rfl
    · obtain ⟨k, rfl⟩ := Nat.exists_eq_add_of_le (not_lt.mp hcol)
      have hk : k < numUpperBounds problem := by omega
      rw [withSlacks_slack]
      exact sub_nonneg.mpr ((hbounds _ (boundedColumn_lt hk)).2 _ (upper_boundedColumn hk))

/-- The multiplier of a bound row counts in the column of its variable only. -/
lemma boundRowProgram_colValue (hwf : problem.WellFormed) (y : ℕ → ℚ) {j : ℕ}
    (hj : j < problem.numCols) :
    (boundRowProgram problem).colValue y j = problem.toProgram.colValue y j +
      ∑ k ∈ range (numUpperBounds problem),
        if j = boundedColumn problem k then y (problem.numRows + k) else 0 := by
  show ∑ i ∈ range (problem.numRows + numUpperBounds problem),
    augmentedEntry problem i j * y i = ∑ i ∈ range problem.numRows,
      problem.A.entry i j * y i + _
  rw [sum_range_add]
  congr 1
  · apply sum_congr rfl
    intro i hi
    rw [augmentedEntry_row (mem_range.mp hi) hj]
  · apply sum_congr rfl
    intro k hk
    rw [augmentedEntry_bound hwf (mem_range.mp hk) hj, ite_mul, one_mul, zero_mul]

end BoundRows

section FoldedColors

variable {size : Side → ℕ} {state : Coloring} {side : Side} {last c t u : ℕ}
  {order : IterationOrder}

structure LastAlone (size : Side → ℕ) (state : Coloring) (side : Side) (last : ℕ) : Prop where
  colored : Colored size state
  size_eq : size side = last + 1
  found : ∃ c < state.totalColorsSeen, isSingleton state side last c = true

def foldedIndex (state : Coloring) (side : Side) (last u : ℕ) : ℕ :=
  (foldedColors state side last).idxOf (state.colorMap side u)

def foldedVertices (state : Coloring) (side : Side) (last t : ℕ) : Finset ℕ :=
  (state.colors ((foldedColors state side last).getD t 0)).vertices

lemma isSingleton_iff : isSingleton state side last c = true ↔
    (state.colors c).active = true ∧ (state.colors c).side = side ∧
      (state.colors c).vertices = {last} := by
  simp only [isSingleton, Bool.and_eq_true, decide_eq_true_eq, and_assoc]

namespace LastAlone

lemma vertices_of_mem (h : LastAlone size state side last) (hc : c < state.totalColorsSeen)
    (hside : (state.colors c).side = side) (hlast : last ∈ (state.colors c).vertices) :
    (state.colors c).vertices = {last} := by
  obtain ⟨c₀, hc₀, hsingle⟩ := h.found
  obtain ⟨_, hside₀, hvertices₀⟩ := isSingleton_iff.mp hsingle
  have hmap := ((h.colored.mem c hc last).mp hlast).2
  have hmap₀ := ((h.colored.mem c₀ hc₀ last).mp (hvertices₀ ▸ Finset.mem_singleton_self last)).2
  rw [hside] at hmap
  rw [hside₀, hmap] at hmap₀
  rw [hmap₀, hvertices₀]

lemma mem_foldedColors (h : LastAlone size state side last) : c ∈ foldedColors state side last ↔
    c < state.totalColorsSeen ∧ (state.colors c).side = side ∧
      last ∉ (state.colors c).vertices := by
  rw [foldedColors, mem_filter, List.mem_range]
  simp only [Bool.and_eq_true, decide_eq_true_eq, Bool.not_eq_true', ← Bool.not_eq_true,
    isSingleton_iff]
  constructor
  · rintro ⟨hc, ⟨hactive, hside⟩, hnot⟩
    exact ⟨hc, hside, fun hlast => hnot ⟨hactive, hside, h.vertices_of_mem hc hside hlast⟩⟩
  · rintro ⟨hc, hside, hnot⟩
    refine ⟨hc, ⟨h.colored.active c hc, hside⟩, fun hsingle => hnot ?_⟩
    rw [hsingle.2.2]
    exact Finset.mem_singleton_self last

lemma nodup_foldedColors : (foldedColors state side last).Nodup := nodup_range.filter _

lemma length_foldedColors (h : LastAlone size state side last) :
    (foldedColors state side last).length = state.numSideColors side - 1 := by
  obtain ⟨c₀, hc₀, hsingle⟩ := h.found
  obtain ⟨_, hside₀, hvertices₀⟩ := isSingleton_iff.mp hsingle
  have hlast₀ : last ∈ (state.colors c₀).vertices := hvertices₀ ▸ Finset.mem_singleton_self last
  have herase : (foldedColors state side last).toFinset =
      ((range state.totalColorsSeen).filter fun c =>
        (state.colors c).side = side).erase c₀ := by
    ext c
    rw [mem_toFinset, h.mem_foldedColors, Finset.mem_erase, Finset.mem_filter, mem_range]
    constructor
    · rintro ⟨hc, hside, hnot⟩
      exact ⟨fun heq => hnot (heq ▸ hlast₀), hc, hside⟩
    · rintro ⟨hne, hc, hside⟩
      refine ⟨hc, hside, fun hlast => hne ?_⟩
      have hmap := ((h.colored.mem c hc last).mp hlast).2
      have hmap₀ := ((h.colored.mem c₀ hc₀ last).mp hlast₀).2
      rw [hside] at hmap
      rw [hside₀] at hmap₀
      exact hmap.symm.trans hmap₀
  rw [← toFinset_card_of_nodup nodup_foldedColors, herase, Finset.card_erase_of_mem,
    h.colored.count]
  exact Finset.mem_filter.mpr ⟨mem_range.mpr hc₀, hside₀⟩

lemma getD_mem (ht : t < (foldedColors state side last).length) :
    (foldedColors state side last).getD t 0 ∈ foldedColors state side last := by
  rw [getD_eq_getElem _ _ ht]
  exact getElem_mem ht

section

variable (h : LastAlone size state side last)
include h

lemma colorMap_mem (hu : u < last) :
    state.colorMap side u ∈ foldedColors state side last := by
  have hlt : u < size side := by
    rw [h.size_eq]
    omega
  obtain ⟨hc, hside⟩ := h.colored.mapped side u hlt
  refine h.mem_foldedColors.mpr ⟨hc, hside, fun hlast => ?_⟩
  have hmem : u ∈ (state.colors (state.colorMap side u)).vertices := by
    rw [h.colored.mem _ hc, hside]
    exact ⟨hlt, rfl⟩
  rw [h.vertices_of_mem hc hside hlast, Finset.mem_singleton] at hmem
  omega

lemma foldedIndex_lt (hu : u < last) :
    foldedIndex state side last u < (foldedColors state side last).length :=
  idxOf_lt_length_iff.mpr (h.colorMap_mem hu)

lemma getD_foldedIndex (hu : u < last) :
    (foldedColors state side last).getD (foldedIndex state side last u) 0 =
      state.colorMap side u := by
  rw [getD_eq_getElem _ _ (h.foldedIndex_lt hu)]
  exact getElem_idxOf _

lemma colorMap_eq {v : ℕ} (hu : u < last) (hv : v < last)
    (heq : foldedIndex state side last u = foldedIndex state side last v) :
    state.colorMap side u = state.colorMap side v := by
  rw [← h.getD_foldedIndex hu, heq, h.getD_foldedIndex hv]

lemma mem_foldedVertices (ht : t < (foldedColors state side last).length) :
    u ∈ foldedVertices state side last t ↔
      u < last ∧ foldedIndex state side last u = t := by
  obtain ⟨hc, hside, hlast⟩ := h.mem_foldedColors.mp (getD_mem ht)
  rw [foldedVertices, h.colored.mem _ hc, hside, h.size_eq]
  constructor
  · rintro ⟨hu, hmap⟩
    have hne : u ≠ last := by
      rintro rfl
      apply hlast
      rw [h.colored.mem _ hc, hside, h.size_eq]
      exact ⟨hu, hmap⟩
    refine ⟨by omega, ?_⟩
    rw [foldedIndex, hmap, getD_eq_getElem _ _ ht]
    exact nodup_foldedColors.idxOf_getElem _ _
  · rintro ⟨hu, rfl⟩
    exact ⟨by omega, (h.getD_foldedIndex hu).symm⟩

lemma fiber_eq (ht : t < (foldedColors state side last).length) :
    fiber (range last) (foldedIndex state side last) t =
      foldedVertices state side last t := by
  ext u
  rw [Program.mem_fiber, mem_range, h.mem_foldedVertices ht]

lemma image_foldedIndex :
    (range last).image (foldedIndex state side last) =
      range (foldedColors state side last).length := by
  ext t
  rw [← Program.fiber_nonempty, mem_range]
  constructor
  · rintro ⟨u, hu⟩
    obtain ⟨hmem, heq⟩ := Program.mem_fiber.mp hu
    rw [← heq]
    exact h.foldedIndex_lt (mem_range.mp hmem)
  · intro ht
    rw [h.fiber_eq ht]
    exact h.colored.nonempty _ (h.mem_foldedColors.mp (getD_mem ht)).1

end

end LastAlone

lemma coeff_list_map (c : ℕ) (s : Finset ℕ) (w : ℚ) (u : ℕ) :
    coeff ((order.list c s).map fun v => (v, w)) u = if u ∈ s then w else 0 := by
  have hsum : coeff ((order.list c s).map fun v => (v, w)) u = ∑ v ∈ s, if v = u then w else 0 := by
    rw [← order.sum_map c, coeff, map_map]
    rfl
  rw [hsum, sum_ite_eq']

lemma averageRows_entry (order : IterationOrder) (state : Coloring) (side : Side) (last : ℕ)
    {reduced : ℕ} (ht : t < reduced) :
    (averageRows order state (foldedColors state side last) reduced last).entry t u =
      if u ∈ foldedVertices state side last t
        then 1 / ((foldedVertices state side last t).card : ℚ) else 0 := by
  show coeff (transposed reduced _ u) t = _
  rw [coeff_transposed, if_pos ht]
  exact coeff_list_map _ _ _ _

lemma memberColumns_entry {reduced : ℕ} :
    (memberColumns order state (foldedColors state side last) last reduced).entry u t =
      if u ∈ foldedVertices state side last t then 1 else 0 :=
  coeff_list_map _ _ _ _

namespace LastAlone

variable {reduced : ℕ}

lemma averageRows_mulVec (order : IterationOrder) (h : LastAlone size state side last)
    (hreduced : reduced = (foldedColors state side last).length) (x : ℕ → ℚ) (ht : t < reduced) :
    (averageRows order state (foldedColors state side last) reduced last).mulVec x t =
      average (range last) (foldedIndex state side last) x t := by
  have hsub : foldedVertices state side last t ⊆ range last := by
    intro u hu
    exact mem_range.mpr ((h.mem_foldedVertices (hreduced ▸ ht)).mp hu).1
  show ((List.range last).map _).sum = _
  rw [sum_map_range, average, h.fiber_eq (hreduced ▸ ht), Finset.sum_div]
  simp only [averageRows_entry _ _ _ _ ht, ite_mul, zero_mul]
  rw [← sum_filter, Finset.filter_mem_eq_inter, Finset.inter_eq_right.mpr hsub]
  apply sum_congr rfl
  intro u _
  rw [one_div_mul_eq_div]

section

variable (h : LastAlone size state side last)
  (hreduced : reduced = (foldedColors state side last).length)
include h hreduced

lemma averageRows_mulTransposeVec (y : ℕ → ℚ) (hu : u < last) :
    (averageRows order state (foldedColors state side last) reduced last).mulTransposeVec y u =
      share (range last) (foldedIndex state side last) y u := by
  have hlt := h.foldedIndex_lt hu
  show dot (transposed reduced _ u) y = _
  rw [dot_eq_sum _ y (range reduced)]
  · have hentry : ∀ t ∈ range reduced,
        coeff (transposed reduced (fun k => (colorVertices order state
          ((foldedColors state side last).getD k 0)).map fun v =>
            (v, 1 / ((state.colors ((foldedColors state side last).getD k 0)).vertices.card : ℚ)))
          u) t * y t =
        if t = foldedIndex state side last u then
          share (range last) (foldedIndex state side last) y u else 0 := by
      intro t ht
      have ht' : t < reduced := mem_range.mp ht
      have hentry := averageRows_entry order state side last (u := u) ht'
      rw [show coeff (transposed reduced _ u) t = _ from hentry]
      by_cases heq : t = foldedIndex state side last u
      · rw [if_pos heq, if_pos ((h.mem_foldedVertices (hreduced ▸ ht')).mpr ⟨hu, heq.symm⟩),
          share, ← heq, h.fiber_eq (hreduced ▸ ht'), one_div_mul_eq_div]
      · rw [if_neg heq, if_neg, zero_mul]
        intro hmem
        exact heq ((h.mem_foldedVertices (hreduced ▸ ht')).mp hmem).2.symm
    refine (sum_congr rfl hentry).trans ?_
    rw [sum_ite_eq', if_pos (mem_range.mpr (hreduced ▸ hlt))]
  · intro p hp
    exact mem_range.mpr (mem_transposed.mp hp).1

lemma memberColumns_mulVec (x : ℕ → ℚ) (hu : u < last) :
    (memberColumns order state (foldedColors state side last) last reduced).mulVec x u =
      x (foldedIndex state side last u) := by
  show ((List.range reduced).map _).sum = _
  rw [sum_map_range]
  have hentry : ∀ t ∈ range reduced,
      (memberColumns order state (foldedColors state side last) last reduced).entry u t * x t =
        if t = foldedIndex state side last u then x (foldedIndex state side last u) else 0 := by
    intro t ht
    have ht' : t < reduced := mem_range.mp ht
    rw [memberColumns_entry]
    by_cases heq : t = foldedIndex state side last u
    · rw [if_pos heq, if_pos ((h.mem_foldedVertices (hreduced ▸ ht')).mpr ⟨hu, heq.symm⟩), heq,
        one_mul]
    · rw [if_neg heq, if_neg, zero_mul]
      intro hmem
      exact heq ((h.mem_foldedVertices (hreduced ▸ ht')).mp hmem).2.symm
  rw [sum_congr rfl hentry, sum_ite_eq',
    if_pos (mem_range.mpr (hreduced ▸ h.foldedIndex_lt hu))]

lemma memberColumns_mulTransposeVec (c : ℕ → ℚ) (ht : t < reduced) :
    (memberColumns order state (foldedColors state side last) last reduced).mulTransposeVec c t =
      ∑ u ∈ fiber (range last) (foldedIndex state side last) t, c u := by
  rw [h.fiber_eq (hreduced ▸ ht), foldedVertices, ← order.sum_map]
  show dot ((colorVertices order state _).map _) c = _
  simp only [dot, map_map, comp_def, one_mul]
  rfl

end

end LastAlone

end FoldedColors

section Multiply

variable {A B : CscMatrix} {i j : ℕ}

lemma coeff_distinct (l : List (ℕ × ℚ)) (i : ℕ) :
    coeff ((distinct (keys l)).map fun k => (k, coeff l k)) i = coeff l i := by
  by_cases hi : i ∈ keys l
  · apply coeff_of_mem (p := (i, coeff l i))
    · simp only [keys, map_map, comp_def, map_id']
      exact nodup_distinct _
    · exact mem_map.mpr ⟨i, mem_distinct.mpr hi, rfl⟩
  · rw [coeff_eq_zero hi]
    apply coeff_eq_zero
    simpa only [keys, map_map, comp_def, map_id', mem_distinct] using hi

lemma multiply_entry (hB : ∀ p ∈ B.col j, p.1 < A.n) :
    (multiply A B).entry i j = ∑ k ∈ range A.n, A.entry i k * B.entry k j := by
  show coeff ((distinct (keys _)).map fun k => (k, coeff _ k)) i = _
  rw [coeff_distinct, coeff_flatMap]
  simp only [coeff_map_mul]
  have hdot := dot_eq_sum (B.col j) (fun k => A.entry i k) (range A.n) fun p hp =>
    mem_range.mpr (hB p hp)
  rw [dot] at hdot
  refine hdot.trans (sum_congr rfl fun k _ => ?_)
  exact mul_comm _ _

lemma mem_col_multiply {p : ℕ × ℚ} (hp : p ∈ (multiply A B).col j) :
    ∃ r ∈ B.col j, p.1 ∈ keys (A.col r.1) := by
  obtain ⟨k, hk, rfl⟩ := mem_map.mp hp
  obtain ⟨q, hq, rfl⟩ := mem_map.mp (mem_distinct.mp hk)
  obtain ⟨r, hr, hq⟩ := mem_flatMap.mp hq
  obtain ⟨e, he, rfl⟩ := mem_map.mp hq
  exact ⟨r, hr, mem_map.mpr ⟨e, he, rfl⟩⟩

end Multiply

section Folded

variable {order : IterationOrder} {problem : LpProblem} {settings : SimplexSolverSettings}
  {M : FoldMatrices} {state : Coloring}

abbrev previousRows (problem : LpProblem) : ℕ := problem.numRows + numUpperBounds problem

abbrev previousCols (problem : LpProblem) : ℕ := problem.numCols + numUpperBounds problem

/-- What is known of a coloring that `folding` accepted, and the matrices that come from it. -/
structure Accepted (order : IterationOrder) (problem : LpProblem) (state : Coloring)
    (M : FoldMatrices) : Prop where
  lower : ∀ j < problem.numCols, problem.lower j = some 0
  rows : LastAlone (augmented problem).size state .row (previousRows problem)
  cols : LastAlone (augmented problem).size state .col (previousCols problem)
  equitable : ∀ c < state.totalColorsSeen,
    ColorRefinement.Stable (augmentedWeight problem (state.colors c).side)
      (Finset.range ((augmented problem).size (state.colors c).side.other))
      (state.colorMap (state.colors c).side.other) (state.colors c).vertices
  Cs : M.Cs = averageRows order state (foldedColors state .row (previousRows problem))
    (foldedColors state .row (previousRows problem)).length (previousRows problem)
  D : M.D = memberColumns order state (foldedColors state .col (previousCols problem))
    (previousCols problem) (foldedColors state .col (previousCols problem)).length
  Ds : M.Ds = averageRows order state (foldedColors state .col (previousCols problem))
    (foldedColors state .col (previousCols problem)).length (previousCols problem)

lemma foldMatrices_some (h : foldMatrices order problem state = some M) :
    (∃ c < state.totalColorsSeen, isSingleton state .row (previousRows problem) c = true) ∧
    (∃ c < state.totalColorsSeen, isSingleton state .col (previousCols problem) c = true) ∧
    M = { Cs := averageRows order state (foldedColors state .row (previousRows problem))
            (state.numSideColors .row - 1) (previousRows problem)
          D := memberColumns order state (foldedColors state .col (previousCols problem))
            (previousCols problem) (state.numSideColors .col - 1)
          Ds := averageRows order state (foldedColors state .col (previousCols problem))
            (state.numSideColors .col - 1) (previousCols problem) } := by
  simp only [foldMatrices] at h
  split_ifs at h with hrow hcol
  obtain ⟨c, hc, hsingle⟩ := any_eq_true.mp hrow
  obtain ⟨d, hd, hsingle'⟩ := any_eq_true.mp hcol
  exact ⟨⟨c, List.mem_range.mp hc, hsingle⟩, ⟨d, List.mem_range.mp hd, hsingle'⟩,
    (Option.some.inj h).symm⟩

lemma foldChecked_accepted (hwf : problem.WellFormed)
    (h : foldChecked order problem settings = some M) : ∃ state, Accepted order problem state M := by
  unfold foldChecked at h
  split at h
  · cases h
  split at h
  · cases h
  case isFalse hlower =>
  split at h
  · cases h
  obtain ⟨state, hcolor, hrest⟩ := Option.bind_eq_some_iff.mp h
  obtain ⟨N, hmatrices, hlast⟩ := Option.bind_eq_some_iff.mp hrest
  split at hlast
  · cases hlast
  split at hlast
  · cases hlast
  cases hlast
  have hm : 0 < (augmented problem).m := Nat.lt_of_lt_of_le (Nat.succ_pos _) (Nat.le_add_right _ _)
  have hn : 0 < (augmented problem).n := Nat.succ_pos _
  obtain ⟨hcolored, hequitable⟩ :=
    colorGraph_equitable (augmented_inRange hwf) (augmented_tracks problem) hm hn hcolor
  obtain ⟨hrow, hcol, heq⟩ := foldMatrices_some hmatrices
  have hrows : LastAlone (augmented problem).size state .row (previousRows problem) :=
    ⟨hcolored, Nat.add_right_comm _ _ _, hrow⟩
  have hcols : LastAlone (augmented problem).size state .col (previousCols problem) :=
    ⟨hcolored, rfl, hcol⟩
  rw [← hrows.length_foldedColors, ← hcols.length_foldedColors] at heq
  refine ⟨state, ?_, hrows, hcols, hequitable, by rw [heq], by rw [heq], by rw [heq]⟩
  intro j hj
  by_contra hne
  apply hlower
  exact any_eq_true.mpr ⟨j, List.mem_range.mpr hj, decide_eq_true hne⟩

namespace Accepted

abbrev rowClass (problem : LpProblem) (state : Coloring) : ℕ → ℕ :=
  foldedIndex state .row (previousRows problem)

abbrev colClass (problem : LpProblem) (state : Coloring) : ℕ → ℕ :=
  foldedIndex state .col (previousCols problem)

/-- Lines of one class have equal sums over a color of the other side. -/
lemma sum_eq (h : Accepted order problem state M) {c v w : ℕ} (hc : c < state.totalColorsSeen)
    (hv : v < (augmented problem).size (state.colors c).side.other)
    (hw : w < (augmented problem).size (state.colors c).side.other)
    (heq : state.colorMap (state.colors c).side.other v =
      state.colorMap (state.colors c).side.other w) :
    ∑ u ∈ (state.colors c).vertices, augmentedWeight problem (state.colors c).side u v =
      ∑ u ∈ (state.colors c).vertices, augmentedWeight problem (state.colors c).side u w :=
  h.equitable c hc v (mem_range.mpr hv) w (mem_range.mpr hw) heq

variable {i j k s : ℕ}

lemma row_lt (hi : i < previousRows problem) : i < (augmented problem).size .row := by
  have hi' : i < problem.numRows + numUpperBounds problem := hi
  show i < problem.numRows + 1 + numUpperBounds problem
  omega

lemma col_lt (hj : j < previousCols problem) : j < (augmented problem).size .col :=
  Nat.lt_succ_of_lt hj

section

variable (h : Accepted order problem state M)
include h

lemma row_sum (hi : i < previousRows problem) (hk : k < previousRows problem)
    (heq : rowClass problem state i = rowClass problem state k) (s : ℕ) :
    ∑ j ∈ fiber (range (previousCols problem)) (colClass problem state) s,
        augmentedEntry problem i j =
      ∑ j ∈ fiber (range (previousCols problem)) (colClass problem state) s,
        augmentedEntry problem k j := by
  by_cases hs : s < (foldedColors state .col (previousCols problem)).length
  · obtain ⟨hc, hside, _⟩ := h.cols.mem_foldedColors.mp (LastAlone.getD_mem hs)
    have hsum := h.sum_eq hc (v := i) (w := k)
    rw [hside] at hsum
    rw [h.cols.fiber_eq hs]
    exact hsum (row_lt hi) (row_lt hk) (h.rows.colorMap_eq hi hk heq)
  · have hempty : fiber (range (previousCols problem)) (colClass problem state) s =
        ∅ := by
      rw [← Finset.not_nonempty_iff_eq_empty, Program.fiber_nonempty, h.cols.image_foldedIndex,
        mem_range]
      exact hs
    rw [hempty, sum_empty, sum_empty]

lemma col_sum (hj : j < previousCols problem) (hk : k < previousCols problem)
    (heq : colClass problem state j = colClass problem state k) (r : ℕ) :
    ∑ i ∈ fiber (range (previousRows problem)) (rowClass problem state) r,
        augmentedEntry problem i j =
      ∑ i ∈ fiber (range (previousRows problem)) (rowClass problem state) r,
        augmentedEntry problem i k := by
  by_cases hr : r < (foldedColors state .row (previousRows problem)).length
  · obtain ⟨hc, hside, _⟩ := h.rows.mem_foldedColors.mp (LastAlone.getD_mem hr)
    have hsum := h.sum_eq hc (v := j) (w := k)
    rw [hside] at hsum
    rw [h.rows.fiber_eq hr]
    exact hsum (col_lt hj) (col_lt hk) (h.cols.colorMap_eq hj hk heq)
  · have hempty : fiber (range (previousRows problem)) (rowClass problem state) r =
        ∅ := by
      rw [← Finset.not_nonempty_iff_eq_empty, Program.fiber_nonempty, h.rows.image_foldedIndex,
        mem_range]
      exact hr
    rw [hempty, sum_empty, sum_empty]

lemma b_eq (hi : i < previousRows problem) (hk : k < previousRows problem)
    (heq : rowClass problem state i = rowClass problem state k) :
    bTilde problem i = bTilde problem k := by
  obtain ⟨c, hc, hsingle⟩ := h.cols.found
  obtain ⟨_, hside, hvertices⟩ := isSingleton_iff.mp hsingle
  have hsum := h.sum_eq hc (v := i) (w := k)
  rw [hside, hvertices, sum_singleton, sum_singleton] at hsum
  rw [← augmentedEntry_rhs hi, ← augmentedEntry_rhs hk]
  exact hsum (row_lt hi) (row_lt hk) (h.rows.colorMap_eq hi hk heq)

lemma c_eq (hwf : problem.WellFormed) (hj : j < previousCols problem)
    (hk : k < previousCols problem) (heq : colClass problem state j = colClass problem state k) :
    cTilde problem j = cTilde problem k := by
  obtain ⟨c, hc, hsingle⟩ := h.rows.found
  obtain ⟨_, hside, hvertices⟩ := isSingleton_iff.mp hsingle
  have hsum := h.sum_eq hc (v := j) (w := k)
  rw [hside, hvertices, sum_singleton, sum_singleton] at hsum
  rw [← augmentedEntry_objective hwf hj, ← augmentedEntry_objective hwf hk]
  exact hsum (col_lt hj) (col_lt hk) (h.cols.colorMap_eq hj hk heq)

end

lemma keys_augmentedTilde (hwf : problem.WellFormed) (hj : j < previousCols problem)
    (hi : i ∈ keys ((augmentedTilde problem).col j)) : i < previousRows problem := by
  obtain ⟨p, hp, rfl⟩ := mem_map.mp hi
  obtain ⟨q, hq, rfl⟩ := mem_map.mp hp
  obtain ⟨r, hr, rfl⟩ := mem_map.mp hq
  obtain ⟨hmem, hne⟩ := mem_filter.mp hr
  rw [if_pos hj] at hmem
  have hlt : r.1 < problem.numRows + 1 + numUpperBounds problem :=
    augmented_inRange hwf j (Nat.lt_succ_of_lt hj) r hmem
  have hne' : r.1 ≠ problem.numRows + numUpperBounds problem := of_decide_eq_true hne
  show (if problem.numRows + numUpperBounds problem < r.1 then r.1 - 1 else r.1) <
    problem.numRows + numUpperBounds problem
  split_ifs <;> omega

section

variable (h : Accepted order problem state M)
include h

lemma mem_col_D (hs : s < (foldedColors state .col (previousCols problem)).length) {p : ℕ × ℚ}
    (hp : p ∈ M.D.col s) : p.1 < previousCols problem := by
  rw [h.D] at hp
  obtain ⟨v, hv, rfl⟩ := mem_map.mp hp
  have hv' : v ∈ foldedVertices state .col (previousCols problem) s :=
    (order.mem_list _ _ _).mp hv
  exact ((h.cols.mem_foldedVertices hs).mp hv').1

/-- An entry of `C^s A D`. -/
lemma a_eq (hwf : problem.WellFormed) {r : ℕ}
    (hr : r < (foldedColors state .row (previousRows problem)).length)
    (hs : s < (foldedColors state .col (previousCols problem)).length) :
    (multiply M.Cs (multiply (augmentedTilde problem) M.D)).entry r s =
      (∑ i ∈ fiber (range (previousRows problem)) (rowClass problem state) r,
        ∑ j ∈ fiber (range (previousCols problem)) (colClass problem state) s,
          augmentedEntry problem i j) /
        (fiber (range (previousRows problem)) (rowClass problem state) r).card := by
  have hcols : (augmentedTilde problem).n = previousCols problem := rfl
  have hrowsCs : M.Cs.n = previousRows problem := by
    rw [h.Cs]
    rfl
  have hAD : ∀ i < previousRows problem, (multiply (augmentedTilde problem) M.D).entry i s =
      ∑ j ∈ fiber (range (previousCols problem)) (colClass problem state) s,
        augmentedEntry problem i j := by
    intro i hi
    rw [multiply_entry fun p hp => by
      rw [hcols]
      exact h.mem_col_D hs hp]
    rw [hcols, fiber, sum_filter]
    apply sum_congr rfl
    intro j hj
    have hj' : j < previousCols problem := mem_range.mp hj
    rw [augmentedTilde_entry hi hj', h.D, memberColumns_entry]
    by_cases hclass : colClass problem state j = s
    · rw [if_pos ((h.cols.mem_foldedVertices hs).mpr ⟨hj', hclass⟩), if_pos hclass, mul_one]
    · rw [if_neg fun hmem => hclass ((h.cols.mem_foldedVertices hs).mp hmem).2, if_neg hclass,
        mul_zero]
  rw [multiply_entry]
  · have hentry := h.rows.averageRows_mulVec order rfl
      (fun i => (multiply (augmentedTilde problem) M.D).entry i s) hr
    rw [← h.Cs] at hentry
    have hsum : ∑ k ∈ range M.Cs.n, M.Cs.entry r k *
        (multiply (augmentedTilde problem) M.D).entry k s = M.Cs.mulVec
          (fun i => (multiply (augmentedTilde problem) M.D).entry i s) r :=
      (sum_map_range _ _).symm
    rw [hsum, hentry, average]
    congr 1
    apply sum_congr rfl
    intro i hi
    exact hAD i (mem_range.mp (Program.mem_fiber.mp hi).1)
  · intro p hp
    rw [hrowsCs]
    obtain ⟨q, hq, hkey⟩ := mem_col_multiply hp
    exact keys_augmentedTilde hwf (h.mem_col_D hs hq) hkey

lemma isFold (hwf : problem.WellFormed) (hQ : problem.Q.n = 0) :
    Program.IsFold (foldedProblem problem M).toProgram
      (boundRowProgram problem) (rowClass problem state) (colClass problem state) := by
  have hrows : (foldedProblem problem M).numRows =
      (foldedColors state .row (previousRows problem)).length := by
    show M.Cs.m = _
    rw [h.Cs]
    rfl
  have hcols : (foldedProblem problem M).numCols =
      (foldedColors state .col (previousCols problem)).length := by
    show M.D.n = _
    rw [h.D]
    rfl
  constructor
  case rows =>
    show range (foldedProblem problem M).numRows = _
    rw [hrows]
    exact h.rows.image_foldedIndex.symm
  case cols =>
    show range (foldedProblem problem M).numCols = _
    rw [hcols]
    exact h.cols.image_foldedIndex.symm
  case row_sum =>
    intro i hi k hk heq s
    exact h.row_sum (mem_range.mp hi) (mem_range.mp hk) heq s
  case col_sum =>
    intro j hj k hk heq r
    exact h.col_sum (mem_range.mp hj) (mem_range.mp hk) heq r
  case b_eq =>
    intro i hi k hk heq
    exact h.b_eq (mem_range.mp hi) (mem_range.mp hk) heq
  case c_eq =>
    intro j hj k hk heq
    exact h.c_eq hwf (mem_range.mp hj) (mem_range.mp hk) heq
  case a =>
    intro r hr s hs
    have hr' := mem_range.mp hr
    have hs' := mem_range.mp hs
    rw [hrows] at hr'
    rw [hcols] at hs'
    exact h.a_eq hwf hr' hs'
  case b =>
    intro r hr
    have hr' := mem_range.mp hr
    rw [hrows] at hr'
    show M.Cs.mulVec (bTilde problem) r = _
    rw [h.Cs]
    exact h.rows.averageRows_mulVec order rfl (bTilde problem) hr'
  case c =>
    intro s hs
    have hs' := mem_range.mp hs
    rw [hcols] at hs'
    show M.D.mulTransposeVec (cTilde problem) s = _
    rw [h.D]
    exact h.cols.memberColumns_mulTransposeVec rfl (cTilde problem) hs'
  case q => exact fun _ _ _ _ => rfl
  case q' =>
    intro s _ t _
    have hQ' : (foldedProblem problem M).Q.n = 0 := hQ
    simp only [LpProblem.toProgram, hQ', lt_irrefl, if_false]
  case const => rfl
  case lower | upper | lower' | upper' => exact fun _ _ => rfl

lemma D_mulVec (x : ℕ → ℚ) (hj : j < previousCols problem) :
    M.D.mulVec x j = x (colClass problem state j) := by
  rw [h.D]
  exact h.cols.memberColumns_mulVec rfl x hj

lemma Cs_mulTransposeVec (y : ℕ → ℚ) (hi : i < previousRows problem) : M.Cs.mulTransposeVec y i =
      share (boundRowProgram problem).rows (rowClass problem state) y i := by
  rw [h.Cs]
  exact h.rows.averageRows_mulTransposeVec rfl y hi

lemma Ds_mulTransposeVec (z : ℕ → ℚ) (hj : j < previousCols problem) : M.Ds.mulTransposeVec z j =
      share (boundRowProgram problem).cols (colClass problem state) z j := by
  rw [h.Ds]
  exact h.cols.averageRows_mulTransposeVec rfl z hj

lemma Ds_mulVec (x : ℕ → ℚ) (hs : s < (foldedProblem problem M).numCols) : M.Ds.mulVec x s =
      average (boundRowProgram problem).cols (colClass problem state) x s := by
  have hs' : s < (foldedColors state .col (previousCols problem)).length := by
    have hD : s < M.D.n := hs
    rw [h.D] at hD
    exact hD
  rw [h.Ds]
  exact h.cols.averageRows_mulVec order rfl x hs'

end

end Accepted

end Folded

section Unfold

variable {order : IterationOrder} {problem : LpProblem} {settings : SimplexSolverSettings}
  {info : PresolveInfo}

/-- `folding` leaves the problem alone unless it folds it. -/
lemma folding_idle (order : IterationOrder) : FoldingIdle (folding order) := by
  intro problem settings info hfold
  unfold folding at hfold ⊢
  split at hfold
  case h_1 heq => rfl
  case h_2 M heq => cases hfold

lemma folding_accepted (hwf : problem.WellFormed) (hinfo : info.foldingInfo.isFolded = false)
    (hfold : (folding order problem settings info).2.foldingInfo.isFolded = true) :
    ∃ state M, Accepted order problem state M ∧
      (folding order problem settings info).1 = foldedProblem problem M ∧
      (folding order problem settings info).2.foldingInfo =
        { D := M.D
          Cs := M.Cs
          Ds := M.Ds
          previousFreeVariablePairs := info.freeVariablePairs
          isFolded := true } := by
  unfold folding at hfold ⊢
  cases hcheck : foldChecked order problem settings with
  | none =>
    rw [hcheck, hinfo] at hfold
    cases hfold
  | some M =>
    obtain ⟨state, haccepted⟩ := foldChecked_accepted hwf hcheck
    exact ⟨state, M, haccepted, rfl, rfl⟩

lemma Accepted.lift {state : Coloring} {M : FoldMatrices} (h : Accepted order problem state M)
    (hwf : problem.WellFormed) (hQ : problem.Q.n = 0) {x : ℕ → ℚ}
    (hx : (foldedProblem problem M).toProgram.Feasible x) :
    problem.toProgram.Feasible (M.D.mulVec x) ∧ problem.toProgram.objective (M.D.mulVec x) =
      (foldedProblem problem M).toProgram.objective x := by
  have hsame : ∀ j ∈ (boundRowProgram problem).cols,
      M.D.mulVec x j = x (Accepted.colClass problem state j) := fun j hj =>
    h.D_mulVec x (mem_range.mp hj)
  have hlift := ((h.isFold hwf hQ).feasible_lift hx).congr hsame
  refine ⟨feasible_of_boundRowProgram hwf h.lower hlift, ?_⟩
  rw [← boundRowProgram_objective hQ, Program.objective_congr _ hsame,
    (h.isFold hwf hQ).objective_lift]

def feasibleValues (problem : LpProblem) : Set ℚ :=
  { v | ∃ x, problem.toProgram.Feasible x ∧ problem.toProgram.objective x = v }

/-- The folded problem has the objective values of the problem: points go back through `D` and come
from the means of a point and its slacks over the column colors. -/
theorem folding_preserves (hwf : problem.WellFormed) (hQ : problem.Q.n = 0)
    (hinfo : info.foldingInfo.isFolded = false)
    (hfold : (folding order problem settings info).2.foldingInfo.isFolded = true) :
    let folded := (folding order problem settings info).1
    let foldingInfo := (folding order problem settings info).2.foldingInfo
    (∀ crushed t : Solution, folded.toProgram.Feasible crushed.x →
      problem.toProgram.Feasible (unfold foldingInfo crushed t).x ∧
        problem.toProgram.objective (unfold foldingInfo crushed t).x =
          folded.toProgram.objective crushed.x) ∧
    (∀ x, problem.toProgram.Feasible x →
      folded.toProgram.Feasible (foldingInfo.Ds.mulVec (withSlacks problem x)) ∧
        folded.toProgram.objective (foldingInfo.Ds.mulVec (withSlacks problem x)) =
          problem.toProgram.objective x) ∧ feasibleValues folded = feasibleValues problem := by
  obtain ⟨state, M, haccepted, hproblem, hfolding⟩ := folding_accepted hwf hinfo hfold
  simp only [hproblem, hfolding]
  have hisFold := haccepted.isFold hwf hQ
  have hback : ∀ x, (foldedProblem problem M).toProgram.Feasible x →
      problem.toProgram.Feasible (M.D.mulVec x) ∧
        problem.toProgram.objective (M.D.mulVec x) =
          (foldedProblem problem M).toProgram.objective x := by
    intro x hx
    have hsame : ∀ j ∈ (boundRowProgram problem).cols,
        M.D.mulVec x j = x (Accepted.colClass problem state j) := fun j hj =>
      haccepted.D_mulVec x (mem_range.mp hj)
    have hlift := (hisFold.feasible_lift hx).congr hsame
    refine ⟨feasible_of_boundRowProgram hwf haccepted.lower hlift, ?_⟩
    rw [← boundRowProgram_objective hQ, Program.objective_congr _ hsame, hisFold.objective_lift]
  have hforth : ∀ x, problem.toProgram.Feasible x →
      (foldedProblem problem M).toProgram.Feasible (M.Ds.mulVec (withSlacks problem x)) ∧
        (foldedProblem problem M).toProgram.objective (M.Ds.mulVec (withSlacks problem x)) =
          problem.toProgram.objective x := by
    intro x hx
    have hsame : ∀ s ∈ (foldedProblem problem M).toProgram.cols,
        M.Ds.mulVec (withSlacks problem x) s = average (boundRowProgram problem).cols
          (Accepted.colClass problem state) (withSlacks problem x) s := fun s hs =>
      haccepted.Ds_mulVec _ (mem_range.mp hs)
    have hslacks := withSlacks_feasible hwf haccepted.lower hx
    refine ⟨(hisFold.feasible_average hslacks).congr hsame, ?_⟩
    rw [Program.objective_congr _ hsame, hisFold.objective_average, boundRowProgram_objective hQ]
    exact Program.objective_congr _ fun j hj => withSlacks_col x (mem_range.mp hj)
  refine ⟨fun crushed t hx => hback crushed.x hx, hforth, ?_⟩
  apply Set.ext
  intro v
  constructor
  · rintro ⟨x, hx, rfl⟩
    exact ⟨_, (hback x hx).1, (hback x hx).2⟩
  · rintro ⟨x, hx, rfl⟩
    exact ⟨_, (hforth x hx).1, (hforth x hx).2⟩

/-- A solution of the presolved problem, folded or not, goes back to one of the original. -/
theorem uncrushSolution_folding_feasible (order : IterationOrder) {original : LpProblem}
    (hwf : original.WellFormed) (hcones : original.secondOrderConeDims = [])
    (hord : EmptyColsOrdered original)
    (h : presolve (folding order) original settings = some (problem, info)) {t : Solution}
    (ht : problem.toProgram.Feasible t.x) :
    original.toProgram.Feasible (uncrushSolution info original t).x ∧
      original.toProgram.objective (uncrushSolution info original t).x =
        problem.toProgram.objective t.x := by
  by_cases hfold : info.foldingInfo.isFolded = false
  · have hr := presolve_reduces hwf hcones (folding_idle order) h hfold
    exact ⟨hr.feasible hord t ht, (hr.recovers.objective_eq t).symm⟩
  obtain ⟨p, i, hnot, hnil, hstages, hr⟩ := presolve_before_fold hwf hcones h
  have hinfo := eliminateStage_foldingInfo settings (foldStage (folding order) settings p i).1
    (foldStage (folding order) settings p i).2
  rw [hstages] at hinfo
  unfold foldStage folding at hstages hinfo
  split_ifs at hstages hinfo with hcond
  · obtain ⟨-, -, hQ, hc⟩ := hcond
    cases hcheck : foldChecked order p settings with
    | none =>
      rw [hcheck] at hinfo
      exact absurd (hinfo ▸ hnot) hfold
    | some M =>
      obtain ⟨state, haccepted⟩ := foldChecked_accepted hr.wellFormed hcheck
      -- a folded problem has no quadratic part and no cones, so that nothing is eliminated
      rw [hcheck, eliminateStage, if_neg (by simp [foldedProblem, hQ, hc])] at hstages
      cases hstages
      obtain ⟨hfeasible, hobjective⟩ := haccepted.lift hr.wellFormed hQ ht
      have hback := hr.feasible hord ⟨_, M.Cs.mulTransposeVec t.y, M.Ds.mulTransposeVec t.z⟩ hfeasible
      have hsame := hr.recovers.objective_eq
        ⟨M.D.mulVec t.x, M.Cs.mulTransposeVec t.y, M.Ds.mulTransposeVec t.z⟩
      simp only [uncrushSolution, unfold, restoreEliminated_of_nil hnil, hnot, Bool.false_eq_true,
        if_false, id_eq] at hback hsame
      exact ⟨hback, hsame.symm.trans hobjective⟩
  · exact absurd (hinfo ▸ hnot) hfold

def ascendingOrder : IterationOrder where
  list := fun _ s => (List.range (s.sup id + 1)).filter fun v => v ∈ s
  nodup := fun _ _ => nodup_range.filter _
  mem_list := by
    intro c s v
    rw [mem_filter, List.mem_range, decide_eq_true_eq]
    constructor
    · exact fun h => h.2
    · exact fun h => ⟨Nat.lt_succ_of_le (Finset.le_sup (f := id) h), h⟩

def foldingSettings : SimplexSolverSettings where
  barrier := true
  barrierPresolve := true
  barrierEliminateFreeVariables := true
  barrierPresolveBoundFreeVariables := 0
  folding := 1
  dualize := 0

/-- Three rows `x_j + s_j = 2` with `x_j ≤ 1`, and the sum of the `x_j` as large as possible. -/
def boxedRows : LpProblem where
  numRows := 3
  numCols := 6
  objective := fun j => if j < 3 then -1 else 0
  Q := ⟨0, 0, fun _ => []⟩
  A := ⟨3, 6, fun j => [(j % 3, 1)]⟩
  rhs := fun _ => 2
  lower := fun _ => some 0
  upper := fun j => if j < 3 then some 1 else none
  objConstant := 0
  coneVarStart := 0
  secondOrderConeDims := []

lemma boxedRows_wellFormed : boxedRows.WellFormed :=
  ⟨rfl, rfl, by decide, by decide, fun h => absurd h (lt_irrefl 0)⟩

lemma boxedRows_folded :
    (folding ascendingOrder boxedRows foldingSettings {}).2.foldingInfo.isFolded = true := by
  decide +kernel

theorem uncrushSolution_folding_feasible_boxedRows : ∃ problem info t,
    presolve (folding ascendingOrder) boxedRows foldingSettings = some (problem, info) ∧
      boxedRows.toProgram.Feasible (uncrushSolution info boxedRows t).x := by
  have heval : (presolve (folding ascendingOrder) boxedRows foldingSettings).any
      (fun r => r.1.toProgram.Feasible fun j => if j = 0 then 0 else 1) = true := by
    decide +kernel
  obtain ⟨⟨problem, info⟩, hpre, hr⟩ := (Option.any_eq_true _ _).mp heval
  exact ⟨problem, info, ⟨_, 0, 0⟩, hpre, (uncrushSolution_folding_feasible _ boxedRows_wellFormed
    rfl (fun _ _ hcol => by cases hcol) hpre (of_decide_eq_true hr)).1⟩

theorem folding_preserves_boxedRows :
    feasibleValues (folding ascendingOrder boxedRows foldingSettings {}).1 =
      feasibleValues boxedRows :=
  (folding_preserves boxedRows_wellFormed rfl rfl boxedRows_folded).2.2

/-- A reduced cost is positive at the lower bound only and negative at the upper bound only. -/
def SignRule (P : Program ℕ ℕ ℚ) (t : Solution) : Prop :=
  ∀ j ∈ P.cols, (0 < t.z j → P.lower j = some (t.x j)) ∧ (t.z j < 0 → P.upper j = some (t.x j))

instance (P : Program ℕ ℕ ℚ) (t : Solution) : Decidable (SignRule P t) :=
  inferInstanceAs (Decidable (∀ j ∈ P.cols,
    (0 < t.z j → P.lower j = some (t.x j)) ∧ (t.z j < 0 → P.upper j = some (t.x j))))

def BoundMultipliersVanish (problem : LpProblem) (foldingInfo : FoldingInfo) (y : ℕ → ℚ) : Prop :=
  ∀ k < numUpperBounds problem, ∀ r < foldingInfo.Cs.m,
    foldingInfo.Cs.entry r (problem.numRows + k) ≠ 0 → y r = 0

instance (problem : LpProblem) (foldingInfo : FoldingInfo) (y : ℕ → ℚ) :
    Decidable (BoundMultipliersVanish problem foldingInfo y) :=
  inferInstanceAs (Decidable (∀ k < numUpperBounds problem, ∀ r < foldingInfo.Cs.m,
    foldingInfo.Cs.entry r (problem.numRows + k) ≠ 0 → y r = 0))

section Duals

variable {state : Coloring} {M : FoldMatrices} {crushed : Solution}

variable {i : ℕ}

section

variable (h : Accepted order problem state M)
include h

lemma Accepted.class_lt (hi : i < previousRows problem) :
    Accepted.rowClass problem state i < M.Cs.m := by
  rw [h.Cs]
  exact h.rows.foldedIndex_lt hi

lemma Accepted.Cs_entry_ne_zero {r : ℕ} (hr : r < M.Cs.m) (hi : i < previousRows problem) :
    M.Cs.entry r i ≠ 0 ↔ Accepted.rowClass problem state i = r := by
  rw [h.Cs] at hr ⊢
  have hr' : r < (foldedColors state .row (previousRows problem)).length := hr
  rw [averageRows_entry _ _ _ _ hr']
  by_cases hclass : Accepted.rowClass problem state i = r
  · have hmem := (h.rows.mem_foldedVertices hr').mpr ⟨hi, hclass⟩
    rw [if_pos hmem]
    refine iff_of_true ?_ hclass
    have hcard : ((foldedVertices state .row (previousRows problem) r).card : ℚ) ≠ 0 :=
      Nat.cast_ne_zero.mpr (Finset.card_ne_zero_of_mem hmem)
    exact one_div_ne_zero hcard
  · rw [if_neg fun hmem => hclass ((h.rows.mem_foldedVertices hr').mp hmem).2]
    exact iff_of_false (fun h => h rfl) hclass

/-- A bound row has the multiplier zero if its folded row has. -/
lemma Accepted.share_bound_eq_zero (y : ℕ → ℚ) (hi : i < previousRows problem) :
    share (boundRowProgram problem).rows (Accepted.rowClass problem state) y i = 0 ↔
      ∀ r < M.Cs.m, M.Cs.entry r i ≠ 0 → y r = 0 := by
  have hcard : ((fiber (boundRowProgram problem).rows (Accepted.rowClass problem state)
      (Accepted.rowClass problem state i)).card : ℚ) ≠ 0 :=
    Program.card_fiber_ne_zero (Finset.mem_image_of_mem _ (mem_range.mpr hi))
  rw [share, div_eq_zero_iff, or_iff_left hcard]
  constructor
  · intro hzero r hr hentry
    rw [← (h.Cs_entry_ne_zero hr hi).mp hentry]
    exact hzero
  · intro hall
    exact hall _ (h.class_lt hi) ((h.Cs_entry_ne_zero (h.class_lt hi) hi).mpr rfl)

lemma Accepted.signRule {t : Solution}
    (hsign : SignRule (foldedProblem problem M).toProgram crushed) {foldingInfo : FoldingInfo}
    (hD : foldingInfo.D = M.D) (hDs : foldingInfo.Ds = M.Ds)
    (hfolded : foldingInfo.isFolded = true) :
    SignRule problem.toProgram (unfold foldingInfo crushed t) := by
  intro j hj
  have hj' : j < problem.numCols := mem_range.mp hj
  have hprev : j < previousCols problem := Nat.lt_of_lt_of_le hj' (Nat.le_add_right _ _)
  have hclass : Accepted.colClass problem state j ∈ (foldedProblem problem M).toProgram.cols := by
    refine mem_range.mpr ?_
    show _ < M.D.n
    rw [h.D]
    exact h.cols.foldedIndex_lt hprev
  have hcard : (0 : ℚ) < (fiber (boundRowProgram problem).cols
      (Accepted.colClass problem state) (Accepted.colClass problem state j)).card := by
    refine Nat.cast_pos.mpr (Finset.card_pos.mpr (Program.fiber_nonempty.mpr ?_))
    exact Finset.mem_image_of_mem _ (mem_range.mpr hprev)
  obtain ⟨hpos, hneg⟩ := hsign _ hclass
  have hx : (unfold foldingInfo crushed t).x j = crushed.x (Accepted.colClass problem state j) := by
    rw [unfold, if_pos hfolded, hD]
    exact h.D_mulVec crushed.x hprev
  have hz : (unfold foldingInfo crushed t).z j =
      share (boundRowProgram problem).cols (Accepted.colClass problem state) crushed.z j := by
    rw [unfold, if_pos hfolded, hDs]
    exact h.Ds_mulTransposeVec crushed.z hprev
  rw [hx, hz]
  constructor
  · intro hshare
    show problem.lower j = _
    rw [h.lower j hj']
    exact hpos ((div_pos_iff_of_pos_right hcard).mp hshare)
  · intro hshare
    have hnegative : crushed.z (Accepted.colClass problem state j) < 0 := by
      by_contra hge
      exact absurd hshare (not_lt.mpr (div_nonneg (not_lt.mp hge) hcard.le))
    cases hneg hnegative

/-- The column of a variable keeps the cost but for the multiplier of its bound row. -/
lemma Accepted.colValue_add (hwf : problem.WellFormed) (hQ : problem.Q.n = 0)
    (hstat : (foldedProblem problem M).toProgram.Stationary crushed) {j : ℕ}
    (hj : j < problem.numCols) : problem.toProgram.colValue (M.Cs.mulTransposeVec crushed.y) j +
      M.Ds.mulTransposeVec crushed.z j +
      ∑ k ∈ range (numUpperBounds problem), (if j = boundedColumn problem k then
        M.Cs.mulTransposeVec crushed.y (problem.numRows + k) else 0) = problem.objective j := by
  have hprev : j < previousCols problem := Nat.lt_of_lt_of_le hj (Nat.le_add_right _ _)
  have hshare := (h.isFold hwf hQ).stationary_share hstat j (mem_range.mpr hprev)
  have hcol : (boundRowProgram problem).colValue
      (share (boundRowProgram problem).rows (Accepted.rowClass problem state) crushed.y) j =
      (boundRowProgram problem).colValue (M.Cs.mulTransposeVec crushed.y) j := by
    apply sum_congr rfl
    intro i hi
    rw [h.Cs_mulTransposeVec crushed.y (mem_range.mp hi)]
  have hgrad : (boundRowProgram problem).gradient
      (fun j => crushed.x (Accepted.colClass problem state j)) j = problem.objective j := by
    rw [Program.gradient, sum_eq_zero fun k _ => zero_mul _, add_zero]
    exact if_pos hj
  simp only [hcol, hgrad] at hshare
  rw [boundRowProgram_colValue hwf _ hj] at hshare
  rw [h.Ds_mulTransposeVec crushed.z hprev, ← hshare]
  ring

end

end Duals

/-- Unfolding keeps stationarity exactly when the multipliers of the bound rows are zero: they are
dropped, and nothing takes their part in the reduced costs. -/
theorem unfold_stationary_iff (hwf : problem.WellFormed) (hQ : problem.Q.n = 0)
    (hinfo : info.foldingInfo.isFolded = false)
    (hfold : (folding order problem settings info).2.foldingInfo.isFolded = true)
    {crushed : Solution}
    (hstat : (folding order problem settings info).1.toProgram.Stationary crushed) (t : Solution) :
    let folded := (folding order problem settings info).1
    let foldingInfo := (folding order problem settings info).2.foldingInfo
    (problem.toProgram.Stationary (unfold foldingInfo crushed t) ∧
      (SignRule folded.toProgram crushed →
        SignRule problem.toProgram (unfold foldingInfo crushed t))) ↔
      BoundMultipliersVanish problem foldingInfo crushed.y := by
  obtain ⟨state, M, haccepted, hproblem, hfolding⟩ := folding_accepted hwf hinfo hfold
  rw [hproblem] at hstat
  simp only [hproblem, hfolding]
  have hsign : SignRule (foldedProblem problem M).toProgram crushed →
      SignRule problem.toProgram (unfold
        { D := M.D
          Cs := M.Cs
          Ds := M.Ds
          previousFreeVariablePairs := info.freeVariablePairs
          isFolded := true } crushed t) := fun hrule =>
    haccepted.signRule hrule rfl rfl rfl
  have hvanish : BoundMultipliersVanish problem
      { D := M.D
        Cs := M.Cs
        Ds := M.Ds
        previousFreeVariablePairs := info.freeVariablePairs
        isFolded := true } crushed.y ↔
      ∀ k < numUpperBounds problem, M.Cs.mulTransposeVec crushed.y (problem.numRows + k) = 0 := by
    constructor
    · intro h k hk
      have hi : problem.numRows + k < previousRows problem := Nat.add_lt_add_left hk _
      rw [haccepted.Cs_mulTransposeVec _ hi, haccepted.share_bound_eq_zero _ hi]
      exact h k hk
    · intro h k hk
      have hi : problem.numRows + k < previousRows problem := Nat.add_lt_add_left hk _
      have hzero := h k hk
      rw [haccepted.Cs_mulTransposeVec _ hi, haccepted.share_bound_eq_zero _ hi] at hzero
      exact hzero
  have hgrad : ∀ x : ℕ → ℚ, ∀ j, problem.toProgram.gradient x j = problem.objective j := by
    intro x j
    rw [Program.gradient, sum_eq_zero, add_zero]
    · rfl
    · intro k _
      simp only [LpProblem.toProgram, hQ, lt_irrefl, if_false, zero_mul]
  rw [and_iff_left hsign, hvanish]
  constructor
  · intro hall k hk
    have hj := boundedColumn_lt hk
    have hadd := haccepted.colValue_add hwf hQ hstat hj
    have hcol : problem.toProgram.colValue (M.Cs.mulTransposeVec crushed.y)
        (boundedColumn problem k) + M.Ds.mulTransposeVec crushed.z (boundedColumn problem k) = _ :=
      hall _ (mem_range.mpr hj)
    rw [hcol, hgrad, add_eq_left] at hadd
    -- a variable has one bound row
    rw [Finset.sum_eq_single_of_mem k (mem_range.mpr hk), if_pos rfl] at hadd
    · exact hadd
    · intro l hl hne
      rw [if_neg]
      intro heq
      have hidx := (idxOf_eq_iff (mem_range.mp hl) (boundedColumn_mem hk)).mpr heq.symm
      exact hne (hidx.symm.trans ((idxOf_eq_iff hk (boundedColumn_mem hk)).mpr rfl))
  · intro hzero j hj
    have hadd := haccepted.colValue_add hwf hQ hstat (mem_range.mp hj)
    rw [sum_eq_zero, add_zero] at hadd
    · rw [hgrad]
      exact hadd
    · intro k hk
      rw [hzero k (mem_range.mp hk), ite_self]

/-- Without multipliers the reduced costs are the costs. -/
theorem unfold_stationary_boxedRows :
    boxedRows.toProgram.Stationary (unfold
      (folding ascendingOrder boxedRows foldingSettings {}).2.foldingInfo
      ⟨fun _ => 0, fun _ => 0, fun s => if s = 1 then -3 else 0⟩ ⟨0, 0, 0⟩) :=
  ((unfold_stationary_iff boxedRows_wellFormed rfl rfl boxedRows_folded (by decide +kernel) _).mpr
    (by decide +kernel)).1

/-- At the optimum only the bounds `x_j ≤ 1` have multipliers. -/
def boxedOptimum : Solution where
  x := fun s => if s = 0 then 0 else 1
  y := fun r => if r = 0 then -3 else 0
  z := fun s => if s = 0 then 3 else 0

theorem bound_multiplier_lost :
    (folding ascendingOrder boxedRows foldingSettings {}).1.toProgram.Feasible boxedOptimum.x ∧
      (folding ascendingOrder boxedRows foldingSettings {}).1.toProgram.Stationary boxedOptimum ∧
      SignRule (folding ascendingOrder boxedRows foldingSettings {}).1.toProgram boxedOptimum ∧
      ¬boxedRows.toProgram.Stationary (unfold
        (folding ascendingOrder boxedRows foldingSettings {}).2.foldingInfo boxedOptimum
        ⟨0, 0, 0⟩) := by
  decide +kernel

end Unfold

end CuOpt.Simplex
