import CuOpt.Simplex.FreeElimination

/-! Each substitution of the elimination pass is a pivot step on the active part of the problem,
and replaying the recorded eliminations undoes the whole pass. -/

namespace CuOpt.Simplex

open List hiding isEmpty_iff keys range
open Function (comp_apply comp_def update update_of_ne update_self)
open Prod (fst)
open Finset (range)

open SparseList QuadProgram
open Finset (mem_erase)
open LpProblem (toProgram)
open Program (Agree Recovers RecoversFeasible refix)

/-- How updates of the rows `rows` relate the matrices before and after them. -/
structure RowsUpdated (m m' : SubstitutionMatrix) (rows : List ℕ) : Prop where
  row_of_notMem : ∀ k, k ∉ rows → m'.row k = m.row k
  colRow_mono : ∀ c k, k ∈ m.colRow c → k ∈ m'.colRow c
  colRow_new : ∀ c k, k ∈ m'.colRow c → k ∈ m.colRow c ∨ k ∈ rows
  listed : ∀ k, ∀ c ∈ keys (m'.row k), c ∈ keys (m.row k) ∨ k ∈ m'.colRow c

lemma RowsUpdated.refl (m : SubstitutionMatrix) : RowsUpdated m m [] :=
  ⟨fun _ _ => rfl, fun _ _ h => h, fun _ _ h => .inl h, fun _ _ h => .inl h⟩

lemma RowsUpdated.cons {m m' m'' : SubstitutionMatrix} {i : ℕ} {rows : List ℕ}
    (h : SubstitutionMatrix.Updates m m' i) (h' : RowsUpdated m' m'' rows) :
    RowsUpdated m m'' (i :: rows) where
  row_of_notMem := fun k hk => by
    rw [mem_cons, not_or] at hk
    rw [h'.row_of_notMem k hk.2, h.row_of_ne k hk.1]
  colRow_mono := fun c k hk => h'.colRow_mono c k (h.colRow_mono c k hk)
  colRow_new := fun c k hk => by
    rcases h'.colRow_new c k hk with hk | hk
    · rcases h.colRow_new c k hk with hk | rfl
      · exact .inl hk
      · exact .inr mem_cons_self
    · exact .inr (mem_cons_of_mem _ hk)
  listed := fun k c hc => by
    rcases h'.listed k c hc with hc | hc
    · by_cases hki : k = i
      · subst hki
        rcases h.listed c hc with hc | hc
        · exact .inl hc
        · exact .inr (h'.colRow_mono c k hc)
      · rw [h.row_of_ne k hki] at hc
        exact .inl hc
    · exact .inr hc

section ReduceRow

variable {j : ℕ} {pivotCoefficient pivotRhs : ℚ} {columns : List (ℕ × ℚ)}

/-- What reducing the listed rows does to the matrix, the right-hand sides and the record. -/
structure Reduced (j : ℕ) (pivotCoefficient pivotRhs : ℚ) (columns : List (ℕ × ℚ))
    (s s' : PivotProgress) (rows : List ℕ) : Prop where
  updated : RowsUpdated s.matrix s'.matrix rows
  nodup : ∀ k ∈ rows, (keys (s'.matrix.row k)).Nodup
  keys_subset : ∀ k ∈ rows, ∀ c ∈ keys (s'.matrix.row k),
    c ∈ keys (s.matrix.row k) ∨ c ∈ keys columns
  coeff_row : ∀ k ∈ rows, ∀ c, coeff (s'.matrix.row k) c =
    (if c = j then 0 else coeff (s.matrix.row k) c)
      - coeff (s.matrix.row k) j / pivotCoefficient * coeff columns c
  rhs_of_mem : ∀ k ∈ rows,
    s'.rhs k = s.rhs k - coeff (s.matrix.row k) j / pivotCoefficient * pivotRhs
  rhs_of_notMem : ∀ k, k ∉ rows → s'.rhs k = s.rhs k
  affected : s'.affectedRows =
    s.affectedRows ++ rows.map fun k => (k, coeff (s.matrix.row k) j / pivotCoefficient)

lemma reduceRow_eq (pivotCoefficient pivotRhs : ℚ) (columns : List (ℕ × ℚ)) {s : PivotProgress}
    {i : ℕ} (hrow : (keys (s.matrix.row i)).Nodup) (hmem : j ∈ keys (s.matrix.row i)) :
    ∃ offset, SparseRow.find (s.matrix.row i) j = some offset ∧
      reduceRow j pivotCoefficient pivotRhs columns s i =
        { matrix := s.matrix.subtractRow i offset
            (coeff (s.matrix.row i) j / pivotCoefficient) columns
          rhs := update s.rhs i
            (s.rhs i - coeff (s.matrix.row i) j / pivotCoefficient * pivotRhs)
          affectedRows :=
            s.affectedRows ++ [(i, coeff (s.matrix.row i) j / pivotCoefficient)] } := by
  obtain ⟨offset, hf⟩ := SparseRow.find_isSome hmem
  refine ⟨offset, hf, ?_⟩
  simp only [reduceRow, hf, SparseRow.value_find hrow hf]

lemma foldl_reduceRow (s : PivotProgress) {rows : List ℕ} (hrows : rows.Nodup)
    (hnodup : ∀ k ∈ rows, (keys (s.matrix.row k)).Nodup)
    (hmem : ∀ k ∈ rows, j ∈ keys (s.matrix.row k)) :
    Reduced j pivotCoefficient pivotRhs columns s
      (rows.foldl (reduceRow j pivotCoefficient pivotRhs columns) s) rows := by
  induction rows generalizing s with
  | nil =>
    exact ⟨RowsUpdated.refl _, by simp, by simp, by simp, by simp, fun _ _ => rfl, by simp⟩
  | cons i rows ih =>
    rw [nodup_cons] at hrows
    obtain ⟨offset, hf, heq⟩ := reduceRow_eq pivotCoefficient pivotRhs columns
      (hnodup i mem_cons_self) (hmem i mem_cons_self)
    obtain ⟨hu, hn, hk, hc⟩ := s.matrix.subtractRow_spec
      (coeff (s.matrix.row i) j / pivotCoefficient) columns (hnodup i mem_cons_self) hf
    set s₁ := reduceRow j pivotCoefficient pivotRhs columns s i with hs₁
    have hm₁ : s₁.matrix = s.matrix.subtractRow i offset
        (coeff (s.matrix.row i) j / pivotCoefficient) columns := by rw [heq]
    rw [← hm₁] at hu hn hk hc
    -- the rows still to come have not been touched
    have hsame : ∀ k ∈ rows, s₁.matrix.row k = s.matrix.row k := fun k hkr =>
      hu.row_of_ne k fun he => hrows.1 (he ▸ hkr)
    have hrhs : ∀ k, k ≠ i → s₁.rhs k = s.rhs k := fun k hki => by
      rw [heq]
      exact update_of_ne hki _ _
    have htail := ih s₁ hrows.2
      (fun k hkr => by rw [hsame k hkr]; exact hnodup k (mem_cons_of_mem _ hkr))
      (fun k hkr => by rw [hsame k hkr]; exact hmem k (mem_cons_of_mem _ hkr))
    have hhead := htail.updated.row_of_notMem i hrows.1
    rw [foldl_cons]
    refine ⟨RowsUpdated.cons hu htail.updated, ?_, ?_, ?_, ?_, ?_, ?_⟩
    · rintro k hkr
      rcases mem_cons.mp hkr with rfl | hkr
      · rw [hhead]
        exact hn
      · exact htail.nodup k hkr
    · intro k hkr c hcr
      rcases mem_cons.mp hkr with rfl | hkr
      · rw [hhead] at hcr
        exact hk c hcr
      · have h := htail.keys_subset k hkr c hcr
        rwa [hsame k hkr] at h
    · intro k hkr c
      rcases mem_cons.mp hkr with rfl | hkr
      · rw [hhead, hc]
      · rw [htail.coeff_row k hkr c, hsame k hkr]
    · intro k hkr
      rcases mem_cons.mp hkr with rfl | hkr
      · rw [htail.rhs_of_notMem k hrows.1, heq]
        exact update_self _ _ _
      · have hki : k ≠ i := fun he => hrows.1 (he ▸ hkr)
        rw [htail.rhs_of_mem k hkr, hsame k hkr, hrhs k hki]
    · intro k hkr
      rw [mem_cons, not_or] at hkr
      rw [htail.rhs_of_notMem k hkr.2, hrhs k hkr.1]
    · have haff : s₁.affectedRows =
          s.affectedRows ++ [(i, coeff (s.matrix.row i) j / pivotCoefficient)] := by rw [heq]
      have hmap : (rows.map fun k => (k, coeff (s₁.matrix.row k) j / pivotCoefficient)) =
          rows.map fun k => (k, coeff (s.matrix.row k) j / pivotCoefficient) :=
        map_congr_left fun k hkr => by rw [hsame k hkr]
      rw [htail.affected, haff, hmap, append_assoc]
      rfl

end ReduceRow

lemma choosePivot_mem {matrix : SubstitutionMatrix} {incident : List (ℕ × ℚ)} {e : ℕ × ℚ}
    (h : choosePivot matrix incident = some e) : e ∈ incident := by
  unfold choosePivot at h
  generalize SparseRow.maxAbs incident = columnMax at h
  induction incident using reverseRecOn with
  | nil => cases h
  | append_singleton incident r ih =>
    rw [foldl_concat] at h
    have hlast : r ∈ incident ++ [r] := by simp
    split_ifs at h
    · exact mem_append_left _ (ih h)
    · exact mem_append_left _ (ih h)
    · split at h
      · cases h
        exact hlast
      · split_ifs at h
        · cases h
          exact hlast
        · exact mem_append_left _ (ih h)

lemma mem_incidentRows {s : EliminationState} {j : ℕ} {e : ℕ × ℚ}
    (hnodup : ∀ i ∈ s.matrix.colRow j, (keys (s.matrix.row i)).Nodup) :
    e ∈ incidentRows s j ↔ e.1 ∈ s.matrix.colRow j ∧ s.activeRow e.1 = true ∧
      j ∈ keys (s.matrix.row e.1) ∧ coeff (s.matrix.row e.1) j = e.2 ∧ e.2 ≠ 0 := by
  simp only [incidentRows, mem_filterMap, mem_distinct]
  constructor
  · rintro ⟨i, hi, h⟩
    split_ifs at h with hact
    split at h
    · cases h
    · next offset hf =>
      split_ifs at h with hzero
      rw [Option.some.injEq] at h
      subst h
      obtain ⟨hlt, hkey⟩ := SparseRow.find_eq_some hf
      refine ⟨hi, hact, ?_, (SparseRow.value_find (hnodup i hi) hf).symm, hzero⟩
      exact hkey ▸ mem_map_of_mem (getElem_mem hlt)
  · rintro ⟨hi, hact, hkey, hval, hne⟩
    obtain ⟨offset, hf⟩ := SparseRow.find_isSome hkey
    refine ⟨e.1, hi, ?_⟩
    have hv : SparseRow.value (s.matrix.row e.1) offset = e.2 :=
      (SparseRow.value_find (hnodup _ hi) hf).trans hval
    simp only [hact, if_true, hf, hv, hne, if_false]

lemma nodup_keys_incidentRows (s : EliminationState) (j : ℕ) :
    (keys (incidentRows s j)).Nodup := by
  have hsub : (keys (incidentRows s j)).Sublist (distinct (s.matrix.colRow j)) := by
    unfold keys incidentRows
    generalize distinct (s.matrix.colRow j) = l
    induction l with
    | nil => exact Sublist.refl _
    | cons i l ih =>
      rw [filterMap_cons]
      split
      · exact ih.cons i
      · next b hb =>
        have hfst : b.1 = i := by
          split_ifs at hb
          split at hb
          · cases hb
          · split_ifs at hb
            exact (congrArg fst (Option.some.inj hb)).symm
        rw [map_cons, hfst]
        exact ih.cons_cons i
  exact hsub.nodup (nodup_distinct _)

def EliminationState.program (problem : LpProblem) (s : EliminationState) : Program ℕ ℕ ℚ :=
  { problem.toProgram with
    rows := (Finset.range problem.numRows).filter fun i => s.activeRow i = true
    cols := (Finset.range problem.numCols).filter fun j => s.activeCol j = true
    a := fun i j => coeff (s.matrix.row i) j
    b := s.rhs }

structure EliminationInv (problem : LpProblem) (next : ℕ) (s : EliminationState) : Prop where
  nodup : ∀ i < problem.numRows, (keys (s.matrix.row i)).Nodup
  lt : ∀ i < problem.numRows, ∀ c ∈ keys (s.matrix.row i), c < problem.numCols
  listed : ∀ i < problem.numRows, s.activeRow i = true → ∀ c ≥ next,
    c ∈ keys (s.matrix.row i) → i ∈ s.matrix.colRow c
  colRow_lt : ∀ c < problem.numCols, ∀ i ∈ s.matrix.colRow c, i < problem.numRows
  inactive : ∀ c, s.activeCol c = false →
    (∀ i < problem.numRows, s.activeRow i = true → coeff (s.matrix.row i) c = 0) ∧
      (0 < problem.Q.n → problem.Q.row c = [])
  ahead : ∀ c ≥ next, s.activeCol c = true

structure Eliminable (problem : LpProblem) (j : ℕ) : Prop where
  lower : problem.lower j = none
  upper : problem.upper j = none
  objective : problem.objective j = 0
  Q_row : 0 < problem.Q.n → problem.Q.row j = []

def compactColumn (s : EliminationState) (j : ℕ) : EliminationState :=
  { s with
    matrix := { s.matrix with
      colRow := Function.update s.matrix.colRow j (keys (incidentRows s j)) } }

def otherRows (s : EliminationState) (j pivot : ℕ) : List ℕ :=
  (keys (incidentRows s j)).filter fun i => i ≠ pivot

def pivotColumns (s : EliminationState) (j pivot : ℕ) : List (ℕ × ℚ) :=
  (s.matrix.row pivot).filter fun p => p.1 ≠ j

section Step

variable {problem : LpProblem} {s : EliminationState} {j : ℕ}

lemma eliminable_of_guard (hwf : problem.WellFormed) (hj : j < problem.numCols)
    (h : ¬(!s.activeCol j || problem.lower j ≠ none || problem.upper j ≠ none ||
      problem.objective j ≠ 0 || qPresent problem j) = true) : Eliminable problem j := by
  simp only [ne_eq, decide_not, Bool.or_eq_true, Bool.not_eq_true', decide_eq_false_iff_not,
    not_or, not_not, Bool.not_eq_true] at h
  obtain ⟨⟨⟨⟨_, hl⟩, hu⟩, hc⟩, hq⟩ := h
  refine ⟨hl, hu, hc, fun hQ => ?_⟩
  have hm : j < min problem.Q.m problem.numCols := by
    rw [(hwf.Q hQ).m_eq, min_self]
    exact hj
  simpa only [qPresent, hQ, hm, decide_true, Bool.true_and, Bool.not_eq_false',
    List.isEmpty_iff] using hq

/-- Everything a visit of column `j` can do. -/
lemma eliminateColumn_cases (hwf : problem.WellFormed) (hj : j < problem.numCols) :
    (∃ r, eliminateColumn problem s j = s ∨
      eliminateColumn problem s j = { compactColumn s j with pivotRejected := r }) ∨
    (Eliminable problem j ∧ incidentRows s j = [] ∧
      eliminateColumn problem s j = { compactColumn s j with
        eliminations := s.eliminations ++ [⟨j, none, 1, 0, [], []⟩]
        activeCol := update s.activeCol j false }) ∨
    (Eliminable problem j ∧ ∃ pivot pivotCoefficient, (pivot, pivotCoefficient) ∈ incidentRows s j ∧
      eliminateColumn problem s j = substituteColumn (compactColumn s j) j pivot pivotCoefficient
        (pivotColumns s j pivot) (otherRows s j pivot)) := by
  unfold eliminateColumn
  split_ifs with hguard
  · exact .inl ⟨0, .inl rfl⟩
  have helim := eliminable_of_guard hwf hj hguard
  simp only
  split_ifs with hnil
  · exact .inr (.inl ⟨helim, hnil, rfl⟩)
  split
  · exact .inl ⟨s.pivotRejected + 1, .inr rfl⟩
  · next pivot pivotCoefficient hpivot =>
    split_ifs with hfill
    · exact .inl ⟨s.pivotRejected, .inr rfl⟩
    · exact .inr (.inr ⟨helim, pivot, pivotCoefficient, choosePivot_mem hpivot, rfl⟩)

section

variable (h : EliminationInv problem j s) (hj : j < problem.numCols)
include h hj

lemma compactColumn_inv (r : ℕ) :
    EliminationInv problem (j + 1) { compactColumn s j with pivotRejected := r } where
  __ := h
  listed := fun i hi hact c hc hmem => by
    have hne : c ≠ j := by omega
    simp only [compactColumn, update_of_ne hne]
    exact h.listed i hi hact c (by omega) hmem
  colRow_lt := fun c hc i hi => by
    by_cases hcj : c = j
    · subst hcj
      simp only [compactColumn, update_self] at hi
      obtain ⟨e, he, rfl⟩ := mem_map.mp hi
      exact h.colRow_lt c hj e.1
        ((mem_incidentRows fun k hk => h.nodup k (h.colRow_lt c hj k hk)).mp he).1
    · simp only [compactColumn, update_of_ne hcj] at hi
      exact h.colRow_lt c hc i hi
  ahead := fun c hc => h.ahead c (by omega)

lemma EliminationInv.mem_incident {e : ℕ × ℚ} :
    e ∈ incidentRows s j ↔ e.1 < problem.numRows ∧ s.activeRow e.1 = true ∧
      coeff (s.matrix.row e.1) j = e.2 ∧ e.2 ≠ 0 := by
  rw [mem_incidentRows fun k hk => h.nodup k (h.colRow_lt j hj k hk)]
  constructor
  · rintro ⟨hcol, hact, _, hval, hne⟩
    exact ⟨h.colRow_lt j hj e.1 hcol, hact, hval, hne⟩
  · rintro ⟨hlt, hact, hval, hne⟩
    have hkey : j ∈ keys (s.matrix.row e.1) := by
      by_contra hnot
      exact hne (hval ▸ coeff_eq_zero hnot)
    exact ⟨h.listed e.1 hlt hact j le_rfl hkey, hact, hkey, hval, hne⟩

lemma EliminationInv.coeff_eq_zero_of_notMem {i : ℕ} (hi : i < problem.numRows)
    (hact : s.activeRow i = true) (hnot : i ∉ keys (incidentRows s j)) :
    coeff (s.matrix.row i) j = 0 := by
  by_contra hne
  refine hnot (mem_map.mpr ⟨(i, coeff (s.matrix.row i) j), ?_, rfl⟩)
  exact (h.mem_incident hj).mpr ⟨hi, hact, rfl, hne⟩

end

lemma slack_of_eliminable (hwf : problem.WellFormed) (h : EliminationInv problem j s)
    (hj : j < problem.numCols) (helim : Eliminable problem j) : (s.program problem).Slack j where
  __ := helim
  mem := Finset.mem_filter.mpr ⟨Finset.mem_range.mpr hj, h.ahead j le_rfl⟩
  c := helim.objective
  q := fun k _ => by
    simp only [EliminationState.program, toProgram]
    split_ifs with hQ
    · rw [CsrMatrix.entry, helim.Q_row hQ, coeff_nil]
    · rfl
  q' := fun k hk => by
    simp only [EliminationState.program, toProgram]
    split_ifs with hQ
    · have hklt := Finset.mem_range.mp (Finset.mem_filter.mp hk).1
      rw [(hwf.Q hQ).symm k hklt j hj, CsrMatrix.entry, helim.Q_row hQ, coeff_nil]
    · rfl

lemma filter_update_false (n k : ℕ) (f : ℕ → Bool) :
    ((range n).filter fun i => update f k false i = true) =
      ((range n).filter fun i => f i = true).erase k := by
  ext i
  simp only [Finset.mem_filter, Finset.mem_range, mem_erase]
  by_cases hik : i = k
  · subst hik
    simp
  · simp only [update_of_ne hik, ne_eq, hik, not_false_iff, true_and]

lemma dropColumn_inv (h : EliminationInv problem j s) (hj : j < problem.numCols)
    (helim : Eliminable problem j) (hnil : incidentRows s j = [])
    (es : List FreeVariableElimination) :
    EliminationInv problem (j + 1) { compactColumn s j with
      eliminations := es, activeCol := update s.activeCol j false } := by
  have hc := compactColumn_inv h hj s.pivotRejected
  refine ⟨hc.nodup, hc.lt, hc.listed, hc.colRow_lt, fun c hcol => ?_, fun c hcge => ?_⟩
  · by_cases hcj : c = j
    · subst hcj
      refine ⟨fun i hi hact => h.coeff_eq_zero_of_notMem hj hi hact ?_, helim.Q_row⟩
      simp [hnil, keys]
    · simp only [update_of_ne hcj] at hcol
      exact h.inactive c hcol
  · have hne : c ≠ j := by omega
    simp only [update_of_ne hne]
    exact h.ahead c (by omega)

lemma dropColumn_agree (problem : LpProblem) (s : EliminationState) (j : ℕ)
    (es : List FreeVariableElimination) :
    Agree
      (EliminationState.program problem { compactColumn s j with
        eliminations := es, activeCol := update s.activeCol j false })
      ((s.program problem).fixCols {j} fun _ => 0) where
  rows := rfl
  cols := by
    simp only [EliminationState.program, Program.fixCols, filter_update_false,
      Finset.sdiff_singleton_eq_erase]
  a := fun _ _ _ _ => rfl
  b := fun _ _ => rfl
  c := fun _ _ => rfl
  q := fun _ _ _ _ => rfl
  const := by simp [EliminationState.program, Program.fixCols]
  lower := fun _ _ => rfl
  upper := fun _ _ => rfl

lemma uncoupled_of_nil (hwf : problem.WellFormed) (h : EliminationInv problem j s)
    (hj : j < problem.numCols) (helim : Eliminable problem j) (hnil : incidentRows s j = []) :
    (s.program problem).Uncoupled {j} := by
  have hslack := slack_of_eliminable hwf h hj helim
  intro k hk
  rw [Finset.mem_singleton] at hk
  subst hk
  refine ⟨fun i hi => ?_, fun l hl _ => ⟨hslack.q l hl, hslack.q' l hl⟩⟩
  obtain ⟨hilt, hact⟩ := Finset.mem_filter.mp hi
  exact h.coeff_eq_zero_of_notMem hj (Finset.mem_range.mp hilt) hact (by simp [hnil, keys])

lemma dropColumn_recovers (hwf : problem.WellFormed) (h : EliminationInv problem j s)
    (hj : j < problem.numCols) (helim : Eliminable problem j) (hnil : incidentRows s j = [])
    (es : List FreeVariableElimination) :
    let s' := { compactColumn s j with
      eliminations := es, activeCol := update s.activeCol j false }
    Recovers (s'.program problem) (s.program problem)
        (undoElimination ⟨j, none, 1, 0, [], []⟩) ∧
      RecoversFeasible (s'.program problem) (s.program problem)
        (undoElimination ⟨j, none, 1, 0, [], []⟩) := by
  have hslack := slack_of_eliminable hwf h hj helim
  have hsub : {j} ⊆ (s.program problem).cols := Finset.singleton_subset_iff.mpr hslack.mem
  have huncoupled := uncoupled_of_nil hwf h hj helim hnil
  have hbounds : ∀ k ∈ ({j} : Finset ℕ), InBounds ((s.program problem).lower k)
      ((s.program problem).upper k) 0 := by
    intro k hk
    rw [Finset.mem_singleton] at hk
    subst hk
    simp [InBounds, hslack.lower, hslack.upper]
  have hsame : Program.SameOn (s.program problem) ((s.program problem).refix {j} (fun _ => 0) ∘ id)
      (undoElimination ⟨j, none, 1, 0, [], []⟩) := by
    refine ⟨fun t k _ => ?_, fun t i _ => rfl, fun t k _ => ?_⟩
    · by_cases hkj : k = j
      · subst hkj
        simp [undoElimination, refix, dot]
      · simp [undoElimination, refix, hkj]
    · by_cases hkj : k = j
      · subst hkj
        simp [undoElimination, refix, hslack.c]
      · simp [undoElimination, refix, hkj]
  have hagree := dropColumn_agree problem s j es
  exact ⟨((Program.fixCols_recovers huncoupled hsub _).trans hagree.recovers).congr hsame,
    ((Program.fixCols_recoversFeasible huncoupled hsub _ hbounds).trans
      hagree.recoversFeasible).congr hsame⟩

section Substitute

variable {pivot : ℕ} {pivotCoefficient : ℚ}

lemma coeff_pivotColumns (s : EliminationState) (j pivot c : ℕ) :
    coeff (pivotColumns s j pivot) c =
      if c = j then 0 else coeff (s.matrix.row pivot) c := by
  unfold pivotColumns
  induction s.matrix.row pivot with
  | nil => simp
  | cons p l ih =>
    rw [filter_cons]
    by_cases hp : p.1 = j
    · simp only [hp, ne_eq, not_true, decide_false, Bool.false_eq_true, if_false, ih, coeff_cons]
      by_cases hc : c = j
      · simp [hc]
      · simp [hc, Ne.symm hc]
    · simp only [hp, ne_eq, not_false_iff, decide_true, if_true, ih, coeff_cons]
      by_cases hc : c = j
      · subst hc
        simp [hp]
      · simp [hc]

lemma keys_pivotColumns {c : ℕ} (h : c ∈ keys (pivotColumns s j pivot)) :
    c ∈ keys (s.matrix.row pivot) :=
  ((filter_sublist (l := s.matrix.row pivot)).map fst).subset h

lemma mem_otherRows {i : ℕ} :
    i ∈ otherRows s j pivot ↔ i ∈ keys (incidentRows s j) ∧ i ≠ pivot := by
  simp only [otherRows, mem_filter, decide_eq_true_eq]

lemma nodup_otherRows (s : EliminationState) (j pivot : ℕ) : (otherRows s j pivot).Nodup :=
  (nodup_keys_incidentRows s j).filter _

def pivotProgress (s : EliminationState) (j pivot : ℕ) (pivotCoefficient : ℚ) : PivotProgress :=
  (otherRows s j pivot).foldl (reduceRow j pivotCoefficient (s.rhs pivot) (pivotColumns s j pivot))
    ⟨(compactColumn s j).matrix, s.rhs, []⟩

lemma EliminationInv.keys_incident_lt (h : EliminationInv problem j s) (hj : j < problem.numCols)
    {i : ℕ} (hi : i ∈ keys (incidentRows s j)) :
    i < problem.numRows ∧ s.activeRow i = true ∧ coeff (s.matrix.row i) j ≠ 0 := by
  obtain ⟨e, he, rfl⟩ := mem_map.mp hi
  obtain ⟨hlt, hact, hval, hne⟩ := (h.mem_incident hj).mp he
  exact ⟨hlt, hact, hval ▸ hne⟩

lemma pivotProgress_reduced (pivot : ℕ) (pivotCoefficient : ℚ) (h : EliminationInv problem j s)
    (hj : j < problem.numCols) :
    Reduced j pivotCoefficient (s.rhs pivot) (pivotColumns s j pivot)
      ⟨(compactColumn s j).matrix, s.rhs, []⟩ (pivotProgress s j pivot pivotCoefficient)
      (otherRows s j pivot) := by
  refine foldl_reduceRow _ (nodup_otherRows s j pivot) (fun k hk => ?_) fun k hk => ?_
  · exact h.nodup k (h.keys_incident_lt hj (mem_otherRows.mp hk).1).1
  · by_contra hnot
    exact (h.keys_incident_lt hj (mem_otherRows.mp hk).1).2.2 (coeff_eq_zero hnot)

section

variable (h : EliminationInv problem j s) (hj : j < problem.numCols)
include h hj

/-- Entries of the reduced rows, for every active row but the pivot row. -/
lemma coeff_pivotProgress {i : ℕ} (hi : i < problem.numRows) (hact : s.activeRow i = true)
    (hne : i ≠ pivot) (c : ℕ) :
    coeff ((pivotProgress s j pivot pivotCoefficient).matrix.row i) c =
      if c = j then 0
      else coeff (s.matrix.row i) c
        - coeff (s.matrix.row i) j / pivotCoefficient * coeff (s.matrix.row pivot) c := by
  have hred := pivotProgress_reduced pivot pivotCoefficient h hj
  by_cases hmem : i ∈ keys (incidentRows s j)
  · rw [hred.coeff_row i (mem_otherRows.mpr ⟨hmem, hne⟩) c, coeff_pivotColumns]
    simp only [compactColumn]
    split_ifs <;> ring
  · have hzero := h.coeff_eq_zero_of_notMem hj hi hact hmem
    have hrow := hred.updated.row_of_notMem i fun hi' => hmem (mem_otherRows.mp hi').1
    simp only [compactColumn] at hrow
    rw [hrow, hzero, zero_div, zero_mul, sub_zero]
    split_ifs with hc
    · rw [hc, hzero]
    · rfl

lemma rhs_pivotProgress {i : ℕ} (hi : i < problem.numRows) (hact : s.activeRow i = true)
    (hne : i ≠ pivot) :
    (pivotProgress s j pivot pivotCoefficient).rhs i =
      s.rhs i - coeff (s.matrix.row i) j / pivotCoefficient * s.rhs pivot := by
  have hred := pivotProgress_reduced pivot pivotCoefficient h hj
  by_cases hmem : i ∈ keys (incidentRows s j)
  · exact hred.rhs_of_mem i (mem_otherRows.mpr ⟨hmem, hne⟩)
  · rw [hred.rhs_of_notMem i fun hi' => hmem (mem_otherRows.mp hi').1,
      h.coeff_eq_zero_of_notMem hj hi hact hmem, zero_div, zero_mul, sub_zero]

lemma substitute_inv (helim : Eliminable problem j)
    (hp : (pivot, pivotCoefficient) ∈ incidentRows s j) :
    EliminationInv problem (j + 1) (substituteColumn (compactColumn s j) j pivot pivotCoefficient
      (pivotColumns s j pivot) (otherRows s j pivot)) := by
  have hred := pivotProgress_reduced pivot pivotCoefficient h hj
  have hc := compactColumn_inv h hj s.pivotRejected
  obtain ⟨hplt, hpact, -, -⟩ := (h.mem_incident hj).mp hp
  have hactive {i : ℕ} (hi : update s.activeRow pivot false i = true) :
      i ≠ pivot ∧ s.activeRow i = true := by
    by_cases hip : i = pivot
    · simp [hip] at hi
    · exact ⟨hip, by simpa only [update_of_ne hip] using hi⟩
  refine ⟨fun i hi => ?_, fun i hi c hmem => ?_, fun i hi hact c hge hmem => ?_,
    fun c hclt i hi => ?_, fun c hcol => ?_, fun c hge => ?_⟩
  · by_cases hmem : i ∈ otherRows s j pivot
    · exact hred.nodup i hmem
    · have hrow := hred.updated.row_of_notMem i hmem
      exact hrow ▸ h.nodup i hi
  · by_cases hother : i ∈ otherRows s j pivot
    · rcases hred.keys_subset i hother c hmem with hk | hk
      · exact h.lt i hi c hk
      · exact h.lt pivot hplt c (keys_pivotColumns hk)
    · have hrow := hred.updated.row_of_notMem i hother
      exact h.lt i hi c (hrow ▸ hmem)
  · rcases hred.updated.listed i c hmem with hk | hk
    · exact hred.updated.colRow_mono c i (hc.listed i hi (hactive hact).2 c hge hk)
    · exact hk
  · rcases hred.updated.colRow_new c i hi with hk | hk
    · exact hc.colRow_lt c hclt i hk
    · exact (h.keys_incident_lt hj (mem_otherRows.mp hk).1).1
  · by_cases hcj : c = j
    · subst hcj
      refine ⟨fun i hi hact => ?_, helim.Q_row⟩
      obtain ⟨hne, hact⟩ := hactive hact
      exact (coeff_pivotProgress h hj hi hact hne c).trans (if_pos rfl)
    · have hcol' : s.activeCol c = false := by
        simpa only [substituteColumn, compactColumn, update_of_ne hcj] using hcol
      obtain ⟨hzero, hQ⟩ := h.inactive c hcol'
      refine ⟨fun i hi hact => ?_, hQ⟩
      obtain ⟨hne, hact⟩ := hactive hact
      refine (coeff_pivotProgress h hj hi hact hne c).trans ?_
      rw [if_neg hcj, hzero i hi hact, hzero pivot hplt hpact, mul_zero, sub_zero]
  · have hne : c ≠ j := by omega
    simp only [substituteColumn, compactColumn, update_of_ne hne]
    exact h.ahead c (by omega)

lemma substitute_agree (hp : (pivot, pivotCoefficient) ∈ incidentRows s j) :
    Agree
      (EliminationState.program problem (substituteColumn (compactColumn s j) j pivot
        pivotCoefficient (pivotColumns s j pivot) (otherRows s j pivot)))
      ((s.program problem).pivot pivot j) := by
  obtain ⟨_, _, hval, _⟩ := (h.mem_incident hj).mp hp
  simp only at hval
  have hrow {i : ℕ} (hi : i ∈ ((s.program problem).pivot pivot j).rows) :
      i < problem.numRows ∧ s.activeRow i = true ∧ i ≠ pivot := by
    obtain ⟨hne, hmem⟩ := mem_erase.mp hi
    obtain ⟨hlt, hact⟩ := Finset.mem_filter.mp hmem
    exact ⟨Finset.mem_range.mp hlt, hact, hne⟩
  refine ⟨filter_update_false _ _ _, filter_update_false _ _ _, fun i hi k hk => ?_,
    fun i hi => ?_, fun _ _ => rfl, fun _ _ _ _ => rfl, rfl, fun _ _ => rfl, fun _ _ => rfl⟩
  · obtain ⟨hlt, hact, hne⟩ := hrow hi
    have hkj : k ≠ j := (mem_erase.mp hk).1
    refine (coeff_pivotProgress h hj hlt hact hne k).trans ?_
    simp only [if_neg hkj, Program.pivot, EliminationState.program, hval]
  · obtain ⟨hlt, hact, hne⟩ := hrow hi
    refine (rhs_pivotProgress h hj hlt hact hne).trans ?_
    simp only [Program.pivot, EliminationState.program, hval]

end

lemma dot_pivotColumns (h : EliminationInv problem j s)
    (hplt : pivot < problem.numRows) (hpact : s.activeRow pivot = true) (x : ℕ → ℚ) :
    dot (pivotColumns s j pivot) x =
      ∑ k ∈ (s.program problem).cols.erase j, (s.program problem).a pivot k * x k := by
  rw [dot_eq_sum _ _ (range problem.numCols) fun p hp =>
    Finset.mem_range.mpr (h.lt pivot hplt p.1 (keys_pivotColumns (mem_map_of_mem hp)))]
  symm
  refine Finset.sum_subset_zero_on_sdiff (fun k hk => ?_) (fun k hk => ?_) fun k hk => ?_
  · exact (Finset.mem_filter.mp (Finset.mem_of_mem_erase hk)).1
  · rw [coeff_pivotColumns]
    obtain ⟨hkn, hknot⟩ := Finset.mem_sdiff.mp hk
    split_ifs with hkj
    · rw [zero_mul]
    · have hinact : s.activeCol k = false := by
        by_contra hact
        exact hknot (mem_erase.mpr ⟨hkj, Finset.mem_filter.mpr ⟨hkn, by simpa using hact⟩⟩)
      rw [(h.inactive k hinact).1 pivot hplt hpact, zero_mul]
  · rw [coeff_pivotColumns, if_neg (Finset.ne_of_mem_erase hk)]
    rfl

lemma dot_affectedRows (h : EliminationInv problem j s) (hj : j < problem.numCols) (y : ℕ → ℚ) :
    dot (pivotProgress s j pivot pivotCoefficient).affectedRows y =
      ∑ i ∈ (s.program problem).rows.erase pivot,
        (s.program problem).a i j / pivotCoefficient * y i := by
  have hred := pivotProgress_reduced pivot pivotCoefficient h hj
  have hlist : dot (pivotProgress s j pivot pivotCoefficient).affectedRows y =
      ∑ i ∈ (otherRows s j pivot).toFinset, coeff (s.matrix.row i) j / pivotCoefficient * y i := by
    rw [hred.affected, sum_toFinset _ (nodup_otherRows s j pivot)]
    simp only [dot, nil_append, map_map, comp_def, compactColumn]
  rw [hlist]
  refine Finset.sum_subset_zero_on_sdiff (fun i hi => ?_) (fun i hi => ?_) fun _ _ => rfl
  · obtain ⟨hmem, hne⟩ := mem_otherRows.mp (mem_toFinset.mp hi)
    obtain ⟨hlt, hact, _⟩ := h.keys_incident_lt hj hmem
    exact mem_erase.mpr ⟨hne, Finset.mem_filter.mpr ⟨Finset.mem_range.mpr hlt, hact⟩⟩
  · obtain ⟨hin, hnot⟩ := Finset.mem_sdiff.mp hi
    obtain ⟨hne, hmem⟩ := mem_erase.mp hin
    obtain ⟨hlt, hact⟩ := Finset.mem_filter.mp hmem
    have hzero := h.coeff_eq_zero_of_notMem hj (Finset.mem_range.mp hlt) hact fun hkeys =>
      hnot (mem_toFinset.mpr (mem_otherRows.mpr ⟨hkeys, hne⟩))
    simp only [EliminationState.program, hzero, zero_div, zero_mul]

lemma substitute_recovers (hwf : problem.WellFormed) (h : EliminationInv problem j s)
    (hj : j < problem.numCols) (helim : Eliminable problem j)
    (hp : (pivot, pivotCoefficient) ∈ incidentRows s j) :
    let s' := substituteColumn (compactColumn s j) j pivot pivotCoefficient
      (pivotColumns s j pivot) (otherRows s j pivot)
    let e : FreeVariableElimination := ⟨j, some pivot, pivotCoefficient, s.rhs pivot,
      pivotColumns s j pivot, (pivotProgress s j pivot pivotCoefficient).affectedRows⟩
    Recovers (s'.program problem) (s.program problem) (undoElimination e) ∧
      RecoversFeasible (s'.program problem) (s.program problem) (undoElimination e) := by
  have hslack := slack_of_eliminable hwf h hj helim
  obtain ⟨hplt, hpact, hval, hne⟩ := (h.mem_incident hj).mp hp
  have hrow : pivot ∈ (s.program problem).rows :=
    Finset.mem_filter.mpr ⟨Finset.mem_range.mpr hplt, hpact⟩
  have hpiv : (s.program problem).a pivot j = pivotCoefficient := hval
  have hsame : Program.SameOn (s.program problem) ((s.program problem).unpivot pivot j ∘ id)
      (undoElimination ⟨j, some pivot, pivotCoefficient, s.rhs pivot, pivotColumns s j pivot,
        (pivotProgress s j pivot pivotCoefficient).affectedRows⟩) := by
    refine ⟨fun t k _ => ?_, fun t i _ => ?_, fun t k _ => rfl⟩
    · simp only [undoElimination, comp_apply, Program.unpivot, id,
        dot_pivotColumns h hplt hpact, hpiv]
      rfl
    · simp only [undoElimination, comp_apply, Program.unpivot, id, dot_affectedRows h hj, hpiv]
  have hagree := substitute_agree h hj hp
  have hnonzero : (s.program problem).a pivot j ≠ 0 := hpiv ▸ hne
  exact ⟨((Program.pivot_recovers hslack hrow hnonzero).trans hagree.recovers).congr hsame,
    ((Program.pivot_recoversFeasible hslack hnonzero).trans hagree.recoversFeasible).congr hsame⟩

end Substitute

lemma undoEliminations_append (es : List FreeVariableElimination) (e : FreeVariableElimination) :
    undoEliminations (es ++ [e]) = undoEliminations es ∘ undoElimination e := by
  funext t
  simp only [undoEliminations, foldr_append, foldr_cons, foldr_nil, comp_apply]

/-- The eliminations recorded so far lead from the active part back to the problem. -/
structure Replays (problem : LpProblem) (s : EliminationState) : Prop where
  recovers : Recovers (s.program problem) problem.toProgram
    (undoEliminations s.eliminations)
  feasible : RecoversFeasible (s.program problem) problem.toProgram
    (undoEliminations s.eliminations)

lemma Replays.append {s' : EliminationState} {e : FreeVariableElimination}
    (h : Replays problem s) (hes : s'.eliminations = s.eliminations ++ [e])
    (hrec : Recovers (s'.program problem) (s.program problem) (undoElimination e))
    (hfeas : RecoversFeasible (s'.program problem) (s.program problem)
      (undoElimination e)) : Replays problem s' := by
  constructor
  · rw [hes, undoEliminations_append]
    exact h.recovers.trans hrec
  · rw [hes, undoEliminations_append]
    exact h.feasible.trans hfeas

lemma eliminateColumn_step (hwf : problem.WellFormed) (hj : j < problem.numCols)
    (hinv : EliminationInv problem j s) (hrep : Replays problem s) :
    EliminationInv problem (j + 1) (eliminateColumn problem s j) ∧
      Replays problem (eliminateColumn problem s j) := by
  rcases eliminateColumn_cases (s := s) hwf hj with
    ⟨r, heq | heq⟩ | ⟨helim, hnil, heq⟩ | ⟨helim, pivot, coef, hp, heq⟩
  · rw [heq]
    exact ⟨⟨hinv.nodup, hinv.lt, fun i hi hact c hc => hinv.listed i hi hact c (by omega),
      hinv.colRow_lt, hinv.inactive, fun c hc => hinv.ahead c (by omega)⟩, hrep⟩
  · rw [heq]
    exact ⟨compactColumn_inv hinv hj r, hrep.recovers, hrep.feasible⟩
  · rw [heq]
    obtain ⟨hrec, hfeas⟩ := dropColumn_recovers hwf hinv hj helim hnil
      (s.eliminations ++ [⟨j, none, 1, 0, [], []⟩])
    exact ⟨dropColumn_inv hinv hj helim hnil _, hrep.append rfl hrec hfeas⟩
  · rw [heq]
    obtain ⟨hrec, hfeas⟩ := substitute_recovers hwf hinv hj helim hp
    exact ⟨substitute_inv hinv hj helim hp, hrep.append rfl hrec hfeas⟩

end Step

section Pass

variable {problem : LpProblem}

def startState (problem : LpProblem) : EliminationState where
  matrix := SubstitutionMatrix.build problem.A
  rhs := problem.rhs
  activeRow := fun _ => true
  activeCol := fun _ => true
  eliminations := []
  pivotRejected := 0

section

variable (hwf : problem.WellFormed)
include hwf

lemma initial_inv : EliminationInv problem 0 (startState problem) where
  nodup := fun i _ => nodup_keys_transposed (fun j hj => hwf.A_nodup j (hwf.A_n ▸ hj)) i
  lt := fun i _ c hc => by
    have hlt := (mem_keys_transposed.mp hc).1
    rwa [hwf.A_n] at hlt
  listed := fun i _ _ c _ hc => (mem_keys_transposed.mp hc).2
  colRow_lt := fun c hc i hi => hwf.A_lt c hc i hi
  inactive := nofun
  ahead := fun _ _ => rfl

lemma startState_agree :
    Agree ((startState problem).program problem) problem.toProgram := by
  refine ⟨by simp [startState, EliminationState.program, toProgram],
    by simp [startState, EliminationState.program, toProgram], fun i _ j hj => ?_,
    fun _ _ => rfl, fun _ _ => rfl, fun _ _ _ _ => rfl, rfl, fun _ _ => rfl, fun _ _ => rfl⟩
  have hjn : j < problem.A.n := hwf.A_n.symm ▸ Finset.mem_range.mp hj
  refine (coeff_transposed problem.A.n problem.A.col i j).trans ?_
  rw [if_pos hjn]
  rfl

lemma initial_replays : Replays problem (startState problem) :=
  ⟨(startState_agree hwf).recovers, (startState_agree hwf).recoversFeasible⟩

lemma foldl_eliminateColumn {k : ℕ} (hk : k ≤ problem.numCols) {s : EliminationState}
    (hinv : EliminationInv problem 0 s) (hrep : Replays problem s) :
    EliminationInv problem k ((List.range k).foldl (eliminateColumn problem) s) ∧
      Replays problem ((List.range k).foldl (eliminateColumn problem) s) := by
  induction k with
  | zero => exact ⟨hinv, hrep⟩
  | succ k ih =>
    obtain ⟨hinv', hrep'⟩ := ih (by omega)
    rw [range_succ, foldl_concat]
    exact eliminateColumn_step hwf (by omega) hinv' hrep'

lemma eliminationPass_spec (hlin : problem.linearVariableCount ≤ problem.numCols) :
    EliminationInv problem problem.linearVariableCount (eliminationPass problem) ∧
      Replays problem (eliminationPass problem) :=
  foldl_eliminateColumn hwf hlin (initial_inv hwf) (initial_replays hwf)

end

variable {s : EliminationState} {next : ℕ}

lemma EliminationInv.closed (h : EliminationInv problem next s) (hQ : 0 < problem.Q.n)
    (hsymm : problem.Q.IsSymmetric problem.numCols) :
    ∀ i ∈ unmarked problem.numCols (fun j => !s.activeCol j), ∀ j ∈ keys (problem.Q.row i),
      j ∈ unmarked problem.numCols (fun j => !s.activeCol j) := by
  intro i hi j hj
  have hilt := (mem_unmarked.mp hi).1
  have hjlt := hsymm.lt i hilt j hj
  refine mem_unmarked.mpr ⟨hjlt, ?_⟩
  by_contra hinact
  have hfalse : s.activeCol j = false := by simpa using hinact
  have hpattern := hsymm.pattern i hilt j hjlt hj
  rw [(h.inactive j hfalse).2 hQ] at hpattern
  simp [keys] at hpattern

lemma coeff_filter_active (l : List (ℕ × ℚ)) (active : ℕ → Bool) {c : ℕ} (hc : active c = true) :
    coeff (l.filter fun p => active p.1 && p.2 ≠ 0) c = coeff l c := by
  induction l with
  | nil => rfl
  | cons p l ih =>
    rw [filter_cons]
    split_ifs with hp
    · rw [coeff_cons, coeff_cons, ih]
    · rw [ih, coeff_cons]
      split_ifs with hpc
      · subst hpc
        have hzero : p.2 = 0 := by simpa [hc] using hp
        rw [hzero, zero_add]
      · rw [zero_add]

lemma reducedProblem_entry (h : EliminationInv problem next s) {k l : ℕ}
    (hk : k < (unmarked problem.numRows fun i => !s.activeRow i).length)
    (hl : l < (unmarked problem.numCols fun j => !s.activeCol j).length) :
    (reducedProblem problem s).A.entry k l =
      coeff (s.matrix.row ((unmarked problem.numRows fun i => !s.activeRow i).getD k 0))
        ((unmarked problem.numCols fun j => !s.activeCol j).getD l 0) := by
  simp only [reducedProblem, CscMatrix.entry, CsrMatrix.toCompressedCol_col, coeff_transposed,
    hk, if_true]
  rw [coeff_map_idxOf (nodup_unmarked _ _) _ 0 hl, coeff_filter_active]
  · simpa using (mem_unmarked.mp (getD_unmarked_mem hl)).2
  · intro c hc
    obtain ⟨p, hp, rfl⟩ := mem_map.mp hc
    rw [mem_filter, Bool.and_eq_true] at hp
    refine mem_unmarked.mpr ⟨h.lt _ (getD_unmarked_lt hk) p.1 (mem_map_of_mem hp.1), ?_⟩
    rw [hp.2.1]
    rfl

lemma reducedProblem_agree (hwf : problem.WellFormed) (h : EliminationInv problem next s) :
    Agree (reducedProblem problem s).toProgram
      ((s.program problem).renumber
        (range (unmarked problem.numRows fun i => !s.activeRow i).length)
        (range (unmarked problem.numCols fun j => !s.activeCol j).length)
        ((unmarked problem.numRows fun i => !s.activeRow i).getD · 0)
        ((unmarked problem.numCols fun j => !s.activeCol j).getD · 0)) where
  rows := rfl
  cols := rfl
  a := fun k hk l hl => reducedProblem_entry h (Finset.mem_range.mp hk) (Finset.mem_range.mp hl)
  b := fun _ _ => rfl
  c := fun _ _ => rfl
  q := fun j hj k hk => by
    have hjlt := Finset.mem_range.mp hj
    simp only [toProgram, Program.renumber, EliminationState.program, reducedProblem]
    by_cases hQ : 0 < problem.Q.n
    · have hn : 0 < (removeVariablesFromQ problem.Q (fun j => !s.activeCol j)
          (unmarked problem.numCols fun j => !s.activeCol j)).n :=
        lt_of_le_of_lt (Nat.zero_le _) hjlt
      simp only [hQ, if_true, hn]
      exact removeVariablesFromQ_entry (hwf.Q hQ) (h.closed hQ (hwf.Q hQ)) hjlt
        (Finset.mem_range.mp hk)
    · simp only [hQ, if_false]
  const := rfl
  lower := fun _ _ => rfl
  upper := fun _ _ => rfl

lemma reducedProblem_wellFormed (hwf : problem.WellFormed) (h : EliminationInv problem next s) :
    (reducedProblem problem s).WellFormed where
  A_m := rfl
  A_n := rfl
  A_lt := fun j _ i hi => (mem_keys_transposed.mp hi).1
  A_nodup := fun j _ => by
    refine nodup_keys_transposed (fun k hk => ?_) j
    have hnodup := h.nodup _ (getD_unmarked_lt hk)
    simp only [keys, map_map, comp_def]
    have hsub := (filter_sublist (l := s.matrix.row ((unmarked problem.numRows
      fun i => !s.activeRow i).getD k 0)) (p := fun p => s.activeCol p.1 && p.2 ≠ 0)).map fst
    have hkeys := hnodup.sublist hsub
    have hmap := Nodup.map_on (f := (unmarked problem.numCols fun j => !s.activeCol j).idxOf)
      (fun a ha b hb hab => ?_) hkeys
    · simpa only [map_map, comp_def] using hmap
    · -- the renumbering is injective on active columns
      have hactive {c : ℕ} (hc : c ∈ map fst ((s.matrix.row ((unmarked problem.numRows
          fun i => !s.activeRow i).getD k 0)).filter fun p => s.activeCol p.1 && p.2 ≠ 0)) :
          c ∈ unmarked problem.numCols fun j => !s.activeCol j := by
        obtain ⟨p, hp, rfl⟩ := mem_map.mp hc
        rw [mem_filter, Bool.and_eq_true] at hp
        refine mem_unmarked.mpr ⟨h.lt _ (getD_unmarked_lt hk) p.1 (mem_map_of_mem hp.1), ?_⟩
        rw [hp.2.1]
        rfl
      exact (idxOf_inj (hactive ha)).mp hab
  Q := fun hQ' => by
    by_cases hQ : 0 < problem.Q.n
    · simp only [reducedProblem, hQ, if_true]
      exact removeVariablesFromQ_isSymmetric (hwf.Q hQ) (h.closed hQ (hwf.Q hQ))
    · simp only [reducedProblem, hQ, if_false] at hQ'

lemma filter_active_eq (n : ℕ) (active : ℕ → Bool) :
    ((range n).filter fun j => active j = true) =
      (unmarked n fun j => !active j).toFinset := by
  ext j
  simp only [Finset.mem_filter, Finset.mem_range, mem_toFinset, mem_unmarked,
    Bool.not_eq_false']

def expandActive (rows cols : List ℕ) (t : Solution) : Solution where
  x := scatter cols t.x fun _ => 0
  y := scatter rows t.y fun _ => 0
  z := scatter cols t.z fun _ => 0

lemma renumbering_expandActive (problem : LpProblem) (s : EliminationState) :
    Program.Renumbering (s.program problem)
      (range (unmarked problem.numRows fun i => !s.activeRow i).length)
      (range (unmarked problem.numCols fun j => !s.activeCol j).length)
      ((unmarked problem.numRows fun i => !s.activeRow i).getD · 0)
      ((unmarked problem.numCols fun j => !s.activeCol j).getD · 0)
      (expandActive (unmarked problem.numRows fun i => !s.activeRow i)
        (unmarked problem.numCols fun j => !s.activeCol j)) :=
  Program.renumbering_getD (filter_active_eq _ _) (filter_active_eq _ _) (nodup_unmarked _ _)
    (nodup_unmarked _ _) (fun t _ hk => scatter_getD (nodup_unmarked _ _) t.x _ 0 hk)
    (fun t _ hk => scatter_getD (nodup_unmarked _ _) t.y _ 0 hk)
    fun t _ hk => scatter_getD (nodup_unmarked _ _) t.z _ 0 hk

lemma eliminateFreeVariables_recovers (hwf : problem.WellFormed)
    (hlin : problem.linearVariableCount ≤ problem.numCols) {info : PresolveInfo}
    (hinfo : info.freeVariableEliminations = []) :
    Recovers (eliminateFreeVariables problem info).1.toProgram problem.toProgram
        (restoreEliminated (eliminateFreeVariables problem info).2) ∧
      RecoversFeasible (eliminateFreeVariables problem info).1.toProgram problem.toProgram
        (restoreEliminated (eliminateFreeVariables problem info).2) := by
  have hid : restoreEliminated info = id := by
    funext t
    simp only [restoreEliminated, hinfo, if_true, id]
  obtain ⟨hinv, hrep⟩ := eliminationPass_spec hwf hlin
  unfold eliminateFreeVariables
  simp only
  split_ifs with hsize hnil
  · rw [hid]
    exact ⟨Program.Recovers.refl _, RecoversFeasible.refl _⟩
  · rw [hid]
    exact ⟨Program.Recovers.refl _, RecoversFeasible.refl _⟩
  · have hundo : restoreEliminated
        { info with
          freeVariableEliminations := (eliminationPass problem).eliminations
          freeEliminationRemainingVariables :=
            unmarked problem.numCols fun j => !(eliminationPass problem).activeCol j
          freeEliminationRemainingConstraints :=
            unmarked problem.numRows fun i => !(eliminationPass problem).activeRow i
          directFreeVariables :=
            freeLinearVariables (reducedProblem problem (eliminationPass problem)) } =
        undoEliminations (eliminationPass problem).eliminations ∘
          (expandActive (unmarked problem.numRows fun i => !(eliminationPass problem).activeRow i)
            (unmarked problem.numCols fun j => !(eliminationPass problem).activeCol j) ∘ id) := by
      funext t
      simp only [restoreEliminated, hnil, if_false, comp_apply, expandActive, id]
    have hren := renumbering_expandActive problem (eliminationPass problem)
    have hagree := reducedProblem_agree hwf hinv
    rw [hundo]
    exact ⟨hrep.recovers.trans (hren.recovers.trans hagree.recovers),
      hrep.feasible.trans (hren.recoversFeasible.trans hagree.recoversFeasible)⟩

lemma eliminateFreeVariables_wellFormed (hwf : problem.WellFormed)
    (hlin : problem.linearVariableCount ≤ problem.numCols) (info : PresolveInfo) :
    (eliminateFreeVariables problem info).1.WellFormed := by
  unfold eliminateFreeVariables
  simp only
  split_ifs
  · exact hwf
  · exact hwf
  · exact reducedProblem_wellFormed hwf (eliminationPass_spec hwf hlin).1

end Pass

end CuOpt.Simplex
