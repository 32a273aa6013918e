import CuOpt.Simplex.Presolve

/-! Presolve followed by postsolve: feasible points, objective values and stationary triples of the
presolved problem are carried back to the original one. -/

namespace CuOpt.Simplex

open SparseList QuadProgram

structure Reduces (problem problem' : LpProblem) (undo : Solution → Solution) : Prop where
  wellFormed : problem'.WellFormed
  cones : problem'.secondOrderConeDims = []
  recovers : Program.Recovers problem'.toProgram problem.toProgram undo
  feasible : EmptyColsOrdered problem →
    Program.RecoversFeasible problem'.toProgram problem.toProgram undo

section Stages

variable {problem problem' : LpProblem} {settings : SimplexSolverSettings}
  {info info' : PresolveInfo}

lemma linearVariableCount_eq (hcones : problem.secondOrderConeDims = []) :
    problem.linearVariableCount = problem.numCols := by
  simp only [LpProblem.linearVariableCount, hcones, if_true]

lemma Reduces.refl (hwf : problem.WellFormed) (hcones : problem.secondOrderConeDims = []) :
    Reduces problem problem id :=
  ⟨hwf, hcones, Program.Recovers.refl _, fun _ => Program.RecoversFeasible.refl _⟩

lemma correctDuals_nil (A : CscMatrix) : correctDuals A [] = id := rfl

lemma unnegate_nil : unnegate [] = id := rfl

lemma addLowerBounds_none : addLowerBounds none = id := rfl

lemma boundStage_reduces (hwf : problem.WellFormed) (hcones : problem.secondOrderConeDims = [])
    (hinfo : info.boundedFreeVariables = [])
    (h : boundStage settings problem info = (problem', info')) :
    ∃ l, info' = { info with boundedFreeVariables := l } ∧
      Reduces problem problem' (correctDuals problem.A l) ∧
      (EmptyColsOrdered problem → EmptyColsOrdered problem') := by
  have hle : problem.linearVariableCount ≤ problem.numCols := (linearVariableCount_eq hcones).le
  unfold boundStage at h
  split_ifs at h <;> cases h
  · refine ⟨_, rfl, ⟨boundFreeVariables_wellFormed hwf, hcones, boundFreeVariables_recovers hwf hle,
      fun _ => boundFreeVariables_recoversFeasible hwf hle⟩, fun hord j hj hcol hQ => ?_⟩
    obtain ⟨hl, hu⟩ := boundFreeVariables_bounds_of_empty hwf hle hcol
    rw [hl, hu]
    exact hord j hj hcol hQ
  · refine ⟨[], by rw [← hinfo], ?_, id⟩
    rw [correctDuals_nil]
    exact Reduces.refl hwf hcones

lemma negateColumns_qCoupled (hQ : 0 < problem.Q.n) (j : ℕ) :
    qCoupled (negateColumns problem).Q j = qCoupled problem.Q j := by
  simp only [qCoupled, negateColumns_Q_m, negateColumns_Q_keys hQ]

lemma negateStage_reduces (hwf : problem.WellFormed) (hcones : problem.secondOrderConeDims = [])
    (hinfo : info.negatedVariables = [])
    (h : negateStage settings problem info = (problem', info')) :
    ∃ l, info' = { info with negatedVariables := l } ∧ Reduces problem problem' (unnegate l) ∧
      (EmptyColsOrdered problem → EmptyColsOrdered problem') := by
  unfold negateStage at h
  split_ifs at h <;> cases h
  · refine ⟨_, rfl, ⟨negateColumns_wellFormed hwf, hcones, negateColumns_recovers,
      fun _ => negateColumns_recoversFeasible⟩, fun hord j hj hcol hQ => ?_⟩
    simp only [negateColumns_Q_n] at hQ
    have hnil : problem.A.col j = [] := by
      have hkeys := negateColumns_keys problem j
      rw [show (negateColumns problem).A.col j = [] from hcol] at hkeys
      exact List.map_eq_nil_iff.mp hkeys.symm
    have hbounds := hord j hj hnil fun hQ' => by rw [← negateColumns_qCoupled hQ']; exact hQ hQ'
    simp only [negateColumns]
    split_ifs
    · intro l _ u hu
      cases hu
    · exact hbounds
  · refine ⟨[], by rw [← hinfo], ?_, id⟩
    rw [unnegate_nil]
    exact Reduces.refl hwf hcones

lemma shiftStage_reduces (hwf : problem.WellFormed) (hcones : problem.secondOrderConeDims = [])
    (hinfo : info.removedLowerBounds = none)
    (h : shiftStage settings problem info = (problem', info')) :
    ∃ l, info' = { info with removedLowerBounds := l } ∧
      Reduces problem problem' (addLowerBounds l) ∧
      (EmptyColsOrdered problem → EmptyColsOrdered problem') := by
  have hlin := linearVariableCount_eq hcones
  unfold shiftStage at h
  split_ifs at h <;> cases h
  · refine ⟨_, rfl, ⟨shiftLowerBounds_wellFormed hwf, hcones, shiftLowerBounds_recovers hwf hlin,
      fun _ => shiftLowerBounds_recoversFeasible hwf hlin⟩, fun hord j hj hcol hQ => ?_⟩
    have hbounds := hord j hj hcol hQ
    simp only [shiftLowerBounds]
    split_ifs with hrem
    · intro l hl u hu
      simp only [lowerBoundRemoved, Bool.and_eq_true, decide_eq_true_eq] at hrem
      obtain ⟨v, hv⟩ := Option.ne_none_iff_exists'.mp hrem.2
      obtain ⟨w, hw, rfl⟩ := Option.map_eq_some_iff.mp hu
      cases hl
      have hvw := hbounds v hv w hw
      simp only [hv, Option.getD_some]
      linarith
    · exact hbounds
  · refine ⟨none, by rw [← hinfo], ?_, id⟩
    rw [addLowerBounds_none]
    exact Reduces.refl hwf hcones

lemma restoreConstraints_of_nil (hinfo : info.removedConstraints = []) :
    restoreConstraints info = id := by
  funext t
  simp only [restoreConstraints, hinfo, if_true, id]

lemma emptyRowStage_reduces (hwf : problem.WellFormed) (hcones : problem.secondOrderConeDims = [])
    (hinfo : info.removedConstraints = [])
    (h : emptyRowStage problem info = some (problem', info')) :
    ∃ removed remaining, info' = { info with
        removedConstraints := removed, remainingConstraints := remaining } ∧
      Reduces problem problem' (restoreConstraints info') ∧
      (EmptyColsOrdered problem → EmptyColsOrdered problem') := by
  unfold emptyRowStage at h
  split_ifs at h
  · obtain ⟨hrem, hinfo'⟩ := removeEmptyRows_spec h
    have hdata : problem'.secondOrderConeDims = problem.secondOrderConeDims ∧
        problem'.numCols = problem.numCols ∧ problem'.Q = problem.Q ∧
        problem'.lower = problem.lower ∧ problem'.upper = problem.upper := by
      unfold removeRows at hrem
      split_ifs at hrem
      cases hrem
      exact ⟨rfl, rfl, rfl, rfl, rfl⟩
    refine ⟨_, _, hinfo', ⟨removeRows_wellFormed hwf hrem, hdata.1.trans hcones,
      removeEmptyRows_recovers hwf h, fun _ => removeEmptyRows_recoversFeasible hwf h⟩,
      fun hord j hj hcol hQ => ?_⟩
    obtain ⟨-, hn, hQeq, hl, hu⟩ := hdata
    rw [hn] at hj
    rw [hQeq] at hQ
    rw [hl, hu]
    exact hord j hj (removeEmptyRows_col_eq_nil hwf h hj hcol) hQ
  · simp only [Option.some.injEq, Prod.mk.injEq] at h
    obtain ⟨rfl, rfl⟩ := h
    refine ⟨[], info.remainingConstraints, by rw [← hinfo], ?_, id⟩
    rw [restoreConstraints_of_nil hinfo]
    exact Reduces.refl hwf hcones

lemma restoreVariables_of_nil (hinfo : info.removedVariables = []) :
    restoreVariables info = id := by
  funext t
  simp only [restoreVariables, hinfo, if_true, id]

lemma emptyColStage_reduces (hwf : problem.WellFormed) (hcones : problem.secondOrderConeDims = [])
    (hinfo : info.removedVariables = []) (h : emptyColStage problem info = (problem', info')) :
    ∃ removed values costs remaining, info' = { info with
        removedVariables := removed, removedValues := values, removedReducedCosts := costs,
        remainingVariables := remaining } ∧
      Reduces problem problem' (restoreVariables info') := by
  have hlin := linearVariableCount_eq hcones
  unfold emptyColStage at h
  split_ifs at h <;> cases h
  · exact ⟨_, _, _, _, rfl, removeEmptyCols_wellFormed hwf info, hcones,
      removeEmptyCols_recovers hwf hlin info,
      fun hord => removeEmptyCols_recoversFeasible hwf hlin hord info⟩
  · refine ⟨[], info.removedValues, info.removedReducedCosts, info.remainingVariables,
      by rw [← hinfo], ?_⟩
    rw [restoreVariables_of_nil hinfo]
    exact Reduces.refl hwf hcones

lemma mergePairs_nil : mergePairs [] = id := rfl

lemma freeStage_reduces (hwf : problem.WellFormed) (hcones : problem.secondOrderConeDims = [])
    (hinfo : info.freeVariablePairs = [])
    (h : freeStage settings problem info = (problem', info')) :
    ∃ pairs direct, info' = { info with
        freeVariablePairs := pairs, directFreeVariables := direct } ∧
      Reduces problem problem' (mergePairs pairs) ∧
      Program.RecoversFeasible problem'.toProgram problem.toProgram (mergePairs pairs) := by
  unfold freeStage at h
  simp only at h
  split_ifs at h with hdirect hsplit <;> cases h
  · refine ⟨[], _, rfl, ?_⟩
    rw [mergePairs_nil]
    exact ⟨Reduces.refl hwf hcones, Program.RecoversFeasible.refl _⟩
  · have hQ : problem.Q.n = 0 := by
      by_contra hne
      exact hdirect ⟨hsplit.1, hsplit.2.2, .inl (Nat.pos_of_ne_zero hne)⟩
    have hfeas := (splitFreeVariables_isSplit info hQ).recoversFeasible.congr
      (mergePairs_sameOn problem info)
    have hrec := (splitFreeVariables_isSplit info hQ).recovers.congr
      (mergePairs_sameOn problem info)
    exact ⟨_, info.directFreeVariables, rfl, ⟨splitFreeVariables_wellFormed info hwf hQ,
      hcones, hrec, fun _ => hfeas⟩, hfeas⟩
  · refine ⟨[], info.directFreeVariables, by rw [← hinfo], ?_⟩
    rw [mergePairs_nil]
    exact ⟨Reduces.refl hwf hcones, Program.RecoversFeasible.refl _⟩

lemma restoreEliminated_of_nil (hinfo : info.freeVariableEliminations = []) :
    restoreEliminated info = id := by
  funext t
  simp only [restoreEliminated, hinfo, if_true, id]

lemma eliminateStage_reduces (hwf : problem.WellFormed)
    (hcones : problem.secondOrderConeDims = []) (hinfo : info.freeVariableEliminations = [])
    (h : eliminateStage settings problem info = (problem', info')) :
    (∃ es vars rows direct, info' = { info with
        freeVariableEliminations := es, freeEliminationRemainingVariables := vars,
        freeEliminationRemainingConstraints := rows, directFreeVariables := direct }) ∧
      Reduces problem problem' (restoreEliminated info') ∧
      Program.RecoversFeasible problem'.toProgram problem.toProgram (restoreEliminated info') := by
  have hlin := linearVariableCount_eq hcones
  unfold eliminateStage at h
  split_ifs at h
  · have hrec := eliminateFreeVariables_recovers hwf hlin.le hinfo
    have hwf' := eliminateFreeVariables_wellFormed hwf hlin.le info
    have hcones' : (eliminateFreeVariables problem info).1.secondOrderConeDims = [] := by
      unfold eliminateFreeVariables
      simp only
      split_ifs <;> exact hcones
    rw [h] at hrec hwf' hcones'
    refine ⟨?_, ⟨hwf', hcones', hrec.1, fun _ => hrec.2⟩, hrec.2⟩
    unfold eliminateFreeVariables at h
    simp only at h
    split_ifs at h <;> obtain ⟨rfl, rfl⟩ := Prod.mk.inj h <;> exact ⟨_, _, _, _, rfl⟩
  · cases h
    refine ⟨⟨_, _, _, _, rfl⟩, ?_⟩
    rw [restoreEliminated_of_nil hinfo]
    exact ⟨Reduces.refl hwf hcones, Program.RecoversFeasible.refl _⟩

end Stages

/-- `folding` leaves the problem and the record alone unless it reports that it folded. -/
def FoldingIdle (folding : Folding) : Prop :=
  ∀ problem settings info, (folding problem settings info).2.foldingInfo.isFolded = false →
    folding problem settings info = (problem, info)

section Main

variable {folding : Folding} {original problem : LpProblem} {settings : SimplexSolverSettings}
  {info : PresolveInfo}

lemma eliminateStage_foldingInfo (settings : SimplexSolverSettings) (problem : LpProblem)
    (info : PresolveInfo) :
    (eliminateStage settings problem info).2.foldingInfo = info.foldingInfo := by
  unfold eliminateStage eliminateFreeVariables
  simp only
  split_ifs <;> rfl

/-- A fold that did not happen leaves the problem as it is. -/
lemma foldStage_eq_of_not_folded (hidle : FoldingIdle folding)
    (h : (foldStage folding settings problem info).2.foldingInfo.isFolded = false) :
    foldStage folding settings problem info = (problem, info) := by
  unfold foldStage at h ⊢
  split_ifs with hcond
  · rw [if_pos hcond] at h
    exact hidle _ _ _ h
  · rfl

/-- The stages before the folding, undone by `uncrushSolution`. -/
lemma presolve_before_fold (hwf : original.WellFormed) (hcones : original.secondOrderConeDims = [])
    (h : presolve folding original settings = some (problem, info)) :
    ∃ p i, i.foldingInfo.isFolded = false ∧ i.freeVariableEliminations = [] ∧
      eliminateStage settings (foldStage folding settings p i).1 (foldStage folding settings p i).2 =
        (problem, info) ∧ Reduces original p (uncrushSolution i original) := by
  simp only [presolve, Option.bind_eq_bind, Option.bind_eq_some_iff, Option.pure_def,
    Option.some.injEq] at h
  rcases h₁ : boundStage settings original {} with ⟨p₁, i₁⟩
  obtain ⟨l₁, rfl, hr₁, ho₁⟩ := boundStage_reduces hwf hcones rfl h₁
  rcases h₂ : negateStage settings p₁ { boundedFreeVariables := l₁ } with ⟨p₂, i₂⟩
  obtain ⟨l₂, rfl, hr₂, ho₂⟩ := negateStage_reduces hr₁.wellFormed hr₁.cones rfl h₂
  rcases h₃ : shiftStage settings p₂ { boundedFreeVariables := l₁, negatedVariables := l₂ }
    with ⟨p₃, i₃⟩
  obtain ⟨l₃, rfl, hr₃, ho₃⟩ := shiftStage_reduces hr₂.wellFormed hr₂.cones rfl h₃
  rw [h₁] at h
  simp only [h₂, h₃] at h
  obtain ⟨⟨p₄, i₄⟩, h₄, h⟩ := h
  obtain ⟨removed, remaining, rfl, hr₄, ho₄⟩ := emptyRowStage_reduces hr₃.wellFormed hr₃.cones
    rfl h₄
  simp only at h
  rcases h₅ : emptyColStage p₄
    { boundedFreeVariables := l₁, negatedVariables := l₂, removedLowerBounds := l₃,
      removedConstraints := removed, remainingConstraints := remaining } with ⟨p₅, i₅⟩
  obtain ⟨rv, vals, costs, vars, rfl, hr₅⟩ := emptyColStage_reduces hr₄.wellFormed hr₄.cones rfl h₅
  rw [h₅] at h
  simp only at h
  rcases h₆ : freeStage settings p₅
    { boundedFreeVariables := l₁, negatedVariables := l₂, removedLowerBounds := l₃,
      removedConstraints := removed, remainingConstraints := remaining, removedVariables := rv,
      removedValues := vals, removedReducedCosts := costs, remainingVariables := vars }
    with ⟨p₆, i₆⟩
  obtain ⟨pairs, direct, rfl, hr₆, hf₆⟩ := freeStage_reduces hr₅.wellFormed hr₅.cones rfl h₆
  rw [h₆] at h
  refine ⟨p₆, _, rfl, rfl, h, hr₆.wellFormed, hr₆.cones, ?_, fun hord => ?_⟩
  · exact hr₁.recovers.trans (hr₂.recovers.trans (hr₃.recovers.trans (hr₄.recovers.trans
      (hr₅.recovers.trans hr₆.recovers))))
  · have ho := ho₃ (ho₂ (ho₁ hord))
    exact (hr₁.feasible hord).trans ((hr₂.feasible (ho₁ hord)).trans
      ((hr₃.feasible (ho₂ (ho₁ hord))).trans ((hr₄.feasible ho).trans
        ((hr₅.feasible (ho₄ ho)).trans hf₆))))

/-- Everything presolve does, undone by `uncrushSolution`. -/
lemma presolve_reduces (hwf : original.WellFormed)
    (hcones : original.secondOrderConeDims = []) (hidle : FoldingIdle folding)
    (h : presolve folding original settings = some (problem, info))
    (hfold : info.foldingInfo.isFolded = false) :
    Reduces original problem (uncrushSolution info original) := by
  obtain ⟨p, i, hnot, hnil, h, hr⟩ := presolve_before_fold hwf hcones h
  rw [foldStage_eq_of_not_folded hidle (by
    rw [← eliminateStage_foldingInfo settings (foldStage folding settings p i).1, h]
    exact hfold)] at h
  obtain ⟨⟨es, evars, erows, edirect, hinfo⟩, hr', hf'⟩ :=
    eliminateStage_reduces hr.wellFormed hr.cones hnil h
  have hundo : uncrushSolution info original =
      uncrushSolution i original ∘ restoreEliminated info := by
    funext t
    simp only [Function.comp_apply, uncrushSolution, unfold, restoreEliminated_of_nil hnil, hfold,
      hnot, id_eq, Bool.false_eq_true, if_false]
    rw [hinfo]
    rfl
  rw [hundo]
  exact ⟨hr'.wellFormed, hr'.cones, hr.recovers.trans hr'.recovers,
    fun hord => (hr.feasible hord).trans hf'⟩

/-- Objective values agree for every feasible point, and feasibility carries over when the empty
uncoupled columns of the original problem have ordered bounds. -/
theorem uncrushSolution_objective_feasible (hwf : original.WellFormed)
    (hcones : original.secondOrderConeDims = []) (hidle : FoldingIdle folding)
    (h : presolve folding original settings = some (problem, info))
    (hfold : info.foldingInfo.isFolded = false) {t : Solution}
    (ht : problem.toProgram.Feasible t.x) :
    problem.toProgram.objective t.x =
        original.toProgram.objective (uncrushSolution info original t).x ∧
      (EmptyColsOrdered original →
        original.toProgram.Feasible (uncrushSolution info original t).x) := by
  have hred := presolve_reduces hwf hcones hidle h hfold
  exact ⟨hred.recovers.objective_eq t, fun hord => hred.feasible hord t ht⟩

theorem uncrushSolution_stationary (hwf : original.WellFormed)
    (hcones : original.secondOrderConeDims = []) (hidle : FoldingIdle folding)
    (h : presolve folding original settings = some (problem, info))
    (hfold : info.foldingInfo.isFolded = false) {t : Solution}
    (ht : problem.toProgram.Stationary t) :
    original.toProgram.Stationary (uncrushSolution info original t) :=
  (presolve_reduces hwf hcones hidle h hfold).recovers.stationary t ht

end Main

def noFolding : Folding := fun problem _ info => (problem, info)

lemma noFolding_idle : FoldingIdle noFolding := fun _ _ _ _ => rfl

def barrierSettings : SimplexSolverSettings where
  barrier := true
  barrierPresolve := true
  barrierEliminateFreeVariables := true
  barrierPresolveBoundFreeVariables := 0
  folding := 0
  dualize := 0

def crossedColumn : LpProblem where
  numRows := 0
  numCols := 1
  objective := fun _ => 1
  Q := ⟨0, 0, fun _ => []⟩
  A := ⟨0, 1, fun _ => []⟩
  rhs := fun _ => 0
  lower := fun _ => some 1
  upper := fun _ => some 0
  objConstant := 0
  coneVarStart := 0
  secondOrderConeDims := []

lemma crossedColumn_wellFormed : crossedColumn.WellFormed :=
  ⟨rfl, rfl, by simp [crossedColumn, keys], by simp [crossedColumn, keys],
    fun h => absurd h (by decide)⟩

theorem crossedColumn_uncrush_infeasible :
    crossedColumn.WellFormed ∧ crossedColumn.secondOrderConeDims = [] ∧
      ∃ problem info, presolve noFolding crossedColumn barrierSettings = some (problem, info) ∧
        info.foldingInfo.isFolded = false ∧ problem.toProgram.Feasible (fun _ => 0) ∧
        ¬crossedColumn.toProgram.Feasible
          (uncrushSolution info crossedColumn ⟨fun _ => 0, fun _ => 0, fun _ => 0⟩).x := by
  have heval : (presolve noFolding crossedColumn barrierSettings).any (fun r =>
      r.2.foldingInfo.isFolded = false ∧ r.1.toProgram.Feasible (fun _ => 0) ∧
        ¬crossedColumn.toProgram.Feasible
          (uncrushSolution r.2 crossedColumn ⟨fun _ => 0, fun _ => 0, fun _ => 0⟩).x) = true := by
    decide +kernel
  obtain ⟨⟨problem, info⟩, hpre, hr⟩ := (Option.any_eq_true _ _).mp heval
  exact ⟨crossedColumn_wellFormed, rfl, problem, info, hpre, of_decide_eq_true hr⟩

def shiftedRow : LpProblem where
  numRows := 1
  numCols := 2
  objective := fun j => if j = 0 then 3 else 1
  Q := ⟨0, 0, fun _ => []⟩
  A := ⟨1, 2, fun j => if j = 0 then [(0, 2)] else [(0, 1)]⟩
  rhs := fun _ => 4
  lower := fun j => if j = 0 then some 1 else none
  upper := fun _ => none
  objConstant := 0
  coneVarStart := 0
  secondOrderConeDims := []

lemma shiftedRow_wellFormed : shiftedRow.WellFormed := by
  refine ⟨rfl, rfl, fun j _ i hi => ?_, fun j _ => ?_, fun h => absurd h (by decide)⟩
  · by_cases hj : j = 0 <;> simp_all [shiftedRow, keys]
  · by_cases hj : j = 0 <;> simp [shiftedRow, keys, hj]

/-- Presolve gives `2 x₀ + x₁ - x₂ = 2`, `0 ≤ x`, with the feasible point `(0, 2, 0)`. -/
theorem shiftedRow_objective_feasible :
    ∃ problem info, presolve noFolding shiftedRow barrierSettings = some (problem, info) ∧
      problem.numCols = 3 ∧
      shiftedRow.toProgram.Feasible (uncrushSolution info shiftedRow
        ⟨fun j => if j = 1 then 2 else 0, fun _ => 0, fun _ => 0⟩).x := by
  have heval : (presolve noFolding shiftedRow barrierSettings).any (fun r =>
      r.1.numCols = 3 ∧ r.2.foldingInfo.isFolded = false ∧
        r.1.toProgram.Feasible (fun j => if j = 1 then 2 else 0)) = true := by
    decide +kernel
  obtain ⟨⟨problem, info⟩, hpre, hr⟩ := (Option.any_eq_true _ _).mp heval
  obtain ⟨hcols, hfold, hfeas⟩ := of_decide_eq_true hr
  refine ⟨problem, info, hpre, hcols, ?_⟩
  refine (uncrushSolution_objective_feasible shiftedRow_wellFormed rfl noFolding_idle hpre hfold
    (t := ⟨fun j => if j = 1 then 2 else 0, fun _ => 0, fun _ => 0⟩) hfeas).2 ?_
  intro j _ hcol
  by_cases hj : j = 0 <;> simp [shiftedRow, hj] at hcol

/-- `y = 1`, `z = (1, 0, 0)` is stationary for the presolved problem. -/
theorem shiftedRow_stationary :
    ∃ problem info, presolve noFolding shiftedRow barrierSettings = some (problem, info) ∧
      shiftedRow.toProgram.Stationary (uncrushSolution info shiftedRow
        ⟨fun _ => 0, fun _ => 1, fun j => if j = 0 then 1 else 0⟩) := by
  have heval : (presolve noFolding shiftedRow barrierSettings).any (fun r =>
      r.2.foldingInfo.isFolded = false ∧
        r.1.toProgram.Stationary ⟨fun _ => 0, fun _ => 1, fun j => if j = 0 then 1 else 0⟩) =
          true := by
    decide +kernel
  obtain ⟨⟨problem, info⟩, hpre, hr⟩ := (Option.any_eq_true _ _).mp heval
  obtain ⟨hfold, hstat⟩ := of_decide_eq_true hr
  exact ⟨problem, info, hpre,
    uncrushSolution_stationary shiftedRow_wellFormed rfl noFolding_idle hpre hfold hstat⟩

end CuOpt.Simplex
