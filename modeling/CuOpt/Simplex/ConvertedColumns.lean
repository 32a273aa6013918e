import CuOpt.Simplex.ConvertSound

/-! The columns of a converted problem without cones: the user columns come first with their bounds,
and a greater row has a slack without an upper bound. -/

namespace CuOpt.Simplex

open SparseList QuadProgram List
open Option (not_mem_none)

structure KeepsBounds (problem problem' : LpProblem) : Prop where
  numRows : problem'.numRows = problem.numRows
  numCols : problem.numCols ≤ problem'.numCols
  lower : ∀ j < problem.numCols, problem'.lower j = problem.lower j
  upper : ∀ j < problem.numCols, problem'.upper j = problem.upper j
  cones : problem'.secondOrderConeDims = problem.secondOrderConeDims

lemma KeepsBounds.trans {problem problem' problem'' : LpProblem}
    (h : KeepsBounds problem problem') (h' : KeepsBounds problem' problem'') :
    KeepsBounds problem problem'' where
  numRows := h'.numRows.trans h.numRows
  numCols := h.numCols.trans h'.numCols
  lower := fun j hj => (h'.lower j (hj.trans_le h.numCols)).trans (h.lower j hj)
  upper := fun j hj => (h'.upper j (hj.trans_le h.numCols)).trans (h.upper j hj)
  cones := h'.cones.trans h.cones

/-- A column that carries the slack of row `i`, at least zero and without an upper bound. -/
def OpenSlack (problem : LpProblem) (i c : ℕ) : Prop :=
  c < problem.numCols ∧ problem.A.col c = [(i, 1)] ∧ problem.lower c = some 0 ∧
    problem.upper c = none

section Insert

variable {problem : LpProblem} {rows : List ℕ} {lower upper : ℕ → Option ℚ}

lemma insertColumns_keepsBounds (problem : LpProblem) (new : List (ℕ × ℚ))
    (lower upper : ℕ → Option ℚ) :
    KeepsBounds problem (insertColumns problem problem.numCols new lower upper) where
  numRows := rfl
  numCols := Nat.le_add_right _ _
  lower := fun _ hj => if_pos hj
  upper := fun _ hj => if_pos hj
  cones := rfl

lemma insertColumns_openSlack (new : List (ℕ × ℚ)) (lower upper : ℕ → Option ℚ) {i c : ℕ}
    (h : OpenSlack problem i c) :
    OpenSlack (insertColumns problem problem.numCols new lower upper) i c := by
  obtain ⟨hc, hcol, hlower, hupper⟩ := h
  refine ⟨hc.trans_le (Nat.le_add_right _ _), ?_, ?_, ?_⟩
  · exact (if_pos hc).trans hcol
  · exact (if_pos hc).trans hlower
  · exact (if_pos hc).trans hupper

lemma insertSlackColumns_of_noCones (hcones : problem.secondOrderConeDims = [])
    (hne : rows ≠ []) (newSlacks : List ℕ) (isRange : Bool) :
    (insertSlackColumns problem rows isRange lower upper newSlacks).1 =
      { insertColumns problem problem.numCols
          (rows.map fun i => (i, if isRange then -1 else 1)) lower upper with
        Q := insertQuadratic problem.Q problem.numCols rows.length
          (problem.numCols + rows.length) } := by
  have hlen : rows.length ≠ 0 := fun h => hne (length_eq_zero_iff.mp h)
  have hlinear : problem.linearVariableCount = problem.numCols := if_pos hcones
  rw [insertSlackColumns, if_neg hlen, hlinear]
  dsimp only
  rw [if_pos hcones]
  rfl

lemma insertSlackColumns_keepsBounds (hcones : problem.secondOrderConeDims = [])
    (newSlacks : List ℕ) (isRange : Bool) :
    KeepsBounds problem (insertSlackColumns problem rows isRange lower upper newSlacks).1 := by
  by_cases hne : rows = []
  · rw [hne]
    exact ⟨rfl, le_rfl, fun _ _ => rfl, fun _ _ => rfl, rfl⟩
  · have hkeeps := insertColumns_keepsBounds problem
      (rows.map fun i => (i, if isRange then (-1 : ℚ) else 1)) lower upper
    rw [insertSlackColumns_of_noCones hcones hne]
    exact ⟨hkeeps.numRows, hkeeps.numCols, hkeeps.lower, hkeeps.upper, hkeeps.cones⟩

end Insert

section Stages

variable {user : UserProblem} {s : ConvertState}

lemma convertRangeRows_keepsBounds (hcones : s.problem.secondOrderConeDims = []) :
    KeepsBounds s.problem (convertRangeRows user s).problem := by
  have hkeeps := @insertSlackColumns_keepsBounds
    { s.problem with rhs := (user.ranges.foldl convertRangeRow
      ⟨s.problem.rhs, s.rowSense, s.lessRows, s.equalRows, s.greaterRows, []⟩).rhs } user.rangeRows
    (fun k => some ((user.ranges.foldl convertRangeRow ⟨s.problem.rhs, s.rowSense,
      s.lessRows, s.equalRows, s.greaterRows, []⟩).bounds.getD k (0, 0)).1)
    (fun k => some ((user.ranges.foldl convertRangeRow ⟨s.problem.rhs, s.rowSense,
      s.lessRows, s.equalRows, s.greaterRows, []⟩).bounds.getD k (0, 0)).2) hcones s.newSlacks true
  exact ⟨hkeeps.numRows, hkeeps.numCols, hkeeps.lower, hkeeps.upper, hkeeps.cones⟩

lemma convertGreaterToLess_keepsBounds : KeepsBounds s.problem (convertGreaterToLess s).problem :=
  ⟨rfl, le_rfl, fun _ _ => rfl, fun _ _ => rfl, rfl⟩

lemma convertLessThanToEqual_keepsBounds (hcones : s.problem.secondOrderConeDims = []) :
    KeepsBounds s.problem (convertLessThanToEqual s).problem :=
  insertSlackColumns_keepsBounds hcones s.newSlacks false

lemma convertLessThanToEqual_openSlack (hcones : s.problem.secondOrderConeDims = []) {i : ℕ}
    (hi : i < s.problem.numRows) (hsense : s.rowSense i = .L) :
    ∃ c, s.problem.numCols ≤ c ∧ OpenSlack (convertLessThanToEqual s).problem i c := by
  set rows := (range s.problem.numRows).filter fun i => s.rowSense i = .L with hrows
  have hmem : i ∈ rows := by
    rw [hrows, mem_filter]
    exact ⟨mem_range.mpr hi, decide_eq_true hsense⟩
  obtain ⟨q, hq, hget⟩ := getElem_of_mem hmem
  have hproblem : (convertLessThanToEqual s).problem = _ :=
    insertSlackColumns_of_noCones hcones (ne_nil_of_mem hmem) s.newSlacks false
  set new : List (ℕ × ℚ) := rows.map fun i => (i, if false then -1 else 1) with hnew
  have hlt : q < new.length := by rwa [hnew, length_map]
  refine ⟨s.problem.numCols + q, Nat.le_add_right _ _, ?_⟩
  rw [hproblem]
  refine ⟨Nat.add_lt_add_left hlt _, ?_, ?_, ?_⟩
  · change insertAt s.problem.A.col (fun k => [new.getD k (0, 0)]) s.problem.numCols new.length
      (s.problem.numCols + q) = [(i, 1)]
    rw [insertAt_new _ _ hlt, getD_eq_getElem _ _ hlt]
    simp only [hnew, getElem_map, hget, Bool.false_eq_true, if_false]
  · exact insertAt_new s.problem.lower (fun _ => some 0) hlt
  · exact insertAt_new s.problem.upper (fun _ => none) hlt

end Stages

/-- The state after the range rows, which leave a problem without ranges as it is. -/
def rangedState (user : UserProblem) : ConvertState :=
  if user.ranges = [] then initialState user else convertRangeRows user (initialState user)

lemma inequalityState_eq (user : UserProblem) : inequalityState user =
    if 0 < (rangedState user).greaterRows then convertGreaterToLess (rangedState user)
      else rangedState user := rfl

lemma rangedState_keepsBounds {user : UserProblem} (hcones : user.secondOrderConeDims = []) :
    KeepsBounds user.toLpProblem (rangedState user).problem := by
  rw [rangedState]
  split_ifs
  · exact ⟨rfl, le_rfl, fun _ _ => rfl, fun _ _ => rfl, rfl⟩
  · exact convertRangeRows_keepsBounds (s := initialState user) hcones

lemma inequalityState_keepsBounds {user : UserProblem} (hcones : user.secondOrderConeDims = []) :
    KeepsBounds user.toLpProblem (inequalityState user).problem := by
  have hranged := rangedState_keepsBounds hcones
  rw [inequalityState_eq]
  split_ifs
  · exact hranged.trans convertGreaterToLess_keepsBounds
  · exact hranged

/-- The counters of the state and its senses, at rows without a range. -/
lemma rangedState_senses {user : UserProblem} (hwf : user.WellFormed) :
    Counted user.numRows (rangedState user).rowSense (rangedState user).lessRows
        (rangedState user).greaterRows ∧
      ∀ i, i ∉ user.rangeRows → (rangedState user).rowSense i = user.rowSense i := by
  rw [rangedState]
  split_ifs with hnil
  · exact ⟨⟨rfl, rfl⟩, fun _ _ => rfl⟩
  · constructor
    · exact foldl_convertRangeRow_counted (s := ⟨user.rhs, user.rowSense, _, _, _, []⟩)
        (fun p hp => hwf.range_lt p.1 (mem_map_of_mem hp)) ⟨rfl, rfl⟩
    · intro i hi
      have hsense := (foldl_convertRangeRow hwf.range_nodup ⟨user.rhs, user.rowSense,
        senseCount user.numRows user.rowSense .L, senseCount user.numRows user.rowSense .E,
        senseCount user.numRows user.rowSense .G, []⟩).2.1 i
      exact hsense.trans (if_neg hi)

lemma inequalityState_greater {user : UserProblem} (hwf : user.WellFormed) {i : ℕ}
    (hi : i < user.numRows) (hrange : i ∉ user.rangeRows) (hsense : user.rowSense i = .G)
    (hcones : user.secondOrderConeDims = []) :
    (inequalityState user).rowSense i = .L ∧ 0 < (inequalityState user).lessRows := by
  obtain ⟨⟨hless, hgreater⟩, hsenses⟩ := rangedState_senses hwf
  have hG : (rangedState user).rowSense i = .G := (hsenses i hrange).trans hsense
  have hpos : 0 < (rangedState user).greaterRows := by
    rw [hgreater]
    exact senseCount_pos.mpr ⟨i, hi, hG⟩
  have hrows : (rangedState user).problem.numRows = user.numRows :=
    (rangedState_keepsBounds hcones).numRows
  rw [inequalityState_eq, if_pos hpos]
  constructor
  · change (if (rangedState user).rowSense i = .G then RowSense.L else _) = _
    rw [if_pos hG]
  · change 0 < (rangedState user).lessRows +
      senseCount (rangedState user).problem.numRows (rangedState user).rowSense .G
    rw [hrows, hless]
    have hone := senseCount_pos.mpr ⟨i, hi, hG⟩
    have hnonneg := senseCount_nonneg user.numRows (rangedState user).rowSense .L
    omega

section Convert

variable {dualize : Dualization} {user : UserProblem} {settings : SimplexSolverSettings}
  {problem : LpProblem} {newSlacks : List ℕ}

lemma addArtificalVariables_eq {problem' : LpProblem} {rangeRows equalityRows newSlacks' : List ℕ}
    (hadd : addArtificalVariables problem rangeRows equalityRows newSlacks =
      some (problem', newSlacks')) :
    ∃ new, problem' =
      insertColumns problem problem.numCols new (fun _ => some 0) fun _ => some 0 := by
  unfold addArtificalVariables at hadd
  simp only [Option.ite_none_right_eq_some, Option.some.injEq, Prod.mk.injEq] at hadd
  exact ⟨_, hadd.2.1.symm⟩

/-- What follows the sign flips: slacks of the less rows, then artificial columns at the end. -/
lemma convertUserProblem_last (hdual : dualizes user settings (inequalityState user) = false)
    (hconvert : convertUserProblem dualize user settings = some (problem, newSlacks))
    {P : LpProblem → Prop}
    (hless : P (if 0 < (inequalityState user).lessRows then
      convertLessThanToEqual (inequalityState user) else inequalityState user).problem)
    (hinsert : ∀ problem new, P problem →
      P (insertColumns problem problem.numCols new (fun _ => some 0) fun _ => some 0)) :
    P problem := by
  rw [convertUserProblem_eq dualize hdual] at hconvert
  cases hpresolve : settings.barrierPresolve with
  | true =>
    rw [hpresolve, if_pos rfl] at hconvert
    cases hconvert
    exact hless
  | false =>
    rw [hpresolve, if_neg Bool.false_ne_true] at hconvert
    obtain ⟨new, rfl⟩ := addArtificalVariables_eq hconvert
    exact hinsert _ new hless

lemma convertUserProblem_keepsBounds (hcones : user.secondOrderConeDims = [])
    (hdual : dualizes user settings (inequalityState user) = false)
    (hconvert : convertUserProblem dualize user settings = some (problem, newSlacks)) :
    KeepsBounds user.toLpProblem problem := by
  have hstate := inequalityState_keepsBounds hcones
  apply convertUserProblem_last hdual hconvert
  · split_ifs
    · exact hstate.trans (convertLessThanToEqual_keepsBounds (hstate.cones.trans hcones))
    · exact hstate
  · intro problem new hkeeps
    exact hkeeps.trans (insertColumns_keepsBounds problem new _ _)

lemma convertUserProblem_openSlack (hwf : user.WellFormed)
    (hcones : user.secondOrderConeDims = [])
    (hdual : dualizes user settings (inequalityState user) = false)
    (hconvert : convertUserProblem dualize user settings = some (problem, newSlacks)) {i : ℕ}
    (hi : i < user.numRows) (hrange : i ∉ user.rangeRows) (hsense : user.rowSense i = .G) :
    ∃ c, user.numCols ≤ c ∧ OpenSlack problem i c := by
  have hstate := inequalityState_keepsBounds hcones
  obtain ⟨hL, hpos⟩ := inequalityState_greater hwf hi hrange hsense hcones
  apply convertUserProblem_last hdual hconvert
    (P := fun problem => ∃ c, user.numCols ≤ c ∧ OpenSlack problem i c)
  · rw [if_pos hpos]
    obtain ⟨c, hle, hopen⟩ := convertLessThanToEqual_openSlack (hstate.cones.trans hcones)
      (hstate.numRows.symm ▸ hi) hL
    exact ⟨c, hstate.numCols.trans hle, hopen⟩
  · rintro problem new ⟨c, hle, hopen⟩
    exact ⟨c, hle, insertColumns_openSlack new _ _ hopen⟩

end Convert

lemma clamp_inBounds {lower upper : Option ℚ} (v : ℚ)
    (hle : ∀ l ∈ lower, ∀ u ∈ upper, l ≤ u) : InBounds lower upper (clamp lower upper v) := by
  cases lower with
  | none =>
    cases upper with
    | none => exact ⟨fun l hl => (not_mem_none l hl).elim,
        fun u hu => (not_mem_none u hu).elim⟩
    | some u =>
      refine ⟨fun l hl => (not_mem_none l hl).elim, fun u' hu => ?_⟩
      cases hu
      exact min_le_right v u
  | some l =>
    cases upper with
    | none =>
      refine ⟨fun l' hl => ?_, fun u hu => (not_mem_none u hu).elim⟩
      cases hl
      exact le_max_left _ _
    | some u =>
      constructor
      · intro l' hl
        cases hl
        exact le_max_left _ _
      · intro u' hu
        cases hu
        exact max_le (hle l rfl u rfl) (min_le_right v u)

lemma exists_senseHolds (sense : RowSense) (rhs : ℚ) : ∃ v, UserProblem.SenseHolds sense rhs v := by
  cases sense with
  | L | G => exact ⟨rhs, le_rfl⟩
  | E => exact ⟨rhs, rfl⟩

lemma exists_rowHolds (user : UserProblem) (i : ℕ) : ∃ v, user.RowHolds i v := by
  unfold UserProblem.RowHolds
  cases user.ranges.lookup i with
  | none => exact exists_senseHolds _ _
  | some range =>
    refine ⟨user.rhs i, ?_⟩
    have habs := abs_nonneg range
    cases user.rowSense i with
    | L => exact ⟨by linarith, le_rfl⟩
    | G => exact ⟨le_rfl, by linarith⟩
    | E =>
      simp only [UserProblem.RangeHolds]
      split_ifs
      · exact ⟨le_rfl, by linarith⟩
      · exact ⟨by linarith, le_rfl⟩

namespace Lifted

variable {user : UserProblem} {problem : LpProblem} {newSlacks : List ℕ} {emb : ℕ → ℕ}
  {sgn : ℕ → ℚ} (h : Lifted user problem newSlacks emb sgn fun i v => v = problem.rhs i)
  (hemb : ∀ j < user.numCols, userColToProblemCol user problem j = emb j)

include h hemb

/-- A crushed point is within the bounds of the slacks, whether or not their rows hold. -/
lemma crush_inBounds {x : ℕ → ℚ}
    (hx : ∀ j < user.numCols, InBounds (user.lower j) (user.upper j) (x j)) :
    ∀ c < problem.numCols, InBounds (problem.lower c) (problem.upper c)
      (crushPrimalSolution user problem x newSlacks c) := by
  rw [h.bounds_iff]
  constructor
  · intro j hj
    rw [h.crush_user hemb x hj]
    exact hx j hj
  · intro c hc
    obtain ⟨i, alpha, -, -, -, hiff⟩ := h.slack c hc
    obtain ⟨v, hv⟩ := exists_rowHolds user i
    have hbounds := (hiff v).mp hv
    rw [crush_eq_updateAll, updateAll_of_mem _ h.slacks_nodup _ hc]
    exact clamp_inBounds _ fun l hl u hu => (hbounds.1 l hl).trans (hbounds.2 u hu)

lemma crush_rowValue {x : ℕ → ℚ} {i : ℕ} (hi : i < user.numRows)
    (hrow : user.RowHolds i (user.rowValue x i)) :
    problem.toProgram.rowValue (crushPrimalSolution user problem x newSlacks) i =
      problem.rhs i := by
  have hvalue : ∀ k, user.rowValue (fun j => crushPrimalSolution user problem x newSlacks (emb j)) k =
      user.rowValue x k :=
    fun k => UserProblem.rowValue_congr (fun j hj => h.crush_user hemb x hj) k
  by_cases hmem : i ∈ newSlacks.map problem.slackRow
  · obtain ⟨c, hc, rfl⟩ := mem_map.mp hmem
    rw [h.rowValue_eq_rhs_iff _ hc, h.crush_slack_of_row hemb hc hrow, closingSlack, closingSlack,
      hvalue]
  · rw [h.rowValue_eq _ i hi, h.slackSum_of_notMem _ hmem, hvalue, add_zero]
    exact (h.pending_iff i hi hmem _).mp hrow

end Lifted

end CuOpt.Simplex
