import CuOpt.Cuts.MirCutsSound

/-! The loop over rows: every inequality that is aggregated holds at the mixed-integer points, and so do
the cuts made from it where no column that can be negative is left as it is. -/

namespace CuOpt.Cuts

open List hiding keys keys_append
open SparseList QuadProgram Sorting
open Inequality (negate slack)

namespace CutSetting

variable {lp : CutSetting} {xstar : ℕ → ℚ} {prefer : Bool} {x : ℕ → ℚ} {c cut : Inequality}

structure BaseHolds (lp : CutSetting) (c : Inequality) : Prop where
  nodup : (keys c.vector).Nodup
  columns : lp.Columns c
  slack_nonneg : ∀ x ∈ lp.points, 0 ≤ c.slack x

lemma coeff_substituteEntry_zero (varTypes : ℕ → VariableType) (s : ℕ → ColumnSubstitution)
    {q : ℕ × ℚ} (hq : q.2 = 0) (j : ℕ) : coeff (substituteEntry varTypes s q).1 j = 0 := by
  unfold substituteEntry
  split_ifs
  · simp [hq]
  · cases (s q.1).boundChanged with
    | unshifted => simp [hq]
    | lower => cases (s q.1).lbVariable <;> simp [hq]
    | upper => cases (s q.1).ubVariable <;> simp [hq]

lemma substitutedCoefficient_squeeze (l : List (ℕ × ℚ)) (r : ℚ) (j : ℕ) :
    lp.substitutedCoefficient xstar prefer ⟨squeeze l, r⟩ j =
      lp.substitutedCoefficient xstar prefer ⟨l, r⟩ j := by
  rw [substitutedCoefficient, substitutedCoefficient, coeff_flatMap, coeff_flatMap, squeeze,
    sum_map_filter]
  refine congrArg sum (map_congr_left fun q _ => ?_)
  split_ifs with hq
  · rfl
  · exact (coeff_substituteEntry_zero _ _ (by simpa using hq) j).symm

lemma BaseHolds.squeeze (hc : lp.BaseHolds c) : lp.BaseHolds ⟨squeeze c.vector, c.rhs⟩ where
  nodup := hc.nodup.sublist (filter_sublist.map Prod.fst)
  columns := by
    intro j hj
    obtain ⟨r, hr, rfl⟩ := mem_map.mp hj
    exact hc.columns r.1 (mem_map_of_mem (mem_of_mem_filter hr))
  slack_nonneg := by
    intro x hx
    rw [slack_squeeze]
    exact hc.slack_nonneg x hx

lemma valid_of_heuristic (std : Sorter) {clock : ℕ → Bool} (hc : lp.BaseHolds c)
    (hleft : lp.LeftNonnegative xstar prefer c)
    (h : cutGenerationHeuristic lp.varTypes (lp.substitution xstar prefer)
      (fun j => (lp.substitution xstar prefer j).transformedXstar) std clock
      (transformInequality lp.varTypes (lp.substitution xstar prefer) ⟨squeeze c.vector, c.rhs⟩) =
        some cut) :
    lp.problem.Valid (restoreCut lp.toLpProblem (lp.substitution xstar prefer) cut) := by
  intro x hx
  have hsqueezed := hc.squeeze
  have hleft' : lp.LeftNonnegative xstar prefer ⟨squeeze c.vector, c.rhs⟩ := by
    intro j hj hne
    rw [substitutedCoefficient_squeeze] at hne
    exact hleft j hj hne
  obtain ⟨hfollows, hkeys⟩ :=
    cutGenerationHeuristic_follows (keys_transformInequality_nodup _ _ _) std h
  have hcolumns : lp.Columns cut := by
    intro j hj
    rw [hkeys] at hj
    exact hsqueezed.columns.transform j hj
  have hcut := hfollows _ (fitValues_transform hx hsqueezed.columns hleft')
    ((slack_transformInequality boundsOnIntegers _ x).symm ▸ hsqueezed.slack_nonneg x hx)
  exact sub_nonneg.mp (hcut.trans (slack_restoreCut hx hcolumns))

variable {i fuel j : ℕ}

lemma row_slack (hx : x ∈ lp.points) (hi : i < lp.numRows) :
    slack ⟨lp.rows i, lp.rhs i⟩ x = 0 := by
  rw [slack, hx.1.1 i hi, sub_self]

lemma BaseHolds.combineRows (hc : lp.BaseHolds c) (hi : i < lp.numRows) (xj : ℕ) :
    lp.BaseHolds (combineRows xj ⟨lp.rows i, lp.rhs i⟩ c).1 where
  nodup := by
    unfold CuOpt.Cuts.combineRows
    dsimp only
    split_ifs
    · exact hc.nodup
    · exact keys_gather_nodup _
  columns := by
    unfold CuOpt.Cuts.combineRows
    dsimp only
    split_ifs
    · exact hc.columns
    · intro j hj
      obtain ⟨r, hr, rfl⟩ := mem_map.mp hj
      have hkey := (mem_gather hr).1
      rw [keys_append] at hkey
      rcases mem_append.mp hkey with hkey | hkey
      · obtain ⟨q, hq, heq⟩ := mem_map.mp hkey
        exact heq ▸ hc.columns q.1 (mem_map_of_mem (mem_of_mem_filter hq))
      · obtain ⟨q', hq', heq⟩ := mem_map.mp hkey
        obtain ⟨q, hq, rfl⟩ := mem_map.mp hq'
        exact heq ▸ lp.rows_lt i hi q (mem_of_mem_filter hq)
  slack_nonneg := by
    intro x hx
    rw [slack_combineRows (lp.rows_nodup i hi) hc.nodup, row_slack hx hi, mul_zero, add_zero]
    exact hc.slack_nonneg x hx

variable {scores : ℕ → ℚ} {rows : List ℕ}

lemma maxScoreRow_mem {r : ℕ} (h : maxScoreRow scores rows = some r) : r ∈ rows := by
  unfold maxScoreRow at h
  induction rows using reverseRecOn generalizing r with
  | nil => cases h
  | append_singleton l a ih =>
    rw [foldl_concat] at h
    split at h
    · cases h
      exact mem_append_right l (mem_singleton_self _)
    · next b hb =>
      split_ifs at h
      · cases h
        exact mem_append_right l (mem_singleton_self _)
      · cases h
        exact mem_append_left _ (ih hb)

lemma BaseHolds.choosePivotRow (hc : lp.BaseHolds c) {xj : ℕ} {minAbs maxAbs : ℚ}
    (hrows : ∀ r ∈ rows, r < lp.numRows) {r : ℕ} {m : ℚ} {combined : Inequality}
    (h : choosePivotRow lp.toLpProblem scores xj c minAbs maxAbs fuel rows = some (r, m, combined))
    : lp.BaseHolds combined ∧ r < lp.numRows := by
  induction fuel generalizing rows with
  | zero => cases h
  | succ fuel ih =>
    rw [CuOpt.Cuts.choosePivotRow] at h
    split at h
    · cases h
    · next pivotRow hpivot =>
      have hlt := hrows pivotRow (maxScoreRow_mem hpivot)
      dsimp only at h
      split_ifs at h
      · exact ih (fun r hr => hrows r (mem_of_mem_filter hr)) h
      · cases h
        exact ⟨hc.combineRows hlt xj, hlt⟩

lemma foldl_best_mem {l : List (ℕ × ℚ)} {g : ℚ × Option ℕ → ℕ × ℚ → ℚ × Option ℕ}
    (hg : ∀ best q, g best q = best ∨ (g best q).2 = some q.1) {best : ℚ × Option ℕ}
    (h : (l.foldl g best).2 = some j) : best.2 = some j ∨ j ∈ keys l := by
  induction l generalizing best with
  | nil => exact .inl h
  | cons q l ih =>
    rw [foldl_cons] at h
    rcases ih h with hbest | hmem
    · rcases hg best q with heq | heq
      · exact .inl (heq ▸ hbest)
      · rw [heq] at hbest
        cases hbest
        exact .inr mem_cons_self
    · exact .inr (mem_cons_of_mem _ hmem)

lemma pivotColumn_mem {s : ℕ → ColumnSubstitution}
    (h : pivotColumn lp.toLpProblem s xstar c = some j) : j ∈ keys c.vector := by
  unfold pivotColumn at h
  dsimp only at h
  split_ifs at h
  have hmem := foldl_best_mem (fun best q => by split_ifs <;> simp) h
  rcases hmem with hnone | hmem
  · cases hnone
  · obtain ⟨q, hq, rfl⟩ := mem_map.mp hmem
    exact mem_map_of_mem (mem_of_mem_filter hq)

variable {std : Sorter} {settings : MirSettings}

/-- A cut of the loop is made from an inequality that holds; the aggregated rows are rows. -/
lemma BaseHolds.aggregateLoop {processed : ℕ} (hc : lp.BaseHolds c) {minAbs maxAbs : ℚ}
    {marks : List ℕ} (hrows : ∀ r ∈ rows, r < lp.numRows) {outcome : AggregateOutcome}
    {marks' rows' : List ℕ}
    (h : aggregateLoop lp.toLpProblem (lp.substitution xstar prefer) std xstar settings scores
      processed fuel c minAbs maxAbs marks rows = (outcome, marks', rows')) :
    (∀ r ∈ rows', r < lp.numRows) ∧ ∀ base cut, outcome = .added base cut →
      lp.LeftNonnegative xstar prefer base → lp.problem.Valid cut := by
  induction fuel generalizing c minAbs maxAbs marks rows with
  | zero =>
    cases h
    exact ⟨hrows, nofun⟩
  | succ fuel ih =>
    rw [CuOpt.Cuts.aggregateLoop] at h
    dsimp only at h
    split_ifs at h
    · cases h
      exact ⟨hrows, nofun⟩
    · split at h
      · next cut hcut =>
        cases h
        refine ⟨hrows, fun base cut hadded hleft => ?_⟩
        cases hadded
        obtain ⟨found, hfound, rfl⟩ := Option.map_eq_some_iff.mp (Option.filter_eq_some_iff.mp hcut).1
        exact valid_of_heuristic std hc hleft hfound
      · split at h
        · cases h
          exact ⟨hrows, nofun⟩
        · next xj hxj =>
          have hlt := hc.columns xj (pivotColumn_mem hxj)
          have hpotential : ∀ r ∈ ((lp.columns xj).filter fun p =>
              decide (1 / 10 ^ 4 < |p.2|) && decide (p.1 ∉ marks)).map Prod.fst,
              r < lp.numRows := by
            intro r hr
            obtain ⟨p, hp, rfl⟩ := mem_map.mp hr
            exact (lp.mem_rows xj hlt p (mem_of_mem_filter hp)).1
          split at h
          · cases h
            exact ⟨hrows, nofun⟩
          · next pivotRow multiplier combined hpivot =>
            obtain ⟨hcombined, hpivotLt⟩ := hc.choosePivotRow hpotential hpivot
            refine ih hcombined (fun r hr => ?_) h
            rcases mem_append.mp hr with hr | hr
            · exact hrows r hr
            · exact mem_singleton.mp hr ▸ hpivotLt

lemma slackMap_of_find {aj : ℚ} (hi : i < lp.numRows)
    (h : (lp.rows i).find? (fun q => lp.isSlack i q.1) = some (j, aj)) :
    lp.slackMap i = some (j, aj) ∧ j ∈ lp.newSlacks ∧ lp.columns j = [(i, aj)] := by
  have hslack := find?_some h
  have hmem := mem_of_find?_eq_some h
  obtain ⟨s, hs, hsj⟩ := (Option.any_eq_true _ _).mp hslack
  have hsj' : s.1 = j := of_decide_eq_true hsj
  have hvalue : s.2 = aj := by
    have hentry := coeff_of_mem (lp.rows_nodup i hi) (SlackForm.slack_mem_rows hs)
    rw [← hentry, hsj']
    exact coeff_of_mem (lp.rows_nodup i hi) hmem
  have heq : s = (j, aj) := Prod.ext hsj' hvalue
  subst heq
  obtain ⟨hnew, hcolumn⟩ := LpProblem.slackMap_mem hs
  obtain ⟨i', α, hsingle, -⟩ := lp.slack_column j hnew
  rw [hsingle] at hcolumn ⊢
  exact ⟨hs, hnew, (mem_singleton.mp hcolumn) ▸ rfl⟩

lemma slackMap_eq_none (h : (lp.rows i).find? (fun q => lp.isSlack i q.1) = none) :
    lp.slackMap i = none := by
  cases hs : lp.slackMap i with
  | none => rfl
  | some s =>
    have hnot := find?_eq_none.mp h s (SlackForm.slack_mem_rows hs)
    simp [LpProblem.isSlack, hs] at hnot

lemma dot_zeroed (hx : x ∈ lp.points) (hi : i < lp.numRows) :
    dot ((lp.rows i).map fun q => if lp.isSlack i q.1 then (q.1, 0) else q) x =
      lp.rhs i - lp.slackTerm x i := by
  have hrow := SlackForm.rhs_eq hx.1 hi
  rw [hrow, add_sub_cancel_left, LpProblem.rowWithoutSlack, sum_map_filter, dot, map_map]
  refine congrArg sum (map_congr_left fun q _ => ?_)
  cases hq : lp.isSlack i q.1 with
  | true => simp [hq]
  | false => simp [hq, SlackForm.term]

lemma BaseHolds.rowWithoutSlackTerm (hi : i < lp.numRows)
    (h : rowWithoutSlackTerm lp.toLpProblem i = some c) : lp.BaseHolds c := by
  have hkeys : keys ((lp.rows i).map fun q => if lp.isSlack i q.1 then (q.1, (0 : ℚ)) else q) =
      keys (lp.rows i) := by
    rw [keys, keys, map_map]
    refine map_congr_left fun q _ => ?_
    simp only [Function.comp_apply]
    split_ifs <;> rfl
  have hcolumns : ∀ j ∈ keys (lp.rows i), j < lp.numCols := by
    intro j hj
    obtain ⟨q, hq, rfl⟩ := mem_map.mp hj
    exact lp.rows_lt i hi q hq
  have hnegate : (∀ x ∈ lp.points, 0 ≤ lp.slackTerm x i) → lp.BaseHolds (negate
      ⟨(lp.rows i).map fun q => if lp.isSlack i q.1 then (q.1, 0) else q, lp.rhs i⟩) := by
    intro hnonneg
    have hsame : ∀ c : Inequality, keys c.negate.vector = keys c.vector := by
      intro c
      rw [negate, keys, map_map]
      rfl
    refine ⟨?_, ?_, fun x hx => ?_⟩
    · rw [hsame, hkeys]
      exact lp.rows_nodup i hi
    · intro j hj
      rw [hsame, hkeys] at hj
      exact hcolumns j hj
    · rw [slack, dot_negate, dot_zeroed hx hi, negate]
      linarith [hnonneg x hx]
  unfold CuOpt.Cuts.rowWithoutSlackTerm at h
  dsimp only at h
  split at h
  · next hfind =>
    cases h
    refine hnegate fun x _ => ?_
    rw [SlackForm.slackTerm, slackMap_eq_none hfind]
    exact le_rfl
  · next j aj hfind =>
    obtain ⟨hmap, hnew, hcolumn⟩ := slackMap_of_find hi hfind
    have hj := lp.slack_lt j hnew
    split_ifs at h with hone hminus
    · cases h
      refine hnegate fun x hx => ?_
      subst hone
      obtain ⟨l, hl, hl0⟩ := lp.slack_nonneg j hnew i hcolumn
      rw [SlackForm.slackTerm, hmap, Option.elim_some, one_mul]
      exact hl0.trans ((hx.1.2 j hj).1 l hl)
    · cases h
      obtain ⟨rfl, hlower⟩ := hminus
      obtain ⟨l, hl, hl0⟩ := (Option.any_eq_true _ _).mp hlower
      refine ⟨hkeys ▸ lp.rows_nodup i hi, fun j hj => hcolumns j (hkeys ▸ hj), fun x hx => ?_⟩
      have hnonneg := (of_decide_eq_true hl0).trans ((hx.1.2 j hj).1 l hl)
      rw [slack, dot_zeroed hx hi, SlackForm.slackTerm, hmap, Option.elim_some]
      linarith

variable (settings) in
theorem strongCgOfRow_valid (hi : i < lp.numRows) {marks : ℕ → BoundShift}
    (hmarks : lp.problem.Marked xstar marks) :
    lp.problem.Marked xstar
        (strongCgOfRow lp.toLpProblem xstar settings i marks lp.problem.toMixedProblem).1 ∧
      ∀ cut, (strongCgOfRow lp.toLpProblem xstar settings i marks lp.problem.toMixedProblem).2 =
        some cut → lp.problem.Valid cut := by
  have hrow : lp.problem.BaseHolds ⟨lp.rows i, lp.rhs i⟩ :=
    ⟨lp.rows_lt i hi, fun x hx => (hx.1.1 i hi).le, fun x hx => .inr (hx.1.1 i hi)⟩
  have hnegated : lp.problem.BaseHolds (negate ⟨lp.rows i, lp.rhs i⟩) := by
    have heq : ∀ x ∈ lp.points, dot (negate ⟨lp.rows i, lp.rhs i⟩).vector x =
        (negate ⟨lp.rows i, lp.rhs i⟩).rhs := by
      intro x hx
      rw [dot_negate, hx.1.1 i hi]
      rfl
    refine ⟨fun q hq => ?_, fun x hx => (heq x hx).le, fun x hx => .inr (heq x hx)⟩
    obtain ⟨r, hr, rfl⟩ := mem_map.mp hq
    exact lp.rows_lt i hi r hr
  unfold strongCgOfRow
  dsimp only
  split_ifs
  · exact RoundedProblem.generateStrongCgCut_valid hnegated hmarks
  · exact RoundedProblem.generateStrongCgCut_valid hrow hmarks
  · exact ⟨hmarks, fun cut hcut => nomatch hcut⟩

structure StateHolds (lp : CutSetting) (xstar : ℕ → ℚ) (st : MirState) : Prop where
  queue : ∀ p ∈ st.scoreQueue, p.2 < lp.numRows
  rows : ∀ r ∈ st.aggregatedRows, r < lp.numRows
  marked : lp.problem.Marked xstar st.cgMarks

variable {st : MirState}

lemma StateHolds.nextRow {st' : MirState} (hst : lp.StateHolds xstar st) {score : ℚ}
    (h : nextRow settings fuel st = some (i, score, st')) :
    lp.StateHolds xstar st' ∧ i < lp.numRows := by
  induction fuel generalizing st with
  | zero => cases h
  | succ fuel ih =>
    rw [CuOpt.Cuts.nextRow] at h
    split_ifs at h
    split at h
    · cases h
    · next top row rest hpop =>
      have hperm := popTop_perm _ hpop
      have hrest : ∀ p ∈ rest, p.2 < lp.numRows := fun p hp =>
        hst.queue p (hperm.mem_iff.mpr (mem_cons_of_mem _ hp))
      have hpopped : lp.StateHolds xstar { st with scoreQueue := rest, pops := st.pops + 1 } :=
        ⟨hrest, hst.rows, hst.marked⟩
      dsimp only at h
      split_ifs at h
      · exact ih hpopped h
      · cases h
        exact ⟨hpopped, hst.queue _ (hperm.mem_iff.mpr mem_cons_self)⟩

lemma StateHolds.finishRow (hst : lp.StateHolds xstar st) (addCut : Bool) (hi : i < lp.numRows) :
    lp.StateHolds xstar (finishRow addCut i st) := by
  have hlowered : ∀ (l : List ℕ) (st : MirState), lp.StateHolds xstar st →
      (∀ r ∈ l, r < lp.numRows) → lp.StateHolds xstar (l.foldl
        (fun st row =>
          let score := 99 / 100 * st.scores row
          { st with scores := Function.update st.scores row score
                    scoreQueue := (score, row) :: st.scoreQueue })
        st) := by
    intro l
    induction l with
    | nil => exact fun st hst _ => hst
    | cons r l ih =>
      intro st hst hl
      refine ih _ ⟨fun p hp => ?_, hst.rows, hst.marked⟩ fun r' hr' =>
        hl r' (mem_cons_of_mem r hr')
      rcases mem_cons.mp hp with rfl | hp
      · exact hl r mem_cons_self
      · exact hst.queue p hp
  have hpushed : ∀ st : MirState, lp.StateHolds xstar st → lp.StateHolds xstar
      { st with
        aggregatedMark := st.aggregatedMark.filter fun row => decide (row ∉ st.aggregatedRows)
        aggregatedRows := []
        scores := Function.update st.scores i 0
        scoreQueue := (0, i) :: st.scoreQueue } := by
    intro st hst
    refine ⟨fun p hp => ?_, nofun, hst.marked⟩
    rcases mem_cons.mp hp with rfl | hp
    · exact hi
    · exact hst.queue p hp
  unfold CuOpt.Cuts.finishRow
  dsimp only
  split_ifs
  · exact hpushed _ (hlowered _ _ hst hst.rows)
  · exact hpushed _ hst

def RoundsNonnegative (lp : CutSetting) (xstar : ℕ → ℚ) : AddedCut → Prop
  | .strongCg _ => True
  | .mir base _ => lp.LeftNonnegative xstar false base

lemma mirLoop_sound (hst : lp.StateHolds xstar st) :
    ∀ added ∈ mirLoop lp.toLpProblem (lp.substitution xstar false) std xstar settings
      lp.problem.toMixedProblem fuel st, lp.RoundsNonnegative xstar added → lp.problem.Valid added.cut := by
  induction fuel generalizing st with
  | zero => exact nofun
  | succ fuel ih =>
    intro added hadded hround
    rw [mirLoop] at hadded
    split at hadded
    · cases hadded
    · next i maxScore st₁ hnext =>
      obtain ⟨hst₁, hi⟩ := hst.nextRow hnext
      obtain ⟨hmarked, hcg⟩ := strongCgOfRow_valid settings hi hst₁.marked
      have hrows : ∀ r ∈ st₁.aggregatedRows ++ [i], r < lp.numRows := by
        intro r hr
        rcases mem_append.mp hr with hr | hr
        · exact hst₁.rows r hr
        · exact mem_singleton.mp hr ▸ hi
      dsimp only at hadded
      split_ifs at hadded with hscore hwork hmir
      · cases hadded
      · cases hadded
      · rcases mem_append.mp hadded with hadded | hadded
        · obtain ⟨cut, hcut, rfl⟩ := Option.map_eq_some_iff.mp (Option.mem_toList.mp hadded)
          exact hcg cut hcut
        · split at hadded
          · refine ih ?_ added hadded hround
            exact ⟨hst₁.queue, hrows, hmarked⟩
          · next c hc =>
            have hbase := BaseHolds.rowWithoutSlackTerm hi hc
            split at hadded
            · cases hadded
            · next marks rows houtcome =>
              obtain ⟨hrows', -⟩ := hbase.aggregateLoop hrows houtcome
              refine ih (StateHolds.finishRow ?_ false hi) added hadded hround
              exact ⟨hst₁.queue, hrows', hmarked⟩
            · next base cut marks rows houtcome =>
              obtain ⟨hrows', hcut⟩ := hbase.aggregateLoop hrows houtcome
              rcases mem_cons.mp hadded with rfl | hadded
              · exact hcut base cut rfl hround
              · refine ih (StateHolds.finishRow ?_ true hi) added hadded hround
                exact ⟨hst₁.queue, hrows', hmarked⟩
      · rcases mem_append.mp hadded with hadded | hadded
        · obtain ⟨cut, hcut, rfl⟩ := Option.map_eq_some_iff.mp (Option.mem_toList.mp hadded)
          exact hcg cut hcut
        · refine ih ?_ added hadded hround
          exact ⟨hst₁.queue, hrows, hmarked⟩

/-- Every cut that is added keeps every mixed-integer point, a rounding cut as long as no column that is
negative at a point is left as it is in the inequality that it is made from. -/
theorem generateMirCuts_valid (lp : CutSetting) (std : Sorter) (xstar scores : ℕ → ℚ)
    (settings : MirSettings) : ∀ added ∈ lp.generateMirCuts std xstar scores settings,
      lp.RoundsNonnegative xstar added → lp.problem.Valid added.cut := by
  refine mirLoop_sound ⟨fun p hp => ?_, nofun, fun j _ => rfl⟩
  obtain ⟨i, hi, rfl⟩ := mem_map.mp hp
  exact mem_range.mp hi

end CutSetting

lemma two_lt_three : ∀ j ∈ [2], j < 3 := by decide

/-- An integer `x_0` in `[0, 10]` and a continuous `x_1` with `a x_0 + x_1 - x_2 = b` for a slack `x_2`. -/
def oneRowSetting (a b : ℚ) (lower₁ : Option ℚ) : CutSetting where
  numRows := 1
  numCols := 3
  columns := fun j => if j = 2 then [(0, 1)] else if j = 1 then [(0, -1)] else [(0, -a)]
  rows := fun _ => [(0, -a), (1, -1), (2, 1)]
  rhs := fun _ => -b
  lower := fun j => if j = 1 then lower₁ else some 0
  upper := fun j => if j = 0 then some 10 else none
  varTypes := fun j => if j = 0 then .integer else .continuous
  newSlacks := [2]
  rows_nodup := by
    intro i _
    show [0, 1, 2].Nodup
    decide
  rows_lt := by
    intro i _ q hq
    simp only [mem_cons, not_mem_nil, or_false] at hq
    rcases hq with rfl | rfl | rfl
    all_goals norm_num
  mem_rows := by
    intro j hj p hp
    interval_cases j
    all_goals cases mem_singleton.mp hp
    all_goals simp
  slack_lt := two_lt_three
  slack_continuous := by decide
  lower_integral := by
    intro j hj hne l hl
    interval_cases j
    · exact ⟨0, (Option.some_injective _ hl).symm⟩
    · exact absurd rfl hne
    · exact absurd rfl hne
  upper_integral := by
    intro j hj hne u hu
    interval_cases j
    · exact ⟨10, (Option.some_injective _ hu).symm⟩
    · exact absurd rfl hne
    · exact absurd rfl hne
  slack_column := by
    intro j hj
    cases mem_singleton.mp hj
    exact ⟨0, 1, rfl, .inl rfl⟩
  slack_nonneg := by
    intro j hj i _
    cases mem_singleton.mp hj
    exact ⟨0, rfl, le_rfl⟩
  bounds := ⟨fun j => if j = 1 then [⟨0, -a, b⟩] else [], fun _ => []⟩
  lower_var := by
    intro j b hb
    dsimp only at hb
    split_ifs at hb
    · cases mem_singleton.mp hb
      exact ⟨by norm_num, by simp⟩
    · cases hb
  upper_var := by
    intro j b hb
    cases hb
  lower_hold := by
    intro x hx j hj b hb
    dsimp only at hb
    split_ifs at hb with h
    · subst h
      cases mem_singleton.mp hb
      have hrow := hx.1.1 0 one_pos
      have hslack := (hx.1.2 2 (Nat.lt_add_one 2)).1 0 rfl
      simp only [dot, map_cons, map_nil, sum_cons, sum_nil] at hrow
      rw [AffineBound.value]
      linarith
    · cases hb
  upper_hold := by
    intro x hx j hj b hb
    cases hb

def roundingOnly : MirSettings where
  strongChvatalGomoryCuts := false
  mirCuts := true
  rowTimeUp := fun _ => false
  workUp := fun _ => false
  searchTimeUp := fun _ _ _ => false
  returnTimeUp := fun _ _ => false

def atHalf (j : ℕ) : ℚ := if j = 0 then 1 / 2 else 0

/-- The row `x_0 + x_1 >= 1/2` and its cut `x_0 / 2 + x_1 >= 1/2`. -/
def halfCut : AddedCut := .mir ⟨[(0, 1), (1, 1), (2, 0)], 1 / 2⟩ ⟨[(0, 1 / 2), (1, 1)], 1 / 2⟩

/-- With `x_1 >= 0` the cut holds. -/
theorem generateMirCuts_valid_nonneg :
    (oneRowSetting 1 (1 / 2) (some 0)).problem.Valid halfCut.cut := by
  refine CutSetting.generateMirCuts_valid (oneRowSetting 1 (1 / 2) (some 0)) insertionSorter atHalf
    (fun _ => 1) roundingOnly halfCut ?_ fun j _ hne x hx => ?_
  · decide +kernel
  · have hentries : [(0, 1), (1, 1), (2, (0 : ℚ))].flatMap (fun q =>
        (substituteEntry (oneRowSetting 1 (1 / 2) (some 0)).varTypes
          ((oneRowSetting 1 (1 / 2) (some 0)).substitution atHalf false) q).1) =
        [(0, 1), (1, 1), (2, 0)] := by
      decide +kernel
    rw [CutSetting.substitutedCoefficient, hentries] at hne
    have hj : j < 3 := by
      by_contra hj
      refine hne (coeff_eq_zero fun hmem => hj ?_)
      have hmem' : j = 0 ∨ j = 1 ∨ j = 2 := by simpa [keys] using hmem
      omega
    have hlower : (oneRowSetting 1 (1 / 2) (some 0)).lower j = some 0 := by
      interval_cases j
      all_goals rfl
    exact (hx.1.2 j hj).1 0 hlower

/-- With `x_1` free the lower bound that the row gives it is zero at the point, the column is left as it
is, and the cut excludes `x_0 = 1`, `x_1 = -1/2`. -/
theorem generateMirCuts_not_valid :
    ¬∀ (lp : CutSetting) (std : Sorter) (xstar scores : ℕ → ℚ) (settings : MirSettings),
      ∀ added ∈ lp.generateMirCuts std xstar scores settings, lp.problem.Valid added.cut := by
  intro h
  have hvalid := h (oneRowSetting 1 (1 / 2) none) insertionSorter atHalf (fun _ => 1) roundingOnly
    halfCut (by decide +kernel)
  have hpoint : (fun j => if j = 0 then 1 else if j = 1 then -1 / 2 else 0 : ℕ → ℚ) ∈
      (oneRowSetting 1 (1 / 2) none).points := by
    refine ⟨⟨fun i hi => ?_, fun j hj => ?_⟩, fun j hj hne => ?_⟩
    · simp [oneRowSetting, dot]
      norm_num
    · have hj' : j < 3 := hj
      interval_cases j
      all_goals simp [oneRowSetting, InBounds]
    · have hj' : j < 3 := hj
      interval_cases j
      · exact ⟨1, by simp⟩
      · exact absurd rfl hne
      · exact absurd rfl hne
  have hcut := hvalid _ hpoint
  norm_num [halfCut, AddedCut.cut, dot] at hcut

end CuOpt.Cuts
