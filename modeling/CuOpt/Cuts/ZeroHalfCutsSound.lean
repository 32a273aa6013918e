import CuOpt.Cuts.LiftedCoverSound
import CuOpt.Cuts.MirLoopSound

/-! Every zero-half cut keeps every mixed-integer point as long as the columns of its aggregate and the
slacks of its rows are nonnegative once they are substituted. -/

namespace CuOpt.Cuts

open List hiding keys
open SparseList QuadProgram Sorting

lemma dot_zeroed_key (l : List (ℕ × ℚ)) (j : ℕ) (y : ℕ → ℚ) :
    dot (l.map fun r => if r.1 = j then (r.1, 0) else r) y =
      dot (l.filter fun r => decide (r.1 ≠ j)) y := by
  rw [dot, dot, sum_map_filter, map_map]
  refine congrArg sum (map_congr_left fun r _ => ?_)
  by_cases hr : r.1 = j
  · simp [hr]
  · simp [hr]

/-- Without its slack an equality is short by a positive multiple of the slack. -/
lemma slack_withoutSlack {j : ℕ} {c c' : Inequality} (hc : (keys c.vector).Nodup)
    (h : withoutSlack j c = some c') {y : ℕ → ℚ} (hy : c.slack y = 0) :
    ∃ w, 0 < w ∧ c'.slack y = w * y j := by
  have hsplit := dot_find_add_filter hc j y
  have hnegated := dot_find_add_filter (keys_negate c ▸ hc) j y
  unfold withoutSlack at h
  rw [Inequality.slack] at hy
  cases hfind : c.vector.find? fun q => decide (q.1 = j) with
  | none =>
    rw [hfind] at h
    cases h
  | some q =>
    rw [hfind] at h hsplit
    dsimp only at h
    split_ifs at h with hzero hpos
    · cases h
      refine ⟨q.2, hpos, ?_⟩
      have hfind' : (c.negate.vector.find? fun q => decide (q.1 = j)) = some (q.1, -q.2) := by
        rw [Inequality.negate, find?_map]
        exact (congrArg (Option.map fun q : ℕ × ℚ => (q.1, -q.2)) hfind)
      rw [hfind', dot_negate] at hnegated
      rw [Inequality.slack, MixedProblem.dot_squeeze, dot_zeroed_key]
      simp only [Option.elim_some, Inequality.negate] at hnegated ⊢
      linarith
    · cases h
      refine ⟨-q.2, neg_pos.mpr (lt_of_le_of_ne (not_lt.mp hpos) hzero), ?_⟩
      rw [Inequality.slack, MixedProblem.dot_squeeze, dot_zeroed_key]
      simp only [Option.elim_some] at hsplit
      linarith

namespace CutSetting

variable {lp : CutSetting} {xstar : ℕ → ℚ} {settings : ZeroHalfSettings} {x : ℕ → ℚ}

def substituted (lp : CutSetting) (xstar x : ℕ → ℚ) : ℕ → ℚ :=
  substitutedValue lp.varTypes (lp.substitution xstar true) x

variable {i : ℕ}

lemma columns_transformedRow (hi : i < lp.numRows) :
    lp.Columns (transformedRow lp.toLpProblem (lp.substitution xstar true) i) := by
  have hrow : lp.Columns ⟨lp.rows i, lp.rhs i⟩ := by
    intro j hj
    obtain ⟨q, hq, rfl⟩ := mem_map.mp hj
    exact lp.rows_lt i hi q hq
  intro j hj
  exact lt_of_mem_sortVector hrow.transform hj

/-- A row is an equality in the substituted columns as well. -/
lemma slack_transformedRow (hi : i < lp.numRows) (hx : x ∈ lp.points) :
    (transformedRow lp.toLpProblem (lp.substitution xstar true) i).slack
      (lp.substituted xstar x) = 0 := by
  have hrow : lp.Columns ⟨lp.rows i, lp.rhs i⟩ := by
    intro j hj
    obtain ⟨q, hq, rfl⟩ := mem_map.mp hj
    exact lp.rows_lt i hi q hq
  have hlt : ∀ p ∈ (transformInequality lp.varTypes (lp.substitution xstar true)
      ⟨lp.rows i, lp.rhs i⟩).vector, p.1 < lp.numCols :=
    fun p hp => hrow.transform p.1 (mem_map_of_mem hp)
  have hbounds : BoundsOnIntegers lp.varTypes (lp.substitution xstar true) := boundsOnIntegers
  have hslack := slack_transformInequality hbounds ⟨lp.rows i, lp.rhs i⟩ x
  rw [row_slack hx hi] at hslack
  rw [← hslack, transformedRow, Inequality.slack, Inequality.slack, substituted,
    dot_sortVector (keys_transformInequality_nodup _ _ _) hlt]

/-- What holds of a candidate: its columns, and what it is short of, a multiple of its row's slack. -/
structure CandidateHolds (lp : CutSetting) (xstar : ℕ → ℚ) (c : Mod2Candidate) : Prop where
  row_lt : c.row < lp.numRows
  columns : lp.Columns c.transformedInequality
  slack : ∃ j a, lp.slackMap c.row = some (j, a) ∧ ∀ x ∈ lp.points, ∃ w, 0 ≤ w ∧
    c.transformedInequality.slack (lp.substituted xstar x) = w * lp.substituted xstar x j

lemma mod2Candidate_holds (hi : i < lp.numRows) {c : Mod2Candidate}
    (h : mod2Candidate lp.toLpProblem (lp.substitution xstar true) settings i = some c) :
    lp.CandidateHolds xstar c := by
  unfold mod2Candidate at h
  obtain ⟨⟨j, a⟩, hslack, h⟩ := Option.bind_eq_some_iff.mp h
  dsimp only at h
  split_ifs at h
  split at h
  · cases h
  · next r hr =>
    split_ifs at h
    all_goals cases h
    all_goals
      have hnodup : (keys (transformedRow lp.toLpProblem (lp.substitution xstar true) i).vector).Nodup :=
        (sorted_keys_sortVector (keys_transformInequality_nodup _ _ _)).imp ne_of_lt
    all_goals
      have hcolumns : lp.Columns r :=
        fun j hj => columns_transformedRow hi j ((keys_withoutSlack hr).subset hj)
    · refine ⟨hi, fun j hj => hcolumns j (keys_scale _ r ▸ hj), j, a, hslack, fun x hx => ?_⟩
      obtain ⟨w, hw, heq⟩ := slack_withoutSlack hnodup hr (slack_transformedRow hi hx)
      refine ⟨(mod2IntegralScale lp.toLpProblem (lp.substitution xstar true) settings i r 1000 1 : ℚ) *
        w, mul_nonneg (Nat.cast_nonneg _) hw.le, ?_⟩
      rw [slack_scale, heq, mul_assoc]
    · refine ⟨hi, hcolumns, j, a, hslack, fun x hx => ?_⟩
      obtain ⟨w, hw, heq⟩ := slack_withoutSlack hnodup hr (slack_transformedRow hi hx)
      exact ⟨w, hw.le, heq⟩

lemma mod2CollectCandidates_hold {rows : List ℕ} (hrows : ∀ i ∈ rows, i < lp.numRows) :
    ∀ c ∈ mod2CollectCandidates lp.toLpProblem (lp.substitution xstar true) settings rows,
      lp.CandidateHolds xstar c := by
  induction rows with
  | nil => exact nofun
  | cons i rows ih =>
    intro c hc
    rw [mod2CollectCandidates] at hc
    split_ifs at hc
    · cases hc
    · rcases mem_append.mp hc with hc | hc
      · exact mod2Candidate_holds (hrows i mem_cons_self) (Option.mem_toList.mp hc)
      · exact ih (fun j hj => hrows j (mem_cons_of_mem i hj)) c hc

lemma slack_flatMap (used : List Mod2Candidate) (y : ℕ → ℚ) :
    Inequality.slack ⟨used.flatMap fun c => c.transformedInequality.vector,
      (used.map fun c => c.transformedInequality.rhs).sum⟩ y =
      (used.map fun c => c.transformedInequality.slack y).sum := by
  induction used with
  | nil => exact sub_zero _
  | cons c used ih =>
    rw [Inequality.slack] at ih ⊢
    rw [flatMap_cons, dot_append, map_cons, sum_cons, map_cons, sum_cons,
      ← ih, Inequality.slack]
    ring

variable {used : List Mod2Candidate}

lemma columns_halfSum (hused : ∀ c ∈ used, lp.CandidateHolds xstar c) :
    (∀ p ∈ gather (used.flatMap fun c => c.transformedInequality.vector), p.1 < lp.numCols) ∧
      lp.Columns (halfSum lp.toLpProblem used) := by
  have hgather : ∀ p ∈ gather (used.flatMap fun c => c.transformedInequality.vector),
      p.1 < lp.numCols := by
    intro p hp
    obtain ⟨q, hq, heq⟩ := mem_map.mp (mem_gather hp).1
    obtain ⟨c, hc, hqc⟩ := mem_flatMap.mp hq
    exact heq ▸ (hused c hc).columns q.1 (mem_map_of_mem hqc)
  refine ⟨hgather, fun j hj => ?_⟩
  rw [halfSum, keys_scale] at hj
  refine lt_of_mem_sortVector (fun i hi => ?_) hj
  obtain ⟨p, hp, rfl⟩ := mem_map.mp hi
  exact hgather p hp

lemma slack_halfSum (hused : ∀ c ∈ used, lp.CandidateHolds xstar c) (y : ℕ → ℚ) :
    (halfSum lp.toLpProblem used).slack y =
      1 / 2 * (used.map fun c => c.transformedInequality.slack y).sum := by
  rw [halfSum, slack_scale, ← slack_flatMap, Inequality.slack, Inequality.slack,
    dot_sortVector (keys_gather_nodup _) (columns_halfSum hused).1, dot_gather]

/-- What a cut needs: no column of its aggregate that is negative at a point is left as it is, and the
slacks of its rows are nonnegative once substituted, and zero where the aggregate is reversed. -/
structure AggregateFits (lp : CutSetting) (xstar : ℕ → ℚ) (added : ZeroHalfCut) : Prop where
  left : ∀ j ∈ keys added.aggregate.vector,
    (lp.substitution xstar true j).boundChanged = .unshifted → ∀ x ∈ lp.points, 0 ≤ x j
  slacks : ∀ i ∈ added.rows, ∀ j a, lp.slackMap i = some (j, a) → ∀ x ∈ lp.points,
    0 ≤ lp.substituted xstar x j ∧ (added.reversed = true → lp.substituted xstar x j = 0)

lemma aggregate_holds (hused : ∀ c ∈ used, lp.CandidateHolds xstar c) {reversed : Bool}
    (hslacks : ∀ i ∈ used.map Mod2Candidate.row, ∀ j a,
      lp.slackMap i = some (j, a) → ∀ x ∈ lp.points,
        0 ≤ lp.substituted xstar x j ∧ (reversed = true → lp.substituted xstar x j = 0))
    (hx : x ∈ lp.points) :
    0 ≤ (if reversed then (halfSum lp.toLpProblem used).negate
      else halfSum lp.toLpProblem used).slack (lp.substituted xstar x) := by
  have hterm : ∀ c ∈ used, 0 ≤ c.transformedInequality.slack (lp.substituted xstar x) ∧
      (reversed = true → c.transformedInequality.slack (lp.substituted xstar x) = 0) := by
    intro c hc
    obtain ⟨j, a, hslack, hmultiple⟩ := (hused c hc).slack
    obtain ⟨w, hw, heq⟩ := hmultiple x hx
    obtain ⟨hnonneg, hzero⟩ := hslacks c.row (mem_map_of_mem hc) j a hslack x hx
    refine ⟨heq ▸ mul_nonneg hw hnonneg, fun hreversed => ?_⟩
    rw [heq, hzero hreversed, mul_zero]
  have hsum : 0 ≤ (used.map fun c =>
      c.transformedInequality.slack (lp.substituted xstar x)).sum := by
    refine sum_nonneg fun v hv => ?_
    obtain ⟨c, hc, rfl⟩ := mem_map.mp hv
    exact (hterm c hc).1
  cases reversed with
  | false =>
    rw [if_neg Bool.false_ne_true, slack_halfSum hused]
    exact mul_nonneg (by norm_num) hsum
  | true =>
    have hzero : (used.map fun c =>
        c.transformedInequality.slack (lp.substituted xstar x)).sum = 0 := by
      refine sum_eq_zero fun v hv => ?_
      obtain ⟨c, hc, rfl⟩ := mem_map.mp hv
      exact (hterm c hc).2 rfl
    have hhalf := slack_halfSum hused (lp.substituted xstar x)
    rw [hzero, mul_zero, Inequality.slack] at hhalf
    rw [if_pos rfl, Inequality.slack, dot_negate, Inequality.negate]
    linarith

lemma valid_of_follows {c cut : Inequality} (hcolumns : lp.Columns c)
    (hleft : ∀ j ∈ keys c.vector,
      (lp.substitution xstar true j).boundChanged = .unshifted → ∀ x ∈ lp.points, 0 ≤ x j)
    (hholds : ∀ x ∈ lp.points, 0 ≤ c.slack (lp.substituted xstar x))
    (hfollows : Follows lp.varTypes (lp.substitution xstar true) c cut)
    (hkeys : ∀ j ∈ keys cut.vector, j ∈ keys c.vector) :
    lp.problem.Valid (restoreCut lp.toLpProblem (lp.substitution xstar true) cut) := by
  intro x hx
  have hfit := fitValues_of_left hx hcolumns fun j hj hshift => hleft j hj hshift x hx
  have hcut := hfollows _ hfit (hholds x hx)
  exact sub_nonneg.mp (hcut.trans (slack_restoreCut hx fun j hj => hcolumns j (hkeys j hj)))

lemma substitution_binary {j : ℕ} (h : lp.varTypes j = .binary) :
    (lp.substitution xstar true j).transformedUpper = none := by
  rw [substitution, boundSubstitution, h]

lemma mem_addTransformedZeroHalfCut {rows : List ℕ} {reversed : Bool} {aggregate : Inequality}
    {cut : Option Inequality} {added : ZeroHalfCut}
    (h : added ∈ addTransformedZeroHalfCut lp.toLpProblem (lp.substitution xstar true) settings xstar
      rows reversed aggregate cut) :
    ∃ found, cut = some found ∧ added = ⟨rows, reversed, aggregate,
      restoreCut lp.toLpProblem (lp.substitution xstar true) found⟩ := by
  obtain ⟨restored, hrestored, rfl⟩ := Option.map_eq_some_iff.mp (Option.mem_toList.mp h)
  obtain ⟨found, hfound, rfl⟩ := Option.map_eq_some_iff.mp (Option.filter_eq_some_iff.mp hrestored).1
  exact ⟨found, hfound, rfl⟩

variable {std : Sorter}

lemma mod2GenerateCutsFromAggregate_valid (htolerance : settings.coverTolerance = 0)
    (hused : ∀ c ∈ used, lp.CandidateHolds xstar c) (reversed : Bool) {n : ℕ} {added : ZeroHalfCut}
    (h : added ∈ mod2GenerateCutsFromAggregate lp.toLpProblem (lp.substitution xstar true) settings
      std xstar n (used.map Mod2Candidate.row) reversed
      (if reversed then (halfSum lp.toLpProblem used).negate else halfSum lp.toLpProblem used))
    (hfits : lp.AggregateFits xstar added) : lp.problem.Valid added.cut := by
  generalize haggregate : (if reversed then (halfSum lp.toLpProblem used).negate
    else halfSum lp.toLpProblem used) = aggregate at h
  have hcolumns : lp.Columns aggregate := by
    have hhalf := (columns_halfSum hused).2
    rw [← haggregate]
    split_ifs
    · intro j hj
      rw [keys_negate] at hj
      exact hhalf j hj
    · exact hhalf
  have hkept : ∀ found, Follows lp.varTypes (lp.substitution xstar true) aggregate found →
      (∀ j ∈ keys found.vector, j ∈ keys aggregate.vector) →
      added = ⟨used.map Mod2Candidate.row, reversed, aggregate,
        restoreCut lp.toLpProblem (lp.substitution xstar true) found⟩ →
      lp.problem.Valid added.cut := by
    intro found hfollows hkeys heq
    subst heq
    refine valid_of_follows hcolumns hfits.left (fun x hx => ?_) hfollows hkeys
    rw [← haggregate]
    exact aggregate_holds hused hfits.slacks hx
  have hrounded : ∀ found, generateCutNonnegative lp.varTypes aggregate = some found →
      Follows lp.varTypes (lp.substitution xstar true) aggregate found ∧
        ∀ j ∈ keys found.vector, j ∈ keys aggregate.vector := by
    intro found hfound
    refine ⟨fun y hy hc => generateCutNonnegative_sound hfound hy hc, fun j hj => ?_⟩
    exact keys_generateCutNonnegative hfound ▸ hj
  unfold mod2GenerateCutsFromAggregate at h
  dsimp only at h
  rw [htolerance] at h
  split_ifs at h
  · cases h
  · rw [append_nil] at h
    obtain ⟨found, hfound, heq⟩ := mem_addTransformedZeroHalfCut h
    obtain ⟨hfollows, hkeys⟩ := hrounded found hfound
    exact hkept found hfollows hkeys heq
  · rcases mem_append.mp h with h | h
    · obtain ⟨found, hfound, heq⟩ := mem_addTransformedZeroHalfCut h
      obtain ⟨hfollows, hkeys⟩ := hrounded found hfound
      exact hkept found hfollows hkeys heq
    · obtain ⟨found, hfound, heq⟩ := mem_addTransformedZeroHalfCut h
      cases hfound
  · rcases mem_append.mp h with h | h
    · obtain ⟨found, hfound, heq⟩ := mem_addTransformedZeroHalfCut h
      obtain ⟨hfollows, hkeys⟩ := hrounded found hfound
      exact hkept found hfollows hkeys heq
    · obtain ⟨found, hfound, heq⟩ := mem_addTransformedZeroHalfCut h
      obtain ⟨hfollows, hkeys⟩ :=
        generateLiftedMixedBinaryCover_follows (fun j => substitution_binary) hfound
      exact hkept found hfollows hkeys heq

lemma zeroHalfLoop_valid (htolerance : settings.coverTolerance = 0)
    {candidates : List Mod2Candidate} (hcandidates : ∀ c ∈ candidates, lp.CandidateHolds xstar c)
    (combinations : List (List ℕ)) (n : ℕ) :
    ∀ added ∈ zeroHalfLoop lp.toLpProblem (lp.substitution xstar true) settings std xstar candidates
      combinations n, lp.AggregateFits xstar added → lp.problem.Valid added.cut := by
  induction combinations generalizing n with
  | nil => exact nofun
  | cons combination rest ih =>
    intro added hadded hfits
    have hused : ∀ c ∈ combination.filterMap (candidates[·]?), lp.CandidateHolds xstar c := by
      intro c hc
      obtain ⟨k, -, hk⟩ := mem_filterMap.mp hc
      exact hcandidates c (mem_of_getElem? hk)
    rw [zeroHalfLoop] at hadded
    split_ifs at hadded
    · cases hadded
    · rcases mem_append.mp hadded with hadded | hadded
      · rcases mem_append.mp hadded with hadded | hadded
        · exact mod2GenerateCutsFromAggregate_valid htolerance hused false hadded hfits
        · split_ifs at hadded
          · exact mod2GenerateCutsFromAggregate_valid htolerance hused true hadded hfits
          · cases hadded
      · exact ih (n + 1) added hadded hfits

/-- Every zero-half cut and lifted mixed binary cover that is added keeps every mixed-integer point, as
long as its aggregate fits. -/
theorem generateMod2ZeroHalfCuts_valid (lp : CutSetting) (std : Sorter) (xstar : ℕ → ℚ)
    (settings : ZeroHalfSettings) (htolerance : settings.coverTolerance = 0) :
    ∀ added ∈ lp.generateMod2ZeroHalfCuts std xstar settings,
      lp.AggregateFits xstar added → lp.problem.Valid added.cut := by
  intro added hadded
  unfold generateMod2ZeroHalfCuts at hadded
  dsimp only at hadded
  split_ifs at hadded
  · cases hadded
  · split at hadded
    · cases hadded
    · refine zeroHalfLoop_valid htolerance ?_ _ 0 added hadded
      exact mod2CollectCandidates_hold fun i hi => mem_range.mp hi

end CutSetting

def exactZeroHalf : ZeroHalfSettings where
  rowTightTol := 0
  coefficientIntegralTol := 0
  coverTolerance := 0
  minViolation := 1 / 10 ^ 6
  limits := ⟨64, 1000, none, ⊤, fun _ => 0, fun _ => false⟩
  stopsEarly := false
  rowStops := fun _ => false
  scaleStops := fun _ _ => false
  combinationStops := fun _ => false
  reverseStops := fun _ => false
  aggregateStops := fun _ _ _ => false

/-- Half of `2 x_0 + x_1 >= 1` and its cut `x_0 / 2 + x_1 / 2 >= 1/2`. -/
def halfRowCut : ZeroHalfCut :=
  ⟨[0], false, ⟨[(0, 1), (1, 1 / 2)], 1 / 2⟩, ⟨[(0, 1 / 2), (1, 1 / 2)], 1 / 2⟩⟩

/-- With `x_1 >= 0` the cut holds. -/
theorem generateMod2ZeroHalfCuts_valid_nonneg :
    (oneRowSetting 2 1 (some 0)).problem.Valid halfRowCut.cut := by
  refine CutSetting.generateMod2ZeroHalfCuts_valid (oneRowSetting 2 1 (some 0)) insertionSorter atHalf
    exactZeroHalf rfl halfRowCut (by decide +kernel) ⟨fun j hj _ x hx => ?_, ?_⟩
  · have hj' : j = 0 ∨ j = 1 := by simpa [keys, halfRowCut] using hj
    rcases hj' with rfl | rfl
    · exact (hx.1.2 0 (by decide)).1 0 rfl
    · exact (hx.1.2 1 (by decide)).1 0 rfl
  · intro i hi j a hslack x hx
    cases mem_singleton.mp hi
    have hmap : (oneRowSetting 2 1 (some 0)).slackMap 0 = some (2, 1) := by decide +kernel
    cases hslack.symm.trans hmap
    have hvalue : (oneRowSetting 2 1 (some 0)).substituted atHalf x 2 = x 2 := by
      have hshift : ((oneRowSetting 2 1 (some 0)).substitution atHalf true 2).boundChanged =
          .unshifted := by decide +kernel
      rw [CutSetting.substituted, substitutedValue, hshift]
      rfl
    rw [hvalue]
    exact ⟨(hx.1.2 2 (by decide)).1 0 rfl, by rintro ⟨⟩⟩

/-- With `x_1` free the lower bound that the row gives it is zero at the point, the column is left as it
is, and the cut excludes `x_0 = 1`, `x_1 = -1`. -/
theorem generateMod2ZeroHalfCuts_not_valid :
    ¬∀ (lp : CutSetting) (std : Sorter) (xstar : ℕ → ℚ) (settings : ZeroHalfSettings),
      settings.rowTightTol = 0 → settings.coefficientIntegralTol = 0 → settings.coverTolerance = 0 →
      ∀ added ∈ lp.generateMod2ZeroHalfCuts std xstar settings, lp.problem.Valid added.cut := by
  intro h
  have hvalid := h (oneRowSetting 2 1 none) insertionSorter atHalf exactZeroHalf rfl rfl rfl halfRowCut
    (by decide +kernel)
  have hpoint : (fun j => if j = 0 then 1 else if j = 1 then -1 else 0 : ℕ → ℚ) ∈
      (oneRowSetting 2 1 none).points := by
    refine ⟨⟨fun i hi => ?_, fun j hj => ?_⟩, fun j hj hne => ?_⟩
    · simp [oneRowSetting, dot]
      norm_num
    · have hj' : j < 3 := hj
      interval_cases j
      all_goals simp [oneRowSetting, InBounds]
    · have hj' : j < 3 := hj
      interval_cases j
      · exact ⟨1, by simp⟩
      · exact absurd rfl hne
      · exact absurd rfl hne
  have hcut := hvalid _ hpoint
  norm_num [halfRowCut, dot] at hcut

end CuOpt.Cuts
