import CuOpt.Simplex.FoldingSound

/-! The coloring of the augmented matrix, its one infinite entry as infinity, is the coarsest
equitable one. -/

namespace CuOpt.Simplex

open ColorRefinement

variable {problem : LpProblem} {side : Side} {lines : Finset ℕ} {v w : ℕ}

/-- The weights with a count of the infinite entry. -/
def cornerWeight (problem : LpProblem) (side : Side) (u v : ℕ) : ℚ × ℚ :=
  (augmentedWeight problem side u v,
    if u = corner problem side ∧ v = corner problem side.other then 1 else 0)

lemma sum_cornerWeight : ∑ u ∈ lines, cornerWeight problem side u v =
    (∑ u ∈ lines, augmentedWeight problem side u v,
      if corner problem side ∈ lines ∧ v = corner problem side.other then 1 else 0) := by
  refine Prod.ext Prod.fst_sum (Prod.snd_sum.trans ?_)
  by_cases hv : v = corner problem side.other
  · simp [cornerWeight, hv]
  · simp [cornerWeight, hv]

lemma sum_lineSum_eq_iff (hlines : lines ⊆ Finset.range ((augmented problem).size side))
    (hv : v < (augmented problem).size side.other) (hw : w < (augmented problem).size side.other) :
    ∑ u ∈ lines, lineSum ((augmented problem).line side u) v =
        ∑ u ∈ lines, lineSum ((augmented problem).line side u) w ↔
      ∑ u ∈ lines, cornerWeight problem side u v = ∑ u ∈ lines, cornerWeight problem side u w := by
  by_cases hvw : v = w
  · rw [hvw]
    exact iff_of_true rfl rfl
  rw [sum_lineSum_augmented hlines hv, sum_lineSum_augmented hlines hw, sum_cornerWeight,
    sum_cornerWeight, Prod.mk.injEq]
  split_ifs with hvc hwc
  · exact absurd (hvc.2.trans hwc.2.symm) hvw
  · exact iff_of_false WithTop.top_ne_coe fun h => one_ne_zero h.2
  · exact iff_of_false WithTop.coe_ne_top fun h => zero_ne_one h.2
  · rw [WithTop.coe_inj, and_iff_left rfl]

/-- On success the colors partition the rows and the columns as their vertex lists say, lines of one
color have equal sums over every color of the other side, and every coloring with this property is
finer; and the coloring fails only for a threshold. -/
theorem colorGraph_coarsest (hwf : problem.WellFormed) (order : IterationOrder)
    (thresholds : ColorThresholds) :
    (∀ state, colorGraph (augmented problem) order thresholds = some state →
      Colored (augmented problem).size state ∧ Equitable (augmented problem) state.colorMap ∧
        ∀ P, Equitable (augmented problem) P → Refines (augmented problem).size P state) ∧
      (colorGraph (augmented problem) order thresholds = none →
        thresholds.row < colorLowerBound (augmented problem) .row ∨
          thresholds.col < colorLowerBound (augmented problem) .col ∨
            ∃ stop, Relation.ReflTransGen (Round (augmented problem) order)
                (initialColoring (augmented problem)) stop ∧
              withinThresholds (augmented problem) thresholds stop = false) := by
  have htracks : TracksWeight (augmented problem) (cornerWeight problem) :=
    fun side lines hlines v hv w hw heq => (sum_lineSum_eq_iff hlines hv hw).mp heq
  have hm : 0 < (augmented problem).m := Nat.lt_of_lt_of_le (Nat.succ_pos _) (Nat.le_add_right _ _)
  rcases colorGraph_cases order thresholds (augmented_inRange hwf) htracks hm (Nat.succ_pos _) with
    ⟨state, heq, hcolored, hstable, hcoarsest⟩ | ⟨heq, hstop⟩
  · refine ⟨fun state' h => ?_, fun hnone => by rw [heq] at hnone; cases hnone⟩
    cases heq.symm.trans h
    refine ⟨hcolored, fun side c v hv w hw hcolor => ?_, hcoarsest⟩
    by_cases hc : c < state.totalColorsSeen ∧ (state.colors c).side = side
    · obtain ⟨hc, rfl⟩ := hc
      rw [← hcolored.vertices_eq hc]
      exact (sum_lineSum_eq_iff (hcolored.vertices_subset hc) hv hw).mpr
        (hstable c hc v (Finset.mem_range.mpr hv) w (Finset.mem_range.mpr hw) hcolor)
    · -- no line of this side has the color
      have hempty : classOf (Finset.range ((augmented problem).size side)) (state.colorMap side) {c} =
          ∅ := by
        refine Finset.filter_eq_empty_iff.mpr fun u hu hmap => hc ?_
        rw [← Finset.mem_singleton.mp hmap]
        exact hcolored.mapped side u (Finset.mem_range.mp hu)
      rw [hempty, Finset.sum_empty, Finset.sum_empty]
  · refine ⟨fun state h => ?_, fun _ => hstop⟩
    rw [heq] at h
    cases h

theorem colorGraph_coarsest_boxedRows : ∃ state,
    colorGraph (augmented boxedRows) ascendingOrder ⟨7, 10⟩ = some state ∧
      Colored (augmented boxedRows).size state ∧ Equitable (augmented boxedRows) state.colorMap ∧
        ∀ P, Equitable (augmented boxedRows) P → Refines (augmented boxedRows).size P state := by
  obtain ⟨state, h⟩ := Option.isSome_iff_exists.mp
    (by decide +kernel : (colorGraph (augmented boxedRows) ascendingOrder ⟨7, 10⟩).isSome)
  exact ⟨state, h, (colorGraph_coarsest boxedRows_wellFormed ascendingOrder ⟨7, 10⟩).1 state h⟩

end CuOpt.Simplex
