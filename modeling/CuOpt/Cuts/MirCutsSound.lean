import CuOpt.Cuts.MirSearchSound
import CuOpt.Cuts.RowCombination

/-! What a cut in the substituted columns is once it is back in the structural ones: no stronger, at every
mixed-integer point; and when the substituted columns of a point are nonnegative. -/

namespace CuOpt.Cuts

open SparseList QuadProgram Sorting List

namespace CutSetting

variable {lp : CutSetting} {xstar : ℕ → ℚ} {prefer : Bool} {x : ℕ → ℚ} {c cut : Inequality}

def substitutedCoefficient (lp : CutSetting) (xstar : ℕ → ℚ) (prefer : Bool) (c : Inequality)
    (j : ℕ) : ℚ :=
  coeff (c.vector.flatMap fun q => (substituteEntry lp.varTypes (lp.substitution xstar prefer) q).1) j

/-- No column that is negative at a point is left as it is with a coefficient that is not zero. -/
def LeftNonnegative (lp : CutSetting) (xstar : ℕ → ℚ) (prefer : Bool) (c : Inequality) : Prop :=
  ∀ j, (lp.substitution xstar prefer j).boundChanged = .unshifted →
    lp.substitutedCoefficient xstar prefer c j ≠ 0 → ∀ x ∈ lp.points, 0 ≤ x j

def Columns (lp : CutSetting) (c : Inequality) : Prop := ∀ j ∈ keys c.vector, j < lp.numCols

lemma lt_of_mem_substituteEntry {q r : ℕ × ℚ} (hq : q.1 < lp.numCols)
    (hr : r ∈ (substituteEntry lp.varTypes (lp.substitution xstar prefer) q).1) :
    r.1 < lp.numCols := by
  have hvar : ∀ b, (lp.substitution xstar prefer q.1).lbVariable = some b ∨
      (lp.substitution xstar prefer q.1).ubVariable = some b → b.var < lp.numCols := by
    intro b hb
    rcases hb with hb | hb
    · exact (lp.lower_var q.1 b ((mem_bounds xstar prefer q.1).1 b hb)).1
    · exact (lp.upper_var q.1 b ((mem_bounds xstar prefer q.1).2 b hb)).1
  unfold substituteEntry at hr
  split_ifs at hr
  · rw [mem_singleton.mp hr]
    exact hq
  · split at hr
    · rw [mem_singleton.mp hr]
      exact hq
    · split at hr
      · rw [mem_singleton.mp hr]
        exact hq
      · next b hb =>
        rcases mem_cons.mp hr with rfl | hr
        · exact hq
        · rw [mem_singleton.mp hr]
          exact hvar b (.inl hb)
    · split at hr
      · rw [mem_singleton.mp hr]
        exact hq
      · next b hb =>
        rcases mem_cons.mp hr with rfl | hr
        · exact hq
        · rw [mem_singleton.mp hr]
          exact hvar b (.inr hb)

lemma keys_restoreEntry (varTypes : ℕ → VariableType) (s : ℕ → ColumnSubstitution) (q : ℕ × ℚ) :
    keys (restoreEntry varTypes s q).1 = keys (substituteEntry varTypes s q).1 := by
  unfold restoreEntry substituteEntry
  split_ifs
  · rfl
  · cases (s q.1).boundChanged with
    | unshifted => rfl
    | lower => cases (s q.1).lbVariable <;> rfl
    | upper => cases (s q.1).ubVariable <;> rfl

lemma lt_of_mem_restoreEntry {q r : ℕ × ℚ} (hq : q.1 < lp.numCols)
    (hr : r ∈ (restoreEntry lp.varTypes (lp.substitution xstar prefer) q).1) :
    r.1 < lp.numCols := by
  have hkey : r.1 ∈ keys (restoreEntry lp.varTypes (lp.substitution xstar prefer) q).1 :=
    mem_map_of_mem hr
  rw [keys_restoreEntry] at hkey
  obtain ⟨r', hr', heq⟩ := mem_map.mp hkey
  exact heq ▸ lt_of_mem_substituteEntry hq hr'

lemma Columns.replace {g : ℕ × ℚ → List (ℕ × ℚ) × ℚ} (hc : lp.Columns c)
    (hg : ∀ q r, q.1 < lp.numCols → r ∈ (g q).1 → r.1 < lp.numCols) : lp.Columns (c.replace g) := by
  intro j hj
  obtain ⟨r, hr, rfl⟩ := mem_map.mp hj
  obtain ⟨q, hq, hqr⟩ := mem_flatMap.mp hr
  exact hg q r (hc q.1 (mem_map_of_mem hq)) hqr

lemma Columns.gather (hc : lp.Columns c) : lp.Columns c.gather := by
  intro j hj
  obtain ⟨r, hr, rfl⟩ := mem_map.mp hj
  exact hc r.1 (mem_gather hr).1

lemma Columns.transform (hc : lp.Columns c) :
    lp.Columns (transformInequality lp.varTypes (lp.substitution xstar prefer) c) := by
  refine Columns.replace (Columns.gather (hc.replace fun q r hq hr => ?_)) fun q r hq hr => ?_
  · exact lt_of_mem_substituteEntry hq hr
  · rw [mem_singleton.mp hr, shiftInteger_fst]
    exact hq

lemma Columns.untransform (hc : lp.Columns c) :
    lp.Columns (untransformInequality lp.varTypes (lp.substitution xstar prefer) c) := by
  refine Columns.gather (Columns.replace (hc.replace fun q r hq hr => ?_) fun q r hq hr => ?_)
  · rw [mem_singleton.mp hr, restoreInteger_fst]
    exact hq
  · exact lt_of_mem_restoreEntry hq hr

lemma fitValues_of_left (hx : x ∈ lp.points) {k : List ℕ} (hk : ∀ j ∈ k, j < lp.numCols)
    (hleft : ∀ j ∈ k, (lp.substitution xstar prefer j).boundChanged = .unshifted → 0 ≤ x j) :
    FitValues lp.varTypes (lp.substitution xstar prefer) k
      (substitutedValue lp.varTypes (lp.substitution xstar prefer) x) := by
  intro j hj
  refine ⟨?_, fun ht => substitutedValue_integer hx (hk j hj) ht⟩
  by_cases hshift : (lp.substitution xstar prefer j).boundChanged = .unshifted
  · have hsame : substitutedValue lp.varTypes (lp.substitution xstar prefer) x j = x j := by
      unfold substitutedValue
      rw [hshift]
      cases lp.varTypes j <;> rfl
    rw [hsame]
    exact hleft j hj hshift
  · exact substitutedValue_nonneg hx (hk j hj) hshift

lemma fitValues_transform (hx : x ∈ lp.points) (hc : lp.Columns c)
    (hleft : lp.LeftNonnegative xstar prefer c) :
    FitValues lp.varTypes (lp.substitution xstar prefer)
      (keys (transformInequality lp.varTypes (lp.substitution xstar prefer) c).vector)
      (substitutedValue lp.varTypes (lp.substitution xstar prefer) x) := by
  refine fitValues_of_left hx hc.transform fun j hj hshift => ?_
  rw [keys_transformInequality] at hj
  obtain ⟨r, hr, rfl⟩ := mem_map.mp hj
  obtain ⟨-, hvalue, hne⟩ := mem_gather hr
  have hcoefficient : lp.substitutedCoefficient xstar prefer c r.1 ≠ 0 := by
    rw [substitutedCoefficient, ← hvalue]
    exact hne
  exact hleft r.1 hshift hcoefficient x hx

lemma slack_removeSmallCoefficients (hx : x ∈ lp.points) (hc : lp.Columns c) :
    c.slack x ≤ (removeSmallCoefficients lp.toLpProblem c).slack x :=
  CuOpt.Cuts.slack_removeSmallCoefficients fun q hq =>
    hx.1.2 q.1 (hc q.1 (mem_map_of_mem hq))

lemma Columns.removeSmallCoefficients (hc : lp.Columns c) :
    lp.Columns (removeSmallCoefficients lp.toLpProblem c) := by
  have hreplace : lp.Columns (c.replace fun q => (smallTerm lp.toLpProblem q).elim ([q], 0)
      fun w => ([(q.1, 0)], w)) := by
    refine hc.replace fun q r hq hr => ?_
    cases hterm : smallTerm lp.toLpProblem q with
    | none | some w =>
      rw [hterm] at hr
      rw [mem_singleton.mp hr]
      exact hq
  unfold CuOpt.Cuts.removeSmallCoefficients
  dsimp only
  split_ifs
  · intro j hj
    obtain ⟨r, hr, rfl⟩ := mem_map.mp hj
    exact hreplace r.1 (mem_map_of_mem (mem_of_mem_filter hr))
  · exact hreplace

def toUnitSlackForm (lp : CutSetting) : UnitSlackForm := ⟨lp.toSlackForm, lp.slack_column⟩

lemma substituteSlacks_sound (hc : lp.Columns c) :
    lp.Columns (substituteSlacks lp.toLpProblem c) ∧
      ∀ x ∈ lp.points, (substituteSlacks lp.toLpProblem c).slack x = c.slack x := by
  have hsound : lp.Columns (substituteSlacks lp.toLpProblem c) ∧
      ∀ x ∈ lp.equalities, (substituteSlacks lp.toLpProblem c).slack x = c.slack x :=
    @UnitSlackForm.substituteSlacks_sound lp.toUnitSlackForm c hc
  exact ⟨hsound.1, fun x hx => hsound.2 x hx.1.1⟩

lemma slack_restoreCut (hx : x ∈ lp.points) (hc : lp.Columns c) :
    c.slack (substitutedValue lp.varTypes (lp.substitution xstar prefer) x) ≤
      (restoreCut lp.toLpProblem (lp.substitution xstar prefer) c).slack x := by
  have huntransform : lp.Columns
      (untransformInequality lp.varTypes (lp.substitution xstar prefer) c) := hc.untransform
  have hslacks := substituteSlacks_sound huntransform.removeSmallCoefficients
  unfold restoreCut
  calc c.slack (substitutedValue lp.varTypes (lp.substitution xstar prefer) x)
      = (untransformInequality lp.varTypes (lp.substitution xstar prefer) c).slack x :=
        (slack_untransformInequality c x).symm
    _ ≤ (removeSmallCoefficients lp.toLpProblem
          (untransformInequality lp.varTypes (lp.substitution xstar prefer) c)).slack x :=
        slack_removeSmallCoefficients hx huntransform
    _ = (substituteSlacks lp.toLpProblem (removeSmallCoefficients lp.toLpProblem
          (untransformInequality lp.varTypes (lp.substitution xstar prefer) c))).slack x :=
        (hslacks.2 x hx).symm
    _ ≤ _ := slack_removeSmallCoefficients hx hslacks.1

end CutSetting

end CuOpt.Cuts
