import CuOpt.Cuts.PoolDuplicates
import CuOpt.Cuts.ScoreCuts

/-! The chosen cuts are pairwise orthogonal enough where the merge misjudges no two stored rows, so that
it is enough that the rows are stored in order. -/

namespace CuOpt.Cuts

open SparseList Sorting List

variable {K : Type} [Field K] [LinearOrder K]

lemma dot_coeff_comm (xs ys : List (ℕ × ℚ)) : dot xs (coeff ys) = dot ys (coeff xs) := by
  have hx : ∀ p ∈ xs, p.1 ∈ (keys xs ++ keys ys).toFinset := fun p hp =>
    List.mem_toFinset.mpr (mem_append_left _ (mem_map_of_mem hp))
  have hy : ∀ p ∈ ys, p.1 ∈ (keys xs ++ keys ys).toFinset := fun p hp =>
    List.mem_toFinset.mpr (mem_append_right _ (mem_map_of_mem hp))
  rw [dot_eq_sum xs _ _ hx, dot_eq_sum ys _ _ hy]
  apply Finset.sum_congr rfl
  intro j _
  exact mul_comm _ _

omit [Field K] in
theorem le_foldl_min {l : List ℕ} {f : ℕ → K} {a b : K} :
    a ≤ l.foldl (fun ortho j => min ortho (f j)) b ↔ a ≤ b ∧ ∀ j ∈ l, a ≤ f j := by
  induction l generalizing b with
  | nil => simp
  | cons j l ih =>
    rw [foldl_cons, ih, le_min_iff, forall_mem_cons, and_assoc]

namespace CutPool

variable {s : ScoreSetting K} {pool : CutPool} {xstar : ℕ → ℚ} {i j : ℕ}

lemma parallelism_comm (i j : ℕ) : pool.parallelism s i j = pool.parallelism s j i := by
  rw [parallelism, parallelism, dot_coeff_comm, mul_comm (pool.trueNorm s i)]

omit [Field K] [LinearOrder K] in
theorem cutNorm_eq (hi : i < pool.size) : pool.cutNorm s i = pool.trueNorm s i := by
  rw [cutNorm, trueNorm]
  congr 2
  apply map_congr_left
  intro q hq
  have hcoeff : coeff (pool.cutStorage.getD i []) q.1 = q.2 :=
    coeff_of_mem (pool.nodup _ (row_mem hi)) hq
  rw [hcoeff]

lemma cutOrthogonality_eq (hi : i < pool.size) (hj : j < pool.size)
    (h : Ascending (pool.cutStorage.getD i []) ∧ Ascending (pool.cutStorage.getD j [])) :
    pool.cutOrthogonality s i j = 1 - pool.parallelism s i j := by
  rw [cutOrthogonality, parallelism, cutNorm_eq hi, cutNorm_eq hj, sparseDot_eq h.1 h.2]

lemma accepts_iff {best : List ℕ} : pool.accepts s best i = true ↔
    s.minOrthogonality ≤ 1 ∧ ∀ j ∈ best, s.minOrthogonality ≤ pool.cutOrthogonality s i j := by
  rw [accepts, decide_eq_true_eq, le_foldl_min]

lemma subset_selectCuts (l best : List ℕ) : best ⊆ pool.selectCuts s xstar l best := by
  induction l generalizing best with
  | nil => exact List.Subset.refl best
  | cons i rest ih =>
    rw [selectCuts]
    split_ifs
    · exact List.Subset.refl best
    · exact List.Subset.refl best
    · exact List.Subset.trans (subset_append_left best [i]) (ih _)
    · exact ih best

lemma byDistance_perm : (pool.byDistance s xstar).Perm (range pool.size) :=
  (reverse_perm _).trans (s.std.perm _ _)

lemma not_misjudged_of_ascending [IsStrictOrderedRing K] (hi : i < pool.size) (hj : j < pool.size)
    (h : Ascending (pool.cutStorage.getD i []) ∧ Ascending (pool.cutStorage.getD j [])) :
    ¬pool.Misjudged s i j := by
  rintro ⟨haccept, hparallel⟩
  rw [cutOrthogonality_eq hi hj h, le_sub_comm] at haccept
  exact hparallel.not_ge haccept

lemma byDistance_pairwise : (pool.byDistance s xstar).Pairwise fun j i =>
    j ≠ i ∧ pool.cutDistances s xstar i ≤ pool.cutDistances s xstar j := by
  refine Pairwise.and ((byDistance_perm.nodup_iff).mpr nodup_range) ?_
  have hsorted := s.std.sorted (fun _ _ => decide_eq_true_iff : ByKey (fun a b =>
    decide (pool.cutDistances s xstar a < pool.cutDistances s xstar b)) (pool.cutDistances s xstar))
    (range pool.cutStorage.length)
  rw [byDistance, pairwise_reverse]
  exact pairwise_map.mp hsorted

/-- Taking a cut keeps the chosen ones orthogonal enough, as it is not misjudged beside any of them. -/
lemma pairwise_selectCuts (h : pool.WellJudged s xstar) {l best : List ℕ}
    (hsorted : (best ++ l).Pairwise fun j i =>
      j ≠ i ∧ pool.cutDistances s xstar i ≤ pool.cutDistances s xstar j)
    (hrange : ∀ k ∈ best ++ l, k < pool.size)
    (hbest : best.Pairwise fun j i => pool.parallelism s j i ≤ 1 - s.minOrthogonality) :
    (pool.selectCuts s xstar l best).Pairwise fun j i =>
      pool.parallelism s j i ≤ 1 - s.minOrthogonality := by
  induction l generalizing best with
  | nil => exact hbest
  | cons i rest ih =>
    rw [selectCuts]
    split_ifs with hmax hfar haccept
    · exact hbest
    · exact hbest
    · rw [← singleton_append, ← append_assoc] at hsorted hrange
      refine ih hsorted hrange (pairwise_append.mpr ⟨hbest, pairwise_singleton _ _, ?_⟩)
      intro j hj k hk
      obtain rfl := mem_singleton.mp hk
      obtain ⟨hne, hle⟩ := (pairwise_append.mp (pairwise_append.mp hsorted).1).2.2 j hj k hk
      have hk' : k ∈ best ++ [k] := mem_append_right _ hk
      have hj' : j ∈ best ++ [k] := mem_append_left _ hj
      have hjudged := h k (hrange k (mem_append_left _ hk')) j (hrange j (mem_append_left _ hj'))
        ⟨hne, not_le.mp hfar, hle⟩
      rw [Misjudged, not_and, not_lt, parallelism_comm] at hjudged
      exact hjudged ((accepts_iff.mp haccept).2 j hj)
    · have hsub : (best ++ rest).Sublist (best ++ i :: rest) :=
        List.Sublist.append_left (sublist_cons_self i rest) best
      exact ih (hsorted.sublist hsub) (fun k hk => hrange k (hsub.subset hk)) hbest

lemma pairwise_bestCuts (h : pool.WellJudged s xstar) : (pool.bestCuts s xstar).Pairwise fun j i =>
    pool.parallelism s j i ≤ 1 - s.minOrthogonality := by
  have hsorted := @byDistance_pairwise _ _ _ s pool xstar
  have hrange : ∀ k ∈ pool.byDistance s xstar, k < pool.size := fun k hk =>
    mem_range.mp (byDistance_perm.mem_iff.mp hk)
  rw [bestCuts]
  split
  case h_1 => exact Pairwise.nil
  case h_2 i rest heq =>
    rw [heq] at hsorted hrange
    exact pairwise_selectCuts h hsorted hrange (pairwise_singleton _ _)

lemma pairwiseOrthogonal_of_wellJudged (h : pool.WellJudged s xstar) :
    pool.PairwiseOrthogonal s (pool.bestCuts s xstar) := by
  intro i hi j hj hne
  have hsymm : Std.Symm fun j i => pool.parallelism s j i ≤ 1 - s.minOrthogonality :=
    ⟨fun i j hij => (parallelism_comm j i).trans_le hij⟩
  exact (pairwise_bestCuts h).forall hi hj hne

omit [Field K] in
lemma eq_cons_of_max {l : List ℕ} {f : ℕ → K} (hsorted : l.Pairwise fun a b => a ≠ b ∧ f b ≤ f a)
    (hj : j ∈ l) (hmax : ∀ k ∈ l, k ≠ j → f k < f j) : ∃ rest, l = j :: rest := by
  cases l with
  | nil => cases hj
  | cons a rest =>
    by_cases ha : a = j
    · exact ⟨rest, by rw [ha]⟩
    · have hmem : j ∈ rest := (mem_cons.mp hj).resolve_left (Ne.symm ha)
      have hle := ((pairwise_cons.mp hsorted).1 j hmem).2
      exact absurd hle (hmax a mem_cons_self ha).not_ge

/-- The first two cuts that are tested are both chosen when they are misjudged. -/
lemma not_pairwiseOrthogonal (hfar : pool.Farthest s xstar j i) (hone : s.minOrthogonality ≤ 1)
    (h : pool.Misjudged s i j) : ¬pool.PairwiseOrthogonal s (pool.bestCuts s xstar) := by
  have hsorted := @byDistance_pairwise _ _ _ s pool xstar
  have hmem (k : ℕ) : k ∈ pool.byDistance s xstar ↔ k < pool.size :=
    byDistance_perm.mem_iff.trans mem_range
  obtain ⟨rest, hrest⟩ := eq_cons_of_max hsorted ((hmem j).mpr hfar.first_lt)
    fun k hk => hfar.first k ((hmem k).mp hk)
  rw [hrest, pairwise_cons] at hsorted
  have hi : i ∈ rest := by
    have hi := (hmem i).mpr hfar.second_lt
    rw [hrest] at hi
    exact (mem_cons.mp hi).resolve_left hfar.ne.symm
  obtain ⟨rest', rfl⟩ := eq_cons_of_max hsorted.2 hi fun k hk =>
    hfar.second k ((hmem k).mp (hrest ▸ mem_cons_of_mem j hk)) (hsorted.1 k hk).1.symm
  have haccept : pool.accepts s [j] i = true :=
    accepts_iff.mpr ⟨hone, fun k hk => (mem_singleton.mp hk) ▸ h.1⟩
  have hchosen : [j, i] ⊆ pool.bestCuts s xstar := by
    rw [bestCuts, hrest]
    simp only [selectCuts, haccept, if_neg (not_le.mpr hfar.far), if_true, maxCuts, length_singleton,
      Nat.not_ofNat_le_one, if_false]
    exact subset_selectCuts _ _
  intro horthogonal
  exact (horthogonal i (hchosen (by simp)) j (hchosen (by simp)) hfar.ne.symm).not_gt h.2

end CutPool

end CuOpt.Cuts
