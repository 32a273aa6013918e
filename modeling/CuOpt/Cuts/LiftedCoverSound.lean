import CuOpt.Cuts.MirSearchSound
import CuOpt.Cuts.StrongCgSound
import CuOpt.Cuts.ZeroHalfCuts
import CuOpt.Library.CoverLifting

/-! The lifted mixed binary cover of an inequality follows from it, at all values that are nonnegative
and fit the types and bounds of their columns. -/

namespace CuOpt.Cuts

open SparseList QuadProgram Sorting CoverLifting List

variable {varTypes : ℕ → VariableType} {s : ℕ → ColumnSubstitution} {transformedXstar y : ℕ → ℚ}
  {c cut : Inequality}

/-- The code's loop over the running sums is the lifting function. -/
lemma liftedCoverCoefficient_eq (coefficient lam : ℚ) (l : List ℚ) (h : ℕ) (last : ℚ) :
    liftedCoverCoefficient 0 coefficient lam h last (runningSums last l) =
      h * lam + lift lam l (coefficient - last) := by
  induction l generalizing h last with
  | nil =>
    rw [runningSums, liftedCoverCoefficient, lift]
    ring
  | cons a l ih =>
    have hsmall : coefficient ≤ last + a - lam + 0 ↔ coefficient - last ≤ a - lam := by
      constructor
      · intro hle
        linarith
      · intro hle
        linarith
    have hlarge : coefficient ≤ last + a + 0 ↔ coefficient - last ≤ a := by
      constructor
      · intro hle
        linarith
      · intro hle
        linarith
    have hnext : coefficient - (last + a) = coefficient - last - a := by ring
    rw [runningSums, liftedCoverCoefficient, lift]
    simp only [hsmall, hlarge]
    split_ifs
    · ring
    · ring
    · rw [ih, hnext]
      push_cast
      ring

lemma takeCover_sublist (tolerance rhs w : ℚ) (l : List CoverTerm) :
    (takeCover tolerance rhs w l).Sublist l := by
  induction l generalizing w with
  | nil => exact List.Sublist.refl []
  | cons t l ih =>
    rw [takeCover]
    split_ifs
    · exact List.Sublist.cons_cons t (nil_sublist l)
    · exact List.Sublist.cons_cons t (ih _)

lemma takeWhile_eq_filter {α : Type*} {f : α → ℚ} {l : List α} (hl : (l.map f).Pairwise (· ≥ ·))
    (lam : ℚ) : l.takeWhile (fun t => decide (0 < f t - lam)) =
      l.filter fun t => decide (0 < f t - lam) := by
  induction l with
  | nil => rfl
  | cons t l ih =>
    obtain ⟨hfirst, hrest⟩ := pairwise_cons.mp hl
    rw [takeWhile_cons, filter_cons]
    split_ifs with ht
    · rw [ih hrest]
    · refine (filter_eq_nil_iff.mpr fun r hr => ?_).symm
      have hle := hfirst (f r) (mem_map_of_mem hr)
      simp only [decide_eq_true_eq, not_lt] at ht ⊢
      linarith

def coverValue (s : ℕ → ColumnSubstitution) (y : ℕ → ℚ) (t : CoverTerm) : ℚ :=
  if t.locallyComplemented then newUpper s t.index - y t.index else y t.index

/-- What an entry adds to the left-hand side, less what its complementation took to the right. -/
lemma coverTerm_value_le (p : (ℕ × ℚ) × ℕ) (hy : 0 ≤ y p.1.1) :
    (coverTerm varTypes s transformedXstar p).coeff *
        coverValue s y (coverTerm varTypes s transformedXstar p) +
      (if varTypes p.1.1 ≠ .continuous ∧ p.1.2 < 0 then p.1.2 * newUpper s p.1.1 else 0) ≤
      p.1.2 * y p.1.1 := by
  obtain ⟨⟨j, aj⟩, k⟩ := p
  dsimp only at hy ⊢
  by_cases hcontinuous : varTypes j = .continuous
  · have hterm : coverTerm varTypes s transformedXstar ((j, aj), k) =
        ⟨k, j, if 0 < aj then 0 else aj, transformedXstar j, false, false⟩ := if_pos hcontinuous
    have hvalue : coverValue s y ⟨k, j, if 0 < aj then 0 else aj, transformedXstar j, false, false⟩ =
        y j := if_neg Bool.false_ne_true
    have hnone : ¬(varTypes j ≠ .continuous ∧ aj < 0) := fun h => h.1 hcontinuous
    rw [hterm, hvalue, if_neg hnone, add_zero]
    dsimp only
    split_ifs with hpos
    · rw [zero_mul]
      exact mul_nonneg hpos.le hy
    · exact le_rfl
  · by_cases hneg : aj < 0
    · have hterm : coverTerm varTypes s transformedXstar ((j, aj), k) =
          ⟨k, j, -aj, newUpper s j - transformedXstar j, true, true⟩ :=
        (if_neg hcontinuous).trans (if_pos hneg)
      have hvalue : coverValue s y ⟨k, j, -aj, newUpper s j - transformedXstar j, true, true⟩ =
          newUpper s j - y j := if_pos rfl
      rw [hterm, hvalue, if_pos ⟨hcontinuous, hneg⟩]
      exact le_of_eq (by ring)
    · have hterm : coverTerm varTypes s transformedXstar ((j, aj), k) =
          ⟨k, j, aj, transformedXstar j, true, false⟩ :=
        (if_neg hcontinuous).trans (if_neg hneg)
      have hvalue : coverValue s y ⟨k, j, aj, transformedXstar j, true, false⟩ = y j :=
        if_neg Bool.false_ne_true
      have hnone : ¬(varTypes j ≠ .continuous ∧ aj < 0) := fun h => hneg h.2
      rw [hterm, hvalue, if_neg hnone, add_zero]

structure CoverTerm.Fits (s : ℕ → ColumnSubstitution) (y : ℕ → ℚ) (t : CoverTerm) : Prop where
  nonneg : 0 ≤ y t.index
  binary : t.isIntegral = true → 0 ≤ t.coeff ∧ (coverValue s y t = 0 ∨ coverValue s y t = 1)
  continuous : t.isIntegral = false → t.coeff ≤ 0 ∧ t.locallyComplemented = false

lemma coverTerm_fits {p : (ℕ × ℚ) × ℕ} (hbinary : ∀ j, varTypes j = .binary →
      (s j).transformedUpper = none)
    (hupper : varTypes p.1.1 ≠ .continuous →
      (s p.1.1).transformedUpper.any (fun upper => decide (|upper - 1| ≤ 0)) = true)
    {k : List ℕ} (hk : p.1.1 ∈ k) (hy : FitValues varTypes s k y) :
    (coverTerm varTypes s transformedXstar p).Fits s y := by
  obtain ⟨⟨j, aj⟩, n⟩ := p
  obtain ⟨hnonneg, hint⟩ := hy j hk
  by_cases hcontinuous : varTypes j = .continuous
  · have hterm : coverTerm varTypes s transformedXstar ((j, aj), n) =
        ⟨n, j, if 0 < aj then 0 else aj, transformedXstar j, false, false⟩ := if_pos hcontinuous
    rw [hterm]
    refine ⟨hnonneg, nofun, fun _ => ⟨?_, rfl⟩⟩
    dsimp only
    split_ifs with hpos
    · exact le_rfl
    · exact not_lt.mp hpos
  · obtain ⟨u, hu, hone⟩ := (Option.any_eq_true _ _).mp (hupper hcontinuous)
    have hu1 : u = 1 := by
      have habs : |u - 1| ≤ 0 := of_decide_eq_true hone
      have hzero := abs_eq_zero.mp (le_antisymm habs (abs_nonneg _))
      linarith
    subst hu1
    have hinteger : varTypes j = .integer := by
      cases ht : varTypes j with
      | continuous => exact absurd ht hcontinuous
      | integer => rfl
      | binary =>
        have hnone := hbinary j ht
        rw [hu] at hnone
        cases hnone
    obtain ⟨⟨m, hm⟩, hle⟩ := hint hinteger
    have hvalue : y j = 0 ∨ y j = 1 := by
      have hle1 := (hle 1 hu).1
      rw [hm] at hnonneg hle1 ⊢
      have h0 : 0 ≤ m := by exact_mod_cast hnonneg
      have h1 : m ≤ 1 := by exact_mod_cast hle1
      rcases (by omega : m = 0 ∨ m = 1) with rfl | rfl
      · exact .inl Int.cast_zero
      · exact .inr Int.cast_one
    have hnew : newUpper s j = 1 := by
      rw [newUpper, hu, Option.getD_some]
    unfold coverTerm
    dsimp only
    rw [if_neg hcontinuous]
    split_ifs with hneg
    · refine ⟨hnonneg, fun _ => ⟨(neg_pos.mpr hneg).le, ?_⟩, fun h => absurd h.symm Bool.false_ne_true⟩
      rw [coverValue, if_pos rfl, hnew]
      rcases hvalue with h | h
      · exact .inr (by rw [h, sub_zero])
      · exact .inl (by rw [h, sub_self])
    · refine ⟨hnonneg, fun _ => ⟨not_lt.mp hneg, ?_⟩, fun h => absurd h.symm Bool.false_ne_true⟩
      rw [coverValue, if_neg Bool.false_ne_true]
      exact hvalue

lemma sum_filter_add {α : Type*} (l : List α) (p : α → Bool) (f : α → ℚ) :
    ((l.filter p).map f).sum + ((l.filter fun t => !p t).map f).sum = (l.map f).sum := by
  rw [← sum_append, ← map_append]
  exact ((filter_append_perm p l).map f).sum_eq

section Cut

variable {terms cover : List CoverTerm} {lam rhs : ℚ}

def inCover (cover : List CoverTerm) (t : CoverTerm) : Bool :=
  t.isIntegral && cover.any fun c => decide (c.position = t.position)

/-- The entries of the cover are the entries whose place is in the cover. -/
lemma filter_inCover_perm (hterms : (terms.map CoverTerm.position).Nodup)
    (hcover : cover.Nodup) (hmem : ∀ t ∈ cover, t ∈ terms ∧ t.isIntegral = true) :
    (terms.filter (inCover cover)).Perm cover := by
  refine (perm_ext_iff_of_nodup ((List.Nodup.of_map _ hterms).filter _) hcover).mpr fun t => ?_
  constructor
  · intro ht
    obtain ⟨htmem, htin⟩ := mem_filter.mp ht
    obtain ⟨r, hr, hposition⟩ := any_eq_true.mp (Bool.and_eq_true_iff.mp htin).2
    have heq := inj_on_of_nodup_map hterms (hmem r hr).1 htmem (of_decide_eq_true hposition)
    exact heq ▸ hr
  · intro ht
    obtain ⟨htmem, hint⟩ := hmem t ht
    refine mem_filter.mpr ⟨htmem, Bool.and_eq_true_iff.mpr ⟨hint, ?_⟩⟩
    exact any_eq_true.mpr ⟨t, ht, decide_eq_true rfl⟩

/-- The lifted inequality, before the entries are complemented back. -/
lemma lifted_sum_le (hterms : (terms.map CoverTerm.position).Nodup)
    (hfits : ∀ t ∈ terms, t.Fits s y) (hcover : cover.Nodup)
    (hmem : ∀ t ∈ cover, t ∈ terms ∧ t.isIntegral = true)
    (hsorted : (cover.map CoverTerm.coeff).Pairwise (· ≥ ·))
    (hlam : lam = (cover.map CoverTerm.coeff).sum - rhs) (hpos : 0 < lam)
    (hbase : (terms.map fun t => t.coeff * coverValue s y t).sum ≤ rhs) :
    (terms.map fun t => liftedCoefficient 0 lam cover (runningSums 0
        ((cover.takeWhile fun t => decide (0 < t.coeff - lam)).map CoverTerm.coeff)) t *
          coverValue s y t).sum ≤
      -lam + ((terms.filter (inCover cover)).map (liftedCoefficient 0 lam cover (runningSums 0
        ((cover.takeWhile fun t => decide (0 < t.coeff - lam)).map CoverTerm.coeff)))).sum := by
  have hlarge : (cover.takeWhile fun t => decide (0 < t.coeff - lam)).map CoverTerm.coeff =
      (cover.map CoverTerm.coeff).filter fun b => decide (lam < b) := by
    rw [takeWhile_eq_filter hsorted, filter_map]
    refine congrArg (map CoverTerm.coeff) (filter_congr fun t _ => ?_)
    simp
  rw [hlarge]
  generalize hL : (cover.map CoverTerm.coeff).filter (fun b => decide (lam < b)) = L
  have hLsorted : L.Pairwise (· ≥ ·) := hL ▸ hsorted.sublist filter_sublist
  have hLlarge : ∀ a ∈ L, lam ≤ a := by
    intro a ha
    rw [← hL] at ha
    exact (lt_of_mem_large ha).le
  have hperm := filter_inCover_perm hterms hcover hmem
  generalize hcoefficient : liftedCoefficient 0 lam cover (runningSums 0 L) = coefficient
  -- the coefficients by kind
  have hin : ∀ t ∈ terms.filter (inCover cover), coefficient t = min t.coeff lam := by
    intro t ht
    obtain ⟨hint, hplace⟩ := Bool.and_eq_true_iff.mp (mem_filter.mp ht).2
    rw [← hcoefficient, liftedCoefficient, hint, hplace]
    rfl
  have hout : ∀ t ∈ (terms.filter fun t => !inCover cover t).filter CoverTerm.isIntegral,
      coefficient t = lift lam L t.coeff := by
    intro t ht
    obtain ⟨ht', hint⟩ := mem_filter.mp ht
    have hnot := (mem_filter.mp ht').2
    have hplace : (cover.any fun c => decide (c.position = t.position)) = false := by
      rw [inCover, hint, Bool.true_and] at hnot
      simpa using hnot
    rw [← hcoefficient, liftedCoefficient, hint, hplace]
    have hlift := liftedCoverCoefficient_eq t.coeff lam L 0 0
    rw [Nat.cast_zero, zero_mul, zero_add, sub_zero] at hlift
    exact hlift
  have hrest : ∀ t ∈ (terms.filter fun t => !inCover cover t).filter fun t => !t.isIntegral,
      coefficient t = t.coeff := by
    intro t ht
    obtain ⟨ht', hint⟩ := mem_filter.mp ht
    have hint' : t.isIntegral = false := by simpa using hint
    have hle := ((hfits t (mem_of_mem_filter ht')).continuous hint').1
    rw [← hcoefficient, liftedCoefficient, hint']
    have hif : (if 0 ≤ t.coeff then 0 else t.coeff) = t.coeff := by
      split_ifs with h
      · exact le_antisymm h hle
      · rfl
    exact hif
  -- both sums by kind
  have hsplit : ∀ f : CoverTerm → ℚ, (terms.map f).sum =
      (cover.map f).sum +
        ((((terms.filter fun t => !inCover cover t).filter CoverTerm.isIntegral).map f).sum +
          (((terms.filter fun t => !inCover cover t).filter fun t => !t.isIntegral).map f).sum) := by
    intro f
    rw [sum_filter_add, ← (hperm.map f).sum_eq, sum_filter_add]
  rw [hsplit] at hbase
  have hsums := hsplit fun t => coefficient t * coverValue s y t
  generalize hN : (terms.filter fun t => !inCover cover t).filter CoverTerm.isIntegral = N at *
  generalize hR : (terms.filter fun t => !inCover cover t).filter (fun t => !t.isIntegral) = R at *
  have hNmem : ∀ t ∈ N, t ∈ terms ∧ t.isIntegral = true := by
    intro t ht
    rw [← hN] at ht
    obtain ⟨ht', hint⟩ := mem_filter.mp ht
    exact ⟨mem_of_mem_filter ht', hint⟩
  have hRmem : ∀ t ∈ R, t ∈ terms ∧ t.isIntegral = false := by
    intro t ht
    rw [← hR] at ht
    obtain ⟨ht', hint⟩ := mem_filter.mp ht
    exact ⟨mem_of_mem_filter ht', by simpa using hint⟩
  have hNterm : ∀ t ∈ N, 0 ≤ t.coeff * coverValue s y t := by
    intro t ht
    obtain ⟨hnonneg, hvalue⟩ := (hfits t (hNmem t ht).1).binary (hNmem t ht).2
    refine mul_nonneg hnonneg ?_
    rcases hvalue with h | h
    · exact h.ge
    · rw [h]
      exact zero_le_one
  have hRsum : 0 ≤ -(R.map fun t => t.coeff * coverValue s y t).sum := by
    have hzero : (R.map fun _ => (0 : ℚ)).sum = 0 := by simp
    rw [neg_nonneg, ← hzero]
    refine sum_le_sum fun t ht => ?_
    obtain ⟨hle, hplain⟩ := (hfits t (hRmem t ht).1).continuous (hRmem t ht).2
    have hvalue : coverValue s y t = y t.index := if_neg (by rw [hplain]; exact Bool.false_ne_true)
    rw [hvalue]
    exact mul_nonpos_of_nonpos_of_nonneg hle (hfits t (hRmem t ht).1).nonneg
  have hNsum : 0 ≤ (N.map fun t => t.coeff * coverValue s y t).sum := by
    refine sum_nonneg fun v hv => ?_
    obtain ⟨t, ht, rfl⟩ := mem_map.mp hv
    exact hNterm t ht
  have hmissing : (cover.map fun t => t.coeff * (1 - coverValue s y t)).sum =
      (cover.map CoverTerm.coeff).sum - (cover.map fun t => t.coeff * coverValue s y t).sum := by
    rw [eq_sub_iff_add_eq, ← sum_map_add]
    refine congrArg sum (map_congr_left fun t _ => ?_)
    ring
  have hcoverLe := cover_le (a := CoverTerm.coeff) (z := coverValue s y) hpos.le
    (fun t ht => ((hfits t (hmem t ht).1).binary (hmem t ht).2).1)
    (fun t ht => ((hfits t (hmem t ht).1).binary (hmem t ht).2).2) hsorted hNsum hRsum
    (by rw [hmissing]; linarith)
  rw [hL] at hcoverLe
  have hshort : shortfall CoverTerm.coeff (coverValue s y) lam cover =
      (cover.map coefficient).sum - (cover.map fun t => coefficient t * coverValue s y t).sum := by
    rw [eq_sub_iff_add_eq, shortfall, ← sum_map_add]
    refine congrArg sum (map_congr_left fun t ht => ?_)
    rw [hin t (hperm.mem_iff.mpr ht)]
    ring
  have hlifted : (N.map fun t => coefficient t * coverValue s y t).sum ≤
      lift lam L (N.map fun t => t.coeff * coverValue s y t).sum := by
    refine le_trans (le_of_eq ?_) (sum_lift_le hpos.le hLsorted hLlarge N _ hNterm)
    refine congrArg sum (map_congr_left fun t ht => ?_)
    rw [hout t ht]
    rcases ((hfits t (hNmem t ht).1).binary (hNmem t ht).2).2 with h | h
    · rw [h, mul_zero, mul_zero, lift_zero hpos.le hLlarge]
    · rw [h, mul_one, mul_one]
  have hsame : (R.map fun t => coefficient t * coverValue s y t).sum =
      (R.map fun t => t.coeff * coverValue s y t).sum := by
    refine congrArg sum (map_congr_left fun t ht => ?_)
    rw [hrest t ht]
  rw [hsums, (hperm.map coefficient).sum_eq]
  linarith

variable (coefficient : CoverTerm → ℚ)

/-- Complementing the entries back changes both sides alike. -/
lemma dot_complemented (terms : List CoverTerm) :
    dot (terms.map fun t =>
        (t.index, if t.locallyComplemented then -coefficient t else coefficient t)) y =
      (terms.map fun t => coefficient t * coverValue s y t).sum -
        ((terms.filter CoverTerm.locallyComplemented).map fun t =>
          coefficient t * newUpper s t.index).sum := by
  rw [sum_map_filter, eq_sub_iff_add_eq, dot, map_map, ← sum_map_add]
  refine congrArg sum (map_congr_left fun t _ => ?_)
  simp only [Function.comp_apply, coverValue]
  split_ifs
  · ring
  · ring

end Cut

lemma mem_keys_liftedCut {tolerance lam : ℚ} {cover terms : List CoverTerm} {sums : List ℚ} {j : ℕ}
    (hj : j ∈ keys (liftedCut s tolerance lam cover sums terms).vector) :
    ∃ t ∈ terms, t.index = j := by
  have hsub := keys_squeeze_sublist (terms.map fun t => (t.index,
    if t.locallyComplemented then -liftedCoefficient tolerance lam cover sums t
    else liftedCoefficient tolerance lam cover sums t))
  unfold liftedCut at hj
  dsimp only at hj
  rw [keys_negate] at hj
  obtain ⟨p, hp, rfl⟩ := mem_map.mp (hsub.subset hj)
  obtain ⟨t, ht, rfl⟩ := mem_map.mp hp
  exact ⟨t, ht, rfl⟩

lemma coverTerm_index (p : (ℕ × ℚ) × ℕ) :
    (coverTerm varTypes s transformedXstar p).index = p.1.1 ∧
      (coverTerm varTypes s transformedXstar p).position = p.2 := by
  unfold coverTerm
  dsimp only
  split_ifs
  all_goals exact ⟨rfl, rfl⟩

/-- The lifted mixed binary cover follows from its inequality, the tolerance being zero. -/
lemma generateLiftedMixedBinaryCover_follows (hbinary : ∀ j, varTypes j = .binary →
      (s j).transformedUpper = none) {std : Sorter} {workUp : ℕ → Bool}
    (h : generateLiftedMixedBinaryCover varTypes s transformedXstar 0 std workUp c = some cut) :
    Follows varTypes s c cut ∧ ∀ j ∈ keys cut.vector, j ∈ keys c.vector := by
  unfold generateLiftedMixedBinaryCover at h
  dsimp only at h
  split_ifs at h with hwork hupper hnone hwork'
  cases h
  generalize hterms : c.negate.vector.zipIdx.map (coverTerm varTypes s transformedXstar) = terms at *
  generalize hrhs : c.negate.rhs - (c.negate.vector.map fun q =>
    if varTypes q.1 ≠ .continuous ∧ q.2 < 0 then q.2 * newUpper s q.1 else 0).sum = rhs at *
  generalize hentries : terms.filter (fun t =>
    t.isIntegral && decide (0 < t.coeff) && decide (0 < t.solutionValue)) = entries at *
  generalize hcover : takeCover 0 rhs 0 (insertionSorter.sort (liftedCoverOrder 0) entries) = cover
    at *
  generalize hsort : std.sort (fun a b : CoverTerm => decide (b.coeff < a.coeff)) cover = sorted at *
  generalize hlam : (cover.map CoverTerm.coeff).sum - rhs = lam at *
  have hperm : sorted.Perm cover := hsort ▸ std.perm _ cover
  have hmemTerms : ∀ t ∈ terms, ∃ p ∈ c.negate.vector.zipIdx,
      coverTerm varTypes s transformedXstar p = t := by
    intro t ht
    rw [← hterms] at ht
    exact mem_map.mp ht
  have hindex : ∀ t ∈ terms, t.index ∈ keys c.vector := by
    intro t ht
    obtain ⟨p, hp, rfl⟩ := hmemTerms t ht
    rw [(coverTerm_index p).1, ← keys_negate c]
    exact mem_map_of_mem (fst_mem_of_mem_zipIdx hp)
  refine ⟨fun y hy hc => ?_, fun j hj => ?_⟩
  · have hpositions : (terms.map CoverTerm.position).Nodup := by
      have hsnd : terms.map CoverTerm.position = c.negate.vector.zipIdx.map Prod.snd := by
        rw [← hterms, map_map]
        exact map_congr_left fun p _ => (coverTerm_index p).2
      rw [hsnd]
      exact nodup_zipIdx_map_snd _
    have hmem : ∀ t ∈ sorted, t ∈ terms ∧ t.isIntegral = true := by
      intro t ht
      have hcoverMem := hperm.mem_iff.mp ht
      rw [← hcover] at hcoverMem
      have hentry := (insertionSorter.perm _ _).mem_iff.mp
        ((takeCover_sublist 0 rhs 0 _).subset hcoverMem)
      rw [← hentries] at hentry
      obtain ⟨htmem, hprop⟩ := mem_filter.mp hentry
      simp only [Bool.and_eq_true] at hprop
      exact ⟨htmem, hprop.1.1⟩
    have hnodup : sorted.Nodup := by
      have hentriesNodup : entries.Nodup := by
        rw [← hentries]
        exact (List.Nodup.of_map _ hpositions).filter _
      rw [hperm.nodup_iff, ← hcover]
      exact ((insertionSorter.perm _ entries).nodup_iff.mpr hentriesNodup).sublist
        (takeCover_sublist 0 rhs 0 _)
    have hsorted : (sorted.map CoverTerm.coeff).Pairwise (· ≥ ·) := by
      have hkey : ByKey (fun a b : CoverTerm => decide (b.coeff < a.coeff))
          fun t => OrderDual.toDual t.coeff := by
        intro a b
        exact decide_eq_true_iff
      have hpairwise := std.sorted hkey cover
      rw [hsort, pairwise_map] at hpairwise
      exact pairwise_map.mpr hpairwise
    have hfits : ∀ t ∈ terms, t.Fits s y := by
      intro t ht
      obtain ⟨p, hp, rfl⟩ := hmemTerms t ht
      have hentry := fst_mem_of_mem_zipIdx hp
      refine coverTerm_fits hbinary (fun hne => ?_) (keys_negate c ▸ mem_map_of_mem hentry) hy
      by_contra hnot
      refine hupper (any_eq_true.mpr ⟨p.1, hentry, ?_⟩)
      rw [decide_eq_true hne, Bool.true_and]
      simpa using hnot
    have hbase : (terms.map fun t => t.coeff * coverValue s y t).sum ≤ rhs := by
      have hdot : dot c.negate.vector y ≤ c.negate.rhs := by
        rw [dot_negate]
        exact neg_le_neg (sub_nonneg.mp hc)
      have hle : ((c.negate.vector.zipIdx.map fun p =>
          (coverTerm varTypes s transformedXstar p).coeff *
            coverValue s y (coverTerm varTypes s transformedXstar p) +
          (if varTypes p.1.1 ≠ .continuous ∧ p.1.2 < 0 then p.1.2 * newUpper s p.1.1 else 0))).sum ≤
          (c.negate.vector.zipIdx.map fun p => p.1.2 * y p.1.1).sum := by
        refine sum_le_sum fun p hp => coverTerm_value_le p ?_
        have hkey : p.1.1 ∈ keys c.vector :=
          keys_negate c ▸ mem_map_of_mem (fst_mem_of_mem_zipIdx hp)
        exact (hy _ hkey).1
      have hfst : ∀ g : ℕ × ℚ → ℚ, (c.negate.vector.zipIdx.map fun p => g p.1).sum =
          (c.negate.vector.map g).sum := by
        intro g
        conv_rhs => rw [← zipIdx_map_fst 0 c.negate.vector, map_map]
        rfl
      rw [sum_map_add, hfst fun q => q.2 * y q.1, hfst fun q =>
        if varTypes q.1 ≠ .continuous ∧ q.2 < 0 then q.2 * newUpper s q.1 else 0] at hle
      rw [← hterms, map_map, ← hrhs]
      exact le_sub_iff_add_le.mpr (hle.trans hdot)
    have hpos : 0 < lam := not_le.mp fun hle => hnone (.inr (.inl hle))
    have hlamSorted : lam = (sorted.map CoverTerm.coeff).sum - rhs := by
      rw [← hlam, (hperm.map CoverTerm.coeff).sum_eq]
    have hlifted := lifted_sum_le hpositions hfits hnodup hmem hsorted hlamSorted hpos hbase
    have hcomplemented := dot_complemented (s := s) (y := y) (liftedCoefficient 0 lam sorted
      (runningSums 0 ((sorted.takeWhile fun t => decide (0 < t.coeff - lam)).map CoverTerm.coeff)))
      terms
    rw [Inequality.slack, liftedCut, dot_negate, MixedProblem.dot_squeeze, hcomplemented,
      Inequality.negate]
    have hin : terms.filter (fun t => t.isIntegral && sorted.any fun c =>
        decide (c.position = t.position)) = terms.filter (inCover sorted) := rfl
    dsimp only
    rw [hin]
    linarith
  · obtain ⟨t, ht, rfl⟩ := mem_keys_liftedCut hj
    exact hindex t ht

end CuOpt.Cuts
