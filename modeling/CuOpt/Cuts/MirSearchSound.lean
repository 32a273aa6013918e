import CuOpt.Cuts.MirCuts
import CuOpt.Library.RoundingCuts

/-! Every cut that the search over divisors and complementations finds follows from the transformed
inequality, at all values of its columns that are nonnegative and fit their types and bounds. -/

namespace CuOpt.Cuts

open List hiding getElem?_eq_some_iff keys
open SparseList QuadProgram Sorting RoundingCuts
open Inequality (slack)

variable {varTypes : ℕ → VariableType} {s : ℕ → ColumnSubstitution} {c cut : Inequality}
  {y : ℕ → ℚ}

def FitValues (varTypes : ℕ → VariableType) (s : ℕ → ColumnSubstitution) (k : List ℕ)
    (y : ℕ → ℚ) : Prop :=
  ∀ j ∈ k, 0 ≤ y j ∧ (varTypes j = .integer → (∃ m : ℤ, y j = m) ∧
    ∀ u ∈ (s j).transformedUpper, y j ≤ u ∧ ∃ m : ℤ, u = m)

def Follows (varTypes : ℕ → VariableType) (s : ℕ → ColumnSubstitution) (c cut : Inequality) :
    Prop :=
  ∀ y, FitValues varTypes s (keys c.vector) y → 0 ≤ c.slack y → 0 ≤ cut.slack y

lemma mirCoefficient_eq (a β : ℚ) : mirCoefficient a β = mir a β := rfl

lemma generateCutNonnegative_sound (h : generateCutNonnegative varTypes c = some cut)
    (hy : FitValues varTypes s (keys c.vector) y) (hc : 0 ≤ c.slack y) : 0 ≤ cut.slack y := by
  unfold generateCutNonnegative at h
  dsimp only at h
  split_ifs at h
  cases h
  have hfit : ∀ q ∈ c.vector, q.1 ∈ keys c.vector := fun q hq => mem_map_of_mem hq
  have hmir := mir_le_sum (a := Prod.snd) (y := fun q : ℕ × ℚ => y q.1)
    (fun q : ℕ × ℚ => decide (varTypes q.1 = .integer)) (fun q hq => (hy q.1 (hfit q hq)).1)
    (fun q hq hint => ((hy q.1 (hfit q hq)).2 (of_decide_eq_true hint)).1) (sub_nonneg.mp hc)
  refine sub_nonneg.mpr (hmir.trans_eq ?_)
  rw [dot, map_map]
  refine congrArg sum (map_congr_left fun q _ => ?_)
  simp only [Function.comp_apply, decide_eq_true_eq, mirCoefficient_eq]

lemma keys_generateCutNonnegative (h : generateCutNonnegative varTypes c = some cut) :
    keys cut.vector = keys c.vector := by
  unfold generateCutNonnegative at h
  dsimp only at h
  split_ifs at h
  cases h
  rw [keys, map_map]
  rfl

lemma slack_scale (factor : ℚ) (c : Inequality) (y : ℕ → ℚ) :
    (c.scale factor).slack y = factor * c.slack y := by
  have hdot : dot (c.scale factor).vector y = factor * dot c.vector y := by
    rw [dot, dot, Inequality.scale, map_map, ← sum_map_mul_left]
    refine congrArg sum (map_congr_left fun q _ => ?_)
    show q.2 * factor * y q.1 = factor * (q.2 * y q.1)
    ring
  rw [slack, hdot, slack, Inequality.scale]
  ring

lemma keys_scale (factor : ℚ) (c : Inequality) : keys (c.scale factor).vector = keys c.vector := by
  rw [Inequality.scale, keys, map_map]
  rfl

section Complement

variable (s) (k : List ℕ)

/-- The values with the column at position `l` replaced by its distance to its upper bound. -/
def flip (y : ℕ → ℚ) (l : ℕ) (j : ℕ) : ℚ :=
  if k[l]? = some j then (s j).transformedUpper.getD 0 - y j else y j

lemma flip_flip (y : ℕ → ℚ) (l : ℕ) : flip s k (flip s k y l) l = y := by
  funext j
  unfold flip
  split_ifs
  · ring
  · rfl

lemma flip_comm (y : ℕ → ℚ) (l l' : ℕ) :
    flip s k (flip s k y l) l' = flip s k (flip s k y l') l := by
  funext j
  unfold flip
  split_ifs <;> rfl

lemma foldl_flip_comm (L : List ℕ) (y : ℕ → ℚ) (l : ℕ) :
    flip s k (L.foldl (flip s k) y) l = L.foldl (flip s k) (flip s k y l) := by
  induction L generalizing y with
  | nil => rfl
  | cons l' L ih => rw [foldl_cons, foldl_cons, ih, flip_comm]

lemma foldl_flip_foldl_flip (L : List ℕ) (y : ℕ → ℚ) :
    L.foldl (flip s k) (L.foldl (flip s k) y) = y := by
  induction L generalizing y with
  | nil => rfl
  | cons l L ih => rw [foldl_cons, foldl_cons, foldl_flip_comm, flip_flip, ih]

variable {s k}

lemma keys_complementAt (c : Inequality) (l : ℕ) :
    keys (complementAt s c l).vector = keys c.vector := by
  unfold complementAt
  split
  · rfl
  · next j aj hl =>
    obtain ⟨hlt, heq⟩ := List.getElem?_eq_some_iff.mp hl
    rw [keys, map_set]
    refine ext_getElem (by simp [keys]) fun n h₁ h₂ => ?_
    rw [getElem_set]
    split_ifs with hn
    · subst hn
      simp [keys, heq]
    · rfl

lemma keys_foldl_complementAt (L : List ℕ) (c : Inequality) :
    keys (L.foldl (complementAt s) c).vector = keys c.vector := by
  induction L generalizing c with
  | nil => rfl
  | cons l L ih => rw [foldl_cons, ih, keys_complementAt]

lemma slack_complementAt (hnodup : (keys c.vector).Nodup) (y : ℕ → ℚ) (l : ℕ) :
    (complementAt s c l).slack (flip s (keys c.vector) y l) = c.slack y := by
  unfold complementAt
  have hkey : (keys c.vector)[l]? = c.vector[l]?.map Prod.fst := getElem?_map
  split
  · next hl =>
    have hsame : flip s (keys c.vector) y l = y := by
      funext j
      rw [flip, hkey, hl]
      exact if_neg (by simp)
    rw [hsame]
  · next j aj hl =>
    obtain ⟨hlt, heq⟩ := List.getElem?_eq_some_iff.mp hl
    have hother : ∀ q ∈ c.vector.eraseIdx l, flip s (keys c.vector) y l q.1 = y q.1 := by
      intro q hq
      refine if_neg fun hqj => ?_
      rw [hkey, hl] at hqj
      obtain ⟨n, hn, hnl, rfl⟩ := mem_eraseIdx_iff_getElem.mp hq
      have hn' : n < (keys c.vector).length := by simpa [keys] using hn
      have hlt' : l < (keys c.vector).length := by simpa [keys] using hlt
      have hkeys : (keys c.vector)[n] = (keys c.vector)[l] := by
        simp only [keys, getElem_map, heq]
        exact (Option.some.inj hqj).symm
      exact hnl ((Nodup.getElem_inj_iff hnodup).mp hkeys)
    have hself : flip s (keys c.vector) y l j = (s j).transformedUpper.getD 0 - y j := by
      refine if_pos ?_
      rw [hkey, hl]
      rfl
    have hperm : c.vector.Perm ((j, aj) :: c.vector.eraseIdx l) :=
      heq ▸ (getElem_cons_eraseIdx_perm hlt).symm
    have hset : (c.vector.set l (j, -aj)).Perm ((j, -aj) :: c.vector.eraseIdx l) :=
      set_perm_cons_eraseIdx hlt (j, -aj)
    have hrest : dot (c.vector.eraseIdx l) (flip s (keys c.vector) y l) =
        dot (c.vector.eraseIdx l) y := by
      refine congrArg sum (map_congr_left fun q hq => ?_)
      rw [hother q hq]
    have hcons : ∀ (l : List (ℕ × ℚ)) (q : ℕ × ℚ) (f : ℕ → ℚ),
        dot (q :: l) f = q.2 * f q.1 + dot l f := fun _ _ _ => rfl
    rw [slack, slack, dot_perm hperm, dot_perm hset, hcons, hcons, hrest,
      hself]
    ring

lemma slack_foldl_complementAt (hnodup : (keys c.vector).Nodup) (L : List ℕ) (y : ℕ → ℚ) :
    (L.foldl (complementAt s) c).slack (L.foldl (flip s (keys c.vector)) y) = c.slack y := by
  induction L generalizing c y with
  | nil => rfl
  | cons l L ih =>
    have hkeys := keys_complementAt (s := s) c l
    have hnodup' : (keys (complementAt s c l).vector).Nodup := hkeys ▸ hnodup
    rw [foldl_cons, foldl_cons, ← hkeys, ih hnodup', hkeys, slack_complementAt hnodup]

end Complement

section Search

def Complementable (varTypes : ℕ → VariableType) (s : ℕ → ColumnSubstitution) (k : List ℕ)
    (l : ℕ) : Prop :=
  ∀ j, k[l]? = some j → varTypes j = .integer ∧ (s j).transformedUpper ≠ none

lemma FitValues.flip {k : List ℕ} {l : ℕ} (hy : FitValues varTypes s k y)
    (hl : Complementable varTypes s k l) : FitValues varTypes s k (flip s k y l) := by
  intro j hj
  unfold CuOpt.Cuts.flip
  split_ifs with hlj
  · obtain ⟨htype, hupper⟩ := hl j hlj
    obtain ⟨u, hu⟩ := Option.ne_none_iff_exists'.mp hupper
    obtain ⟨⟨m, hm⟩, hbound⟩ := (hy j hj).2 htype
    obtain ⟨hle, n, hn⟩ := hbound u hu
    rw [hu, Option.getD_some]
    refine ⟨sub_nonneg.mpr hle, fun _ => ⟨⟨n - m, by rw [hm, hn, Int.cast_sub]⟩, ?_⟩⟩
    intro w hw
    cases hw
    exact ⟨sub_le_self u (hy j hj).1, n, hn⟩
  · exact hy j hj

variable {L : List ℕ}

lemma FitValues.foldl_flip {k : List ℕ} (hy : FitValues varTypes s k y)
    (hL : ∀ l ∈ L, Complementable varTypes s k l) :
    FitValues varTypes s k (L.foldl (CuOpt.Cuts.flip s k) y) := by
  induction L generalizing y with
  | nil => exact hy
  | cons l L ih =>
    exact ih (hy.flip (hL l mem_cons_self)) fun l' hl' => hL l' (mem_cons_of_mem l hl')

variable {delta : ℚ}

lemma scaleUncomplement_follows (hnodup : (keys c.vector).Nodup)
    (hL : ∀ l ∈ L, Complementable varTypes s (keys c.vector) l) (hdelta : 0 < delta)
    (h : scaleUncomplementAndGenerateCut varTypes s L (L.foldl (complementAt s) c) delta =
      some cut) : Follows varTypes s c cut ∧ keys cut.vector = keys c.vector := by
  obtain ⟨rounded, hrounded, rfl⟩ := Option.map_eq_some_iff.mp h
  have hkeys := keys_foldl_complementAt (s := s) L c
  generalize hscaled : (if delta ≠ 1 then (L.foldl (complementAt s) c).scale (1 / delta) else
    L.foldl (complementAt s) c) = scaled at hrounded
  have hkeysScaled : keys scaled.vector = keys c.vector := by
    rw [← hscaled]
    split_ifs
    · rw [keys_scale, hkeys]
    · exact hkeys
  have hkeysRounded := (keys_generateCutNonnegative hrounded).trans hkeysScaled
  refine ⟨fun y hy hc => ?_, (keys_foldl_complementAt L rounded).trans hkeysRounded⟩
  have hfit := hy.foldl_flip hL
  have hcomplemented := slack_foldl_complementAt (s := s) hnodup L y
  have hslack : 0 ≤ scaled.slack (L.foldl (CuOpt.Cuts.flip s (keys c.vector)) y) := by
    rw [← hscaled]
    split_ifs
    · rw [slack_scale, hcomplemented]
      exact mul_nonneg (one_div_pos.mpr hdelta).le hc
    · rw [hcomplemented]
      exact hc
  have hcut := generateCutNonnegative_sound (s := s) hrounded (hkeysScaled.symm ▸ hfit) hslack
  have hback := slack_foldl_complementAt (s := s) (hkeysRounded ▸ hnodup) L
    (L.foldl (CuOpt.Cuts.flip s (keys c.vector)) y)
  rw [hkeysRounded, foldl_flip_foldl_flip] at hback
  rw [hback]
  exact hcut

structure FoundCut.Sound (varTypes : ℕ → VariableType) (s : ℕ → ColumnSubstitution)
    (c : Inequality) (f : FoundCut) : Prop where
  follows : Follows varTypes s c f.cut
  keys_eq : keys f.cut.vector = keys c.vector
  delta_pos : 0 < f.delta
  complemented_eq : f.complemented = f.complementedIndices.foldl (complementAt s) c
  complementable : ∀ l ∈ f.complementedIndices, Complementable varTypes s (keys c.vector) l

def CutSearch.Sound (varTypes : ℕ → VariableType) (s : ℕ → ColumnSubstitution) (c : Inequality) :
    CutSearch → Prop
  | .found f => f.Sound varTypes s c
  | _ => True

variable (transformedXstar : ℕ → ℚ) (clock : ℕ → Bool)

section

variable (hnodup : (keys c.vector).Nodup)
include hnodup

lemma tryDeltas_sound (hL : ∀ l ∈ L, Complementable varTypes s (keys c.vector) l)
    (deltas : List ℚ) (hdeltas : ∀ d ∈ deltas, 0 < d) (n : ℕ) :
    (tryDeltas varTypes s transformedXstar clock L (L.foldl (complementAt s) c) deltas n).1.Sound
      varTypes s c := by
  induction deltas generalizing n with
  | nil => trivial
  | cons delta rest ih =>
    have hrest : ∀ d ∈ rest, 0 < d := fun d hd => hdeltas d (mem_cons_of_mem delta hd)
    rw [tryDeltas]
    split_ifs with htime
    · trivial
    · cases hcut : scaleUncomplementAndGenerateCut varTypes s L (L.foldl (complementAt s) c)
          delta with
      | none => exact ih hrest (n + 1)
      | some cut =>
        dsimp only
        split_ifs with hviolated
        · have hdelta := hdeltas delta mem_cons_self
          obtain ⟨hfollows, hkeys⟩ := scaleUncomplement_follows hnodup hL hdelta hcut
          exact ⟨hfollows, hkeys, hdelta, rfl, hL⟩
        · exact ih hrest (n + 1)

omit hnodup in
lemma complementable_append {l : ℕ} (hL : ∀ l' ∈ L, Complementable varTypes s (keys c.vector) l')
    (hl : Complementable varTypes s (keys c.vector) l) :
    ∀ l' ∈ L ++ [l], Complementable varTypes s (keys c.vector) l' := by
  intro l' hl'
  rcases mem_append.mp hl' with hl' | hl'
  · exact hL l' hl'
  · exact mem_singleton.mp hl' ▸ hl

lemma tryComplements_sound (deltas : List ℚ) (hdeltas : ∀ d ∈ deltas, 0 < d) (order : List ℕ)
    (horder : ∀ l ∈ order, Complementable varTypes s (keys c.vector) l)
    (hL : ∀ l ∈ L, Complementable varTypes s (keys c.vector) l) (n : ℕ) :
    (tryComplements varTypes s transformedXstar clock deltas order L
      (L.foldl (complementAt s) c) n).1.Sound varTypes s c := by
  induction order generalizing L n with
  | nil => trivial
  | cons l rest ih =>
    have hL' := complementable_append hL (horder l mem_cons_self)
    have hfold : complementAt s (L.foldl (complementAt s) c) l =
        (L ++ [l]).foldl (complementAt s) c := (foldl_concat ..).symm
    rw [tryComplements, hfold]
    have htry := tryDeltas_sound transformedXstar clock hnodup hL' deltas hdeltas n
    split
    · exact ih (fun l' hl' => horder l' (mem_cons_of_mem l hl')) hL' _
    · exact htry

lemma tryScaledDelta_sound {f : FoundCut} (hf : f.Sound varTypes s c) (hdelta : 0 < delta) :
    (tryScaledDelta varTypes s transformedXstar f delta).Sound varTypes s c := by
  unfold tryScaledDelta
  split
  · exact hf
  · next cut hcut =>
    rw [hf.complemented_eq] at hcut
    obtain ⟨hfollows, hkeys⟩ :=
      scaleUncomplement_follows hnodup hf.complementable hdelta hcut
    dsimp only
    split_ifs
    · exact ⟨hfollows, hkeys, hdelta, hf.complemented_eq, hf.complementable⟩
    · exact hf

lemma improveByComplements_sound (hdelta : 0 < delta) (order : List ℕ)
    (horder : ∀ l ∈ order, Complementable varTypes s (keys c.vector) l)
    (hL : ∀ l ∈ L, Complementable varTypes s (keys c.vector) l) (n : ℕ)
    {best best' : Inequality × ℚ} (hbest : Follows varTypes s c best.1)
    (hkeys : keys best.1.vector = keys c.vector)
    (h : improveByComplements varTypes s transformedXstar clock delta order L
      (L.foldl (complementAt s) c) n best = some best') :
    Follows varTypes s c best'.1 ∧ keys best'.1.vector = keys c.vector := by
  induction order generalizing L n best with
  | nil =>
    cases h
    exact ⟨hbest, hkeys⟩
  | cons l rest ih =>
    have hL' := complementable_append hL (horder l mem_cons_self)
    have hfold : complementAt s (L.foldl (complementAt s) c) l =
        (L ++ [l]).foldl (complementAt s) c := (foldl_concat ..).symm
    rw [improveByComplements] at h
    dsimp only at h
    rw [hfold] at h
    split_ifs at h
    have hrest : ∀ l' ∈ rest, Complementable varTypes s (keys c.vector) l' :=
      fun l' hl' => horder l' (mem_cons_of_mem l hl')
    cases hcut : scaleUncomplementAndGenerateCut varTypes s (L ++ [l])
        ((L ++ [l]).foldl (complementAt s) c) delta with
    | none =>
      rw [hcut] at h
      exact ih hrest hL' _ hbest hkeys h
    | some cut =>
      rw [hcut] at h
      dsimp only at h
      obtain ⟨hfollows, hkeysCut⟩ := scaleUncomplement_follows hnodup hL' hdelta hcut
      split_ifs at h
      · refine ih hrest hL' _ ?_ ?_ h
        · exact hfollows
        · exact hkeysCut
      · exact ih hrest hL' _ hbest hkeys h

end

variable (varTypes s) in
theorem deltasToTry_pos (c : Inequality) :
    ∀ d ∈ deltasToTry varTypes s transformedXstar c, 0 < d := by
  intro d hd
  unfold deltasToTry at hd
  rcases mem_append.mp hd with hd | hd
  · rcases mem_cons.mp hd with rfl | hd
    · exact one_pos
    · obtain ⟨q, hq, rfl⟩ := mem_map.mp hd
      have hlarge := of_mem_filter hq
      simp only [Bool.and_eq_true, decide_eq_true_eq] at hlarge
      exact lt_trans (by norm_num) hlarge.2
  · split_ifs at hd with hmax
    · have hpos := lt_trans (by norm_num : (0 : ℚ) < 1 / 10 ^ 6) hmax.1
      rcases mem_cons.mp hd with rfl | hd
      · exact hpos
      · rw [mem_singleton.mp hd]
        exact add_pos hpos one_pos
    · cases hd

variable (varTypes s) in
theorem complementOrder_complementable (std : Sorter) (c : Inequality) :
    ∀ l ∈ complementOrder varTypes s transformedXstar std c,
      Complementable varTypes s (keys c.vector) l := by
  intro l hl j hj
  have hl' := of_mem_filter ((std.perm _ _).mem_iff.mp hl)
  rw [keys, getElem?_map] at hj
  obtain ⟨q, hq, rfl⟩ := Option.map_eq_some_iff.mp hj
  rw [hq] at hl'
  simp only [Option.any_some, Bool.and_eq_true, decide_eq_true_eq] at hl'
  exact ⟨hl'.1.1, Option.isSome_iff_ne_none.mp hl'.1.2⟩

lemma searchCut_sound (hnodup : (keys c.vector).Nodup) (deltas : List ℚ)
    (hdeltas : ∀ d ∈ deltas, 0 < d) (order : List ℕ)
    (horder : ∀ l ∈ order, Complementable varTypes s (keys c.vector) l) :
    (searchCut varTypes s transformedXstar clock deltas order c).1.Sound varTypes s c := by
  have hnil : ∀ l ∈ ([] : List ℕ), Complementable varTypes s (keys c.vector) l :=
    nofun
  have htry := tryDeltas_sound transformedXstar clock hnodup hnil deltas hdeltas 0
  unfold searchCut
  split
  · exact tryComplements_sound transformedXstar clock hnodup deltas hdeltas order horder hnil _
  · exact htry

/-- The cut of the heuristic follows from the transformed inequality. -/
lemma cutGenerationHeuristic_follows {transformedXstar : ℕ → ℚ} {clock : ℕ → Bool}
    (hnodup : (keys c.vector).Nodup) (std : Sorter)
    (h : cutGenerationHeuristic varTypes s transformedXstar std clock c = some cut) :
    Follows varTypes s c cut ∧ keys cut.vector = keys c.vector := by
  have horder := complementOrder_complementable varTypes s transformedXstar std c
  have hsearch := searchCut_sound transformedXstar clock hnodup _
    (deltasToTry_pos varTypes s transformedXstar c) _ horder
  have hnil : ∀ l ∈ ([] : List ℕ), Complementable varTypes s (keys c.vector) l :=
    nofun
  unfold cutGenerationHeuristic at h
  dsimp only at h
  split at h
  · next f candidates heq =>
    rw [heq] at hsearch
    have hf : f.Sound varTypes s c := hsearch
    have hpos := hf.delta_pos
    have hscaled : ([f.delta / 2, f.delta / 4, f.delta / 8].foldl
        (tryScaledDelta varTypes s transformedXstar) f).Sound varTypes s c := by
      refine tryScaledDelta_sound _ hnodup (tryScaledDelta_sound _ hnodup
        (tryScaledDelta_sound _ hnodup hf ?_) ?_) ?_
      all_goals linarith
    generalize [f.delta / 2, f.delta / 4, f.delta / 8].foldl
      (tryScaledDelta varTypes s transformedXstar) f = f' at h hscaled
    split at h
    · cases h
    · next best cut' violation himprove =>
      split_ifs at h
      cases h
      refine improveByComplements_sound _ _ hnodup hscaled.delta_pos _ horder hnil candidates ?_ ?_
        himprove
      · exact hscaled.follows
      · exact hscaled.keys_eq
  · cases h

end Search

end CuOpt.Cuts
