import CuOpt.Presolve.MipProblem

/-! `substitute_variables`: substituted variables are replaced in the rows and the objective, and the
entries that meet on one variable are merged. -/

namespace CuOpt.Presolve

open List hiding getElem?_eq_some_iff keys range
open SparseList QuadProgram
open Function (update)
open Finset (range)

abbrev RowSort := List (ℕ × ℚ) → List (ℕ × ℚ)

def variableFixMask (subs : List Substitution) : ℕ → Option ℕ :=
  subs.zipIdx.foldl (fun mask p => update mask p.1.substitutedVar (some p.2)) fun _ => none

def transformEntry (mask : ℕ → Option ℕ) (subs : List Substitution) (e : ℕ × ℚ) : (ℕ × ℚ) × ℚ :=
  match mask e.1 with
  | some referenceIdx =>
    let sub := subs.getD referenceIdx ⟨0, 0, 0, 0⟩
    ((sub.substitutingVar, e.2 * sub.coefficient), e.2 * sub.offset)
  | none => (e, 0)

/-- The rest of a row from the entry where a run starts; `merged` entries of the run are already added
to it. -/
def mergeRun (dummy : ℕ) (start : ℕ × ℚ) (merged : ℕ) : List (ℕ × ℚ) → List (ℕ × ℚ)
  | [] => start :: replicate merged (dummy, 0)
  | e :: l =>
    if e.1 = start.1 then mergeRun dummy (start.1, start.2 + e.2) (merged + 1) l
    else start :: replicate merged (dummy, 0) ++ mergeRun dummy e 0 l

/-- Later entries of a run become entries of `dummy` with coefficient zero. -/
def mergeDuplicates (dummy : ℕ) : List (ℕ × ℚ) → List (ℕ × ℚ)
  | [] => []
  | e :: l => mergeRun dummy e 0 l

def substituteObjective (subs : List Substitution) (objective : ℕ → ℚ) : ℕ → ℚ :=
  subs.foldl (fun c s => addAt c s.substitutingVar (c s.substitutedVar * s.coefficient)) objective

/-- `none` stands for reading the first of no variables. -/
def substituteVariables (sortRow : RowSort) (p : MipProblem) : List Substitution → Option MipProblem
  | [] => none
  | first :: rest =>
    let subs := first :: rest
    let mask := variableFixMask subs
    let entries := fun i => (p.row i).map (transformEntry mask subs)
    let reductionInRhs := fun i => ((entries i).map Prod.snd).sum
    let objective := substituteObjective subs p.objectiveCoefficients
    some { p with
      row := fun i => mergeDuplicates first.substitutedVar (sortRow ((entries i).map Prod.fst))
      constraintLowerBounds := fun i => (p.constraintLowerBounds i).map (· - reductionInRhs i)
      constraintUpperBounds := fun i => (p.constraintUpperBounds i).map (· - reductionInRhs i)
      objectiveCoefficients :=
        subs.foldl (fun c s => update c s.substitutedVar 0) objective
      presolveData := { p.presolveData with
        objectiveOffset := p.presolveData.objectiveOffset +
          (subs.map fun s => p.objectiveCoefficients s.substitutedVar * s.offset).sum
        impliedInteger :=
          subs.foldl (fun flags s => update flags s.substitutingVar false)
            p.presolveData.impliedInteger } }

def targets (subs : List Substitution) : List ℕ := subs.map Substitution.substitutedVar

/-- What the pass asserts of its lists: no variable is substituted twice, and none of them
substitutes another. -/
structure Substitutable (p : MipProblem) (subs : List Substitution) : Prop where
  nodup : (targets subs).Nodup
  exclusive : ∀ s ∈ subs, s.substitutingVar ∉ targets subs
  target_lt : ∀ s ∈ subs, s.substitutedVar < p.nVariables
  source_lt : ∀ s ∈ subs, s.substitutingVar < p.nVariables

def setSubstituted (subs : List Substitution) (x : ℕ → ℚ) (v : ℕ) : ℚ :=
  match subs.find? fun s => s.substitutedVar = v with
  | some s => s.offset + s.coefficient * x s.substitutingVar
  | none => x v

section Points

variable {p : MipProblem} {subs : List Substitution} {x : ℕ → ℚ}

lemma variableFixMask_snoc (subs : List Substitution) (s : Substitution) :
    variableFixMask (subs ++ [s]) =
      update (variableFixMask subs) s.substitutedVar (some subs.length) := by
  rw [variableFixMask, zipIdx_append, foldl_append, Nat.zero_add]
  rfl

lemma variableFixMask_spec (subs : List Substitution) (v : ℕ) :
    (∀ k, variableFixMask subs v = some k → ∃ s, subs[k]? = some s ∧ s.substitutedVar = v) ∧
      (variableFixMask subs v = none → v ∉ targets subs) := by
  induction subs using reverseRecOn with
  | nil =>
    constructor
    · intro k hk
      exact absurd hk (Option.some_ne_none k).symm
    · exact fun _ => not_mem_nil
  | append_singleton subs s ih =>
    rw [variableFixMask_snoc]
    by_cases hv : v = s.substitutedVar
    · rw [hv, Function.update_self]
      constructor
      · intro k hk
        cases hk
        exact ⟨s, by rw [getElem?_append_right le_rfl, Nat.sub_self]; rfl, rfl⟩
      · exact fun h => absurd h (Option.some_ne_none _)
    · rw [Function.update_of_ne hv]
      constructor
      · intro k hk
        obtain ⟨s', hs', hvar⟩ := ih.1 k hk
        have hlt := (List.getElem?_eq_some_iff.mp hs').1
        exact ⟨s', by rwa [getElem?_append_left hlt], hvar⟩
      · intro hnone hmem
        rw [targets, map_append, mem_append] at hmem
        rcases hmem with hmem | hmem
        · exact ih.2 hnone hmem
        · exact hv (mem_singleton.mp hmem)

lemma setSubstituted_of_mem (hnodup : (targets subs).Nodup) {s : Substitution} (hs : s ∈ subs) :
    setSubstituted subs x s.substitutedVar = s.offset + s.coefficient * x s.substitutingVar := by
  have hfind : subs.find? (fun s' => s'.substitutedVar = s.substitutedVar) = some s := by
    induction subs with
    | nil => cases hs
    | cons s' subs ih =>
      obtain ⟨hfresh, hrest⟩ := nodup_cons.mp hnodup
      rcases mem_cons.mp hs with rfl | hs
      · exact find?_cons_of_pos (decide_eq_true rfl)
      · have hne : s'.substitutedVar ≠ s.substitutedVar :=
          fun heq => hfresh (heq ▸ mem_map_of_mem hs)
        rw [find?_cons_of_neg (by rw [decide_eq_true_eq]; exact hne)]
        exact ih hrest hs
  rw [setSubstituted, hfind]

lemma setSubstituted_of_notMem {v : ℕ} (hv : v ∉ targets subs) :
    setSubstituted subs x v = x v := by
  have hfind : subs.find? (fun s => s.substitutedVar = v) = none := by
    rw [find?_eq_none]
    intro s hs heq
    exact hv (of_decide_eq_true heq ▸ mem_map_of_mem hs)
  rw [setSubstituted, hfind]

lemma transformEntry_notMem (hexclusive : ∀ s ∈ subs, s.substitutingVar ∉ targets subs)
    (e : ℕ × ℚ) : (transformEntry (variableFixMask subs) subs e).1.1 ∉ targets subs := by
  rw [transformEntry]
  cases hmask : variableFixMask subs e.1 with
  | none => exact (variableFixMask_spec subs e.1).2 hmask
  | some k =>
    obtain ⟨s, hs, -⟩ := (variableFixMask_spec subs e.1).1 k hmask
    dsimp only
    rw [getD_eq_getElem?_getD, hs, Option.getD_some]
    exact hexclusive s (mem_of_getElem? hs)

lemma transformEntry_value (hnodup : (targets subs).Nodup) (e : ℕ × ℚ) :
    (transformEntry (variableFixMask subs) subs e).1.2 *
        x (transformEntry (variableFixMask subs) subs e).1.1 +
      (transformEntry (variableFixMask subs) subs e).2 = e.2 * setSubstituted subs x e.1 := by
  rw [transformEntry]
  cases hmask : variableFixMask subs e.1 with
  | none =>
    rw [setSubstituted_of_notMem ((variableFixMask_spec subs e.1).2 hmask)]
    exact add_zero _
  | some k =>
    obtain ⟨s, hs, hvar⟩ := (variableFixMask_spec subs e.1).1 k hmask
    dsimp only
    rw [getD_eq_getElem?_getD, hs, Option.getD_some, ← hvar,
      setSubstituted_of_mem hnodup (mem_of_getElem? hs)]
    ring

lemma transformed_value (hnodup : (targets subs).Nodup) (row : List (ℕ × ℚ)) :
    dot ((row.map (transformEntry (variableFixMask subs) subs)).map Prod.fst) x +
        ((row.map (transformEntry (variableFixMask subs) subs)).map Prod.snd).sum =
      dot row (setSubstituted subs x) := by
  induction row with
  | nil => exact add_zero _
  | cons e row ih =>
    have he := transformEntry_value (x := x) hnodup e
    simp only [dot, map_cons, sum_cons] at ih ⊢
    rw [← ih, ← he]
    ring

lemma dot_replicate_zero (dummy k : ℕ) (x : ℕ → ℚ) :
    dot (replicate k (dummy, (0 : ℚ))) x = 0 := by
  refine sum_eq_zero fun v hv => ?_
  obtain ⟨e, he, rfl⟩ := mem_map.mp hv
  rw [eq_of_mem_replicate he, zero_mul]

lemma dot_mergeRun (dummy : ℕ) (start : ℕ × ℚ) (merged : ℕ) (l : List (ℕ × ℚ)) :
    dot (mergeRun dummy start merged l) x = start.2 * x start.1 + dot l x := by
  have hcons (e : ℕ × ℚ) (l : List (ℕ × ℚ)) : dot (e :: l) x = e.2 * x e.1 + dot l x := rfl
  induction l generalizing start merged with
  | nil => rw [mergeRun, hcons, dot_replicate_zero]; rfl
  | cons e l ih =>
    rw [mergeRun]
    split_ifs with heq
    · rw [ih, hcons, heq]
      ring
    · rw [cons_append, hcons, dot_append, dot_replicate_zero, zero_add, ih, hcons]

lemma dot_mergeDuplicates (dummy : ℕ) (l : List (ℕ × ℚ)) :
    dot (mergeDuplicates dummy l) x = dot l x := by
  cases l with
  | nil => rfl
  | cons e l => exact dot_mergeRun dummy e 0 l

lemma mergeRun_sorted (dummy : ℕ) (start : ℕ × ℚ) (merged : ℕ) (l : List (ℕ × ℚ))
    (hsorted : (start :: l).Pairwise fun a b => a.1 ≤ b.1) :
    ((mergeRun dummy start merged l).filter fun e => e.2 ≠ 0).Pairwise (fun a b => a.1 < b.1) ∧
      ∀ e ∈ mergeRun dummy start merged l, e.2 ≠ 0 → start.1 ≤ e.1 ∧ e.1 ∈ keys (start :: l) := by
  have hdummies : ∀ e ∈ replicate merged (dummy, (0 : ℚ)), ¬e.2 ≠ 0 :=
    fun e he => not_not.mpr (eq_of_mem_replicate he ▸ rfl)
  induction l generalizing start merged with
  | nil =>
    have hall : ∀ e ∈ mergeRun dummy start merged [], e.2 ≠ 0 → e = start := by
      intro e he hne
      rcases mem_cons.mp he with rfl | he
      · rfl
      · exact absurd hne (hdummies e he)
    constructor
    · rw [mergeRun, filter_cons, filter_eq_nil_iff.mpr fun e he => by
        rw [decide_eq_true_eq]; exact hdummies e he]
      split_ifs
      · exact pairwise_singleton _ _
      · exact Pairwise.nil
    · intro e he hne
      rw [hall e he hne]
      exact ⟨le_rfl, mem_cons_self⟩
  | cons q l ih =>
    obtain ⟨hfirst, hrest⟩ := pairwise_cons.mp hsorted
    have hle := hfirst q mem_cons_self
    rw [mergeRun]
    split_ifs with heq
    · obtain ⟨hpair, hmem⟩ := ih (start.1, start.2 + q.2) (merged + 1)
        (pairwise_cons.mpr ⟨fun e he => hfirst e (mem_cons_of_mem q he),
          (pairwise_cons.mp hrest).2⟩)
        (fun e he => not_not.mpr (eq_of_mem_replicate he ▸ rfl))
      refine ⟨hpair, fun e he hne => ?_⟩
      obtain ⟨hge, hkey⟩ := hmem e he hne
      refine ⟨hge, ?_⟩
      rcases mem_cons.mp hkey with hkey | hkey
      · rw [hkey]
        exact mem_cons_self
      · exact mem_cons_of_mem _ (mem_cons_of_mem _ hkey)
    · obtain ⟨hpair, hmem⟩ := ih q 0 hrest (nofun)
      have hlt : start.1 < q.1 := lt_of_le_of_ne hle (Ne.symm heq)
      constructor
      · rw [cons_append, filter_cons, filter_append,
          filter_eq_nil_iff.mpr fun e he => by
            rw [decide_eq_true_eq]; exact hdummies e he, nil_append]
        split_ifs
        · refine pairwise_cons.mpr ⟨fun e he => ?_, hpair⟩
          obtain ⟨he, hne⟩ := mem_filter.mp he
          exact hlt.trans_le (hmem e he (of_decide_eq_true hne)).1
        · exact hpair
      · intro e he hne
        rw [cons_append] at he
        rcases mem_cons.mp he with rfl | he
        · exact ⟨le_rfl, mem_cons_self⟩
        rcases mem_append.mp he with he | he
        · exact absurd hne (hdummies e he)
        · obtain ⟨hge, hkey⟩ := hmem e he hne
          exact ⟨hle.trans hge, mem_cons_of_mem _ hkey⟩

lemma mergeDuplicates_sorted (dummy : ℕ) {l : List (ℕ × ℚ)}
    (hsorted : l.Pairwise fun a b => a.1 ≤ b.1) :
    ((mergeDuplicates dummy l).filter fun e => e.2 ≠ 0).Pairwise (fun a b => a.1 < b.1) ∧
      ∀ e ∈ mergeDuplicates dummy l, e.2 ≠ 0 → e.1 ∈ keys l := by
  cases l with
  | nil => exact ⟨Pairwise.nil, nofun⟩
  | cons e l =>
    obtain ⟨hpair, hmem⟩ := mergeRun_sorted dummy e 0 l hsorted
    exact ⟨hpair, fun e' he' hne => (hmem e' he' hne).2⟩

lemma substituteObjective_eq (hexclusive : ∀ s ∈ subs, s.substitutingVar ∉ targets subs)
    (c : ℕ → ℚ) : substituteObjective subs c =
      addAll c (subs.map fun s => (s.substitutingVar, c s.substitutedVar * s.coefficient)) := by
  induction subs using reverseRecOn with
  | nil => rfl
  | append_singleton subs s ih =>
    have hsub : ∀ v ∈ targets subs, v ∈ targets (subs ++ [s]) := by
      intro v hv
      rw [targets, map_append]
      exact mem_append_left _ hv
    have hfirst := ih fun s' hs' hmem =>
      hexclusive s' (mem_append_left _ hs') (hsub _ hmem)
    -- the coefficient read has not been added to
    have hread : substituteObjective subs c s.substitutedVar = c s.substitutedVar := by
      rw [hfirst, addAll_apply, coeff_eq_zero, add_zero]
      intro hmem
      obtain ⟨e, he, heq⟩ := mem_map.mp hmem
      obtain ⟨s', hs', rfl⟩ := mem_map.mp he
      have hsource : s'.substitutingVar = s.substitutedVar := heq
      refine hexclusive s' (mem_append_left _ hs') (hsource ▸ ?_)
      exact mem_map_of_mem (mem_append_right _ mem_cons_self)
    have hstep : substituteObjective (subs ++ [s]) c = addAt (substituteObjective subs c)
        s.substitutingVar (substituteObjective subs c s.substitutedVar * s.coefficient) :=
      foldl_append
    rw [hstep, hread, hfirst, addAll, addAll, map_append, foldl_append]
    rfl

lemma zeroTargets_eq (hnodup : (targets subs).Nodup) (f : ℕ → ℚ) (v : ℕ) :
    subs.foldl (fun c s => update c s.substitutedVar 0) f v =
      if v ∈ targets subs then 0 else f v := by
  have hupdate : subs.foldl (fun c s => update c s.substitutedVar 0) f =
      updateAll f (targets subs) fun _ _ => 0 := by
    rw [updateAll, targets, foldl_map]
  rw [hupdate]
  split_ifs with hv
  · exact updateAll_of_mem f hnodup _ hv
  · exact updateAll_of_notMem f _ hv

lemma newObjective_eq (hnodup : (targets subs).Nodup)
    (hexclusive : ∀ s ∈ subs, s.substitutingVar ∉ targets subs) (c : ℕ → ℚ) (v : ℕ) :
    subs.foldl (fun c s => update c s.substitutedVar 0) (substituteObjective subs c) v =
      c v + coeff ((subs.map fun s => (s.substitutingVar, c s.substitutedVar * s.coefficient)) ++
        subs.map fun s => (s.substitutedVar, -c s.substitutedVar)) v := by
  have hkeys : keys (subs.map fun s => (s.substitutedVar, -c s.substitutedVar)) = targets subs := by
    rw [keys, map_map]
    rfl
  rw [zeroTargets_eq hnodup, substituteObjective_eq hexclusive, coeff_append]
  split_ifs with hv
  · have hsource : coeff (subs.map fun s =>
        (s.substitutingVar, c s.substitutedVar * s.coefficient)) v = 0 := by
      refine coeff_eq_zero fun hmem => ?_
      obtain ⟨e, he, heq⟩ := mem_map.mp hmem
      obtain ⟨s, hs, rfl⟩ := mem_map.mp he
      have hsource : s.substitutingVar = v := heq
      exact hexclusive s hs (hsource ▸ hv)
    obtain ⟨s, hs, rfl⟩ := mem_map.mp hv
    have htarget : coeff (subs.map fun s => (s.substitutedVar, -c s.substitutedVar))
        s.substitutedVar = -c s.substitutedVar :=
      coeff_of_mem (hkeys.symm ▸ hnodup) (mem_map_of_mem hs)
    rw [hsource, htarget, zero_add, add_neg_cancel]
  · rw [addAll_apply, coeff_eq_zero (l := subs.map fun s => (s.substitutedVar, _))
      (hkeys.symm ▸ hv), add_zero]

lemma setSubstituted_eq (hnodup : (targets subs).Nodup) (x : ℕ → ℚ) (v : ℕ) :
    setSubstituted subs x v = x v + coeff (subs.map fun s => (s.substitutedVar,
      s.offset + s.coefficient * x s.substitutingVar - x s.substitutedVar)) v := by
  have hkeys : keys (subs.map fun s => (s.substitutedVar,
      s.offset + s.coefficient * x s.substitutingVar - x s.substitutedVar)) = targets subs := by
    rw [keys, map_map]
    rfl
  by_cases hv : v ∈ targets subs
  · obtain ⟨s, hs, rfl⟩ := mem_map.mp hv
    have htarget : coeff (subs.map fun s => (s.substitutedVar,
        s.offset + s.coefficient * x s.substitutingVar - x s.substitutedVar)) s.substitutedVar =
          s.offset + s.coefficient * x s.substitutingVar - x s.substitutedVar :=
      coeff_of_mem (hkeys.symm ▸ hnodup) (mem_map_of_mem hs)
    rw [setSubstituted_of_mem hnodup hs, htarget, add_sub_cancel]
  · rw [setSubstituted_of_notMem hv, coeff_eq_zero (hkeys.symm ▸ hv), add_zero]

lemma substitutedObjective_value (h : Substitutable p subs) (c x : ℕ → ℚ) :
    ∑ v ∈ range p.nVariables,
        subs.foldl (fun c s => update c s.substitutedVar 0) (substituteObjective subs c) v *
          x v + (subs.map fun s => c s.substitutedVar * s.offset).sum =
      ∑ v ∈ range p.nVariables, c v * setSubstituted subs x v := by
  have hnew := dot_eq_sum ((subs.map fun s =>
      (s.substitutingVar, c s.substitutedVar * s.coefficient)) ++
        subs.map fun s => (s.substitutedVar, -c s.substitutedVar)) x (range p.nVariables) (by
      intro e he
      rw [Finset.mem_range]
      rcases mem_append.mp he with he | he
      · obtain ⟨s, hs, rfl⟩ := mem_map.mp he
        exact h.source_lt s hs
      · obtain ⟨s, hs, rfl⟩ := mem_map.mp he
        exact h.target_lt s hs)
  have hold := dot_eq_sum (subs.map fun s => (s.substitutedVar,
      s.offset + s.coefficient * x s.substitutingVar - x s.substitutedVar)) c
      (range p.nVariables) (by
      intro e he
      rw [Finset.mem_range]
      obtain ⟨s, hs, rfl⟩ := mem_map.mp he
      exact h.target_lt s hs)
  have hlists : dot ((subs.map fun s =>
      (s.substitutingVar, c s.substitutedVar * s.coefficient)) ++
        subs.map fun s => (s.substitutedVar, -c s.substitutedVar)) x +
        (subs.map fun s => c s.substitutedVar * s.offset).sum =
      dot (subs.map fun s => (s.substitutedVar,
        s.offset + s.coefficient * x s.substitutingVar - x s.substitutedVar)) c := by
    simp only [dot, map_append, sum_append, map_map, ← sum_map_add,
      Function.comp_def]
    refine congrArg sum (map_congr_left fun s _ => ?_)
    ring
  simp only [newObjective_eq h.nodup h.exclusive, setSubstituted_eq h.nodup, add_mul, mul_add,
    Finset.sum_add_distrib]
  rw [← hnew, add_assoc, hlists, hold]
  refine congrArg _ (Finset.sum_congr rfl fun v _ => mul_comm _ _)

end Points

lemma inBounds_sub (l u : Option ℚ) (r v : ℚ) :
    InBounds (l.map (· - r)) (u.map (· - r)) v ↔ InBounds l u (v + r) := by
  cases l <;> cases u <;> simp [InBounds, le_sub_iff_add_le]

def SortsRows (sortRow : RowSort) : Prop :=
  ∀ l, (sortRow l).Perm l ∧ (sortRow l).Pairwise fun a b => a.1 ≤ b.1

/-- What the pass makes of `p`: the rows and the objective of `p` at the substituted points, with each
variable that stays at most once in a row. -/
structure SubstitutesExactly (p p' : MipProblem) (subs : List Substitution) : Prop where
  rows : ∀ x, p'.RowsHold x ↔ p.RowsHold (setSubstituted subs x)
  objective : ∀ x, p'.objectiveValue x = p.objectiveValue (setSubstituted subs x)
  once : ∀ i, ((p'.row i).filter fun e => e.2 ≠ 0).Pairwise fun a b => a.1 < b.1
  gone : ∀ i, ∀ e ∈ p'.row i, e.2 ≠ 0 → e.1 ∉ targets subs

theorem substituteVariables_exact {sortRow : RowSort} (hsort : SortsRows sortRow) {p : MipProblem}
    {subs : List Substitution} (h : Substitutable p subs) (hne : subs ≠ []) :
    ∃ p', substituteVariables sortRow p subs = some p' ∧ SubstitutesExactly p p' subs := by
  match subs, hne with
  | first :: rest, _ =>
    set subs := first :: rest
    refine ⟨_, rfl, ?_⟩
    constructor
    case rows =>
      intro x
      refine forall_congr' fun i => forall_congr' fun _ => ?_
      refine (inBounds_sub _ _ _ _).trans ?_
      dsimp only
      have hvalue := transformed_value (x := x) h.nodup (p.row i)
      have hperm : dot (sortRow (((p.row i).map
          (transformEntry (variableFixMask subs) subs)).map Prod.fst)) x =
          dot (((p.row i).map (transformEntry (variableFixMask subs) subs)).map Prod.fst) x :=
        ((hsort _).1.map _).sum_eq
      rw [dot_mergeDuplicates, hperm, hvalue]
      rfl
    case objective =>
      intro x
      rw [MipProblem.objectiveValue, MipProblem.objectiveValue,
        ← substitutedObjective_value h p.objectiveCoefficients x, add_assoc]
      refine congrArg _ (add_comm _ _)
    case once =>
      exact fun i => (mergeDuplicates_sorted first.substitutedVar (hsort _).2).1
    case gone =>
      intro i e he hne
      have hkey := (mergeDuplicates_sorted first.substitutedVar (hsort _).2).2 e he hne
      obtain ⟨e', he', heq⟩ := mem_map.mp hkey
      obtain ⟨r, hr, rfl⟩ := mem_map.mp ((hsort _).1.subset he')
      obtain ⟨e₀, -, rfl⟩ := mem_map.mp hr
      exact heq ▸ transformEntry_notMem h.exclusive e₀

def sharedSource : MipProblem where
  nVariables := 3
  nConstraints := 2
  row := fun i => if i = 0 then [(0, 1), (1, 2), (2, 3)] else [(1, 1), (2, -1)]
  constraintLowerBounds := fun i => if i = 0 then none else some 0
  constraintUpperBounds := fun i => if i = 0 then some 7 else none
  variableBounds := fun _ => (some 0, some 1)
  objectiveCoefficients := fun _ => 1
  isInteger := fun _ => true
  presolveData := ⟨fun _ => false, fun _ => none, 0, [], [], fun _ => false, []⟩

lemma mergeSort_sortsRows : SortsRows fun l => l.mergeSort fun a b => a.1 ≤ b.1 := by
  intro l
  refine ⟨mergeSort_perm _ _, ?_⟩
  have hsorted : (l.mergeSort fun a b => a.1 ≤ b.1).Pairwise fun a b : ℕ × ℚ =>
      decide (a.1 ≤ b.1) = true := pairwise_mergeSort
    (fun a b c hab hbc => by
      rw [decide_eq_true_eq] at hab hbc ⊢
      exact hab.trans hbc)
    (fun a b => by
      rw [Bool.or_eq_true, decide_eq_true_eq, decide_eq_true_eq]
      exact le_total _ _) l
  exact hsorted.imp fun h => of_decide_eq_true h

/-- `x₁ = x₀` and `x₂ = 1 - x₀` meet with `x₀` in the first row. -/
theorem sharedSource_substituted : ∃ p', substituteVariables
    (fun l => l.mergeSort fun a b => a.1 ≤ b.1) sharedSource [⟨0, 1, 0, 1⟩, ⟨0, 2, 1, -1⟩] = some p' ∧
      SubstitutesExactly sharedSource p' [⟨0, 1, 0, 1⟩, ⟨0, 2, 1, -1⟩] :=
  substituteVariables_exact mergeSort_sortsRows
    ⟨by decide, by decide, by decide, by decide⟩ (cons_ne_nil _ _)

end CuOpt.Presolve
