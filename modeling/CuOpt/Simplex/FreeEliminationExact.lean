import CuOpt.Library.QuadRestrictions
import CuOpt.Simplex.FreeEliminationSound

/-! Elimination of free variables is exact: feasible points go to the reduced problem and back, and
the replay sets the reduced costs of the eliminated variables to zero. Cone columns stay a trailing
block. -/

namespace CuOpt.Simplex

open SparseList QuadProgram List

/-- The second-order cones of the given dimensions, one behind the other from column `start` on. -/
def ConesHold : List ℕ → ℕ → (ℕ → ℚ) → Prop
  | [], _, _ => True
  | d :: dims, start, x =>
    (0 ≤ x start ∧ ∑ k ∈ Finset.range (d - 1), x (start + 1 + k) ^ 2 ≤ x start ^ 2) ∧
      ConesHold dims (start + d) x

lemma ConesHold.congr {dims : List ℕ} {start start' : ℕ} {x x' : ℕ → ℚ}
    (hdims : ∀ d ∈ dims, 2 ≤ d) (h : ConesHold dims start x)
    (heq : ∀ k < dims.sum, x' (start' + k) = x (start + k)) : ConesHold dims start' x' := by
  induction dims generalizing start start' with
  | nil => trivial
  | cons d dims ih =>
    have hd := hdims d mem_cons_self
    rw [sum_cons] at heq
    refine ⟨?_, ih (fun e he => hdims e (mem_cons_of_mem d he)) h.2 fun k hk => ?_⟩
    · have hhead := heq 0 (by omega)
      rw [add_zero, add_zero] at hhead
      have htail : ∑ k ∈ Finset.range (d - 1), x' (start' + 1 + k) ^ 2 =
          ∑ k ∈ Finset.range (d - 1), x (start + 1 + k) ^ 2 := by
        apply Finset.sum_congr rfl
        intro k hk
        have hlt := Finset.mem_range.mp hk
        rw [add_assoc, add_assoc, heq (1 + k) (by omega)]
      rw [hhead, htail]
      exact h.1
    · rw [add_assoc, add_assoc]
      exact heq (d + k) (by omega)

namespace LpProblem

/-- The cones are a trailing block of dimensions at least two. -/
structure ConeLayout (problem : LpProblem) : Prop where
  trailing : problem.secondOrderConeDims ≠ [] →
    problem.coneVarStart + problem.secondOrderConeDims.sum = problem.numCols
  dims : ∀ d ∈ problem.secondOrderConeDims, 2 ≤ d

instance (problem : LpProblem) : Decidable problem.ConeLayout :=
  decidable_of_iff ((problem.secondOrderConeDims ≠ [] →
    problem.coneVarStart + problem.secondOrderConeDims.sum = problem.numCols) ∧
      ∀ d ∈ problem.secondOrderConeDims, 2 ≤ d) ⟨fun h => ⟨h.1, h.2⟩, fun h => ⟨h.1, h.2⟩⟩

def Feasible (problem : LpProblem) (x : ℕ → ℚ) : Prop :=
  problem.toProgram.Feasible x ∧ ConesHold problem.secondOrderConeDims problem.coneVarStart x

lemma ConeLayout.linear_le {problem : LpProblem} (h : problem.ConeLayout) :
    problem.linearVariableCount ≤ problem.numCols := by
  rw [linearVariableCount]
  split_ifs with hdims
  · exact le_rfl
  · rw [← h.trailing hdims]
    exact Nat.le_add_right _ _

lemma ConeLayout.start_lt {problem : LpProblem} (h : problem.ConeLayout)
    (hdims : problem.secondOrderConeDims ≠ []) : problem.coneVarStart < problem.numCols := by
  obtain ⟨d, dims, hcons⟩ := exists_cons_of_ne_nil hdims
  have hd := h.dims d (hcons ▸ mem_cons_self)
  have htrailing := h.trailing hdims
  rw [hcons, sum_cons] at htrailing
  omega

end LpProblem

section Step

variable {problem : LpProblem} {s : EliminationState} {j : ℕ}

lemma eliminateColumn_restricts (hwf : problem.WellFormed) (hj : j < problem.numCols)
    (h : EliminationInv problem j s) :
    Program.Restricts (s.program problem) ((eliminateColumn problem s j).program problem) id := by
  rcases eliminateColumn_cases (s := s) hwf hj with
    ⟨r, heq | heq⟩ | ⟨helim, hnil, heq⟩ | ⟨helim, pivot, coef, hp, heq⟩
  · rw [heq]
    exact Program.Restricts.refl _
  · rw [heq]
    exact Program.Restricts.refl _
  · rw [heq]
    have hslack := slack_of_eliminable hwf h hj helim
    have hsub : {j} ⊆ (s.program problem).cols := Finset.singleton_subset_iff.mpr hslack.mem
    have hfix := Program.fixCols_restricts (uncoupled_of_nil hwf h hj helim hnil) hsub fun _ => 0
    exact hfix.trans (dropColumn_agree problem s j _).restricts
  · rw [heq]
    have hslack := slack_of_eliminable hwf h hj helim
    obtain ⟨hplt, hpact, hval, hne⟩ := (h.mem_incident hj).mp hp
    have hrow : pivot ∈ (s.program problem).rows :=
      Finset.mem_filter.mpr ⟨Finset.mem_range.mpr hplt, hpact⟩
    have hpiv : (s.program problem).a pivot j = coef := hval
    have hpivot := Program.pivot_restricts hslack.mem hrow (hpiv ▸ hne)
    exact hpivot.trans (substitute_agree h hj hp).restricts

lemma eliminateColumn_var (hwf : problem.WellFormed) (hj : j < problem.numCols)
    {e : FreeVariableElimination} (he : e ∈ (eliminateColumn problem s j).eliminations) :
    e ∈ s.eliminations ∨ e.var = j := by
  rcases eliminateColumn_cases (s := s) hwf hj with
    ⟨r, heq | heq⟩ | ⟨_, _, heq⟩ | ⟨_, pivot, coef, _, heq⟩
  · rw [heq] at he
    exact .inl he
  · rw [heq] at he
    exact .inl he
  · rw [heq] at he
    rcases mem_append.mp he with hold | hnew
    · exact .inl hold
    · exact .inr (congrArg FreeVariableElimination.var (mem_singleton.mp hnew))
  · rw [heq] at he
    rcases mem_append.mp he with hold | hnew
    · exact .inl hold
    · exact .inr (congrArg FreeVariableElimination.var (mem_singleton.mp hnew))

end Step

section Pass

variable {problem : LpProblem}

lemma foldl_eliminateColumn_restricts (hwf : problem.WellFormed) {k : ℕ}
    (hk : k ≤ problem.numCols) :
    Program.Restricts problem.toProgram
        (((range k).foldl (eliminateColumn problem) (startState problem)).program problem) id ∧
      ∀ e ∈ ((range k).foldl (eliminateColumn problem) (startState problem)).eliminations,
        e.var < k := by
  induction k with
  | zero => exact ⟨(startState_agree hwf).restricts, nofun⟩
  | succ k ih =>
    obtain ⟨hrestricts, hvar⟩ := ih (Nat.le_of_succ_le hk)
    have hinv := (foldl_eliminateColumn hwf (Nat.le_of_succ_le hk) (initial_inv hwf)
      (initial_replays hwf)).1
    rw [range_succ, foldl_concat]
    refine ⟨hrestricts.trans (eliminateColumn_restricts hwf hk hinv), fun e he => ?_⟩
    rcases eliminateColumn_var hwf hk he with hold | hnew
    · exact (hvar e hold).trans (Nat.lt_succ_self k)
    · rw [hnew]
      exact Nat.lt_succ_self k

end Pass

lemma unmarked_trailing {n start : ℕ} {marker : ℕ → Bool} (hle : start ≤ n)
    (h : ∀ c ≥ start, marker c = false) :
    unmarked n marker = unmarked start marker ++ range' start (n - start) := by
  have hsplit : range n = range start ++ range' start (n - start) := by
    have happend := range'_append_1 (s := 0) (m := start) (n := n - start)
    rw [Nat.zero_add, Nat.add_sub_cancel' hle] at happend
    rw [range_eq_range', range_eq_range', happend]
  have hkeep : (range' start (n - start)).filter (fun j => !marker j) =
      range' start (n - start) := by
    rw [filter_eq_self]
    intro c hc
    rw [h c (mem_range'_1.mp hc).1]
    rfl
  rw [unmarked, hsplit, filter_append, hkeep, unmarked]

lemma idxOf_unmarked_trailing {n start : ℕ} {marker : ℕ → Bool} (h : ∀ c ≥ start, marker c = false)
    {k : ℕ} (hk : start + k < n) :
    (unmarked n marker).idxOf (start + k) = (unmarked start marker).length + k := by
  have hle : start ≤ n := by omega
  have hlt : k < (range' start (n - start)).length := by
    rw [length_range']
    omega
  have hsplit := unmarked_trailing hle h
  have hlen : (unmarked start marker).length + k < (unmarked n marker).length := by
    rw [hsplit, length_append]
    exact Nat.add_lt_add_left hlt _
  have hget : (unmarked n marker).getD ((unmarked start marker).length + k) 0 = start + k := by
    rw [hsplit, getD_append_right _ _ _ _ (Nat.le_add_right _ _), Nat.add_sub_cancel_left,
      getD_eq_getElem _ _ hlt, getElem_range', one_mul]
  rw [getD_eq_getElem _ _ hlen] at hget
  rw [← hget]
  exact (nodup_unmarked n marker).idxOf_getElem _ hlen

section Exact

variable {problem : LpProblem} {info : PresolveInfo}

def restrictEliminated (info : PresolveInfo) (x : ℕ → ℚ) : ℕ → ℚ :=
  if info.freeVariableEliminations = [] then x
  else fun k => x (info.freeEliminationRemainingVariables.getD k 0)

lemma undoEliminations_x {es : List FreeVariableElimination} {t : Solution} {c : ℕ}
    (h : ∀ e ∈ es, e.var ≠ c) : (undoEliminations es t).x c = t.x c := by
  induction es with
  | nil => rfl
  | cons e es ih =>
    have hne : c ≠ e.var := (h e mem_cons_self).symm
    refine (Function.update_of_ne hne _ _).trans (ih fun e' he' => h e' (mem_cons_of_mem e he'))

lemma undoEliminations_z {es : List FreeVariableElimination} {t : Solution}
    {e : FreeVariableElimination} (he : e ∈ es) : (undoEliminations es t).z e.var = 0 := by
  induction es with
  | nil => cases he
  | cons e' es ih =>
    change Function.update (undoEliminations es t).z e'.var 0 e.var = 0
    by_cases heq : e.var = e'.var
    · rw [heq, Function.update_self]
    · rw [Function.update_of_ne heq]
      rcases mem_cons.mp he with rfl | hmem
      · exact absurd rfl heq
      · exact ih hmem

lemma eliminateFreeVariables_cases (problem : LpProblem) (info : PresolveInfo) :
    eliminateFreeVariables problem info = (problem, info) ∨
      (eliminateFreeVariables problem info).1 = reducedProblem problem (eliminationPass problem) ∧
      (eliminateFreeVariables problem info).2.freeVariableEliminations =
        (eliminationPass problem).eliminations ∧
      (eliminateFreeVariables problem info).2.freeVariableEliminations ≠ [] ∧
      (eliminateFreeVariables problem info).2.freeEliminationRemainingVariables =
        unmarked problem.numCols fun j => !(eliminationPass problem).activeCol j := by
  unfold eliminateFreeVariables
  dsimp only
  split_ifs with hsize hnil
  · exact .inl rfl
  · exact .inl rfl
  · exact .inr ⟨rfl, rfl, hnil, rfl⟩

lemma reducedProblem_cones (hcones : problem.ConeLayout) {s : EliminationState}
    (h : EliminationInv problem problem.linearVariableCount s) {x x' : ℕ → ℚ}
    (heq : ∀ c ≥ problem.linearVariableCount, c < problem.numCols →
      x c = x' ((unmarked problem.numCols fun j => !s.activeCol j).idxOf c)) :
    ConesHold (reducedProblem problem s).secondOrderConeDims (reducedProblem problem s).coneVarStart x' ↔
      ConesHold problem.secondOrderConeDims problem.coneVarStart x := by
  by_cases hdims : problem.secondOrderConeDims = []
  · change ConesHold problem.secondOrderConeDims _ x' ↔ _
    rw [hdims]
    exact .rfl
  have hlinear : problem.linearVariableCount = problem.coneVarStart := if_neg hdims
  have hstart : (reducedProblem problem s).coneVarStart =
      (unmarked problem.numCols fun j => !s.activeCol j).idxOf problem.coneVarStart := if_neg hdims
  have hactive : ∀ c ≥ problem.coneVarStart, (!s.activeCol c) = false := fun c hc => by
    rw [h.ahead c (hlinear ▸ hc)]
    rfl
  have hsum := hcones.trailing hdims
  have hcells : ∀ k < problem.secondOrderConeDims.sum, x (problem.coneVarStart + k) =
      x' ((reducedProblem problem s).coneVarStart + k) := by
    intro k hk
    have hlt : problem.coneVarStart + k < problem.numCols := hsum ▸ Nat.add_lt_add_left hk _
    have hfirst := idxOf_unmarked_trailing hactive (k := 0) (hcones.start_lt hdims)
    rw [add_zero, add_zero] at hfirst
    rw [hstart, hfirst, ← idxOf_unmarked_trailing hactive hlt]
    exact heq _ (hlinear ▸ Nat.le_add_right _ _) hlt
  exact ⟨fun hx => hx.congr hcones.dims hcells, fun hx => hx.congr hcones.dims fun k hk =>
    (hcells k hk).symm⟩

/-- A feasible point of the reduced problem goes back to a feasible point with its objective, a
feasible point of the problem restricts to one of the reduced problem, and multipliers go back with
zero reduced costs on the eliminated variables. -/
theorem eliminateFreeVariables_exact (hwf : problem.WellFormed) (hcones : problem.ConeLayout)
    (hinfo : info.freeVariableEliminations = []) :
    (∀ t : Solution, (eliminateFreeVariables problem info).1.Feasible t.x →
      problem.Feasible (restoreEliminated (eliminateFreeVariables problem info).2 t).x ∧
        problem.toProgram.objective (restoreEliminated (eliminateFreeVariables problem info).2 t).x =
          (eliminateFreeVariables problem info).1.toProgram.objective t.x) ∧
    (∀ x, problem.Feasible x → (eliminateFreeVariables problem info).1.Feasible
      (restrictEliminated (eliminateFreeVariables problem info).2 x)) ∧
    ∀ t : Solution, (eliminateFreeVariables problem info).1.toProgram.Stationary t →
      problem.toProgram.Stationary (restoreEliminated (eliminateFreeVariables problem info).2 t) ∧
        ∀ e ∈ (eliminateFreeVariables problem info).2.freeVariableEliminations,
          (restoreEliminated (eliminateFreeVariables problem info).2 t).z e.var = 0 := by
  obtain ⟨hrec, hfeas⟩ := eliminateFreeVariables_recovers hwf hcones.linear_le hinfo
  have hinv := (eliminationPass_spec hwf hcones.linear_le).1
  rcases eliminateFreeVariables_cases problem info with hsame | ⟨hproblem, hes, hnil, hvars⟩
  · rw [hsame] at hrec hfeas ⊢
    have hrestore : ∀ t, restoreEliminated info t = t := fun t => if_pos hinfo
    have hrestrict : ∀ x, restrictEliminated info x = x := fun x => if_pos hinfo
    refine ⟨fun t ht => ?_, fun x hx => ?_, fun t ht => ⟨hrec.stationary t ht, fun e he => ?_⟩⟩
    · rw [hrestore]
      exact ⟨ht, rfl⟩
    · rw [hrestrict]
      exact hx
    · rw [hinfo] at he
      cases he
  · obtain ⟨hrestricts, hvar⟩ := foldl_eliminateColumn_restricts hwf hcones.linear_le
    have hrestore : ∀ t, restoreEliminated (eliminateFreeVariables problem info).2 t =
        undoEliminations (eliminateFreeVariables problem info).2.freeVariableEliminations
          { x := scatter (eliminateFreeVariables problem info).2.freeEliminationRemainingVariables t.x
              fun _ => 0
            y := scatter (eliminateFreeVariables problem info).2.freeEliminationRemainingConstraints
              t.y fun _ => 0
            z := scatter (eliminateFreeVariables problem info).2.freeEliminationRemainingVariables t.z
              fun _ => 0 } := fun t => if_neg hnil
    have hmem : ∀ c ≥ problem.linearVariableCount, c < problem.numCols →
        c ∈ unmarked problem.numCols fun j => !(eliminationPass problem).activeCol j := by
      intro c hc hlt
      rw [mem_unmarked, hinv.ahead c hc]
      exact ⟨hlt, rfl⟩
    refine ⟨fun t ht => ⟨⟨hfeas t ht.1, ?_⟩, (hrec.objective_eq t).symm⟩, fun x hx => ?_,
      fun t ht => ⟨hrec.stationary t ht, fun e he => ?_⟩⟩
    · have hcone := ht.2
      rw [hproblem] at hcone
      apply (reducedProblem_cones hcones hinv fun c hc hlt => ?_).mp hcone
      rw [hrestore, undoEliminations_x, hvars]
      · exact scatter_of_mem (nodup_unmarked _ _) _ _ (hmem c hc hlt)
      · intro e he heq
        rw [hes] at he
        exact absurd (hvar e he) (heq ▸ hc.not_gt)
    · have hrestrict : restrictEliminated (eliminateFreeVariables problem info).2 x = fun k =>
          x ((unmarked problem.numCols fun j => !(eliminationPass problem).activeCol j).getD k 0) := by
        rw [restrictEliminated, if_neg hnil, hvars]
      rw [hproblem, hrestrict]
      refine ⟨?_, ?_⟩
      · have hren := (renumbering_expandActive problem (eliminationPass problem)).restricts
        exact (reducedProblem_agree hwf hinv).restricts _ (hren _ (hrestricts x hx.1))
      · apply (reducedProblem_cones hcones hinv fun c hc hlt => ?_).mpr hx.2
        rw [getD_eq_getElem _ _ (List.idxOf_lt_length_iff.mpr (hmem c hc hlt)),
          getElem_idxOf]
    · rw [hrestore]
      exact undoEliminations_z he

end Exact

/-- `x₀ + x₂ = 1`, `x₀ + x₁ + x₃ = 2` and `x₁ + x₂ = 3` with `x₀`, `x₁` free and a cone
`x₃² ≤ x₂²`. The second pivot meets the row that the first one has changed. -/
def chainedPivots : LpProblem where
  numRows := 3
  numCols := 4
  objective := fun j => if j < 2 then 0 else 1
  Q := ⟨0, 0, fun _ => []⟩
  A := ⟨3, 4, fun j =>
    [[(0, 1), (1, 1)], [(1, 1), (2, 1)], [(0, 1), (2, 1)], [(1, 1)]].getD j []⟩
  rhs := fun i => i + 1
  lower := fun _ => none
  upper := fun _ => none
  objConstant := 0
  coneVarStart := 2
  secondOrderConeDims := [2]

theorem eliminateFreeVariables_exact_chainedPivots :
    ((eliminateFreeVariables chainedPivots {}).2.freeVariableEliminations.map fun e =>
      (e.var, e.pivotRow)) = [(0, some 0), (1, some 2)] ∧
    (∀ t : Solution, (eliminateFreeVariables chainedPivots {}).1.Feasible t.x →
      chainedPivots.Feasible (restoreEliminated (eliminateFreeVariables chainedPivots {}).2 t).x ∧
        chainedPivots.toProgram.objective
            (restoreEliminated (eliminateFreeVariables chainedPivots {}).2 t).x =
          (eliminateFreeVariables chainedPivots {}).1.toProgram.objective t.x) ∧
    (∀ x, chainedPivots.Feasible x → (eliminateFreeVariables chainedPivots {}).1.Feasible
      (restrictEliminated (eliminateFreeVariables chainedPivots {}).2 x)) ∧
    ∀ t : Solution, (eliminateFreeVariables chainedPivots {}).1.toProgram.Stationary t →
      chainedPivots.toProgram.Stationary
          (restoreEliminated (eliminateFreeVariables chainedPivots {}).2 t) ∧
        ∀ e ∈ (eliminateFreeVariables chainedPivots {}).2.freeVariableEliminations,
          (restoreEliminated (eliminateFreeVariables chainedPivots {}).2 t).z e.var = 0 := by
  refine ⟨by decide +kernel, eliminateFreeVariables_exact ?_ (by decide) rfl⟩
  exact ⟨rfl, rfl, by decide +kernel, by decide +kernel, fun h => absurd h (by decide)⟩

end CuOpt.Simplex
