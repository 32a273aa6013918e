import CuOpt.Library.BufferWrites
import CuOpt.Presolve.VariableSubstitution

/-! `standardize_bounds` splits every free variable into two nonnegative ones; `presolve_data_t` moves
assignments to the split problem and back. -/

namespace CuOpt.Presolve

open SparseList QuadProgram List Function Finset

abbrev ConstraintMap := ℕ → List (ℕ × ℚ)

namespace MipProblem

def computeVarToConstraintMap (p : MipProblem) : ConstraintMap := fun v =>
  (List.range p.nConstraints).flatMap fun c =>
    ((p.row c).filter fun e => e.1 = v ∧ e.2 ≠ 0).map fun e => (c, e.2)

def sortPairs (l : List (ℕ × ℚ)) : List (ℕ × ℚ) :=
  l.mergeSort fun a b => a.1 < b.1 ∨ a.1 = b.1 ∧ a.2 ≤ b.2

def splitFreeVariable (s : MipProblem × ConstraintMap) (i : ℕ) : MipProblem × ConstraintMap :=
  let p := s.1
  if p.variableBounds i = (none, none) then
    let n := p.nVariables
    ({ p with
        nVariables := n + 1
        variableBounds :=
          Function.update (Function.update p.variableBounds i (some 0, none)) n (some 0, none)
        objectiveCoefficients :=
          Function.update p.objectiveCoefficients n (-p.objectiveCoefficients i)
        isInteger := Function.update p.isInteger n (p.isInteger i)
        presolveData := { p.presolveData with
          additionalVarUsed :=
            Function.update (Function.update p.presolveData.additionalVarUsed i true) n false
          additionalVarIdPerVar :=
            Function.update (Function.update p.presolveData.additionalVarIdPerVar i (some n)) n none
          impliedInteger := Function.update p.presolveData.impliedInteger n false } },
      Function.update s.2 n (sortPairs ((s.2 i).map fun e => (e.1, -e.2))))
  else s

def standardizeBounds (p : MipProblem) (map : ConstraintMap) : MipProblem × ConstraintMap :=
  (List.range p.nVariables).foldl splitFreeVariable (p, map)

def computeCsr (map : ConstraintMap) (p : MipProblem) : MipProblem :=
  { p with
    row := fun c => (List.range p.nVariables).flatMap fun v =>
      ((map v).filter fun e => e.1 = c).map fun e => (v, e.2) }

def initializeVarMapping (p : MipProblem) : MipProblem :=
  { p with
    presolveData := { p.presolveData with
      variableMapping := List.range p.nVariables
      fixedVarAssignment := List.replicate p.nVariables 0
      postsolveReconstructions := [] } }

def preprocessProblem (p : MipProblem) : MipProblem :=
  let s := p.standardizeBounds p.computeVarToConstraintMap
  initializeVarMapping (computeCsr s.2 s.1)

end MipProblem

namespace PresolveData

def splitValue (d : PresolveData) (assgn : ℕ → ℚ) (idx : ℕ) : ℕ → ℚ :=
  if d.additionalVarUsed idx then
    match d.additionalVarIdPerVar idx with
    | some k =>
      let assgn := Function.update assgn k (if assgn idx < 0 then -assgn idx else 0)
      Function.update assgn idx (assgn idx + assgn k)
    | none => assgn
  else assgn

def boundaryPattern (bve : BveReconstruction) (assignment : ℕ → ℚ) : ℕ :=
  bve.boundary.zipIdx.foldl
    (fun pattern p => pattern ||| (if 1 / 2 < assignment p.1 then 1 else 0) <<< p.2) 0

def reconstructBveBlock (bve : BveReconstruction) (assignment : ℕ → ℚ) : ℕ → ℚ :=
  let witness := bve.witness.getD (boundaryPattern bve assignment) 0
  bve.interior.zipIdx.foldl
    (fun assignment p => Function.update assignment p.1 (if witness.testBit p.2 then 1 else 0))
    assignment

def reconstructAffineSub (sub : Substitution) (assignment : ℕ → ℚ) : ℕ → ℚ :=
  Function.update assignment sub.substitutedVar
    (sub.offset + sub.coefficient * assignment sub.substitutingVar)

def reconstruct : PostsolveReconstruction → (ℕ → ℚ) → ℕ → ℚ
  | .blockBve bve => reconstructBveBlock bve
  | .affineSub sub => reconstructAffineSub sub

def removeAdditional (d : PresolveData) (assignment : ℕ → ℚ) (i : ℕ) : ℕ → ℚ :=
  if d.additionalVarUsed i then
    match d.additionalVarIdPerVar i with
    | some k => Function.update assignment i (assignment i - assignment k)
    | none => assignment
  else assignment

/-- The data with its new fixed values, and the assignment, cut to the original variables if asked. -/
def postProcessAssignment (d : PresolveData) (nOriginal : ℕ) (resizeToOriginalProblem : Bool)
    (currentAssignment : List ℚ) : PresolveData × List ℚ :=
  let size := d.fixedVarAssignment.length
  let fixedAssgn := (d.variableMapping.zip currentAssignment).foldl
    (fun f p => Function.update f p.1 p.2) fun j => d.fixedVarAssignment.getD j 0
  let assignment := (List.range size).foldl (removeAdditional d) fixedAssgn
  -- the log is undone from its end
  let assignment := d.postsolveReconstructions.foldr reconstruct assignment
  ({ d with fixedVarAssignment := (List.range size).map fixedAssgn },
    (List.range (if resizeToOriginalProblem then nOriginal else size)).map assignment)

end PresolveData

namespace MipProblem

def hasIntegralityDiscrepancy (p : MipProblem) (tolerance : ℚ) (assignment : List ℚ) : Bool :=
  (List.range p.nVariables).any fun v =>
    p.isInteger v && !decide (|(round (assignment.getD v 0) : ℚ) - assignment.getD v 0| ≤ tolerance)

def hasVariableBoundsViolation (p : MipProblem) (tolerance : ℚ) (assignment : List ℚ) : Bool :=
  (List.range p.nVariables).any fun v =>
    !decide (InBounds ((p.variableBounds v).1.map (· - tolerance))
      ((p.variableBounds v).2.map (· + tolerance)) (assignment.getD v 0))

/-- Whether the assignment is kept, and the assignment of the problem's variables. The values past the
original variables start as the memory was left. -/
def preProcessAssignment (p : MipProblem) (nOriginal : ℕ) (tolerance : ℚ) (uninitialized : ℕ → ℚ)
    (assignment : List ℚ) : Bool × List ℚ :=
  let temp := (List.range nOriginal).foldl p.presolveData.splitValue
    fun j => assignment.getD j (uninitialized j)
  let mapped := p.presolveData.variableMapping.map temp
  (!p.hasIntegralityDiscrepancy tolerance mapped && !p.hasVariableBoundsViolation tolerance mapped,
    mapped)

end MipProblem

def freeBelow (p : MipProblem) (k : ℕ) : List ℕ :=
  (List.range k).filter fun v => p.variableBounds v = (none, none)

section Split

variable {p : MipProblem} {map : ConstraintMap} {k : ℕ}

lemma mem_freeBelow {v : ℕ} : v ∈ freeBelow p k ↔ v < k ∧ p.variableBounds v = (none, none) := by
  rw [freeBelow, List.mem_filter, List.mem_range, decide_eq_true_eq]

lemma freeBelow_nodup : (freeBelow p k).Nodup := nodup_range.filter _

lemma freeBelow_succ (p : MipProblem) (k : ℕ) : freeBelow p (k + 1) =
    freeBelow p k ++ if p.variableBounds k = (none, none) then [k] else [] := by
  rw [freeBelow, range_succ, filter_append]
  refine congrArg _ ?_
  split_ifs with h
  · exact List.filter_eq_self.mpr fun v hv => by
      rw [List.mem_singleton.mp hv, decide_eq_true_eq]
      exact h
  · exact filter_eq_nil_iff.mpr fun v hv => by
      rw [List.mem_singleton.mp hv, decide_eq_true_eq]
      exact h

/-- The state after the variables below `k`: each free one has lost its lower bound `-inf` and has a
negated copy behind the original variables. -/
structure SplitBelow (p : MipProblem) (map : ConstraintMap) (k : ℕ)
    (s : MipProblem × ConstraintMap) : Prop where
  nVariables : s.1.nVariables = p.nVariables + (freeBelow p k).length
  nConstraints : s.1.nConstraints = p.nConstraints
  rowBounds : s.1.constraintLowerBounds = p.constraintLowerBounds ∧
    s.1.constraintUpperBounds = p.constraintUpperBounds
  offset : s.1.presolveData.objectiveOffset = p.presolveData.objectiveOffset
  old : ∀ v < p.nVariables, s.1.objectiveCoefficients v = p.objectiveCoefficients v ∧
    s.1.isInteger v = p.isInteger v ∧ s.2 v = map v
  bounds : ∀ v < p.nVariables, s.1.variableBounds v =
    if v ∈ freeBelow p k then (some 0, none) else p.variableBounds v
  used : ∀ v < p.nVariables, s.1.presolveData.additionalVarUsed v = decide (v ∈ freeBelow p k)
  ids : ∀ v ∈ freeBelow p k, s.1.presolveData.additionalVarIdPerVar v =
    some (p.nVariables + (freeBelow p k).idxOf v)
  new : ∀ q < (freeBelow p k).length,
    s.1.objectiveCoefficients (p.nVariables + q) =
        -p.objectiveCoefficients ((freeBelow p k).getD q 0) ∧
      s.1.isInteger (p.nVariables + q) = p.isInteger ((freeBelow p k).getD q 0) ∧
      s.2 (p.nVariables + q) =
        MipProblem.sortPairs ((map ((freeBelow p k).getD q 0)).map fun e => (e.1, -e.2))
  newBounds : ∀ q < (freeBelow p k).length,
    s.1.variableBounds (p.nVariables + q) = (some 0, none) ∧
      s.1.presolveData.additionalVarUsed (p.nVariables + q) = false

lemma SplitBelow.step {s : MipProblem × ConstraintMap} (h : SplitBelow p map k s)
    (hk : k < p.nVariables) : SplitBelow p map (k + 1) (MipProblem.splitFreeVariable s k) := by
  have hfresh : k ∉ freeBelow p k := fun hmem => absurd (mem_freeBelow.mp hmem).1 (lt_irrefl k)
  have hbound : s.1.variableBounds k = p.variableBounds k := by
    rw [h.bounds k hk, if_neg hfresh]
  rw [MipProblem.splitFreeVariable]
  dsimp only
  by_cases hfree : p.variableBounds k = (none, none)
  · rw [if_pos (hbound.trans hfree)]
    have hsucc : freeBelow p (k + 1) = freeBelow p k ++ [k] := by
      rw [freeBelow_succ, if_pos hfree]
    have hne : ∀ v < p.nVariables, v ≠ s.1.nVariables := by
      intro v hv
      have := h.nVariables
      omega
    have hneNew : ∀ q < (freeBelow p k).length, p.nVariables + q ≠ s.1.nVariables := by
      intro q hq
      have := h.nVariables
      omega
    have hmem : ∀ v, v ∈ freeBelow p (k + 1) ↔ v ∈ freeBelow p k ∨ v = k := by
      intro v
      rw [hsucc, mem_append, List.mem_singleton]
    constructor
    case nVariables =>
      rw [hsucc, length_append, ← add_assoc, ← h.nVariables]
      rfl
    case nConstraints => exact h.nConstraints
    case rowBounds => exact h.rowBounds
    case offset => exact h.offset
    case old =>
      intro v hv
      obtain ⟨hobj, hint, hmap⟩ := h.old v hv
      dsimp only
      rw [update_of_ne (hne v hv), update_of_ne (hne v hv), update_of_ne (hne v hv)]
      exact ⟨hobj, hint, hmap⟩
    case bounds =>
      intro v hv
      dsimp only
      rw [update_of_ne (hne v hv)]
      by_cases hvk : v = k
      · rw [hvk, update_self, if_pos ((hmem k).mpr (.inr rfl))]
      · rw [update_of_ne hvk, h.bounds v hv]
        simp only [hmem, hvk, or_false]
    case used =>
      intro v hv
      dsimp only
      rw [update_of_ne (hne v hv)]
      by_cases hvk : v = k
      · rw [hvk, update_self, decide_eq_true ((hmem k).mpr (.inr rfl))]
      · rw [update_of_ne hvk, h.used v hv]
        simp only [hmem, hvk, or_false]
    case ids =>
      intro v hv
      dsimp only
      rcases (hmem v).mp hv with hold | rfl
      · have hlt := (mem_freeBelow.mp hold).1
        rw [update_of_ne (hne v (hlt.trans hk)), update_of_ne hlt.ne, h.ids v hold,
          hsucc, idxOf_append_of_mem hold]
      · rw [update_of_ne (hne v hk), update_self, hsucc,
          idxOf_append_of_notMem hfresh, idxOf_cons_self, add_zero, ← h.nVariables]
    case new =>
      intro q hq
      dsimp only
      rw [hsucc, length_append, length_singleton] at hq
      rcases Nat.lt_succ_iff_lt_or_eq.mp hq with hlt | rfl
      · rw [update_of_ne (hneNew q hlt), update_of_ne (hneNew q hlt),
          update_of_ne (hneNew q hlt), hsucc, getD_append _ _ _ _ hlt]
        exact h.new q hlt
      · obtain ⟨hobj, hint, hmap⟩ := h.old k hk
        rw [← h.nVariables, update_self, update_self, update_self, hsucc,
          getD_append_right _ _ _ _ le_rfl, Nat.sub_self, hobj, hint, hmap]
        exact ⟨rfl, rfl, rfl⟩
    case newBounds =>
      intro q hq
      dsimp only
      rw [hsucc, length_append, length_singleton] at hq
      rcases Nat.lt_succ_iff_lt_or_eq.mp hq with hlt | rfl
      · have hqk : p.nVariables + q ≠ k := by omega
        rw [update_of_ne (hneNew q hlt), update_of_ne (hneNew q hlt),
          update_of_ne hqk, update_of_ne hqk]
        exact h.newBounds q hlt
      · rw [← h.nVariables, update_self, update_self]
        exact ⟨rfl, rfl⟩
  · rw [if_neg fun heq => hfree (hbound.symm.trans heq)]
    have hsame : freeBelow p (k + 1) = freeBelow p k := by
      rw [freeBelow_succ, if_neg hfree, append_nil]
    exact ⟨hsame ▸ h.nVariables, h.nConstraints, h.rowBounds, h.offset, h.old, hsame ▸ h.bounds,
      hsame ▸ h.used, hsame ▸ h.ids, hsame ▸ h.new, hsame ▸ h.newBounds⟩

def MipProblem.Fresh (p : MipProblem) : Prop :=
  ∀ v < p.nVariables, p.presolveData.additionalVarUsed v = false

lemma standardizeBounds_split (hfresh : p.Fresh) (map : ConstraintMap) :
    SplitBelow p map p.nVariables (p.standardizeBounds map) := by
  have hrun : ∀ k ≤ p.nVariables,
      SplitBelow p map k ((List.range k).foldl MipProblem.splitFreeVariable (p, map)) := by
    intro k hk
    induction k with
    | zero =>
      have hnone : freeBelow p 0 = [] := rfl
      constructor
      case used =>
        intro v hv
        exact (hfresh v hv).trans (decide_eq_false (hnone ▸ not_mem_nil)).symm
      case nVariables => rfl
      case nConstraints => rfl
      case rowBounds => exact ⟨rfl, rfl⟩
      case offset => rfl
      case old => exact fun v _ => ⟨rfl, rfl, rfl⟩
      case bounds => exact fun v _ => (if_neg (hnone ▸ not_mem_nil)).symm
      case ids => exact nofun
      case new => exact fun q hq => absurd hq (Nat.not_lt_zero q)
      case newBounds => exact fun q hq => absurd hq (Nat.not_lt_zero q)
    | succ k ih =>
      rw [range_succ, foldl_concat]
      exact (ih (Nat.le_of_succ_le hk)).step hk
  exact hrun p.nVariables le_rfl

end Split

def negativePart (x : ℕ → ℚ) (v : ℕ) : ℚ := if x v < 0 then -x v else 0

section Values

variable {p : MipProblem} {map : ConstraintMap} {s : MipProblem × ConstraintMap}

lemma getD_freeBelow {q : ℕ} (hq : q < (freeBelow p p.nVariables).length) :
    (freeBelow p p.nVariables).getD q 0 ∈ freeBelow p p.nVariables ∧
      (freeBelow p p.nVariables).idxOf ((freeBelow p p.nVariables).getD q 0) = q := by
  rw [getD_eq_getElem _ _ hq]
  exact ⟨getElem_mem hq, freeBelow_nodup.idxOf_getElem q hq⟩

lemma getD_idxOf_freeBelow {v : ℕ} (hv : v ∈ freeBelow p p.nVariables) :
    (freeBelow p p.nVariables).idxOf v < (freeBelow p p.nVariables).length ∧
      (freeBelow p p.nVariables).getD ((freeBelow p p.nVariables).idxOf v) 0 = v := by
  have hlt := idxOf_lt_length_iff.mpr hv
  exact ⟨hlt, by rw [getD_eq_getElem _ _ hlt, getElem_idxOf hlt]⟩

/-- The values after the variables below `k` have been split. -/
lemma foldl_splitValue (h : SplitBelow p map p.nVariables s) (x : ℕ → ℚ) {k : ℕ}
    (hk : k ≤ p.nVariables) :
    (∀ v < p.nVariables, (List.range k).foldl s.1.presolveData.splitValue x v =
        if v ∈ freeBelow p k then x v + negativePart x v else x v) ∧
      ∀ q < (freeBelow p p.nVariables).length, (freeBelow p p.nVariables).getD q 0 < k →
        (List.range k).foldl s.1.presolveData.splitValue x (p.nVariables + q) =
          negativePart x ((freeBelow p p.nVariables).getD q 0) := by
  induction k with
  | zero => exact ⟨fun v _ => (if_neg not_mem_nil).symm, fun q _ hlt => absurd hlt (Nat.not_lt_zero _)⟩
  | succ k ih =>
    obtain ⟨hold, hnew⟩ := ih (Nat.le_of_succ_le hk)
    rw [range_succ, foldl_concat]
    set t := (List.range k).foldl s.1.presolveData.splitValue x
    have hfresh : k ∉ freeBelow p k := fun hmem => absurd (mem_freeBelow.mp hmem).1 (lt_irrefl k)
    have htk : t k = x k := by rw [hold k hk, if_neg hfresh]
    rw [PresolveData.splitValue, h.used k hk]
    by_cases hfree : p.variableBounds k = (none, none)
    · have hmem : k ∈ freeBelow p p.nVariables := mem_freeBelow.mpr ⟨hk, hfree⟩
      obtain ⟨hlt, hget⟩ := getD_idxOf_freeBelow hmem
      have hsucc : ∀ v, v ∈ freeBelow p (k + 1) ↔ v ∈ freeBelow p k ∨ v = k := by
        intro v
        rw [freeBelow_succ, if_pos hfree, mem_append, List.mem_singleton]
      rw [if_pos (decide_eq_true hmem), h.ids k hmem]
      dsimp only
      rw [htk, update_self, update_of_ne (by omega), htk]
      constructor
      · intro v hv
        by_cases hvk : v = k
        · rw [hvk, update_self, if_pos ((hsucc k).mpr (.inr rfl))]
          rfl
        · rw [update_of_ne hvk, update_of_ne (by omega), hold v hv]
          simp only [hsucc, hvk, or_false]
      · intro q hq hqk
        rw [update_of_ne (by omega)]
        by_cases hq' : q = (freeBelow p p.nVariables).idxOf k
        · rw [hq', update_self, hget]
          rfl
        · have hne : (freeBelow p p.nVariables).getD q 0 ≠ k := by
            intro heq
            have hidx := (getD_freeBelow hq).2
            rw [heq] at hidx
            exact hq' hidx.symm
          rw [update_of_ne (by omega)]
          exact hnew q hq (by omega)
    · have hnot : k ∉ freeBelow p p.nVariables := fun hmem => hfree (mem_freeBelow.mp hmem).2
      have hsame : freeBelow p (k + 1) = freeBelow p k := by
        rw [freeBelow_succ, if_neg hfree, append_nil]
      rw [if_neg (by rw [decide_eq_true_eq]; exact hnot), hsame]
      refine ⟨hold, fun q hq hqk => hnew q hq ?_⟩
      have hne : (freeBelow p p.nVariables).getD q 0 ≠ k := fun heq => hnot (heq ▸ (getD_freeBelow hq).1)
      omega

structure SplitPoint (p : MipProblem) (x y : ℕ → ℚ) : Prop where
  old : ∀ v < p.nVariables,
    y v = if v ∈ freeBelow p p.nVariables then x v + negativePart x v else x v
  new : ∀ q < (freeBelow p p.nVariables).length,
    y (p.nVariables + q) = negativePart x ((freeBelow p p.nVariables).getD q 0)

lemma splitPoint_foldl (h : SplitBelow p map p.nVariables s) (x : ℕ → ℚ) :
    SplitPoint p x ((List.range p.nVariables).foldl s.1.presolveData.splitValue x) := by
  obtain ⟨hold, hnew⟩ := foldl_splitValue h x le_rfl
  exact ⟨hold, fun q hq => hnew q hq (mem_freeBelow.mp (getD_freeBelow hq).1).1⟩

/-- A linear form whose copies are negated has the same value at the split point. -/
lemma SplitPoint.sum_eq {x y w : ℕ → ℚ} (h : SplitPoint p x y)
    (hw : ∀ q < (freeBelow p p.nVariables).length,
      w (p.nVariables + q) = -w ((freeBelow p p.nVariables).getD q 0)) :
    ∑ v ∈ Finset.range (p.nVariables + (freeBelow p p.nVariables).length), w v * y v =
      ∑ v ∈ Finset.range p.nVariables, w v * x v := by
  have hcopies : ∑ q ∈ Finset.range (freeBelow p p.nVariables).length,
      w (p.nVariables + q) * y (p.nVariables + q) =
        ∑ v ∈ Finset.range p.nVariables,
          if v ∈ freeBelow p p.nVariables then -(w v * negativePart x v) else 0 := by
    have hlist : (List.range (freeBelow p p.nVariables).length).map
        (fun q => (freeBelow p p.nVariables).getD q 0) = freeBelow p p.nVariables := by
      refine ext_getElem (by rw [length_map, length_range]) fun q hq hq' => ?_
      rw [getElem_map, getElem_range, getD_eq_getElem _ _ hq']
    calc ∑ q ∈ Finset.range (freeBelow p p.nVariables).length,
          w (p.nVariables + q) * y (p.nVariables + q)
        = ∑ q ∈ Finset.range (freeBelow p p.nVariables).length,
            -(w ((freeBelow p p.nVariables).getD q 0) *
              negativePart x ((freeBelow p p.nVariables).getD q 0)) := by
          refine sum_congr rfl fun q hq => ?_
          rw [hw q (Finset.mem_range.mp hq), h.new q (Finset.mem_range.mp hq), neg_mul]
      _ = ((freeBelow p p.nVariables).map fun v => -(w v * negativePart x v)).sum := by
          conv_rhs => rw [← hlist, List.map_map]
          exact (sum_map_range _ _).symm
      _ = _ := by
          rw [freeBelow, sum_map_filter, sum_map_range]
          refine sum_congr rfl fun v hv => ?_
          simp only [decide_eq_true_eq, List.mem_filter, List.mem_range, Finset.mem_range.mp hv,
            true_and]
  rw [sum_range_add, hcopies, ← sum_add_distrib]
  refine sum_congr rfl fun v hv => ?_
  rw [h.old v (Finset.mem_range.mp hv)]
  split_ifs
  · ring
  · ring

lemma foldl_removeAdditional (h : SplitBelow p map p.nVariables s) (u : ℕ → ℚ) {k : ℕ}
    (hk : k ≤ p.nVariables + (freeBelow p p.nVariables).length) :
    (∀ v < p.nVariables, (List.range k).foldl s.1.presolveData.removeAdditional u v =
        if v ∈ freeBelow p p.nVariables ∧ v < k then
          u v - u (p.nVariables + (freeBelow p p.nVariables).idxOf v)
        else u v) ∧
      ∀ q, (List.range k).foldl s.1.presolveData.removeAdditional u (p.nVariables + q) =
        u (p.nVariables + q) := by
  induction k with
  | zero => exact ⟨fun v _ => (if_neg fun hv => Nat.not_lt_zero v hv.2).symm, fun _ => rfl⟩
  | succ k ih =>
    obtain ⟨hold, hnew⟩ := ih (Nat.le_of_succ_le hk)
    rw [range_succ, foldl_concat]
    set r := (List.range k).foldl s.1.presolveData.removeAdditional u
    rw [PresolveData.removeAdditional]
    by_cases hsplit : k ∈ freeBelow p p.nVariables
    · have hkn : k < p.nVariables := (mem_freeBelow.mp hsplit).1
      have hrk : r k = u k := by rw [hold k hkn, if_neg fun hv => lt_irrefl k hv.2]
      rw [if_pos ((h.used k hkn).trans (decide_eq_true hsplit)), h.ids k hsplit]
      dsimp only
      rw [hrk, hnew]
      constructor
      · intro v hv
        by_cases hvk : v = k
        · rw [hvk, update_self, if_pos ⟨hsplit, k.lt_succ_self⟩]
        · rw [update_of_ne hvk, hold v hv]
          have hiff : v < k + 1 ↔ v < k := by omega
          simp only [hiff]
      · intro q
        rw [update_of_ne (by omega), hnew]
    · have hunused : s.1.presolveData.additionalVarUsed k = false := by
        rcases Nat.lt_or_ge k p.nVariables with hkn | hkn
        · exact (h.used k hkn).trans (decide_eq_false hsplit)
        · have hq : k - p.nVariables < (freeBelow p p.nVariables).length := by omega
          have hcopy := (h.newBounds _ hq).2
          rwa [Nat.add_sub_cancel' hkn] at hcopy
      rw [hunused, if_neg Bool.false_ne_true]
      refine ⟨fun v hv => ?_, hnew⟩
      rw [hold v hv]
      by_cases hv' : v ∈ freeBelow p p.nVariables
      · have hvk : v ≠ k := fun heq => hsplit (heq ▸ hv')
        have hiff : v < k + 1 ↔ v < k := by omega
        simp only [hiff]
      · rw [if_neg fun hh => hv' hh.1, if_neg fun hh => hv' hh.1]

lemma SplitPoint.remove {x y : ℕ → ℚ} (hsplit : SplitPoint p x y)
    (h : SplitBelow p map p.nVariables s) {u : ℕ → ℚ}
    (hu : ∀ c < p.nVariables + (freeBelow p p.nVariables).length, u c = y c) {v : ℕ}
    (hv : v < p.nVariables) :
    (List.range (p.nVariables + (freeBelow p p.nVariables).length)).foldl
      s.1.presolveData.removeAdditional u v = x v := by
  rw [(foldl_removeAdditional h u le_rfl).1 v hv]
  by_cases hmem : v ∈ freeBelow p p.nVariables
  · obtain ⟨hlt, hget⟩ := getD_idxOf_freeBelow hmem
    rw [if_pos ⟨hmem, by omega⟩, hu v (by omega), hu _ (by omega), hsplit.old v hv, if_pos hmem,
      hsplit.new _ hlt, hget, add_sub_cancel_right]
  · rw [if_neg fun hh => hmem hh.1, hu v (by omega), hsplit.old v hv, if_neg hmem]

lemma foldl_update_zip (f : ℕ → ℚ) (l : List ℚ) {c : ℕ} (hc : c < l.length) :
    ((List.range l.length).zip l).foldl (fun f p => update f p.1 p.2) f c = l.getD c 0 := by
  induction l using reverseRecOn with
  | nil => exact absurd hc (Nat.not_lt_zero c)
  | append_singleton l v ih =>
    rw [length_append, length_singleton, range_succ,
      zip_append (by rw [length_range]), foldl_append, zip_cons_cons,
      foldl_cons, zip_nil_right, foldl_nil]
    rw [length_append, length_singleton] at hc
    rcases Nat.lt_succ_iff_lt_or_eq.mp hc with hlt | rfl
    · rw [update_of_ne hlt.ne, ih hlt, getD_append _ _ _ _ hlt]
    · rw [update_self, getD_append_right _ _ _ _ le_rfl, Nat.sub_self]
      rfl

lemma dot_flatMap {κ : Type*} (l : List κ) (g : κ → List (ℕ × ℚ)) (f : ℕ → ℚ) :
    dot (l.flatMap g) f = (l.map fun k => dot (g k) f).sum := by
  induction l with
  | nil => rfl
  | cons k l ih => rw [flatMap_cons, dot_append, ih, List.map_cons, List.sum_cons]

lemma dot_filter_key (l : List (ℕ × ℚ)) (c v : ℕ) (y : ℕ → ℚ) :
    dot ((l.filter fun e => e.1 = c).map fun e => (v, e.2)) y = coeff l c * y v := by
  induction l with
  | nil => exact (zero_mul _).symm
  | cons e l ih =>
    rw [List.filter_cons, coeff_cons, add_mul, ← ih]
    by_cases he : e.1 = c
    · rw [if_pos (decide_eq_true he), if_pos he, List.map_cons]
      rfl
    · rw [if_neg (by rwa [decide_eq_true_eq]), if_neg he, zero_mul, zero_add]

lemma dot_computeCsr (map : ConstraintMap) (p : MipProblem) (c : ℕ) (y : ℕ → ℚ) :
    dot ((p.computeCsr map).row c) y = ∑ v ∈ Finset.range p.nVariables, coeff (map v) c * y v := by
  change dot ((List.range p.nVariables).flatMap fun v => _) y = _
  rw [dot_flatMap, sum_map_range]
  exact sum_congr rfl fun v _ => dot_filter_key (map v) c v y

lemma coeff_constraintMap (p : MipProblem) {c : ℕ} (hc : c < p.nConstraints) (v : ℕ) :
    coeff (p.computeVarToConstraintMap v) c = coeff (p.row c) v := by
  have hpart : ∀ i, coeff (((p.row i).filter fun e => e.1 = v ∧ e.2 ≠ 0).map fun e => (i, e.2)) c =
      if i = c then coeff (p.row i) v else 0 := by
    intro i
    induction p.row i with
    | nil => rw [coeff_nil, ite_self]; rfl
    | cons e l ih =>
      rw [List.filter_cons, coeff_cons]
      by_cases he : e.1 = v ∧ e.2 ≠ 0
      · rw [if_pos (decide_eq_true he), List.map_cons, coeff_cons, ih, if_pos he.1]
        split_ifs
        · rfl
        · exact add_zero _
      · rw [if_neg (by rwa [decide_eq_true_eq]), ih]
        have hzero : (if e.1 = v then e.2 else 0) = 0 := by
          by_cases hv : e.1 = v
          · rw [if_pos hv]
            exact not_not.mp fun hne => he ⟨hv, hne⟩
          · exact if_neg hv
        rw [hzero, zero_add]
  rw [MipProblem.computeVarToConstraintMap, coeff_flatMap, sum_map_range]
  simp only [hpart]
  rw [sum_ite_eq' _ _ _, if_pos (Finset.mem_range.mpr hc)]

lemma coeff_sortPairs_neg (l : List (ℕ × ℚ)) (c : ℕ) :
    coeff (MipProblem.sortPairs (l.map fun e => (e.1, -e.2))) c = -coeff l c := by
  have hneg : (fun e : ℕ × ℚ => (e.1, -e.2)) = fun e => (e.1, -1 * e.2) := by
    funext e
    rw [neg_one_mul]
  rw [MipProblem.sortPairs, coeff_perm (mergeSort_perm _ _), hneg, coeff_map_mul, neg_one_mul]

/-- Rows, objective and bounds of the split problem at a split point. -/
lemma SplitPoint.transfers (hrange : p.InRange) {x y : ℕ → ℚ} (hsplit : SplitPoint p x y)
    (h : SplitBelow p p.computeVarToConstraintMap p.nVariables s) :
    ((MipProblem.computeCsr s.2 s.1).Feasible y ↔ p.Feasible x) ∧
      (MipProblem.computeCsr s.2 s.1).objectiveValue y = p.objectiveValue x := by
  have hrow : ∀ c < p.nConstraints,
      dot ((MipProblem.computeCsr s.2 s.1).row c) y = dot (p.row c) x := by
    intro c hc
    have hw : ∀ q < (freeBelow p p.nVariables).length, coeff (s.2 (p.nVariables + q)) c =
        -coeff (s.2 ((freeBelow p p.nVariables).getD q 0)) c := by
      intro q hq
      rw [(h.new q hq).2.2, coeff_sortPairs_neg,
        (h.old _ (mem_freeBelow.mp (getD_freeBelow hq).1).1).2.2]
    rw [dot_computeCsr, h.nVariables, hsplit.sum_eq hw, dot_eq_sum (p.row c) x _ fun e he =>
      Finset.mem_range.mpr (hrange c hc e he)]
    refine sum_congr rfl fun v hv => ?_
    rw [(h.old v (Finset.mem_range.mp hv)).2.2, coeff_constraintMap p hc]
  have hcols : (∀ c < p.nVariables + (freeBelow p p.nVariables).length,
      InBounds (s.1.variableBounds c).1 (s.1.variableBounds c).2 (y c) ∧
        (s.1.isInteger c = true → ∃ k : ℤ, y c = k)) ↔
      ∀ v < p.nVariables, InBounds (p.variableBounds v).1 (p.variableBounds v).2 (x v) ∧
        (p.isInteger v = true → ∃ k : ℤ, x v = k) := by
    constructor
    · intro hall v hv
      obtain ⟨hbounds, hint⟩ := hall v (by omega)
      rw [h.bounds v hv, hsplit.old v hv] at hbounds
      rw [(h.old v hv).2.1, hsplit.old v hv] at hint
      by_cases hmem : v ∈ freeBelow p p.nVariables
      · obtain ⟨hlt, hget⟩ := getD_idxOf_freeBelow hmem
        refine ⟨by rw [(mem_freeBelow.mp hmem).2]; simp [InBounds], fun hv' => ?_⟩
        have hcopy := (hall (p.nVariables + (freeBelow p p.nVariables).idxOf v) (by omega)).2
        rw [(h.new _ hlt).2.1, hget, hsplit.new _ hlt, hget] at hcopy
        obtain ⟨a, ha⟩ := hint hv'
        obtain ⟨b, hb⟩ := hcopy hv'
        rw [if_pos hmem, hb] at ha
        exact ⟨a - b, by rw [Int.cast_sub, ← ha, add_sub_cancel_right]⟩
      · rw [if_neg hmem, if_neg hmem] at hbounds
        rw [if_neg hmem] at hint
        exact ⟨hbounds, hint⟩
    · intro hall c hc
      have hnonneg : ∀ v, 0 ≤ negativePart x v ∧ 0 ≤ x v + negativePart x v := by
        intro v
        rw [negativePart]
        split_ifs with hneg
        · exact ⟨by linarith, by linarith⟩
        · exact ⟨le_rfl, by linarith⟩
      have hnegInt : ∀ v < p.nVariables, p.isInteger v = true → ∃ k : ℤ, negativePart x v = k := by
        intro v hv hv'
        obtain ⟨a, ha⟩ := (hall v hv).2 hv'
        rw [negativePart]
        split_ifs
        · exact ⟨-a, by rw [ha, Int.cast_neg]⟩
        · exact ⟨0, Int.cast_zero.symm⟩
      rcases Nat.lt_or_ge c p.nVariables with hcn | hcn
      · rw [h.bounds c hcn, (h.old c hcn).2.1, hsplit.old c hcn]
        by_cases hmem : c ∈ freeBelow p p.nVariables
        · rw [if_pos hmem, if_pos hmem]
          refine ⟨by simpa [InBounds] using (hnonneg c).2, fun hc' => ?_⟩
          obtain ⟨a, ha⟩ := (hall c hcn).2 hc'
          obtain ⟨b, hb⟩ := hnegInt c hcn hc'
          exact ⟨a + b, by rw [ha, hb, Int.cast_add]⟩
        · rw [if_neg hmem, if_neg hmem]
          exact hall c hcn
      · obtain ⟨q, rfl⟩ := Nat.exists_eq_add_of_le hcn
        have hq : q < (freeBelow p p.nVariables).length := by omega
        have hsource := (mem_freeBelow.mp (getD_freeBelow hq).1).1
        rw [(h.newBounds q hq).1, (h.new q hq).2.1, hsplit.new q hq]
        exact ⟨by simpa [InBounds] using (hnonneg _).1, hnegInt _ hsource⟩
  constructor
  · refine and_congr ?_ ?_
    · change (∀ c < s.1.nConstraints, _) ↔ ∀ c < p.nConstraints, _
      rw [h.nConstraints]
      refine forall_congr' fun c => forall_congr' fun hc => ?_
      change InBounds (s.1.constraintLowerBounds c) (s.1.constraintUpperBounds c) _ ↔ _
      rw [hrow c hc, h.rowBounds.1, h.rowBounds.2]
      rfl
    · rw [← hcols, ← h.nVariables]
      rfl
  · have hw : ∀ q < (freeBelow p p.nVariables).length,
        s.1.objectiveCoefficients (p.nVariables + q) =
          -s.1.objectiveCoefficients ((freeBelow p p.nVariables).getD q 0) := by
      intro q hq
      rw [(h.new q hq).1, (h.old _ (mem_freeBelow.mp (getD_freeBelow hq).1).1).1]
    change ∑ v ∈ Finset.range s.1.nVariables, s.1.objectiveCoefficients v * y v +
      s.1.presolveData.objectiveOffset = _
    rw [h.nVariables, hsplit.sum_eq hw, h.offset, MipProblem.objectiveValue]
    refine congrArg (· + _) (sum_congr rfl fun v hv => ?_)
    rw [(h.old v (Finset.mem_range.mp hv)).1]

end Values

namespace MipProblem

variable {p : MipProblem}

lemma Feasible.kept {tolerance : ℚ} (htol : 0 ≤ tolerance) {a : List ℚ}
    (ha : p.Feasible fun v => a.getD v 0) :
    p.hasIntegralityDiscrepancy tolerance a = false ∧
      p.hasVariableBoundsViolation tolerance a = false := by
  constructor
  · refine any_eq_false.mpr fun v hv => ?_
    rw [Bool.and_eq_true, Bool.not_eq_true', decide_eq_false_iff_not, not_and, not_not]
    intro hint
    obtain ⟨k, hk⟩ := (ha.2 v (List.mem_range.mp hv)).2 hint
    have hvalue : a.getD v 0 = k := hk
    rw [hvalue, round_intCast, sub_self, abs_zero]
    exact htol
  · refine any_eq_false.mpr fun v hv => ?_
    rw [Bool.not_eq_true', decide_eq_false_iff_not, not_not]
    obtain ⟨hlower, hupper⟩ := (ha.2 v (List.mem_range.mp hv)).1
    constructor
    · intro w hw
      obtain ⟨l, hl, rfl⟩ := Option.mem_map.mp hw
      exact (sub_le_self l htol).trans (hlower l hl)
    · intro w hw
      obtain ⟨u, hu, rfl⟩ := Option.mem_map.mp hw
      exact (hupper u hu).trans (le_add_of_nonneg_right htol)

structure RoundTrip (p : MipProblem) (tolerance : ℚ) (uninitialized : ℕ → ℚ) (x : List ℚ) : Prop where
  back : (p.preprocessProblem.presolveData.postProcessAssignment p.nVariables true
    (p.preprocessProblem.preProcessAssignment p.nVariables tolerance uninitialized x).2).2 = x
  feasible_iff : p.preprocessProblem.Feasible (fun v =>
      (p.preprocessProblem.preProcessAssignment p.nVariables tolerance uninitialized x).2.getD v 0) ↔
    p.Feasible fun v => x.getD v 0
  objective_eq : p.preprocessProblem.objectiveValue (fun v =>
      (p.preprocessProblem.preProcessAssignment p.nVariables tolerance uninitialized x).2.getD v 0) =
    p.objectiveValue fun v => x.getD v 0
  kept : p.Feasible (fun v => x.getD v 0) →
    (p.preprocessProblem.preProcessAssignment p.nVariables tolerance uninitialized x).1 = true

theorem standardizeBounds_roundTrip (hrange : p.InRange) (hfresh : p.Fresh) {tolerance : ℚ}
    (htol : 0 ≤ tolerance) (uninitialized : ℕ → ℚ) {x : List ℚ} (hlen : x.length = p.nVariables) :
    p.RoundTrip tolerance uninitialized x := by
  set s := p.standardizeBounds p.computeVarToConstraintMap with hs
  have h : SplitBelow p p.computeVarToConstraintMap p.nVariables s := standardizeBounds_split hfresh _
  set t := (List.range p.nVariables).foldl s.1.presolveData.splitValue fun j =>
    x.getD j (uninitialized j) with ht
  have hsplit : SplitPoint p (fun v => x.getD v 0) t := by
    have hraw : SplitPoint p (fun j => x.getD j (uninitialized j)) t := splitPoint_foldl h _
    have hsame : ∀ v < p.nVariables, x.getD v (uninitialized v) = x.getD v 0 := by
      intro v hv
      rw [getD_eq_getElem _ _ (hlen ▸ hv), getD_eq_getElem _ _ (hlen ▸ hv)]
    have hneg : ∀ v < p.nVariables, negativePart (fun j => x.getD j (uninitialized j)) v =
        negativePart (fun v => x.getD v 0) v := by
      intro v hv
      rw [negativePart, negativePart, hsame v hv]
    constructor
    · intro v hv
      rw [hraw.old v hv, hsame v hv, hneg v hv]
    · intro q hq
      rw [hraw.new q hq, hneg _ (mem_freeBelow.mp (getD_freeBelow hq).1).1]
  have hpre : (p.preprocessProblem.preProcessAssignment p.nVariables tolerance uninitialized x).2 =
      (List.range s.1.nVariables).map t := rfl
  have hvalue : ∀ c < p.nVariables + (freeBelow p p.nVariables).length,
      ((List.range s.1.nVariables).map t).getD c 0 = t c :=
    fun c hc => BufferWrites.getD_map_range t (h.nVariables ▸ hc) 0
  have hpoint : SplitPoint p (fun v => x.getD v 0)
      fun v => ((List.range s.1.nVariables).map t).getD v 0 := by
    constructor
    · intro v hv
      rw [hvalue v (by omega), hsplit.old v hv]
    · intro q hq
      rw [hvalue _ (by omega), hsplit.new q hq]
  obtain ⟨hfeasible, hobjective⟩ := hpoint.transfers hrange h
  have hfeasible' : p.preprocessProblem.Feasible (fun v =>
      ((List.range s.1.nVariables).map t).getD v 0) ↔ p.Feasible fun v => x.getD v 0 := hfeasible
  constructor
  case back =>
    rw [hpre]
    set f := ((List.range s.1.nVariables).zip ((List.range s.1.nVariables).map t)).foldl
      (fun f p => update f p.1 p.2)
      fun j => (replicate s.1.nVariables (0 : ℚ)).getD j 0 with hf
    have hscatter : ∀ c < p.nVariables + (freeBelow p p.nVariables).length, f c = t c := by
      intro c hc
      have hzip := foldl_update_zip (fun j => (replicate s.1.nVariables (0 : ℚ)).getD j 0)
        ((List.range s.1.nVariables).map t)
        (by rwa [length_map, length_range, h.nVariables])
      rw [length_map, length_range, hvalue c hc] at hzip
      exact hzip
    have hpost : (p.preprocessProblem.presolveData.postProcessAssignment p.nVariables true
        ((List.range s.1.nVariables).map t)).2 = (List.range p.nVariables).map
          ((List.range (replicate s.1.nVariables (0 : ℚ)).length).foldl
            s.1.presolveData.removeAdditional f) := rfl
    rw [hpost, length_replicate, h.nVariables]
    refine ext_getElem (by rw [length_map, length_range, hlen]) fun v hv hv' => ?_
    rw [getElem_map, getElem_range, hsplit.remove h hscatter (hlen ▸ hv'),
      getD_eq_getElem _ _ hv']
  case feasible_iff => exact hfeasible
  case objective_eq => exact hobjective
  case kept =>
    intro hx
    obtain ⟨hint, hbounds⟩ := (hfeasible'.mpr hx).kept htol
    change (!p.preprocessProblem.hasIntegralityDiscrepancy tolerance
        ((List.range s.1.nVariables).map t) &&
      !p.preprocessProblem.hasVariableBoundsViolation tolerance
        ((List.range s.1.nVariables).map t)) = true
    rw [hint, hbounds]
    rfl

def freeInteger : MipProblem where
  nVariables := 2
  nConstraints := 1
  row := fun _ => [(0, 1), (1, 2)]
  constraintLowerBounds := fun _ => some 1
  constraintUpperBounds := fun _ => some 4
  variableBounds := fun v => if v = 0 then (none, none) else (some 0, some 3)
  objectiveCoefficients := fun v => v + 1
  isInteger := fun v => v = 0
  presolveData := ⟨fun _ => false, fun _ => none, 5, [], [], fun _ => false, []⟩

theorem freeInteger_roundTrip : freeInteger.RoundTrip 0 (fun _ => 7) [-2, 3] := by
  have hrange : freeInteger.InRange := by
    unfold InRange
    decide
  exact standardizeBounds_roundTrip hrange (fun _ _ => rfl) le_rfl _ rfl

end MipProblem

end CuOpt.Presolve
