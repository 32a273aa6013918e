import CuOpt.Simplex.FreeEliminationSound

/-! `presolve` and `uncrush_solution`: the reductions in sequence, and their undoing in the
reverse order. -/

namespace CuOpt.Simplex

open SparseList QuadProgram List Finset
open Prod (fst)
open Function (update)

def splitFreeVariables (problem : LpProblem) (info : PresolveInfo) : LpProblem × PresolveInfo :=
  let n := problem.numCols
  let free := (List.range n).filter problem.isFree
  ({ problem with
      numCols := n + free.length
      A := { problem.A with
        n := n + free.length
        col := fun j =>
          if j < n then problem.A.col j
          else (problem.A.col (free.getD (j - n) 0)).map fun p => (p.1, -p.2) }
      lower := fun j =>
        if j < n then if problem.isFree j then some 0 else problem.lower j else some 0
      upper := fun j => if j < n then problem.upper j else none
      objective := fun j =>
        if j < n then problem.objective j else -problem.objective (free.getD (j - n) 0) },
    { info with freeVariablePairs := free.map fun j => (j, n + free.idxOf j) })

def mergePairs (pairs : List (ℕ × ℕ)) (t : Solution) : Solution :=
  { t with x := pairs.foldl (fun x p => Function.update x p.1 (x p.1 - x p.2)) t.x }

section Split

lemma foldl_mergePairs (x : ℕ → ℚ) (pairs : List (ℕ × ℕ)) (hnodup : (pairs.map fst).Nodup)
    (hfresh : ∀ p ∈ pairs, p.2 ∉ pairs.map fst) :
    (∀ p ∈ pairs, pairs.foldl (fun x p => update x p.1 (x p.1 - x p.2)) x p.1 =
      x p.1 - x p.2) ∧
    ∀ j, j ∉ pairs.map fst →
      pairs.foldl (fun x p => update x p.1 (x p.1 - x p.2)) x j = x j := by
  induction pairs using reverseRecOn with
  | nil => simp
  | append_singleton pairs q ih =>
    rw [map_append, nodup_append] at hnodup
    have hq : q.1 ∉ pairs.map fst := fun hmem =>
      hnodup.2.2 q.1 hmem q.1 (by simp) rfl
    have hq₂ : q.2 ∉ pairs.map fst := fun hmem =>
      hfresh q (by simp) (by rw [map_append]; exact mem_append_left _ hmem)
    obtain ⟨hin, hout⟩ := ih hnodup.1 fun p hp hmem =>
      hfresh p (mem_append_left _ hp) (by rw [map_append]; exact mem_append_left _ hmem)
    simp only [foldl_concat]
    constructor
    · intro p hp
      rcases mem_append.mp hp with hp | hp
      · have hne : p.1 ≠ q.1 := fun he => hq (he ▸ mem_map_of_mem hp)
        rw [Function.update_of_ne hne, hin p hp]
      · rw [List.mem_singleton] at hp
        subst hp
        rw [Function.update_self, hout _ hq, hout _ hq₂]
    · intro j hj
      rw [map_append, mem_append, not_or] at hj
      have hne : j ≠ q.1 := by simpa using hj.2
      rw [Function.update_of_ne hne, hout j hj.1]

variable {problem : LpProblem} {info : PresolveInfo}

lemma mem_free {j : ℕ} : j ∈ (List.range problem.numCols).filter problem.isFree ↔
    j < problem.numCols ∧ problem.isFree j = true := by
  rw [List.mem_filter, List.mem_range]

lemma getD_free_idxOf {l : List ℕ} {j : ℕ} (hj : j ∈ l) : l.getD (l.idxOf j) 0 = j := by
  have hlt := idxOf_lt_length_iff.mpr hj
  rw [getD_eq_getElem _ _ hlt, getElem_idxOf hlt]

lemma splitFreeVariables_isSplit (info : PresolveInfo) (hQ : problem.Q.n = 0) :
    Program.IsSplit (splitFreeVariables problem info).1.toProgram problem.toProgram
      ((List.range problem.numCols).filter problem.isFree).toFinset
      (fun j => problem.numCols + ((List.range problem.numCols).filter problem.isFree).idxOf j) := by
  set n := problem.numCols with hn
  set free := (List.range n).filter problem.isFree with hfree
  have hlt {j : ℕ} (hj : j ∈ free.toFinset) : j ∈ free := mem_toFinset.mp hj
  refine ⟨rfl, ?_, ?_, ?_, ?_, fun i _ j hj => ?_, fun i _ j hj => ?_, fun _ _ => rfl,
    fun j hj => ?_, fun j hj => ?_, fun j k => ?_, fun j k => ?_, rfl, fun j hj hjF => ?_,
    fun j hj => ?_⟩
  · ext k
    simp only [LpProblem.toProgram, splitFreeVariables, Finset.mem_range, mem_union,
      mem_image, mem_toFinset, ← hn, ← hfree]
    constructor
    · intro hk
      by_cases hkn : k < n
      · exact .inl hkn
      · have hidx : k - n < free.length := by omega
        refine .inr ⟨free[k - n], getElem_mem hidx, ?_⟩
        rw [(nodup_range.filter _).idxOf_getElem]
        omega
    · rintro (hk | ⟨j, hj, rfl⟩)
      · omega
      · have := idxOf_lt_length_iff.mpr hj
        omega
  · intro j hj
    exact Finset.mem_range.mpr (mem_free.mp (hlt hj)).1
  · rw [Finset.disjoint_left]
    intro k hk himg
    obtain ⟨j, -, rfl⟩ := mem_image.mp himg
    have hklt := Finset.mem_range.mp hk
    omega
  · intro j hj k hk h
    have heq : free.idxOf j = free.idxOf k := by simpa using h
    rw [← getD_free_idxOf (hlt hj), heq, getD_free_idxOf (hlt hk)]
  · have hjn : j < n := Finset.mem_range.mp hj
    simp only [LpProblem.toProgram, splitFreeVariables, CscMatrix.entry, ← hn, hjn, if_true]
  · have hge : ¬ n + free.idxOf j < n := by omega
    simp only [LpProblem.toProgram, splitFreeVariables, CscMatrix.entry, ← hn, ← hfree, hge,
      if_false, Nat.add_sub_cancel_left, getD_free_idxOf (hlt hj)]
    have hneg : (fun p : ℕ × ℚ => (p.1, -p.2)) = fun p => (p.1, -1 * p.2) := by
      funext p
      rw [neg_one_mul]
    rw [hneg, coeff_map_mul, neg_one_mul]
  · have hjn : j < n := Finset.mem_range.mp hj
    simp only [LpProblem.toProgram, splitFreeVariables, ← hn, hjn, if_true]
  · have hge : ¬ n + free.idxOf j < n := by omega
    simp only [LpProblem.toProgram, splitFreeVariables, ← hn, ← hfree, hge, if_false,
      Nat.add_sub_cancel_left, getD_free_idxOf (hlt hj)]
  · simp only [LpProblem.toProgram, hQ, lt_irrefl, if_false]
  · simp only [LpProblem.toProgram, splitFreeVariables, hQ, lt_irrefl, if_false]
  · have hjn : j < n := Finset.mem_range.mp hj
    have hnot : problem.isFree j = false := by
      by_contra hf
      exact hjF (mem_toFinset.mpr (mem_free.mpr ⟨hjn, by simpa using hf⟩))
    simp [LpProblem.toProgram, splitFreeVariables, ← hn, hjn, hnot]
  · have hf := (mem_free.mp (hlt hj)).2
    simp only [LpProblem.isFree, Bool.and_eq_true, decide_eq_true_eq] at hf
    exact hf

lemma mergePairs_sameOn (problem : LpProblem) (info : PresolveInfo) :
    Program.SameOn problem.toProgram
      (Program.merge ((List.range problem.numCols).filter problem.isFree).toFinset
        (fun j => problem.numCols + ((List.range problem.numCols).filter problem.isFree).idxOf j))
      (mergePairs (splitFreeVariables problem info).2.freeVariablePairs) := by
  set free := (List.range problem.numCols).filter problem.isFree with hfree
  have hfst : ((splitFreeVariables problem info).2.freeVariablePairs).map fst = free := by
    simp only [splitFreeVariables, List.map_map, Function.comp_def, map_id', ← hfree]
  have hspec (x : ℕ → ℚ) := foldl_mergePairs x (splitFreeVariables problem info).2.freeVariablePairs
    (by rw [hfst]; exact nodup_range.filter _)
    (fun p hp hmem => by
      rw [hfst] at hmem
      have hlt := (mem_free.mp hmem).1
      simp only [splitFreeVariables, List.mem_map] at hp
      obtain ⟨j, _, rfl⟩ := hp
      simp only at hlt
      omega)
  refine ⟨fun t j _ => ?_, fun _ _ _ => rfl, fun _ _ _ => rfl⟩
  simp only [mergePairs, Program.merge, mem_toFinset]
  split_ifs with hj
  · exact (hspec t.x).1 (j, problem.numCols + free.idxOf j) (List.mem_map.mpr ⟨j, hj, rfl⟩)
  · exact (hspec t.x).2 j (by rwa [hfst])

lemma splitFreeVariables_wellFormed (info : PresolveInfo) (hwf : problem.WellFormed)
    (hQ : problem.Q.n = 0) : (splitFreeVariables problem info).1.WellFormed := by
  set free := (List.range problem.numCols).filter problem.isFree with hfree
  have hkeys (j : ℕ) : keys ((splitFreeVariables problem info).1.A.col j) =
      keys (problem.A.col (if j < problem.numCols then j
        else free.getD (j - problem.numCols) 0)) := by
    simp only [splitFreeVariables, ← hfree]
    split_ifs
    · rfl
    · exact keys_map_snd _ fun _ v => -v
  have hlt {j : ℕ} (hj : j < (splitFreeVariables problem info).1.numCols) :
      (if j < problem.numCols then j else free.getD (j - problem.numCols) 0) < problem.numCols := by
    simp only [splitFreeVariables, ← hfree] at hj
    split_ifs with hjn
    · exact hjn
    · have hidx : j - problem.numCols < free.length := by omega
      rw [getD_eq_getElem _ _ hidx]
      exact (mem_free.mp (getElem_mem hidx)).1
  refine ⟨hwf.A_m, rfl, fun j hj => ?_, fun j hj => ?_, fun hQ' => ?_⟩
  · rw [hkeys]
    exact hwf.A_lt _ (hlt hj)
  · rw [hkeys]
    exact hwf.A_nodup _ (hlt hj)
  · simp only [splitFreeVariables, hQ, lt_irrefl] at hQ'

end Split

section Presolve

def boundStage (settings : SimplexSolverSettings) (problem : LpProblem) (info : PresolveInfo) :
    LpProblem × PresolveInfo :=
  if settings.barrierPresolve && settings.barrierPresolveBoundFreeVariables ≠ 0 &&
      freeLinearVariables problem ≠ [] then
    ((boundFreeVariables problem).1,
      { info with boundedFreeVariables := (boundFreeVariables problem).2 })
  else (problem, info)

def negateStage (settings : SimplexSolverSettings) (problem : LpProblem) (info : PresolveInfo) :
    LpProblem × PresolveInfo :=
  if settings.barrierPresolve && negatedVariables problem ≠ [] then
    (negateColumns problem, { info with negatedVariables := negatedVariables problem })
  else (problem, info)

def shiftStage (settings : SimplexSolverSettings) (problem : LpProblem) (info : PresolveInfo) :
    LpProblem × PresolveInfo :=
  if settings.barrierPresolve &&
      (List.range problem.linearVariableCount).any (lowerBoundRemoved problem) then
    (shiftLowerBounds problem, { info with removedLowerBounds := some (removedLowerBounds problem) })
  else (problem, info)

def emptyRowStage (problem : LpProblem) (info : PresolveInfo) : Option (LpProblem × PresolveInfo) :=
  if (List.range problem.numRows).any (emptyRow problem) then removeEmptyRows problem info
  else some (problem, info)

def emptyColStage (problem : LpProblem) (info : PresolveInfo) : LpProblem × PresolveInfo :=
  if (List.range problem.linearVariableCount).any fun j => problem.A.colLength j = 0 then
    removeEmptyCols problem info
  else (problem, info)

/-- Free variables are left to the barrier solver, or split into a difference. -/
def freeStage (settings : SimplexSolverSettings) (problem : LpProblem) (info : PresolveInfo) :
    LpProblem × PresolveInfo :=
  let hasCones := problem.secondOrderConeDims ≠ []
  if settings.barrierPresolve ∧ freeLinearVariables problem ≠ [] ∧
      (0 < problem.Q.n ∨ hasCones ∨ settings.barrierEliminateFreeVariables = false) then
    (problem, { info with
      freeVariablePairs := [], directFreeVariables := freeLinearVariables problem })
  else if settings.barrierPresolve ∧ ¬hasCones ∧ freeLinearVariables problem ≠ [] then
    splitFreeVariables problem info
  else (problem, info)

def eliminateStage (settings : SimplexSolverSettings) (problem : LpProblem) (info : PresolveInfo) :
    LpProblem × PresolveInfo :=
  if settings.barrierPresolve ∧ settings.barrierEliminateFreeVariables ∧
      (problem.secondOrderConeDims ≠ [] ∨ 0 < problem.Q.n) then
    eliminateFreeVariables problem info
  else (problem, info)

abbrev Folding :=
  LpProblem → SimplexSolverSettings → PresolveInfo → LpProblem × PresolveInfo

def foldStage (folding : Folding) (settings : SimplexSolverSettings) (problem : LpProblem)
    (info : PresolveInfo) : LpProblem × PresolveInfo :=
  if settings.barrierPresolve ∧ settings.folding ≠ 0 ∧ problem.Q.n = 0 ∧
      problem.secondOrderConeDims = [] then folding problem settings info
  else (problem, info)

/-- `none` is the return value `-1`: an empty row with a nonzero right-hand side. -/
def presolve (folding : Folding) (original : LpProblem) (settings : SimplexSolverSettings) :
    Option (LpProblem × PresolveInfo) := do
  let (problem, info) := boundStage settings original {}
  let (problem, info) := negateStage settings problem info
  let (problem, info) := shiftStage settings problem info
  let (problem, info) ← emptyRowStage problem info
  let (problem, info) := emptyColStage problem info
  let (problem, info) := freeStage settings problem info
  let (problem, info) := foldStage folding settings problem info
  return eliminateStage settings problem info

def CscMatrix.mulVec (A : CscMatrix) (x : ℕ → ℚ) (i : ℕ) : ℚ :=
  ((List.range A.n).map fun j => A.entry i j * x j).sum

def CscMatrix.mulTransposeVec (A : CscMatrix) (y : ℕ → ℚ) (j : ℕ) : ℚ := dot (A.col j) y

def unfold (info : FoldingInfo) (crushed t : Solution) : Solution :=
  if info.isFolded then
    { x := info.D.mulVec crushed.x
      y := info.Cs.mulTransposeVec crushed.y
      z := info.Ds.mulTransposeVec crushed.z }
  else t

def uncrushSolution (info : PresolveInfo) (original : LpProblem) (crushed : Solution) : Solution :=
  let t := unfold info.foldingInfo crushed (restoreEliminated info crushed)
  let pairs := if info.foldingInfo.isFolded then info.foldingInfo.previousFreeVariablePairs
    else info.freeVariablePairs
  let t := restoreConstraints info (restoreVariables info (mergePairs pairs t))
  let t := unnegate info.negatedVariables (addLowerBounds info.removedLowerBounds t)
  correctDuals original.A info.boundedFreeVariables t

end Presolve

end CuOpt.Simplex
