import CuOpt.Cuts.CutPool
import CuOpt.Cuts.StrongCg

/-! The storage of the pool: the rows, right-hand sides, types and ages of the cuts, how a cut is added,
and the copies that drop the cuts marked as duplicates. -/

namespace CuOpt.Cuts

open SparseList List

instance : Inhabited CutType := ⟨.mixedIntegerGomory⟩

structure CutPool where
  originalVars : ℕ
  cutStorage : List (List (ℕ × ℚ))
  rhsStorage : List ℚ
  cutAge : List ℤ
  cutType : List CutType
  length_rhs : rhsStorage.length = cutStorage.length
  length_age : cutAge.length = cutStorage.length
  length_type : cutType.length = cutStorage.length
  ne_nil : ∀ row ∈ cutStorage, row ≠ []
  nodup : ∀ row ∈ cutStorage, (keys row).Nodup
  inRange : ∀ row ∈ cutStorage, ∀ q ∈ row, q.1 < originalVars
  ne_zero : ∀ row ∈ cutStorage, ∀ q ∈ row, q.2 ≠ 0

namespace CutPool

def empty (originalVars : ℕ) : CutPool where
  originalVars := originalVars
  cutStorage := []
  rhsStorage := []
  cutAge := []
  cutType := []
  length_rhs := rfl
  length_age := rfl
  length_type := rfl
  ne_nil _ h := absurd h not_mem_nil
  nodup _ h := absurd h not_mem_nil
  inRange _ h := absurd h not_mem_nil
  ne_zero _ h := absurd h not_mem_nil

/-- A cut on other variables, or without a coefficient, is not added. -/
def addCut (pool : CutPool) (cutType : CutType) (cut : Inequality) (hcut : (keys cut.vector).Nodup) :
    CutPool :=
  if hvars : ∀ q ∈ cut.vector, q.1 < pool.originalVars then
    if hsize : squeeze cut.vector = [] then pool
    else
      { pool with
        cutStorage := pool.cutStorage ++ [squeeze cut.vector]
        rhsStorage := pool.rhsStorage ++ [cut.rhs]
        cutAge := pool.cutAge ++ [0]
        cutType := pool.cutType ++ [cutType]
        length_rhs := by rw [length_append, length_append, pool.length_rhs]; rfl
        length_age := by rw [length_append, length_append, pool.length_age]; rfl
        length_type := by rw [length_append, length_append, pool.length_type]; rfl
        ne_nil := List.forall_mem_append.mpr ⟨pool.ne_nil, List.forall_mem_singleton.mpr hsize⟩
        nodup := List.forall_mem_append.mpr ⟨pool.nodup, List.forall_mem_singleton.mpr
          (hcut.sublist (List.filter_sublist.map Prod.fst))⟩
        inRange := List.forall_mem_append.mpr ⟨pool.inRange, List.forall_mem_singleton.mpr
          fun q hq => hvars q (mem_of_mem_filter hq)⟩
        ne_zero := List.forall_mem_append.mpr ⟨pool.ne_zero, List.forall_mem_singleton.mpr
          fun q hq => of_decide_eq_true (List.mem_filter.mp hq).2⟩ }
  else pool

end CutPool

section Drop

def keptRows (removed : ℕ → Bool) (m : ℕ) : List ℕ := (range m).filter fun i => !removed i

def removeRows (removed : ℕ → Bool) (rows : List (List (ℕ × ℚ))) : List (List (ℕ × ℚ)) :=
  (range rows.length).foldl
    (fun kept i => if removed i then kept else kept ++ [rows.getD i []]) []

lemma mem_keptRows {removed : ℕ → Bool} {m i : ℕ} :
    i ∈ keptRows removed m ↔ i < m ∧ removed i = false := by
  rw [keptRows, mem_filter, mem_range, Bool.not_eq_true']

variable {α : Type} [Inhabited α]

/-- Writes the entry `i` to the next position, within the same array. -/
def writeKept (removed : ℕ → Bool) (st : List α × ℕ) (i : ℕ) : List α × ℕ :=
  if removed i then st else (st.1.set st.2 (st.1.getD i default), st.2 + 1)

def compact (removed : ℕ → Bool) (l : List α) : List α :=
  let (l, write) := (range l.length).foldl (writeKept removed) (l, 0)
  l.take write

lemma keptRows_succ (removed : ℕ → Bool) (m : ℕ) :
    keptRows removed (m + 1) = keptRows removed m ++ if removed m then [] else [m] := by
  rw [keptRows, range_succ, filter_append, ← keptRows, filter_singleton]
  cases removed m
  · rfl
  · rfl

lemma removeRows_eq (removed : ℕ → Bool) (rows : List (List (ℕ × ℚ))) :
    removeRows removed rows = (keptRows removed rows.length).map fun i => rows.getD i [] := by
  rw [removeRows]
  generalize rows.length = m
  induction m with
  | zero => rfl
  | succ m ih =>
    rw [range_succ, foldl_append, ih, keptRows_succ, map_append, foldl_cons, foldl_nil]
    split_ifs
    · rw [map_nil, append_nil]
    · rfl

lemma forall_mem_removeRows {P : List (ℕ × ℚ) → Prop} {removed : ℕ → Bool}
    {rows : List (List (ℕ × ℚ))} (h : ∀ row ∈ rows, P row) : ∀ row ∈ removeRows removed rows, P row := by
  intro row hrow
  rw [removeRows_eq] at hrow
  obtain ⟨i, hi, rfl⟩ := mem_map.mp hrow
  rw [getD_eq_getElem _ _ (mem_keptRows.mp hi).1]
  exact h _ (getElem_mem _)

lemma length_keptRows_le (removed : ℕ → Bool) (m : ℕ) : (keptRows removed m).length ≤ m := by
  have hle := length_filter_le (fun i => !removed i) (range m)
  rwa [length_range] at hle

/-- The write position does not pass the read position, so that an entry is read before it is
overwritten. -/
lemma foldl_writeKept (removed : ℕ → Bool) (l : List α) {k : ℕ} (hk : k ≤ l.length) :
    (range k).foldl (writeKept removed) (l, 0) =
      (((keptRows removed k).map fun i => l.getD i default) ++ l.drop (keptRows removed k).length,
        (keptRows removed k).length) := by
  induction k with
  | zero => rfl
  | succ k ih =>
    rw [range_succ, foldl_append, ih (by omega), foldl_cons, foldl_nil, keptRows_succ, writeKept]
    have hle := length_keptRows_le removed k
    split_ifs
    · simp
    · have hlen : ((keptRows removed k).map fun i => l.getD i default).length =
          (keptRows removed k).length := length_map _
      have hread : (((keptRows removed k).map fun i => l.getD i default) ++
          l.drop (keptRows removed k).length).getD k default = l.getD k default := by
        rw [getD_append_right _ _ _ _ (hlen.trans_le hle), hlen, getD_eq_getElem?_getD,
          getElem?_drop, Nat.add_sub_cancel' hle, getD_eq_getElem?_getD]
      have hdrop : l.drop (keptRows removed k).length =
          l.getD (keptRows removed k).length default :: l.drop ((keptRows removed k).length + 1) := by
        rw [getD_eq_getElem _ _ (by omega)]
        exact drop_eq_getElem_cons (by omega)
      dsimp only
      rw [hread, hdrop, set_append_right _ _ hlen.le, hlen, Nat.sub_self, set_cons_zero,
        map_append, length_append, append_assoc]
      rfl

lemma compact_eq (removed : ℕ → Bool) (l : List α) :
    compact removed l = (keptRows removed l.length).map fun i => l.getD i default := by
  rw [compact, foldl_writeKept removed l le_rfl]
  exact take_left' (length_map _)

end Drop

namespace CutPool

def dropCuts (pool : CutPool) (removed : ℕ → Bool) : CutPool where
  originalVars := pool.originalVars
  cutStorage := removeRows removed pool.cutStorage
  rhsStorage := compact removed pool.rhsStorage
  cutAge := compact removed pool.cutAge
  cutType := compact removed pool.cutType
  length_rhs := by
    rw [compact_eq, removeRows_eq, length_map, length_map, pool.length_rhs]
  length_age := by
    rw [compact_eq, removeRows_eq, length_map, length_map, pool.length_age]
  length_type := by
    rw [compact_eq, removeRows_eq, length_map, length_map, pool.length_type]
  ne_nil := forall_mem_removeRows pool.ne_nil
  nodup := forall_mem_removeRows pool.nodup
  inRange := forall_mem_removeRows pool.inRange
  ne_zero := forall_mem_removeRows pool.ne_zero

def checkForDuplicateCuts (pool : CutPool) (duplicateTolerance : ℚ) : CutPool :=
  let (_, _, cutsToRemove) := duplicateCuts compressedScan duplicateTolerance pool.cutStorage
    pool.originalVars fun r => pool.rhsStorage.getD r 0
  if (range pool.cutStorage.length).any cutsToRemove then pool.dropCuts cutsToRemove else pool

end CutPool

end CuOpt.Cuts
