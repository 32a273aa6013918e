import CuOpt.Cuts.PoolStorage
import CuOpt.Library.Sorting

/-! The choice of cuts from the pool: by their distance, each with enough orthogonality to those chosen
before, which is computed by a merge of the two stored rows. -/

namespace CuOpt.Cuts

open SparseList Sorting List

section SparseDot

def mergeDot (p : ℕ × ℚ) (dotRest : List (ℕ × ℚ) → ℚ) : List (ℕ × ℚ) → ℚ
  | [] => 0
  | q :: ys =>
    if p.1 = q.1 then p.2 * q.2 + dotRest ys
    else if p.1 < q.1 then dotRest (q :: ys)
    else mergeDot p dotRest ys

def sparseDot : List (ℕ × ℚ) → List (ℕ × ℚ) → ℚ
  | [] => fun _ => 0
  | p :: xs => mergeDot p (sparseDot xs)

def Ascending (row : List (ℕ × ℚ)) : Prop := (keys row).Pairwise (· < ·)

lemma Ascending.of_cons {p : ℕ × ℚ} {xs : List (ℕ × ℚ)} (h : Ascending (p :: xs)) :
    (∀ k ∈ keys xs, p.1 < k) ∧ Ascending xs := pairwise_cons.mp h

lemma dot_coeff_cons {xs ys : List (ℕ × ℚ)} {q : ℕ × ℚ} (h : ∀ k ∈ keys xs, q.1 ≠ k) :
    dot xs (coeff (q :: ys)) = dot xs (coeff ys) := by
  refine congrArg sum (map_congr_left fun p hp => ?_)
  rw [coeff_cons, if_neg (h p.1 (mem_map_of_mem hp)), zero_add]

lemma sparseDot_eq {xs ys : List (ℕ × ℚ)} (hx : Ascending xs) (hy : Ascending ys) :
    sparseDot xs ys = dot xs (coeff ys) := by
  induction xs generalizing ys with
  | nil => rfl
  | cons p xs ih =>
    obtain ⟨hp, hxs⟩ := hx.of_cons
    have hcons : ∀ ys, dot (p :: xs) (coeff ys) = p.2 * coeff ys p.1 + dot xs (coeff ys) :=
      fun _ => rfl
    rw [sparseDot]
    induction ys with
    | nil =>
      rw [mergeDot, hcons, coeff_nil, mul_zero, zero_add, ← @ih [] hxs Pairwise.nil]
      cases xs
      · rfl
      · rfl
    | cons q ys ihy =>
      obtain ⟨hq, hys⟩ := hy.of_cons
      rw [mergeDot]
      split_ifs with heq hlt
      · have hzero : coeff ys p.1 = 0 := by
          apply coeff_eq_zero
          intro hmem
          exact (hq p.1 hmem).ne heq.symm
        have hrest : dot xs (coeff (q :: ys)) = dot xs (coeff ys) :=
          dot_coeff_cons fun k hk => heq ▸ (hp k hk).ne
        rw [hcons, hrest, coeff_cons, if_pos heq.symm, hzero, add_zero, ih hxs hys]
      · have hzero : coeff (q :: ys) p.1 = 0 := by
          apply coeff_eq_zero
          intro hmem
          rcases mem_cons.mp hmem with h | h
          · exact heq h
          · exact (hlt.trans (hq p.1 h)).false
        rw [hcons, hzero, mul_zero, zero_add, ih hxs hy]
      · have hgt : q.1 < p.1 := lt_of_le_of_ne (not_lt.mp hlt) (Ne.symm heq)
        have hrest : dot (p :: xs) (coeff (q :: ys)) = dot (p :: xs) (coeff ys) := by
          apply dot_coeff_cons
          intro k hk
          rcases mem_cons.mp hk with rfl | h
          · exact hgt.ne
          · exact (hgt.trans (hp k h)).ne
        rw [hrest]
        exact ihy hys

end SparseDot

section Choice

variable {K : Type} [Field K] [LinearOrder K]

/-- The square root, the sort of the standard library, and the setting. -/
structure ScoreSetting (K : Type) where
  sqrt : ℚ → K
  std : Sorter
  minOrthogonality : K

variable (s : ScoreSetting K) (pool : CutPool) (xstar : ℕ → ℚ)

def minCutDistance : K := 1 / 10 ^ 4

def maxCuts : ℕ := 2000

def duplicateTolerance : ℚ := 1 / 10 ^ 10

namespace CutPool

def cutNorm (r : ℕ) : K := s.sqrt ((pool.cutStorage.getD r []).map fun q => q.2 * q.2).sum

def cutDistance (r : ℕ) : K :=
  let cutX := ((pool.cutStorage.getD r []).map fun q => q.2 * xstar q.1).sum
  let cutViolation := pool.rhsStorage.getD r 0 - cutX
  (cutViolation : K) / pool.cutNorm s r

def cutOrthogonality (i j : ℕ) : K :=
  let dot := sparseDot (pool.cutStorage.getD i []) (pool.cutStorage.getD j [])
  1 - |(dot : K)| / (pool.cutNorm s i * pool.cutNorm s j)

def cutDistances (r : ℕ) : K :=
  if pool.cutDistance s xstar r ≤ minCutDistance then 0 else pool.cutDistance s xstar r

/-- The cuts, the one with the largest distance first: the loop takes them from the back. -/
def byDistance : List ℕ :=
  (s.std.sort (fun a b => decide (pool.cutDistances s xstar a < pool.cutDistances s xstar b))
    (range pool.cutStorage.length)).reverse

def accepts (best : List ℕ) (i : ℕ) : Bool :=
  decide (s.minOrthogonality ≤ best.foldl (fun ortho j => min ortho (pool.cutOrthogonality s i j)) 1)

def selectCuts : List ℕ → List ℕ → List ℕ
  | [], best => best
  | i :: rest, best =>
    if maxCuts ≤ best.length then best
    else if pool.cutDistances s xstar i ≤ minCutDistance then best
    else selectCuts rest (if pool.accepts s best i then best ++ [i] else best)

def bestCuts : List ℕ :=
  match pool.byDistance s xstar with
  | [] => []
  | i :: rest => pool.selectCuts s xstar rest [i]

def scoreCuts : CutPool × List ℕ :=
  let pool := pool.checkForDuplicateCuts duplicateTolerance
  (pool, pool.bestCuts s xstar)

def trueNorm (r : ℕ) : K :=
  s.sqrt (dot (pool.cutStorage.getD r []) (coeff (pool.cutStorage.getD r [])))

def parallelism (i j : ℕ) : K :=
  |((dot (pool.cutStorage.getD i []) (coeff (pool.cutStorage.getD j [])) : ℚ) : K)| /
    (pool.trueNorm s i * pool.trueNorm s j)

def PairwiseOrthogonal (best : List ℕ) : Prop :=
  ∀ i ∈ best, ∀ j ∈ best, i ≠ j → pool.parallelism s i j ≤ 1 - s.minOrthogonality

/-- The merge lets the cut `i` pass beside `j`, to which it is too parallel. -/
def Misjudged (i j : ℕ) : Prop :=
  s.minOrthogonality ≤ pool.cutOrthogonality s i j ∧ 1 - s.minOrthogonality < pool.parallelism s i j

instance (i j : ℕ) : Decidable (pool.Misjudged s i j) := inferInstanceAs (Decidable (_ ≤ _ ∧ _ < _))

/-- The cut `i` may be tested beside `j`, which is at least as far. -/
def Beside (i j : ℕ) : Prop :=
  j ≠ i ∧ minCutDistance < pool.cutDistances s xstar i ∧
    pool.cutDistances s xstar i ≤ pool.cutDistances s xstar j

instance (i j : ℕ) : Decidable (pool.Beside s xstar i j) :=
  inferInstanceAs (Decidable (_ ≠ _ ∧ _ < _ ∧ _ ≤ _))

def WellJudged : Prop :=
  ∀ i < pool.cutStorage.length, ∀ j < pool.cutStorage.length, pool.Beside s xstar i j →
    ¬pool.Misjudged s i j

instance : Decidable (pool.WellJudged s xstar) :=
  inferInstanceAs (Decidable (∀ i < _, ∀ j < _, pool.Beside s xstar i j → ¬pool.Misjudged s i j))

/-- The cuts `j` and `i` are the two farthest. -/
structure Farthest (j i : ℕ) : Prop where
  first_lt : j < pool.cutStorage.length
  second_lt : i < pool.cutStorage.length
  ne : j ≠ i
  first : ∀ k < pool.cutStorage.length, k ≠ j →
    pool.cutDistances s xstar k < pool.cutDistances s xstar j
  second : ∀ k < pool.cutStorage.length, k ≠ j → k ≠ i →
    pool.cutDistances s xstar k < pool.cutDistances s xstar i
  far : minCutDistance < pool.cutDistances s xstar i

end CutPool

end Choice

end CuOpt.Cuts
