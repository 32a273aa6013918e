import CuOpt.Library.QuadProgram
import CuOpt.Library.SparseList

/-! What the cut separators share: the points a cut must keep, inequalities, the sorting of a sparse
vector, and the count of the work. -/

namespace CuOpt.Cuts

open List hiding keys keys_cons
open SparseList QuadProgram
open Function (update)

inductive VariableType where
  | continuous
  | binary
  | integer
  deriving DecidableEq

/-- The mixed-integer points that cuts must keep; `none` in `lower` is `-inf` and `none` in `upper`
is `inf`. -/
structure MixedProblem where
  numVars : ℕ
  varTypes : ℕ → VariableType
  lower : ℕ → Option ℚ
  upper : ℕ → Option ℚ
  feasible : Set (ℕ → ℚ)
  inBounds : ∀ x ∈ feasible, ∀ j < numVars, InBounds (lower j) (upper j) (x j)
  integral : ∀ x ∈ feasible, ∀ j < numVars, varTypes j ≠ .continuous → ∃ k : ℤ, x j = k

structure RoundedProblem extends MixedProblem where
  lower_integral : ∀ j < numVars, varTypes j ≠ .continuous → ∀ l ∈ lower j, ∃ k : ℤ, l = k
  upper_integral : ∀ j < numVars, varTypes j ≠ .continuous → ∀ u ∈ upper j, ∃ k : ℤ, u = k

structure Inequality where
  vector : List (ℕ × ℚ)
  rhs : ℚ
  deriving DecidableEq

def Inequality.negate (c : Inequality) : Inequality :=
  ⟨c.vector.map fun q => (q.1, -q.2), -c.rhs⟩

lemma dot_negate (c : Inequality) (x : ℕ → ℚ) : dot c.negate.vector x = -dot c.vector x := by
  rw [dot, dot, Inequality.negate, map_map, neg_eq_neg_one_mul, ← sum_map_mul_left]
  refine congrArg sum (map_congr_left fun q _ => ?_)
  show -q.2 * x q.1 = -1 * (q.2 * x q.1)
  ring

def MixedProblem.Valid (p : MixedProblem) (c : Inequality) : Prop :=
  ∀ x ∈ p.feasible, c.rhs ≤ dot c.vector x

lemma forall_mem_getD {adj : List (List ℕ)} {P : ℕ → ℕ → Prop}
    (h : ∀ v < adj.length, ∀ u ∈ adj.getD v [], P v u) (v : ℕ) : ∀ u ∈ adj.getD v [], P v u := by
  by_cases hv : v < adj.length
  · exact h v hv
  · rw [getD_eq_default _ _ (not_lt.mp hv)]
    exact fun _ hu => absurd hu not_mem_nil

section Sorting

/-- `std::sort` by index, or a bucket for each index when the vector of dimension `n` is dense: there
the last of equal indices stays, and zeros are dropped. -/
def sortVector (n : ℕ) (v : List (ℕ × ℚ)) : List (ℕ × ℚ) :=
  if v.length = 1 then v
  else if 3 / 10 * (n : ℚ) < v.length then
    let bucket : ℕ → ℚ := v.foldl (fun b p => update b p.1 p.2) fun _ => 0
    ((range n).filter fun k => decide (bucket k ≠ 0)).map fun k => (k, bucket k)
  else v.insertionSort fun p q => p.1 ≤ q.1

lemma foldl_update_eq {v : List (ℕ × ℚ)} (hv : (keys v).Nodup) (b : ℕ → ℚ) (k : ℕ) :
    v.foldl (fun b p => update b p.1 p.2) b k =
      if k ∈ keys v then coeff v k else b k := by
  induction v generalizing b with
  | nil => rfl
  | cons p v ih =>
    have hp : p.1 ∉ keys v := (nodup_cons.mp hv).1
    rw [foldl_cons, ih (nodup_cons.mp hv).2, coeff_cons, keys_cons]
    by_cases hk : k = p.1
    · subst hk
      rw [if_neg hp, if_pos mem_cons_self, Function.update_self, if_pos rfl,
        coeff_eq_zero hp, add_zero]
    · simp [hk, Ne.symm hk]

lemma dot_perm {l l' : List (ℕ × ℚ)} (h : l.Perm l') (f : ℕ → ℚ) : dot l f = dot l' f :=
  (h.map _).sum_eq

lemma dot_sortVector {n : ℕ} {v : List (ℕ × ℚ)} (hv : (keys v).Nodup)
    (hn : ∀ p ∈ v, p.1 < n) (f : ℕ → ℚ) : dot (sortVector n v) f = dot v f := by
  unfold sortVector
  split_ifs
  · rfl
  · have hbucket : (v.foldl (fun b p => update b p.1 p.2) fun _ => 0) = coeff v := by
      funext k
      rw [foldl_update_eq hv]
      split_ifs with hk
      · rfl
      · exact (coeff_eq_zero hk).symm
    rw [hbucket, dot_eq_sum v f (Finset.range n) fun p hp => Finset.mem_range.mpr (hn p hp), dot,
      map_map, sum_map_filter, sum_map_range]
    refine Finset.sum_congr rfl fun k _ => ?_
    by_cases hk : coeff v k = 0
    · simp [hk]
    · simp [hk]
  · exact dot_perm (perm_insertionSort _ v) f

lemma sorted_keys_sortVector {n : ℕ} {v : List (ℕ × ℚ)} (hv : (keys v).Nodup) :
    (keys (sortVector n v)).Pairwise (· < ·) := by
  unfold sortVector
  split_ifs with hone
  · obtain ⟨q, rfl⟩ := length_eq_one_iff.mp hone
    exact pairwise_singleton _ _
  · dsimp only
    generalize foldl _ _ v = bucket
    have hmap : keys (((range n).filter fun k => decide (bucket k ≠ 0)).map fun k =>
        (k, bucket k)) = (range n).filter fun k => decide (bucket k ≠ 0) := by
      rw [keys, map_map]
      exact map_id _
    rw [hmap]
    exact pairwise_lt_range.sublist filter_sublist
  · have hperm := perm_insertionSort (fun p q : ℕ × ℚ => p.1 ≤ q.1) v
    have hnodup : (keys (v.insertionSort fun p q => p.1 ≤ q.1)).Nodup :=
      (hperm.map Prod.fst).nodup_iff.mpr hv
    have hsorted := pairwise_insertionSort (fun p q : ℕ × ℚ => p.1 ≤ q.1) v
    have hkeys : (keys (v.insertionSort fun p q => p.1 ≤ q.1)).Pairwise (· ≤ ·) :=
      pairwise_map.mpr hsorted
    exact (hkeys.and hnodup).imp fun h => lt_of_le_of_ne h.1 h.2

end Sorting

/-- The work estimate after some accesses, and whether it is over its limit; without an estimate no
work is counted. -/
def addWorkEstimate (accesses : ℚ) (workEstimate : Option ℚ) (maxWorkEstimate : WithTop ℚ) :
    Option ℚ × Bool :=
  match workEstimate with
  | none => (none, false)
  | some work => (some (work + accesses), decide (maxWorkEstimate < ((work + accesses : ℚ) : WithTop ℚ)))

lemma addWorkEstimate_top (accesses : ℚ) (workEstimate : Option ℚ) :
    (addWorkEstimate accesses workEstimate ⊤).2 = false := by
  cases workEstimate with
  | none => rfl
  | some work =>
    have hle : ((work + accesses : ℚ) : WithTop ℚ) ≤ ⊤ := le_top
    exact decide_eq_false hle.not_gt

end CuOpt.Cuts
