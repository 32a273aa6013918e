import CuOpt.Library.BitMasks
import CuOpt.Library.ThresholdRows
import CuOpt.Presolve.CoeffReduce

/-! The weights found for a shape have its 0/1 points, and bound its row over the unit cube. -/

namespace CuOpt.Presolve

open Cuts Sorting ThresholdRows List Finset BitMasks
open Nat (cast_nonneg)

section Masks

lemma pointActivity_eq {K : Type} [AddCommMonoid K] (a : List K) (mask : ℕ) :
    pointActivity a mask = ∑ i ∈ support a.length mask, a.getD i 0 := by
  rw [pointActivity, ← sum_toFinset _ (nodup_range.filter _)]
  apply sum_congr _ fun _ _ => rfl
  ext i
  rw [mem_toFinset, List.mem_filter, List.mem_range, mem_support]

end Masks

section Separation

variable {row : RowShape} {part : Partition} {w : List ℕ} {bound : ℤ}

variable {m : ℕ}

lemma RowShape.feasible_iff : row.feasible m = true ↔
    ∑ i ∈ support row.coef.length m, (row.coef.getD i 0 : ℤ) ≤ row.rhs := by
  rw [RowShape.feasible, decide_eq_true_eq, weightActivity, pointActivity_eq, Nat.cast_sum]

lemma foldl_max_le {f : ℕ → ℤ} {l : List ℕ} {a b : ℤ} :
    l.foldl (fun hi m => max hi (f m)) a ≤ b ↔ a ≤ b ∧ ∀ m ∈ l, f m ≤ b := by
  induction l generalizing a with
  | nil => simp
  | cons m l ih => rw [foldl_cons, ih, max_le_iff, List.forall_mem_cons, and_assoc]

lemma lt_foldl_min {f : ℕ → ℤ} {l : List ℕ} {a b : ℤ} :
    b < l.foldl (fun lo m => min lo (f m)) a ↔ b < a ∧ ∀ m ∈ l, b < f m := by
  induction l generalizing a with
  | nil => simp
  | cons m l ih => rw [foldl_cons, ih, lt_min_iff, List.forall_mem_cons, and_assoc]

lemma accepts_spec (h : accepts part w = some bound) :
    (∀ m ∈ part.maximalFeasible, (weightActivity w m : ℤ) ≤ bound) ∧
      ∀ m ∈ part.minimalInfeasible, bound < (weightActivity w m : ℤ) := by
  rw [accepts] at h
  split_ifs at h with hlt
  have hbound := Option.some.inj h
  rw [hbound] at hlt
  have hhi := (foldl_max_le (f := fun m => (weightActivity w m : ℤ))).mp hbound.le
  have hlo := (lt_foldl_min (f := fun m => (weightActivity w m : ℤ))).mp hlt
  exact ⟨hhi.2, hlo.2⟩

section

variable (hpart : buildPartition row = some part)
include hpart

/-- A point that no larger feasible one contains passes the test of single bits. -/
lemma mem_maximalFeasible (hm : m < 2 ^ row.coef.length) (hfeasible : row.feasible m = true)
    (hstop : ∀ i < row.coef.length, m.testBit i = false → row.feasible (m ||| 1 <<< i) = false) :
    m ∈ part.maximalFeasible := by
  rw [buildPartition] at hpart
  split_ifs at hpart
  cases hpart
  rw [List.mem_filter, Bool.and_eq_true, RowShape.maximal, all_eq_true]
  refine ⟨List.mem_range.mpr hm, hfeasible, ?_⟩
  intro i hi
  rw [Bool.or_eq_true, Bool.not_eq_true']
  cases hbit : m.testBit i with
  | true => exact .inl rfl
  | false => exact .inr (hstop i (List.mem_range.mp hi) hbit)

lemma mem_minimalInfeasible (hm : m < 2 ^ row.coef.length) (hinfeasible : row.feasible m = false)
    (hstop : ∀ i < row.coef.length, m.testBit i = true → row.feasible (m ^^^ 1 <<< i) = true) :
    m ∈ part.minimalInfeasible := by
  rw [buildPartition] at hpart
  split_ifs at hpart
  cases hpart
  rw [List.mem_filter, Bool.and_eq_true, RowShape.minimal, all_eq_true, Bool.not_eq_true']
  refine ⟨List.mem_range.mpr hm, hinfeasible, ?_⟩
  intro i hi
  rw [Bool.or_eq_true, Bool.not_eq_true']
  cases hbit : m.testBit i with
  | false => exact .inl rfl
  | true => exact .inr (hstop i (List.mem_range.mp hi) hbit)

/-- Accepted weights with their bound have the points of the row. -/
lemma feasible_iff_of_accepts (h : accepts part w = some bound)
    (hlen : w.length = row.coef.length) {s : Finset ℕ} (hs : s ⊆ Finset.range row.coef.length) :
    ∑ i ∈ s, (row.coef.getD i 0 : ℤ) ≤ row.rhs ↔ ∑ i ∈ s, (w.getD i 0 : ℤ) ≤ bound := by
  obtain ⟨hmax, hmin⟩ := accepts_spec h
  have hactivity : ∀ m, (weightActivity w m : ℤ) =
      ∑ i ∈ support row.coef.length m, (w.getD i 0 : ℤ) := fun m => by
    rw [weightActivity, pointActivity_eq, Nat.cast_sum, hlen]
  refine @feasible_iff_of_extremal ℕ ℤ _ _ _ (Finset.range row.coef.length)
    (fun s => ∑ i ∈ s, (row.coef.getD i 0 : ℤ) ≤ row.rhs) (fun i => (w.getD i 0 : ℤ)) bound
    (fun _ => Int.natCast_nonneg _) ?_ ?_ s hs
  · intro b hb
    obtain ⟨m, hm, rfl⟩ := exists_mask hb.prop.1
    rw [← hactivity]
    apply hmax m
    apply mem_maximalFeasible hpart hm (RowShape.feasible_iff.mpr hb.prop.2)
    intro i hi hbit
    by_contra hfeasible
    rw [Bool.not_eq_false, RowShape.feasible_iff, support_set hi] at hfeasible
    have hmem := hb.le_of_ge ⟨insert_subset (Finset.mem_range.mpr hi) hb.prop.1, hfeasible⟩
      (Finset.subset_insert i _) (mem_insert_self i _)
    rw [mem_support, hbit] at hmem
    exact Bool.false_ne_true hmem.2
  · intro b hb
    obtain ⟨m, hm, rfl⟩ := exists_mask hb.prop.1
    rw [← hactivity]
    apply hmin m
    apply mem_minimalInfeasible hpart hm
    · rw [← Bool.not_eq_true, RowShape.feasible_iff]
      exact hb.prop.2
    · intro i hi hbit
      by_contra hinfeasible
      rw [RowShape.feasible_iff, support_flip hbit] at hinfeasible
      have hmem := hb.le_of_le ⟨(erase_subset i _).trans hb.prop.1, hinfeasible⟩
        (erase_subset i _) (mem_support.mpr ⟨hi, hbit⟩)
      exact notMem_erase i _ hmem

end

end Separation

section Relaxation

variable {std : Sorter} {row : RowShape} {coef w : List ℕ} {t : ℤ}

def ratioKey (coef w : List ℕ) (x : Weighted w) : ℚ ×ₗ ℕ :=
  toLex (-((coef.getD x.index 0 : ℚ) / w.getD x.index 0), x.index)

lemma Weighted.weight_pos (x : Weighted w) : (0 : ℚ) < w.getD x.index 0 :=
  Nat.cast_pos.mpr (Nat.pos_of_ne_zero x.hasWeight)

lemma byKey_ratioBefore (coef w : List ℕ) : ByKey (ratioBefore coef w) (ratioKey coef w) := by
  intro x y
  have hcross : (coef.getD y.index 0 : ℚ) / w.getD y.index 0 < coef.getD x.index 0 / w.getD x.index 0 ↔
      coef.getD y.index 0 * w.getD x.index 0 < coef.getD x.index 0 * w.getD y.index 0 := by
    rw [div_lt_div_iff₀ y.weight_pos x.weight_pos]
    norm_cast
  have hsame : (coef.getD x.index 0 : ℚ) / w.getD x.index 0 = coef.getD y.index 0 / w.getD y.index 0 ↔
      coef.getD x.index 0 * w.getD y.index 0 = coef.getD y.index 0 * w.getD x.index 0 := by
    rw [div_eq_div_iff x.weight_pos.ne' y.weight_pos.ne']
    norm_cast
  rw [ratioKey, ratioKey, Prod.Lex.toLex_lt_toLex, neg_lt_neg_iff, neg_inj, hcross, hsame, ratioBefore]
  dsimp only
  split_ifs with hne
  · rw [decide_eq_true_eq]
    exact ⟨.inl, fun h => h.resolve_right fun heq => hne heq.1⟩
  · rw [decide_eq_true_eq]
    rw [ne_eq, not_not] at hne
    constructor
    · exact fun hlt => .inr ⟨hne, hlt⟩
    · rintro (hlt | ⟨-, hlt⟩)
      · exact absurd hne hlt.ne'
      · exact hlt

/-- What the filling takes fits, and the rest begins with an item that does not. -/
lemma fillCapacity_spec (order : List ℕ) (value capacity : ℤ) :
    ∃ taken rest, order = taken ++ rest ∧
      (fillCapacity coef w order value capacity).1 =
        value + (taken.map fun i => (coef.getD i 0 : ℤ)).sum ∧
      (fillCapacity coef w order value capacity).2.1 =
        capacity - (taken.map fun i => (w.getD i 0 : ℤ)).sum ∧
      (rest = [] ∧ (fillCapacity coef w order value capacity).2.2 = none ∨
        ∃ i, rest.head? = some i ∧ (fillCapacity coef w order value capacity).2.2 =
          if 0 < (fillCapacity coef w order value capacity).2.1 then some i else none) := by
  induction order generalizing value capacity with
  | nil =>
    refine ⟨[], [], rfl, ?_, ?_, .inl ⟨rfl, rfl⟩⟩
    · simp [fillCapacity]
    · simp [fillCapacity]
  | cons i order ih =>
    rw [fillCapacity]
    by_cases hfits : (w.getD i 0 : ℤ) ≤ capacity
    · rw [if_pos hfits]
      obtain ⟨taken, rest, rfl, hvalue, hcapacity, hstop⟩ :=
        ih (value + coef.getD i 0) (capacity - w.getD i 0)
      refine ⟨i :: taken, rest, rfl, ?_, ?_, hstop⟩
      · rw [hvalue, List.map_cons, List.sum_cons, add_assoc]
      · rw [hcapacity, List.map_cons, List.sum_cons, sub_sub]
    · rw [if_neg hfits]
      refine ⟨[], i :: order, rfl, ?_, ?_, .inr ⟨i, rfl, rfl⟩⟩
      · rw [map_nil, sum_nil, add_zero]
      · rw [map_nil, sum_nil, sub_zero]

lemma ratio_le_of_key_le {x y : Weighted w} (h : ratioKey coef w x ≤ ratioKey coef w y) :
    (coef.getD y.index 0 : ℚ) / w.getD y.index 0 ≤ coef.getD x.index 0 / w.getD x.index 0 := by
  rw [ratioKey, ratioKey, Prod.Lex.toLex_le_toLex, neg_lt_neg_iff, neg_inj] at h
  rcases h with hlt | ⟨heq, -⟩
  · exact hlt.le
  · exact heq.ge

/-- What the filling of the capacity tests bounds every point within the capacity. -/
lemma fillCapacity_bounds {order : List (Weighted w)} {y : ℕ → ℚ} {value rhs : ℤ}
    (hsorted : (order.map (ratioKey coef w)).Pairwise (· ≤ ·))
    (hy : ∀ x ∈ order, 0 ≤ y x.index ∧ y x.index ≤ 1)
    (hcapacity : (order.map fun x => (w.getD x.index 0 : ℚ) * y x.index).sum ≤ t)
    (htest : match fillCapacity coef w (order.map Weighted.index) value t with
      | (value, _, none) => value ≤ rhs
      | (value, capacity, some i) => value * w.getD i 0 + capacity * coef.getD i 0 ≤ rhs * w.getD i 0) :
    value + (order.map fun x => (coef.getD x.index 0 : ℚ) * y x.index).sum ≤ rhs := by
  obtain ⟨taken, rest, hsplit, hvalue, hleft, hstop⟩ :=
    @fillCapacity_spec coef w (order.map Weighted.index) value t
  generalize fillCapacity coef w (order.map Weighted.index) value t = filled at *
  obtain ⟨value', capacity', fractional⟩ := filled
  dsimp only at hvalue hleft hstop
  obtain ⟨taken, rest, rfl, rfl, rfl⟩ := map_eq_append_iff.mp hsplit
  have hcast : ∀ f : ℕ → ℕ, (((taken.map Weighted.index).map fun i => (f i : ℤ)).sum : ℚ) =
      (taken.map fun x => (f x.index : ℚ)).sum := by
    intro f
    rw [Int.cast_list_sum, List.map_map, List.map_map]
    rfl
  have hvalue' : (value' : ℚ) = value + (taken.map fun x => (coef.getD x.index 0 : ℚ)).sum := by
    rw [hvalue, Int.cast_add, hcast fun i => coef.getD i 0]
  have hleft' : (capacity' : ℚ) = t - (taken.map fun x => (w.getD x.index 0 : ℚ)).sum := by
    rw [hleft, Int.cast_sub, hcast fun i => w.getD i 0]
  rcases hstop with ⟨hnil, hfractional⟩ | ⟨i, hhead, hfractional⟩
  · -- everything fits
    rw [hfractional] at htest
    obtain rfl := map_eq_nil_iff.mp hnil
    dsimp only at htest
    rw [append_nil] at hy ⊢
    have hall := yield_le_sum (fun x _ => cast_nonneg (coef.getD x.index 0)) fun x hx => (hy x hx).2
    have htest' : (value' : ℚ) ≤ rhs := by exact_mod_cast htest
    linarith
  · -- the first item that does not fit prices the capacity
    match rest with
    | [] => cases hhead
    | x :: rest =>
      cases hhead
      have hpos : (0 : ℚ) < w.getD x.index 0 := x.weight_pos
      rw [map_append, pairwise_append] at hsorted
      have hprice := @yield_le_of_price _ ℚ _ _ _ (fun x : Weighted w => (coef.getD x.index 0 : ℚ))
        (fun x => (w.getD x.index 0 : ℚ)) (fun x => y x.index)
        (coef.getD x.index 0 / w.getD x.index 0) t taken (x :: rest)
        (div_nonneg (cast_nonneg _) (cast_nonneg _)) hy
        (fun z hz => (le_div_iff₀ z.weight_pos).mp (ratio_le_of_key_le (hsorted.2.2 _ (mem_map_of_mem hz) _
          (mem_map_of_mem List.mem_cons_self))))
        (fun z hz => by
          apply (div_le_iff₀ z.weight_pos).mp
          rcases List.mem_cons.mp hz with rfl | hz
          · exact le_rfl
          · rw [List.map_cons, List.pairwise_cons] at hsorted
            exact ratio_le_of_key_le (hsorted.2.1.1 _ (mem_map_of_mem hz)))
        hcapacity
      rw [← hleft'] at hprice
      by_cases hcap : 0 < capacity'
      · rw [hfractional, if_pos hcap] at htest
        have htest' : (value' : ℚ) * w.getD x.index 0 + capacity' * coef.getD x.index 0 ≤
            rhs * w.getD x.index 0 := by
          exact_mod_cast htest
        have hscaled : (value' : ℚ) + coef.getD x.index 0 / w.getD x.index 0 * capacity' ≤ rhs := by
          apply le_of_mul_le_mul_right _ hpos
          rw [add_mul, div_mul_eq_mul_div, div_mul_cancel₀ _ hpos.ne', mul_comm (coef.getD x.index 0 : ℚ)]
          exact htest'
        linarith
      · rw [hfractional, if_neg hcap] at htest
        have htest' : (value' : ℚ) ≤ rhs := by exact_mod_cast htest
        have hnone : (coef.getD x.index 0 : ℚ) / w.getD x.index 0 * capacity' ≤ 0 :=
          mul_nonpos_of_nonneg_of_nonpos (div_nonneg (cast_nonneg _) (cast_nonneg _))
            (by exact_mod_cast not_lt.mp hcap)
        linarith

lemma map_index_weightedItems (w : List ℕ) (k : ℕ) : (weightedItems w k).map Weighted.index =
    (List.range k).filter fun i => !decide (w.getD i 0 = 0) := by
  rw [weightedItems, map_filterMap, ← filterMap_eq_filter]
  apply filterMap_congr
  intro i _
  by_cases hi : w.getD i 0 = 0
  · rw [dif_neg (not_not.mpr hi), Option.guard, decide_eq_true hi]
    rfl
  · rw [dif_pos hi, Option.guard, decide_eq_false hi]
    rfl

/-- Within the bound of the weights the row holds over the unit cube. -/
lemma lpNoWeakening_spec (h : lpNoWeakening std row w t = true) {y : ℕ → ℚ}
    (hy : ∀ i < row.coef.length, 0 ≤ y i ∧ y i ≤ 1)
    (hweights : ((List.range row.coef.length).map fun i => (w.getD i 0 : ℚ) * y i).sum ≤ t) :
    ((List.range row.coef.length).map fun i => (row.coef.getD i 0 : ℚ) * y i).sum ≤ row.rhs := by
  rw [lpNoWeakening] at h
  have hsorted := std.sorted (byKey_ratioBefore row.coef w) (weightedItems w row.coef.length)
  have hperm := std.perm (ratioBefore row.coef w) (weightedItems w row.coef.length)
  generalize std.sort (ratioBefore row.coef w) (weightedItems w row.coef.length) = order at h hsorted hperm
  have hindices : (order.map Weighted.index).Perm
      ((List.range row.coef.length).filter fun i => !decide (w.getD i 0 = 0)) :=
    map_index_weightedItems w row.coef.length ▸ hperm.map Weighted.index
  generalize hfree : (List.range row.coef.length).filter (fun i => decide (w.getD i 0 = 0)) = free at h
  -- the indices are the free ones and those that are sorted
  have hsplit : ∀ f : ℕ → ℚ, ((List.range row.coef.length).map f).sum =
      (free.map f).sum + (order.map fun x => f x.index).sum := by
    intro f
    have hall := ((filter_append_perm (fun i => decide (w.getD i 0 = 0))
      (List.range row.coef.length)).map f).sum_eq
    rw [← hall, map_append, sum_append, hfree, ← (hindices.map f).sum_eq, List.map_map]
    rfl
  have hmem : ∀ x ∈ order, x.index < row.coef.length := by
    intro x hx
    exact List.mem_range.mp (List.mem_filter.mp (hindices.mem_iff.mp (mem_map_of_mem hx))).1
  have hfreeMem : ∀ i ∈ free, i < row.coef.length ∧ w.getD i 0 = 0 := by
    intro i hi
    rw [← hfree, List.mem_filter, List.mem_range, decide_eq_true_eq] at hi
    exact hi
  rw [hsplit] at hweights ⊢
  have hzero : (free.map fun i => (w.getD i 0 : ℚ) * y i).sum = 0 := by
    apply List.sum_eq_zero
    intro a ha
    obtain ⟨i, hi, rfl⟩ := List.mem_map.mp ha
    rw [(hfreeMem i hi).2, Nat.cast_zero, zero_mul]
  rw [hzero, zero_add] at hweights
  have hbound := @fillCapacity_bounds row.coef w t order y
    ((free.map fun i => row.coef.getD i 0).sum : ℕ) row.rhs hsorted (fun x hx => hy _ (hmem x hx)) hweights
    (by
      generalize fillCapacity row.coef w (order.map Weighted.index)
        ((free.map fun i => row.coef.getD i 0).sum : ℕ) t = filled at h ⊢
      obtain ⟨value, capacity, fractional⟩ := filled
      cases fractional with
      | none => exact of_decide_eq_true h
      | some i => exact of_decide_eq_true h)
  have hfreeSum := yield_le_sum (fun i _ => cast_nonneg (row.coef.getD i 0))
    fun i hi => (hy i (hfreeMem i hi).1).2
  rw [Int.cast_natCast, Nat.cast_list_sum, List.map_map] at hbound
  exact (add_le_add_left hfreeSum _).trans hbound

end Relaxation

section Search

variable {std : Sorter} {row : RowShape} {part : Partition}

structure Reduction.Passes (std : Sorter) (row : RowShape) (part : Partition) (r : Reduction) : Prop where
  length : r.weights.length = row.coef.length
  accepted : accepts part r.weights = some r.bound
  noWeakening : lpNoWeakening std row r.weights r.bound = true

variable {r : Reduction}

lemma acceptWeights_spec {w : List ℕ} (h : acceptWeights std row part w = some r)
    (hlen : w.length = row.coef.length) : r.Passes std row part := by
  rw [acceptWeights] at h
  split at h
  case h_1 => cases h
  case h_2 bound hbound =>
    split_ifs at h with hlp
    cases h
    exact ⟨hlen, hbound, hlp⟩

lemma keepBest_spec {P : Reduction → Prop} {best : Option Reduction} (hbest : ∀ b ∈ best, P b)
    (hr : P r) : ∀ b ∈ keepBest best r, P b := by
  intro b hb
  cases best with
  | none =>
    cases hb
    exact hr
  | some b' =>
    rw [keepBest] at hb
    split_ifs at hb
    · exact hbest b hb
    · cases hb
      exact hr

lemma searchPositions_spec {remaining : ℕ} {w : List ℕ} {best : Option Reduction}
    (hlen : w.length + remaining = row.coef.length) (hbest : ∀ b ∈ best, b.Passes std row part) :
    ∀ b ∈ searchPositions std row part remaining w best, b.Passes std row part := by
  induction remaining generalizing w best with
  | zero =>
    rw [searchPositions]
    split
    case h_1 => exact hbest
    case h_2 r hr => exact keepBest_spec hbest (acceptWeights_spec hr hlen)
  | succ remaining ih =>
    rw [searchPositions]
    generalize countDown _ _ = values
    induction values generalizing best with
    | nil => exact hbest
    | cons v values ihv =>
      rw [foldl_cons]
      apply ihv
      apply ih _ hbest
      rw [length_append, length_singleton]
      omega

lemma tryCandidate_spec {best : HeuristicBest} {candidate : List ℕ}
    (hlen : candidate.length = row.coef.length) (hbest : ∀ b ∈ best.found, b.Passes std row part) :
    ∀ b ∈ (tryCandidate std row part best candidate).found, b.Passes std row part := by
  rw [tryCandidate]
  split
  case h_1 => exact hbest
  case h_2 r hr =>
    dsimp only
    split_ifs
    · exact hbest
    · intro b hb
      cases hb
      exact acceptWeights_spec hr hlen

lemma heuristicReduce_spec (h : heuristicReduce std row part = some r) :
    r.Passes std row part := by
  rw [heuristicReduce, heuristicCandidates, foldl_cons, foldl_cons, foldl_nil] at h
  apply tryCandidate_spec (length_map _) _ r h
  apply tryCandidate_spec (length_map _)
  intro b hb
  cases hb

lemma reduceShape_passes (h : reduceShape std row = some r) (hlen : 1 ≤ row.coef.length) :
    ∃ part, buildPartition row = some part ∧ r.Passes std row part := by
  rw [reduceShape] at h
  obtain ⟨part, hpart, h⟩ := Option.bind_eq_some_iff.mp h
  refine ⟨part, hpart, ?_⟩
  dsimp only at h
  split_ifs at h
  split at h
  case h_1 r' hfound =>
    obtain rfl := Option.some.inj h
    obtain ⟨m, -, hm⟩ := exists_of_findSome?_eq_some hfound
    refine searchPositions_spec ?_ (fun b hb => by cases hb) r' hm
    rw [length_singleton]
    omega
  case h_2 => exact heuristicReduce_spec h

lemma sum_mul_zeroOne {k : ℕ} {y : ℕ → ℚ} (hy : ∀ i < k, y i = 0 ∨ y i = 1) (f : ℕ → ℚ) :
    ((List.range k).map fun i => f i * y i).sum = ∑ i ∈ (Finset.range k).filter fun i => y i = 1, f i := by
  have hlist : ((List.range k).map fun i => f i * y i).sum = ∑ i ∈ Finset.range k, f i * y i := rfl
  rw [hlist, sum_filter]
  apply sum_congr rfl
  intro i hi
  rcases hy i (Finset.mem_range.mp hi) with hzero | hone
  · rw [hzero, mul_zero, if_neg zero_ne_one]
  · rw [hone, mul_one, if_pos rfl]

/-- The reduced weights have the 0/1 points of the row, and bound it over the unit cube. -/
lemma reduceShape_spec (h : reduceShape std row = some r) (hlen : 1 ≤ row.coef.length) :
    r.weights.length = row.coef.length ∧
      (∀ y : ℕ → ℚ, (∀ i < row.coef.length, y i = 0 ∨ y i = 1) →
        (((List.range row.coef.length).map fun i => (row.coef.getD i 0 : ℚ) * y i).sum ≤ row.rhs ↔
          ((List.range row.coef.length).map fun i => (r.weights.getD i 0 : ℚ) * y i).sum ≤ r.bound)) ∧
      ∀ y : ℕ → ℚ, (∀ i < row.coef.length, 0 ≤ y i ∧ y i ≤ 1) →
        ((List.range row.coef.length).map fun i => (r.weights.getD i 0 : ℚ) * y i).sum ≤ r.bound →
          ((List.range row.coef.length).map fun i => (row.coef.getD i 0 : ℚ) * y i).sum ≤ row.rhs := by
  obtain ⟨part, hpart, hpasses⟩ := reduceShape_passes h hlen
  refine ⟨hpasses.length, ?_, fun y hy => lpNoWeakening_spec hpasses.noWeakening hy⟩
  intro y hy
  have hiff := feasible_iff_of_accepts hpart hpasses.accepted hpasses.length
    (filter_subset (fun i => y i = 1) _)
  rw [sum_mul_zeroOne hy, sum_mul_zeroOne hy]
  exact_mod_cast hiff

end Search

end CuOpt.Presolve
