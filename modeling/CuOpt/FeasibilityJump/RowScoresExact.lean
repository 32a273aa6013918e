import CuOpt.FeasibilityJump.RowScores

/-! The kernel adds up the scores of the rows, but for the fractions of the partial credits that its
conversions drop, and pairs of moves without a common row are scored as their two moves. -/

namespace CuOpt.FeasibilityJump.Climber

open List hiding Ico map map_cons map_map range sum_cons
open Finset

section Rows

variable {c : Climber} {lanes : ℕ} {outside : ℚ → ℤ} {delta : ℚ} {m : Move}

def rowScore (c : Climber) (delta : ℚ) (i : ℕ) : ℚ × ℚ :=
  c.feasScoreConstraint delta (c.reverseCoefficients i)
    (c.rowState (c.reverseConstraints i)).slack (c.rowState (c.reverseConstraints i)).weight

def rowScores (c : Climber) (m : Move) : ℚ × ℚ :=
  ∑ i ∈ Ico (c.rangeForVariable m.varIdx).1 (c.rangeForVariable m.varIdx).2, c.rowScore m.value i

def credit (c : Climber) (i : ℕ) : ℚ :=
  (c.rowState (c.reverseConstraints i)).weight * c.excessImprovementWeight

/-- What the score of a row gains if its credit is converted to `converted`: only rows that are
violated before and after the move have a credit, with the sign of their change. -/
def gained (c : Climber) (converted : ℚ) (delta : ℚ) (i : ℕ) : ℚ :=
  let slack := (c.rowState (c.reverseConstraints i)).slack
  let next := slack - c.reverseCoefficients i * delta
  if slack ≤ -c.rowTolerance ∧ next ≤ -c.rowTolerance then
    if slack < next then converted - c.credit i
    else if next < slack then c.credit i - converted
    else 0
  else 0

lemma scoreLane_eq (i : ℕ) :
    c.scoreLane delta i = c.rowScore delta i + (c.gained (trunc (c.credit i)) delta i, 0) := by
  unfold scoreLane rowScore feasScoreConstraint gained credit
  dsimp only
  rw [Prod.mk_add_mk, Prod.mk.injEq]
  simp only [not_lt]
  constructor
  · split_ifs <;> grind
  · split_ifs <;> grind

lemma scoreScalar_eq (i : ℕ) : c.scoreScalar outside delta i =
    c.rowScore delta i + (c.gained (toInt32 outside (c.credit i)) delta i, 0) := by
  unfold scoreScalar rowScore feasScoreConstraint gained credit
  by_cases hzero : c.reverseCoefficients i = 0
  · simp [hzero, -not_lt]
    rfl
  · dsimp only
    rw [if_neg hzero, Prod.mk_add_mk, Prod.mk.injEq]
    simp only [not_lt]
    constructor
    · split_ifs <;> grind
    · split_ifs <;> grind

/-- The credit as the kernel converts it for entry `i` of the range: the tail converts to an integer
of 32 bits. -/
def convertedCredit (c : Climber) (lanes : ℕ) (outside : ℚ → ℤ) (first last i : ℕ) : ℚ :=
  if i < last - (last - first) % lanes then (trunc (c.credit i) : ℚ)
  else (toInt32 outside (c.credit i) : ℚ)

def gainedCredit (c : Climber) (lanes : ℕ) (outside : ℚ → ℤ) (m : Move) : ℚ :=
  ∑ i ∈ Ico (c.rangeForVariable m.varIdx).1 (c.rangeForVariable m.varIdx).2,
    c.gained (c.convertedCredit lanes outside (c.rangeForVariable m.varIdx).1
      (c.rangeForVariable m.varIdx).2 i) m.value i

lemma sum_lanes (f : ℕ → ℚ × ℚ) (first blocks : ℕ) :
    ∑ lane ∈ range lanes, (List.range blocks).foldl
      (fun acc block lane => acc lane + f (first + block * lanes + lane)) (fun _ => 0) lane =
      ∑ i ∈ Ico first (first + blocks * lanes), f i := by
  induction blocks with
  | zero => simp
  | succ blocks ih =>
    rw [range_succ]
    simp only [foldl_concat]
    rw [sum_add_distrib, ih, Nat.succ_mul, ← Nat.add_assoc,
      ← sum_Ico_consecutive f (Nat.le_add_right first (blocks * lanes)) (Nat.le_add_right _ lanes),
      sum_Ico_eq_sum_range f (first + blocks * lanes), Nat.add_sub_cancel_left]

lemma foldl_add_eq_sum {α : Type*} (f : α → ℚ × ℚ) (l : List α) (sums : ℚ × ℚ) :
    l.foldl (fun sums i => sums + f i) sums = sums + (l.map f).sum := by
  induction l generalizing sums with
  | nil => simp
  | cons a l ih => rw [foldl_cons, ih, List.map_cons, List.sum_cons, add_assoc]

lemma sum_list_Ico (f : ℕ → ℚ × ℚ) (first last : ℕ) :
    ((List.Ico first last).map f).sum = ∑ i ∈ Ico first last, f i := rfl

lemma simdScoreRows_eq (first last : ℕ) : c.simdScoreRows lanes outside first last delta =
    ∑ i ∈ Ico first last, (c.rowScore delta i +
      (c.gained (c.convertedCredit lanes outside first last i) delta i, 0)) := by
  have hmod := Nat.mod_le (last - first) lanes
  have hdiv := Nat.div_add_mod' (last - first) lanes
  rw [simdScoreRows, foldl_add_eq_sum, sum_list_Ico, sum_lanes]
  rcases le_total first last with hle | hle
  · have hblocks : first + (last - first) / lanes * lanes = last - (last - first) % lanes := by omega
    rw [hblocks, ← sum_Ico_consecutive _ (by omega : first ≤ last - (last - first) % lanes)
      (Nat.sub_le last _)]
    congr 1
    · refine sum_congr rfl fun i hi => ?_
      rw [scoreLane_eq, convertedCredit, if_pos (mem_Ico.mp hi).2]
    · refine sum_congr rfl fun i hi => ?_
      rw [scoreScalar_eq, convertedCredit, if_neg (not_lt.mpr (mem_Ico.mp hi).1)]
  · have hempty : last - first = 0 := by omega
    simp [hempty, Ico_eq_empty_of_le hle]

lemma moveFeasibility_eq :
    c.moveFeasibility lanes outside m = c.rowScores m + (c.gainedCredit lanes outside m, 0) := by
  rw [moveFeasibility, simdScoreRows_eq, sum_add_distrib, rowScores, gainedCredit]
  congr 1
  refine Prod.ext ?_ ?_
  · simp [Prod.fst_sum]
  · simp [Prod.snd_sum]

end Rows

section Pairs

variable {c : Climber} {lanes : ℕ} {outside : ℚ → ℤ} {m m₁ m₂ : Move}

lemma scoreGroups_eq {l : List (ℕ × ℚ)} (hnodup : (l.map Prod.fst).Nodup) (sums : ℚ × ℚ) :
    c.scoreGroups l sums = sums + (l.map fun e => c.feasScoreConstraint e.2 1
      ((c.rowState e.1).slack + c.slackSumcomp e.1) (c.rowState e.1).weight).sum := by
  induction l generalizing sums with
  | nil => simp [scoreGroups]
  | cons e l ih =>
    obtain ⟨row, delta⟩ := e
    rw [List.map_cons, nodup_cons] at hnodup
    -- The next entry is one of another row.
    have hnext : ∀ e ∈ l.head?, ¬ (e.1 == row) = true := by
      intro e he heq
      exact hnodup.1 (mem_map.mpr ⟨e, mem_of_mem_head? he, eq_of_beq heq⟩)
    have hsplit : l.takeWhile (fun e => e.1 == row) = [] ∧ l.dropWhile (fun e => e.1 == row) = l := by
      cases l with
      | nil => exact ⟨rfl, rfl⟩
      | cons e l =>
        have hne := hnext e rfl
        exact ⟨takeWhile_cons_of_neg hne, dropWhile_cons_of_neg hne⟩
    rw [scoreGroups, hsplit.1, hsplit.2, ih hnodup.2, List.map_cons, List.sum_cons, add_assoc]
    rfl

lemma sum_rowDeltas (hcomp : ∀ row, c.slackSumcomp row = 0) :
    ((c.rowDeltas m).map fun e => c.feasScoreConstraint e.2 1
      ((c.rowState e.1).slack + c.slackSumcomp e.1) (c.rowState e.1).weight).sum = c.rowScores m := by
  rw [rowDeltas, List.map_map, sum_list_Ico, rowScores]
  refine sum_congr rfl fun i _ => ?_
  simp only [Function.comp_apply, hcomp, add_zero, rowScore, feasScoreConstraint, one_mul]

def rowsOf (c : Climber) (m : Move) : List ℕ := (c.rowDeltas m).map Prod.fst

lemma rowsOf_nodup : (c.rowsOf m).Nodup := by
  have hrows := c.rows_nodup m.varIdx
  rwa [rowsOf, rowDeltas, List.map_map]

lemma pairFeasibility_eq (hcomp : ∀ row, c.slackSumcomp row = 0)
    (hdisjoint : (c.rowsOf m₁).Disjoint (c.rowsOf m₂)) :
    c.pairFeasibility m₁ m₂ = c.rowScores m₁ + c.rowScores m₂ := by
  have hperm := mergeSort_perm (c.rowDeltas m₁ ++ c.rowDeltas m₂) pairLe
  have hnodup : ((c.rowDeltas m₁ ++ c.rowDeltas m₂).map Prod.fst).Nodup := by
    rw [map_append]
    exact rowsOf_nodup.append rowsOf_nodup hdisjoint
  rw [pairFeasibility, scoreGroups_eq ((hperm.map Prod.fst).nodup_iff.mpr hnodup), zero_add,
    (hperm.map _).sum_eq, map_append, sum_append, sum_rowDeltas hcomp, sum_rowDeltas hcomp]

/-- The kernel scores both moves as their rows, and the pair as the two moves. -/
structure ScorersAgree (c : Climber) (lanes : ℕ) (outside : ℚ → ℤ) (m₁ m₂ : Move) : Prop where
  first : c.moveFeasibility lanes outside m₁ = c.rowScores m₁
  second : c.moveFeasibility lanes outside m₂ = c.rowScores m₂
  pair : (c.rowsOf m₁).Disjoint (c.rowsOf m₂) → c.pairFeasibility m₁ m₂ =
    c.moveFeasibility lanes outside m₁ + c.moveFeasibility lanes outside m₂

lemma moveFeasibility_eq_iff :
    c.moveFeasibility lanes outside m = c.rowScores m ↔ c.gainedCredit lanes outside m = 0 := by
  rw [moveFeasibility_eq, add_eq_left, Prod.mk_eq_zero]
  exact and_iff_left rfl

/-- The scorers agree on the moves whose conversions gain and lose the same. -/
theorem scorersAgree_iff (hcomp : ∀ row, c.slackSumcomp row = 0) :
    c.ScorersAgree lanes outside m₁ m₂ ↔
      c.gainedCredit lanes outside m₁ = 0 ∧ c.gainedCredit lanes outside m₂ = 0 := by
  constructor
  · intro h
    exact ⟨moveFeasibility_eq_iff.mp h.first, moveFeasibility_eq_iff.mp h.second⟩
  · rintro ⟨h₁, h₂⟩
    have hfirst := moveFeasibility_eq_iff.mpr h₁
    have hsecond := moveFeasibility_eq_iff.mpr h₂
    refine ⟨hfirst, hsecond, fun hdisjoint => ?_⟩
    rw [pairFeasibility_eq hcomp hdisjoint, hfirst, hsecond]

/-- Rows of weight 1 with the default weight of excess. Of the variables, the third is in a block of four
rows and in two more, the others are in one. -/
def shortClimber : Climber where
  rowTolerance := 1 / 1000000
  excessImprovementWeight := 1 / 2
  rowState _ := ⟨-2, 1⟩
  slackSumcomp _ := 0
  reverseConstraints i := i
  reverseCoefficients _ := -1
  rangeForVariable v := (v, v + if v = 2 then 6 else 1)
  rows_nodup v := by simp [List.Ico.nodup]

theorem scorersAgree_iff_crossing : shortClimber.ScorersAgree 4 (fun _ => 0) ⟨2, 2⟩ ⟨0, 2⟩ :=
  (scorersAgree_iff fun _ => rfl).mpr ⟨by decide +kernel, by decide +kernel⟩

/-- A move that brings a violated row of weight 1 nearer to its bound is worth 1/2 to the row and
nothing to the kernel. -/
theorem kernel_drops_excess : shortClimber.moveFeasibility 4 (fun _ => 0) ⟨0, 1⟩ = 0 ∧
    shortClimber.rowScores ⟨0, 1⟩ = (1 / 2, 0) ∧
    shortClimber.pairFeasibility ⟨0, 1⟩ ⟨1, 1⟩ = (1, 0) := by
  refine ⟨by decide +kernel, by decide +kernel, ?_⟩
  rw [pairFeasibility_eq (fun _ => rfl)
    (by simp [rowsOf, rowDeltas, shortClimber, List.Ico.succ_singleton])]
  decide +kernel

end Pairs

end CuOpt.FeasibilityJump.Climber
