import CuOpt.Cuts.BoundSubstitution

/-! The problem that cuts are separated for, and what substituted columns satisfy at its mixed-integer
points: shifted columns are nonnegative, and integer ones stay below their new upper bound. -/

namespace CuOpt.Cuts

open SparseList QuadProgram List
open Prod (fst)
open Option (getD_some)

def SlackForm.points (lp : SlackForm) : Set (ℕ → ℚ) :=
  {x | x ∈ lp.feasible ∧ ∀ j < lp.numCols, lp.varTypes j ≠ .continuous → ∃ k : ℤ, x j = k}

/-- Integer columns have rounded bounds, a slack is one entry that is `1` or `-1`, with a nonnegative
slack where it is `1`, and the variable bounds hold and are on columns that are not continuous. -/
structure CutSetting extends SlackForm where
  lower_integral : ∀ j < numCols, varTypes j ≠ .continuous → ∀ l ∈ lower j, ∃ k : ℤ, l = k
  upper_integral : ∀ j < numCols, varTypes j ≠ .continuous → ∀ u ∈ upper j, ∃ k : ℤ, u = k
  slack_column : ∀ j ∈ newSlacks, ∃ i α, columns j = [(i, α)] ∧ (α = 1 ∨ α = -1)
  slack_nonneg : ∀ j ∈ newSlacks, ∀ i, columns j = [(i, 1)] → ∃ l ∈ lower j, 0 ≤ l
  bounds : VariableBoundLists
  lower_var : ∀ j, ∀ b ∈ bounds.lower j, b.var < numCols ∧ varTypes b.var ≠ .continuous
  upper_var : ∀ j, ∀ b ∈ bounds.upper j, b.var < numCols ∧ varTypes b.var ≠ .continuous
  lower_hold : ∀ x ∈ toSlackForm.points, ∀ j < numCols, ∀ b ∈ bounds.lower j, b.value x ≤ x j
  upper_hold : ∀ x ∈ toSlackForm.points, ∀ j < numCols, ∀ b ∈ bounds.upper j, x j ≤ b.value x

lemma tightestLower_spec (xstar : ℕ → ℚ) (simple : Option ℚ) (bounds : List AffineBound) :
    tightestLower xstar simple bounds = (none, simple) ∨
      ∃ b ∈ bounds, tightestLower xstar simple bounds = (some b, some (b.value xstar)) := by
  unfold tightestLower
  induction bounds using reverseRecOn with
  | nil => exact .inl rfl
  | append_singleton l b ih =>
    rw [foldl_concat]
    split_ifs with htighter
    · exact .inr ⟨b, mem_append_right l (mem_singleton_self b), rfl⟩
    · rcases ih with ih | ⟨c, hc, ih⟩
      · exact .inl ih
      · exact .inr ⟨c, mem_append_left _ hc, ih⟩

lemma tightestUpper_spec (xstar : ℕ → ℚ) (simple : Option ℚ) (bounds : List AffineBound) :
    tightestUpper xstar simple bounds = (none, simple) ∨
      ∃ b ∈ bounds, tightestUpper xstar simple bounds = (some b, some (b.value xstar)) := by
  unfold tightestUpper
  induction bounds using reverseRecOn with
  | nil => exact .inl rfl
  | append_singleton l b ih =>
    rw [foldl_concat]
    split_ifs with htighter
    · exact .inr ⟨b, mem_append_right l (mem_singleton_self b), rfl⟩
    · rcases ih with ih | ⟨c, hc, ih⟩
      · exact .inl ih
      · exact .inr ⟨c, mem_append_left _ hc, ih⟩

section

variable (xstar : ℕ → ℚ) (lower upper : Option ℚ) (lowerBounds upperBounds : List AffineBound)
  (prefer : Bool) (xstarj : ℚ)

lemma substituteContinuous_spec :
    let s := substituteContinuous xstar lower upper lowerBounds upperBounds prefer xstarj
    (s.lbVariable, s.lbStar) = tightestLower xstar lower lowerBounds ∧
      (s.ubVariable, s.ubStar) = tightestUpper xstar upper upperBounds ∧
      (s.boundChanged = .lower → s.lbStar ≠ none) ∧ (s.boundChanged = .upper → s.ubStar ≠ none) := by
  unfold substituteContinuous
  cases tightestLower xstar lower lowerBounds with
  | mk lbVariable lbStar =>
    cases tightestUpper xstar upper upperBounds with
    | mk ubVariable ubStar =>
      dsimp only
      cases lbStar with
      | none =>
        cases ubStar with
        | none => simp
        | some ub => simp
      | some lb =>
        cases ubStar with
        | none =>
          dsimp only
          split_ifs <;> simp
        | some ub =>
          dsimp only
          split_ifs <;> simp

lemma substituteInteger_spec :
    let s := substituteInteger lower upper xstarj
    s.lbVariable = none ∧ s.ubVariable = none ∧ s.lbStar = lower ∧ s.ubStar = upper ∧
      (s.boundChanged = .unshifted → s.transformedUpper = upper) ∧
      (s.boundChanged = .lower → ∃ l, lower = some l ∧ s.transformedUpper = upper.map (· - l)) ∧
      (s.boundChanged = .upper → ∃ u, upper = some u ∧ s.transformedUpper = lower.map (u - ·)) := by
  unfold substituteInteger
  cases lower with
  | none => cases upper <;> simp
  | some l =>
    cases upper with
    | none =>
      dsimp only
      split_ifs <;> simp
    | some u =>
      dsimp only
      split_ifs <;> simp

end

namespace CutSetting

variable (lp : CutSetting) (xstar : ℕ → ℚ) (prefer : Bool)

def substitution : ℕ → ColumnSubstitution :=
  boundSubstitution xstar lp.toLpProblem lp.bounds prefer

def problem : RoundedProblem where
  numVars := lp.numCols
  varTypes := lp.varTypes
  lower := lp.lower
  upper := lp.upper
  feasible := lp.points
  inBounds := fun _ hx => hx.1.2
  integral := fun _ hx => hx.2
  lower_integral := lp.lower_integral
  upper_integral := lp.upper_integral

variable {lp xstar prefer} {x : ℕ → ℚ} {j : ℕ}

/-- The variable bounds that a substitution uses are recorded ones. -/
lemma mem_bounds (xstar : ℕ → ℚ) (prefer : Bool) (j : ℕ) :
    (∀ b, (lp.substitution xstar prefer j).lbVariable = some b → b ∈ lp.bounds.lower j) ∧
      ∀ b, (lp.substitution xstar prefer j).ubVariable = some b → b ∈ lp.bounds.upper j := by
  unfold substitution boundSubstitution
  cases lp.varTypes j with
  | continuous =>
    obtain ⟨hlower, hupper, -, -⟩ := substituteContinuous_spec xstar (lp.lower j) (lp.upper j)
      (lp.bounds.lower j) (lp.bounds.upper j) prefer (xstar j)
    refine ⟨fun b hb => ?_, fun b hb => ?_⟩
    · rcases tightestLower_spec xstar (lp.lower j) (lp.bounds.lower j) with h | ⟨c, hc, h⟩
      · rw [h] at hlower
        cases hb.symm.trans (congrArg fst hlower)
      · rw [h] at hlower
        cases hb.symm.trans (congrArg fst hlower)
        exact hc
    · rcases tightestUpper_spec xstar (lp.upper j) (lp.bounds.upper j) with h | ⟨c, hc, h⟩
      · rw [h] at hupper
        cases hb.symm.trans (congrArg fst hupper)
      · rw [h] at hupper
        cases hb.symm.trans (congrArg fst hupper)
        exact hc
  | integer =>
    obtain ⟨hlower, hupper, -⟩ := substituteInteger_spec (lp.lower j) (lp.upper j) (xstar j)
    refine ⟨fun b hb => ?_, fun b hb => ?_⟩
    · cases hb.symm.trans hlower
    · cases hb.symm.trans hupper
  | binary =>
    refine ⟨fun b hb => ?_, fun b hb => ?_⟩
    · cases hb
    · cases hb

lemma boundsOnIntegers : BoundsOnIntegers lp.varTypes (lp.substitution xstar prefer) := by
  intro j b hb
  rcases hb with hb | hb
  · exact (lp.lower_var j b ((mem_bounds xstar prefer j).1 b hb)).2
  · exact (lp.upper_var j b ((mem_bounds xstar prefer j).2 b hb)).2

lemma substitutedValue_nonneg (hx : x ∈ lp.points) (hj : j < lp.numCols)
    (hshift : (lp.substitution xstar prefer j).boundChanged ≠ .unshifted) :
    0 ≤ substitutedValue lp.varTypes (lp.substitution xstar prefer) x j := by
  have hbounds := hx.1.2 j hj
  unfold substitutedValue
  cases ht : lp.varTypes j with
  | continuous =>
    have hsub : lp.substitution xstar prefer j = substituteContinuous xstar (lp.lower j) (lp.upper j)
        (lp.bounds.lower j) (lp.bounds.upper j) prefer (xstar j) := by
      rw [substitution, boundSubstitution, ht]
    obtain ⟨hlower, hupper, hlowerFinite, hupperFinite⟩ :=
      substituteContinuous_spec xstar (lp.lower j) (lp.upper j)
        (lp.bounds.lower j) (lp.bounds.upper j) prefer (xstar j)
    rw [← hsub] at hlower hupper hlowerFinite hupperFinite
    cases hc : (lp.substitution xstar prefer j).boundChanged with
    | unshifted => exact absurd hc hshift
    | lower =>
      rw [sub_nonneg]
      obtain ⟨lb, hlb⟩ := Option.ne_none_iff_exists'.mp (hlowerFinite hc)
      rcases tightestLower_spec xstar (lp.lower j) (lp.bounds.lower j) with h | ⟨c, hmem, h⟩
      · rw [h] at hlower
        rw [(Prod.mk.inj hlower).1, Option.elim_none, hlb, getD_some]
        exact hbounds.1 lb ((Prod.mk.inj hlower).2.symm.trans hlb)
      · rw [h] at hlower
        rw [(Prod.mk.inj hlower).1, Option.elim_some]
        exact lp.lower_hold x hx j hj c hmem
    | upper =>
      rw [sub_nonneg]
      obtain ⟨ub, hub⟩ := Option.ne_none_iff_exists'.mp (hupperFinite hc)
      rcases tightestUpper_spec xstar (lp.upper j) (lp.bounds.upper j) with h | ⟨c, hmem, h⟩
      · rw [h] at hupper
        rw [(Prod.mk.inj hupper).1, Option.elim_none, hub, getD_some]
        exact hbounds.2 ub ((Prod.mk.inj hupper).2.symm.trans hub)
      · rw [h] at hupper
        rw [(Prod.mk.inj hupper).1, Option.elim_some]
        exact lp.upper_hold x hx j hj c hmem
  | integer =>
    have hsub : lp.substitution xstar prefer j =
        substituteInteger (lp.lower j) (lp.upper j) (xstar j) := by
      rw [substitution, boundSubstitution, ht]
    obtain ⟨-, -, hlb, hub, -, hlower, hupper⟩ :=
      substituteInteger_spec (lp.lower j) (lp.upper j) (xstar j)
    rw [← hsub] at hlb hub hlower hupper
    cases hc : (lp.substitution xstar prefer j).boundChanged with
    | unshifted => exact absurd hc hshift
    | lower =>
      obtain ⟨l, hl, -⟩ := hlower hc
      rw [sub_nonneg, hlb, hl, getD_some]
      exact hbounds.1 l hl
    | upper =>
      obtain ⟨u, hu, -⟩ := hupper hc
      rw [sub_nonneg, hub, hu, getD_some]
      exact hbounds.2 u hu
  | binary =>
    refine absurd ?_ hshift
    rw [substitution, boundSubstitution, ht]

/-- An integer column stays integer, below its new upper bound, which is integer as well. -/
lemma substitutedValue_integer (hx : x ∈ lp.points) (hj : j < lp.numCols)
    (ht : lp.varTypes j = .integer) :
    (∃ k : ℤ, substitutedValue lp.varTypes (lp.substitution xstar prefer) x j = k) ∧
      ∀ u ∈ (lp.substitution xstar prefer j).transformedUpper,
        substitutedValue lp.varTypes (lp.substitution xstar prefer) x j ≤ u ∧ ∃ k : ℤ, u = k := by
  have hne : lp.varTypes j ≠ .continuous := by
    rw [ht]
    decide
  have hbounds := hx.1.2 j hj
  obtain ⟨k, hk⟩ := hx.2 j hj hne
  have hsub : lp.substitution xstar prefer j =
      substituteInteger (lp.lower j) (lp.upper j) (xstar j) := by
    rw [substitution, boundSubstitution, ht]
  obtain ⟨-, -, hlb, hub, hunshifted, hlower, hupper⟩ :=
    substituteInteger_spec (lp.lower j) (lp.upper j) (xstar j)
  rw [← hsub] at hlb hub hunshifted hlower hupper
  unfold substitutedValue
  rw [ht]
  cases hc : (lp.substitution xstar prefer j).boundChanged with
  | unshifted =>
    refine ⟨⟨k, hk⟩, fun u hu => ?_⟩
    rw [hunshifted hc] at hu
    exact ⟨hbounds.2 u hu, lp.upper_integral j hj hne u hu⟩
  | lower =>
    obtain ⟨l, hl, htransformed⟩ := hlower hc
    obtain ⟨m, rfl⟩ := lp.lower_integral j hj hne l hl
    dsimp only
    rw [hlb, hl, getD_some, htransformed]
    refine ⟨⟨k - m, by rw [hk, Int.cast_sub]⟩, fun u hu => ?_⟩
    obtain ⟨w, hw, rfl⟩ := Option.mem_map.mp hu
    obtain ⟨n, rfl⟩ := lp.upper_integral j hj hne w hw
    exact ⟨sub_le_sub_right (hbounds.2 _ hw) _, n - m, by rw [Int.cast_sub]⟩
  | upper =>
    obtain ⟨u, hu, htransformed⟩ := hupper hc
    obtain ⟨m, rfl⟩ := lp.upper_integral j hj hne u hu
    dsimp only
    rw [hub, hu, getD_some, htransformed]
    refine ⟨⟨m - k, by rw [hk, Int.cast_sub]⟩, fun u hu => ?_⟩
    obtain ⟨w, hw, rfl⟩ := Option.mem_map.mp hu
    obtain ⟨n, rfl⟩ := lp.lower_integral j hj hne w hw
    exact ⟨sub_le_sub_left (hbounds.1 _ hw) _, m - n, by rw [Int.cast_sub]⟩

end CutSetting

end CuOpt.Cuts
