import CuOpt.Cuts.StrongCg
import CuOpt.Cuts.VariableBoundsHold

/-! Bound substitution: each column is shifted to its lower bound, complemented at its upper bound, or
left as it is, the bounds of continuous columns being simple or variable ones. Inequalities are
transformed to the substituted columns and back. -/

namespace CuOpt.Cuts

open List (map_cons map_nil sum_cons sum_nil)
open Option (elim_none elim_some)

open SparseList QuadProgram

/-- The bound `weight * x_var + bias` on a continuous column. -/
structure AffineBound where
  var : ℕ
  weight : ℚ
  bias : ℚ
  deriving DecidableEq

def AffineBound.value (b : AffineBound) (x : ℕ → ℚ) : ℚ := b.weight * x b.var + b.bias

structure VariableBoundLists where
  lower : ℕ → List AffineBound
  upper : ℕ → List AffineBound

/-- The substitution of one column. `none` in `lbStar` is `-inf`, and in `ubStar` and
`transformedUpper` it is `inf`. -/
structure ColumnSubstitution where
  lbVariable : Option AffineBound
  lbStar : Option ℚ
  ubVariable : Option AffineBound
  ubStar : Option ℚ
  transformedUpper : Option ℚ
  transformedXstar : ℚ
  boundChanged : BoundShift

section Choice

variable (xstar : ℕ → ℚ)

/-- The simple bound, or the first of the variable bounds that are tightest at the point. -/
def tightestLower (simple : Option ℚ) (bounds : List AffineBound) : Option AffineBound × Option ℚ :=
  bounds.foldl
    (fun s b => if s.2.all fun v => decide (v < b.value xstar) then (some b, some (b.value xstar)) else s)
    (none, simple)

def tightestUpper (simple : Option ℚ) (bounds : List AffineBound) : Option AffineBound × Option ℚ :=
  bounds.foldl
    (fun s b => if s.2.all fun v => decide (b.value xstar < v) then (some b, some (b.value xstar)) else s)
    (none, simple)

def substituteContinuous (lower upper : Option ℚ) (lowerBounds upperBounds : List AffineBound)
    (preferVariableBoundOnTie : Bool) (xstarj : ℚ) : ColumnSubstitution :=
  let (lbVariable, lbStar) := tightestLower xstar lower lowerBounds
  let (ubVariable, ubStar) := tightestUpper xstar upper upperBounds
  let useLower (lb : ℚ) : ColumnSubstitution :=
    ⟨lbVariable, lbStar, ubVariable, ubStar, ubStar.map (· - lb), xstarj - lb,
      if lb = 0 then .unshifted else .lower⟩
  let useUpper (ub : ℚ) : ColumnSubstitution :=
    ⟨lbVariable, lbStar, ubVariable, ubStar, lbStar.map (ub - ·), ub - xstarj, .upper⟩
  match lbStar, ubStar with
  | none, none => ⟨lbVariable, lbStar, ubVariable, ubStar, none, xstarj, .unshifted⟩
  | some lb, none => useLower lb
  | none, some ub => useUpper ub
  | some lb, some ub =>
    let lowerDistance := xstarj - lb
    let upperDistance := ub - xstarj
    let preferUpperVariableBound :=
      preferVariableBoundOnTie && ubVariable.isSome && decide (lowerDistance = upperDistance)
    if lowerDistance ≤ upperDistance ∧ ¬preferUpperVariableBound then useLower lb else useUpper ub

def substituteInteger (lower upper : Option ℚ) (xstarj : ℚ) : ColumnSubstitution :=
  let unshifted : ColumnSubstitution := ⟨none, lower, none, upper, upper, xstarj, .unshifted⟩
  let useLower (l : ℚ) : ColumnSubstitution :=
    ⟨none, lower, none, upper, upper.map (· - l), xstarj - l, .lower⟩
  match lower, upper with
  | none, none => unshifted
  | none, some u => ⟨none, lower, none, upper, none, u - xstarj, .upper⟩
  | some l, none => if l ≠ 0 then useLower l else unshifted
  | some l, some u =>
    if u - xstarj ≤ xstarj - l then ⟨none, lower, none, upper, some (u - l), u - xstarj, .upper⟩
    else if l ≠ 0 then useLower l
    else unshifted

def boundSubstitution (lp : LpProblem) (bounds : VariableBoundLists)
    (preferVariableBoundOnTie : Bool) (j : ℕ) : ColumnSubstitution :=
  match lp.varTypes j with
  | .continuous =>
    substituteContinuous xstar (lp.lower j) (lp.upper j) (bounds.lower j) (bounds.upper j)
      preferVariableBoundOnTie (xstar j)
  | .integer => substituteInteger (lp.lower j) (lp.upper j) (xstar j)
  | .binary => ⟨none, some 0, none, some 0, none, 0, .unshifted⟩

end Choice

section Transform

variable (varTypes : ℕ → VariableType) (s : ℕ → ColumnSubstitution)

/-- The entries that a continuous column's entry becomes, and what is taken off the right-hand side. -/
def substituteEntry (q : ℕ × ℚ) : List (ℕ × ℚ) × ℚ :=
  if varTypes q.1 ≠ .continuous then ([q], 0)
  else
    match (s q.1).boundChanged with
    | .unshifted => ([q], 0)
    | .lower =>
      match (s q.1).lbVariable with
      | none => ([q], q.2 * (s q.1).lbStar.getD 0)
      | some b => ([q, (b.var, q.2 * b.weight)], q.2 * b.bias)
    | .upper =>
      match (s q.1).ubVariable with
      | none => ([(q.1, -q.2)], q.2 * (s q.1).ubStar.getD 0)
      | some b => ([(q.1, -q.2), (b.var, q.2 * b.weight)], q.2 * b.bias)

def restoreEntry (q : ℕ × ℚ) : List (ℕ × ℚ) × ℚ :=
  if varTypes q.1 ≠ .continuous then ([q], 0)
  else
    match (s q.1).boundChanged with
    | .unshifted => ([q], 0)
    | .lower =>
      match (s q.1).lbVariable with
      | none => ([q], -(q.2 * (s q.1).lbStar.getD 0))
      | some b => ([q, (b.var, -q.2 * b.weight)], -(q.2 * b.bias))
    | .upper =>
      match (s q.1).ubVariable with
      | none => ([(q.1, -q.2)], q.2 * (s q.1).ubStar.getD 0)
      | some b => ([(q.1, -q.2), (b.var, q.2 * b.weight)], q.2 * b.bias)

def shiftInteger (q : ℕ × ℚ) : (ℕ × ℚ) × ℚ :=
  if varTypes q.1 ≠ .integer then (q, 0)
  else
    match (s q.1).boundChanged with
    | .unshifted => (q, 0)
    | .lower => (q, q.2 * (s q.1).lbStar.getD 0)
    | .upper => ((q.1, -q.2), q.2 * (s q.1).ubStar.getD 0)

def restoreInteger (q : ℕ × ℚ) : (ℕ × ℚ) × ℚ :=
  if varTypes q.1 ≠ .integer then (q, 0)
  else
    match (s q.1).boundChanged with
    | .unshifted => (q, 0)
    | .lower => (q, -(q.2 * (s q.1).lbStar.getD 0))
    | .upper => ((q.1, -q.2), q.2 * (s q.1).ubStar.getD 0)

def Inequality.replace (g : ℕ × ℚ → List (ℕ × ℚ) × ℚ) (c : Inequality) : Inequality :=
  ⟨c.vector.flatMap fun q => (g q).1, c.rhs - (c.vector.map fun q => (g q).2).sum⟩

def Inequality.gather (c : Inequality) : Inequality := ⟨SparseList.gather c.vector, c.rhs⟩

/-- Continuous columns first, for their variable bounds change the entries of integer ones. -/
def transformInequality (c : Inequality) : Inequality :=
  ((c.replace (substituteEntry varTypes s)).gather).replace fun q =>
    ([(shiftInteger varTypes s q).1], (shiftInteger varTypes s q).2)

def untransformInequality (c : Inequality) : Inequality :=
  ((c.replace fun q => ([(restoreInteger varTypes s q).1], (restoreInteger varTypes s q).2)).replace
    (restoreEntry varTypes s)).gather

def substitutedValue (x : ℕ → ℚ) (j : ℕ) : ℚ :=
  match varTypes j, (s j).boundChanged with
  | .continuous, .lower => x j - ((s j).lbVariable.elim ((s j).lbStar.getD 0) (·.value x))
  | .continuous, .upper => ((s j).ubVariable.elim ((s j).ubStar.getD 0) (·.value x)) - x j
  | .integer, .lower => x j - (s j).lbStar.getD 0
  | .integer, .upper => (s j).ubStar.getD 0 - x j
  | _, _ => x j

/-- The bounds that the substitution uses are bounds in a column that is not continuous. -/
def BoundsOnIntegers : Prop :=
  ∀ j, ∀ b, (s j).lbVariable = some b ∨ (s j).ubVariable = some b → varTypes b.var ≠ .continuous

def halfSubstituted (x : ℕ → ℚ) (j : ℕ) : ℚ :=
  if varTypes j = .continuous then substitutedValue varTypes s x j else x j

variable {varTypes s} {x y z : ℕ → ℚ}

def Inequality.slack (c : Inequality) (x : ℕ → ℚ) : ℚ := dot c.vector x - c.rhs

lemma slack_replace {g : ℕ × ℚ → List (ℕ × ℚ) × ℚ} (c : Inequality)
    (hg : ∀ q ∈ c.vector, dot (g q).1 y + (g q).2 = q.2 * x q.1) :
    (c.replace g).slack y = c.slack x := by
  obtain ⟨l, r⟩ := c
  have hsum : dot (l.flatMap fun q => (g q).1) y + (l.map fun q => (g q).2).sum = dot l x := by
    induction l with
    | nil => exact add_zero _
    | cons q l ih =>
      have hq := hg q List.mem_cons_self
      have hl := ih fun r hr => hg r (List.mem_cons_of_mem q hr)
      simp only [dot, List.flatMap_cons, List.map_append, List.sum_append, map_cons,
        sum_cons] at hq hl ⊢
      linarith
  simp only [Inequality.slack, Inequality.replace]
  rw [← hsum]
  ring

lemma slack_gather (c : Inequality) (x : ℕ → ℚ) : c.gather.slack x = c.slack x := by
  rw [Inequality.slack, Inequality.slack, Inequality.gather, dot_gather]

lemma dot_substituteEntry (hb : BoundsOnIntegers varTypes s) (q : ℕ × ℚ) :
    dot (substituteEntry varTypes s q).1 (halfSubstituted varTypes s x) +
      (substituteEntry varTypes s q).2 = q.2 * x q.1 := by
  unfold substituteEntry
  by_cases hq : varTypes q.1 = .continuous
  · have hhalf : halfSubstituted varTypes s x q.1 = substitutedValue varTypes s x q.1 := if_pos hq
    rw [if_neg (not_not.mpr hq)]
    unfold substitutedValue at hhalf
    rw [hq] at hhalf
    cases hc : (s q.1).boundChanged with
    | unshifted =>
      rw [hc] at hhalf
      simp [dot, hhalf]
    | lower =>
      cases hv : (s q.1).lbVariable with
      | none =>
        rw [hc, hv] at hhalf
        simp only [dot, map_cons, map_nil, sum_cons, sum_nil, hhalf, elim_none]
        ring
      | some b =>
        have hvar : halfSubstituted varTypes s x b.var = x b.var := if_neg (hb q.1 b (.inl hv))
        rw [hc, hv] at hhalf
        simp only [dot, map_cons, map_nil, sum_cons, sum_nil, hhalf,
          elim_some, AffineBound.value, hvar]
        ring
    | upper =>
      cases hv : (s q.1).ubVariable with
      | none =>
        rw [hc, hv] at hhalf
        simp only [dot, map_cons, map_nil, sum_cons, sum_nil, hhalf, elim_none]
        ring
      | some b =>
        have hvar : halfSubstituted varTypes s x b.var = x b.var := if_neg (hb q.1 b (.inr hv))
        rw [hc, hv] at hhalf
        simp only [dot, map_cons, map_nil, sum_cons, sum_nil, hhalf,
          elim_some, AffineBound.value, hvar]
        ring
  · rw [if_pos hq]
    simp [dot, halfSubstituted, hq]

lemma dot_restoreEntry (q : ℕ × ℚ) :
    dot (restoreEntry varTypes s q).1 x + (restoreEntry varTypes s q).2 =
      q.2 * halfSubstituted varTypes s x q.1 := by
  unfold restoreEntry
  by_cases hq : varTypes q.1 = .continuous
  · have hhalf : halfSubstituted varTypes s x q.1 = substitutedValue varTypes s x q.1 := if_pos hq
    rw [if_neg (not_not.mpr hq), hhalf]
    unfold substitutedValue
    rw [hq]
    cases hc : (s q.1).boundChanged with
    | unshifted => simp [dot]
    | lower =>
      cases hv : (s q.1).lbVariable with
      | none =>
        simp only [dot, map_cons, map_nil, sum_cons, sum_nil, elim_none]
        ring
      | some b =>
        simp only [dot, map_cons, map_nil, sum_cons, sum_nil, elim_some,
          AffineBound.value]
        ring
    | upper =>
      cases hv : (s q.1).ubVariable with
      | none =>
        simp only [dot, map_cons, map_nil, sum_cons, sum_nil, elim_none]
        ring
      | some b =>
        simp only [dot, map_cons, map_nil, sum_cons, sum_nil, elim_some,
          AffineBound.value]
        ring
  · rw [if_pos hq]
    simp [dot, halfSubstituted, hq]

lemma substitutedValue_of_not_integer {j : ℕ} (hj : varTypes j ≠ .integer) :
    substitutedValue varTypes s x j = halfSubstituted varTypes s x j := by
  unfold halfSubstituted
  split_ifs with hcontinuous
  · rfl
  · unfold substitutedValue
    cases ht : varTypes j with
    | continuous => exact absurd ht hcontinuous
    | integer => exact absurd ht hj
    | binary => rfl

lemma dot_shiftInteger (q : ℕ × ℚ) :
    dot [(shiftInteger varTypes s q).1] (substitutedValue varTypes s x) +
      (shiftInteger varTypes s q).2 = q.2 * halfSubstituted varTypes s x q.1 := by
  unfold shiftInteger
  split_ifs with hq
  · rw [← substitutedValue_of_not_integer hq]
    simp [dot]
  · have hq' : varTypes q.1 = .integer := not_not.mp hq
    have hhalf : halfSubstituted varTypes s x q.1 = x q.1 := if_neg (by rw [hq']; decide)
    rw [hhalf]
    cases hc : (s q.1).boundChanged with
    | unshifted => simp [dot, substitutedValue, hq', hc]
    | lower | upper =>
      simp only [dot, substitutedValue, hq', hc, map_cons, map_nil, sum_cons, sum_nil]
      ring

lemma dot_restoreInteger (q : ℕ × ℚ) :
    dot [(restoreInteger varTypes s q).1] (halfSubstituted varTypes s x) +
      (restoreInteger varTypes s q).2 = q.2 * substitutedValue varTypes s x q.1 := by
  unfold restoreInteger
  split_ifs with hq
  · rw [substitutedValue_of_not_integer hq]
    simp [dot]
  · have hq' : varTypes q.1 = .integer := not_not.mp hq
    have hhalf : halfSubstituted varTypes s x q.1 = x q.1 := if_neg (by rw [hq']; decide)
    cases hc : (s q.1).boundChanged with
    | unshifted => simp [dot, substitutedValue, hq', hc, hhalf]
    | lower | upper =>
      simp only [dot, substitutedValue, hq', hc, hhalf, map_cons, map_nil, sum_cons,
        sum_nil]
      ring

lemma slack_transformInequality (hb : BoundsOnIntegers varTypes s) (c : Inequality) (x : ℕ → ℚ) :
    (transformInequality varTypes s c).slack (substitutedValue varTypes s x) = c.slack x := by
  rw [transformInequality, slack_replace (x := halfSubstituted varTypes s x) _
    fun q _ => dot_shiftInteger q, slack_gather,
    slack_replace (x := x) _ fun q _ => dot_substituteEntry hb q]

lemma slack_untransformInequality (c : Inequality) (x : ℕ → ℚ) :
    (untransformInequality varTypes s c).slack x = c.slack (substitutedValue varTypes s x) := by
  rw [untransformInequality, slack_gather,
    slack_replace (x := halfSubstituted varTypes s x) _ fun q _ => dot_restoreEntry q,
    slack_replace (x := substitutedValue varTypes s x) _ fun q _ => dot_restoreInteger q]

end Transform

section Keys

variable (varTypes : ℕ → VariableType) (s : ℕ → ColumnSubstitution)

lemma keys_replace_single (g : ℕ × ℚ → (ℕ × ℚ) × ℚ) (hg : ∀ q, (g q).1.1 = q.1)
    (c : Inequality) : keys (c.replace fun q => ([(g q).1], (g q).2)).vector = keys c.vector := by
  rw [Inequality.replace, keys, keys, List.map_flatMap]
  induction c.vector with
  | nil => rfl
  | cons q l ih =>
    rw [List.flatMap_cons, ih, map_cons, map_cons, hg]
    rfl

lemma shiftInteger_fst (q : ℕ × ℚ) : (shiftInteger varTypes s q).1.1 = q.1 := by
  unfold shiftInteger
  split_ifs
  · rfl
  · split <;> rfl

lemma restoreInteger_fst (q : ℕ × ℚ) : (restoreInteger varTypes s q).1.1 = q.1 := by
  unfold restoreInteger
  split_ifs
  · rfl
  · split <;> rfl

lemma keys_transformInequality (c : Inequality) :
    keys (transformInequality varTypes s c).vector =
      keys (gather (c.vector.flatMap fun q => (substituteEntry varTypes s q).1)) :=
  keys_replace_single _ (shiftInteger_fst varTypes s) _

lemma keys_transformInequality_nodup (c : Inequality) :
    (keys (transformInequality varTypes s c).vector).Nodup := by
  rw [keys_transformInequality]
  exact keys_gather_nodup _

end Keys

end CuOpt.Cuts
