import CuOpt.Library.Activities

/-! Arithmetic on values with infinities and nan, and the estimates of a real quantity that it
preserves: from below, from above, or by a nan that says nothing. -/

namespace Activities.Extended

variable {K : Type*} [LinearOrder K]

section Field

variable [Field K]

/-- The sum of opposite infinities is nan. -/
def add : Extended K → Extended K → Extended K
  | nan, _ | _, nan => nan
  | negInf, posInf | posInf, negInf => nan
  | negInf, _ | _, negInf => negInf
  | posInf, _ | _, posInf => posInf
  | finite v, finite w => finite (v + w)

/-- Division by a number; zero by zero is nan. -/
def div : Extended K → K → Extended K
  | nan, _ => nan
  | negInf, a => if a < 0 then posInf else negInf
  | posInf, a => if a < 0 then negInf else posInf
  | finite v, a => if a ≠ 0 then finite (v / a) else if 0 < v then posInf else if v < 0 then negInf
    else nan

def abs : Extended K → Extended K
  | negInf | posInf => posInf
  | finite v => finite |v|
  | nan => nan

end Field

/-- `std::max`: the first operand unless it is less. -/
def stdMax (e e' : Extended K) : Extended K := if lt e e' then e' else e

/-- `std::min`: the first operand unless the second is less. -/
def stdMin (e e' : Extended K) : Extended K := if lt e' e then e' else e

def mapFinite (f : K → K) : Extended K → Extended K
  | finite v => finite (f v)
  | e => e

section Field

variable [Field K] [IsStrictOrderedRing K]

omit [LinearOrder K] [IsStrictOrderedRing K] in
protected theorem neg_add (e e' : Extended K) : neg (add e e') = add (neg e) (neg e') := by
  cases e with
  | finite v =>
    cases e' with
    | finite w => exact congrArg finite (neg_add v w)
    | _ => rfl
  | _ => cases e' <;> rfl

protected theorem neg_scale (a : K) (e : Extended K) : neg (scale a e) = scale (-a) e := by
  have hzero : -a = 0 ↔ a = 0 := neg_eq_zero
  rcases lt_trichotomy a 0 with ha | rfl | ha
  · cases e with
    | finite v => exact congrArg finite (neg_mul a v).symm
    | nan => rfl
    | _ => simp only [scale, ha.not_gt, ha.ne, Left.neg_pos_iff.mpr ha, if_true, if_false, neg]
  · rw [neg_zero]
    cases e with
    | finite v => exact congrArg finite (by rw [zero_mul, neg_zero])
    | nan => rfl
    | _ => simp only [scale, lt_irrefl, if_true, if_false, neg]
  · cases e with
    | finite v => exact congrArg finite (neg_mul a v).symm
    | nan => rfl
    | _ =>
      simp only [scale, ha, (Left.neg_neg_iff.mpr ha).not_gt, hzero, ha.ne', if_true, if_false, neg]

end Field

def AtMost : Extended K → K → Prop
  | negInf, _ => True
  | finite w, v => w ≤ v
  | _, _ => False

def AtLeast : Extended K → K → Prop
  | posInf, _ => True
  | finite w, v => v ≤ w
  | _, _ => False

instance (e : Extended K) (v : K) : Decidable (AtMost e v) :=
  match e with
  | negInf => inferInstanceAs (Decidable True)
  | finite w => inferInstanceAs (Decidable (w ≤ v))
  | posInf | nan => inferInstanceAs (Decidable False)

instance (e : Extended K) (v : K) : Decidable (AtLeast e v) :=
  match e with
  | posInf => inferInstanceAs (Decidable True)
  | finite w => inferInstanceAs (Decidable (v ≤ w))
  | negInf | nan => inferInstanceAs (Decidable False)

def Below (e : Extended K) (v : K) : Prop := e = nan ∨ AtMost e v

def Above (e : Extended K) (v : K) : Prop := e = nan ∨ AtLeast e v

variable {e e' : Extended K} {v w a : K}

lemma below_nan (v : K) : Below nan v := .inl rfl

lemma above_nan (v : K) : Above nan v := .inl rfl

lemma AtMost.below (h : AtMost e v) : Below e v := .inr h

lemma AtLeast.above (h : AtLeast e v) : Above e v := .inr h

lemma below_finite : Below (finite w) v ↔ w ≤ v := by
  constructor
  · rintro (h | h)
    · cases h
    · exact h
  · exact .inr

lemma above_finite : Above (finite w) v ↔ v ≤ w := by
  constructor
  · rintro (h | h)
    · cases h
    · exact h
  · exact .inr

lemma not_below_posInf : ¬ Below (posInf : Extended K) v := by
  rintro (h | h)
  · cases h
  · exact h

lemma not_above_negInf : ¬ Above (negInf : Extended K) v := by
  rintro (h | h)
  · cases h
  · exact h

lemma AtMost.mono (h : AtMost e v) (hle : v ≤ w) : AtMost e w := by
  cases e with
  | negInf => exact trivial
  | finite x => exact le_trans h hle
  | posInf | nan => exact h

lemma AtLeast.mono (h : AtLeast e v) (hle : w ≤ v) : AtLeast e w := by
  cases e with
  | posInf => exact trivial
  | finite x => exact hle.trans h
  | negInf | nan => exact h

lemma ofLower_atMost {b : Option K} : AtMost (ofLower b) v ↔ ∀ l ∈ b, l ≤ v := by
  cases b with
  | none => exact ⟨fun _ l hl => absurd hl (by simp), fun _ => trivial⟩
  | some l => exact ⟨fun h l' hl => Option.mem_some.mp hl ▸ h, fun h => h l rfl⟩

lemma ofUpper_atLeast {b : Option K} : AtLeast (ofUpper b) v ↔ ∀ u ∈ b, v ≤ u := by
  cases b with
  | none => exact ⟨fun _ u hu => absurd hu (by simp), fun _ => trivial⟩
  | some u => exact ⟨fun h u' hu => Option.mem_some.mp hu ▸ h, fun h => h u rfl⟩

omit [LinearOrder K] in
theorem ofLower_ne_nan (b : Option K) : ofLower b ≠ nan := by
  cases b <;> exact fun heq => by cases heq

omit [LinearOrder K] in
theorem ofUpper_ne_nan (b : Option K) : ofUpper b ≠ nan := by
  cases b <;> exact fun heq => by cases heq

lemma lt_eq_false (hlow : Below e v) (hhigh : Above e' v) : lt e' e = false := by
  cases e with
  | nan | negInf => cases e' <;> rfl
  | posInf => exact absurd hlow not_below_posInf
  | finite x =>
    cases e' with
    | nan => rfl
    | posInf => rfl
    | negInf => exact absurd hhigh not_above_negInf
    | finite y =>
      exact decide_eq_false (not_lt.mpr ((below_finite.mp hlow).trans (above_finite.mp hhigh)))

lemma stdMax_atMost (h : AtMost e v) (h' : Below e' v) : AtMost (stdMax e e') v := by
  rw [stdMax]
  split_ifs with hlt
  · rcases h' with rfl | h'
    · cases e <;> cases hlt
    · exact h'
  · exact h

lemma stdMin_atLeast (h : AtLeast e v) (h' : Above e' v) : AtLeast (stdMin e e') v := by
  rw [stdMin]
  split_ifs with hlt
  · rcases h' with rfl | h'
    · cases e <;> cases hlt
    · exact h'
  · exact h

lemma stdMax_atLeast (h : AtMost e v) (h' : AtLeast e' v) : AtLeast (stdMax e e') v := by
  rw [stdMax]
  split_ifs with hlt
  · exact h'
  · cases e with
    | posInf => exact trivial
    | nan => exact h
    | negInf => cases e' with
      | negInf => exact h'
      | nan => exact h'
      | _ => exact absurd rfl hlt
    | finite w => cases e' with
      | finite w' =>
        have hle : w' ≤ w := not_lt.mp fun hww => hlt (decide_eq_true hww)
        exact le_trans (show v ≤ w' from h') hle
      | posInf => exact absurd rfl hlt
      | _ => exact absurd h' id

lemma stdMax_posInf (h : AtMost e v) : stdMax e posInf = posInf := by
  cases e with
  | negInf | finite w | posInf => rfl
  | nan => exact absurd h id

lemma stdMax_ne_nan (h : e ≠ nan) : stdMax e e' ≠ nan := by
  rw [stdMax]
  split_ifs with hlt
  · rintro rfl
    cases e <;> cases hlt
  · exact h

lemma stdMin_ne_nan (h : e ≠ nan) : stdMin e e' ≠ nan := by
  rw [stdMin]
  split_ifs with hlt
  · rintro rfl
    cases e <;> cases hlt
  · exact h

lemma stdMax_eq_right (hlt : lt e' e = false) (he : e ≠ nan) (he' : e' ≠ nan) :
    stdMax e e' = e' := by
  rw [stdMax]
  split_ifs with hless
  · rfl
  · cases e with
    | nan => exact absurd rfl he
    | negInf => cases e' with
      | negInf => rfl
      | nan => exact absurd rfl he'
      | _ => exact absurd rfl hless
    | posInf => cases e' with
      | posInf => rfl
      | nan => exact absurd rfl he'
      | _ => cases hlt
    | finite w => cases e' with
      | nan => exact absurd rfl he'
      | negInf => cases hlt
      | posInf => exact absurd rfl hless
      | finite w' =>
        have hle : w ≤ w' := not_lt.mp (of_decide_eq_false hlt)
        have hge : w' ≤ w := not_lt.mp fun hww => hless (decide_eq_true hww)
        exact congrArg finite (le_antisymm hle hge)

lemma AtMost.of_stdMax (he' : e' ≠ nan) (h : AtMost (stdMax e e') v) : AtMost e' v := by
  rw [stdMax] at h
  split_ifs at h with hless
  · exact h
  · cases e' with
    | nan => exact absurd rfl he'
    | negInf => exact trivial
    | posInf => cases e with
      | posInf => exact h
      | nan => exact h
      | _ => exact absurd rfl hless
    | finite w' => cases e with
      | negInf => exact absurd rfl hless
      | posInf => exact absurd h id
      | nan => exact absurd h id
      | finite w =>
        have hle : w' ≤ w := not_lt.mp fun hww => hless (decide_eq_true hww)
        exact hle.trans h

lemma AtLeast.of_stdMin (he' : e' ≠ nan) (h : AtLeast (stdMin e e') v) : AtLeast e' v := by
  rw [stdMin] at h
  split_ifs at h with hless
  · exact h
  · cases e' with
    | nan => exact absurd rfl he'
    | posInf => exact trivial
    | negInf => cases e with
      | negInf => exact h
      | nan => exact h
      | _ => exact absurd rfl hless
    | finite w' => cases e with
      | posInf => exact absurd rfl hless
      | negInf => exact absurd h id
      | nan => exact absurd h id
      | finite w =>
        have hle : w ≤ w' := not_lt.mp fun hww => hless (decide_eq_true hww)
        exact le_trans (show v ≤ w from h) hle

lemma stdMin_atMost (h : AtMost e v) (h' : AtLeast e' v) : AtMost (stdMin e e') v := by
  rw [stdMin, lt_eq_false h.below h'.above]
  exact h

section Field

variable [Field K] [IsStrictOrderedRing K]

lemma AtMost.sub_finite (h : AtMost e v) (ha : 0 ≤ a) : AtMost (sub e (finite a)) v := by
  cases e with
  | negInf => exact trivial
  | finite w => exact (sub_le_self w ha).trans h
  | posInf | nan => exact h

lemma AtLeast.add_finite (h : AtLeast e v) (ha : 0 ≤ a) : AtLeast (add e (finite a)) v := by
  cases e with
  | posInf => exact trivial
  | finite w => exact le_trans h (le_add_of_nonneg_right ha)
  | negInf | nan => exact h

lemma AtLeast.neg (h : AtLeast e v) : AtMost (neg e) (-v) := by
  cases e with
  | posInf => exact trivial
  | finite x => exact neg_le_neg h
  | negInf | nan => exact h

lemma AtMost.neg (h : AtMost e v) : AtLeast (neg e) (-v) := by
  cases e with
  | negInf => exact trivial
  | finite x => exact neg_le_neg h
  | posInf | nan => exact h

lemma Above.neg (h : Above e v) : Below (neg e) (-v) := by
  rcases h with rfl | h
  · exact below_nan _
  · exact h.neg.below

/-- Division of an estimate of `a * v`; for `a = 0` the quotient is no bound on `v`. -/
lemma Above.div (ha : 0 ≤ a) (h : Above e (a * v)) : Above (div e a) v := by
  cases e with
  | nan => exact above_nan _
  | negInf => exact absurd h not_above_negInf
  | posInf =>
    rw [Extended.div, if_neg ha.not_gt]
    exact .inr trivial
  | finite x =>
    rw [above_finite] at h
    rw [Extended.div]
    split_ifs with hne hpos hneg
    · have hlt := lt_of_le_of_ne ha (Ne.symm hne)
      exact above_finite.mpr ((le_div_iff₀' hlt).mpr h)
    · exact .inr trivial
    · rw [not_not.mp hne, zero_mul] at h
      exact absurd hneg h.not_gt
    · exact above_nan _

lemma Below.div (ha : 0 ≤ a) (h : Below e (a * v)) : Below (div e a) v := by
  cases e with
  | nan => exact below_nan _
  | posInf => exact absurd h not_below_posInf
  | negInf =>
    rw [Extended.div, if_neg ha.not_gt]
    exact .inr trivial
  | finite x =>
    rw [below_finite] at h
    rw [Extended.div]
    split_ifs with hne hpos hneg
    · have hlt := lt_of_le_of_ne ha (Ne.symm hne)
      exact below_finite.mpr ((div_le_iff₀' hlt).mpr h)
    · rw [not_not.mp hne, zero_mul] at h
      exact absurd hpos h.not_gt
    · exact .inr trivial
    · exact below_nan _

lemma Below.div_neg (ha : a < 0) (h : Below e (a * v)) : Above (Extended.div e a) v := by
  cases e with
  | nan => exact above_nan _
  | posInf => exact absurd h not_below_posInf
  | negInf =>
    rw [Extended.div, if_pos ha]
    exact .inr trivial
  | finite x =>
    rw [below_finite] at h
    rw [Extended.div, if_pos ha.ne]
    exact above_finite.mpr ((le_div_iff_of_neg' ha).mpr h)

lemma Above.div_neg (ha : a < 0) (h : Above e (a * v)) : Below (Extended.div e a) v := by
  cases e with
  | nan => exact below_nan _
  | negInf => exact absurd h not_above_negInf
  | posInf =>
    rw [Extended.div, if_pos ha]
    exact .inr trivial
  | finite x =>
    rw [above_finite] at h
    rw [Extended.div, if_pos ha.ne]
    exact below_finite.mpr ((div_le_iff_of_neg' ha).mpr h)

end Field

lemma AtMost.mapFinite {f : K → K} (h : AtMost e v) (hf : ∀ x ≤ v, f x ≤ v) :
    AtMost (mapFinite f e) v := by
  cases e with
  | finite x => exact hf x h
  | negInf => exact trivial
  | posInf | nan => exact h

lemma AtLeast.mapFinite {f : K → K} (h : AtLeast e v) (hf : ∀ x, v ≤ x → v ≤ f x) :
    AtLeast (mapFinite f e) v := by
  cases e with
  | finite x => exact hf x h
  | posInf => exact trivial
  | negInf | nan => exact h

end Activities.Extended
