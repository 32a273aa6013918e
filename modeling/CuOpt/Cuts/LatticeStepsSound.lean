import CuOpt.Cuts.LatticeArithmetic

/-! The step that a row gives is the one of the exact rationals when the first product that leaves the 64
bits is caught by the test that comes right after it. -/

namespace CuOpt.Cuts

open WrappingInt RationalGcd Rational128 List

namespace StepCall

section Row

variable (c : StepCall)

/-- The entry of the variable itself, and those of unknown variables, are not in the sum. -/
def skips (e : ℕ × Rational128) : Bool := decide (e.1 = c.solveFor) || (c.steps e.1).isZero

def term (e : ℕ × Rational128) : Rational128 := (mul e.2 (c.steps e.1)).abs

def sumFrom : List (ℕ × Rational128) → Rational128 → Rational128
  | [], s => s
  | e :: row, s => if c.skips e then sumFrom row s else sumFrom row (gcd s (c.term e))

def coefFrom (row : List (ℕ × Rational128)) (a : Rational128) : Rational128 :=
  row.foldl (fun a e => if e.1 = c.solveFor then e.2 else a) a

def knownSum : Rational128 := c.sumFrom c.row zero

def unknownCoef : Rational128 := c.coefFrom c.row zero

/-- No product leaves the 64 bits when the term of `e` joins the sum `s`. -/
def EntryFits (s : Rational128) (e : ℕ × Rational128) : Prop :=
  MulFits e.2 (c.steps e.1) ∧ AbsFits (mul e.2 (c.steps e.1)) ∧ GcdFits s (c.term e)

instance (s : Rational128) (e : ℕ × Rational128) : Decidable (c.EntryFits s e) :=
  inferInstanceAs (Decidable (_ ∧ _ ∧ _))

def SumFits : List (ℕ × Rational128) → Rational128 → Prop
  | [], _ => True
  | e :: row, s =>
    if c.skips e then SumFits row s else c.EntryFits s e ∧ SumFits row (gcd s (c.term e))

instance SumFits.decidable : (row : List (ℕ × Rational128)) → (s : Rational128) →
    Decidable (c.SumFits row s)
  | [], _ => isTrue trivial
  | e :: row, s =>
    have := SumFits.decidable row s
    have := SumFits.decidable row (gcd s (c.term e))
    inferInstanceAs (Decidable (if c.skips e then c.SumFits row s else _ ∧ _))

/-- The sum `s` is exact so far. Where the next entry does not fit, the denominator that is tested right
after it is not positive. -/
def SumCaught : List (ℕ × Rational128) → Rational128 → Prop
  | [], _ => True
  | e :: row, s =>
    if c.skips e then SumCaught row s
    else (c.EntryFits s e → SumCaught row (gcd s (c.term e))) ∧
      (¬c.EntryFits s e → (gcd s (c.term e)).q ≤ 0)

instance SumCaught.decidable : (row : List (ℕ × Rational128)) → (s : Rational128) →
    Decidable (c.SumCaught row s)
  | [], _ => isTrue trivial
  | e :: row, s =>
    have := SumCaught.decidable row s
    have := SumCaught.decidable row (gcd s (c.term e))
    inferInstanceAs (Decidable (if c.skips e then c.SumCaught row s else (_ → _) ∧ (_ → _)))

def quotient : Rational128 := div c.knownSum c.unknownCoef.abs

def QuotientFits : Prop := AbsFits c.unknownCoef ∧ MulFits c.knownSum (inverse c.unknownCoef.abs)

instance : Decidable c.QuotientFits := inferInstanceAs (Decidable (_ ∧ _))

/-- In unbounded integers the row and the steps need no product outside the 64 bits. -/
def Fits : Prop := c.SumFits c.row zero ∧ (c.unknownCoef.isZero = false → c.QuotientFits)

/-- The first product outside the 64 bits, if there is one, is caught at once. -/
def Caught : Prop :=
  c.SumCaught c.row zero ∧
    (c.SumFits c.row zero → c.unknownCoef.isZero = false → ¬c.QuotientFits →
      c.quotient.q ≤ 0 ∨ c.quotient.isZero = true)

instance : Decidable c.Caught := inferInstanceAs (Decidable (_ ∧ (_ → _ = _ → _ → _ ∨ _)))

structure ValidInputs : Prop where
  coefs : ∀ e ∈ c.row, Valid e.2
  steps : ∀ j, Valid (c.steps j)

def exactSum : ℚ :=
  (c.row.filter fun e => !c.skips e).foldl (fun s e => qgcd s (value e.2 * value (c.steps e.1))) 0

/-- The greatest common divisor of the known terms, divided by the coefficient of the variable. -/
def exactStep : ℚ := c.exactSum / |value c.unknownCoef|

end Row

variable {c : StepCall}

lemma accumulate_none (row : List (ℕ × Rational128)) : row.foldl c.accumulate none = none := by
  induction row with
  | nil => rfl
  | cons e row ih => exact ih

lemma accumulate_some (a s : Rational128) (e : ℕ × Rational128) :
    c.accumulate (some (a, s)) e =
      if c.skips e then some (if e.1 = c.solveFor then e.2 else a, s)
      else if 0 < (gcd s (c.term e)).q then some (if e.1 = c.solveFor then e.2 else a, gcd s (c.term e))
      else none := by
  rw [accumulate, skips]
  dsimp only
  by_cases hself : e.1 = c.solveFor
  · rw [if_pos hself, if_pos hself, decide_eq_true hself, Bool.true_or, if_pos rfl]
  · rw [if_neg hself, if_neg hself, decide_eq_false hself, Bool.false_or]
    by_cases hzero : (c.steps e.1).isZero = true
    · rw [if_pos hzero, if_pos hzero]
    · rw [if_neg hzero, if_neg hzero, term]
      by_cases hpos : 0 < (gcd s (mul e.2 (c.steps e.1)).abs).q
      · rw [if_pos hpos, if_neg (not_le.mpr hpos)]
      · rw [if_neg hpos, if_pos (not_lt.mp hpos)]

/-- The loop returns the sum of entries that fit, or nothing. -/
lemma foldl_accumulate {row : List (ℕ × Rational128)} {a s : Rational128} (h : c.SumCaught row s) :
    row.foldl c.accumulate (some (a, s)) = none ∨ (c.SumFits row s ∧
      row.foldl c.accumulate (some (a, s)) = some (c.coefFrom row a, c.sumFrom row s)) := by
  induction row generalizing a s with
  | nil => exact .inr ⟨trivial, rfl⟩
  | cons e row ih =>
    rw [SumCaught] at h
    rw [foldl_cons, accumulate_some, SumFits, sumFrom, coefFrom, foldl_cons, ← coefFrom]
    cases hskip : c.skips e with
    | true =>
      rw [hskip, if_pos rfl] at h
      exact ih h
    | false =>
      rw [hskip, if_neg Bool.false_ne_true] at h
      rw [if_neg Bool.false_ne_true, if_neg Bool.false_ne_true, if_neg Bool.false_ne_true]
      by_cases hpos : 0 < (gcd s (c.term e)).q
      · have hfits : c.EntryFits s e := by
          by_contra hfits
          exact absurd hpos (not_lt.mpr (h.2 hfits))
        rw [if_pos hpos, and_iff_right hfits]
        exact ih (h.1 hfits)
      · rw [if_neg hpos, accumulate_none]
        exact .inl rfl

/-- A row that gives a step fits, and the step is its quotient. -/
lemma fits_of_gives (hc : c.Caught) (h : c.gives = true) :
    c.Fits ∧ c.unknownCoef.isZero = false ∧ c.computeStep = c.quotient := by
  rw [gives, Bool.and_eq_true, Bool.not_eq_true', decide_eq_true_eq] at h
  have hzero : ¬(zero.isZero = false ∧ 0 < zero.q) := fun h => Bool.false_ne_true h.1.symm
  rcases foldl_accumulate (a := zero) hc.1 with hnone | ⟨hfits, hsome⟩
  · have hstep : c.computeStep = zero := by rw [computeStep, hnone]
    exact absurd (hstep ▸ h) hzero
  · rw [← knownSum, ← unknownCoef] at hsome
    cases hcoef : c.unknownCoef.isZero with
    | true =>
      have hstep : c.computeStep = zero := by
        rw [computeStep, hsome]
        exact if_pos hcoef
      exact absurd (hstep ▸ h) hzero
    | false =>
      have hstep : c.computeStep = if c.quotient.q ≤ 0 then zero else c.quotient := by
        rw [computeStep, hsome]
        dsimp only
        rw [if_neg (by rw [hcoef]; exact Bool.false_ne_true)]
        rfl
      by_cases hq : c.quotient.q ≤ 0
      · rw [hstep, if_pos hq] at h
        exact absurd h hzero
      · rw [if_neg hq] at hstep
        rw [hstep] at h
        refine ⟨⟨hfits, fun _ => ?_⟩, rfl, hstep⟩
        by_contra hquotient
        rcases hc.2 hfits hcoef hquotient with hneg | hp
        · exact hq hneg
        · exact Bool.false_ne_true (h.1.symm.trans hp)

lemma computeStep_inRange (c : StepCall) : InRange c.computeStep.p ∧ InRange c.computeStep.q := by
  have hzero : InRange zero.p ∧ InRange zero.q := ⟨valid_zero.numRange, valid_zero.denRange⟩
  rw [computeStep]
  split
  case h_1 => exact hzero
  case h_2 =>
    dsimp only [div]
    split_ifs <;> first | exact hzero | exact ⟨inRange_wrap _, inRange_wrap _⟩

lemma valid_computeStep (h : c.gives = true) : Valid c.computeStep ∧ c.computeStep.p ≠ 0 := by
  rw [gives, Bool.and_eq_true, Bool.not_eq_true', decide_eq_true_eq] at h
  obtain ⟨hp, hq⟩ := computeStep_inRange c
  exact ⟨⟨h.2, hp, hq⟩, isZero_eq_false_iff.mp h.1⟩

lemma valid_coefFrom {row : List (ℕ × Rational128)} (hrow : ∀ e ∈ row, Valid e.2) {a : Rational128}
    (ha : Valid a) : Valid (c.coefFrom row a) := by
  induction row generalizing a with
  | nil => exact ha
  | cons e row ih =>
    obtain ⟨he, hrow⟩ := forall_mem_cons.mp hrow
    rw [coefFrom, foldl_cons]
    apply ih hrow
    split_ifs
    · exact he
    · exact ha

lemma sumFrom_exact (hc : c.ValidInputs) {row : List (ℕ × Rational128)} (hrow : ∀ e ∈ row, Valid e.2)
    {s : Rational128} (hs : Valid s) (hfits : c.SumFits row s) :
    Valid (c.sumFrom row s) ∧ value (c.sumFrom row s) =
      (row.filter fun e => !c.skips e).foldl (fun s e => qgcd s (value e.2 * value (c.steps e.1)))
        (value s) := by
  induction row generalizing s with
  | nil => exact ⟨hs, rfl⟩
  | cons e row ih =>
    obtain ⟨he, hrow⟩ := forall_mem_cons.mp hrow
    rw [SumFits] at hfits
    rw [sumFrom]
    cases hskip : c.skips e with
    | true =>
      rw [hskip, if_pos rfl] at hfits
      rw [if_pos rfl, filter_cons_of_neg (by rw [hskip]; exact Bool.false_ne_true)]
      exact ih hrow hs hfits
    | false =>
      rw [hskip, if_neg Bool.false_ne_true] at hfits
      obtain ⟨⟨hmul, habs, hgcd⟩, hrest⟩ := hfits
      obtain ⟨hvm, hem⟩ := he.mul (hc.steps e.1) hmul
      obtain ⟨hvt, het⟩ := hvm.abs habs
      obtain ⟨hvg, heg⟩ := hs.gcd hvt hgcd
      rw [if_neg Bool.false_ne_true, filter_cons_of_pos (by rw [hskip]; rfl), foldl_cons]
      have hterm : value (gcd s (c.term e)) = qgcd (value s) (value e.2 * value (c.steps e.1)) := by
        rw [term, heg, het, ← qgcd_abs, abs_abs, qgcd_abs, hem]
      rw [← hterm]
      exact ih hrow hvg hrest

lemma computeStep_exact (hc : c.ValidInputs) (hcaught : c.Caught) (h : c.gives = true) :
    value c.computeStep = c.exactStep := by
  obtain ⟨hfits, hcoef, hstep⟩ := fits_of_gives hcaught h
  obtain ⟨habs, hmul⟩ := hfits.2 hcoef
  have hsum := sumFrom_exact hc hc.coefs valid_zero hfits.1
  rw [value_zero] at hsum
  obtain ⟨hvs, hes⟩ : Valid c.knownSum ∧ value c.knownSum = c.exactSum := hsum
  have hcoefValid : Valid c.unknownCoef := valid_coefFrom hc.coefs valid_zero
  obtain ⟨hva, hea⟩ := hcoefValid.abs habs
  have hpos : 0 < c.unknownCoef.abs.p := by
    have hwrap : c.unknownCoef.abs.p = |c.unknownCoef.p| := wrap_eq_self habs
    rw [hwrap]
    exact abs_pos.mpr (isZero_eq_false_iff.mp hcoef)
  rw [hstep, quotient, (hvs.div hva hpos hmul).2, hes, hea, exactStep]

end StepCall

def combineCalls : List StepCall → Option Rational128 → List StepCall
  | [], _ => []
  | c :: calls, combined =>
    c :: (if !c.gives then combineCalls calls combined
      else
        match combined with
        | none => combineCalls calls (some c.computeStep)
        | some s =>
          if negligible (gcd s c.computeStep) then []
          else combineCalls calls (some (gcd s c.computeStep)))

def CombineFits : List StepCall → Option Rational128 → Prop
  | [], _ => True
  | c :: calls, combined =>
    if !c.gives then CombineFits calls combined
    else
      match combined with
      | none => CombineFits calls (some c.computeStep)
      | some s => GcdFits s c.computeStep ∧ CombineFits calls (some (gcd s c.computeStep))

/-- The first common divisor that does not fit, if there is one, is found negative or negligible. -/
def CombineCaught : List StepCall → Option Rational128 → Prop
  | [], _ => True
  | c :: calls, combined =>
    if !c.gives then CombineCaught calls combined
    else
      match combined with
      | none => CombineCaught calls (some c.computeStep)
      | some s =>
        (GcdFits s c.computeStep → CombineCaught calls (some (gcd s c.computeStep))) ∧
          (¬GcdFits s c.computeStep → negligible (gcd s c.computeStep) = true)

instance CombineCaught.decidable : (calls : List StepCall) → (combined : Option Rational128) →
    Decidable (CombineCaught calls combined)
  | [], _ => isTrue trivial
  | c :: calls, combined => by
    have := CombineCaught.decidable calls
    unfold CombineCaught
    cases combined <;> infer_instance

def exactCombine : List StepCall → Option ℚ → Option ℚ
  | [], combined => combined
  | c :: calls, combined =>
    if !c.gives then exactCombine calls combined
    else
      match combined with
      | none => exactCombine calls (some c.exactStep)
      | some s => exactCombine calls (some (qgcd s c.exactStep))

section Inequalities

/-- The common divisor of steps is the exact one, and needs no product outside the 64 bits. -/
lemma combineSteps_exact {calls : List StepCall} {combined : Option Rational128}
    (hvalid : ∀ c ∈ calls, c.ValidInputs) (hcaught : ∀ c ∈ combineCalls calls combined, c.Caught)
    (hcombined : ∀ s ∈ combined, Valid s) (hgcd : CombineCaught calls combined) {r : Rational128}
    (hr : combineSteps calls combined = some r) :
    CombineFits calls combined ∧ Valid r ∧
      exactCombine calls (combined.map value) = some (value r) := by
  induction calls generalizing combined with
  | nil =>
    rw [combineSteps] at hr
    rw [hr]
    exact ⟨trivial, hcombined r hr, rfl⟩
  | cons c calls ih =>
    obtain ⟨hc, hvalid⟩ := forall_mem_cons.mp hvalid
    rw [combineCalls.eq_def] at hcaught
    rw [combineSteps.eq_def] at hr
    rw [CombineCaught.eq_def] at hgcd
    rw [CombineFits.eq_def, exactCombine.eq_def]
    dsimp only at hcaught hr hgcd ⊢
    obtain ⟨hcc, hcaught⟩ := forall_mem_cons.mp hcaught
    cases hgives : c.gives with
    | false =>
      rw [hgives] at hr hcaught hgcd
      exact ih hvalid hcaught hcombined hgcd hr
    | true =>
      have hexact := StepCall.computeStep_exact hc hcc hgives
      have hstep := (StepCall.valid_computeStep hgives).1
      rw [hgives, Bool.not_true, if_neg Bool.false_ne_true] at hr hcaught hgcd
      rw [Bool.not_true, if_neg Bool.false_ne_true, if_neg Bool.false_ne_true]
      cases combined with
      | none =>
        dsimp only at hr hcaught hgcd
        have hnext := ih hvalid hcaught (fun s hs => Option.some.inj hs ▸ hstep) hgcd hr
        rw [Option.map_some, hexact] at hnext
        exact hnext
      | some s =>
        dsimp only at hr hcaught hgcd ⊢
        cases hsmall : negligible (gcd s c.computeStep) with
        | true =>
          rw [hsmall, if_pos rfl] at hr
          cases hr
        | false =>
          have hfits : GcdFits s c.computeStep := by
            by_contra hfits
            exact Bool.false_ne_true (hsmall.symm.trans (hgcd.2 hfits))
          rw [hsmall, if_neg Bool.false_ne_true] at hr hcaught
          obtain ⟨hvg, heg⟩ := (hcombined s rfl).gcd hstep hfits
          have hnext := ih hvalid hcaught (fun t ht => Option.some.inj ht ▸ hvg) (hgcd.1 hfits) hr
          rw [Option.map_some, heg, hexact] at hnext
          exact ⟨⟨hfits, hnext.1⟩, hnext.2⟩

end Inequalities

end CuOpt.Cuts
