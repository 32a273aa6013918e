import CuOpt.Library.WrappingInt

/-! The rational approximation of a coefficient by its continued fraction, in 64-bit integers. -/

namespace CuOpt.Cuts

open WrappingInt
open Int (fract)

def int64Max : ℤ := 2 ^ 63 - 1

def approximationTolerance : ℚ := 1 / 10 ^ 14

/-- The convergents of `val`, the last two at hand; `some none` when a partial quotient does not fit, and
`none` when the passes do not suffice. -/
def approximateLoop (maxDenominator : ℤ) : ℕ → ℤ → ℤ → ℤ → ℤ → ℚ → Option (Option (ℤ × ℤ))
  | 0, _, _, _, _, _ => none
  | passes + 1, p0, q0, p1, q1, val =>
    let a := ⌊val⌋
    if a < 0 ∨ int64Max < a then some none
    else
      let p2 := wrap (a * p1 + p0)
      let q2 := wrap (a * q1 + q0)
      if maxDenominator < q2 then some (some (p1, q1))
      else
        let rem := val - a
        if rem < approximationTolerance then some (some (p2, q2))
        else approximateLoop maxDenominator passes p1 q1 p2 q2 (1 / rem)

/-- The numerator and the denominator, which are not set on an overflow, and whether they are close
enough. -/
def rationalApproximation (x : ℚ) (maxDenominator : ℤ) : Option (ℤ × ℤ) × Bool :=
  match approximateLoop maxDenominator |x|.den 0 1 1 0 |x| with
  | none | some none => (none, false)
  | some (some (p1, q1)) =>
    let numerator := if x < 0 then wrap (-p1) else p1
    (some (numerator, q1),
      decide (q1 ≠ 0) && decide (|(numerator : ℚ) / q1 - x| ≤ approximationTolerance))

section Passes

lemma den_one_div_fract_lt {val : ℚ} (h : 0 < fract val) : (1 / fract val).den < val.den := by
  have hnum : (fract val).num ≠ 0 := (Rat.num_pos.mpr h).ne'
  have hlt : (fract val).num < (fract val).den := Rat.num_lt_denom_iff.mpr (Int.fract_lt_one val)
  rw [one_div, Rat.den_inv, if_neg hnum]
  rw [Rat.den_intFract] at hlt
  have hpos := Rat.num_pos.mpr h
  omega

lemma isSome_approximateLoop (maxDenominator : ℤ) {passes : ℕ} (p0 q0 p1 q1 : ℤ) {val : ℚ}
    (h : val.den ≤ passes) : (approximateLoop maxDenominator passes p0 q0 p1 q1 val).isSome = true := by
  induction passes generalizing p0 q0 p1 q1 val with
  | zero => exact absurd val.pos (by omega)
  | succ passes ih =>
    rw [approximateLoop]
    dsimp only
    split_ifs with hover hlarge hrem
    · rfl
    · rfl
    · rfl
    · have hpos : 0 < fract val :=
        (show 0 < approximationTolerance by decide +kernel).trans_le (not_lt.mp hrem)
      have hlt := den_one_div_fract_lt hpos
      rw [fract] at hlt
      exact ih p1 q1 _ _ (by omega)

/-- The loop exits within as many passes as the denominator says. -/
theorem approximateLoop_ends (maxDenominator : ℤ) (x : ℚ) :
    (approximateLoop maxDenominator |x|.den 0 1 1 0 |x|).isSome = true :=
  isSome_approximateLoop maxDenominator 0 1 1 0 le_rfl

end Passes

section Convergents

/-- Two successive convergents of `x`, and the rest `val` of the fraction. -/
structure Convergents (x val : ℚ) (P0 Q0 P1 Q1 : ℤ) : Prop where
  det : P1 * Q0 - P0 * Q1 = 1 ∨ P1 * Q0 - P0 * Q1 = -1
  value : x * (val * Q1 + Q0) = val * P1 + P0

variable {x val : ℚ} {P0 Q0 P1 Q1 : ℤ}

lemma Convergents.start (x : ℚ) : Convergents x x 0 1 1 0 := by
  constructor
  case det => exact .inl rfl
  case value =>
    push_cast
    ring

section

variable (h : Convergents x val P0 Q0 P1 Q1)
include h

lemma Convergents.next (a : ℤ) (hne : val - a ≠ 0) :
    Convergents x (1 / (val - a)) P1 Q1 (a * P1 + P0) (a * Q1 + Q0) := by
  constructor
  case det =>
    rcases h.det with hdet | hdet
    · refine .inr ?_
      linear_combination -hdet
    · refine .inl ?_
      linear_combination -hdet
  case value =>
    apply mul_left_cancel₀ hne
    have hvalue := h.value
    push_cast
    field_simp
    linear_combination hvalue

lemma Convergents.near (hq : 1 ≤ val * Q1 + Q0) :
    |(P1 : ℚ) - x * Q1| ≤ 1 := by
  have hdet : |(P1 * Q0 - P0 * Q1 : ℚ)| = 1 := by
    rcases h.det with hdet | hdet
    · have hcast : (P1 * Q0 - P0 * Q1 : ℚ) = 1 := by exact_mod_cast hdet
      rw [hcast, abs_one]
    · have hcast : (P1 * Q0 - P0 * Q1 : ℚ) = -1 := by exact_mod_cast hdet
      rw [hcast, abs_neg, abs_one]
  have hprod : ((P1 : ℚ) - x * Q1) * (val * Q1 + Q0) = P1 * Q0 - P0 * Q1 := by
    linear_combination -(Q1 : ℚ) * h.value
  have hpos : 0 < val * (Q1 : ℚ) + Q0 := zero_lt_one.trans_le hq
  have habs : |(P1 : ℚ) - x * Q1| * (val * Q1 + Q0) = 1 := by
    have hmul := congrArg abs hprod
    rwa [abs_mul, abs_of_pos hpos, hdet] at hmul
  calc |(P1 : ℚ) - x * Q1| ≤ |(P1 : ℚ) - x * Q1| * (val * Q1 + Q0) :=
        le_mul_of_one_le_right (abs_nonneg _) hq
    _ = 1 := habs

lemma Convergents.isCoprime : IsCoprime P1 Q1 := by
  rcases h.det with hdet | hdet
  · exact ⟨Q0, -P0, by linear_combination hdet⟩
  · exact ⟨-Q0, P0, by linear_combination -hdet⟩

lemma Convergents.next_spec (hQ1 : 0 ≤ Q1) (hQ2 : 1 ≤ ⌊val⌋ * Q1 + Q0) :
    IsCoprime (⌊val⌋ * P1 + P0) (⌊val⌋ * Q1 + Q0) ∧
      |((⌊val⌋ * P1 + P0 : ℤ) : ℚ) - x * (⌊val⌋ * Q1 + Q0 : ℤ)| ≤ 1 := by
  constructor
  · rcases h.det with hdet | hdet
    · exact ⟨-Q1, P1, by linear_combination hdet⟩
    · exact ⟨Q1, -P1, by linear_combination -hdet⟩
  · rcases eq_or_ne (val - ⌊val⌋) 0 with hzero | hne
    · have hval : val = ⌊val⌋ := sub_eq_zero.mp hzero
      have hexact : ((⌊val⌋ * P1 + P0 : ℤ) : ℚ) - x * (⌊val⌋ * Q1 + Q0 : ℤ) = 0 := by
        have hvalue := h.value
        generalize ⌊val⌋ = a at hval
        subst hval
        push_cast
        linear_combination -hvalue
      rw [hexact, abs_zero]
      exact zero_le_one
    · have hnext := h.next ⌊val⌋ hne
      apply hnext.near
      have hpos : 0 < val - ⌊val⌋ := (Int.fract_nonneg val).lt_of_ne' hne
      have hone : 1 ≤ 1 / (val - ⌊val⌋) := (one_le_div hpos).mpr (Int.fract_lt_one val).le
      have hQ2' : (1 : ℚ) ≤ (⌊val⌋ * Q1 + Q0 : ℤ) := by exact_mod_cast hQ2
      have hQ1' : (0 : ℚ) ≤ Q1 := by exact_mod_cast hQ1
      calc (1 : ℚ) ≤ (⌊val⌋ * Q1 + Q0 : ℤ) := hQ2'
        _ ≤ 1 / (val - ⌊val⌋) * (⌊val⌋ * Q1 + Q0 : ℤ) :=
          le_mul_of_one_le_left (zero_le_one.trans hQ2') hone
        _ ≤ 1 / (val - ⌊val⌋) * (⌊val⌋ * Q1 + Q0 : ℤ) + Q1 := le_add_of_nonneg_right hQ1'

end

end Convergents

section Returned

/-- The denominators of the last two convergents: before the first pass, and after it. -/
def Denominators (maxDenominator : ℤ) (val : ℚ) (Q0 Q1 : ℤ) : Prop :=
  (Q1 = 0 ∧ Q0 = 1 ∧ 0 ≤ val) ∨
    (1 ≤ Q1 ∧ Q1 ≤ maxDenominator ∧ 0 ≤ Q0 ∧ Q0 ≤ maxDenominator ∧ 1 ≤ val ∧ val ≤ 10 ^ 14)

variable {maxDenominator : ℤ} {val : ℚ} {Q0 Q1 : ℤ}

lemma Denominators.wrap_eq (h : Denominators maxDenominator val Q0 Q1)
    (hmax : maxDenominator ≤ 10 ^ 4) : wrap (⌊val⌋ * Q1 + Q0) = ⌊val⌋ * Q1 + Q0 ∧
      1 ≤ ⌊val⌋ * Q1 + Q0 := by
  rcases h with ⟨rfl, rfl, -⟩ | ⟨hQ1, hQ1', hQ0, hQ0', hval, hval'⟩
  · rw [mul_zero, zero_add]
    exact ⟨by decide, le_rfl⟩
  · have hfloor : 1 ≤ ⌊val⌋ := Int.le_floor.mpr (by exact_mod_cast hval)
    have hfloor' : ⌊val⌋ ≤ 10 ^ 14 := by
      have hle : (⌊val⌋ : ℚ) ≤ (10 ^ 14 : ℤ) := by
        push_cast
        exact (Int.floor_le val).trans hval'
      exact_mod_cast hle
    have hprod : ⌊val⌋ * Q1 ≤ 10 ^ 14 * 10 ^ 4 :=
      mul_le_mul hfloor' (hQ1'.trans hmax) (by omega) (by norm_num)
    have hprod' : 1 * 1 ≤ ⌊val⌋ * Q1 := mul_le_mul hfloor hQ1 zero_le_one (by omega)
    refine ⟨wrap_eq_self ⟨?_, ?_⟩, by omega⟩
    · norm_num
      omega
    · norm_num at hprod hmax ⊢
      omega

lemma approximateLoop_spec {x : ℚ} (hmax : 1 ≤ maxDenominator) (hmax' : maxDenominator ≤ 10 ^ 4)
    {passes : ℕ} {P0 P1 : ℤ} (hc : Convergents x val P0 Q0 P1 Q1)
    (hq : Denominators maxDenominator val Q0 Q1) {p q : ℤ}
    (h : approximateLoop maxDenominator passes (wrap P0) Q0 (wrap P1) Q1 val = some (some (p, q))) :
    ∃ P, p = wrap P ∧ IsCoprime P q ∧ 1 ≤ q ∧ q ≤ maxDenominator ∧ |(P : ℚ) - x * q| ≤ 1 := by
  induction passes generalizing P0 Q0 P1 Q1 val with
  | zero =>
    rw [approximateLoop] at h
    cases h
  | succ passes ih =>
    obtain ⟨hwrap, hQ2⟩ := hq.wrap_eq hmax'
    have hQ1 : 0 ≤ Q1 := by
      rcases hq with ⟨rfl, -, -⟩ | ⟨hQ1, -⟩
      · exact le_rfl
      · omega
    rw [approximateLoop] at h
    dsimp only at h
    rw [wrap_mul_add_wrap, hwrap] at h
    split_ifs at h with hover hlarge hrem
    · cases Option.some.inj h
    · -- the next denominator is too large
      obtain ⟨rfl, rfl⟩ := Prod.mk.inj (Option.some.inj (Option.some.inj h))
      rcases hq with ⟨rfl, rfl, -⟩ | ⟨hone, hle, hQ0, -, hval, -⟩
      · rw [mul_zero, zero_add] at hlarge
        exact absurd hlarge (not_lt.mpr hmax)
      · refine ⟨P1, rfl, hc.isCoprime, hone, hle, hc.near ?_⟩
        have hone' : (1 : ℚ) ≤ Q1 := by exact_mod_cast hone
        have hQ0' : (0 : ℚ) ≤ Q0 := by exact_mod_cast hQ0
        calc (1 : ℚ) ≤ val * Q1 := one_le_mul_of_one_le_of_one_le hval hone'
          _ ≤ val * Q1 + Q0 := le_add_of_nonneg_right hQ0'
    · -- the fraction ends
      obtain ⟨rfl, rfl⟩ := Prod.mk.inj (Option.some.inj (Option.some.inj h))
      obtain ⟨hcoprime, hnear⟩ := hc.next_spec hQ1 hQ2
      exact ⟨_, rfl, hcoprime, hQ2, not_lt.mp hlarge, hnear⟩
    · have htol : 0 < approximationTolerance := by decide +kernel
      have hpos : 0 < val - ⌊val⌋ := htol.trans_le (not_lt.mp hrem)
      refine ih (hc.next ⌊val⌋ hpos.ne') (.inr ⟨hQ2, not_lt.mp hlarge, hQ1, ?_, ?_, ?_⟩) h
      · rcases hq with ⟨rfl, -, -⟩ | ⟨-, hle, -⟩
        · omega
        · exact hle
      · exact (one_le_div hpos).mpr (Int.fract_lt_one val).le
      · rw [div_le_iff₀ hpos]
        have hten : (10 ^ 14 : ℚ) * approximationTolerance = 1 := by decide +kernel
        rw [← hten]
        exact mul_le_mul_of_nonneg_left (not_lt.mp hrem) (by positivity)

lemma rationalApproximation_spec {x : ℚ} {num den : ℤ} (hmax : 1 ≤ maxDenominator)
    (hmax' : maxDenominator ≤ 10 ^ 4)
    (h : rationalApproximation x maxDenominator = (some (num, den), true)) :
    IsCoprime num den ∧ 1 ≤ den ∧ den ≤ maxDenominator ∧ InRange num := by
  rw [rationalApproximation] at h
  have hloop : ∀ p q, approximateLoop maxDenominator |x|.den 0 1 1 0 |x| = some (some (p, q)) →
      ∃ P, p = wrap P ∧ IsCoprime P q ∧ 1 ≤ q ∧ q ≤ maxDenominator ∧ |(P : ℚ) - |x| * q| ≤ 1 :=
    fun p q hpq => approximateLoop_spec hmax hmax' (Convergents.start |x|) (.inl ⟨rfl, rfl, abs_nonneg x⟩)
      hpq
  generalize approximateLoop maxDenominator |x|.den 0 1 1 0 |x| = result at h hloop
  match result with
  | none | some none => cases h
  | some (some (p, q)) =>
    obtain ⟨P, rfl, hcoprime, hq, hqmax, hnear⟩ := hloop p q rfl
    dsimp only at h
    rw [Prod.mk.injEq, Option.some.injEq, Prod.mk.injEq, Bool.and_eq_true, decide_eq_true_eq,
      decide_eq_true_eq] at h
    obtain ⟨⟨hnum, rfl⟩, -, herr⟩ := h
    -- the numerator before it is wrapped
    obtain ⟨Z, hZ, hZcoprime, hZnear⟩ : ∃ Z : ℤ, num = wrap Z ∧ IsCoprime Z q ∧
        |(Z : ℚ) - x * q| ≤ 1 := by
      by_cases hx : x < 0
      · rw [if_pos hx] at hnum
        refine ⟨-P, ?_, hcoprime.neg_left, ?_⟩
        · have hneg := wrap_mul_add_wrap (-1) P 0
          rw [neg_one_mul, neg_one_mul, add_zero, show wrap 0 = 0 by decide, add_zero] at hneg
          rw [← hnum, hneg]
        · rw [abs_of_neg hx] at hnear
          rw [← abs_neg]
          push_cast
          have heq : -(-(P : ℚ) - x * q) = P - -x * q := by ring
          rw [heq]
          exact hnear
      · rw [if_neg hx] at hnum
        rw [abs_of_nonneg (not_lt.mp hx)] at hnear
        exact ⟨P, hnum.symm, hcoprime, hnear⟩
    rw [hnum] at herr
    have hqpos : (0 : ℚ) < q := by exact_mod_cast zero_lt_one.trans_le hq
    have hclose : |(num : ℚ) - x * q| ≤ 1 := by
      have hscaled : |(num : ℚ) - x * q| = |(num : ℚ) / q - x| * q := by
        rw [← abs_of_pos hqpos, ← abs_mul, abs_of_pos hqpos, sub_mul, div_mul_cancel₀ _ hqpos.ne']
      rw [hscaled]
      have hq4 : (q : ℚ) ≤ 10 ^ 4 := by exact_mod_cast hqmax.trans hmax'
      calc |(num : ℚ) / q - x| * q ≤ approximationTolerance * 10 ^ 4 :=
            mul_le_mul herr hq4 hqpos.le (by decide +kernel)
        _ ≤ 1 := by decide +kernel
    have hsame : num = Z := by
      have hdist : |(num : ℚ) - Z| ≤ 2 := by
        have htri := abs_sub_le (num : ℚ) (x * q) Z
        rw [abs_sub_comm (x * q) (Z : ℚ)] at htri
        linarith
      have hdist' : |num - Z| ≤ 2 := by exact_mod_cast hdist
      rw [hZ] at hdist' ⊢
      apply wrap_eq_of_near
      exact hdist'.trans_lt (by norm_num)
    rw [hsame]
    refine ⟨hZcoprime, hq, hqmax, ?_⟩
    rw [← hsame, hZ]
    exact inRange_wrap Z

end Returned

end CuOpt.Cuts
