import Mathlib

/-! The greatest common divisor of two rationals: the nonnegative rational whose integer multiples are
their integer combinations. -/

namespace RationalGcd

def qgcd (x y : ℚ) : ℚ := (Int.gcd (x.num * y.den) (y.num * x.den) : ℚ) / (x.den * y.den)

/-- The fractions need not be in lowest terms. -/
lemma qgcd_div {a b c e : ℤ} (hb : 0 < b) (he : 0 < e) :
    qgcd (a / b) (c / e) = (Int.gcd (a * e) (c * b) : ℚ) / (b * e) := by
  obtain ⟨k, hak, hbk⟩ := Rat.exists_eq_mul_div_num_and_eq_mul_div_den a hb.ne'
  obtain ⟨m, hcm, hem⟩ := Rat.exists_eq_mul_div_num_and_eq_mul_div_den c he.ne'
  rw [qgcd]
  generalize (a : ℚ) / b = x at hak hbk ⊢
  generalize (c : ℚ) / e = y at hcm hem ⊢
  have hk : k ≠ 0 := by
    rintro rfl
    rw [zero_mul] at hbk
    exact hb.ne' hbk
  have hm : m ≠ 0 := by
    rintro rfl
    rw [zero_mul] at hem
    exact he.ne' hem
  have hleft : a * e = k * m * (x.num * y.den) := by
    rw [hak, hem]
    ring
  have hright : c * b = k * m * (y.num * x.den) := by
    rw [hcm, hbk]
    ring
  have hden : b * e = k * m * (x.den * y.den) := by
    rw [hbk, hem]
    ring
  have hkm : 0 < k * m := by
    have hpos : 0 < k * m * (x.den * y.den) := hden ▸ mul_pos hb he
    by_contra hle
    exact absurd hpos (mul_nonpos_of_nonpos_of_nonneg (not_lt.mp hle) (by positivity)).not_gt
  have hkm' : ((k * m : ℤ) : ℚ) ≠ 0 := Int.cast_ne_zero.mpr hkm.ne'
  have hden' : (b : ℚ) * e = (k * m : ℤ) * (x.den * y.den) := by exact_mod_cast hden
  have hgcd : ((k * m * (x.num * y.den)).gcd (k * m * (y.num * x.den)) : ℚ) =
      (k * m : ℤ) * (x.num * y.den).gcd (y.num * x.den) := by
    rw [Int.gcd_mul_left, Nat.cast_mul, Nat.cast_natAbs, abs_of_pos hkm]
  rw [hleft, hright, hgcd, hden', mul_div_mul_left _ _ hkm']

lemma qgcd_zero_left (y : ℚ) : qgcd 0 y = |y| := by
  rw [qgcd, Rat.num_zero, Rat.den_zero, zero_mul, Int.gcd_zero_left, Nat.cast_one, Nat.cast_one, mul_one,
    one_mul, Nat.cast_natAbs, Int.cast_abs]
  conv_rhs => rw [← Rat.num_div_den y, abs_div, Nat.abs_cast]

lemma qgcd_comm (x y : ℚ) : qgcd x y = qgcd y x := by
  rw [qgcd, qgcd, Int.gcd_comm, mul_comm (y.den : ℚ)]

lemma qgcd_zero_right (x : ℚ) : qgcd x 0 = |x| := by
  rw [qgcd_comm, qgcd_zero_left]

end RationalGcd
