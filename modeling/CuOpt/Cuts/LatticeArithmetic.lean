import CuOpt.Cuts.LatticeSteps
import CuOpt.Library.RationalGcd

/-! Where no product leaves the 64 bits, the operations are those on the rationals. -/

namespace CuOpt.Cuts

open WrappingInt RationalGcd
open Int (cast_zero)

namespace Rational128

structure Valid (a : Rational128) : Prop where
  pos : 0 < a.q
  numRange : InRange a.p
  denRange : InRange a.q

def value (a : Rational128) : ℚ := a.p / a.q

def AbsFits (a : Rational128) : Prop := InRange |a.p|

def MulFits (a o : Rational128) : Prop := InRange (mulNumerator a o) ∧ InRange (mulDenominator a o)

def GcdFits (a b : Rational128) : Prop :=
  AbsFits a ∧ AbsFits b ∧ (a.isZero = false → b.isZero = false →
    InRange (|a.p| * b.q) ∧ InRange (|b.p| * a.q) ∧ InRange (a.q * b.q))

instance (a o : Rational128) : Decidable (MulFits a o) := inferInstanceAs (Decidable (_ ∧ _))

instance (a : Rational128) : Decidable (AbsFits a) := inferInstanceAs (Decidable (InRange _))

instance (a b : Rational128) : Decidable (GcdFits a b) :=
  inferInstanceAs (Decidable (_ ∧ _ ∧ (_ = _ → _ = _ → _ ∧ _ ∧ _)))

variable {a b o : Rational128}

lemma valid_zero : Valid zero := by
  constructor
  case pos => exact Int.one_pos
  case numRange | denRange => decide

lemma value_zero : value zero = 0 := by rw [value, zero, cast_zero, zero_div]

lemma isZero_eq_true_iff : a.isZero = true ↔ a.p = 0 := decide_eq_true_iff

lemma isZero_eq_false_iff : a.isZero = false ↔ a.p ≠ 0 := decide_eq_false_iff_not

lemma cast_tdiv {z g : ℤ} (h : g ∣ z) : ((z.tdiv g : ℤ) : ℚ) = z / g := by
  rw [Int.tdiv_eq_ediv_of_dvd h]
  rcases eq_or_ne g 0 with rfl | hg
  · rw [Int.ediv_zero, cast_zero, div_zero]
  · exact Int.cast_div h (Int.cast_ne_zero.mpr hg)

lemma tdiv_pos {z g : ℤ} (h : g ∣ z) (hg : 0 < g) (hz : 0 < z) : 0 < z.tdiv g := by
  have hcast : (0 : ℚ) < (z.tdiv g : ℤ) := by
    rw [cast_tdiv h]
    exact div_pos (Int.cast_pos.mpr hz) (Int.cast_pos.mpr hg)
  exact Int.cast_pos.mp hcast

lemma gcd64_eq {y z : ℤ} (hz : 0 < z) (hrange : InRange z) : gcd64 y z = Int.gcd y z := by
  apply wrap_eq_self
  have hle := Int.le_of_dvd hz (Int.gcd_dvd_right y z)
  exact ⟨(by norm_num : (-2 ^ 63 : ℤ) ≤ 0).trans (Int.natCast_nonneg _), hle.trans_lt hrange.2⟩

lemma gcd64_abs64 {y z : ℤ} (hy : InRange y) (hz : 0 < z) (hrange : InRange z) :
    gcd64 (abs64 y) z = Int.gcd y z := by
  have habs : (abs64 y).natAbs = y.natAbs := by
    rw [abs64, Int.abs_eq_natAbs]
    exact natAbs_wrap (natAbs_le_of_inRange hy)
  rw [gcd64_eq hz hrange, Int.gcd_eq_natAbs_gcd_natAbs, habs, ← Int.gcd_eq_natAbs_gcd_natAbs]

lemma inRange_tdiv {z : ℤ} {g : ℕ} (hz : InRange z) : InRange (z.tdiv g) := by
  have hle : (z.tdiv g).natAbs ≤ z.natAbs := by
    rw [Int.natAbs_tdiv]
    exact Nat.div_le_self _ _
  have hsign : 0 ≤ z → 0 ≤ z.tdiv g := fun h => Int.tdiv_nonneg h (Int.natCast_nonneg g)
  obtain ⟨hlo, hhi⟩ := hz
  constructor
  · norm_num at hlo ⊢
    omega
  · norm_num at hhi hlo ⊢
    have hneg : z ≤ 0 → z.tdiv g ≤ 0 := by
      intro h
      have hnonneg := Int.tdiv_nonneg (neg_nonneg.mpr h) (Int.natCast_nonneg g)
      rw [Int.neg_tdiv] at hnonneg
      omega
    omega

lemma Valid.abs (h : Valid a) (hfits : AbsFits a) : Valid a.abs ∧ value a.abs = |value a| := by
  have hwrap : abs64 a.p = |a.p| := wrap_eq_self hfits
  refine ⟨⟨h.pos, inRange_wrap _, h.denRange⟩, ?_⟩
  rw [value, Rational128.abs, hwrap, value, abs_div, Int.cast_abs, abs_of_pos (Int.cast_pos.mpr h.pos)]

lemma Valid.reduced (h : Valid a) : Valid a.reduced ∧ value a.reduced = value a := by
  rw [Rational128.reduced]
  split_ifs with hzero
  · refine ⟨valid_zero, ?_⟩
    rw [value_zero, value, hzero, cast_zero, zero_div]
  · dsimp only
    rw [gcd64_abs64 h.numRange h.pos h.denRange]
    have hg : 0 < (Int.gcd a.p a.q : ℤ) := Int.natCast_pos.mpr (Int.gcd_pos_of_ne_zero_left _ hzero)
    refine ⟨⟨tdiv_pos (Int.gcd_dvd_right _ _) hg h.pos, inRange_tdiv h.numRange, inRange_tdiv h.denRange⟩, ?_⟩
    rw [value, value, cast_tdiv (Int.gcd_dvd_left _ _), cast_tdiv (Int.gcd_dvd_right _ _)]
    exact div_div_div_cancel_right₀ (Int.cast_ne_zero.mpr hg.ne') _ _

lemma Valid.mul (ha : Valid a) (ho : Valid o) (hfits : MulFits a o) :
    Valid (mul a o) ∧ value (mul a o) = value a * value o := by
  have hg1 := gcd64_abs64 ha.numRange ho.pos ho.denRange
  have hg2 := gcd64_abs64 ho.numRange ha.pos ha.denRange
  have hpos1 : 0 < (Int.gcd a.p o.q : ℤ) := Int.natCast_pos.mpr (Int.gcd_pos_of_ne_zero_right _ ho.pos.ne')
  have hpos2 : 0 < (Int.gcd o.p a.q : ℤ) := Int.natCast_pos.mpr (Int.gcd_pos_of_ne_zero_right _ ha.pos.ne')
  have hnum : wrap (mulNumerator a o) = mulNumerator a o := wrap_eq_self hfits.1
  have hden : wrap (mulDenominator a o) = mulDenominator a o := wrap_eq_self hfits.2
  constructor
  · refine ⟨?_, inRange_wrap _, inRange_wrap _⟩
    rw [Rational128.mul, hden, mulDenominator, hg1, hg2]
    exact mul_pos (tdiv_pos (Int.gcd_dvd_right _ _) hpos2 ha.pos)
      (tdiv_pos (Int.gcd_dvd_right _ _) hpos1 ho.pos)
  · rw [value, Rational128.mul, hnum, hden, mulNumerator, mulDenominator, hg1, hg2, Int.cast_mul, Int.cast_mul,
      cast_tdiv (Int.gcd_dvd_left _ _), cast_tdiv (Int.gcd_dvd_left _ _), cast_tdiv (Int.gcd_dvd_right _ _),
      cast_tdiv (Int.gcd_dvd_right _ _), value, value]
    have hne1 : ((Int.gcd a.p o.q : ℤ) : ℚ) ≠ 0 := Int.cast_ne_zero.mpr hpos1.ne'
    have hne2 : ((Int.gcd o.p a.q : ℤ) : ℚ) ≠ 0 := Int.cast_ne_zero.mpr hpos2.ne'
    have hq1 : (a.q : ℚ) ≠ 0 := Int.cast_ne_zero.mpr ha.pos.ne'
    have hq2 : (o.q : ℚ) ≠ 0 := Int.cast_ne_zero.mpr ho.pos.ne'
    field_simp

lemma Valid.div (ha : Valid a) (ho : Valid o) (hpos : 0 < o.p) (hfits : MulFits a (inverse o)) :
    Valid (div a o) ∧ value (div a o) = value a / value o := by
  have hinv : inverse o = ⟨o.q, o.p⟩ := if_pos hpos
  have hvalid : Valid (inverse o) := by
    rw [hinv]
    exact ⟨hpos, ho.denRange, ho.numRange⟩
  have hvalue : value (inverse o) = (value o)⁻¹ := by
    rw [hinv, value, value, inv_div]
  rw [Rational128.div, if_neg hpos.ne', div_eq_mul_inv, ← hvalue]
  exact ha.mul hvalid hfits

lemma Valid.gcdPositive (ha : Valid a) (hb : Valid b) (hbp : 0 < b.p)
    (hnum : InRange (a.p * b.q)) (hnum' : InRange (b.p * a.q)) (hden : InRange (a.q * b.q)) :
    Valid (gcdPositive a b) ∧ value (gcdPositive a b) = qgcd (value a) (value b) := by
  have hprod : 0 < b.p * a.q := mul_pos hbp ha.pos
  have hprod' : 0 < a.q * b.q := mul_pos ha.pos hb.pos
  have hg : gcd64 (wrap (a.p * b.q)) (wrap (b.p * a.q)) = Int.gcd (a.p * b.q) (b.p * a.q) := by
    rw [wrap_eq_self hnum, wrap_eq_self hnum', gcd64_eq hprod hnum']
  have hrange : InRange (Int.gcd (a.p * b.q) (b.p * a.q) : ℤ) := by
    have hle := Int.le_of_dvd hprod (Int.gcd_dvd_right (a.p * b.q) (b.p * a.q))
    exact ⟨(by norm_num : (-2 ^ 63 : ℤ) ≤ 0).trans (Int.natCast_nonneg _), hle.trans_lt hnum'.2⟩
  have hcommon : ∀ n : ℤ, gcd64 n (a.q * b.q) = Int.gcd n (a.q * b.q) := fun n => gcd64_eq hprod' hden
  rw [Rational128.gcdPositive, hg, wrap_eq_self hden, hcommon]
  generalize hn : (Int.gcd (a.p * b.q) (b.p * a.q) : ℤ) = n at hrange ⊢
  have hpos : 0 < (Int.gcd n (a.q * b.q) : ℤ) :=
    Int.natCast_pos.mpr (Int.gcd_pos_of_ne_zero_right _ hprod'.ne')
  refine ⟨⟨tdiv_pos (Int.gcd_dvd_right _ _) hpos hprod', inRange_tdiv hrange, inRange_tdiv hden⟩, ?_⟩
  rw [value, cast_tdiv (Int.gcd_dvd_left _ _), cast_tdiv (Int.gcd_dvd_right _ _),
    div_div_div_cancel_right₀ (Int.cast_ne_zero.mpr hpos.ne'), value, value, qgcd_div ha.pos hb.pos, ← hn,
    Int.cast_mul, Int.cast_natCast]

lemma reduced_p_ne_zero (h : Valid a) (hne : a.p ≠ 0) : a.reduced.p ≠ 0 := by
  intro hzero
  have hvalue := h.reduced.2
  rw [value, hzero, cast_zero, zero_div, value, eq_comm, div_eq_zero_iff] at hvalue
  rcases hvalue with hp | hq
  · exact hne (Int.cast_eq_zero.mp hp)
  · exact h.pos.ne' (Int.cast_eq_zero.mp hq)

lemma qgcd_abs (x y : ℚ) : qgcd |x| |y| = qgcd x y := by
  rw [qgcd, qgcd, Rat.num_abs_eq_abs_num, Rat.num_abs_eq_abs_num, Rat.den_abs_eq_den, Rat.den_abs_eq_den]
  congr 2
  rw [Int.gcd_eq_natAbs_gcd_natAbs, Int.gcd_eq_natAbs_gcd_natAbs, Int.natAbs_mul, Int.natAbs_mul,
    Int.natAbs_mul, Int.natAbs_mul, Int.natAbs_abs, Int.natAbs_abs]

lemma Valid.gcd (ha : Valid a) (hb : Valid b) (hfits : GcdFits a b) :
    Valid (gcd a b) ∧ value (gcd a b) = qgcd (value a) (value b) := by
  obtain ⟨hfa, hfb, hprod⟩ := hfits
  rw [Rational128.gcd]
  split_ifs with hzero hzero'
  · rw [isZero_eq_true_iff] at hzero
    have hval : value a = 0 := by rw [value, hzero, cast_zero, zero_div]
    rw [hval, qgcd_zero_left]
    exact hb.abs hfb
  · rw [isZero_eq_true_iff] at hzero'
    have hval : value b = 0 := by rw [value, hzero', cast_zero, zero_div]
    rw [hval, qgcd_zero_right]
    exact ha.abs hfa
  · rw [Bool.not_eq_true] at hzero hzero'
    obtain ⟨hnum, hnum', hden⟩ := hprod hzero hzero'
    have hap : a.abs.p = |a.p| := wrap_eq_self hfa
    have hbp : b.abs.p = |b.p| := wrap_eq_self hfb
    obtain ⟨hva, hea⟩ := ha.abs hfa
    obtain ⟨hvb, heb⟩ := hb.abs hfb
    rw [← qgcd_abs, ← hea, ← heb]
    apply hva.gcdPositive hvb
    · rw [hbp]
      exact abs_pos.mpr (isZero_eq_false_iff.mp hzero')
    · rw [hap]
      exact hnum
    · rw [hbp]
      exact hnum'
    · exact hden

end Rational128

end CuOpt.Cuts
