import Mathlib

/-! The factor that makes a list of fractions integral with greatest common divisor one: the least common
multiple of the denominators over the greatest common divisor of the numerators. -/

namespace IntegralScaling

open List

def gcdOf (l : List ℤ) : ℕ := l.foldr (fun a g => Nat.gcd a.natAbs g) 0

def lcmOf (l : List ℕ) : ℕ := l.foldr Nat.lcm 1

@[simp] lemma gcdOf_nil : gcdOf [] = 0 := rfl

@[simp] lemma gcdOf_cons (a : ℤ) (l : List ℤ) : gcdOf (a :: l) = Nat.gcd a.natAbs (gcdOf l) := rfl

@[simp] lemma lcmOf_nil : lcmOf [] = 1 := rfl

@[simp] lemma lcmOf_cons (d : ℕ) (l : List ℕ) : lcmOf (d :: l) = Nat.lcm d (lcmOf l) := rfl

lemma dvd_gcdOf {e : ℕ} {l : List ℤ} : e ∣ gcdOf l ↔ ∀ a ∈ l, (e : ℤ) ∣ a := by
  induction l with
  | nil => simp
  | cons a l ih => rw [gcdOf_cons, Nat.dvd_gcd_iff, ih, forall_mem_cons, Int.natCast_dvd]

lemma lcmOf_dvd {m : ℕ} {l : List ℕ} : lcmOf l ∣ m ↔ ∀ d ∈ l, d ∣ m := by
  induction l with
  | nil => simp
  | cons d l ih => rw [lcmOf_cons, Nat.lcm_dvd_iff, ih, forall_mem_cons]

lemma dvd_lcmOf {d : ℕ} {l : List ℕ} (h : d ∈ l) : d ∣ lcmOf l := lcmOf_dvd.mp dvd_rfl d h

lemma lcmOf_pos {l : List ℕ} (h : ∀ d ∈ l, 0 < d) : 0 < lcmOf l := by
  induction l with
  | nil => exact Nat.one_pos
  | cons d l ih =>
    obtain ⟨hd, hl⟩ := forall_mem_cons.mp h
    exact Nat.lcm_pos hd (ih hl)

lemma lcmOf_append (l l' : List ℕ) : lcmOf (l ++ l') = Nat.lcm (lcmOf l) (lcmOf l') := by
  apply Nat.dvd_antisymm
  · rw [lcmOf_dvd]
    intro d hd
    rcases mem_append.mp hd with hd | hd
    · exact (dvd_lcmOf hd).trans (Nat.dvd_lcm_left _ _)
    · exact (dvd_lcmOf hd).trans (Nat.dvd_lcm_right _ _)
  · apply Nat.lcm_dvd
    · rw [lcmOf_dvd]
      exact fun d hd => dvd_lcmOf (mem_append_left _ hd)
    · rw [lcmOf_dvd]
      exact fun d hd => dvd_lcmOf (mem_append_right _ hd)

lemma lcmOf_perm {l l' : List ℕ} (h : l.Perm l') : lcmOf l = lcmOf l' := by
  apply Nat.dvd_antisymm
  · rw [lcmOf_dvd]
    exact fun d hd => dvd_lcmOf (h.mem_iff.mp hd)
  · rw [lcmOf_dvd]
    exact fun d hd => dvd_lcmOf (h.mem_iff.mpr hd)

lemma gcdOf_map_mul (c : ℤ) (l : List ℤ) : gcdOf (l.map (c * ·)) = c.natAbs * gcdOf l := by
  induction l with
  | nil => rfl
  | cons a l ih => rw [map_cons, gcdOf_cons, gcdOf_cons, ih, Int.natAbs_mul, Nat.gcd_mul_left]

/-- A prime that divides the common multiple misses one of the cofactors. -/
lemma exists_not_dvd_cofactor {p : ℕ} (hp : p.Prime) {l : List ℕ} (hl : ∀ d ∈ l, 0 < d)
    (h : p ∣ lcmOf l) : ∃ d ∈ l, ¬p ∣ lcmOf l / d := by
  by_contra hall
  push Not at hall
  have hpos := lcmOf_pos hl
  have hdvd : lcmOf l ∣ lcmOf l / p := by
    rw [lcmOf_dvd]
    intro d hd
    obtain ⟨k, hk⟩ := hall d hd
    refine ⟨k, ?_⟩
    rw [Nat.div_eq_iff_eq_mul_left hp.pos h]
    calc lcmOf l = d * (lcmOf l / d) := (Nat.mul_div_cancel' (dvd_lcmOf hd)).symm
      _ = d * k * p := by rw [hk]; ring
  have hlt : lcmOf l / p < lcmOf l := Nat.div_lt_self hpos hp.one_lt
  exact absurd (Nat.le_of_dvd (Nat.div_pos (Nat.le_of_dvd hpos h) hp.pos) hdvd) (not_le.mpr hlt)

variable (l : List ℚ)

def numGcd : ℕ := gcdOf (l.map Rat.num)

def denLcm : ℕ := lcmOf (l.map Rat.den)

def terms : List ℤ := l.map fun q => q.num / numGcd l * (denLcm l / q.den : ℕ)

variable {l}

lemma den_pos : ∀ d ∈ l.map Rat.den, 0 < d := by
  intro d hd
  obtain ⟨q, -, rfl⟩ := mem_map.mp hd
  exact q.pos

lemma gcdOf_terms (h : numGcd l ≠ 0) : gcdOf (terms l) = 1 := by
  by_contra hne
  obtain ⟨p, hp, hdvd⟩ := Nat.exists_prime_and_dvd hne
  have hint : Prime (p : ℤ) := Nat.prime_iff_prime_int.mp hp
  have hall : ∀ q ∈ l, (p : ℤ) ∣ q.num / numGcd l ∨ p ∣ denLcm l / q.den := by
    intro q hq
    have hterm := dvd_gcdOf.mp hdvd _ (mem_map_of_mem hq)
    exact (hint.dvd_mul.mp hterm).imp_right Int.natCast_dvd_natCast.mp
  have hnum : ∀ q ∈ l, (numGcd l : ℤ) ∣ q.num := fun q hq =>
    dvd_gcdOf.mp dvd_rfl _ (mem_map_of_mem hq)
  by_cases hL : p ∣ denLcm l
  · -- some denominator has all factors of the common multiple
    obtain ⟨d, hd, hnot⟩ := exists_not_dvd_cofactor hp den_pos hL
    obtain ⟨q, hq, rfl⟩ := mem_map.mp hd
    have hpnum : (p : ℤ) ∣ q.num :=
      ((hall q hq).resolve_right hnot).trans (Int.ediv_dvd_of_dvd (hnum q hq))
    have hpden : p ∣ q.den := by
      have hmul : denLcm l = q.den * (denLcm l / q.den) := (Nat.mul_div_cancel' (dvd_lcmOf hd)).symm
      rw [hmul] at hL
      exact (hp.dvd_mul.mp hL).resolve_right hnot
    exact hp.ne_one (Nat.eq_one_of_dvd_coprimes q.reduced (Int.natCast_dvd.mp hpnum) hpden)
  · -- the numerators have a further common factor
    have hmul : p * numGcd l ∣ numGcd l := by
      conv_rhs => rw [numGcd]
      rw [dvd_gcdOf]
      intro a ha
      obtain ⟨q, hq, rfl⟩ := mem_map.mp ha
      have hnot : ¬p ∣ denLcm l / q.den := fun hdvd =>
        hL (hdvd.trans (Nat.div_dvd_of_dvd (dvd_lcmOf (mem_map_of_mem hq))))
      obtain ⟨k, hk⟩ := (hall q hq).resolve_right hnot
      refine ⟨k, ?_⟩
      calc q.num = q.num / numGcd l * numGcd l := (Int.ediv_mul_cancel (hnum q hq)).symm
        _ = (p * numGcd l : ℕ) * k := by rw [hk]; push_cast; ring
    have hle := Nat.le_of_dvd (Nat.pos_of_ne_zero h) hmul
    exact absurd hle (not_le.mpr (lt_mul_of_one_lt_left (Nat.pos_of_ne_zero h) hp.one_lt))

lemma cast_terms (h : numGcd l ≠ 0) :
    (terms l).map (Int.cast : ℤ → ℚ) = l.map fun q => (denLcm l : ℚ) / numGcd l * q := by
  rw [terms, map_map]
  apply map_congr_left
  intro q hq
  have hnum : (numGcd l : ℤ) ∣ q.num := dvd_gcdOf.mp dvd_rfl _ (mem_map_of_mem hq)
  have hden : q.den ∣ denLcm l := dvd_lcmOf (mem_map_of_mem hq)
  have hG : (numGcd l : ℚ) ≠ 0 := Nat.cast_ne_zero.mpr h
  have hd : (q.den : ℚ) ≠ 0 := Nat.cast_ne_zero.mpr q.den_ne_zero
  rw [Function.comp_apply, Int.cast_mul, Int.cast_div hnum (by exact_mod_cast hG), Int.cast_natCast,
    Int.cast_natCast, Nat.cast_div hden hd]
  conv_rhs => rw [← q.num_div_den]
  field_simp

/-- One factor makes the fractions integral without a common divisor. -/
lemma integral_iff (h : numGcd l ≠ 0) {s : ℚ} (hs : 0 < s) :
    (∃ A : List ℤ, l.map (s * ·) = A.map (Int.cast : ℤ → ℚ) ∧ gcdOf A = 1) ↔
      s = denLcm l / numGcd l := by
  constructor
  · rintro ⟨A, hA, hgcd⟩
    have hG : (numGcd l : ℚ) ≠ 0 := Nat.cast_ne_zero.mpr h
    have hL : (denLcm l : ℚ) ≠ 0 := Nat.cast_ne_zero.mpr (lcmOf_pos den_pos).ne'
    -- `s` is `b / c` times the factor
    generalize hu : s * numGcd l / denLcm l = u
    have hpos : 0 < u := by
      rw [← hu]
      positivity
    have hmul : ∀ q : ℚ, s * q = u * ((denLcm l : ℚ) / numGcd l * q) := by
      intro q
      rw [← hu]
      field_simp
    have hscaled : A.map ((u.den : ℤ) * ·) = (terms l).map (u.num * ·) := by
      have hinj : Function.Injective (map (Int.cast : ℤ → ℚ)) :=
        map_injective_iff.mpr Int.cast_injective
      apply hinj
      rw [map_map, map_map]
      have hleft : A.map ((Int.cast : ℤ → ℚ) ∘ ((u.den : ℤ) * ·)) =
          (A.map (Int.cast : ℤ → ℚ)).map ((u.den : ℚ) * ·) := by
        rw [map_map]
        apply map_congr_left
        intro a _
        simp
      have hright : (terms l).map ((Int.cast : ℤ → ℚ) ∘ (u.num * ·)) =
          ((terms l).map (Int.cast : ℤ → ℚ)).map ((u.num : ℚ) * ·) := by
        rw [map_map]
        apply map_congr_left
        intro a _
        simp
      rw [hleft, hright, ← hA, cast_terms h, map_map, map_map]
      apply map_congr_left
      intro q _
      have hden : (u.den : ℚ) * u = u.num := Rat.den_mul_eq_num u
      simp only [Function.comp_apply]
      rw [hmul q, ← mul_assoc, hden]
    have hgcds := congrArg gcdOf hscaled
    rw [gcdOf_map_mul, gcdOf_map_mul, hgcd, gcdOf_terms h, mul_one, mul_one, Int.natAbs_natCast] at hgcds
    have hone : u = 1 := by
      have hnum : u.num = u.den := by
        have hnonneg := Rat.num_pos.mpr hpos
        omega
      rw [← Rat.num_div_den u, hnum, Int.cast_natCast]
      exact div_self (Nat.cast_ne_zero.mpr u.den_ne_zero)
    rw [hone, div_eq_one_iff_eq hL] at hu
    exact eq_div_of_mul_eq hG hu
  · rintro rfl
    exact ⟨terms l, (cast_terms h).symm, gcdOf_terms h⟩

end IntegralScaling
