import Mathlib

/-! Rounding an inequality over nonnegative integers: the Chvátal-Gomory inequality, the strong one,
whose coefficients are read off a partition of the fractional parts, and mixed-integer rounding. -/

namespace RoundingCuts

open List
open Int (fract)

variable {κ K : Type*} [Field K] [LinearOrder K] [IsStrictOrderedRing K] [FloorRing K]

variable {l : List κ}

omit [LinearOrder K] [IsStrictOrderedRing K] [FloorRing K] in
theorem exists_sum_int {f : κ → K} (h : ∀ p ∈ l, ∃ m : ℤ, f p = m) :
    ∃ m : ℤ, (l.map f).sum = m := by
  induction l with
  | nil => exact ⟨0, Int.cast_zero.symm⟩
  | cons p l ih =>
    obtain ⟨m, hm⟩ := h p mem_cons_self
    obtain ⟨s, hs⟩ := ih fun q hq => h q (mem_cons_of_mem p hq)
    refine ⟨m + s, ?_⟩
    rw [map_cons, sum_cons, hm, hs, Int.cast_add]

variable {a y : κ → K}

lemma sum_floor_le {v : K} (hy : ∀ p ∈ l, ∃ n : ℕ, y p = n)
    (h : (l.map fun p => a p * y p).sum ≤ v) : (l.map fun p => ⌊a p⌋ * y p).sum ≤ ⌊v⌋ := by
  have hint : ∀ p ∈ l, ∃ m : ℤ, (⌊a p⌋ : K) * y p = m := by
    intro p hp
    obtain ⟨n, hn⟩ := hy p hp
    exact ⟨⌊a p⌋ * n, by rw [hn, Int.cast_mul, Int.cast_natCast]⟩
  obtain ⟨m, hm⟩ := exists_sum_int hint
  have hle : (l.map fun p => ⌊a p⌋ * y p).sum ≤ v := by
    refine (sum_le_sum fun p hp => ?_).trans h
    obtain ⟨n, hn⟩ := hy p hp
    rw [hn]
    exact mul_le_mul_of_nonneg_right (Int.floor_le _) (Nat.cast_nonneg n)
  rw [hm] at hle ⊢
  exact_mod_cast Int.le_floor.mpr hle

/-- The extra of a coefficient with fractional part `f`: above zero it is one of the steps that `f` is
beyond. -/
def IsExtra (f₀ : K) (k : ℕ) (f : K) (e : ℕ) : Prop :=
  1 ≤ e → f₀ + (e - 1) / k * (1 - f₀) < f

variable {f₀ : K} {k : ℕ}

lemma IsExtra.le {f : K} {e : ℕ} (h : IsExtra f₀ k f e) (hk : 0 < k) (hf₀ : f₀ < 1) (hf : f < 1) :
    e ≤ k := by
  by_contra hlt
  have hke : k + 1 ≤ e := not_le.mp hlt
  have hstep := (h (by omega)).trans hf
  have hk' : (0 : K) < k := Nat.cast_pos.mpr hk
  have hone : (1 : K) ≤ (e - 1) / k := by
    rw [le_div_iff₀ hk', one_mul]
    have hcast : ((k + 1 : ℕ) : K) ≤ e := Nat.cast_le.mpr hke
    push_cast at hcast
    linarith
  have hmul := mul_le_mul_of_nonneg_right hone (sub_nonneg.mpr hf₀.le)
  linarith

lemma sum_extra_lt {f : κ → K} {e : κ → ℕ} (hf : ∀ p ∈ l, 0 ≤ f p)
    (hy : ∀ p ∈ l, ∃ n : ℕ, y p = n) (he : ∀ p ∈ l, IsExtra f₀ k (f p) (e p)) :
    ∃ n : ℕ, ((l.map fun p => if 1 ≤ e p then y p else 0).sum = n) ∧
      n * f₀ + ((l.map fun p => e p * y p).sum - n) / k * (1 - f₀) ≤
        (l.map fun p => f p * y p).sum ∧
      (0 < n → n * f₀ + ((l.map fun p => e p * y p).sum - n) / k * (1 - f₀) <
        (l.map fun p => f p * y p).sum) := by
  induction l with
  | nil => exact ⟨0, by simp⟩
  | cons p l ih =>
    obtain ⟨n, hn, hle, hlt⟩ := ih (fun q hq => hf q (mem_cons_of_mem p hq))
      (fun q hq => hy q (mem_cons_of_mem p hq)) fun q hq => he q (mem_cons_of_mem p hq)
    obtain ⟨m, hm⟩ := hy p mem_cons_self
    have hp := hf p mem_cons_self
    have hm0 : (0 : K) ≤ m := Nat.cast_nonneg m
    simp only [map_cons, sum_cons]
    generalize (l.map fun p => f p * y p).sum = T at hle hlt ⊢
    generalize (l.map fun p => e p * y p).sum = C at hle hlt ⊢
    by_cases hep : 1 ≤ e p
    · have hstep := he p mem_cons_self hep
      refine ⟨m + n, ?_, ?_, ?_⟩
      · rw [if_pos hep, hn, hm, Nat.cast_add]
      all_goals
        rw [hm, Nat.cast_add]
        have hsplit : ((m : K) + n) * f₀ + (e p * m + C - (m + n)) / k * (1 - f₀) =
            m * (f₀ + (e p - 1) / k * (1 - f₀)) + (n * f₀ + (C - n) / k * (1 - f₀)) := by ring
        rw [hsplit]
      · have hmul := mul_le_mul_of_nonneg_left hstep.le hm0
        linarith
      · intro hpos
        rcases Nat.eq_zero_or_pos m with hzero | hmpos
        · have hnpos : 0 < n := by omega
          have hsum := hlt hnpos
          rw [hzero, Nat.cast_zero, zero_mul, mul_zero]
          linarith
        · have hmul := mul_lt_mul_of_pos_left hstep (Nat.cast_pos.mpr hmpos : (0 : K) < m)
          linarith
    · have hzero : e p = 0 := by omega
      have hnonneg := mul_nonneg hp hm0
      refine ⟨n, ?_, ?_, ?_⟩
      · rw [if_neg hep, hn, zero_add]
      · rw [hzero, Nat.cast_zero, zero_mul, zero_add, hm]
        linarith
      · intro hpos
        have hsum := hlt hpos
        rw [hzero, Nat.cast_zero, zero_mul, zero_add, hm]
        linarith

omit [FloorRing K] in
theorem le_of_extra {C : K} {n : ℕ} {d : ℤ} (hk : 0 < k) (hf₀ : f₀ < 1) (hlower : 1 ≤ f₀ * (k + 1))
    (hn : d + 1 ≤ n) (hC : (k + 1) * d + 1 ≤ C) : d + f₀ ≤ n * f₀ + (C - n) / k * (1 - f₀) := by
  have hk' : (0 : K) < k := Nat.cast_pos.mpr hk
  have hα : 0 ≤ (1 - f₀) / k := div_nonneg (sub_nonneg.mpr hf₀.le) hk'.le
  have hdiff : 0 ≤ f₀ - (1 - f₀) / k := by
    rw [sub_nonneg, div_le_iff₀ hk']
    linarith
  have hn' : (d : K) + 1 ≤ n := by exact_mod_cast hn
  have hfirst := mul_le_mul_of_nonneg_right hn' hdiff
  have hsecond := mul_le_mul_of_nonneg_right hC hα
  have hsplit : n * f₀ + (C - n) / k * (1 - f₀) =
      n * (f₀ - (1 - f₀) / k) + C * ((1 - f₀) / k) := by ring
  have hvalue : d + f₀ = (d + 1) * (f₀ - (1 - f₀) / k) + ((k + 1) * d + 1) * ((1 - f₀) / k) := by
    field_simp
    ring
  rw [hsplit, hvalue]
  exact add_le_add hfirst hsecond

lemma sum_strong_le {e : κ → ℕ} {v : K} (hk : 0 < k) (hlower : 1 ≤ fract v * (k + 1))
    (hy : ∀ p ∈ l, ∃ n : ℕ, y p = n) (he : ∀ p ∈ l, IsExtra (fract v) k (fract (a p)) (e p))
    (h : (l.map fun p => a p * y p).sum ≤ v) :
    (l.map fun p => ((k + 1) * ⌊a p⌋ + e p) * y p).sum ≤ (k + 1) * ⌊v⌋ := by
  have hinteger : ∀ g : κ → ℤ, ∀ p ∈ l, ∃ m : ℤ, (g p : K) * y p = m := by
    intro g p hp
    obtain ⟨m, hm⟩ := hy p hp
    exact ⟨g p * m, by rw [hm, Int.cast_mul, Int.cast_natCast]⟩
  obtain ⟨s, hs⟩ := exists_sum_int (hinteger fun p => ⌊a p⌋)
  obtain ⟨c, hc⟩ := exists_sum_int (hinteger fun p => e p)
  simp only [Int.cast_natCast] at hc
  have hsum : (l.map fun p => ((k + 1) * ⌊a p⌋ + e p) * y p).sum = (k + 1) * s + c := by
    rw [← hs, ← hc, ← sum_map_mul_left, ← sum_map_add]
    refine congrArg sum (map_congr_left fun p _ => ?_)
    ring
  have hfract : (l.map fun p => fract (a p) * y p).sum =
      (l.map fun p => a p * y p).sum - s := by
    rw [eq_sub_iff_add_eq, ← hs, ← sum_map_add]
    refine congrArg sum (map_congr_left fun p _ => ?_)
    rw [← add_mul, Int.fract_add_floor]
  obtain ⟨n, hn, -, hlt⟩ := sum_extra_lt (fun p _ => Int.fract_nonneg (a p)) hy he
  rw [hc, hfract] at hlt
  have hT : (l.map fun p => a p * y p).sum - s ≤ ((⌊v⌋ - s : ℤ) : K) + fract v := by
    rw [fract, Int.cast_sub]
    linarith
  rw [hsum]
  by_contra hcontra
  generalize hd : ⌊v⌋ - s = d at hT
  have hC : (k + 1) * d + 1 ≤ c := by
    have hgt : (k + 1) * ⌊v⌋ < (k + 1) * s + c := by exact_mod_cast not_le.mp hcontra
    rw [← hd, mul_sub]
    omega
  have hcn : c ≤ k * n := by
    have hbound : (c : K) ≤ k * n := by
      rw [← hc, ← hn, ← sum_map_mul_left]
      refine sum_le_sum fun p hp => ?_
      obtain ⟨m, hm⟩ := hy p hp
      have hm0 : 0 ≤ y p := hm ▸ Nat.cast_nonneg m
      split_ifs with hep
      · have hek := (he p hp).le hk (Int.fract_lt_one v) (Int.fract_lt_one (a p))
        exact mul_le_mul_of_nonneg_right (Nat.cast_le.mpr hek) hm0
      · have hzero : e p = 0 := by omega
        rw [hzero, Nat.cast_zero, zero_mul, mul_zero]
    exact_mod_cast hbound
  have hd0 : 0 ≤ d := by
    have hnonneg : 0 ≤ (l.map fun p => fract (a p) * y p).sum := by
      refine sum_nonneg fun r hr => ?_
      obtain ⟨p, hp, rfl⟩ := mem_map.mp hr
      obtain ⟨m, hm⟩ := hy p hp
      exact mul_nonneg (Int.fract_nonneg _) (hm ▸ Nat.cast_nonneg m)
    have hgt : ((-1 : ℤ) : K) < d := by
      have hone := Int.fract_lt_one v
      rw [hfract] at hnonneg
      push_cast
      linarith
    have := Int.cast_lt.mp hgt
    omega
  have hdn : d + 1 ≤ n := by
    by_contra hnd
    have hnle : (n : ℤ) ≤ d := by omega
    have hmul : (k : ℤ) * n ≤ k * d := mul_le_mul_of_nonneg_left hnle (Int.natCast_nonneg k)
    have hexpand : ((k : ℤ) + 1) * d = k * d + d := by ring
    omega
  have hlower' := le_of_extra hk (Int.fract_lt_one v) hlower hdn
    (by exact_mod_cast hC : ((k : K) + 1) * d + 1 ≤ c)
  exact absurd (hlt (by omega)) (not_lt.mpr (hT.trans hlower'))

def mir (a β : K) : K := min (Int.fract a) (Int.fract β) + Int.fract β * ⌊a⌋

lemma simple_mir_le {s β : K} {m : ℤ} (hs : 0 ≤ s) (h : β ≤ s + m) :
    fract β * ⌈β⌉ ≤ s + fract β * m := by
  have hfract := Int.fract_nonneg β
  by_cases hm : ⌈β⌉ ≤ m
  · have hm' : (⌈β⌉ : K) ≤ m := Int.cast_le.mpr hm
    have hmul := mul_le_mul_of_nonneg_left hm' hfract
    linarith
  · have hβ : ¬(β : K) ≤ m := fun hβ => hm (Int.ceil_le.mpr hβ)
    have hfloor : (m : K) ≤ ⌊β⌋ := Int.cast_le.mpr (Int.le_floor.mpr (not_le.mp hβ).le)
    have hceil : (⌈β⌉ : K) ≤ ⌊β⌋ + 1 := by exact_mod_cast Int.ceil_le_floor_add_one β
    have hgap : fract β + (⌊β⌋ - m) ≤ s := by
      rw [fract]
      linarith
    have hone := mul_nonneg (sub_nonneg.mpr (Int.fract_lt_one β).le) (sub_nonneg.mpr hfloor)
    have hmul := mul_le_mul_of_nonneg_left hceil hfract
    linarith

/-- The part of a rounded term that counts as an integer: the coefficient is rounded down where its
fractional part is at most that of `β`, and up elsewhere. -/
def mirFloor (a β : K) : ℤ := if Int.fract a ≤ Int.fract β then ⌊a⌋ else ⌊a⌋ + 1

omit [IsStrictOrderedRing K] in
theorem mir_eq (a β : K) :
    mir a β = (if Int.fract a ≤ Int.fract β then Int.fract a else 0) +
      Int.fract β * mirFloor a β := by
  unfold mir mirFloor
  split_ifs with h
  · rw [min_eq_left h]
  · rw [min_eq_right (not_le.mp h).le]
    push_cast
    ring

omit [IsStrictOrderedRing K] in
theorem le_mirFloor (a β : K) :
    a ≤ (if Int.fract a ≤ Int.fract β then Int.fract a else 0) + mirFloor a β := by
  unfold mirFloor
  split_ifs with h
  · rw [Int.fract_add_floor]
  · push_cast
    rw [zero_add]
    exact (Int.lt_floor_add_one a).le

lemma mir_le_sum {β : K} (isInt : κ → Bool) (hnonneg : ∀ p ∈ l, 0 ≤ y p)
    (hint : ∀ p ∈ l, isInt p = true → ∃ m : ℤ, y p = m) (h : β ≤ (l.map fun p => a p * y p).sum) :
    fract β * ⌈β⌉ ≤
      (l.map fun p => (if isInt p then mir (a p) β else max (a p) 0) * y p).sum := by
  let cont : κ → K := fun p =>
    if isInt p then if fract (a p) ≤ fract β then fract (a p) else 0 else max (a p) 0
  let whole : κ → K := fun p => if isInt p then (mirFloor (a p) β : K) else 0
  have hcont : ∀ p, 0 ≤ cont p := by
    intro p
    simp only [cont]
    split_ifs
    · exact Int.fract_nonneg _
    · exact le_rfl
    · exact le_max_right _ _
  obtain ⟨m, hm⟩ : ∃ m : ℤ, (l.map fun p => whole p * y p).sum = m := by
    refine exists_sum_int fun p hp => ?_
    simp only [whole]
    split_ifs with hp'
    · obtain ⟨k, hk⟩ := hint p hp hp'
      exact ⟨mirFloor (a p) β * k, by rw [hk, Int.cast_mul]⟩
    · exact ⟨0, by rw [zero_mul, Int.cast_zero]⟩
  have hs : 0 ≤ (l.map fun p => cont p * y p).sum := by
    refine sum_nonneg fun r hr => ?_
    obtain ⟨p, hp, rfl⟩ := mem_map.mp hr
    exact mul_nonneg (hcont p) (hnonneg p hp)
  have hsplit : (l.map fun p => (if isInt p then mir (a p) β else max (a p) 0) * y p).sum =
      (l.map fun p => cont p * y p).sum + fract β * m := by
    rw [← hm, ← sum_map_mul_left, ← sum_map_add]
    refine congrArg sum (map_congr_left fun p _ => ?_)
    simp only [cont, whole]
    split_ifs with hp hfract
    · rw [mir_eq, if_pos hfract]
      ring
    · rw [mir_eq, if_neg hfract]
      ring
    · ring
  have hsum : β ≤ (l.map fun p => cont p * y p).sum + m := by
    rw [← hm, ← sum_map_add]
    refine h.trans (sum_le_sum fun p hp => ?_)
    rw [← add_mul]
    refine mul_le_mul_of_nonneg_right ?_ (hnonneg p hp)
    simp only [cont, whole]
    split_ifs with hp' hfract
    · exact (le_mirFloor (a p) β).trans_eq (by rw [if_pos hfract])
    · exact (le_mirFloor (a p) β).trans_eq (by rw [if_neg hfract])
    · exact (le_max_left _ _).trans_eq (add_zero _).symm
  rw [hsplit]
  exact simple_mir_le hs hsum

end RoundingCuts
