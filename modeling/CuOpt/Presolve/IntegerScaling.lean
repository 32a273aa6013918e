import CuOpt.Cuts.ConflictCuts
import CuOpt.Cuts.Rational

/-! The factor that makes the coefficients and the side of a row integers. -/

namespace CuOpt.Presolve

open WrappingInt Cuts List

def convergentLoop (x : ℚ) (maxDenom : ℤ) (epsilon : ℚ) : ℕ → ℤ → ℤ → ℤ → ℤ → ℚ → ℤ × ℤ
  | 0, _, _, pPrev1, qPrev1, _ => (pPrev1, qPrev1)
  | passes + 1, pPrev2, qPrev2, pPrev1, qPrev1, remainder =>
    if |remainder| < 1 / 10 ^ 15 then (pPrev1, qPrev1)
    else
      let a := ⌊1 / remainder⌋
      let pCurr := a * pPrev1 + pPrev2
      let qCurr := a * qPrev1 + qPrev2
      if 2 ^ 63 ≤ a then (0, 0)
      else if ¬InRange (a * pPrev1) ∨ ¬InRange pCurr ∨ ¬InRange (a * qPrev1) ∨ ¬InRange qCurr then (0, 0)
      else if maxDenom < qCurr then (pPrev1, qPrev1)
      else if |x - pCurr / qCurr| < epsilon then (pCurr, qCurr)
      else convergentLoop x maxDenom epsilon passes pPrev1 qPrev1 pCurr qCurr (1 / remainder - a)

/-- `rational_approximation` of `utilities/integer_scaling.hpp`; a denominator of zero is a failure. -/
def approximateFraction (x : ℚ) (maxDenom : ℤ) (epsilon : ℚ) : ℤ × ℤ :=
  if |x| < epsilon then (0, 1)
  else if 2 ^ 63 ≤ ⌊|x|⌋ then (0, 0)
  else
    let r := convergentLoop |x| maxDenom epsilon 100 1 0 ⌊|x|⌋ 1 (|x| - ⌊|x|⌋)
    if x < 0 then (-r.1, r.2) else r

structure Scaling where
  gcd : ℤ
  scm : ℤ
  deriving DecidableEq

def scaleStep (maxscale : ℚ) (maxdnom : ℤ) (s : Scaling) (c : ℚ) : Option Scaling :=
  let r := approximateFraction c maxdnom (1 / maxscale)
  if r.2 = 0 then none
  else if r.1 = 0 then some s
  else if r.1 = -2 ^ 63 then none
  else
    let factor := r.2 / Int.gcd s.scm r.2
    let next : Option Scaling :=
      if s.gcd = 0 then some ⟨|r.1|, r.2⟩
      else if InRange (s.scm * factor) then some ⟨Int.gcd s.gcd |r.1|, s.scm * factor⟩
      else none
    next.filter fun s => decide ((s.scm : ℚ) / s.gcd ≤ maxscale)

def findScaling (coefficients : List ℚ) (maxscale : ℚ) (maxdnom : ℤ) (maxfinal intcheckTol : ℚ) :
    Option ℚ := do
  let s ← coefficients.foldlM (scaleStep maxscale maxdnom) ⟨0, 1⟩
  if s.gcd = 0 then some 1
  else
    let intscalar : ℚ := s.scm / s.gcd
    if maxfinal < intscalar then none
    else if coefficients.any fun c => decide (intcheckTol < |intscalar * c - stdRound (intscalar * c)|) then
      none
    else some intscalar

/-- An infinite bound is also one from `1e30` on. -/
def scalingBoundFinite (x : ℚ) : Bool := decide (|x| < 10 ^ 30)

def intcheckTol : ℚ := 1 / 10 ^ 9

def rowIntScale (coef : List ℚ) (lo : ℚ) (maxLen : ℕ) (scaleCap : ℤ) : Option ℚ := do
  let vals := coef ++ if scalingBoundFinite lo then [lo] else []
  let scale ← findScaling vals (10 ^ 12) scaleCap scaleCap intcheckTol
  if scale ≤ 0 then none
  else if 2 ^ 53 ≤ (vals.foldl (fun m v => max m |v * scale|) 0) * maxLen then none
  else some scale

section Integral

variable {maxDenom : ℤ} {epsilon maxscale : ℚ}

lemma approximateFraction_intCast {z : ℤ} (hz : z ≠ 0) (hepsilon : epsilon ≤ 1)
    (h : (approximateFraction z maxDenom epsilon).2 ≠ 0) :
    approximateFraction z maxDenom epsilon = (z, 1) := by
  have hlarge : ¬|(z : ℚ)| < epsilon := by
    have hone : (1 : ℚ) ≤ |(z : ℚ)| := by exact_mod_cast Int.one_le_abs hz
    exact not_lt.mpr (hepsilon.trans hone)
  have hfloor : ⌊|(z : ℚ)|⌋ = |z| := by rw [← Int.cast_abs, Int.floor_intCast]
  have hloop : convergentLoop |(z : ℚ)| maxDenom epsilon 100 1 0 |z| 1 (|(z : ℚ)| - (|z| : ℤ)) =
      (|z|, 1) := by
    rw [convergentLoop, Int.cast_abs, sub_self, abs_zero]
    exact if_pos (by norm_num)
  rw [approximateFraction, if_neg hlarge, hfloor] at h ⊢
  by_cases hover : 2 ^ 63 ≤ |z|
  · rw [if_pos hover] at h
    exact absurd rfl h
  · rw [if_neg hover]
    dsimp only
    rw [hloop]
    split_ifs with hneg
    · rw [abs_of_neg (by exact_mod_cast hneg), neg_neg]
    · rw [abs_of_nonneg (by exact_mod_cast not_lt.mp hneg)]

lemma scaleStep_spec {s s' : Scaling} {c : ℚ} (hmaxscale : 1 ≤ maxscale)
    (h : scaleStep maxscale maxDenom s c = some s') :
    s'.gcd ∣ s.gcd ∧ ∀ z : ℤ, c = z → s'.gcd ∣ z := by
  have hepsilon : 1 / maxscale ≤ 1 := (div_le_one (by linarith)).mpr hmaxscale
  rw [scaleStep] at h
  dsimp only at h
  split_ifs at h with hden hnum hmin hfirst hrange
  · cases h
    refine ⟨dvd_rfl, ?_⟩
    rintro z rfl
    rcases eq_or_ne z 0 with rfl | hz
    · exact dvd_zero _
    · rw [approximateFraction_intCast hz hepsilon hden] at hnum
      exact absurd hnum hz
  · obtain ⟨hs', -⟩ := Option.filter_eq_some_iff.mp h
    cases hs'
    refine ⟨hfirst ▸ dvd_zero _, ?_⟩
    rintro z rfl
    rcases eq_or_ne z 0 with rfl | hz
    · exact dvd_zero _
    · rw [approximateFraction_intCast hz hepsilon hden]
      exact (abs_dvd z z).mpr dvd_rfl
  · obtain ⟨hs', -⟩ := Option.filter_eq_some_iff.mp h
    cases hs'
    refine ⟨Int.gcd_dvd_left _ _, ?_⟩
    rintro z rfl
    rcases eq_or_ne z 0 with rfl | hz
    · exact dvd_zero _
    · rw [approximateFraction_intCast hz hepsilon hden]
      exact (Int.gcd_dvd_right _ _).trans ((abs_dvd z z).mpr dvd_rfl)
  · cases h

lemma foldlM_scaleStep_spec {coefficients : List ℚ} {s s' : Scaling} (hmaxscale : 1 ≤ maxscale)
    (h : coefficients.foldlM (scaleStep maxscale maxDenom) s = some s') :
    s'.gcd ∣ s.gcd ∧ ∀ z : ℤ, (z : ℚ) ∈ coefficients → s'.gcd ∣ z := by
  induction coefficients generalizing s with
  | nil =>
    cases h
    exact ⟨dvd_rfl, nofun⟩
  | cons c coefficients ih =>
    rw [foldlM_cons] at h
    obtain ⟨mid, hmid, hrest⟩ := Option.bind_eq_some_iff.mp h
    obtain ⟨hdvd, hc⟩ := scaleStep_spec hmaxscale hmid
    obtain ⟨hdvd', hcs⟩ := ih hrest
    refine ⟨hdvd'.trans hdvd, ?_⟩
    intro z hz
    rcases mem_cons.mp hz with heq | hmem
    · exact hdvd'.trans (hc z heq.symm)
    · exact hcs z hmem

lemma findScaling_spec {coefficients : List ℚ} {maxfinal tol scale : ℚ} (hmaxscale : 1 ≤ maxscale)
    (h : findScaling coefficients maxscale maxDenom maxfinal tol = some scale) {z : ℤ}
    (hz : (z : ℚ) ∈ coefficients) (hz0 : z ≠ 0) :
    (∀ c ∈ coefficients, |scale * c - stdRound (scale * c)| ≤ tol) ∧
      ∀ n : ℤ, (n : ℚ) ∈ coefficients → ∃ k : ℤ, scale * n = k := by
  rw [findScaling] at h
  obtain ⟨s, hs, h⟩ := Option.bind_eq_some_iff.mp h
  have hdvd := (foldlM_scaleStep_spec hmaxscale hs).2
  have hgcd : s.gcd ≠ 0 := fun hzero => hz0 (zero_dvd_iff.mp (hzero ▸ hdvd z hz))
  rw [if_neg hgcd] at h
  dsimp only at h
  split_ifs at h with hfinal hany
  cases h
  constructor
  · intro c hc
    rw [any_eq_true] at hany
    by_contra hlt
    exact hany ⟨c, hc, decide_eq_true (not_le.mp hlt)⟩
  · intro n hn
    obtain ⟨k, rfl⟩ := hdvd n hn
    refine ⟨s.scm * k, ?_⟩
    have hne : (s.gcd : ℚ) ≠ 0 := Int.cast_ne_zero.mpr hgcd
    push_cast
    field_simp

lemma rowIntScale_spec {coef : List ℚ} {lo scale : ℚ} {maxLen : ℕ} {scaleCap : ℤ}
    (h : rowIntScale coef lo maxLen scaleCap = some scale) (hlo : scalingBoundFinite lo = true) {z : ℤ}
    (hz : (z : ℚ) ∈ coef) (hz0 : z ≠ 0) :
    0 < scale ∧ |scale * lo - stdRound (scale * lo)| ≤ intcheckTol ∧
      ∀ n : ℤ, (n : ℚ) ∈ coef ∨ (n : ℚ) = lo → ∃ k : ℤ, scale * n = k := by
  rw [rowIntScale, if_pos hlo] at h
  obtain ⟨s, hs, h⟩ := Option.bind_eq_some_iff.mp h
  split_ifs at h with hpos hlarge
  cases h
  obtain ⟨hnear, hint⟩ := findScaling_spec (by norm_num) hs (mem_append_left _ hz) hz0
  refine ⟨not_le.mp hpos, hnear lo (mem_append_right _ (mem_singleton_self lo)), ?_⟩
  intro n hn
  apply hint n
  rcases hn with hcoef | hside
  · exact mem_append_left _ hcoef
  · exact mem_append_right _ (mem_singleton.mpr hside)

end Integral

end CuOpt.Presolve
