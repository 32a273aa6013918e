import CuOpt.Cuts.Inequality
import CuOpt.Cuts.Rational

/-! The scaling of a cut to integer coefficients: each coefficient of an integer column is replaced by a
near fraction, the error goes to the right-hand side at a bound, and the cut is multiplied by the least
common multiple of the denominators over the greatest common divisor of the numerators. -/

namespace CuOpt.Cuts

open SparseList QuadProgram WrappingInt IntegralScaling List
open Prod (snd)

inductive InequalitySense where
  | lessEqual
  | greaterEqual
  deriving DecidableEq

structure RationalEntry where
  index : ℕ
  coeff : ℚ
  fraction : Option (ℤ × ℤ)

def RationalEntry.rational (e : RationalEntry) : ℚ :=
  match e.fraction with
  | some (numerator, denominator) => numerator / denominator
  | none => e.coeff

section Coefficients

variable (std : Reducer) (varTypes : ℕ → VariableType) (lower upper : ℕ → Option ℚ)
  (sense : InequalitySense)

def rationalizeEntries : List (ℕ × ℚ) → Option (List RationalEntry)
  | [] => some []
  | q :: l =>
    if varTypes q.1 = .integer then
      match rationalApproximation q.2 1000, rationalizeEntries l with
      | (some fraction, true), some entries => some (⟨q.1, q.2, some fraction⟩ :: entries)
      | _, _ => none
    else (rationalizeEntries l).map (⟨q.1, q.2, none⟩ :: ·)

def numerators (entries : List RationalEntry) : List ℤ :=
  (entries.filterMap RationalEntry.fraction).map Prod.fst

def denominators (entries : List RationalEntry) : List ℤ :=
  (entries.filterMap RationalEntry.fraction).map Prod.snd

def gcdNumerators : List ℤ → ℤ
  | [] => 0
  | a :: l => l.foldl gcd64 a

def lcmDenominators : List ℤ → ℤ
  | [] => 0
  | d :: l => std.reduce lcm64 d l

def useUpperBound (delta : ℚ) : Bool :=
  match sense with
  | .lessEqual => decide (0 < delta)
  | .greaterEqual => decide (delta < 0)

/-- The errors of the integer columns, each at the bound that keeps the inequality. -/
def correctRhs (scalar : ℚ) : List RationalEntry → ℚ → Option ℚ
  | [], rhs => some rhs
  | e :: entries, rhs =>
    let delta := scalar * e.rational - scalar * e.coeff
    if e.fraction = none ∨ delta = 0 then correctRhs scalar entries rhs
    else
      match if useUpperBound sense delta then upper e.index else lower e.index with
      | none => none
      | some bound => correctRhs scalar entries (rhs + delta * bound)

/-- `none` when the function returns false; a scalar that is not finite is zero here. -/
def rationalCoefficients (c : Inequality) : Option Inequality :=
  match rationalizeEntries varTypes c.vector with
  | none => none
  | some entries =>
    let scalar : ℚ := lcmDenominators std (denominators entries) / gcdNumerators (numerators entries)
    if scalar ≤ 0 ∨ 1000 < scalar then none
    else
      (correctRhs lower upper sense scalar entries (scalar * c.rhs)).map fun rhs =>
        ⟨entries.map fun e => (e.index, scalar * e.rational), rhs⟩

end Coefficients

section Valid

variable {varTypes : ℕ → VariableType} {lower upper : ℕ → Option ℚ} {sense : InequalitySense}

def InequalitySense.Holds (sense : InequalitySense) (c : Inequality) (x : ℕ → ℚ) : Prop :=
  match sense with
  | .lessEqual => dot c.vector x ≤ c.rhs
  | .greaterEqual => c.rhs ≤ dot c.vector x

def RationalEntry.Found (varTypes : ℕ → VariableType) (e : RationalEntry) : Prop :=
  match e.fraction with
  | some fraction => varTypes e.index = .integer ∧
      rationalApproximation e.coeff 1000 = (some fraction, true)
  | none => varTypes e.index ≠ .integer

lemma rationalizeEntries_spec {l : List (ℕ × ℚ)} {entries : List RationalEntry}
    (h : rationalizeEntries varTypes l = some entries) :
    entries.map (fun e => (e.index, e.coeff)) = l ∧ ∀ e ∈ entries, e.Found varTypes := by
  induction l generalizing entries with
  | nil =>
    obtain rfl : [] = entries := Option.some.inj h
    exact ⟨rfl, nofun⟩
  | cons q l ih =>
    rw [rationalizeEntries] at h
    split_ifs at h with htype
    · split at h
      case h_1 fraction rest hfraction hrest =>
        cases h
        obtain ⟨hmap, hfound⟩ := ih hrest
        refine ⟨by rw [map_cons, hmap], forall_mem_cons.mpr ⟨?_, hfound⟩⟩
        exact ⟨htype, hfraction⟩
      case h_2 => cases h
    · obtain ⟨rest, hrest, rfl⟩ := Option.map_eq_some_iff.mp h
      obtain ⟨hmap, hfound⟩ := ih hrest
      exact ⟨by rw [map_cons, hmap], forall_mem_cons.mpr ⟨htype, hfound⟩⟩

lemma error_le {delta v bound : ℚ} {l u : Option ℚ} (hv : InBounds l u v)
    (h : (if useUpperBound .lessEqual delta then u else l) = some bound) : delta * v ≤ delta * bound := by
  by_cases hupper : useUpperBound .lessEqual delta = true
  · rw [if_pos hupper] at h
    exact mul_le_mul_of_nonneg_left (hv.2 bound h) (of_decide_eq_true hupper).le
  · rw [if_neg hupper] at h
    have hneg : ¬0 < delta := fun hpos => hupper (decide_eq_true hpos)
    exact mul_le_mul_of_nonpos_left (hv.1 bound h) (not_lt.mp hneg)

lemma le_error {delta v bound : ℚ} {l u : Option ℚ} (hv : InBounds l u v)
    (h : (if useUpperBound .greaterEqual delta then u else l) = some bound) :
    delta * bound ≤ delta * v := by
  by_cases hupper : useUpperBound .greaterEqual delta = true
  · rw [if_pos hupper] at h
    exact mul_le_mul_of_nonpos_left (hv.2 bound h) (of_decide_eq_true hupper).le
  · rw [if_neg hupper] at h
    have hpos : ¬delta < 0 := fun hneg => hupper (decide_eq_true hneg)
    exact mul_le_mul_of_nonneg_left (hv.1 bound h) (not_lt.mp hpos)

/-- The error of each coefficient is on the side of the bound that is used. -/
lemma correctRhs_spec {scalar : ℚ} {x : ℕ → ℚ} (hx : ∀ j, InBounds (lower j) (upper j) (x j))
    {entries : List RationalEntry} {rhs rhs' : ℚ}
    (h : correctRhs lower upper sense scalar entries rhs = some rhs') : match sense with
    | .lessEqual => dot (entries.map fun e => (e.index, scalar * e.rational)) x + rhs ≤
        scalar * dot (entries.map fun e => (e.index, e.coeff)) x + rhs'
    | .greaterEqual => scalar * dot (entries.map fun e => (e.index, e.coeff)) x + rhs' ≤
        dot (entries.map fun e => (e.index, scalar * e.rational)) x + rhs := by
  induction entries generalizing rhs with
  | nil =>
    cases h
    cases sense
    case lessEqual => simp [dot]
    case greaterEqual => simp [dot]
  | cons e entries ih =>
    have hcons : ∀ f : RationalEntry → ℚ, dot ((e :: entries).map fun e => (e.index, f e)) x =
        f e * x e.index + dot (entries.map fun e => (e.index, f e)) x := fun _ => rfl
    rw [correctRhs] at h
    rw [hcons, hcons]
    by_cases hskip : e.fraction = none ∨ scalar * e.rational - scalar * e.coeff = 0
    · rw [if_pos hskip] at h
      have hsame : scalar * e.rational = scalar * e.coeff := by
        rcases hskip with hnone | hzero
        · rw [RationalEntry.rational, hnone]
        · exact sub_eq_zero.mp hzero
      have hrest := ih h
      cases sense
      case lessEqual =>
        dsimp only at hrest ⊢
        rw [hsame]
        linarith
      case greaterEqual =>
        dsimp only at hrest ⊢
        rw [hsame]
        linarith
    · rw [if_neg hskip] at h
      generalize hdelta : scalar * e.rational - scalar * e.coeff = delta at h
      cases sense
      case lessEqual =>
        split at h
        case h_1 => cases h
        case h_2 bound hbound =>
          have hrest := ih h
          have herror := error_le (hx e.index) hbound
          dsimp only at hrest ⊢
          have hsplit : scalar * e.rational = scalar * e.coeff + delta := by linarith
          rw [hsplit, add_mul]
          linarith
      case greaterEqual =>
        split at h
        case h_1 => cases h
        case h_2 bound hbound =>
          have hrest := ih h
          have herror := le_error (hx e.index) hbound
          dsimp only at hrest ⊢
          have hsplit : scalar * e.rational = scalar * e.coeff + delta := by linarith
          rw [hsplit, add_mul]
          linarith

end Valid

section Integral

variable {std : Reducer} {varTypes : ℕ → VariableType} {entries : List RationalEntry}

def fractions (entries : List RationalEntry) : List ℚ :=
  (entries.filterMap RationalEntry.fraction).map fun r => (r.1 / r.2 : ℚ)

lemma RationalEntry.Found.spec {e : RationalEntry} (h : e.Found varTypes) {r : ℤ × ℤ}
    (hr : e.fraction = some r) : varTypes e.index = .integer ∧ IsCoprime r.1 r.2 ∧ 1 ≤ r.2 ∧ r.2 ≤ 1000 ∧
      InRange r.1 := by
  rw [RationalEntry.Found, hr] at h
  exact ⟨h.1, rationalApproximation_spec (by norm_num) (by norm_num) h.2⟩

section

variable (h : ∀ e ∈ entries, e.Found varTypes)
include h

lemma forall_mem_fraction :
    ∀ r ∈ entries.filterMap RationalEntry.fraction,
      IsCoprime r.1 r.2 ∧ 1 ≤ r.2 ∧ r.2 ≤ 1000 ∧ InRange r.1 := by
  intro r hr
  obtain ⟨e, he, hfraction⟩ := mem_filterMap.mp hr
  exact ((h e he).spec hfraction).2

lemma map_num_fractions :
    (fractions entries).map Rat.num = numerators entries := by
  rw [fractions, numerators, map_map]
  apply map_congr_left
  intro r hr
  obtain ⟨hcoprime, hpos, -, -⟩ := forall_mem_fraction h r hr
  exact Rat.num_div_eq_of_coprime (by omega) (Int.isCoprime_iff_gcd_eq_one.mp hcoprime)

lemma map_den_fractions :
    (fractions entries).map Rat.den = (denominators entries).map Int.natAbs := by
  rw [fractions, denominators, map_map, map_map]
  apply map_congr_left
  intro r hr
  obtain ⟨hcoprime, hpos, -, -⟩ := forall_mem_fraction h r hr
  have hden := Rat.den_div_eq_of_coprime (show 0 < r.2 by omega)
    (Int.isCoprime_iff_gcd_eq_one.mp hcoprime)
  rw [Function.comp_apply, Function.comp_apply]
  omega

lemma mem_denominators {d : ℤ} (hd : d ∈ denominators entries) : 1 ≤ d ∧ d ≤ 1000 := by
  obtain ⟨r, hr, rfl⟩ := mem_map.mp hd
  obtain ⟨-, hpos, hle, -⟩ := forall_mem_fraction h r hr
  exact ⟨hpos, hle⟩

lemma mem_numerators {a : ℤ} (ha : a ∈ numerators entries) : InRange a := by
  obtain ⟨r, hr, rfl⟩ := mem_map.mp ha
  exact (forall_mem_fraction h r hr).2.2.2

/-- The coefficients of the integer columns are the scaled fractions. -/
lemma filter_integer (scalar : ℚ) :
    ((entries.map fun e => (e.index, scalar * e.rational)).filter fun q =>
      decide (varTypes q.1 = .integer)).map snd = (fractions entries).map (scalar * ·) := by
  induction entries with
  | nil => rfl
  | cons e entries ih =>
    obtain ⟨he, hrest⟩ := forall_mem_cons.mp h
    have htail := ih hrest
    rw [fractions] at htail ⊢
    rw [map_cons]
    cases hr : e.fraction with
    | none =>
      rw [RationalEntry.Found, hr] at he
      rw [filter_cons_of_neg (by simpa using he), filterMap_cons_none hr, htail]
    | some r =>
      obtain ⟨hinteger, -⟩ := he.spec hr
      rw [filter_cons_of_pos (by simpa using hinteger),
        filterMap_cons_some hr, map_cons, map_cons, map_cons, htail, RationalEntry.rational, hr]

end

/-- A common multiple of denominators up to a thousand is not `2 ^ 63`. -/
lemma lcmOf_ne {l : List ℕ} (h : ∀ d ∈ l, d ≤ 1000) : lcmOf l ≠ 2 ^ 63 := by
  intro heq
  have hdvd : lcmOf l ∣ 2 ^ 9 := by
    rw [lcmOf_dvd]
    intro d hd
    obtain ⟨i, -, rfl⟩ := (Nat.dvd_prime_pow Nat.prime_two).mp (heq ▸ dvd_lcmOf hd)
    apply pow_dvd_pow
    by_contra hlt
    have hpow : 2 ^ 10 ≤ 2 ^ i := Nat.pow_le_pow_right Nat.two_pos (not_le.mp hlt)
    have hle := h _ hd
    omega
  rw [heq] at hdvd
  exact absurd (Nat.le_of_dvd (by norm_num) hdvd) (by norm_num)

lemma natAbs_gcdNumerators (h : ∀ e ∈ entries, e.Found varTypes) :
    (gcdNumerators (numerators entries)).natAbs = numGcd (fractions entries) := by
  have hrange : ∀ a ∈ numerators entries, InRange a := fun a => mem_numerators h
  rw [numGcd, map_num_fractions h]
  rcases hl : numerators entries with _ | ⟨a, l⟩
  · rfl
  · rw [hl] at hrange
    obtain ⟨ha, hrest⟩ := forall_mem_cons.mp hrange
    exact foldl_gcd64 ha hrest

lemma lcmDenominators_eq_iff (h : ∀ e ∈ entries, e.Found varTypes) (hne : denominators entries ≠ []) :
    (lcmDenominators std (denominators entries)).natAbs = denLcm (fractions entries) ↔
      denLcm (fractions entries) < 2 ^ 63 := by
  have hrange : ∀ d ∈ denominators entries, 1 ≤ d ∧ d ≤ 1000 := fun d => mem_denominators h
  have hlcm : lcmOf ((denominators entries).map Int.natAbs) ≠ 2 ^ 63 := by
    apply lcmOf_ne
    intro d hd
    obtain ⟨z, hz, rfl⟩ := mem_map.mp hd
    have hbounds := hrange z hz
    omega
  rw [denLcm, map_den_fractions h]
  match hl : denominators entries with
  | [] => exact absurd hl hne
  | d :: l =>
    rw [hl] at hrange hlcm
    have hreduced := std.reduced lcm64 d l
    constructor
    · intro heq
      have hin : InRange (std.reduce lcm64 d l) := hreduced.inRange fun z hz => by
        have hbounds := hrange z hz
        exact ⟨by omega, by omega⟩
      have hle := natAbs_le_of_inRange hin
      rw [lcmDenominators] at heq
      rw [heq] at hle
      exact lt_of_le_of_ne hle hlcm
    · intro hlt
      have hpos : ∀ z ∈ d :: l, 0 < z := fun z hz => by
        have hbounds := hrange z hz
        omega
      rw [lcmDenominators, hreduced.eq_lcmOf hpos hlt, Int.natAbs_natCast]

def coefficientDenominators (varTypes : ℕ → VariableType) (c : Inequality) : List ℕ :=
  (c.vector.filter fun q => decide (varTypes q.1 = .integer)).filterMap fun q =>
    (rationalApproximation q.2 1000).1.map fun r => r.2.natAbs

lemma coefficientDenominators_eq {c : Inequality}
    (hmap : entries.map (fun e => (e.index, e.coeff)) = c.vector)
    (h : ∀ e ∈ entries, e.Found varTypes) :
    coefficientDenominators varTypes c = (denominators entries).map Int.natAbs := by
  rw [coefficientDenominators, ← hmap, denominators, map_map]
  clear hmap
  induction entries with
  | nil => rfl
  | cons e entries ih =>
    obtain ⟨he, hrest⟩ := forall_mem_cons.mp h
    have htail := ih hrest
    rw [map_cons]
    rw [RationalEntry.Found] at he
    cases hr : e.fraction with
    | none =>
      rw [hr] at he
      rw [filter_cons_of_neg (by simpa using he), filterMap_cons_none hr, htail]
    | some r =>
      rw [hr] at he
      rw [filter_cons_of_pos (by simpa using he.1), filterMap_cons_some hr, map_cons,
        filterMap_cons_some (by rw [he.2]; rfl), htail]
      rfl

/-- Of what the function returns the points are kept, and the coefficients of the integer columns are
integers without a common divisor exactly when the common multiple of the denominators fits. -/
theorem rationalCoefficients_iff {lower upper : ℕ → Option ℚ} {sense : InequalitySense}
    {c c' : Inequality} (h : rationalCoefficients std varTypes lower upper sense c = some c') :
    ((∀ x, (∀ j, InBounds (lower j) (upper j) (x j)) → sense.Holds c x → sense.Holds c' x) ∧
      ∃ A : List ℤ, (c'.vector.filter fun q => decide (varTypes q.1 = .integer)).map snd =
        A.map (Int.cast : ℤ → ℚ) ∧ gcdOf A = 1) ↔
      lcmOf (coefficientDenominators varTypes c) < 2 ^ 63 := by
  rw [rationalCoefficients] at h
  split at h
  case h_1 => cases h
  case h_2 entries hentries =>
    obtain ⟨hmap, hfound⟩ := rationalizeEntries_spec hentries
    dsimp only at h
    generalize hscalar : (lcmDenominators std (denominators entries) : ℚ) /
      gcdNumerators (numerators entries) = scalar at h
    split_ifs at h with hrange
    obtain ⟨rhs, hrhs, rfl⟩ := Option.map_eq_some_iff.mp h
    rw [not_or, not_le, not_lt] at hrange
    have hpos : 0 < scalar := hrange.1
    -- neither is zero, as the scalar is not
    have hW : lcmDenominators std (denominators entries) ≠ 0 := by
      intro hzero
      rw [hzero, Int.cast_zero, zero_div] at hscalar
      exact hpos.ne hscalar
    have hG : gcdNumerators (numerators entries) ≠ 0 := by
      intro hzero
      rw [hzero, Int.cast_zero, div_zero] at hscalar
      exact hpos.ne hscalar
    have hnum := natAbs_gcdNumerators hfound
    have hG' : numGcd (fractions entries) ≠ 0 := hnum ▸ Int.natAbs_ne_zero.mpr hG
    have hne : denominators entries ≠ [] := by
      intro hnil
      rw [hnil] at hW
      exact hW rfl
    have hvalid : ∀ x, (∀ j, InBounds (lower j) (upper j) (x j)) → sense.Holds c x →
        sense.Holds ⟨entries.map fun e => (e.index, scalar * e.rational), rhs⟩ x := by
      intro x hx hc
      have hspec := correctRhs_spec hx hrhs
      rw [hmap] at hspec
      cases sense
      case lessEqual =>
        have hscaled := mul_le_mul_of_nonneg_left hc hpos.le
        dsimp only [InequalitySense.Holds] at hspec ⊢
        linarith
      case greaterEqual =>
        have hscaled := mul_le_mul_of_nonneg_left hc hpos.le
        dsimp only [InequalitySense.Holds] at hspec ⊢
        linarith
    rw [and_iff_right hvalid]
    dsimp only
    rw [filter_integer hfound, integral_iff hG' hpos, coefficientDenominators_eq hmap hfound,
      ← map_den_fractions hfound, ← denLcm, ← @lcmDenominators_eq_iff std varTypes entries hfound hne]
    have habs : scalar = ((lcmDenominators std (denominators entries)).natAbs : ℚ) /
        numGcd (fractions entries) := by
      rw [← hnum, Nat.cast_natAbs, Nat.cast_natAbs, Int.cast_abs, Int.cast_abs, ← abs_div, hscalar,
        abs_of_pos hpos]
    rw [habs, div_left_inj' (Nat.cast_ne_zero.mpr hG'), Nat.cast_inj]

end Integral

section Wraps

/-- `x₀ / 2 + x₁ / 3 ≤ 1` becomes `3 x₀ + 2 x₁ ≤ 6`. -/
theorem rationalCoefficients_halves :
    (rationalCoefficients leftReducer (fun _ => .integer) (fun _ => some 0) (fun _ => some 1) .lessEqual
        ⟨[(0, 1 / 2), (1, 1 / 3)], 1⟩ = some ⟨[(0, 3), (1, 2)], 6⟩) ∧
      (∀ x, (∀ j, InBounds (some 0) (some 1) (x j)) →
        InequalitySense.lessEqual.Holds ⟨[(0, 1 / 2), (1, 1 / 3)], 1⟩ x →
        InequalitySense.lessEqual.Holds ⟨[(0, 3), (1, 2)], 6⟩ x) ∧
      ∃ A : List ℤ, (([(0, 3), (1, 2)] : List (ℕ × ℚ)).filter fun q =>
          decide ((fun _ => VariableType.integer) q.1 = .integer)).map snd =
        A.map (Int.cast : ℤ → ℚ) ∧ gcdOf A = 1 := by
  have h : rationalCoefficients leftReducer (fun _ => .integer) (fun _ => some 0) (fun _ => some 1)
      .lessEqual ⟨[(0, 1 / 2), (1, 1 / 3)], 1⟩ = some ⟨[(0, 3), (1, 2)], 6⟩ := by decide +kernel
  exact ⟨h, (rationalCoefficients_iff h).mpr (by decide +kernel)⟩

def twelvePrimes : Inequality where
  vector := [(0, 6249578958392125 / 2 ^ 52), (1, 4816239671801313 / 2 ^ 51),
    (2, 2334276297491437 / 2 ^ 50), (3, 8941077889901947 / 2 ^ 52), (4, 8143953560935949 / 2 ^ 52),
    (5, 7931810052836315 / 2 ^ 52), (6, 7416618060229897 / 2 ^ 52), (7, 3337929809080325 / 2 ^ 51),
    (8, 1606354263338187 / 2 ^ 50), (9, 3197713387695387 / 2 ^ 51), (10, 797567046931009 / 2 ^ 49),
    (11, 5009945837760415 / 2 ^ 51)]
  rhs := 1

/-- The product of the primes wraps to `1209371`, which is no multiple of them. -/
theorem twelvePrimes_not_integral : ∃ c', rationalCoefficients leftReducer (fun _ => .integer)
      (fun _ => some 0) (fun _ => some 1) .lessEqual twelvePrimes = some c' ∧
    ¬∃ A : List ℤ, (c'.vector.filter fun q =>
        decide ((fun _ => VariableType.integer) q.1 = .integer)).map snd =
      A.map (Int.cast : ℤ → ℚ) ∧ gcdOf A = 1 := by
  have hhead : ((rationalCoefficients leftReducer (fun _ => .integer) (fun _ => some 0)
      (fun _ => some 1) .lessEqual twelvePrimes).map fun c' => c'.vector.head?) =
        some (some (0, 1209371 / 877)) := by decide +kernel
  obtain ⟨c', hc', hvector⟩ := Option.map_eq_some_iff.mp hhead
  refine ⟨c', hc', ?_⟩
  rintro ⟨A, hA, -⟩
  obtain ⟨rest, hrest⟩ := head?_eq_some_iff.mp hvector
  rw [hrest, filter_cons_of_pos (by decide), map_cons] at hA
  cases A with
  | nil => cases hA
  | cons a A =>
    have hint : (1209371 / 877 : ℚ) = a := (List.cons.inj hA).1
    have hden := congrArg Rat.den hint
    rw [Rat.den_intCast] at hden
    exact absurd hden (by decide +kernel)

end Wraps

end CuOpt.Cuts
