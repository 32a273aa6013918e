import Mathlib

/-! Cubes of 0/1 patterns: a pattern is a number below `2 ^ n`, a cube fixes the positions of
`lit` at the bits of `bit`. Prime cubes, and the submasks of a mask in descending order. -/

namespace BooleanCubes

lemma testBit_one_shiftLeft (i k : ℕ) : (1 <<< i).testBit k = decide (i = k) := by
  rw [Nat.one_shiftLeft, Nat.testBit_two_pow]

section Submasks

def Submask (s mask : ℕ) : Prop := ∀ i, s.testBit i = true → mask.testBit i = true

variable {s mask : ℕ}

lemma submask_iff_and_eq : Submask s mask ↔ s &&& mask = s := by
  constructor
  · intro h
    apply Nat.eq_of_testBit_eq
    intro i
    rw [Nat.testBit_and]
    cases hs : s.testBit i with
    | false => rfl
    | true => rw [h i hs, Bool.and_self]
  · intro h i hs
    rw [← h, Nat.testBit_and, Bool.and_eq_true] at hs
    exact hs.2

lemma Submask.refl (s : ℕ) : Submask s s := fun _ h => h

lemma Submask.le (h : Submask s mask) : s ≤ mask := Nat.le_of_testBit h

lemma Submask.antisymm {a b : ℕ} (hab : Submask a b) (hba : Submask b a) : a = b :=
  le_antisymm hab.le hba.le

lemma submask_and_right (s mask : ℕ) : Submask (s &&& mask) mask := by
  intro i hi
  rw [Nat.testBit_and, Bool.and_eq_true] at hi
  exact hi.2

lemma submask_full_iff {n : ℕ} : Submask s (2 ^ n - 1) ↔ s < 2 ^ n := by
  constructor
  · intro h
    have hle := h.le
    have hpos : 0 < 2 ^ n := Nat.two_pow_pos n
    omega
  · intro hlt i hi
    rw [Nat.testBit_two_pow_sub_one, decide_eq_true_eq]
    by_contra hge
    have hbig : 2 ^ n ≤ s := (Nat.pow_le_pow_right (by decide) (not_lt.mp hge)).trans
      (Nat.ge_two_pow_of_testBit hi)
    omega

lemma Submask.lt {n : ℕ} (h : Submask s mask) (hmask : mask < 2 ^ n) : s < 2 ^ n :=
  h.le.trans_lt hmask

lemma Submask.div_two (h : Submask s mask) : Submask (s / 2) (mask / 2) := by
  intro i hi
  rw [Nat.testBit_div_two] at hi ⊢
  exact h _ hi

lemma Submask.mod_two_le (h : Submask s mask) : s % 2 ≤ mask % 2 := by
  have hbit := h 0
  rw [Nat.testBit_zero, Nat.testBit_zero, decide_eq_true_eq, decide_eq_true_eq] at hbit
  omega

/-- The submask before `bit` in descending order is `(bit - 1) &&& mask`. -/
lemma le_pred_and {bit : ℕ} (hs : Submask s mask) (hbit : Submask bit mask) (hlt : s < bit) :
    s ≤ (bit - 1) &&& mask := by
  induction bit using Nat.strong_induction_on generalizing s mask with
  | _ bit ih =>
    have hdiv : ((bit - 1) &&& mask) / 2 = (bit - 1) / 2 &&& mask / 2 := Nat.and_div_two
    have hmod : ((bit - 1) &&& mask) % 2 = (bit - 1) % 2 &&& mask % 2 := by
      have := @Nat.and_mod_two_pow (bit - 1) mask 1
      rwa [pow_one] at this
    rcases Nat.mod_two_eq_zero_or_one bit with heven | hodd
    · -- an even `bit`: the higher bits go down by one, the lowest becomes that of `mask`
      have hpos : 0 < bit := Nat.zero_lt_of_lt hlt
      have hhalf : (bit - 1) / 2 = bit / 2 - 1 := by omega
      have hlow : (bit - 1) % 2 = 1 := by omega
      have hsub := ih (bit / 2) (by omega) hs.div_two hbit.div_two (by omega)
      rw [hhalf] at hdiv
      rw [hlow] at hmod
      have hone : 1 &&& mask % 2 = mask % 2 := by
        rcases Nat.mod_two_eq_zero_or_one mask with h | h
        · rw [h]
          rfl
        · rw [h]
          rfl
      rw [hone] at hmod
      have hle := hs.mod_two_le
      omega
    · -- an odd `bit`: only its lowest bit goes
      have hhalf : (bit - 1) / 2 = bit / 2 := by omega
      rw [hhalf, submask_iff_and_eq.mp hbit.div_two] at hdiv
      omega

/-- The loop `for (bit = mask;; bit = (bit - 1) & mask)` that ends after `bit = 0`. -/
def submasksFrom (mask : ℕ) : ℕ → ℕ → List ℕ
  | 0, _ => []
  | fuel + 1, bit => bit :: if bit = 0 then [] else submasksFrom mask fuel ((bit - 1) &&& mask)

def submasks (mask : ℕ) : List ℕ := submasksFrom mask (mask + 1) mask

lemma mem_submasksFrom {fuel bit : ℕ} (hbit : Submask bit mask) (hfuel : bit < fuel) (s : ℕ) :
    s ∈ submasksFrom mask fuel bit ↔ Submask s mask ∧ s ≤ bit := by
  induction fuel generalizing bit with
  | zero => exact absurd hfuel (Nat.not_lt_zero _)
  | succ fuel ih =>
    rw [submasksFrom, List.mem_cons]
    have hstop : s = bit → Submask s mask ∧ s ≤ bit := by
      rintro rfl
      exact ⟨hbit, le_rfl⟩
    split_ifs with hzero
    · constructor
      · rintro (heq | hmem)
        · exact hstop heq
        · cases hmem
      · rintro ⟨-, hle⟩
        exact .inl (by omega)
    · have hle : (bit - 1) &&& mask ≤ bit - 1 := Nat.and_le_left
      rw [ih (submask_and_right _ _) (by omega)]
      constructor
      · rintro (heq | ⟨hs, hsle⟩)
        · exact hstop heq
        · exact ⟨hs, by omega⟩
      · rintro ⟨hs, hsle⟩
        rcases hsle.lt_or_eq with hlt | heq
        · exact .inr ⟨hs, le_pred_and hs hbit hlt⟩
        · exact .inl heq

@[simp] lemma mem_submasks : s ∈ submasks mask ↔ Submask s mask := by
  rw [submasks, mem_submasksFrom (Submask.refl mask) (Nat.lt_succ_self mask)]
  exact ⟨And.left, fun h => ⟨h, h.le⟩⟩

end Submasks

structure Cube where
  lit : ℕ
  bit : ℕ
  deriving DecidableEq, Repr

namespace Cube

def Matches (c : Cube) (m : ℕ) : Prop := ∀ i, c.lit.testBit i = true → m.testBit i = c.bit.testBit i

variable {c : Cube}

lemma matches_iff {m : ℕ} : c.Matches m ↔ (m ^^^ c.bit) &&& c.lit = 0 := by
  constructor
  · intro h
    apply Nat.eq_of_testBit_eq
    intro i
    rw [Nat.testBit_and, Nat.testBit_xor, Nat.zero_testBit]
    cases hl : c.lit.testBit i with
    | false => rw [Bool.and_false]
    | true => rw [h i hl, Bool.xor_self, Bool.false_and]
  · intro h i hl
    have hbit := congrArg (fun x => x.testBit i) h
    rw [Nat.testBit_and, Nat.testBit_xor, Nat.zero_testBit, hl, Bool.and_true] at hbit
    exact bne_eq_false_iff_eq.mp hbit

instance (c : Cube) (m : ℕ) : Decidable (c.Matches m) := decidable_of_iff _ matches_iff.symm

def Sub (d c : Cube) : Prop :=
  ∀ i, d.lit.testBit i = true → c.lit.testBit i = true ∧ d.bit.testBit i = c.bit.testBit i

lemma Sub.matches_of {d : Cube} (h : d.Sub c) {m : ℕ} (hm : c.Matches m) : d.Matches m := by
  intro i hi
  rw [hm i (h i hi).1, (h i hi).2]

lemma Sub.refl (c : Cube) : c.Sub c := fun _ hi => ⟨hi, rfl⟩

lemma Sub.trans {a b : Cube} (hab : a.Sub b) (hbc : b.Sub c) : a.Sub c := by
  intro i hi
  obtain ⟨hb, heq⟩ := hab i hi
  obtain ⟨hc, heq'⟩ := hbc i hb
  exact ⟨hc, heq.trans heq'⟩

def Normal (c : Cube) : Prop := Submask c.bit c.lit

def drop (c : Cube) (i : ℕ) : Cube := ⟨c.lit ^^^ 1 <<< i, Nat.ldiff c.bit (1 <<< i)⟩

variable {i : ℕ}

lemma testBit_drop_lit (hi : c.lit.testBit i = true) (k : ℕ) :
    (c.drop i).lit.testBit k = (c.lit.testBit k && decide (i ≠ k)) := by
  rw [drop, Nat.testBit_xor, testBit_one_shiftLeft]
  rcases eq_or_ne i k with rfl | hne
  · rw [hi]
    simp
  · simp [hne]

lemma testBit_drop_bit (c : Cube) (i k : ℕ) :
    (c.drop i).bit.testBit k = (c.bit.testBit k && decide (i ≠ k)) := by
  rw [drop, Nat.testBit_ldiff, testBit_one_shiftLeft, decide_not]

lemma drop_sub (hi : c.lit.testBit i = true) : (c.drop i).Sub c := by
  intro k hk
  rw [testBit_drop_lit hi, Bool.and_eq_true] at hk
  refine ⟨hk.1, ?_⟩
  rw [testBit_drop_bit, hk.2, Bool.and_true]

lemma Normal.drop (h : c.Normal) (hi : c.lit.testBit i = true) : (c.drop i).Normal := by
  intro k hk
  rw [testBit_drop_bit, Bool.and_eq_true] at hk
  rw [testBit_drop_lit hi, h k hk.1, hk.2, Bool.and_self]

lemma drop_lit_submask (hi : c.lit.testBit i = true) :
    Submask (c.drop i).lit c.lit := fun k hk => (drop_sub hi k hk).1

lemma drop_lit_lt (hi : c.lit.testBit i = true) : (c.drop i).lit < c.lit := by
  apply (drop_lit_submask hi).le.lt_of_ne
  intro heq
  have hbit := testBit_drop_lit hi i
  rw [heq, hi] at hbit
  simp at hbit

section Prime

variable {n : ℕ} {P : ℕ → Prop}

def Within (n : ℕ) (P : ℕ → Prop) (c : Cube) : Prop := ∀ m < 2 ^ n, c.Matches m → P m

def Prime (n : ℕ) (P : ℕ → Prop) (c : Cube) : Prop :=
  c.Within n P ∧ ∀ d : Cube, d.Sub c → d.Within n P → c.Sub d

variable {c : Cube}

lemma Sub.within {d : Cube} (h : d.Sub c) (hd : d.Within n P) : c.Within n P :=
  fun m hm hc => hd m hm (h.matches_of hc)

lemma prime_iff_drop : c.Prime n P ↔
    c.Within n P ∧ ∀ i, c.lit.testBit i = true → ¬ (c.drop i).Within n P := by
  constructor
  · rintro ⟨hc, hmin⟩
    refine ⟨hc, fun i hi hdrop => ?_⟩
    have hback := (hmin (c.drop i) (drop_sub hi) hdrop i hi).1
    rw [testBit_drop_lit hi] at hback
    simp at hback
  · rintro ⟨hc, hdrop⟩
    refine ⟨hc, fun d hsub hd i hi => ?_⟩
    have hin : d.lit.testBit i = true := by
      by_contra hout
      -- without the literal at `i`, `d` is still among the literals of `c.drop i`
      apply hdrop i hi
      refine Sub.within (fun k hk => ?_) hd
      have hne : i ≠ k := by
        rintro rfl
        exact hout hk
      rw [testBit_drop_lit hi, testBit_drop_bit, (hsub k hk).1, (hsub k hk).2]
      simp [hne]
    exact ⟨hin, (hsub i hin).2.symm⟩

lemma exists_prime (hc : c.Within n P) (hnormal : c.Normal) :
    ∃ p : Cube, p.Prime n P ∧ p.Normal ∧ p.Sub c := by
  induction hlit : c.lit using Nat.strong_induction_on generalizing c with
  | _ lit ih =>
    subst hlit
    by_cases hprime : c.Prime n P
    · exact ⟨c, hprime, hnormal, Sub.refl c⟩
    · rw [prime_iff_drop, not_and] at hprime
      have hex := hprime hc
      push Not at hex
      obtain ⟨i, hi, hdrop⟩ := hex
      obtain ⟨p, hp, hpn, hsub⟩ := ih _ (drop_lit_lt hi) hdrop (hnormal.drop hi) rfl
      exact ⟨p, hp, hpn, hsub.trans (drop_sub hi)⟩

/-- A cube is the union of its halves at a free position. -/
lemma within_iff_halves {lit bit j : ℕ} (hnormal : Submask bit lit) (hj : lit.testBit j = false) :
    Within n P ⟨lit, bit⟩ ↔ Within n P ⟨lit ||| 1 <<< j, bit⟩ ∧
      Within n P ⟨lit ||| 1 <<< j, bit ||| 1 <<< j⟩ := by
  have hbit : bit.testBit j = false := by
    by_contra hset
    rw [hnormal j (Bool.not_eq_false _ ▸ hset)] at hj
    exact absurd hj (by decide)
  have hlow : Sub ⟨lit, bit⟩ ⟨lit ||| 1 <<< j, bit⟩ := by
    intro k hk
    refine ⟨?_, rfl⟩
    show (lit ||| 1 <<< j).testBit k = true
    rw [Nat.testBit_or, hk, Bool.true_or]
  have hhigh : Sub ⟨lit, bit⟩ ⟨lit ||| 1 <<< j, bit ||| 1 <<< j⟩ := by
    intro k hk
    refine ⟨(hlow k hk).1, ?_⟩
    show bit.testBit k = (bit ||| 1 <<< j).testBit k
    have hne : j ≠ k := by
      rintro rfl
      exact absurd (hj.symm.trans hk) (by decide)
    rw [Nat.testBit_or, testBit_one_shiftLeft, decide_eq_false hne, Bool.or_false]
  constructor
  · intro h
    exact ⟨hlow.within h, hhigh.within h⟩
  · rintro ⟨h0, h1⟩ m hm hmatch
    cases hmj : m.testBit j with
    | false =>
      apply h0 m hm
      intro k hk
      rcases eq_or_ne j k with rfl | hne
      · rw [hmj]
        exact hbit.symm
      · rw [Nat.testBit_or, testBit_one_shiftLeft, decide_eq_false hne, Bool.or_false] at hk
        exact hmatch k hk
    | true =>
      apply h1 m hm
      intro k hk
      show m.testBit k = (bit ||| 1 <<< j).testBit k
      rw [Nat.testBit_or, testBit_one_shiftLeft]
      rcases eq_or_ne j k with rfl | hne
      · rw [hmj, decide_eq_true rfl, Bool.or_true]
      · rw [Nat.testBit_or, testBit_one_shiftLeft, decide_eq_false hne, Bool.or_false] at hk
        rw [decide_eq_false hne, Bool.or_false]
        exact hmatch k hk

lemma within_minterm {m : ℕ} (hm : m < 2 ^ n) : Within n P ⟨2 ^ n - 1, m⟩ ↔ P m := by
  constructor
  · intro h
    exact h m hm fun _ _ => rfl
  · intro h k hk hmatch
    have heq : k = m := by
      apply Nat.eq_of_testBit_eq
      intro i
      rcases lt_or_ge i n with hi | hi
      · apply hmatch i
        show (2 ^ n - 1).testBit i = true
        rw [Nat.testBit_two_pow_sub_one, decide_eq_true hi]
      · have hpow := Nat.pow_le_pow_right (Nat.zero_lt_two) hi
        rw [Nat.testBit_lt_two_pow (hk.trans_le hpow), Nat.testBit_lt_two_pow (hm.trans_le hpow)]
    rwa [heq]

end Prime

end Cube

end BooleanCubes
