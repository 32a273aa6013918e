import CuOpt.Library.IntegralScaling

/-! Signed 64-bit integers whose products wrap, and the least common multiple of a list of them in the
order of any reduction. -/

namespace WrappingInt

open IntegralScaling List
open Int (natAbs)

/-- The signed 64-bit integer that is congruent to `z`. -/
def wrap (z : ℤ) : ℤ := z.bmod (2 ^ 64)

def InRange (z : ℤ) : Prop := -2 ^ 63 ≤ z ∧ z < 2 ^ 63

instance (z : ℤ) : Decidable (InRange z) := inferInstanceAs (Decidable (_ ∧ _))

lemma inRange_wrap (z : ℤ) : InRange (wrap z) := by
  have hlo := Int.le_bmod (x := z) (show 0 < 2 ^ 64 by norm_num)
  have hhi := Int.bmod_lt (x := z) (show 0 < 2 ^ 64 by norm_num)
  rw [InRange, wrap]
  norm_num at hlo hhi ⊢
  omega

lemma wrap_eq_self {z : ℤ} (h : InRange z) : wrap z = z := by
  obtain ⟨hlo, hhi⟩ := h
  apply Int.bmod_eq_of_le
  · norm_num at hlo ⊢
    omega
  · norm_num at hhi ⊢
    omega

lemma inRange_natCast {n : ℕ} (h : n < 2 ^ 63) : InRange n := by
  rw [InRange]
  norm_num at h ⊢
  omega

lemma exists_wrap_eq (z : ℤ) : ∃ k : ℤ, wrap z = z - 2 ^ 64 * k :=
  ⟨_, Int.bmod_eq_self_sub_mul_bdiv z (2 ^ 64)⟩

lemma wrap_eq_of_near {z : ℤ} (h : |wrap z - z| < 2 ^ 64) : wrap z = z := by
  obtain ⟨k, hk⟩ := exists_wrap_eq z
  have hzero : k = 0 := by
    rw [hk, sub_sub_cancel_left, abs_neg, abs_mul] at h
    by_contra hne
    have hone : 1 ≤ |k| := Int.one_le_abs hne
    norm_num at h
    omega
  rw [hk, hzero, mul_zero, sub_zero]

lemma wrap_mul_add_wrap (a b c : ℤ) : wrap (a * wrap b + wrap c) = wrap (a * b + c) := by
  rw [wrap, wrap, wrap, wrap, Int.add_bmod_bmod, Int.add_bmod, Int.mul_bmod_bmod, ← Int.add_bmod]

def gcd64 (a b : ℤ) : ℤ := wrap (Int.gcd a b)

lemma natAbs_wrap {g : ℕ} (h : g ≤ 2 ^ 63) : (wrap g).natAbs = g := by
  rcases h.lt_or_eq with hlt | rfl
  · rw [wrap_eq_self (inRange_natCast hlt), Int.natAbs_natCast]
  · decide

lemma natAbs_le_of_inRange {a : ℤ} (h : InRange a) : a.natAbs ≤ 2 ^ 63 := by
  obtain ⟨hlo, hhi⟩ := h
  norm_num at hlo hhi ⊢
  omega

lemma natAbs_gcd64 {a b : ℤ} (ha : InRange a) (hb : InRange b) :
    (gcd64 a b).natAbs = Int.gcd a b := by
  apply natAbs_wrap
  rcases eq_or_ne a 0 with rfl | hne
  · rw [Int.gcd_zero_left]
    exact natAbs_le_of_inRange hb
  · exact (Nat.le_of_dvd (Int.natAbs_pos.mpr hne) (Int.gcd_dvd_natAbs_left a b)).trans
      (natAbs_le_of_inRange ha)

lemma foldl_gcd64 {a : ℤ} {l : List ℤ} (ha : InRange a) (hl : ∀ b ∈ l, InRange b) :
    (l.foldl gcd64 a).natAbs = gcdOf (a :: l) := by
  induction l generalizing a with
  | nil => simp
  | cons b l ih =>
    obtain ⟨hb, hl⟩ := forall_mem_cons.mp hl
    have hrange : InRange (gcd64 a b) := inRange_wrap _
    rw [foldl_cons, ih hrange hl, gcdOf_cons, natAbs_gcd64 ha hb, gcdOf_cons, gcdOf_cons,
      Int.gcd_eq_natAbs_gcd_natAbs, Nat.gcd_assoc]

def lcm64 (a b : ℤ) : ℤ :=
  if a = 0 ∨ b = 0 then 0 else wrap (a.natAbs / Int.gcd a b * b.natAbs)

lemma inRange_lcm64 (a b : ℤ) : InRange (lcm64 a b) := by
  rw [lcm64]
  split_ifs
  · decide
  · exact inRange_wrap _

lemma lcm64_eq {a b : ℕ} (ha : 0 < a) (hb : 0 < b) (h : Nat.lcm a b < 2 ^ 63) :
    lcm64 a b = Nat.lcm a b := by
  have hprod : ((a : ℤ).natAbs / Int.gcd a b * (b : ℤ).natAbs : ℤ) = (Nat.lcm a b : ℤ) := by
    rw [Int.gcd_natCast_natCast, Int.natAbs_natCast, Int.natAbs_natCast, Nat.lcm,
      Nat.mul_comm, Nat.mul_div_assoc _ (Nat.gcd_dvd_left a b)]
    push_cast
    ring
  rw [lcm64, if_neg (by omega), hprod]
  exact wrap_eq_self (inRange_natCast h)

/-- The values that a reduction may give: the list is split and permuted in any way. -/
inductive Reduced (op : ℤ → ℤ → ℤ) : List ℤ → ℤ → Prop
  | single (a : ℤ) : Reduced op [a] a
  | join {l l' m : List ℤ} {a b : ℤ} (left : Reduced op l a) (right : Reduced op l' b)
      (perm : m.Perm (l ++ l')) : Reduced op m (op a b)

structure Reducer where
  reduce : (ℤ → ℤ → ℤ) → ℤ → List ℤ → ℤ
  reduced : ∀ op init l, Reduced op (init :: l) (reduce op init l)

lemma reduced_foldl (op : ℤ → ℤ → ℤ) {m : List ℤ} {a : ℤ} (h : Reduced op m a) (l : List ℤ) :
    Reduced op (m ++ l) (l.foldl op a) := by
  induction l generalizing m a with
  | nil => rwa [append_nil]
  | cons b l ih =>
    have hnext := ih (h.join (Reduced.single b) (.refl _))
    rwa [append_assoc] at hnext

def leftReducer : Reducer where
  reduce op init l := l.foldl op init
  reduced op init l := reduced_foldl op (Reduced.single init) l

lemma Reduced.inRange {l : List ℤ} {a : ℤ} (h : Reduced lcm64 l a) (hl : ∀ d ∈ l, InRange d) :
    InRange a := by
  cases h with
  | single => exact hl a (mem_singleton_self a)
  | join => exact inRange_lcm64 _ _

lemma Reduced.eq_lcmOf {l : List ℤ} {a : ℤ} (h : Reduced lcm64 l a) (hpos : ∀ d ∈ l, 0 < d)
    (hlt : lcmOf (l.map natAbs) < 2 ^ 63) : a = lcmOf (l.map natAbs) := by
  induction h with
  | single a =>
    have ha : 0 < a := hpos a (mem_singleton_self a)
    rw [map_singleton, lcmOf_cons, lcmOf_nil, Nat.lcm_one_right]
    omega
  | @join l l' m a b _ _ hperm ihl ihr =>
    have hm : lcmOf (m.map natAbs) =
        Nat.lcm (lcmOf (l.map natAbs)) (lcmOf (l'.map natAbs)) := by
      rw [lcmOf_perm (hperm.map natAbs), map_append, lcmOf_append]
    have hleft : ∀ d ∈ l, 0 < d := fun d hd => hpos d (hperm.mem_iff.mpr (mem_append_left _ hd))
    have hright : ∀ d ∈ l', 0 < d := fun d hd => hpos d (hperm.mem_iff.mpr (mem_append_right _ hd))
    have hnat : ∀ l : List ℤ, (∀ d ∈ l, 0 < d) → 0 < lcmOf (l.map natAbs) := by
      intro l hl
      apply lcmOf_pos
      intro d hd
      obtain ⟨z, hz, rfl⟩ := mem_map.mp hd
      exact Int.natAbs_pos.mpr (hl z hz).ne'
    rw [hm] at hlt ⊢
    have hle := Nat.le_of_dvd (Nat.lcm_pos (hnat l hleft) (hnat l' hright)) (Nat.dvd_lcm_left _ _)
    have hle' := Nat.le_of_dvd (Nat.lcm_pos (hnat l hleft) (hnat l' hright)) (Nat.dvd_lcm_right _ _)
    rw [ihl hleft (hle.trans_lt hlt), ihr hright (hle'.trans_lt hlt)]
    exact lcm64_eq (hnat l hleft) (hnat l' hright) hlt

end WrappingInt
