import Mathlib

/-! Where a scan of the positions from `p` to `n` stops, and the lane masks of one wide load that find
such a place; words whose bytes are lanes of their own. -/

namespace LaneScan

open List

structure IsFirst (stop : ℕ → Prop) (p n q : ℕ) : Prop where
  le : p ≤ q
  le_end : q ≤ n
  before : ∀ i, p ≤ i → i < q → ¬ stop i
  stops : q < n → stop q

section First

variable {stop stop' extra missed : ℕ → Prop} {p m n q q' i : ℕ}

lemma IsFirst.le_of_stop (h : IsFirst stop p n q) (hi : p ≤ i) (hs : stop i) : q ≤ i := by
  by_contra hlt
  exact h.before i hi (not_le.mp hlt) hs

lemma IsFirst.le_of_weaker (h : IsFirst stop p n q) (h' : IsFirst stop' p n q')
    (hweaker : ∀ i, stop' i → stop i) : q ≤ q' := by
  rcases h'.le_end.lt_or_eq with hlt | heq
  · exact h.le_of_stop h'.le (hweaker q' (h'.stops hlt))
  · exact h.le_end.trans heq.ge

lemma IsFirst.unique (h : IsFirst stop p n q) (h' : IsFirst stop p n q') : q = q' :=
  le_antisymm (h.le_of_weaker h' fun _ hi => hi) (h'.le_of_weaker h fun _ hi => hi)

lemma IsFirst.extend (h : IsFirst stop m n q) (hpm : p ≤ m) (hfree : ∀ i, p ≤ i → i < m → ¬ stop i) :
    IsFirst stop p n q := by
  refine ⟨hpm.trans h.le, h.le_end, fun i hi hiq => ?_, h.stops⟩
  rcases lt_or_ge i m with him | hmi
  · exact hfree i hi him
  · exact h.before i hmi hiq

lemma IsFirst.congr (h : IsFirst stop p n q) (hstop : ∀ i, p ≤ i → i < n → (stop i ↔ stop' i)) :
    IsFirst stop' p n q := by
  refine ⟨h.le, h.le_end, fun i hi hiq hs => ?_, fun hlt => ?_⟩
  · exact h.before i hi hiq ((hstop i hi (hiq.trans_le h.le_end)).mpr hs)
  · exact (hstop q h.le hlt).mp (h.stops hlt)

lemma isFirst_here (hp : p < n) (hs : stop p) : IsFirst stop p n p :=
  ⟨le_rfl, hp.le, fun _ hi hlt => absurd hlt hi.not_gt, fun _ => hs⟩

lemma isFirst_end (stop : ℕ → Prop) (n : ℕ) : IsFirst stop n n n :=
  ⟨le_rfl, le_rfl, fun _ hi hlt => absurd hlt hi.not_gt, fun hlt => absurd hlt (lt_irrefl n)⟩

lemma IsFirst.widen (h : IsFirst stop p m q) (hq : q < m) (hm : m ≤ n) : IsFirst stop p n q :=
  ⟨h.le, hq.le.trans hm, h.before, fun _ => h.stops hq⟩

lemma IsFirst.eq_iff_of_or (h : IsFirst stop p n q)
    (h' : IsFirst (fun i => stop i ∨ extra i) p n q') :
    q' = q ↔ ∀ i, p ≤ i → i < q → ¬ extra i := by
  constructor
  · rintro rfl i hi hlt hextra
    exact h'.before i hi hlt (.inr hextra)
  · intro hfree
    refine le_antisymm (h'.le_of_weaker h fun i hi => .inl hi) (not_lt.mp fun hlt => ?_)
    rcases h'.stops (hlt.trans_le h.le_end) with hstop | hextra
    · exact h.before q' h'.le hlt hstop
    · exact hfree q' h'.le hlt hextra

lemma IsFirst.eq_iff_of_and (h : IsFirst stop p n q)
    (h' : IsFirst (fun i => stop i ∧ ¬ missed i) p n q') (hmissed : missed q → q < n) :
    q' = q ↔ ¬ missed q := by
  constructor
  · rintro rfl hm
    exact (h'.stops (hmissed hm)).2 hm
  · intro hseen
    refine le_antisymm (not_lt.mp fun hlt => ?_) (h.le_of_weaker h' fun i hi => hi.1)
    exact h'.before q h.le hlt ⟨h.stops (hlt.trans_le h'.le_end), hseen⟩

end First

section Mask

variable {w p lo hi off : ℕ} {f : ℕ → Bool} {mask mask' : BitVec w} {stop stop' : ℕ → Prop}

def movemask (w : ℕ) (f : ℕ → Bool) : BitVec w := BitVec.ofFnLE fun i => f i

def Selects (mask : BitVec w) (p lo hi : ℕ) (stop : ℕ → Prop) : Prop :=
  ∀ i < w, mask.getLsbD i = true ↔ lo ≤ i ∧ i < hi ∧ stop (p + i)

lemma selects_movemask (hf : ∀ i < w, f i = true ↔ stop (p + i)) :
    Selects (movemask w f) p 0 w stop := by
  intro i hi
  rw [movemask, BitVec.getLsbD_eq_getElem hi, BitVec.getElem_ofFnLE, hf i hi]
  exact ⟨fun hs => ⟨Nat.zero_le i, hi, hs⟩, fun hs => hs.2.2⟩

lemma Selects.congr (h : Selects mask p lo hi stop) (hstop : ∀ i, stop i ↔ stop' i) :
    Selects mask p lo hi stop' := fun i hi =>
  (h i hi).trans (and_congr .rfl (and_congr .rfl (hstop (p + i))))

section

variable (h : Selects mask p 0 w stop)
include h

lemma Selects.not : Selects (~~~mask) p 0 w fun i => ¬ stop i := by
  intro i hi
  rw [BitVec.getLsbD_not, Bool.and_eq_true, Bool.not_eq_true', decide_eq_true_eq,
    ← Bool.not_eq_true, h i hi]
  constructor
  · exact fun hs => ⟨Nat.zero_le i, hi, fun hstop => hs.2 ⟨Nat.zero_le i, hi, hstop⟩⟩
  · exact fun hs => ⟨hi, fun hstop => hs.2.2 hstop.2.2⟩

lemma Selects.or (h' : Selects mask' p 0 w stop') :
    Selects (mask ||| mask') p 0 w fun i => stop i ∨ stop' i := by
  intro i hi
  rw [BitVec.getLsbD_or, Bool.or_eq_true, h i hi, h' i hi]
  constructor
  · rintro (hs | hs)
    · exact ⟨hs.1, hs.2.1, .inl hs.2.2⟩
    · exact ⟨hs.1, hs.2.1, .inr hs.2.2⟩
  · rintro ⟨hlo, hhi, hs | hs⟩
    · exact .inl ⟨hlo, hhi, hs⟩
    · exact .inr ⟨hlo, hhi, hs⟩

lemma Selects.shiftRight (off : ℕ) :
    Selects (mask >>> off) (p + off) 0 (w - off) stop := by
  intro i hi
  rw [BitVec.getLsbD_ushiftRight]
  by_cases hin : off + i < w
  · rw [h _ hin, ← Nat.add_assoc]
    exact ⟨fun hs => ⟨Nat.zero_le i, by omega, hs.2.2⟩, fun hs => ⟨Nat.zero_le _, hin, hs.2.2⟩⟩
  · rw [BitVec.getLsbD_of_ge _ _ (not_lt.mp hin)]
    exact ⟨nofun, fun hs => absurd hs.2.1 (by omega)⟩

lemma Selects.clearBelow (hoff : off < w) :
    Selects (mask &&& ~~~((1#w <<< off) - 1#w)) p off w stop := by
  have hlow : (1#w <<< off) - 1#w = BitVec.ofNat w (2 ^ off - 1) := by
    apply BitVec.eq_of_toNat_eq
    have hpow : 2 ^ off < 2 ^ w := Nat.pow_lt_pow_right Nat.one_lt_two hoff
    have hpos : 1 ≤ 2 ^ off := Nat.one_le_two_pow
    have hone : 1 % 2 ^ w = 1 := Nat.mod_eq_of_lt (hpos.trans_lt hpow)
    rw [BitVec.toNat_sub, BitVec.toNat_shiftLeft, BitVec.toNat_ofNat, BitVec.toNat_ofNat, hone,
      Nat.shiftLeft_eq, one_mul, Nat.mod_eq_of_lt hpow,
      Nat.mod_eq_of_lt ((Nat.sub_le _ _).trans_lt hpow)]
    have hsplit : 2 ^ w - 1 + 2 ^ off = 2 ^ off - 1 + 2 ^ w := by omega
    rw [hsplit, Nat.add_mod_right, Nat.mod_eq_of_lt ((Nat.sub_le _ _).trans_lt hpow)]
  intro i hi
  have hbit : (BitVec.ofNat w (2 ^ off - 1)).getLsbD i = decide (i < off) := by
    rw [BitVec.getLsbD_ofNat, Nat.testBit_two_pow_sub_one, decide_eq_true hi, Bool.true_and]
  rw [hlow, BitVec.getLsbD_and, BitVec.getLsbD_not, hbit, decide_eq_true hi, Bool.true_and,
    Bool.and_eq_true, h i hi, Bool.not_eq_true', decide_eq_false_iff_not, not_lt]
  exact ⟨fun hs => ⟨hs.2, hs.1.2⟩, fun hs => ⟨⟨Nat.zero_le i, hs.2⟩, hs.1⟩⟩

end

lemma Selects.isFirst (h : Selects mask p lo hi stop) (hne : mask ≠ 0#w) :
    IsFirst stop (p + lo) (p + hi) (p + mask.ctz.toNat) ∧ p + mask.ctz.toNat < p + hi := by
  have hbit := BitVec.getLsbD_true_ctz_of_ne_zero hne
  have hlt : mask.ctz.toNat < w := BitVec.lt_of_getLsbD hbit
  obtain ⟨hlo, hhi, hstop⟩ := (h _ hlt).mp hbit
  refine ⟨⟨Nat.add_le_add_left hlo p, Nat.add_le_add_left hhi.le p, fun i hi hic hs => ?_,
    fun _ => hstop⟩, Nat.add_lt_add_left hhi p⟩
  obtain ⟨k, rfl⟩ := Nat.exists_eq_add_of_le ((Nat.le_add_right p lo).trans hi)
  have hk : k < mask.ctz.toNat := Nat.lt_of_add_lt_add_left hic
  have hclear := BitVec.getLsbD_false_of_lt_ctz hk
  have hset := (h k (hk.trans hlt)).mpr ⟨Nat.le_of_add_le_add_left hi, hk.trans hhi, hs⟩
  rw [hclear] at hset
  cases hset

lemma Selects.eq_zero_iff (h : Selects mask p lo hi stop) (hhi : hi ≤ w) :
    mask = 0#w ↔ ∀ i, p + lo ≤ i → i < p + hi → ¬ stop i := by
  constructor
  · rintro rfl i hi hlt hs
    obtain ⟨k, rfl⟩ := Nat.exists_eq_add_of_le ((Nat.le_add_right p lo).trans hi)
    have hset := (h k (by omega)).mpr ⟨by omega, by omega, hs⟩
    rw [BitVec.getLsbD_zero] at hset
    cases hset
  · intro hnone
    by_contra hne
    obtain ⟨hfirst, hlt⟩ := h.isFirst hne
    exact hnone _ hfirst.le hlt (hfirst.stops hlt)

end Mask

end LaneScan
