import Mathlib

/-! Numbers as sets of positions: the set bits, setting one of them and flipping it. -/

namespace BitMasks

def support (k mask : ℕ) : Finset ℕ := (Finset.range k).filter fun i => mask.testBit i = true

lemma mem_support {k mask i : ℕ} : i ∈ support k mask ↔ i < k ∧ mask.testBit i = true := by
  rw [support, Finset.mem_filter, Finset.mem_range]

lemma exists_mask {k : ℕ} {s : Finset ℕ} (hs : s ⊆ Finset.range k) :
    ∃ mask < 2 ^ k, support k mask = s := by
  refine ⟨Nat.ofBits fun i : Fin k => decide (i.1 ∈ s), Nat.ofBits_lt_two_pow _, ?_⟩
  ext i
  rw [mem_support]
  constructor
  · rintro ⟨hi, hbit⟩
    rw [Nat.testBit_ofBits_lt _ i hi] at hbit
    exact of_decide_eq_true hbit
  · intro hi
    have hk : i < k := Finset.mem_range.mp (hs hi)
    refine ⟨hk, ?_⟩
    rw [Nat.testBit_ofBits_lt _ i hk]
    exact decide_eq_true hi

lemma support_set {k i : ℕ} (hi : i < k) (mask : ℕ) :
    support k (mask ||| 1 <<< i) = insert i (support k mask) := by
  ext j
  rw [Finset.mem_insert, mem_support, mem_support, Nat.testBit_or, Nat.one_shiftLeft,
    Nat.testBit_two_pow, Bool.or_eq_true, decide_eq_true_eq]
  constructor
  · rintro ⟨hj, hbit | heq⟩
    · exact .inr ⟨hj, hbit⟩
    · exact .inl heq.symm
  · rintro (rfl | ⟨hj, hbit⟩)
    · exact ⟨hi, .inr rfl⟩
    · exact ⟨hj, .inl hbit⟩

lemma support_flip {k i mask : ℕ} (hbit : mask.testBit i = true) :
    support k (mask ^^^ 1 <<< i) = (support k mask).erase i := by
  ext j
  rw [Finset.mem_erase, mem_support, mem_support, Nat.testBit_xor, Nat.one_shiftLeft,
    Nat.testBit_two_pow]
  rcases eq_or_ne i j with rfl | hne
  · simp [hbit]
  · simp [hne, hne.symm]

end BitMasks
