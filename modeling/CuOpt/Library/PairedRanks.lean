import Mathlib

/-! Numbers with labels, each paired with the next one of its label: the first with the second, the third
with the fourth. A pair is opened when its first member is passed. -/

namespace PairedRanks

variable {α : Type*} [DecidableEq α] (label : ℕ → α)

def seen (r k : ℕ) : ℕ := Nat.count (fun i => label i = label r) k

def rank (r : ℕ) : ℕ := seen label r r

def Opened (k r : ℕ) : Prop := 2 * (rank label r / 2) < seen label r k

variable {label} {r i k : ℕ}

lemma seen_congr (h : label r = label i) : seen label r = seen label i := by
  funext k
  simp only [seen, h]

lemma seen_succ_of_eq (h : label k = label r) : seen label r (k + 1) = seen label r k + 1 := by
  rw [seen, Nat.count_succ, if_pos h, ← seen]

lemma seen_succ_of_ne (h : label k ≠ label r) : seen label r (k + 1) = seen label r k := by
  rw [seen, Nat.count_succ, if_neg h, add_zero, ← seen]

lemma rank_eq_seen (h : label r = label k) : rank label k = seen label r k := by
  rw [rank, seen_congr h]

lemma rank_lt (h : label r = label i) (hlt : r < i) : rank label r < rank label i := by
  rw [rank_eq_seen h, rank]
  exact Nat.count_strict_mono rfl hlt

lemma rank_injective (h : label r = label i) (hrank : rank label r = rank label i) : r = i := by
  rcases lt_trichotomy r i with hlt | heq | hlt
  · exact absurd hrank (rank_lt h hlt).ne
  · exact heq
  · exact absurd hrank (rank_lt h.symm hlt).ne'

lemma rank_next (h : label i = label k) (hlt : k < i) (hnext : ∀ r, k < r → r < i → label r ≠ label k) :
    rank label i = rank label k + 1 := by
  have hstep : ∀ d, k + 1 + d ≤ i → seen label k (k + 1 + d) = seen label k k + 1 := by
    intro d
    induction d with
    | zero => exact fun _ => seen_succ_of_eq rfl
    | succ d ih =>
      intro hd
      rw [← add_assoc, seen_succ_of_ne (hnext _ (by omega) (by omega))]
      exact ih (by omega)
  obtain ⟨d, rfl⟩ := Nat.exists_eq_add_of_lt hlt
  rw [rank_eq_seen h.symm, rank, add_right_comm]
  exact hstep d (by omega)

lemma eq_or_eq_of_pair (hr : label r = label k) (hi : label i = label k)
    (hrank : rank label r / 2 = rank label k / 2) (hrank' : rank label i / 2 = rank label k / 2)
    (hne : r ≠ i) : k = r ∨ k = i := by
  have hri : rank label r ≠ rank label i := fun h => hne (rank_injective (hr.trans hi.symm) h)
  by_contra hnot
  rw [not_or] at hnot
  have hkr : rank label k ≠ rank label r := fun h => hnot.1 (rank_injective hr.symm h)
  have hki : rank label k ≠ rank label i := fun h => hnot.2 (rank_injective hi.symm h)
  omega

lemma rank_div_two_eq_zero (h : ∀ k, label k = label r → k = r ∨ k = i) : rank label r / 2 = 0 := by
  have hle : rank label r ≤ 1 := by
    rw [rank, seen, Nat.count_eq_card_filter_range]
    apply Finset.card_le_one.mpr
    intro k hk k' hk'
    rw [Finset.mem_filter, Finset.mem_range] at hk hk'
    have heq := (h k hk.2).resolve_left hk.1.ne
    exact heq.trans ((h k' hk'.2).resolve_left hk'.1.ne).symm
  omega

lemma rank_congr {β : Type*} [DecidableEq β] {label' : ℕ → β}
    (h : ∀ k, label k = label r ↔ label' k = label' r) : rank label r = rank label' r := by
  simp only [rank, seen, h]

lemma opened_self_iff : Opened label k k ↔ rank label k % 2 = 1 := by
  rw [Opened, ← rank]
  omega

lemma opened_of_lt (h : r < k) : Opened label k r := by
  have hlt : rank label r < seen label r k := by
    rw [rank]
    exact Nat.count_strict_mono rfl h
  rw [Opened]
  omega

lemma opened_succ_of_ne (h : label k ≠ label r) : Opened label (k + 1) r ↔ Opened label k r := by
  rw [Opened, Opened, seen_succ_of_ne h]

lemma seen_succ (h : label r = label k) : seen label r (k + 1) = rank label k + 1 := by
  rw [seen_succ_of_eq h.symm, rank_eq_seen h]

lemma opened_iff (h : label r = label k) :
    Opened label k r ↔ 2 * (rank label r / 2) < rank label k := by
  rw [Opened, rank_eq_seen h]

lemma opened_succ_iff (h : label r = label k) :
    Opened label (k + 1) r ↔ 2 * (rank label r / 2) < rank label k + 1 := by
  rw [Opened, seen_succ h]

lemma opened_succ_of_odd (h : label r = label k) (hodd : rank label k % 2 = 1) :
    Opened label (k + 1) r ↔ Opened label k r := by
  rw [opened_succ_iff h, opened_iff h]
  omega

lemma not_opened_of_lt (h : label i = label k) (hlt : k < i) (heven : rank label k % 2 = 0) :
    ¬Opened label k i := by
  have hrank := rank_lt h.symm hlt
  rw [opened_iff h]
  omega

section

variable (h : label r = label k) (heven : rank label k % 2 = 0)
include h heven

lemma opened_succ_of_next (hi : label i = label k) (hrank : rank label i = rank label k + 1) :
    Opened label (k + 1) r ↔ Opened label k r ∨ r = k ∨ r = i := by
  rw [opened_succ_iff h, opened_iff h]
  constructor
  · intro hopen
    rcases (by omega : 2 * (rank label r / 2) < rank label k ∨ rank label r = rank label k ∨
      rank label r = rank label i) with hlt | heq | heq
    · exact .inl hlt
    · exact .inr (.inl (rank_injective h heq))
    · exact .inr (.inr (rank_injective (h.trans hi.symm) heq))
  · rintro (hlt | rfl | rfl)
    · omega
    · omega
    · omega

lemma opened_succ_of_last (hlast : ∀ i, k < i → label i ≠ label k) :
    Opened label (k + 1) r ↔ Opened label k r ∨ r = k := by
  rw [opened_succ_iff h, opened_iff h]
  constructor
  · intro hopen
    rcases lt_trichotomy r k with hlt | heq | hlt
    · have hrank := rank_lt h hlt
      exact .inl (by omega)
    · exact .inr heq
    · exact absurd h (hlast r hlt)
  · rintro (hlt | rfl)
    · omega
    · omega

lemma eq_of_pair (hpair : rank label r / 2 = rank label k / 2) :
    r = k ∨ rank label r = rank label k + 1 := by
  rcases (by omega : rank label r = rank label k ∨ rank label r = rank label k + 1) with heq | heq
  · exact .inl (rank_injective h heq)
  · exact .inr heq

end

end PairedRanks
