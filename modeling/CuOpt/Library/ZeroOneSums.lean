import Mathlib

/-! Lists of zeros and ones in which certain pairs are never both one: cliques, odd closed chains, and
cliques joined to such chains. -/

namespace ZeroOneSums

open List

variable {α : Type*} {f : α → ℚ}

lemma exists_int_sum {l : List α} (hf : ∀ a ∈ l, f a = 0 ∨ f a = 1) :
    ∃ k : ℤ, (l.map f).sum = k := by
  induction l with
  | nil => exact ⟨0, by simp⟩
  | cons a l ih =>
    obtain ⟨k, hk⟩ := ih fun b hb => hf b (mem_cons_of_mem a hb)
    rcases hf a mem_cons_self with h | h
    · exact ⟨k, by simp [h, hk]⟩
    · exact ⟨1 + k, by simp [h, hk]⟩

lemma sum_eq_zero {l : List α} (h : ∀ a ∈ l, f a = 0) : (l.map f).sum = 0 := by
  refine List.sum_eq_zero fun y hy => ?_
  obtain ⟨a, ha, rfl⟩ := mem_map.mp hy
  exact h a ha

lemma eq_zero_of_conflict {a b : α} (hb : f b = 0 ∨ f b = 1) (h : f a + f b ≤ 1)
    (ha : f a = 1) : f b = 0 := by
  rcases hb with hb | hb
  · exact hb
  · rw [ha, hb] at h
    norm_num at h

lemma sum_le_one {l : List α} (hf : ∀ a ∈ l, f a = 0 ∨ f a = 1)
    (h : l.Pairwise fun a b => f a + f b ≤ 1) : (l.map f).sum ≤ 1 := by
  induction l with
  | nil => simp
  | cons a l ih =>
    obtain ⟨ha, hl⟩ := pairwise_cons.mp h
    rw [map_cons, sum_cons]
    have hrest : ∀ b ∈ l, f b = 0 ∨ f b = 1 := fun b hb => hf b (mem_cons_of_mem a hb)
    rcases hf a mem_cons_self with hzero | hone
    · rw [hzero, zero_add]
      exact ih hrest hl
    · rw [hone, sum_eq_zero fun b hb => eq_zero_of_conflict (hrest b hb) (ha b hb) hone, add_zero]

lemma sum_dropLast_add_tail_le {p : List α} (h : p.IsChain fun a b => f a + f b ≤ 1) :
    (p.dropLast.map f).sum + (p.tail.map f).sum ≤ (p.length - 1 : ℕ) := by
  induction p with
  | nil => simp
  | cons a p ih =>
    cases p with
    | nil => simp
    | cons b p =>
      obtain ⟨hab, hp⟩ := isChain_cons_cons.mp h
      have hrest := ih hp
      simp only [dropLast_cons_cons, map_cons, sum_cons, tail_cons,
        length_cons, Nat.add_sub_cancel] at hrest ⊢
      push_cast at hrest ⊢
      linarith

lemma sum_tail_eq_sum_dropLast {p : List α} (h : p.head? = p.getLast?) :
    (p.tail.map f).sum = (p.dropLast.map f).sum := by
  cases p with
  | nil => rfl
  | cons a p =>
    have hlast : (a :: p).getLast? = some a := h.symm
    obtain ⟨q, hq⟩ := getLast?_eq_some_iff.mp hlast
    have hsum := congrArg (fun l => (l.map f).sum) hq
    simp only [map_cons, sum_cons, map_append, sum_append, map_nil, sum_nil, add_zero] at hsum
    rw [hq, dropLast_concat]
    have htail : (q ++ [a]).tail = p := by rw [← hq, tail_cons]
    rw [htail]
    linarith

lemma sum_le_of_closed {p : List α} {m : ℕ} (hf : ∀ a ∈ p, f a = 0 ∨ f a = 1)
    (hchain : p.IsChain fun a b => f a + f b ≤ 1) (hclosed : p.head? = p.getLast?)
    (hlength : p.length = 2 * m + 2) : (p.dropLast.map f).sum ≤ m := by
  have hle := sum_dropLast_add_tail_le hchain
  rw [sum_tail_eq_sum_dropLast hclosed, hlength] at hle
  obtain ⟨k, hk⟩ := exists_int_sum fun a ha => hf a (mem_of_mem_dropLast ha)
  rw [hk] at hle ⊢
  have hint : k + k ≤ 2 * m + 1 := by
    have hcast : (2 * m + 2 - 1 : ℕ) = 2 * m + 1 := by omega
    rw [hcast] at hle
    exact_mod_cast hle
  have hhalf : k ≤ m := by omega
  exact_mod_cast hhalf

lemma sum_add_mul_sum_le {l centers : List α} {m : ℚ} (hl : ∀ a ∈ l, f a = 0 ∨ f a = 1)
    (hcenters : ∀ a ∈ centers, f a = 0 ∨ f a = 1) (hm : (l.map f).sum ≤ m)
    (hclique : centers.Pairwise fun a b => f a + f b ≤ 1)
    (hall : ∀ a ∈ centers, ∀ b ∈ l, f a + f b ≤ 1) :
    (l.map f).sum + m * (centers.map f).sum ≤ m := by
  by_cases hone : ∃ a ∈ centers, f a = 1
  · obtain ⟨a, ha, hone⟩ := hone
    have hzero : (l.map f).sum = 0 :=
      sum_eq_zero fun b hb => eq_zero_of_conflict (hl b hb) (hall a ha b hb) hone
    have hnonneg : 0 ≤ m := hzero ▸ hm
    rw [hzero, zero_add]
    exact mul_le_of_le_one_right hnonneg (sum_le_one hcenters hclique)
  · have hzero : (centers.map f).sum = 0 := by
      refine sum_eq_zero fun a ha => (hcenters a ha).resolve_right fun h => hone ⟨a, ha, h⟩
    rw [hzero, mul_zero, add_zero]
    exact hm

end ZeroOneSums
