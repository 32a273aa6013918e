import Mathlib

/-! Colors for equal keys: the elements are sorted by their keys, and along the sorted list a new color
starts where a new key does. -/

namespace KeyColors

open List Function

variable {β : Type*}

/-- The colors given so far, the current one and the key at which it started. -/
structure Sweep (β : Type*) where
  colors : ℕ → ℕ
  color : ℕ
  last : β

def sweepStep (starts : β → β → Bool) (key : ℕ → β) (s : Sweep β) (j : ℕ) : Sweep β :=
  if starts s.last (key j) then ⟨update s.colors j (s.color + 1), s.color + 1, key j⟩
  else { s with colors := update s.colors j s.color }

def sweep (starts : β → β → Bool) (key : ℕ → β) (color : ℕ) (perm : List ℕ) : Sweep β :=
  perm.tail.foldl (sweepStep starts key)
    ⟨update (fun _ => 0) (perm.headD 0) color, color, key (perm.headD 0)⟩

section Ranks

variable [LinearOrder β] {starts : β → β → Bool} {key : ℕ → β} {color : ℕ} {s : Sweep β}
  {done perm : List ℕ}

structure Ranked (key : ℕ → β) (color : ℕ) (done : List ℕ) (s : Sweep β) : Prop where
  reached : ∃ a ∈ done, key a = s.last ∧ s.colors a = s.color
  le_last : ∀ a ∈ done, key a ≤ s.last
  order : ∀ a ∈ done, ∀ b ∈ done, s.colors a < s.colors b ↔ key a < key b
  le_color : ∀ a ∈ done, color ≤ s.colors a ∧ s.colors a ≤ s.color

lemma ranked_start (key : ℕ → β) (color j : ℕ) :
    Ranked key color [j] ⟨update (fun _ => 0) j color, color, key j⟩ := by
  have hcolor : update (fun _ => 0) j color j = color := update_self _ _ _
  refine ⟨⟨j, mem_singleton_self j, rfl, hcolor⟩, ?_, ?_, ?_⟩
  · intro a ha
    rw [mem_singleton.mp ha]
  · intro a ha b hb
    rw [mem_singleton.mp ha, mem_singleton.mp hb]
    exact iff_of_false (lt_irrefl _) (lt_irrefl _)
  · intro a ha
    rw [mem_singleton.mp ha]
    exact ⟨hcolor.ge, hcolor.le⟩

lemma Ranked.fresh (h : Ranked key color done s) {j : ℕ} (hj : j ∉ done) (hlt : s.last < key j) :
    Ranked key color (done ++ [j])
      ⟨update s.colors j (s.color + 1), s.color + 1, key j⟩ := by
  have hself : update s.colors j (s.color + 1) j = s.color + 1 := update_self _ _ _
  have hold : ∀ a ∈ done, update s.colors j (s.color + 1) a = s.colors a := fun a ha =>
    update_of_ne (ne_of_mem_of_not_mem ha hj) _ _
  refine ⟨⟨j, mem_append_right _ (mem_singleton_self j), rfl, hself⟩, ?_, ?_, ?_⟩
  · intro a ha
    rcases mem_append.mp ha with ha | ha
    · exact (h.le_last a ha).trans hlt.le
    · rw [mem_singleton.mp ha]
  · intro a ha b hb
    dsimp only
    rcases mem_append.mp ha with ha | ha
    · rcases mem_append.mp hb with hb | hb
      · rw [hold a ha, hold b hb]
        exact h.order a ha b hb
      · rw [mem_singleton.mp hb, hold a ha, hself]
        exact iff_of_true (Nat.lt_succ_of_le (h.le_color a ha).2) ((h.le_last a ha).trans_lt hlt)
    · rw [mem_singleton.mp ha, hself]
      rcases mem_append.mp hb with hb | hb
      · rw [hold b hb]
        exact iff_of_false (Nat.not_lt.mpr ((h.le_color b hb).2.trans (Nat.le_succ _)))
          (not_lt.mpr ((h.le_last b hb).trans hlt.le))
      · rw [mem_singleton.mp hb, hself]
        exact iff_of_false (lt_irrefl _) (lt_irrefl _)
  · intro a ha
    dsimp only
    rcases mem_append.mp ha with ha | ha
    · rw [hold a ha]
      exact ⟨(h.le_color a ha).1, (h.le_color a ha).2.trans (Nat.le_succ _)⟩
    · obtain ⟨e, he, -⟩ := h.reached
      rw [mem_singleton.mp ha, hself]
      exact ⟨((h.le_color e he).1.trans (h.le_color e he).2).trans (Nat.le_succ _), le_rfl⟩

lemma Ranked.same (h : Ranked key color done s) {j : ℕ} (hj : j ∉ done) (heq : key j = s.last) :
    Ranked key color (done ++ [j]) { s with colors := update s.colors j s.color } := by
  obtain ⟨e, he, hkey, hcolor⟩ := h.reached
  have hself : update s.colors j s.color j = s.colors e :=
    (update_self _ _ _).trans hcolor.symm
  have hold : ∀ a ∈ done, update s.colors j s.color a = s.colors a := fun a ha =>
    update_of_ne (ne_of_mem_of_not_mem ha hj) _ _
  -- the new element stands for the one that reached the current color
  have htwin : ∀ a ∈ done ++ [j], ∃ a' ∈ done,
      update s.colors j s.color a = s.colors a' ∧ key a = key a' := by
    intro a ha
    rcases mem_append.mp ha with ha | ha
    · exact ⟨a, ha, hold a ha, rfl⟩
    · obtain rfl := mem_singleton.mp ha
      exact ⟨e, he, hself, heq.trans hkey.symm⟩
  refine ⟨⟨e, mem_append_left _ he, hkey, (hold e he).trans hcolor⟩, ?_, ?_, ?_⟩
  · intro a ha
    obtain ⟨a', ha', -, hkey'⟩ := htwin a ha
    exact hkey' ▸ h.le_last a' ha'
  · intro a ha b hb
    obtain ⟨a', ha', hcolor', hkey'⟩ := htwin a ha
    obtain ⟨b', hb', hcolor'', hkey''⟩ := htwin b hb
    dsimp only
    rw [hcolor', hcolor'', hkey', hkey'']
    exact h.order a' ha' b' hb'
  · intro a ha
    obtain ⟨a', ha', hcolor', -⟩ := htwin a ha
    dsimp only
    rw [hcolor']
    exact h.le_color a' ha'

section

variable (hstarts : ∀ v w, v ≤ w → (starts v w = true ↔ v < w))
include hstarts

lemma Ranked.step (h : Ranked key color done s) {j : ℕ} (hj : j ∉ done) (hle : s.last ≤ key j) :
    Ranked key color (done ++ [j]) (sweepStep starts key s j) := by
  have hiff := hstarts s.last (key j) hle
  rw [sweepStep]
  by_cases hlt : s.last < key j
  · rw [if_pos (hiff.mpr hlt)]
    exact h.fresh hj hlt
  · rw [if_neg fun hstart => hlt (hiff.mp hstart)]
    exact h.same hj (le_antisymm (not_lt.mp hlt) hle)

lemma Ranked.run {rest : List ℕ} (h : Ranked key color done s) (hnodup : (done ++ rest).Nodup)
    (hsorted : (done ++ rest).Pairwise fun a b => key a ≤ key b) :
    Ranked key color (done ++ rest) (rest.foldl (sweepStep starts key) s) := by
  induction rest generalizing done s with
  | nil => rwa [append_nil]
  | cons j rest ih =>
    have hsplit : done ++ j :: rest = (done ++ [j]) ++ rest := by rw [append_assoc]; rfl
    have hj : j ∉ done := fun hmem =>
      (nodup_append.mp hnodup).2.2 j hmem j mem_cons_self rfl
    have hle : s.last ≤ key j := by
      obtain ⟨e, he, hkey, -⟩ := h.reached
      rw [← hkey]
      exact (pairwise_append.mp hsorted).2.2 e he j mem_cons_self
    rw [hsplit] at hnodup hsorted ⊢
    exact ih (h.step hstarts hj hle) hnodup hsorted

lemma sweep_ranked (hperm : perm ≠ []) (hnodup : perm.Nodup)
    (hsorted : perm.Pairwise fun a b => key a ≤ key b) :
    Ranked key color perm (sweep starts key color perm) := by
  cases perm with
  | nil => exact absurd rfl hperm
  | cons j rest => exact (ranked_start key color j).run hstarts hnodup hsorted

end

lemma Ranked.colors_eq_iff (h : Ranked key color done s) {a b : ℕ} (ha : a ∈ done) (hb : b ∈ done) :
    s.colors a = s.colors b ↔ key a = key b := by
  constructor
  · intro heq
    have hle := mt (h.order a ha b hb).mpr (not_lt.mpr heq.ge)
    have hge := mt (h.order b hb a ha).mpr (not_lt.mpr heq.le)
    exact le_antisymm (not_lt.mp hge) (not_lt.mp hle)
  · intro heq
    have hle := mt (h.order a ha b hb).mp (not_lt.mpr heq.ge)
    have hge := mt (h.order b hb a ha).mp (not_lt.mpr heq.le)
    exact le_antisymm (not_lt.mp hge) (not_lt.mp hle)

end Ranks

def sortedIndices (less : ℕ → ℕ → Bool) (n : ℕ) : List ℕ :=
  (range n).mergeSort fun a b => !less b a

section Sorting

variable {less : ℕ → ℕ → Bool} {n : ℕ}

lemma mem_sortedIndices {j : ℕ} : j ∈ sortedIndices less n ↔ j < n :=
  ((mergeSort_perm _ _).mem_iff).trans mem_range

lemma nodup_sortedIndices : (sortedIndices less n).Nodup :=
  (mergeSort_perm _ _).nodup_iff.mpr nodup_range

lemma sortedIndices_ne_nil (hn : n ≠ 0) : sortedIndices less n ≠ [] :=
  ne_nil_of_mem (mem_sortedIndices.mpr (Nat.pos_of_ne_zero hn))

lemma sortedIndices_pairwise [LinearOrder β] {key : ℕ → β}
    (hless : ∀ a b, less a b = true ↔ key a < key b) :
    (sortedIndices less n).Pairwise fun a b => key a ≤ key b := by
  have hle : ∀ a b, (!less b a) = true ↔ key a ≤ key b := by
    intro a b
    rw [Bool.not_eq_true', ← Bool.not_eq_true, hless, not_lt]
  have hsorted : (sortedIndices less n).Pairwise fun a b => (!less b a) = true := by
    apply pairwise_mergeSort
    · intro a b c hab hbc
      exact (hle a c).mpr (((hle a b).mp hab).trans ((hle b c).mp hbc))
    · intro a b
      rw [Bool.or_eq_true, hle, hle]
      exact le_total _ _
  exact hsorted.imp fun h => (hle _ _).mp h

lemma sortedIndices_eq_range (h : (range n).Pairwise fun a b => (!less b a) = true) :
    sortedIndices less n = range n := mergeSort_of_pairwise h

end Sorting

end KeyColors
