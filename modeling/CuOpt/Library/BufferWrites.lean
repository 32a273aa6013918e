import Mathlib

/-! A buffer that a loop writes, each value computed from cells that the loop leaves alone. -/

namespace BufferWrites

open List

variable {ι α : Type*}

lemma getD_set (l : List α) (i j : ℕ) (v d : α) :
    (l.set i v).getD j d = if i = j ∧ j < l.length then v else l.getD j d := by
  rw [getD_eq_getElem?_getD, getD_eq_getElem?_getD, getElem?_set]
  split_ifs with heq hlt hboth hboth
  · rfl
  · exact absurd ⟨heq, heq ▸ hlt⟩ hboth
  · exact absurd (heq ▸ hboth.2) hlt
  · rw [← heq, getElem?_eq_none (not_lt.mp hlt)]
  · exact absurd ‹_ ∧ _›.1 heq
  · rfl

lemma getD_map_range (f : ℕ → α) {n k : ℕ} (hk : k < n) (d : α) :
    ((range n).map f).getD k d = f k := by
  rw [getD_eq_getElem _ _ (by rwa [length_map, length_range]), getElem_map, getElem_range]

lemma getD_map_range_of_le (f : ℕ → α) {n k : ℕ} (hk : n ≤ k) (d : α) :
    ((range n).map f).getD k d = d := by
  rw [getD_eq_getElem?_getD, getElem?_eq_none (by rwa [length_map, length_range])]
  rfl

lemma getD_mapIdx {β : Type*} (l : List α) (f : ℕ → α → β) (d : α) (e : β) {r : ℕ}
    (hr : r < l.length) : (l.mapIdx f).getD r e = f r (l.getD r d) := by
  have hr' : r < (l.mapIdx f).length := by rwa [length_mapIdx]
  rw [getD_eq_getElem _ _ hr', getD_eq_getElem _ _ hr, getElem_mapIdx]

def writeAll (place : ι → ℕ) (value : List α → ι → α) (buffer : List α) (l : List ι) : List α :=
  l.foldl (fun b x => b.set (place x) (value b x)) buffer

variable {place : ι → ℕ} {value : List α → ι → α} {d : α}

@[simp] lemma length_writeAll (buffer : List α) (l : List ι) :
    (writeAll place value buffer l).length = buffer.length := by
  induction l generalizing buffer with
  | nil => rfl
  | cons x l ih =>
    rw [writeAll, foldl_cons]
    exact (ih _).trans length_set

lemma getD_writeAll_of_ne {buffer : List α} {l : List ι} {c : ℕ}
    (h : ∀ x ∈ l, place x ≠ c) : (writeAll place value buffer l).getD c d = buffer.getD c d := by
  induction l generalizing buffer with
  | nil => rfl
  | cons x l ih =>
    rw [writeAll, foldl_cons]
    refine (ih fun y hy => h y (mem_cons_of_mem x hy)).trans ?_
    rw [getD_set, if_neg fun heq => h x mem_cons_self heq.1]

variable (place) in
/-- A pass writes the value it would have found in the buffer before the loop. -/
theorem getD_writeAll (written : ℕ → Prop) {buffer : List α} {l : List ι}
    (hwritten : ∀ x ∈ l, written (place x))
    (hread : ∀ b b' : List α, (∀ c, ¬ written c → b.getD c d = b'.getD c d) →
      ∀ x ∈ l, value b x = value b' x) (hinj : ∀ x ∈ l, ∀ y ∈ l, place x = place y → x = y)
    {x : ι} (hx : x ∈ l) (hlt : place x < buffer.length) :
    (writeAll place value buffer l).getD (place x) d = value buffer x := by
  induction l generalizing buffer with
  | nil => exact absurd hx not_mem_nil
  | cons y l ih =>
    rw [writeAll, foldl_cons]
    by_cases hmem : x ∈ l
    · have hlt' : place x < (buffer.set (place y) (value buffer y)).length := by
        rw [length_set]
        exact hlt
      refine (ih (fun z hz => hwritten z (mem_cons_of_mem y hz))
        (fun b b' hb z hz => hread b b' hb z (mem_cons_of_mem y hz))
        (fun z hz w hw => hinj z (mem_cons_of_mem y hz) w (mem_cons_of_mem y hw))
        hmem hlt').trans ?_
      apply hread _ _ _ x hx
      intro c hc
      have hne : place y ≠ c := by
        rintro rfl
        exact hc (hwritten y mem_cons_self)
      rw [getD_set, if_neg fun heq => hne heq.1]
    · rcases mem_cons.mp hx with rfl | hx'
      · have hlater : ∀ z ∈ l, place z ≠ place x := by
          intro z hz heq
          exact hmem (hinj z (mem_cons_of_mem x hz) x mem_cons_self heq ▸ hz)
        refine (getD_writeAll_of_ne hlater).trans ?_
        rw [getD_set, if_pos ⟨rfl, hlt⟩]
      · exact absurd hx' hmem

end BufferWrites
