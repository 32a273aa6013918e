import Mathlib

/-! Maps as lists of pairs in the order of their keys. -/

structure SortedMap (κ α : Type*) [LinearOrder κ] where
  toList : List (κ × α)
  sorted : (toList.map Prod.fst).Pairwise (· < ·)

namespace SortedMap

open List
open Prod (fst)

variable {κ α : Type*} [LinearOrder κ]

def empty : SortedMap κ α := ⟨[], List.Pairwise.nil⟩

def size (m : SortedMap κ α) : ℕ := m.toList.length

def get? (m : SortedMap κ α) (k : κ) : Option α := m.toList.lookup k

def insertList (k : κ) (v : α) : List (κ × α) → List (κ × α)
  | [] => [(k, v)]
  | p :: l =>
    if k < p.1 then (k, v) :: p :: l
    else if k = p.1 then (k, v) :: l
    else p :: insertList k v l

lemma mem_keys_insertList {k k' : κ} {v : α} {l : List (κ × α)} :
    k' ∈ (insertList k v l).map fst ↔ k' = k ∨ k' ∈ l.map fst := by
  induction l with
  | nil => simp [insertList]
  | cons p l ih =>
    rw [insertList]
    split_ifs with hlt heq
    · simp
    · subst heq
      simp
    · rw [map_cons, mem_cons, ih, map_cons, mem_cons]
      tauto

lemma sorted_insertList (k : κ) (v : α) {l : List (κ × α)}
    (hl : (l.map fst).Pairwise (· < ·)) :
    ((insertList k v l).map fst).Pairwise (· < ·) := by
  induction l with
  | nil => exact pairwise_singleton _ k
  | cons p l ih =>
    rw [map_cons, pairwise_cons] at hl
    rw [insertList]
    split_ifs with hlt heq
    · rw [map_cons, pairwise_cons, map_cons, pairwise_cons]
      refine ⟨fun k' hk' => ?_, hl⟩
      rcases mem_cons.mp hk' with rfl | hk'
      · exact hlt
      · exact hlt.trans (hl.1 k' hk')
    · subst heq
      exact pairwise_cons.mpr hl
    · rw [map_cons, pairwise_cons]
      refine ⟨fun k' hk' => ?_, ih hl.2⟩
      rcases mem_keys_insertList.mp hk' with rfl | hk'
      · exact lt_of_le_of_ne (not_lt.mp hlt) (Ne.symm heq)
      · exact hl.1 k' hk'

def insert (m : SortedMap κ α) (k : κ) (v : α) : SortedMap κ α :=
  ⟨insertList k v m.toList, sorted_insertList k v m.sorted⟩

lemma lookup_cons_ite (p : κ × α) (l : List (κ × α)) (k : κ) :
    (p :: l).lookup k = if k = p.1 then some p.2 else l.lookup k := by
  rw [lookup_cons]
  by_cases heq : k = p.1
  · rw [if_pos heq, beq_iff_eq.mpr heq]
  · rw [if_neg heq, beq_false_of_ne heq]

lemma lookup_insertList (k k' : κ) (v : α) (l : List (κ × α)) :
    (insertList k v l).lookup k' = if k' = k then some v else l.lookup k' := by
  induction l with
  | nil => exact lookup_cons_ite (k, v) [] k'
  | cons p l ih =>
    rw [insertList]
    by_cases hlt : k < p.1
    · rw [if_pos hlt, lookup_cons_ite]
    · rw [if_neg hlt]
      by_cases heq : k = p.1
      · rw [if_pos heq, lookup_cons_ite, lookup_cons_ite, ← heq]
        by_cases hk : k' = k
        · rw [if_pos hk, if_pos hk]
        · rw [if_neg hk, if_neg hk, if_neg hk]
      · rw [if_neg heq, lookup_cons_ite, lookup_cons_ite, ih]
        by_cases hk : k' = k
        · have hne : ¬k' = p.1 := fun h => heq (hk.symm.trans h)
          rw [if_neg hne, if_pos hk, if_pos hk]
        · rw [if_neg hk, if_neg hk]

@[simp] lemma get?_empty (k : κ) : (empty : SortedMap κ α).get? k = none := rfl

lemma get?_insert (m : SortedMap κ α) (k k' : κ) (v : α) :
    (m.insert k v).get? k' = if k' = k then some v else m.get? k' :=
  lookup_insertList k k' v m.toList

lemma mem_toList {m : SortedMap κ α} {k : κ} {v : α} : (k, v) ∈ m.toList ↔ m.get? k = some v := by
  obtain ⟨l, hl⟩ := m
  show (k, v) ∈ l ↔ l.lookup k = some v
  induction l with
  | nil => simp
  | cons p l ih =>
    rw [map_cons, pairwise_cons] at hl
    rw [mem_cons, lookup_cons_ite]
    by_cases heq : k = p.1
    · have hnot : (k, v) ∉ l := by
        intro hmem
        have hlt := hl.1 k (mem_map.mpr ⟨(k, v), hmem, rfl⟩)
        exact absurd heq hlt.ne'
      rw [if_pos heq, Option.some_inj]
      constructor
      · rintro (hp | hmem)
        · rw [← hp]
        · exact absurd hmem hnot
      · intro hv
        exact .inl (Prod.ext heq hv.symm)
    · rw [if_neg heq, ← ih hl.2]
      constructor
      · rintro (hp | hmem)
        · exact absurd (congrArg fst hp) heq
        · exact hmem
      · exact Or.inr

lemma nodup_keys (m : SortedMap κ α) : (m.toList.map fst).Nodup :=
  m.sorted.imp fun h => h.ne

lemma ext_get? {m m' : SortedMap κ α} (h : ∀ k, m.get? k = m'.get? k) : m = m' := by
  have hnodup : ∀ n : SortedMap κ α, n.toList.Nodup := fun n => n.nodup_keys.of_map _
  have hperm : m.toList.Perm m'.toList := by
    apply (perm_ext_iff_of_nodup (hnodup m) (hnodup m')).mpr
    rintro ⟨k, v⟩
    rw [mem_toList, mem_toList, h]
  have hsorted : ∀ n : SortedMap κ α, n.toList.Pairwise fun p q => p.1 < q.1 := fun n =>
    pairwise_map.mp n.sorted
  have hlist : m.toList = m'.toList := by
    refine hperm.eq_of_pairwise ?_ (hsorted m) (hsorted m')
    intro p q _ _ hpq hqp
    exact absurd hqp (lt_asymm hpq)
  cases m
  cases m'
  congr

section MapValues

variable {β : Type*} (f : α → β)

omit [LinearOrder κ] in
theorem keys_mapValues (l : List (κ × α)) :
    (l.map fun p => (p.1, f p.2)).map Prod.fst = l.map Prod.fst := by
  rw [map_map]
  rfl

def mapValues (m : SortedMap κ α) : SortedMap κ β where
  toList := m.toList.map fun p => (p.1, f p.2)
  sorted := by
    rw [keys_mapValues]
    exact m.sorted

lemma get?_mapValues (m : SortedMap κ α) (k : κ) : (m.mapValues f).get? k = (m.get? k).map f := by
  show (m.toList.map fun p => (p.1, f p.2)).lookup k = (m.toList.lookup k).map f
  induction m.toList with
  | nil => rfl
  | cons p l ih =>
    rw [map_cons, lookup_cons_ite, lookup_cons_ite, ih]
    split_ifs <;> rfl

end MapValues

/-- Insertion of pairs with different keys, one after the other. -/
lemma get?_foldl_insert (l : List (κ × α)) (hl : (l.map fst).Nodup) (m : SortedMap κ α)
    (k : κ) : (l.foldl (fun m p => m.insert p.1 p.2) m).get? k = (l.lookup k).or (m.get? k) := by
  induction l generalizing m with
  | nil => rfl
  | cons p l ih =>
    rw [map_cons, nodup_cons] at hl
    rw [foldl_cons, ih hl.2, get?_insert, lookup_cons_ite]
    by_cases heq : k = p.1
    · have hnone : l.lookup k = none := by
        rw [lookup_eq_none_iff]
        intro q hq
        have hne : k ≠ q.1 := fun h => hl.1 (heq ▸ h ▸ mem_map_of_mem hq)
        simpa using hne
      rw [hnone, if_pos heq, if_pos heq]
      rfl
    · rw [if_neg heq, if_neg heq]

lemma foldl_insert_toList (m : SortedMap κ α) :
    m.toList.foldl (fun m p => m.insert p.1 p.2) empty = m := by
  apply ext_get?
  intro k
  rw [get?_foldl_insert _ m.nodup_keys, get?_empty, Option.or_none]
  rfl

end SortedMap
