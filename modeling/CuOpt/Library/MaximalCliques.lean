import Mathlib

/-! The maximal cliques of a graph on a finite set of vertices, and the tree that branches on the
vertices outside a pivot's neighbourhood. -/

namespace MaximalCliques

open List Finset
open Finset (mem_union mem_union_left)

variable {α : Type*} [DecidableEq α]

structure IsMaximalClique (G : SimpleGraph α) (V C : Finset α) : Prop where
  subset : C ⊆ V
  clique : ∀ u ∈ C, ∀ v ∈ C, u ≠ v → G.Adj u v
  maximal : ∀ v ∈ V, ∃ u ∈ C, ¬ G.Adj u v

/-- The list names each set that has the property, once, and nothing else. -/
structure Enumerates (out : List (List α)) (p : Finset α → Prop) : Prop where
  nodup : ∀ l ∈ out, l.Nodup
  once : (out.map List.toFinset).Nodup
  mem_iff : ∀ C, C ∈ out.map List.toFinset ↔ p C

lemma Enumerates.nil {p : Finset α → Prop} (h : ∀ C, ¬ p C) : Enumerates [] p where
  nodup := nofun
  once := List.Pairwise.nil
  mem_iff := fun C => ⟨fun hC => absurd hC not_mem_nil, fun hC => absurd hC (h C)⟩

lemma Enumerates.singleton {p : Finset α → Prop} {l : List α} (hl : l.Nodup)
    (h : ∀ C, p C ↔ C = l.toFinset) : Enumerates [l] p where
  nodup := fun l' hl' => List.mem_singleton.mp hl' ▸ hl
  once := pairwise_singleton _ _
  mem_iff := fun C => by rw [h C, List.map_singleton, List.mem_singleton]

lemma Enumerates.congr {out : List (List α)} {p q : Finset α → Prop} (h : Enumerates out p)
    (hpq : ∀ C, p C ↔ q C) : Enumerates out q where
  __ := h
  mem_iff := fun C => (h.mem_iff C).trans (hpq C)

lemma Enumerates.append {out out' : List (List α)} {p q : Finset α → Prop}
    (h : Enumerates out p) (h' : Enumerates out' q) (hdisjoint : ∀ C, p C → ¬ q C) :
    Enumerates (out ++ out') (fun C => p C ∨ q C) where
  nodup := fun l hl => (mem_append.mp hl).elim (h.nodup l) (h'.nodup l)
  once := by
    rw [map_append]
    refine List.Nodup.append h.once h'.once fun C hC hC' => ?_
    exact hdisjoint C ((h.mem_iff C).mp hC) ((h'.mem_iff C).mp hC')
  mem_iff := fun C => by rw [map_append, mem_append, h.mem_iff, h'.mem_iff]

section Tree

variable (G : SimpleGraph α) (V : Finset α)

/-- A node of the search: the clique `R`, and its common neighbours, those that may still join in `P`
and those already tried in `X`. -/
structure Node (R P X : Finset α) : Prop where
  subset : R ⊆ V
  clique : ∀ u ∈ R, ∀ v ∈ R, u ≠ v → G.Adj u v
  common : ∀ v, v ∈ P ∪ X ↔ v ∈ V ∧ ∀ u ∈ R, G.Adj u v
  disjoint : Disjoint P X

def Below (R P : Finset α) (C : Finset α) : Prop :=
  IsMaximalClique G V C ∧ R ⊆ C ∧ C ⊆ R ∪ P

variable {G V} {R P X C : Finset α} {v : α}

lemma node_root : Node G V ∅ V ∅ where
  subset := empty_subset V
  clique := fun u hu => absurd hu (notMem_empty u)
  common := by
    intro v
    rw [union_empty]
    exact ⟨fun hv => ⟨hv, fun u hu => absurd hu (notMem_empty u)⟩, And.left⟩
  disjoint := disjoint_empty_right V

lemma below_root : Below G V ∅ V C ↔ IsMaximalClique G V C := by
  refine ⟨And.left, fun h => ⟨h, empty_subset C, ?_⟩⟩
  rw [empty_union]
  exact h.subset

lemma Node.notMem (h : Node G V R P X) (hv : v ∈ P ∪ X) : v ∉ R := by
  intro hR
  exact G.irrefl (((h.common v).mp hv).2 v hR)

lemma Node.below_leaf (h : Node G V R ∅ ∅) : Below G V R ∅ C ↔ C = R := by
  constructor
  · rintro ⟨-, hle, hge⟩
    rw [union_empty] at hge
    exact hge.antisymm hle
  · rintro rfl
    refine ⟨⟨h.subset, h.clique, fun v hv => ?_⟩, subset_rfl, subset_union_left⟩
    by_contra hnone
    push Not at hnone
    have hmem := (h.common v).mpr ⟨hv, hnone⟩
    rw [union_empty] at hmem
    exact notMem_empty v hmem

variable [DecidableRel G.Adj]

lemma Node.child (h : Node G V R P X) (hv : v ∈ P) :
    Node G V (insert v R) {u ∈ P | G.Adj v u} {u ∈ X | G.Adj v u} where
  subset := by
    have hmem : v ∈ V := ((h.common v).mp (mem_union_left X hv)).1
    exact insert_subset hmem h.subset
  clique := by
    have hjoin : ∀ u ∈ R, G.Adj u v := ((h.common v).mp (mem_union_left X hv)).2
    intro a ha b hb hab
    rcases mem_insert.mp ha with hav | haR
    · rcases mem_insert.mp hb with hbv | hbR
      · exact absurd (hav.trans hbv.symm) hab
      · exact hav ▸ (hjoin b hbR).symm
    · rcases mem_insert.mp hb with hbv | hbR
      · exact hbv ▸ hjoin a haR
      · exact h.clique a haR b hbR hab
  common := by
    intro w
    rw [← filter_union, Finset.mem_filter, h.common, forall_mem_insert]
    exact ⟨fun ⟨⟨hV, hR⟩, hadj⟩ => ⟨hV, hadj, hR⟩, fun ⟨hV, hadj, hR⟩ => ⟨⟨hV, hR⟩, hadj⟩⟩
  disjoint := disjoint_filter_filter h.disjoint

omit [DecidableRel G.Adj] in
theorem Node.tried (h : Node G V R P X) (hv : v ∈ P) : Node G V R (P.erase v) (insert v X) where
  __ := h
  common := by
    intro w
    rw [← h.common w, union_insert, mem_insert, mem_union, mem_union, mem_erase]
    by_cases hw : w = v
    · subst hw
      simp [hv]
    · simp [hw]
  disjoint := by
    rw [disjoint_insert_right]
    exact ⟨notMem_erase v P, h.disjoint.mono_left (Finset.erase_subset v P)⟩

lemma below_child (hv : v ∈ P) :
    Below G V (insert v R) {u ∈ P | G.Adj v u} C ↔ Below G V R P C ∧ v ∈ C := by
  constructor
  · rintro ⟨hC, hle, hge⟩
    have hvC : v ∈ C := hle (Finset.mem_insert_self v R)
    refine ⟨⟨hC, (Finset.subset_insert v R).trans hle, fun u hu => ?_⟩, hvC⟩
    rcases mem_union.mp (hge hu) with hu | hu
    · rcases mem_insert.mp hu with rfl | hu
      · exact Finset.mem_union_right R hv
      · exact mem_union_left P hu
    · exact Finset.mem_union_right R (Finset.mem_filter.mp hu).1
  · rintro ⟨⟨hC, hle, hge⟩, hvC⟩
    refine ⟨hC, insert_subset hvC hle, fun u hu => ?_⟩
    by_cases huv : u = v
    · exact mem_union_left _ (huv ▸ Finset.mem_insert_self v R)
    · rcases mem_union.mp (hge hu) with hR | hP
      · exact mem_union_left _ (Finset.mem_insert_of_mem hR)
      · have hadj : G.Adj v u := hC.clique v hvC u hu (Ne.symm huv)
        exact Finset.mem_union_right _ (Finset.mem_filter.mpr ⟨hP, hadj⟩)

omit [DecidableRel G.Adj] in
theorem Node.below_tried (h : Node G V R P X) (hv : v ∈ P) :
    Below G V R (P.erase v) C ↔ Below G V R P C ∧ v ∉ C := by
  have hnot : v ∉ R := h.notMem (mem_union_left X hv)
  constructor
  · rintro ⟨hC, hle, hge⟩
    refine ⟨⟨hC, hle, hge.trans ?_⟩, fun hvC => ?_⟩
    · exact union_subset_union_right (Finset.erase_subset v P)
    · rcases mem_union.mp (hge hvC) with hR | hP
      · exact hnot hR
      · exact notMem_erase v P hP
  · rintro ⟨⟨hC, hle, hge⟩, hvC⟩
    refine ⟨hC, hle, fun u hu => ?_⟩
    rcases mem_union.mp (hge hu) with hR | hP
    · exact mem_union_left _ hR
    · refine Finset.mem_union_right R (mem_erase.mpr ⟨?_, hP⟩)
      exact fun huv => hvC (huv ▸ hu)

omit [DecidableRel G.Adj] in
theorem Node.exists_candidate (h : Node G V R P X) {pivot : α} (hpivot : pivot ∈ P ∪ X)
    (hC : Below G V R P C) : ∃ v ∈ P, ¬ G.Adj pivot v ∧ v ∈ C := by
  obtain ⟨hmax, hle, hge⟩ := hC
  obtain ⟨hV, hjoin⟩ := (h.common pivot).mp hpivot
  obtain ⟨u, hu, hnot⟩ := hmax.maximal pivot hV
  rcases mem_union.mp (hge hu) with hR | hP
  · exact absurd (hjoin u hR) hnot
  · exact ⟨u, hP, fun hadj => hnot hadj.symm, hu⟩

omit [DecidableRel G.Adj] in
theorem Below.weight_le {K : Type*} [AddCommGroup K] [LinearOrder K] [IsOrderedAddMonoid K]
    {w : α → K} (hw : ∀ v, 0 ≤ w v) (hC : Below G V R P C) :
    ∑ v ∈ C, w v ≤ ∑ v ∈ R, w v + ∑ v ∈ P, w v := by
  have hle : ∑ v ∈ C, w v ≤ ∑ v ∈ R ∪ P, w v :=
    sum_le_sum_of_subset_of_nonneg hC.2.2 fun v _ _ => hw v
  have hinter : 0 ≤ ∑ v ∈ R ∩ P, w v := Finset.sum_nonneg fun v _ => hw v
  rw [← sum_union_inter]
  exact hle.trans (le_add_of_nonneg_right hinter)

end Tree

end MaximalCliques
