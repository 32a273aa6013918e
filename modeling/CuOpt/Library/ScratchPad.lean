import CuOpt.Library.SparseList

/-! A dense workspace for a sparse sum: the values, a mark for each index in use, and the indices in
the order of their first use, by which the workspace is read and cleared. -/

namespace SparseList

open List
open Function (update)

variable {ι K : Type*} [DecidableEq ι] [CommRing K]

structure ScratchPad (ι K : Type*) where
  workspace : ι → K
  mark : ι → Bool
  indices : List ι

namespace ScratchPad

def clean : ScratchPad ι K := ⟨fun _ => 0, fun _ => false, []⟩

def addToPad (pad : ScratchPad ι K) (j : ι) (value : K) : ScratchPad ι K where
  workspace := update pad.workspace j (pad.workspace j + value)
  mark := if pad.mark j then pad.mark else update pad.mark j true
  indices := if pad.mark j then pad.indices else pad.indices ++ [j]

def clearPad (pad : ScratchPad ι K) : ScratchPad ι K where
  workspace := pad.indices.foldl (fun w j => update w j 0) pad.workspace
  mark := pad.indices.foldl (fun m j => update m j false) pad.mark
  indices := []

def getPad [DecidableEq K] (pad : ScratchPad ι K) : List (ι × K) :=
  (pad.indices.map fun j => (j, pad.workspace j)).filter fun p => decide (p.2 ≠ 0)

def addAllToPad (pad : ScratchPad ι K) (l : List (ι × K)) : ScratchPad ι K :=
  l.foldl (fun pad p => pad.addToPad p.1 p.2) pad

structure Holds (pad : ScratchPad ι K) (l : List (ι × K)) : Prop where
  workspace : ∀ j, pad.workspace j = coeff l j
  mark : ∀ j, pad.mark j = true ↔ j ∈ keys l
  indices : pad.indices = (keys l).reverse.dedup.reverse

variable {pad : ScratchPad ι K} {l : List (ι × K)}

lemma clean_holds : (clean : ScratchPad ι K).Holds [] where
  workspace _ := rfl
  mark j := by simp [clean, keys]
  indices := rfl

lemma Holds.addToPad (h : pad.Holds l) (j : ι) (value : K) :
    (pad.addToPad j value).Holds (l ++ [(j, value)]) where
  workspace i := by
    rw [ScratchPad.addToPad, coeff_append, coeff_cons, coeff_nil, add_zero, ← h.workspace i]
    dsimp only
    rcases eq_or_ne i j with rfl | hne
    · rw [Function.update_self, if_pos rfl]
    · rw [Function.update_of_ne hne, if_neg hne.symm, add_zero]
  mark i := by
    rw [keys_append, mem_append, ← h.mark i, ScratchPad.addToPad]
    dsimp only
    split_ifs with hmark
    · constructor
      · exact .inl
      · rintro (hi | hi)
        · exact hi
        · exact mem_singleton.mp hi ▸ hmark
    · rcases eq_or_ne i j with rfl | hne
      · simp [keys]
      · simp [keys, hne]
  indices := by
    have hreverse : (keys (l ++ [(j, value)])).reverse = j :: (keys l).reverse := by
      simp [keys]
    rw [hreverse, ScratchPad.addToPad]
    dsimp only
    split_ifs with hmark
    · have hmem : j ∈ (keys l).reverse := mem_reverse.mpr ((h.mark j).mp hmark)
      rw [dedup_cons_of_mem hmem, h.indices]
    · have hnot : j ∉ (keys l).reverse := fun hmem =>
        hmark ((h.mark j).mpr (mem_reverse.mp hmem))
      rw [dedup_cons_of_notMem hnot, reverse_cons, h.indices]

lemma Holds.addAllToPad (h : pad.Holds l) (m : List (ι × K)) :
    (pad.addAllToPad m).Holds (l ++ m) := by
  induction m generalizing pad l with
  | nil =>
    rw [append_nil]
    exact h
  | cons p m ih =>
    have hstep := ih (h.addToPad p.1 p.2)
    rw [append_assoc, singleton_append] at hstep
    exact hstep

lemma Holds.getPad [DecidableEq K] (h : pad.Holds l) : pad.getPad = gather l := by
  rw [ScratchPad.getPad, gather, h.indices]
  congr 1
  apply map_congr_left
  intro j _
  rw [h.workspace j]

lemma foldl_update_apply {β : Type*} (f : ι → β) (idx : List ι) (b : β) (j : ι) :
    idx.foldl (fun g i => update g i b) f j = if j ∈ idx then b else f j := by
  induction idx generalizing f with
  | nil => rfl
  | cons i idx ih =>
    rw [foldl_cons, ih]
    by_cases hj : j ∈ idx
    · rw [if_pos hj, if_pos (mem_cons_of_mem i hj)]
    · rw [if_neg hj]
      rcases eq_or_ne j i with rfl | hne
      · rw [Function.update_self, if_pos mem_cons_self]
      · rw [Function.update_of_ne hne, if_neg]
        rintro hmem
        exact (mem_cons.mp hmem).elim hne hj

/-- What was used is marked, and so the pad is clean once it is cleared. -/
lemma Holds.clearPad (h : pad.Holds l) : pad.clearPad = clean := by
  have hmem : ∀ j, j ∈ pad.indices ↔ j ∈ keys l := by
    intro j
    rw [h.indices, mem_reverse, mem_dedup, mem_reverse]
  have hworkspace : pad.clearPad.workspace = fun _ => 0 := by
    funext j
    rw [ScratchPad.clearPad]
    dsimp only
    rw [foldl_update_apply]
    split_ifs with hj
    · rfl
    · rw [h.workspace j]
      exact coeff_eq_zero fun hkey => hj ((hmem j).mpr hkey)
  have hmark : pad.clearPad.mark = fun _ => false := by
    funext j
    rw [ScratchPad.clearPad]
    dsimp only
    rw [foldl_update_apply]
    split_ifs with hj
    · rfl
    · exact Bool.eq_false_iff.mpr fun hset => hj ((hmem j).mpr ((h.mark j).mp hset))
  rw [clean, ← hworkspace, ← hmark]
  rfl

end ScratchPad

end SparseList
