import Mathlib

/-! Items that are each held in exactly one container: what moving, releasing and enrolling an item
do to the list of everything that is held. -/

namespace Custody

open List

variable {α β : Type*}

structure Exact (held : List α) (isOpen : α → Prop) : Prop where
  nodup : held.Nodup
  mem_iff : ∀ x, x ∈ held ↔ isOpen x

lemma Exact.perm {held held' : List α} {isOpen : α → Prop} (h : Exact held isOpen)
    (hperm : held'.Perm held) : Exact held' isOpen :=
  ⟨hperm.nodup_iff.mpr h.nodup, fun x => hperm.mem_iff.trans (h.mem_iff x)⟩

lemma Exact.release {held held' : List α} {isOpen isOpen' : α → Prop} {x : α}
    (h : Exact held isOpen) (hperm : (x :: held').Perm held)
    (hopen : ∀ y, isOpen' y ↔ isOpen y ∧ y ≠ x) : Exact held' isOpen' := by
  have hcons := h.perm hperm
  obtain ⟨hx, hnodup⟩ := nodup_cons.mp hcons.nodup
  refine ⟨hnodup, fun y => ?_⟩
  rw [hopen, ← hcons.mem_iff y, mem_cons]
  constructor
  · intro hy
    exact ⟨.inr hy, fun he => hx (he ▸ hy)⟩
  · rintro ⟨rfl | hy, hne⟩
    · exact absurd rfl hne
    · exact hy

lemma Exact.enroll {held held' new : List α} {isOpen isOpen' : α → Prop}
    (h : Exact held isOpen) (hperm : held'.Perm (new ++ held)) (hnodup : new.Nodup)
    (hnew : ∀ x ∈ new, ¬ isOpen x) (hopen : ∀ y, isOpen' y ↔ isOpen y ∨ y ∈ new) :
    Exact held' isOpen' := by
  refine ⟨hperm.nodup_iff.mpr (nodup_append.mpr ⟨hnodup, h.nodup, ?_⟩), fun y => ?_⟩
  · intro x hx y hy hxy
    exact hnew x hx ((h.mem_iff x).mp (hxy ▸ hy))
  · rw [hperm.mem_iff, mem_append, hopen, h.mem_iff, or_comm]

lemma flatMap_perm_of_split {α β : Type*} {l l₁ l₂ : List α} {a : α} (h : l = l₁ ++ a :: l₂)
    (f : α → List β) : (l.flatMap f).Perm (f a ++ (l₁ ++ l₂).flatMap f) := by
  rw [h, flatMap_append, flatMap_cons, flatMap_append]
  exact perm_append_comm_assoc _ _ _

/-- An item of a duplicate-free family of containers is in one container only, and there once. -/
lemma existsUnique_place {places : List β} {container : β → List α} {x : α}
    (hnodup : (places.flatMap container).Nodup) (hx : x ∈ places.flatMap container) :
    ∃! p, p ∈ places ∧ x ∈ container p := by
  obtain ⟨p, hp, hxp⟩ := mem_flatMap.mp hx
  refine ⟨p, ⟨hp, hxp⟩, ?_⟩
  rintro q ⟨hq, hxq⟩
  by_contra hne
  have hdisjoint := (nodup_flatMap.mp hnodup).2
  have hsymm : Std.Symm (Function.onFun List.Disjoint container) := ⟨fun _ _ h => h.symm⟩
  exact hdisjoint.forall hq hp hne hxq hxp

end Custody
