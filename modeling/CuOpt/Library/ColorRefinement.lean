import Mathlib

/-! Refinement of a coloring by the sums over other colors. A color that was used once and then lost
parts need not be used again, if all of its parts but one are: sums over the rest are differences. -/

namespace ColorRefinement

open Finset

variable {α β ι G : Type*} [DecidableEq ι] [AddCommGroup G]

def Stable (weight : α → β → G) (dom : Finset β) (g : β → ι) (s : Finset α) : Prop :=
  ∀ v ∈ dom, ∀ v' ∈ dom, g v = g v' → ∑ u ∈ s, weight u v = ∑ u ∈ s, weight u v'

def classOf (elems : Finset α) (f : α → ι) (colors : Finset ι) : Finset α :=
  elems.filter fun u => f u ∈ colors

/-- The sums are stable over a color together with colors that still wait. -/
def Settled (weight : α → β → G) (elems : Finset α) (f : α → ι) (dom : Finset β) (g : β → ι)
    (waiting : List ι) (c : ι) : Prop :=
  ∃ colors : Finset ι, c ∈ colors ∧ (∀ d ∈ colors, d ≠ c → d ∈ waiting) ∧
    Stable weight dom g (classOf elems f colors)

variable {weight : α → β → G} {elems : Finset α} {f f' : α → ι} {dom : Finset β} {g g' : β → ι}
  {waiting waiting' : List ι} {c : ι} {s t : Finset α}

omit [DecidableEq ι] in
theorem Stable.finer (h : Stable weight dom g s)
    (hfine : ∀ v ∈ dom, ∀ v' ∈ dom, g' v = g' v' → g v = g v') : Stable weight dom g' s :=
  fun v hv v' hv' heq => h v hv v' hv' (hfine v hv v' hv' heq)

omit [DecidableEq ι] in
theorem Stable.sdiff [DecidableEq α] (hs : Stable weight dom g s) (ht : Stable weight dom g t)
    (hsub : t ⊆ s) : Stable weight dom g (s \ t) := by
  intro v hv v' hv' heq
  have hsum := hs v hv v' hv' heq
  rw [← sum_sdiff hsub, ← sum_sdiff hsub, ht v hv v' hv' heq] at hsum
  exact add_right_cancel hsum

lemma classOf_congr {colors colors' : Finset ι} (h : ∀ u ∈ elems, f u ∈ colors ↔ f' u ∈ colors') :
    classOf elems f colors = classOf elems f' colors' :=
  filter_congr fun u hu => h u hu

lemma Settled.of_stable (h : Stable weight dom g (classOf elems f {c})) :
    Settled weight elems f dom g waiting c := by
  refine ⟨{c}, mem_singleton_self c, ?_, h⟩
  intro d hd hne
  exact absurd (mem_singleton.mp hd) hne

lemma Settled.finer (h : Settled weight elems f dom g waiting c)
    (hfine : ∀ v ∈ dom, ∀ v' ∈ dom, g' v = g' v' → g v = g v') :
    Settled weight elems f dom g' waiting c := by
  obtain ⟨colors, hc, hwait, hstable⟩ := h
  exact ⟨colors, hc, hwait, hstable.finer hfine⟩

lemma Settled.mono (h : Settled weight elems f dom g waiting c)
    (hsub : ∀ d ∈ waiting, d ∈ waiting') : Settled weight elems f dom g waiting' c := by
  obtain ⟨colors, hc, hwait, hstable⟩ := h
  exact ⟨colors, hc, fun d hd hne => hsub d (hwait d hd hne), hstable⟩

lemma Settled.pop [DecidableEq α] {r : ι} (h : Settled weight elems f dom g (r :: waiting) c)
    (hne : c ≠ r) (hr : Stable weight dom g (classOf elems f {r})) :
    Settled weight elems f dom g waiting c := by
  obtain ⟨colors, hc, hwait, hstable⟩ := h
  have hother : ∀ d ∈ colors.erase r, d ≠ c → d ∈ waiting := by
    intro d hd hdc
    obtain ⟨hdr, hd⟩ := mem_erase.mp hd
    exact (List.mem_cons.mp (hwait d hd hdc)).resolve_left hdr
  refine ⟨colors.erase r, mem_erase.mpr ⟨hne, hc⟩, hother, ?_⟩
  by_cases hmem : r ∈ colors
  · have hsub : classOf elems f {r} ⊆ classOf elems f colors := by
      intro u hu
      simp only [classOf, mem_filter, mem_singleton] at hu ⊢
      exact ⟨hu.1, hu.2 ▸ hmem⟩
    have hdiff : classOf elems f (colors.erase r) =
        classOf elems f colors \ classOf elems f {r} := by
      ext u
      simp only [classOf, mem_filter, mem_sdiff, mem_singleton, mem_erase]
      tauto
    rw [hdiff]
    exact hstable.sdiff hr hsub
  · rw [erase_eq_of_notMem hmem]
    exact hstable

/-- A color loses parts to new colors, which wait. -/
lemma Settled.split (q : ι) (new : Finset ι) (h : Settled weight elems f dom g waiting c)
    (hnew : ∀ d ∈ new, d ≠ c ∧ d ∉ waiting) (hold : ∀ u ∈ elems, f u ∉ new)
    (hsplit : ∀ u ∈ elems, f' u = f u ∨ f u = q ∧ f' u ∈ new)
    (hwaiting : ∀ d ∈ waiting, d ∈ waiting') (hwaitingNew : ∀ d ∈ new, d ∈ waiting') :
    Settled weight elems f' dom g waiting' c := by
  obtain ⟨colors, hc, hwait, hstable⟩ := h
  have hfresh : ∀ d ∈ new, d ∉ colors := by
    intro d hd hmem
    obtain ⟨hdc, hdw⟩ := hnew d hd
    exact hdw (hwait d hmem hdc)
  by_cases hq : q ∈ colors
  · refine ⟨colors ∪ new, mem_union_left _ hc, ?_, ?_⟩
    · intro d hd hdc
      rcases mem_union.mp hd with hd | hd
      · exact hwaiting d (hwait d hd hdc)
      · exact hwaitingNew d hd
    · have hsame : classOf elems f' (colors ∪ new) = classOf elems f colors := by
        apply classOf_congr
        intro u hu
        rw [mem_union]
        rcases hsplit u hu with heq | ⟨hfq, hf'⟩
        · rw [heq]
          exact ⟨fun hmem => hmem.resolve_right (hold u hu), Or.inl⟩
        · rw [hfq]
          exact ⟨fun _ => hq, fun _ => .inr hf'⟩
      rw [hsame]
      exact hstable
  · refine ⟨colors, hc, fun d hd hdc => hwaiting d (hwait d hd hdc), ?_⟩
    have hsame : classOf elems f' colors = classOf elems f colors := by
      apply classOf_congr
      intro u hu
      rcases hsplit u hu with heq | ⟨hfq, hf'⟩
      · rw [heq]
      · rw [hfq]
        exact ⟨fun hmem => absurd hmem (hfresh _ hf'), fun hmem => absurd hmem hq⟩
    rw [hsame]
    exact hstable

lemma Settled.stable (h : Settled weight elems f dom g [] c) :
    Stable weight dom g (classOf elems f {c}) := by
  obtain ⟨colors, hc, hwait, hstable⟩ := h
  have hsingle : colors = {c} := by
    apply eq_singleton_iff_unique_mem.mpr
    refine ⟨hc, fun d hd => ?_⟩
    by_contra hne
    exact List.not_mem_nil (hwait d hd hne)
  rw [← hsingle]
  exact hstable

end ColorRefinement
