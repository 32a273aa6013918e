import Mathlib

/-! Lifting a cover inequality of a knapsack with binary terms and nonnegative surplus: the lifting
function of the cover's large weights is superadditive, and the terms outside the cover may have the
coefficients that it gives them. -/

namespace CoverLifting

open List

variable {K : Type*} [Field K] [LinearOrder K] [IsStrictOrderedRing K]

/-- The lifting function for the weights above the excess `lam` of a cover, the largest first. -/
def lift (lam : K) : List K → K → K
  | [], u => u
  | a :: l, u =>
    if u ≤ a - lam then 0 else if u ≤ a then lam + u - a else lam + lift lam l (u - a)

section Shape

variable {lam a u v : K} {l : List K} (hlam : 0 ≤ lam)

include hlam

lemma lift_nonneg (hu : 0 ≤ u) : 0 ≤ lift lam l u := by
  induction l generalizing u with
  | nil => exact hu
  | cons a l ih =>
    rw [lift]
    split_ifs with hsmall hlarge
    · exact le_rfl
    · linarith
    · have hrest := ih (u := u - a) (by linarith)
      linarith

lemma lift_mono (huv : u ≤ v) : lift lam l u ≤ lift lam l v := by
  induction l generalizing u v with
  | nil => exact huv
  | cons a l ih =>
    rw [lift, lift]
    split_ifs with hu hv hv' hu' hv hv'
    · exact le_rfl
    · linarith
    · have hrest := lift_nonneg hlam (l := l) (u := v - a) (by linarith)
      linarith
    · linarith
    · linarith
    · have hrest := lift_nonneg hlam (l := l) (u := v - a) (by linarith)
      linarith
    · linarith
    · linarith
    · have hrest := ih (u := u - a) (v := v - a) (by linarith)
      linarith

omit hlam in
theorem lift_le_self (hl : ∀ a ∈ l, lam ≤ a) (hu : 0 ≤ u) : lift lam l u ≤ u := by
  induction l generalizing u with
  | nil => exact le_rfl
  | cons a l ih =>
    have ha := hl a mem_cons_self
    rw [lift]
    split_ifs with hsmall hlarge
    · exact hu
    · linarith
    · have hrest := ih (fun b hb => hl b (mem_cons_of_mem a hb)) (u := u - a) (by linarith)
      linarith

lemma lift_zero (hl : ∀ a ∈ l, lam ≤ a) : lift lam l 0 = 0 :=
  le_antisymm (lift_le_self hl le_rfl) (lift_nonneg hlam le_rfl)

omit hlam in
/-- The lifting function grows no faster than its argument. -/
theorem lift_add_le (hl : ∀ a ∈ l, lam ≤ a) (hv : 0 ≤ v) : lift lam l (u + v) ≤ lift lam l u + v := by
  induction l generalizing u v with
  | nil => exact le_rfl
  | cons a l ih =>
    have hl' : ∀ b ∈ l, lam ≤ b := fun b hb => hl b (mem_cons_of_mem a hb)
    rw [lift, lift]
    split_ifs with hsum hu hu' hsum' hu hu' hu hu'
    · linarith
    · linarith
    · linarith
    · linarith
    · linarith
    · linarith
    · have hrest := lift_le_self hl' (u := u + v - a) (by linarith)
      linarith
    · have hrest := lift_le_self hl' (u := u + v - a) (by linarith)
      linarith
    · have hrest := ih hl' (u := u - a) hv
      have hshift : u + v - a = u - a + v := by ring
      rw [hshift]
      linarith

/-- A large weight more makes the function smaller. -/
lemma lift_cons_le (hl : (a :: l).Pairwise (· ≥ ·)) (ha : ∀ b ∈ a :: l, lam ≤ b) (hu : 0 ≤ u) :
    lift lam (a :: l) u ≤ lift lam l u := by
  induction l generalizing a u with
  | nil => exact lift_le_self ha hu
  | cons b l ih =>
    have hab : b ≤ a := (pairwise_cons.mp hl).1 b mem_cons_self
    have hla : lam ≤ a := ha a mem_cons_self
    have hlb : lam ≤ b := ha b (mem_cons_of_mem a mem_cons_self)
    have htail : ∀ c ∈ b :: l, lam ≤ c := fun c hc => ha c (mem_cons_of_mem a hc)
    rw [lift]
    split_ifs with hsmall hlarge
    · exact lift_nonneg hlam hu
    · -- below `a` the function is at most `lam`, and it has the slope that `b` gives it
      rw [lift]
      split_ifs with hb hb'
      · linarith
      · linarith
      · have hrest := lift_nonneg hlam (l := l) (u := u - b) (by linarith)
        linarith
    · have hdrop := ih (pairwise_cons.mp hl).2 htail (u := u - a) (by linarith)
      have hmono := lift_mono hlam (l := l) (u := u - a) (v := u - b) (by linarith)
      have hstep : lift lam (b :: l) u = lam + lift lam l (u - b) := by
        rw [lift, if_neg (by linarith), if_neg (by linarith)]
      rw [hstep]
      linarith

lemma le_lift (hl : ∀ b ∈ l, b ≤ a) (hla : lam ≤ a) (hua : u ≤ a) :
    lam + u - a ≤ lift lam l u := by
  cases l with
  | nil =>
    rw [lift]
    linarith
  | cons b l =>
    have hba := hl b mem_cons_self
    rw [lift]
    split_ifs with hsmall hlarge
    · linarith
    · linarith
    · have hrest := lift_nonneg hlam (l := l) (u := u - b) (by linarith)
      linarith

/-- The lifting function is superadditive. -/
lemma lift_add (hl : l.Pairwise (· ≥ ·)) (ha : ∀ a ∈ l, lam ≤ a) (hu : 0 ≤ u) (hv : 0 ≤ v) :
    lift lam l u + lift lam l v ≤ lift lam l (u + v) := by
  induction l generalizing u v with
  | nil => exact le_rfl
  | cons a l ih =>
    have hl' := (pairwise_cons.mp hl).2
    have ha' : ∀ b ∈ l, lam ≤ b := fun b hb => ha b (mem_cons_of_mem a hb)
    have hla := ha a mem_cons_self
    have hsmall : ∀ {u v : K}, 0 ≤ v → u ≤ a - lam →
        lift lam (a :: l) u + lift lam (a :: l) v ≤ lift lam (a :: l) (u + v) ∨ u < 0 := by
      intro u v hv hu
      rcases lt_or_ge u 0 with hneg | hpos
      · exact .inr hneg
      · refine .inl ?_
        have hzero : lift lam (a :: l) u = 0 := by rw [lift, if_pos hu]
        have hmono := lift_mono hlam (l := a :: l) (u := v) (v := u + v) (by linarith)
        linarith
    have hbig : ∀ {u v : K}, 0 ≤ v → a < u →
        lift lam (a :: l) u + lift lam (a :: l) v ≤ lift lam (a :: l) (u + v) := by
      intro u v hv hu
      have hvl := lift_cons_le hlam hl ha hv
      have hadd := ih hl' ha' (u := u - a) (v := v) (by linarith) hv
      have hstep : ∀ w : K, a < w → lift lam (a :: l) w = lam + lift lam l (w - a) := by
        intro w hw
        rw [lift, if_neg (by linarith), if_neg (by linarith)]
      rw [hstep u hu, hstep (u + v) (by linarith)]
      have hshift : u + v - a = u - a + v := by ring
      rw [hshift]
      linarith
    rcases le_or_gt u (a - lam) with husmall | hubig
    · exact (hsmall hv husmall).resolve_right (not_lt.mpr hu)
    · rcases le_or_gt v (a - lam) with hvsmall | hvbig
      · have hswap := (hsmall hu hvsmall).resolve_right (not_lt.mpr hv)
        rw [add_comm v u] at hswap
        linarith
      · rcases lt_or_ge a u with hua | hua
        · exact hbig hv hua
        · rcases lt_or_ge a v with hva | hva
          · have hswap := hbig hu hva
            rw [add_comm v u] at hswap
            linarith
          · -- both lie where the function climbs from `0` to `lam`
            have hclimb : ∀ w : K, a - lam < w → w ≤ a → lift lam (a :: l) w = lam + w - a := by
              intro w hw hwa
              rw [lift, if_neg (not_le.mpr hw), if_pos hwa]
            rw [hclimb u hubig hua, hclimb v hvbig hva]
            rcases le_or_gt (u + v) a with hsum | hsum
            · rw [hclimb (u + v) (by linarith) hsum]
              linarith
            · have hrest := le_lift hlam (l := l) (a := a) (u := u + v - a)
                (fun b hb => (pairwise_cons.mp hl).1 b hb) hla (by linarith)
              rw [lift, if_neg (by linarith), if_neg (by linarith)]
              linarith

lemma sum_lift_le (hl : l.Pairwise (· ≥ ·)) (ha : ∀ a ∈ l, lam ≤ a) {κ : Type*} (ts : List κ)
    (w : κ → K) (hw : ∀ t ∈ ts, 0 ≤ w t) :
    (ts.map fun t => lift lam l (w t)).sum ≤ lift lam l (ts.map w).sum := by
  induction ts with
  | nil => exact (lift_zero hlam ha).ge
  | cons t ts ih =>
    have hrest := ih fun r hr => hw r (mem_cons_of_mem t hr)
    have hsum : 0 ≤ (ts.map w).sum := by
      refine sum_nonneg fun r hr => ?_
      obtain ⟨q, hq, rfl⟩ := mem_map.mp hr
      exact hw q (mem_cons_of_mem t hq)
    have hadd := lift_add hlam hl ha (hw t mem_cons_self) hsum
    rw [map_cons, sum_cons, map_cons, sum_cons]
    linarith

end Shape

section Cover

variable {κ : Type*} {lam : K} (a z : κ → K)

/-- What is missing from a cover, each weight cut off at the excess. -/
def shortfall (lam : K) (cover : List κ) : K := (cover.map fun k => min (a k) lam * (1 - z k)).sum

omit [Field K] [IsStrictOrderedRing K] in
theorem lt_of_mem_large {b : K} {l : List K} (hb : b ∈ l.filter fun b => decide (lam < b)) :
    lam < b := by
  simpa using (mem_filter.mp hb).2

variable {a z} {cover : List κ} (hlam : 0 ≤ lam) (ha : ∀ k ∈ cover, 0 ≤ a k)
  (hz : ∀ k ∈ cover, z k = 0 ∨ z k = 1)

include hlam ha hz

lemma min_le_shortfall :
    min (cover.map fun k => a k * (1 - z k)).sum lam ≤ shortfall a z lam cover := by
  induction cover with
  | nil => exact min_le_left 0 lam
  | cons k cover ih =>
    have hrest := ih (fun j hj => ha j (mem_cons_of_mem k hj))
      fun j hj => hz j (mem_cons_of_mem k hj)
    have hk := ha k mem_cons_self
    rw [shortfall, map_cons, sum_cons, map_cons, sum_cons]
    rw [shortfall] at hrest
    rcases hz k mem_cons_self with hzk | hzk
    · rw [hzk, sub_zero, mul_one, mul_one]
      rcases le_total (a k) lam with hle | hle
      · rw [min_eq_left hle]
        rcases le_total (cover.map fun k => a k * (1 - z k)).sum lam with hs | hs
        · rw [min_eq_left hs] at hrest
          exact (min_le_left _ _).trans (by linarith)
        · rw [min_eq_right hs] at hrest
          exact (min_le_right _ _).trans (by linarith)
      · rw [min_eq_right hle]
        have hnonneg : 0 ≤ (cover.map fun k => min (a k) lam * (1 - z k)).sum := by
          refine sum_nonneg fun r hr => ?_
          obtain ⟨j, hj, rfl⟩ := mem_map.mp hr
          have hj' := mem_cons_of_mem k hj
          refine mul_nonneg (le_min (ha j hj') hlam) ?_
          rcases hz j hj' with h | h
          · rw [h, sub_zero]
            exact zero_le_one
          · rw [h, sub_self]
        exact (min_le_right _ _).trans (by linarith)
    · rw [hzk, sub_self, mul_zero, mul_zero, zero_add, zero_add]
      exact hrest

/-- The large weights of a cover, the largest first. -/
lemma lift_le_shortfall (hsorted : (cover.map a).Pairwise (· ≥ ·))
    (hd : lam ≤ (cover.map fun k => a k * (1 - z k)).sum) :
    lam + lift lam ((cover.map a).filter fun b => decide (lam < b))
      ((cover.map fun k => a k * (1 - z k)).sum - lam) ≤ shortfall a z lam cover := by
  induction cover with
  | nil =>
    have hzero : lam = 0 := le_antisymm hd hlam
    subst hzero
    simp [shortfall, lift]
  | cons k cover ih =>
    have ha' : ∀ j ∈ cover, 0 ≤ a j := fun j hj => ha j (mem_cons_of_mem k hj)
    have hz' : ∀ j ∈ cover, z j = 0 ∨ z j = 1 := fun j hj => hz j (mem_cons_of_mem k hj)
    obtain ⟨hfirst, hsorted'⟩ := pairwise_cons.mp hsorted
    rw [map_cons, sum_cons] at hd
    rw [map_cons, map_cons, sum_cons]
    rcases le_or_gt (a k) lam with hsmall | hlarge
    · -- no weight is large, and nothing is cut off
      have hall : ∀ b ∈ a k :: cover.map a, b ≤ lam := by
        intro b hb
        rcases mem_cons.mp hb with rfl | hb
        · exact hsmall
        · exact (hfirst b hb).trans hsmall
      have hnone : (a k :: cover.map a).filter (fun b => decide (lam < b)) = [] :=
        filter_eq_nil_iff.mpr fun b hb => by simpa using hall b hb
      have hwhole : shortfall a z lam (k :: cover) =
          a k * (1 - z k) + (cover.map fun k => a k * (1 - z k)).sum := by
        rw [shortfall, map_cons, sum_cons, min_eq_left hsmall]
        refine congrArg (a k * (1 - z k) + ·) (congrArg sum (map_congr_left ?_))
        intro j hj
        rw [min_eq_left (hall _ (mem_cons_of_mem _ (mem_map_of_mem hj)))]
      rw [hnone, hwhole, lift]
      linarith
    · have hfilter : (a k :: cover.map a).filter (fun b => decide (lam < b)) =
          a k :: (cover.map a).filter fun b => decide (lam < b) :=
        filter_cons_of_pos (by simpa using hlarge)
      have hcut : shortfall a z lam (k :: cover) = lam * (1 - z k) + shortfall a z lam cover := by
        rw [shortfall, map_cons, sum_cons, min_eq_right hlarge.le]
        rfl
      rw [hfilter, hcut]
      rcases hz k mem_cons_self with hzk | hzk
      · rw [hzk, sub_zero, mul_one, mul_one]
        generalize hsum : (cover.map fun k => a k * (1 - z k)).sum = d at *
        have hmin : min d lam ≤ shortfall a z lam cover :=
          hsum ▸ min_le_shortfall hlam ha' hz'
        have hd0 : 0 ≤ d := by
          rw [← hsum]
          refine sum_nonneg fun r hr => ?_
          obtain ⟨j, hj, rfl⟩ := mem_map.mp hr
          refine mul_nonneg (ha' j hj) ?_
          rcases hz' j hj with h | h
          · rw [h, sub_zero]
            exact zero_le_one
          · rw [h, sub_self]
        rw [lift]
        split_ifs with hlow hmid
        · have hnonneg : 0 ≤ min d lam := le_min hd0 hlam
          linarith
        · rw [min_eq_left (by linarith)] at hmin
          linarith
        · have hrest := ih ha' hz' hsorted' (by linarith)
          have hshift : a k + d - lam - a k = d - lam := by ring
          rw [hshift]
          linarith
      · rw [hzk, sub_self, mul_zero, mul_zero, zero_add, zero_add]
        rw [hzk, sub_self, mul_zero, zero_add] at hd
        have hrest := ih ha' hz' hsorted' hd
        have hdrop := lift_cons_le hlam (a := a k)
          (l := (cover.map a).filter fun b => decide (lam < b))
          (u := (cover.map fun k => a k * (1 - z k)).sum - lam) ?_ ?_ (by linarith)
        · linarith
        · rw [← hfilter]
          exact hsorted.sublist filter_sublist
        · intro b hb
          rw [← hfilter] at hb
          exact (lt_of_mem_large hb).le

/-- The inequality of a cover with excess `lam`, its other terms lifted. -/
lemma cover_le (hsorted : (cover.map a).Pairwise (· ≥ ·)) {u s : K} (hu : 0 ≤ u) (hs : 0 ≤ s)
    (hd : lam + u ≤ (cover.map fun k => a k * (1 - z k)).sum + s) :
    lam + lift lam ((cover.map a).filter fun b => decide (lam < b)) u ≤
      shortfall a z lam cover + s := by
  have hlarge : ∀ b ∈ (cover.map a).filter fun b => decide (lam < b), lam ≤ b :=
    fun b hb => (lt_of_mem_large hb).le
  have hself := lift_le_self hlarge hu
  have hmin := min_le_shortfall hlam ha hz
  generalize hsum : (cover.map fun k => a k * (1 - z k)).sum = d at *
  rcases le_or_gt lam d with hcovered | hshort
  · rw [min_eq_right hcovered] at hmin
    rcases le_or_gt u s with hus | hus
    · linarith
    · -- what the surplus does not pay for is missing from the cover
      have hlift := lift_le_shortfall hlam ha hz hsorted (hsum ▸ hcovered)
      rw [hsum] at hlift
      have hsplit := lift_add_le hlarge (u := u - s) hs
      rw [sub_add_cancel] at hsplit
      have hmono := lift_mono hlam (l := (cover.map a).filter fun b => decide (lam < b))
        (u := u - s) (v := d - lam) (by linarith)
      linarith
  · rw [min_eq_left hshort.le] at hmin
    linarith

end Cover

end CoverLifting
