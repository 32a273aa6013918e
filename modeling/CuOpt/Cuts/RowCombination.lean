import CuOpt.Cuts.MirCuts
import CuOpt.Cuts.StrongCgSound
import CuOpt.Library.ScratchPad

/-! Rows are combined and slacks substituted in one dense workspace. On the points of the equalities a
run of these steps keeps the slack of an inequality, up to the pivots' own; and small coefficients are
removed at the bounds that weaken it. -/

namespace CuOpt.Cuts

open List hiding keys keys_append
open SparseList QuadProgram Sorting
open Prod (snd)
open ScratchPad (addAllToPad clean)

section Slack

variable {x : ℕ → ℚ} {c : Inequality}

lemma slack_le_of_replace {g : ℕ × ℚ → List (ℕ × ℚ) × ℚ} (c : Inequality)
    (hg : ∀ q ∈ c.vector, q.2 * x q.1 ≤ dot (g q).1 x + (g q).2) :
    c.slack x ≤ (c.replace g).slack x := by
  obtain ⟨l, r⟩ := c
  have hsum : dot l x ≤ dot (l.flatMap fun q => (g q).1) x + (l.map fun q => (g q).2).sum := by
    induction l with
    | nil => exact (add_zero _).ge
    | cons q l ih =>
      have hq := hg q mem_cons_self
      have hl := ih fun r hr => hg r (mem_cons_of_mem q hr)
      simp only [dot, flatMap_cons, map_append, sum_append, map_cons,
        sum_cons] at hq hl ⊢
      linarith
  simp only [Inequality.slack, Inequality.replace]
  linarith

lemma slack_squeeze (l : List (ℕ × ℚ)) (r : ℚ) :
    Inequality.slack ⟨squeeze l, r⟩ x = Inequality.slack ⟨l, r⟩ x := by
  rw [Inequality.slack, Inequality.slack, MixedProblem.dot_squeeze]

lemma dot_find_add_filter {v : List (ℕ × ℚ)} (hv : (keys v).Nodup) (j : ℕ) (x : ℕ → ℚ) :
    ((v.find? fun q => decide (q.1 = j)).elim 0 snd) * x j +
      dot (v.filter fun q => decide (q.1 ≠ j)) x = dot v x := by
  cases hfind : v.find? fun q => decide (q.1 = j) with
  | none =>
    have hall : ∀ q ∈ v, decide (q.1 ≠ j) = true := by
      intro q hq
      simpa using find?_eq_none.mp hfind q hq
    rw [filter_eq_self.mpr hall, Option.elim_none, zero_mul, zero_add]
  | some p =>
    have hp : p.1 = j := by simpa using find?_some hfind
    subst hp
    have hfilter : (v.filter fun q => decide (q.1 ≠ p.1)) =
        v.filter fun q => !decide (q.1 = p.1) := by
      refine filter_congr fun q _ => ?_
      simp
    rw [dot_perm (perm_cons_filter_key hv (mem_of_find?_eq_some hfind)) x, hfilter]
    rfl

lemma lt_of_mem_sortVector {n : ℕ} {v : List (ℕ × ℚ)} {j : ℕ}
    (hn : ∀ j ∈ keys v, j < n) (hj : j ∈ keys (sortVector n v)) : j < n := by
  unfold sortVector at hj
  split_ifs at hj
  · exact hn j hj
  · obtain ⟨r, hr, rfl⟩ := mem_map.mp hj
    obtain ⟨k, hk, rfl⟩ := mem_map.mp hr
    exact mem_range.mp (mem_of_mem_filter hk)
  · exact hn j (((perm_insertionSort _ v).map Prod.fst).mem_iff.mp hj)

lemma slack_combineRows {xj : ℕ} {pivotRow : Inequality} (hpivot : (keys pivotRow.vector).Nodup)
    (hc : (keys c.vector).Nodup) :
    (combineRows xj pivotRow c).1.slack x =
      c.slack x + (combineRows xj pivotRow c).2 * pivotRow.slack x := by
  unfold combineRows
  dsimp only
  split_ifs with hzero
  · rw [zero_mul, add_zero]
  · have halj := fun h => hzero (.inl h)
    have hpivotSum := dot_find_add_filter hpivot xj x
    have hcSum := dot_find_add_filter hc xj x
    generalize (pivotRow.vector.find? fun q => decide (q.1 = xj)).elim 0 snd = alj at *
    generalize (c.vector.find? fun q => decide (q.1 = xj)).elim 0 snd = aij at *
    have hscaled : dot ((pivotRow.vector.filter fun q => decide (q.1 ≠ xj)).map fun q =>
        (q.1, -(aij / alj) * q.2)) x =
        -(aij / alj) * dot (pivotRow.vector.filter fun q => decide (q.1 ≠ xj)) x := by
      rw [dot, dot, map_map, ← sum_map_mul_left]
      refine congrArg sum (map_congr_left fun q _ => ?_)
      exact mul_assoc _ _ _
    rw [Inequality.slack, Inequality.slack, Inequality.slack, dot_gather, dot_append, hscaled,
      ← hpivotSum, ← hcSum]
    have hcancel : aij / alj * (alj * x xj) = aij * x xj := by
      field_simp
    linear_combination hcancel

lemma elim_find_of_mem {v : List (ℕ × ℚ)} (hv : (keys v).Nodup) {p : ℕ × ℚ} (hp : p ∈ v) :
    (v.find? fun q => decide (q.1 = p.1)).elim 0 snd = p.2 := by
  cases hfind : v.find? fun q => decide (q.1 = p.1) with
  | none => exact absurd (decide_eq_true rfl) (find?_eq_none.mp hfind p hp)
  | some q =>
    have hq : q.1 = p.1 := by simpa using find?_some hfind
    rw [inj_on_of_nodup_map hv (mem_of_find?_eq_some hfind) hp hq]
    rfl

/-- No coefficient of the pivot's column is left, but for a zero that was there. -/
lemma combineRows_eliminates {pivotRow : Inequality} (hpivot : (keys pivotRow.vector).Nodup)
    (hc : (keys c.vector).Nodup) {p q : ℕ × ℚ} (hp : p ∈ pivotRow.vector) (hp0 : p.2 ≠ 0)
    (hq : q ∈ (combineRows p.1 pivotRow c).1.vector) (hkey : q.1 = p.1) : q.2 = 0 := by
  unfold combineRows at hq
  dsimp only at hq
  rw [elim_find_of_mem hpivot hp] at hq
  split_ifs at hq with hzero
  · rw [← hkey, elim_find_of_mem hc hq] at hzero
    exact hzero.resolve_left hp0
  · have hkeys := (mem_gather hq).1
    rw [keys_append, mem_append] at hkeys
    rcases hkeys with hkeys | hkeys
    · obtain ⟨r, hr, heq⟩ := mem_map.mp hkeys
      exact absurd (heq.trans hkey) (of_decide_eq_true (mem_filter.mp hr).2)
    · obtain ⟨r', hr', heq⟩ := mem_map.mp hkeys
      obtain ⟨r, hr, rfl⟩ := mem_map.mp hr'
      exact absurd (heq.trans hkey) (of_decide_eq_true (mem_filter.mp hr).2)

end Slack

section Small

variable {lp : LpProblem} {x : ℕ → ℚ}

lemma smallTerm_le {q : ℕ × ℚ} {w : ℚ} (hbounds : InBounds (lp.lower q.1) (lp.upper q.1) (x q.1))
    (h : smallTerm lp q = some w) : q.2 * x q.1 ≤ w := by
  unfold smallTerm at h
  split_ifs at h with hsmall hupper hlower
  · cases h
    obtain ⟨u, hu⟩ := Option.ne_none_iff_exists'.mp hupper.2
    rw [hu, Option.getD_some]
    exact mul_le_mul_of_nonneg_left (hbounds.2 u hu) hupper.1
  · cases h
    obtain ⟨l, hl⟩ := Option.ne_none_iff_exists'.mp hlower.2
    rw [hl, Option.getD_some]
    exact mul_le_mul_of_nonpos_left (hbounds.1 l hl) hlower.1

/-- Small coefficients go to the right-hand side at the bound that weakens the cut. -/
lemma slack_removeSmallCoefficients {c : Inequality}
    (hx : ∀ q ∈ c.vector, InBounds (lp.lower q.1) (lp.upper q.1) (x q.1)) :
    c.slack x ≤ (removeSmallCoefficients lp c).slack x := by
  have hle : c.slack x ≤ (c.replace fun q => (smallTerm lp q).elim ([q], 0)
      fun w => ([(q.1, 0)], w)).slack x := by
    refine slack_le_of_replace c fun q hq => ?_
    cases hterm : smallTerm lp q with
    | none => simp [dot]
    | some w =>
      have hterm' := smallTerm_le (hx q hq) hterm
      simpa [dot] using hterm'
  unfold removeSmallCoefficients
  dsimp only
  split_ifs
  · rw [slack_squeeze]
    exact hle
  · exact hle

lemma mem_removeSmallCoefficients {c : Inequality} {q : ℕ × ℚ} (hq : q ∈ c.vector)
    (hne : q.2 ≠ 0) (hupper : 0 < q.2 → lp.upper q.1 = none)
    (hlower : q.2 < 0 → lp.lower q.1 = none) : q ∈ (removeSmallCoefficients lp c).vector := by
  have hterm : smallTerm lp q = none := by
    unfold smallTerm
    split_ifs with hsmall hup hlow
    · exact absurd (hupper (lt_of_le_of_ne hup.1 hne.symm)) hup.2
    · exact absurd (hlower (lt_of_le_of_ne hlow.1 hne)) hlow.2
    · rfl
    · rfl
  have hreplaced : q ∈ (c.replace fun q => (smallTerm lp q).elim ([q], 0)
      fun w => ([(q.1, 0)], w)).vector := by
    refine mem_flatMap.mpr ⟨q, hq, ?_⟩
    dsimp only
    rw [hterm]
    exact mem_singleton_self q
  unfold removeSmallCoefficients
  dsimp only
  split_ifs
  · exact mem_filter.mpr ⟨hreplaced, by simpa using hne⟩
  · exact hreplaced

end Small

/-- The slack of a row is in no other row, with coefficient one or minus one. -/
structure UnitSlackForm extends SlackForm where
  slack_column : ∀ j ∈ newSlacks, ∃ i α, columns j = [(i, α)] ∧ (α = 1 ∨ α = -1)

def LpProblem.equalities (lp : LpProblem) : Set (ℕ → ℚ) :=
  {x | ∀ i < lp.numRows, dot (lp.rows i) x = lp.rhs i}

namespace UnitSlackForm

variable {lp : UnitSlackForm} {x : ℕ → ℚ} {c : Inequality}

lemma dot_substituteSlack (hx : x ∈ lp.equalities) {q : ℕ × ℚ} :
    dot (substituteSlack lp.toLpProblem q).1 x + (substituteSlack lp.toLpProblem q).2 =
      q.2 * x q.1 := by
  unfold substituteSlack
  split_ifs with hslack
  · obtain ⟨i, α, hcolumn, hα⟩ := lp.slack_column q.1 hslack
    rw [hcolumn]
    dsimp only
    have hmem : (i, α) ∈ lp.columns q.1 := hcolumn ▸ mem_singleton_self _
    obtain ⟨hi, hrow⟩ := lp.mem_rows q.1 (lp.slack_lt q.1 hslack) (i, α) hmem
    have hα0 : α ≠ 0 := by
      rcases hα with rfl | rfl
      · exact one_ne_zero
      · norm_num
    have hsplit := dot_perm (perm_cons_filter_key (lp.rows_nodup i hi) hrow) x
    have hfilter : ((lp.rows i).filter fun r => decide (r.1 ≠ q.1)) =
        (lp.rows i).filter fun r => !decide (r.1 = q.1) := by
      refine filter_congr fun r _ => ?_
      simp
    rw [hx i hi] at hsplit
    rw [hfilter]
    have hscaled : dot (((lp.rows i).filter fun r => !decide (r.1 = q.1)).map fun r =>
        (r.1, -q.2 * r.2 / α)) x =
        -q.2 / α * dot ((lp.rows i).filter fun r => !decide (r.1 = q.1)) x := by
      rw [dot, dot, map_map, ← sum_map_mul_left]
      refine congrArg sum (map_congr_left fun r _ => ?_)
      simp only [Function.comp_apply]
      ring
    have hcons : dot ((q.1, α) :: (lp.rows i).filter fun r => !decide (r.1 = q.1)) x =
        α * x q.1 + dot ((lp.rows i).filter fun r => !decide (r.1 = q.1)) x := rfl
    rw [hcons] at hsplit
    rw [hscaled, hsplit]
    field_simp
    ring
  · simp [dot]

lemma lt_of_mem_substituteSlack {q r : ℕ × ℚ} (hq : q.1 < lp.numCols)
    (hr : r ∈ (substituteSlack lp.toLpProblem q).1) : r.1 < lp.numCols := by
  unfold substituteSlack at hr
  split_ifs at hr with hslack
  · obtain ⟨i, α, hcolumn, -⟩ := lp.slack_column q.1 hslack
    rw [hcolumn] at hr
    dsimp only at hr
    obtain ⟨r', hr', rfl⟩ := mem_map.mp hr
    have hmem : (i, α) ∈ lp.columns q.1 := hcolumn ▸ mem_singleton_self _
    obtain ⟨hi, -⟩ := lp.mem_rows q.1 (lp.slack_lt q.1 hslack) (i, α) hmem
    exact lp.rows_lt i hi r' (mem_of_mem_filter hr')
  · rw [mem_singleton.mp hr]
    exact hq

lemma substituteSlacks_sound (hc : ∀ j ∈ keys c.vector, j < lp.numCols) :
    (∀ j ∈ keys (substituteSlacks lp.toLpProblem c).vector, j < lp.numCols) ∧
      ∀ x ∈ lp.equalities, (substituteSlacks lp.toLpProblem c).slack x = c.slack x := by
  unfold substituteSlacks
  split_ifs
  · dsimp only
    have hcolumns : ∀ j ∈ keys ((c.replace (substituteSlack lp.toLpProblem)).gather).vector,
        j < lp.numCols := by
      intro j hj
      obtain ⟨r, hr, rfl⟩ := mem_map.mp hj
      obtain ⟨r', hr', heq⟩ := mem_map.mp (mem_gather hr).1
      obtain ⟨q, hq, hqr⟩ := mem_flatMap.mp hr'
      exact heq ▸ lt_of_mem_substituteSlack (hc q.1 (mem_map_of_mem hq)) hqr
    have hnodup : (keys ((c.replace (substituteSlack lp.toLpProblem)).gather).vector).Nodup :=
      keys_gather_nodup _
    have hlt : ∀ p ∈ ((c.replace (substituteSlack lp.toLpProblem)).gather).vector,
        p.1 < lp.numCols := fun p hp => hcolumns p.1 (mem_map_of_mem hp)
    refine ⟨fun j hj => lt_of_mem_sortVector hcolumns hj, fun x hx => ?_⟩
    calc dot (sortVector lp.numCols ((c.replace (substituteSlack lp.toLpProblem)).gather).vector) x -
          ((c.replace (substituteSlack lp.toLpProblem)).gather).rhs
        = ((c.replace (substituteSlack lp.toLpProblem)).gather).slack x := by
          rw [dot_sortVector hnodup hlt, Inequality.slack]
      _ = (c.replace (substituteSlack lp.toLpProblem)).slack x := slack_gather _ x
      _ = c.slack x := slack_replace c fun q _ => dot_substituteSlack hx
  · exact ⟨hc, fun _ _ => rfl⟩

end UnitSlackForm

section Pad

def combineRowsInPad (pad : ScratchPad ℕ ℚ) (xj : ℕ) (pivotRow c : Inequality) :
    Inequality × ℚ × ScratchPad ℕ ℚ :=
  let alj := (pivotRow.vector.find? fun q => decide (q.1 = xj)).elim 0 snd
  if alj = 0 then (c, 0, pad)
  else
    -- the inequality goes to the pad but for column `xj`, whose last coefficient is kept
    let (pad, aij) := c.vector.foldl
      (fun st q => if q.1 ≠ xj then (st.1.addToPad q.1 q.2, st.2) else (st.1, q.2)) (pad, 0)
    if aij = 0 then (c, 0, pad.clearPad)
    else
      let pivotValue := aij / alj
      let pad := pivotRow.vector.foldl
        (fun pad q => if q.1 ≠ xj then pad.addToPad q.1 (-pivotValue * q.2) else pad) pad
      (⟨pad.getPad, c.rhs - pivotValue * pivotRow.rhs⟩, -pivotValue, pad.clearPad)

variable (lp : LpProblem)

def substituteEntryInPad (st : ScratchPad ℕ ℚ × ℚ) (q : ℕ × ℚ) : ScratchPad ℕ ℚ × ℚ :=
  if q.1 ∈ lp.newSlacks then
    match lp.columns q.1 with
    | [] => (st.1.addToPad q.1 q.2, st.2)
    | (i, alpha) :: _ =>
      ((lp.rows i).foldl
          (fun pad r => if r.1 ≠ q.1 then pad.addToPad r.1 (-q.2 * r.2 / alpha) else pad) st.1,
        st.2 - q.2 * lp.rhs i / alpha)
  else (st.1.addToPad q.1 q.2, st.2)

def substituteSlacksInPad (pad : ScratchPad ℕ ℚ) (c : Inequality) : Inequality × ScratchPad ℕ ℚ :=
  let (pad, rhs) := c.vector.foldl (substituteEntryInPad lp) (pad, c.rhs)
  if c.vector.any fun q => decide (q.1 ∈ lp.newSlacks) then
    (⟨sortVector lp.numCols pad.getPad, rhs⟩, pad.clearPad)
  else (c, pad.clearPad)

lemma foldl_addToPad_ne (pad : ScratchPad ℕ ℚ) (l : List (ℕ × ℚ)) (j : ℕ) (f : ℚ → ℚ) :
    l.foldl (fun pad q => if q.1 ≠ j then pad.addToPad q.1 (f q.2) else pad) pad =
      pad.addAllToPad ((l.filter fun q => decide (q.1 ≠ j)).map fun q => (q.1, f q.2)) := by
  induction l generalizing pad with
  | nil => rfl
  | cons q l ih =>
    rw [foldl_cons, ih, filter_cons]
    by_cases hq : q.1 = j
    · simp [hq]
    · simp [hq, addAllToPad]

/-- The pass over an inequality splits the coefficient of one column off. -/
lemma foldl_split (pad : ScratchPad ℕ ℚ) {l : List (ℕ × ℚ)} (hl : (keys l).Nodup) (j : ℕ)
    (a : ℚ) :
    l.foldl (fun st q => if q.1 ≠ j then (st.1.addToPad q.1 q.2, st.2) else (st.1, q.2)) (pad, a) =
      (pad.addAllToPad (l.filter fun q => decide (q.1 ≠ j)),
        (l.find? fun q => decide (q.1 = j)).elim a snd) := by
  induction l generalizing pad a with
  | nil => rfl
  | cons q l ih =>
    obtain ⟨hq, hnodup⟩ := nodup_cons.mp hl
    rw [foldl_cons]
    rcases eq_or_ne q.1 j with hj | hj
    · have hnone : (l.find? fun r => decide (r.1 = j)) = none := by
        apply find?_eq_none.mpr
        intro r hr
        have hne : r.1 ≠ q.1 := fun heq => hq (heq ▸ mem_map_of_mem hr)
        simpa [← hj] using hne
      rw [if_neg (by simpa using hj), ih _ hnodup, hnone, find?_cons_of_pos (by simpa using hj),
        filter_cons_of_neg (by simpa using hj)]
      rfl
    · rw [if_pos hj, ih _ hnodup, find?_cons_of_neg (by simpa using hj),
        filter_cons_of_pos (by simpa using hj)]
      rfl

/-- In a clean pad rows are combined as without it, and the pad is clean again. -/
lemma combineRowsInPad_clean (xj : ℕ) (pivotRow : Inequality) {c : Inequality}
    (hc : (keys c.vector).Nodup) :
    combineRowsInPad clean xj pivotRow c =
      ((combineRows xj pivotRow c).1, (combineRows xj pivotRow c).2, clean) := by
  rw [combineRowsInPad, combineRows]
  dsimp only
  rw [foldl_split _ hc]
  generalize (pivotRow.vector.find? fun q => decide (q.1 = xj)).elim 0 snd = alj
  generalize (c.vector.find? fun q => decide (q.1 = xj)).elim 0 snd = aij
  have hfirst := ScratchPad.clean_holds.addAllToPad (c.vector.filter fun q => decide (q.1 ≠ xj))
  by_cases halj : alj = 0
  · rw [if_pos halj, if_pos (.inl halj)]
  · rw [if_neg halj]
    by_cases haij : aij = 0
    · rw [if_pos haij, if_pos (.inr haij), hfirst.clearPad]
    · rw [if_neg haij, if_neg (by simp [halj, haij]), foldl_addToPad_ne]
      have hsecond := hfirst.addAllToPad
        ((pivotRow.vector.filter fun q => decide (q.1 ≠ xj)).map fun q => (q.1, -(aij / alj) * q.2))
      rw [nil_append] at hsecond
      rw [hsecond.getPad, hsecond.clearPad]

lemma substituteEntryInPad_eq (st : ScratchPad ℕ ℚ × ℚ) (q : ℕ × ℚ) :
    substituteEntryInPad lp st q =
      (st.1.addAllToPad (substituteSlack lp q).1, st.2 - (substituteSlack lp q).2) := by
  rw [substituteEntryInPad, substituteSlack]
  split_ifs with hslack
  · cases lp.columns q.1 with
    | nil =>
      dsimp only
      rw [sub_zero]
      rfl
    | cons p _ =>
      dsimp only
      rw [foldl_addToPad_ne st.1 (lp.rows p.1) q.1 fun v => -q.2 * v / p.2]
  · rw [sub_zero]
    rfl

lemma foldl_substituteEntryInPad (st : ScratchPad ℕ ℚ × ℚ) (l : List (ℕ × ℚ)) :
    l.foldl (substituteEntryInPad lp) st =
      (st.1.addAllToPad (l.flatMap fun q => (substituteSlack lp q).1),
        st.2 - (l.map fun q => (substituteSlack lp q).2).sum) := by
  induction l generalizing st with
  | nil =>
    rw [map_nil, sum_nil, sub_zero]
    rfl
  | cons q l ih =>
    rw [foldl_cons, ih, substituteEntryInPad_eq, flatMap_cons, map_cons,
      sum_cons, sub_sub, addAllToPad, addAllToPad,
      addAllToPad, foldl_append]

lemma substituteSlacksInPad_clean (c : Inequality) :
    substituteSlacksInPad lp clean c = (substituteSlacks lp c, clean) := by
  rw [substituteSlacksInPad, substituteSlacks, foldl_substituteEntryInPad]
  have hpad := ScratchPad.clean_holds.addAllToPad
    (c.vector.flatMap fun q => (substituteSlack lp q).1)
  rw [nil_append] at hpad
  dsimp only
  rw [hpad.clearPad, hpad.getPad]
  split_ifs
  · rfl
  · rfl

end Pad

structure SparseRow (n : ℕ) extends Inequality where
  nodup : (keys vector).Nodup
  lt : ∀ j ∈ keys vector, j < n

inductive RowStep (n : ℕ) where
  | combineRows (xj : ℕ) (pivotRow : SparseRow n)
  | substituteSlacks

structure RowState where
  inequality : Inequality
  added : List (ℚ × Inequality)
  pad : ScratchPad ℕ ℚ

def RowState.start (c : Inequality) : RowState := ⟨c, [], ScratchPad.clean⟩

def combinedSlack (c : Inequality) (added : List (ℚ × Inequality)) (x : ℕ → ℚ) : ℚ :=
  c.slack x + (added.map fun a => a.1 * a.2.slack x).sum

def RowState.step (lp : LpProblem) (st : RowState) : RowStep lp.numCols → RowState
  | .combineRows xj pivotRow =>
    let (inequality, multiplier, pad) :=
      combineRowsInPad st.pad xj pivotRow.toInequality st.inequality
    ⟨inequality, st.added ++ [(multiplier, pivotRow.toInequality)], pad⟩
  | .substituteSlacks =>
    let (inequality, pad) := substituteSlacksInPad lp st.pad st.inequality
    ⟨inequality, st.added, pad⟩

def RowState.run (lp : LpProblem) (st : RowState) (steps : List (RowStep lp.numCols)) : RowState :=
  steps.foldl (RowState.step lp) st

structure RowState.Sound (lp : UnitSlackForm) (c : Inequality) (st : RowState) : Prop where
  pad : st.pad = clean
  nodup : (keys st.inequality.vector).Nodup
  lt : ∀ j ∈ keys st.inequality.vector, j < lp.numCols
  slack : ∀ x ∈ lp.equalities, st.inequality.slack x = combinedSlack c st.added x

section Run

variable {lp : UnitSlackForm} {c : Inequality} {st : RowState}

lemma RowState.Sound.step_combineRows (h : st.Sound lp c) (xj : ℕ)
    (pivotRow : SparseRow lp.numCols) :
    st.step lp.toLpProblem (.combineRows xj pivotRow) =
      ⟨(CuOpt.Cuts.combineRows xj pivotRow.toInequality st.inequality).1,
        st.added ++ [((CuOpt.Cuts.combineRows xj pivotRow.toInequality st.inequality).2,
          pivotRow.toInequality)], ScratchPad.clean⟩ := by
  rw [RowState.step, h.pad, combineRowsInPad_clean _ _ h.nodup]

lemma RowState.Sound.combineRows (h : st.Sound lp c) (xj : ℕ) (pivotRow : SparseRow lp.numCols) :
    (st.step lp.toLpProblem (.combineRows xj pivotRow)).Sound lp c := by
  rw [h.step_combineRows]
  constructor
  case pad => rfl
  case nodup =>
    unfold CuOpt.Cuts.combineRows
    dsimp only
    split_ifs
    · exact h.nodup
    · exact keys_gather_nodup _
  case lt =>
    unfold CuOpt.Cuts.combineRows
    dsimp only
    split_ifs
    · exact h.lt
    · intro j hj
      obtain ⟨r, hr, rfl⟩ := mem_map.mp hj
      have hkey := (mem_gather hr).1
      rw [keys_append] at hkey
      rcases mem_append.mp hkey with hkey | hkey
      · obtain ⟨q, hq, heq⟩ := mem_map.mp hkey
        exact heq ▸ h.lt q.1 (mem_map_of_mem (mem_of_mem_filter hq))
      · obtain ⟨q', hq', heq⟩ := mem_map.mp hkey
        obtain ⟨q, hq, rfl⟩ := mem_map.mp hq'
        exact heq ▸ pivotRow.lt q.1 (mem_map_of_mem (mem_of_mem_filter hq))
  case slack =>
    intro x hx
    rw [slack_combineRows pivotRow.nodup h.nodup, h.slack x hx, combinedSlack, combinedSlack,
      map_append, sum_append, map_singleton, sum_singleton]
    ring

lemma RowState.Sound.substituteSlacks (h : st.Sound lp c) :
    (st.step lp.toLpProblem .substituteSlacks).Sound lp c := by
  have hstep : st.step lp.toLpProblem .substituteSlacks =
      ⟨CuOpt.Cuts.substituteSlacks lp.toLpProblem st.inequality, st.added, ScratchPad.clean⟩ := by
    rw [RowState.step, h.pad, substituteSlacksInPad_clean]
  obtain ⟨hlt, hslack⟩ := UnitSlackForm.substituteSlacks_sound h.lt
  rw [hstep]
  constructor
  case pad => rfl
  case nodup =>
    unfold CuOpt.Cuts.substituteSlacks
    split_ifs
    · exact (sorted_keys_sortVector (keys_gather_nodup _)).imp fun hlt => hlt.ne
    · exact h.nodup
  case lt => exact hlt
  case slack => exact fun x hx => (hslack x hx).trans (h.slack x hx)

lemma RowState.Sound.run (h : st.Sound lp c) (steps : List (RowStep lp.numCols)) :
    (st.run lp.toLpProblem steps).Sound lp c := by
  induction steps generalizing st with
  | nil => exact h
  | cons step steps ih =>
    cases step with
    | combineRows xj pivotRow => exact ih (h.combineRows xj pivotRow)
    | substituteSlacks => exact ih h.substituteSlacks

lemma RowState.start_sound (c : SparseRow lp.numCols) :
    (RowState.start c.toInequality).Sound lp c.toInequality where
  pad := rfl
  nodup := c.nodup
  lt := c.lt
  slack x _ := by simp [RowState.start, combinedSlack]

lemma combinedSlack_of_rows {added : List (ℚ × Inequality)}
    (h : ∀ a ∈ added, ∃ i < lp.numRows, a.2 = ⟨lp.rows i, lp.rhs i⟩) {x : ℕ → ℚ}
    (hx : x ∈ lp.equalities) : combinedSlack c added x = c.slack x := by
  rw [combinedSlack, add_eq_left]
  apply sum_eq_zero
  intro v hv
  obtain ⟨a, ha, rfl⟩ := mem_map.mp hv
  obtain ⟨i, hi, heq⟩ := h a ha
  rw [heq, Inequality.slack, hx i hi, sub_self, mul_zero]

end Run

def RowStep.pivot {n : ℕ} : RowStep n → Option Inequality
  | .combineRows _ pivotRow => some pivotRow.toInequality
  | .substituteSlacks => none

lemma RowState.added_run (lp : LpProblem) (st : RowState) (steps : List (RowStep lp.numCols)) :
    (st.run lp steps).added.map snd =
      st.added.map snd ++ steps.filterMap RowStep.pivot := by
  induction steps generalizing st with
  | nil => simp [RowState.run]
  | cons step steps ih =>
    have hrest := ih (st.step lp step)
    cases step with
    | combineRows xj pivotRow =>
      have hadded : (st.step lp (.combineRows xj pivotRow)).added.map snd =
          st.added.map snd ++ [pivotRow.toInequality] := by
        simp [RowState.step]
      rw [hadded, append_assoc] at hrest
      exact hrest
    | substituteSlacks => exact hrest

/-- After any steps the slack on the points of the equalities is that of the combination, which is the
inequality's own when the pivots are rows of the equalities, and the workspace is clean. A further pivot
eliminates its column. Small coefficients are removed within the bounds without a loss, and kept when
their bound is infinite. -/
theorem rowSteps_sound (lp : UnitSlackForm) :
    (∀ (c : SparseRow lp.numCols) (steps : List (RowStep lp.numCols)),
      let st := (RowState.start c.toInequality).run lp.toLpProblem steps
      st.pad = clean ∧ st.added.map snd = steps.filterMap RowStep.pivot ∧
      (∀ x ∈ lp.equalities, st.inequality.slack x = combinedSlack c.toInequality st.added x) ∧
      ((∀ pivot ∈ steps.filterMap RowStep.pivot, ∃ i < lp.numRows, pivot = ⟨lp.rows i, lp.rhs i⟩) →
        ∀ x ∈ lp.equalities, st.inequality.slack x = c.slack x) ∧
      ∀ (pivotRow : SparseRow lp.numCols), ∀ p ∈ pivotRow.vector, p.2 ≠ 0 →
        ∀ q ∈ (st.step lp.toLpProblem (.combineRows p.1 pivotRow)).inequality.vector,
          q.1 = p.1 → q.2 = 0) ∧
    ∀ c : Inequality,
      (∀ x : ℕ → ℚ, (∀ q ∈ c.vector, InBounds (lp.lower q.1) (lp.upper q.1) (x q.1)) →
        c.slack x ≤ (removeSmallCoefficients lp.toLpProblem c).slack x) ∧
      ∀ q ∈ c.vector, q.2 ≠ 0 → (0 < q.2 → lp.upper q.1 = none) → (q.2 < 0 → lp.lower q.1 = none) →
        q ∈ (removeSmallCoefficients lp.toLpProblem c).vector := by
  refine ⟨fun c steps => ?_, fun c => ⟨fun x hx => ?_, fun q hq hne hupper hlower => ?_⟩⟩
  · have hsound : ((RowState.start c.toInequality).run lp.toLpProblem steps).Sound lp
        c.toInequality := (RowState.start_sound c).run steps
    have hadded := RowState.added_run lp.toLpProblem (RowState.start c.toInequality) steps
    rw [RowState.start, map_nil, nil_append, ← RowState.start] at hadded
    refine ⟨hsound.pad, hadded, hsound.slack, fun hrows x hx => ?_, ?_⟩
    · rw [hsound.slack x hx]
      refine combinedSlack_of_rows (fun a ha => hrows a.2 ?_) hx
      rw [← hadded]
      exact mem_map_of_mem ha
    · intro pivotRow p hp hp0 q hq
      rw [hsound.step_combineRows] at hq
      exact combineRows_eliminates pivotRow.nodup hsound.nodup hp hp0 hq
  · exact slack_removeSmallCoefficients hx
  · exact mem_removeSmallCoefficients hq hne hupper hlower

lemma mem_two_lt : ∀ j ∈ [2], j < 3 := by decide

/-- One row, `2 x₀ + x₁ + x₂ = 4` with the slack `x₂`. -/
def oneSlack : UnitSlackForm where
  numRows := 1
  numCols := 3
  columns j := [(0, if j = 0 then 2 else 1)]
  rows _ := [(0, 2), (1, 1), (2, 1)]
  rhs _ := 4
  lower _ := some 0
  upper _ := none
  varTypes _ := .continuous
  newSlacks := [2]
  rows_nodup := by decide
  rows_lt := by decide
  mem_rows := by decide
  slack_lt := mem_two_lt
  slack_continuous _ _ := rfl
  slack_column := by
    intro j hj
    obtain rfl := mem_singleton.mp hj
    exact ⟨0, 1, rfl, .inl rfl⟩

def slackedCut : SparseRow 3 := ⟨⟨[(0, 1), (2, 3)], 1⟩, by decide, by decide⟩

/-- The pivot leaves `-x₁ / 2 + 5 x₂ / 2 ≥ -1`, from which the slack is substituted. -/
def slackSteps : List (RowStep 3) :=
  [.combineRows 0 ⟨⟨oneSlack.rows 0, oneSlack.rhs 0⟩, by decide, by decide⟩, .substituteSlacks]

theorem rowSteps_oneSlack :
    ((RowState.start slackedCut.toInequality).run oneSlack.toLpProblem slackSteps).inequality =
        ⟨[(0, -5), (1, -3)], -11⟩ ∧
      ∀ x ∈ oneSlack.equalities, Inequality.slack ⟨[(0, -5), (1, -3)], -11⟩ x =
        slackedCut.slack x := by
  have hrun : ((RowState.start slackedCut.toInequality).run oneSlack.toLpProblem
      slackSteps).inequality = ⟨[(0, -5), (1, -3)], -11⟩ := by
    decide +kernel
  refine ⟨hrun, ?_⟩
  rw [← hrun]
  refine ((rowSteps_sound oneSlack).1 slackedCut slackSteps).2.2.2.1 fun pivot hpivot => ?_
  exact ⟨0, by decide, mem_singleton.mp hpivot⟩

end CuOpt.Cuts
