import CuOpt.Simplex.ImpliedBounds

/-! The dual correction of postsolve zeroes every bounded free variable exactly if no bounding row
contains a variable that is recorded later. -/

namespace CuOpt.Simplex

open SparseList QuadProgram List Function

lemma exists_stationary {P : Program ℕ ℕ ℚ} {order : List BoundedFreeVar}
    (hrow : ∀ b ∈ order, b.constraint ∈ P.rows) (hdiag : ∀ b ∈ order, P.a b.constraint b.var ≠ 0)
    (horder : order.Pairwise fun u v => P.a u.constraint v.var = 0) (g : ℕ → ℚ) :
    ∃ t, P.Stationary t ∧ ∀ b ∈ order, t.z b.var = g b.var := by
  induction order with
  | nil =>
    refine ⟨⟨fun _ => 0, fun _ => 0, P.gradient fun _ => 0⟩, fun j _ => ?_, fun b hb =>
      absurd hb not_mem_nil⟩
    have hcol : P.colValue (fun _ => 0) j = 0 := Finset.sum_eq_zero fun i _ => mul_zero _
    rw [hcol, zero_add]
  | cons b order ih =>
    obtain ⟨hzero, hrest⟩ := pairwise_cons.mp horder
    obtain ⟨t, ht, hz⟩ := ih (fun b' hb' => hrow b' (mem_cons_of_mem b hb'))
      (fun b' hb' => hdiag b' (mem_cons_of_mem b hb')) hrest
    refine ⟨P.dualShift b.constraint ((t.z b.var - g b.var) / P.a b.constraint b.var) t,
      P.stationary_dualShift (hrow b mem_cons_self) _ ht, fun b' hb' => ?_⟩
    change t.z b'.var - P.a b.constraint b'.var * _ = g b'.var
    rcases mem_cons.mp hb' with rfl | hmem
    · rw [mul_div_cancel₀ _ (hdiag b' mem_cons_self), sub_sub_cancel]
    · rw [hzero b' hmem, zero_mul, sub_zero]
      exact hz b' hmem

section Correction

variable {problem : LpProblem} {t : Solution}

lemma correctDual_z (hwf : problem.WellFormed) (b : BoundedFreeVar) {j : ℕ}
    (hj : j < problem.numCols) : (correctDual problem.A.toCompressedRow b t).z j =
      t.z j - t.z b.var / b.coefficient * problem.A.entry b.constraint j := by
  rw [correctDual]
  dsimp only
  by_cases hw : t.z b.var = 0
  · rw [if_pos hw, hw, zero_div, zero_mul, sub_zero]
  rw [if_neg hw]
  set du := t.z b.var / b.coefficient
  have hneg : (fun p : ℕ × ℚ => (p.1, -(p.2 * du))) = fun p => (p.1, -du * p.2) := by
    funext p
    rw [neg_mul, mul_comm du]
  change addAll t.z _ j = _
  rw [addAll_apply, hneg, coeff_map_mul, CscMatrix.toCompressedRow_row, coeff_transposed,
    if_pos (hwf.A_n.symm ▸ hj), neg_mul, ← sub_eq_add_neg]
  rfl

structure Recorded (problem : LpProblem) (l : List BoundedFreeVar) : Prop where
  lt : ∀ b ∈ l, b.var < problem.numCols
  coefficient : ∀ b ∈ l, b.coefficient = problem.A.entry b.constraint b.var
  ne_zero : ∀ b ∈ l, b.coefficient ≠ 0
  nodup : (l.map BoundedFreeVar.var).Nodup
  solvable : ∀ g : ℕ → ℚ, ∃ t : Solution, problem.toProgram.Stationary t ∧
    ∀ b ∈ l, t.z b.var = g b.var

variable {l : List BoundedFreeVar}

lemma Recorded.tail {b : BoundedFreeVar} (h : Recorded problem (b :: l)) :
    Recorded problem l where
  lt := fun b' hb' => h.lt b' (mem_cons_of_mem b hb')
  coefficient := fun b' hb' => h.coefficient b' (mem_cons_of_mem b hb')
  ne_zero := fun b' hb' => h.ne_zero b' (mem_cons_of_mem b hb')
  nodup := (nodup_cons.mp h.nodup).2
  solvable := by
    intro g
    obtain ⟨t, ht, hz⟩ := h.solvable g
    exact ⟨t, ht, fun b' hb' => hz b' (mem_cons_of_mem b hb')⟩

lemma Recorded.correctDual_self (hwf : problem.WellFormed) {b : BoundedFreeVar}
    (h : Recorded problem (b :: l)) : (correctDual problem.A.toCompressedRow b t).z b.var = 0 := by
  have hb : b ∈ b :: l := mem_cons_self
  rw [correctDual_z hwf b (h.lt b hb), ← h.coefficient b hb, div_mul_cancel₀ _ (h.ne_zero b hb),
    sub_self]

lemma Recorded.correctDuals_eq_zero (hwf : problem.WellFormed) (h : Recorded problem l)
    (horder : l.Pairwise fun u v => problem.A.entry u.constraint v.var = 0) (t : Solution) :
    ∀ b ∈ l, (correctDuals problem.A l t).z b.var = 0 := by
  induction l with
  | nil => exact nofun
  | cons b l ih =>
    obtain ⟨hzero, hrest⟩ := pairwise_cons.mp horder
    intro b' hb'
    change (correctDual problem.A.toCompressedRow b (correctDuals problem.A l t)).z b'.var = 0
    rcases mem_cons.mp hb' with rfl | hmem
    · exact h.correctDual_self hwf
    · rw [correctDual_z hwf b (h.lt b' hb'), hzero b' hmem, mul_zero, sub_zero]
      exact ih h.tail hrest b' hmem

lemma correctDuals_of_zero (hz : ∀ b ∈ l, t.z b.var = 0) : correctDuals problem.A l t = t := by
  induction l with
  | nil => rfl
  | cons b l ih =>
    have hrest := ih fun b' hb' => hz b' (mem_cons_of_mem b hb')
    change correctDual problem.A.toCompressedRow b (correctDuals problem.A l t) = t
    rw [hrest, correctDual]
    exact if_pos (hz b mem_cons_self)

lemma Recorded.pairwise_of_zero (hwf : problem.WellFormed) (h : Recorded problem l)
    (hall : ∀ t : Solution, problem.toProgram.Stationary t →
      ∀ b ∈ l, (correctDuals problem.A l t).z b.var = 0) :
    l.Pairwise fun u v => problem.A.entry u.constraint v.var = 0 := by
  induction l with
  | nil => exact List.Pairwise.nil
  | cons b l ih =>
    have hb : b ∈ b :: l := mem_cons_self
    have hfresh : ∀ b' ∈ l, b'.var ≠ b.var := by
      intro b' hb' heq
      exact (nodup_cons.mp h.nodup).1 (heq ▸ mem_map_of_mem hb')
    -- a reduced cost on `b` alone is spread over its row by the last correction
    obtain ⟨t, ht, hz⟩ := h.solvable fun j => if j = b.var then 1 else 0
    have hother : ∀ b' ∈ l, t.z b'.var = 0 := by
      intro b' hb'
      rw [hz b' (mem_cons_of_mem b hb'), if_neg (hfresh b' hb')]
    have hone : t.z b.var = 1 := (hz b hb).trans (if_pos rfl)
    have hzero : ∀ b' ∈ l, problem.A.entry b.constraint b'.var = 0 := by
      intro b' hb'
      have hfinal := hall t ht b' (mem_cons_of_mem b hb')
      change (correctDual problem.A.toCompressedRow b (correctDuals problem.A l t)).z b'.var = 0
        at hfinal
      rw [correctDuals_of_zero hother,
        correctDual_z hwf b (h.lt b' (mem_cons_of_mem b hb')), hother b' hb', hone, zero_sub,
        neg_eq_zero] at hfinal
      rcases mul_eq_zero.mp hfinal with hdiv | hentry
      · exact absurd hdiv (one_div_ne_zero (h.ne_zero b hb))
      · exact hentry
    refine pairwise_cons.mpr ⟨hzero, ih h.tail fun t ht b' hb' => ?_⟩
    have hfinal := hall t ht b' (mem_cons_of_mem b hb')
    change (correctDual problem.A.toCompressedRow b (correctDuals problem.A l t)).z b'.var = 0
      at hfinal
    rwa [correctDual_z hwf b (h.lt b' (mem_cons_of_mem b hb')), hzero b' hb', mul_zero, sub_zero]
      at hfinal

end Correction

section Activity

variable {linearCols : ℕ} {lower upper : ℕ → Option ℚ}

lemma addLower_counts (r : RowActivity) (a : ℚ) (b : Option ℚ) :
    (r.addLower a b).lowerInf = r.lowerInf + (if b = none then 1 else 0) ∧
      (r.addLower a b).upperInf = r.upperInf ∧ (r.addLower a b).lastFree = r.lastFree := by
  cases b with
  | none | some v => exact ⟨rfl, rfl, rfl⟩

lemma addUpper_counts (r : RowActivity) (a : ℚ) (b : Option ℚ) :
    (r.addUpper a b).upperInf = r.upperInf + (if b = none then 1 else 0) ∧
      (r.addUpper a b).lowerInf = r.lowerInf ∧ (r.addUpper a b).lastFree = r.lastFree := by
  cases b with
  | none | some v => exact ⟨rfl, rfl, rfl⟩

lemma noteFree_counts (r : RowActivity) (p : ℕ × ℚ) (l u : Option ℚ) :
    (r.noteFree p l u).lowerInf = r.lowerInf ∧ (r.noteFree p l u).upperInf = r.upperInf ∧
      (r.noteFree p l u).lastFree = if l = none ∧ u = none then some p else r.lastFree := by
  rw [RowActivity.noteFree]
  split_ifs
  · exact ⟨rfl, rfl, rfl⟩
  · exact ⟨rfl, rfl, rfl⟩

variable {p : ℕ × ℚ}

lemma addEntry_counts (lower upper : ℕ → Option ℚ) (r : RowActivity) (hp : p.1 < linearCols) :
    r.lowerInf ≤ (r.addEntry linearCols lower upper p).lowerInf ∧
      r.upperInf ≤ (r.addEntry linearCols lower upper p).upperInf ∧
      (lower p.1 = none ∧ upper p.1 = none →
        r.lowerInf + 1 ≤ (r.addEntry linearCols lower upper p).lowerInf ∧
          r.upperInf + 1 ≤ (r.addEntry linearCols lower upper p).upperInf) ∧
      (r.addEntry linearCols lower upper p).lastFree =
        if lower p.1 = none ∧ upper p.1 = none then some p else r.lastFree := by
  obtain ⟨hl, hu, hfree⟩ := noteFree_counts r p (lower p.1) (upper p.1)
  rw [RowActivity.addEntry, if_neg hp.not_ge]
  by_cases hpos : 0 < p.2
  · rw [if_pos hpos]
    obtain ⟨hl₁, hu₁, hfree₁⟩ := addLower_counts (r.noteFree p (lower p.1) (upper p.1)) p.2 (lower p.1)
    obtain ⟨hu₂, hl₂, hfree₂⟩ := addUpper_counts
      ((r.noteFree p (lower p.1) (upper p.1)).addLower p.2 (lower p.1)) p.2 (upper p.1)
    rw [hl₂, hl₁, hl, hu₂, hu₁, hu, hfree₂, hfree₁, hfree]
    refine ⟨Nat.le_add_right _ _, Nat.le_add_right _ _, fun ⟨hnl, hnu⟩ => ?_, rfl⟩
    rw [if_pos hnl, if_pos hnu]
    exact ⟨le_rfl, le_rfl⟩
  · rw [if_neg hpos]
    obtain ⟨hl₁, hu₁, hfree₁⟩ := addLower_counts (r.noteFree p (lower p.1) (upper p.1)) p.2 (upper p.1)
    obtain ⟨hu₂, hl₂, hfree₂⟩ := addUpper_counts
      ((r.noteFree p (lower p.1) (upper p.1)).addLower p.2 (upper p.1)) p.2 (lower p.1)
    rw [hl₂, hl₁, hl, hu₂, hu₁, hu, hfree₂, hfree₁, hfree]
    refine ⟨Nat.le_add_right _ _, Nat.le_add_right _ _, fun ⟨hnl, hnu⟩ => ?_, rfl⟩
    rw [if_pos hnu, if_pos hnl]
    exact ⟨le_rfl, le_rfl⟩

def freeEntries (linearCols : ℕ) (lower upper : ℕ → Option ℚ) (row : List (ℕ × ℚ)) : List (ℕ × ℚ) :=
  row.filter fun p => p.1 < linearCols ∧ lower p.1 = none ∧ upper p.1 = none

lemma mem_freeEntries {row : List (ℕ × ℚ)} :
    p ∈ freeEntries linearCols lower upper row ↔
      p ∈ row ∧ p.1 < linearCols ∧ lower p.1 = none ∧ upper p.1 = none := by
  rw [freeEntries, mem_filter, decide_eq_true_eq]

lemma rowActivity_free (linearCols : ℕ) (lower upper : ℕ → Option ℚ) (row : List (ℕ × ℚ)) :
    (freeEntries linearCols lower upper row).length ≤ (rowActivity linearCols lower upper row).lowerInf ∧
      (freeEntries linearCols lower upper row).length ≤
        (rowActivity linearCols lower upper row).upperInf ∧
      ∀ p, (rowActivity linearCols lower upper row).lastFree = some p →
        p ∈ freeEntries linearCols lower upper row := by
  induction row using reverseRecOn with
  | nil => exact ⟨le_rfl, le_rfl, nofun⟩
  | append_singleton row q ih =>
    have hstep : rowActivity linearCols lower upper (row ++ [q]) =
        (rowActivity linearCols lower upper row).addEntry linearCols lower upper q :=
      foldl_append
    have hsplit : freeEntries linearCols lower upper (row ++ [q]) =
        freeEntries linearCols lower upper row ++ freeEntries linearCols lower upper [q] :=
      filter_append _ _
    obtain ⟨hl, hu, hlast⟩ := ih
    rw [hstep, hsplit, length_append]
    by_cases hlin : q.1 < linearCols
    · obtain ⟨hle, hue, hboth, hfree⟩ := addEntry_counts lower upper
        (rowActivity linearCols lower upper row) hlin
      rw [hfree]
      by_cases hq : lower q.1 = none ∧ upper q.1 = none
      · have hone : freeEntries linearCols lower upper [q] = [q] :=
          filter_eq_self.mpr fun p hp => by
            rw [mem_singleton.mp hp, decide_eq_true_eq]
            exact ⟨hlin, hq⟩
        obtain ⟨hle', hue'⟩ := hboth hq
        rw [hone, if_pos hq]
        refine ⟨(Nat.add_le_add_right hl 1).trans hle', (Nat.add_le_add_right hu 1).trans hue',
          fun p hp => ?_⟩
        rw [← Option.some.inj hp]
        exact mem_append_right _ mem_cons_self
      · have hnone : freeEntries linearCols lower upper [q] = [] :=
          filter_eq_nil_iff.mpr fun p hp => by
            rw [mem_singleton.mp hp, decide_eq_true_eq]
            exact fun h => hq h.2
        rw [hnone, if_neg hq]
        exact ⟨hl.trans hle, hu.trans hue, fun p hp => mem_append_left _ (hlast p hp)⟩
    · have hnone : freeEntries linearCols lower upper [q] = [] :=
        filter_eq_nil_iff.mpr fun p hp => by
          rw [mem_singleton.mp hp, decide_eq_true_eq]
          exact fun h => hlin h.1
      rw [hnone, RowActivity.addEntry, if_pos (not_lt.mp hlin)]
      exact ⟨hl, hu, fun p hp => mem_append_left _ (hlast p hp)⟩

lemma only_lastFree {row : List (ℕ × ℚ)}
    (hlast : (rowActivity linearCols lower upper row).lastFree = some p)
    (hone : (rowActivity linearCols lower upper row).lowerInf = 1 ∨
      (rowActivity linearCols lower upper row).upperInf = 1) {q : ℕ × ℚ} (hq : q ∈ row)
    (hlin : q.1 < linearCols) (hfree : lower q.1 = none ∧ upper q.1 = none) : q = p := by
  obtain ⟨hl, hu, hmem⟩ := rowActivity_free linearCols lower upper row
  have hp := hmem p hlast
  have hq' : q ∈ freeEntries linearCols lower upper row := mem_freeEntries.mpr ⟨hq, hlin, hfree⟩
  have hlen : (freeEntries linearCols lower upper row).length ≤ 1 := by
    rcases hone with h | h
    · rwa [h] at hl
    · rwa [h] at hu
  match hrow : freeEntries linearCols lower upper row with
  | [] =>
    rw [hrow] at hp
    cases hp
  | [r] =>
    rw [hrow] at hp hq'
    exact (mem_singleton.mp hq').trans (mem_singleton.mp hp).symm
  | _ :: _ :: _ =>
    rw [hrow] at hlen
    exact absurd hlen (by simp)

end Activity

section Bounding

structure ImpliedBounds.Bounds (s s' : ImpliedBounds) (i j : ℕ) (a : ℚ) : Prop where
  other : ∀ k, k ≠ j → s'.lower k = s.lower k ∧ s'.upper k = s.upper k
  bounded : s'.lower j ≠ none ∨ s'.upper j ≠ none
  lowerRow : ∀ k p, s'.lowerBoundConstraint k = some p →
    s.lowerBoundConstraint k = some p ∨ k = j ∧ p = (i, a)
  upperRow : ∀ k p, s'.upperBoundConstraint k = some p →
    s.upperBoundConstraint k = some p ∨ k = j ∧ p = (i, a)

namespace ImpliedBounds

variable {s s' s'' : ImpliedBounds} {i j : ℕ} {a : ℚ}

lemma update_eq_some {f : ℕ → Option (ℕ × ℚ)} {q p : ℕ × ℚ} {k : ℕ}
    (h : update f j (some q) k = some p) : f k = some p ∨ k = j ∧ p = q := by
  by_cases hkj : k = j
  · subst hkj
    rw [update_self] at h
    exact .inr ⟨rfl, (Option.some.inj h).symm⟩
  · rw [update_of_ne hkj] at h
    exact .inl h

lemma update_ne_none (f : ℕ → Option ℚ) (j : ℕ) (v : ℚ) :
    update f j (some v) j ≠ none := by
  rw [update_self]
  exact Option.some_ne_none v

lemma setUpper_bounds (s : ImpliedBounds) (i j : ℕ) (a v : ℚ) :
    s.setUpper i j a v = s ∨ s.Bounds (s.setUpper i j a v) i j a := by
  rw [setUpper]
  split_ifs
  · exact .inr ⟨fun k hk => ⟨rfl, update_of_ne hk _ _⟩, .inr (update_ne_none _ _ _),
      fun k p hk => .inl hk, fun k p hk => update_eq_some hk⟩
  · exact .inl rfl

lemma setLower_bounds (s : ImpliedBounds) (i j : ℕ) (a v : ℚ) :
    s.setLower i j a v = s ∨ s.Bounds (s.setLower i j a v) i j a := by
  rw [setLower]
  split_ifs
  · exact .inr ⟨fun k hk => ⟨update_of_ne hk _ _, rfl⟩, .inl (update_ne_none _ _ _),
      fun k p hk => update_eq_some hk, fun k p hk => .inl hk⟩
  · exact .inl rfl

lemma Bounds.trans (h : s.Bounds s' i j a) (h' : s'.Bounds s'' i j a) : s.Bounds s'' i j a where
  other := fun k hk => ⟨(h'.other k hk).1.trans (h.other k hk).1,
    (h'.other k hk).2.trans (h.other k hk).2⟩
  bounded := h'.bounded
  lowerRow := by
    intro k p hk
    rcases h'.lowerRow k p hk with hold | hnew
    · exact h.lowerRow k p hold
    · exact .inr hnew
  upperRow := by
    intro k p hk
    rcases h'.upperRow k p hk with hold | hnew
    · exact h.upperRow k p hold
    · exact .inr hnew

lemma bounds_trans (h : s' = s ∨ s.Bounds s' i j a) (h' : s'' = s' ∨ s'.Bounds s'' i j a) :
    s'' = s ∨ s.Bounds s'' i j a := by
  rcases h with rfl | h
  · exact h'
  · rcases h' with rfl | h'
    · exact .inr h
    · exact .inr (h.trans h')

lemma applyActivity_cases (s : ImpliedBounds) (rhs : ℚ) (r : RowActivity) (i : ℕ) :
    s.applyActivity rhs r i = s ∨ ∃ j a, r.lastFree = some (j, a) ∧ a ≠ 0 ∧
      (r.lowerInf = 1 ∨ r.upperInf = 1) ∧ s.Bounds (s.applyActivity rhs r i) i j a := by
  rw [applyActivity]
  match hlast : r.lastFree with
  | none => exact .inl rfl
  | some (j, a) =>
    dsimp only
    by_cases ha : a = 0
    · rw [if_pos ha]
      exact .inl rfl
    rw [if_neg ha]
    have hsingle {s' : ImpliedBounds} (hinf : r.lowerInf = 1 ∨ r.upperInf = 1)
        (h : s' = s ∨ s.Bounds s' i j a) : s' = s ∨ ∃ j' a', some (j, a) = some (j', a') ∧ a' ≠ 0 ∧
          (r.lowerInf = 1 ∨ r.upperInf = 1) ∧ s.Bounds s' i j' a' :=
      h.imp_right fun h => ⟨j, a, rfl, ha, hinf, h⟩
    by_cases hl : r.lowerInf = 1
    · by_cases hu : r.upperInf = 1
      · simp only [if_pos hl, if_pos hu]
        split_ifs
        · exact hsingle (.inl hl)
            (bounds_trans (setUpper_bounds s i j a _) (setLower_bounds _ i j a _))
        · exact hsingle (.inl hl)
            (bounds_trans (setLower_bounds s i j a _) (setUpper_bounds _ i j a _))
      · simp only [if_pos hl, if_neg hu]
        split_ifs
        · exact hsingle (.inl hl) (setUpper_bounds s i j a _)
        · exact hsingle (.inl hl) (setLower_bounds s i j a _)
    · by_cases hu : r.upperInf = 1
      · simp only [if_neg hl, if_pos hu]
        split_ifs
        · exact hsingle (.inr hu) (setLower_bounds s i j a _)
        · exact hsingle (.inr hu) (setUpper_bounds s i j a _)
      · rw [if_neg hl, if_neg hl, if_neg hu, if_neg hu, ite_self]
        exact .inl rfl

end ImpliedBounds

variable {problem : LpProblem} {s s' : ImpliedBounds} {order : List BoundedFreeVar}

/-- `order` lists the bounds found so far: each bounding row has no free variable left. -/
structure Bounding (problem : LpProblem) (s : ImpliedBounds) (order : List BoundedFreeVar) : Prop where
  row_lt : ∀ b ∈ order, b.constraint < problem.numRows
  coefficient : ∀ b ∈ order, b.coefficient = problem.A.entry b.constraint b.var
  ne_zero : ∀ b ∈ order, b.coefficient ≠ 0
  covered : ∀ b ∈ order, ∀ k < problem.linearVariableCount, s.lower k = none → s.upper k = none →
    problem.A.entry b.constraint k = 0
  triangular : order.Pairwise fun u v => problem.A.entry u.constraint v.var = 0
  lowerRow : ∀ j i a, s.lowerBoundConstraint j = some (i, a) → (⟨j, i, a⟩ : BoundedFreeVar) ∈ order
  upperRow : ∀ j i a, s.upperBoundConstraint j = some (i, a) → (⟨j, i, a⟩ : BoundedFreeVar) ∈ order

variable {i : ℕ}

lemma Bounding.snoc (h : Bounding problem s order) {j : ℕ} {a : ℚ} (hi : i < problem.numRows)
    (hj : j < problem.linearVariableCount) (hfree : s.lower j = none ∧ s.upper j = none)
    (ha : a = problem.A.entry i j) (hne : a ≠ 0)
    (honly : ∀ k < problem.linearVariableCount, s.lower k = none → s.upper k = none → k ≠ j →
      problem.A.entry i k = 0) (hs : s.Bounds s' i j a) :
    Bounding problem s' (order ++ [⟨j, i, a⟩]) := by
  have hold : ∀ k, s'.lower k = none → s'.upper k = none →
      (s.lower k = none ∧ s.upper k = none) ∧ k ≠ j := by
    intro k hl hu
    have hkj : k ≠ j := by
      rintro rfl
      rcases hs.bounded with hb | hb
      · exact hb hl
      · exact hb hu
    obtain ⟨hl', hu'⟩ := hs.other k hkj
    exact ⟨⟨hl' ▸ hl, hu' ▸ hu⟩, hkj⟩
  constructor
  case row_lt =>
    intro b hb
    rcases mem_append.mp hb with hb | hb
    · exact h.row_lt b hb
    · rw [mem_singleton.mp hb]
      exact hi
  case coefficient =>
    intro b hb
    rcases mem_append.mp hb with hb | hb
    · exact h.coefficient b hb
    · rw [mem_singleton.mp hb]
      exact ha
  case ne_zero =>
    intro b hb
    rcases mem_append.mp hb with hb | hb
    · exact h.ne_zero b hb
    · rw [mem_singleton.mp hb]
      exact hne
  case covered =>
    intro b hb k hk hl hu
    obtain ⟨⟨hl', hu'⟩, hkj⟩ := hold k hl hu
    rcases mem_append.mp hb with hb | hb
    · exact h.covered b hb k hk hl' hu'
    · rw [mem_singleton.mp hb]
      exact honly k hk hl' hu' hkj
  case triangular =>
    refine pairwise_append.mpr ⟨h.triangular, pairwise_singleton _ _, fun u hu v hv => ?_⟩
    rw [mem_singleton.mp hv]
    exact h.covered u hu j hj hfree.1 hfree.2
  case lowerRow =>
    intro j' i' a' hrow
    rcases hs.lowerRow j' (i', a') hrow with hrow | ⟨rfl, hp⟩
    · exact mem_append_left _ (h.lowerRow j' i' a' hrow)
    · cases hp
      exact mem_append_right _ mem_cons_self
  case upperRow =>
    intro j' i' a' hrow
    rcases hs.upperRow j' (i', a') hrow with hrow | ⟨rfl, hp⟩
    · exact mem_append_left _ (h.upperRow j' i' a' hrow)
    · cases hp
      exact mem_append_right _ mem_cons_self

lemma Bounding.checkConstraint (hwf : problem.WellFormed)
    (hcones : problem.linearVariableCount ≤ problem.numCols) (h : Bounding problem s order)
    (hi : i < problem.numRows) : ∃ order', Bounding problem
      (s.checkConstraint problem.linearVariableCount problem.A.toCompressedRow problem.rhs i)
      order' := by
  have hentry {k : ℕ} (hk : k < problem.numCols) :
      problem.A.entry i k = coeff (problem.A.toCompressedRow.row i) k := by
    rw [CscMatrix.toCompressedRow_row, coeff_transposed, if_pos (hwf.A_n.symm ▸ hk)]
    rfl
  rw [ImpliedBounds.checkConstraint]
  rcases ImpliedBounds.applyActivity_cases s (problem.rhs i) (rowActivity problem.linearVariableCount
    s.lower s.upper (problem.A.toCompressedRow.row i)) i with heq | ⟨j, a, hlast, hne, hinf, hs⟩
  · rw [heq]
    exact ⟨order, h⟩
  have hmem := (rowActivity_free problem.linearVariableCount s.lower s.upper
    (problem.A.toCompressedRow.row i)).2.2 (j, a) hlast
  obtain ⟨hrow, hj, hfree⟩ := mem_freeEntries.mp hmem
  obtain ⟨hjn, hcol⟩ := mem_transposed.mp hrow
  refine ⟨order ++ [⟨j, i, a⟩], h.snoc hi hj hfree ?_ hne (fun k hk hl hu hkj => ?_) hs⟩
  · exact (coeff_of_mem (hwf.A_nodup j (hj.trans_le hcones)) hcol).symm
  · by_contra hnz
    rw [hentry (hk.trans_le hcones)] at hnz
    have hkey : k ∈ keys (problem.A.toCompressedRow.row i) := by
      by_contra hk
      exact hnz (coeff_eq_zero hk)
    obtain ⟨q, hq, rfl⟩ := mem_map.mp hkey
    exact hkj (congrArg Prod.fst (only_lastFree hlast hinf hq hk ⟨hl, hu⟩))

lemma Bounding.foldl_checkConstraint (hwf : problem.WellFormed)
    (hcones : problem.linearVariableCount ≤ problem.numCols) {l : List ℕ}
    (hl : ∀ i ∈ l, i < problem.numRows) (h : Bounding problem s order) :
    ∃ order', Bounding problem (l.foldl (ImpliedBounds.checkConstraint problem.linearVariableCount
      problem.A.toCompressedRow problem.rhs) s) order' := by
  induction l generalizing s order with
  | nil => exact ⟨order, h⟩
  | cons i l ih =>
    obtain ⟨order', h'⟩ := h.checkConstraint hwf hcones (hl i mem_cons_self)
    exact ih (fun i' hi' => hl i' (mem_cons_of_mem i hi')) h'

lemma keepOneBound_rows (s : ImpliedBounds) (j : ℕ) :
    (s.keepOneBound j).lowerBoundConstraint = s.lowerBoundConstraint ∧
      (s.keepOneBound j).upperBoundConstraint = s.upperBoundConstraint := by
  rw [ImpliedBounds.keepOneBound]
  match s.lower j, s.upper j with
  | none, _ => exact ⟨rfl, rfl⟩
  | some _, none => exact ⟨rfl, rfl⟩
  | some l, some u =>
    dsimp only
    split_ifs
    · exact ⟨rfl, rfl⟩
    · exact ⟨rfl, rfl⟩

lemma foldl_keepOneBound_rows (l : List ℕ) (s : ImpliedBounds) :
    (l.foldl ImpliedBounds.keepOneBound s).lowerBoundConstraint = s.lowerBoundConstraint ∧
      (l.foldl ImpliedBounds.keepOneBound s).upperBoundConstraint = s.upperBoundConstraint := by
  induction l generalizing s with
  | nil => exact ⟨rfl, rfl⟩
  | cons j l ih =>
    obtain ⟨hl, hu⟩ := ih (s.keepOneBound j)
    obtain ⟨hl', hu'⟩ := keepOneBound_rows s j
    exact ⟨hl.trans hl', hu.trans hu'⟩

lemma constraintsOf_lt (hwf : problem.WellFormed)
    (hcones : problem.linearVariableCount ≤ problem.numCols) (hi : i ∈ constraintsOf problem.A
      ((range problem.linearVariableCount).filter problem.isFree)) : i < problem.numRows := by
  obtain ⟨j, hj, hij⟩ := mem_constraintsOf.mp hi
  have hlt := mem_range.mp (mem_filter.mp hj).1
  exact hwf.A_lt j (hlt.trans_le hcones) i hij

lemma exists_bounding (hwf : problem.WellFormed)
    (hcones : problem.linearVariableCount ≤ problem.numCols) :
    ∃ s order, Bounding problem s order ∧
      (impliedBounds problem).lowerBoundConstraint = s.lowerBoundConstraint ∧
      (impliedBounds problem).upperBoundConstraint = s.upperBoundConstraint := by
  have hinit : Bounding problem { lower := problem.lower, upper := problem.upper } [] := by
    constructor
    case triangular => exact List.Pairwise.nil
    case lowerRow | upperRow => exact nofun
    all_goals exact nofun
  rw [impliedBounds]
  split_ifs
  · obtain ⟨order, h⟩ := hinit.foldl_checkConstraint hwf hcones
      fun i hi => constraintsOf_lt hwf hcones hi
    exact ⟨_, order, h, foldl_keepOneBound_rows _ _⟩
  · obtain ⟨order, h⟩ := hinit.foldl_checkConstraint hwf hcones
      fun i hi => constraintsOf_lt hwf hcones (mem_filter.mp hi).1
    exact ⟨_, order, h, foldl_keepOneBound_rows _ _⟩

lemma boundedFreeVar_cases {j : ℕ} {b : BoundedFreeVar} (hb : s.boundedFreeVar j = some b) :
    b.var = j ∧ (s.lowerBoundConstraint j = some (b.constraint, b.coefficient) ∨
      s.upperBoundConstraint j = some (b.constraint, b.coefficient)) := by
  rw [ImpliedBounds.boundedFreeVar] at hb
  split at hb
  · next hrow =>
    cases hb
    exact ⟨rfl, .inl hrow⟩
  · split at hb
    · next hrow =>
      cases hb
      exact ⟨rfl, .inr hrow⟩
    · cases hb

lemma boundedFreeVars_var_sublist (s : ImpliedBounds) (l : List ℕ) :
    ((l.filterMap s.boundedFreeVar).map BoundedFreeVar.var).Sublist l := by
  induction l with
  | nil => exact List.Sublist.slnil
  | cons j l ih =>
    cases hb : s.boundedFreeVar j with
    | none =>
      rw [filterMap_cons_none hb]
      exact ih.cons j
    | some b =>
      rw [filterMap_cons_some hb, map_cons, (boundedFreeVar_cases hb).1]
      exact ih.cons_cons j

lemma boundFreeVariables_recorded (hwf : problem.WellFormed)
    (hcones : problem.linearVariableCount ≤ problem.numCols) :
    Recorded problem (boundFreeVariables problem).2 := by
  obtain ⟨s, order, h, hlower, hupper⟩ := exists_bounding hwf hcones
  have hmem : ∀ b ∈ (boundFreeVariables problem).2, b ∈ order ∧ b.var < problem.numCols := by
    intro b hb
    obtain ⟨j, hj, hbj⟩ := mem_filterMap.mp hb
    obtain ⟨hvar, hrow⟩ := boundedFreeVar_cases hbj
    have hlt := mem_range.mp (mem_filter.mp hj).1
    rw [hlower, hupper, ← hvar] at hrow
    refine ⟨?_, hvar ▸ hlt.trans_le hcones⟩
    rcases hrow with hrow | hrow
    · exact h.lowerRow _ _ _ hrow
    · exact h.upperRow _ _ _ hrow
  constructor
  case lt => exact fun b hb => (hmem b hb).2
  case coefficient => exact fun b hb => h.coefficient b (hmem b hb).1
  case ne_zero => exact fun b hb => h.ne_zero b (hmem b hb).1
  case nodup =>
    exact (nodup_range.filter _).sublist (boundedFreeVars_var_sublist _ _)
  case solvable =>
    intro g
    have hrow : ∀ b ∈ order, b.constraint ∈ problem.toProgram.rows := fun b hb =>
      Finset.mem_range.mpr (h.row_lt b hb)
    have hdiag : ∀ b ∈ order, problem.toProgram.a b.constraint b.var ≠ 0 := by
      intro b hb
      rw [show problem.toProgram.a b.constraint b.var = b.coefficient from
        (h.coefficient b hb).symm]
      exact h.ne_zero b hb
    obtain ⟨t, ht, hz⟩ := exists_stationary hrow hdiag h.triangular g
    exact ⟨t, ht, fun b hb => hz b (hmem b hb).1⟩

end Bounding

/-- The correction zeroes the reduced cost of every recorded variable, from every stationary pair,
iff no recorded variable's bounding row contains a variable recorded after it. -/
theorem correctDuals_zero_iff {problem : LpProblem} (hwf : problem.WellFormed)
    (hcones : problem.linearVariableCount ≤ problem.numCols) :
    (∀ t : Solution, problem.toProgram.Stationary t → ∀ b ∈ (boundFreeVariables problem).2,
        (correctDuals problem.A (boundFreeVariables problem).2 t).z b.var = 0) ↔
      (boundFreeVariables problem).2.Pairwise fun u v =>
        problem.A.entry u.constraint v.var = 0 := by
  have hrecorded := boundFreeVariables_recorded hwf hcones
  constructor
  · exact hrecorded.pairwise_of_zero hwf
  · exact fun horder t _ => hrecorded.correctDuals_eq_zero hwf horder t

def chainedRows : LpProblem where
  numRows := 2
  numCols := 3
  objective := fun _ => 0
  Q := ⟨0, 0, fun _ => []⟩
  A := ⟨2, 3, fun j => if j = 0 then [(0, 1), (1, 1)] else if j = 1 then [(1, 1)] else [(0, 1)]⟩
  rhs := fun i => if i = 0 then 1 else 2
  lower := fun j => if j = 2 then some 0 else none
  upper := fun j => if j = 2 then some 1 else none
  objConstant := 0
  coneVarStart := 0
  secondOrderConeDims := []

lemma chainedRows_wellFormed : chainedRows.WellFormed :=
  ⟨rfl, rfl, by decide, by decide, fun h => absurd h (by decide)⟩

/-- `x₀` is bounded by the first row and `x₁` by the second, which is corrected first. -/
theorem chainedRows_zero : (boundFreeVariables chainedRows).2.length = 2 ∧
    ∀ t : Solution, chainedRows.toProgram.Stationary t →
      ∀ b ∈ (boundFreeVariables chainedRows).2,
        (correctDuals chainedRows.A (boundFreeVariables chainedRows).2 t).z b.var = 0 :=
  ⟨by decide +kernel, (correctDuals_zero_iff chainedRows_wellFormed le_rfl).mpr (by decide +kernel)⟩

/-- Rows `x₀ + x₃ = 1`, `x₀ + x₂ = 2` and `x₀ + x₁ + x₂ = 3` with `x₀`, `x₁`, `x₂` free,
`0 ≤ x₃ ≤ 1` and cost `x₁`. -/
def crossingRows : LpProblem where
  numRows := 3
  numCols := 4
  objective := fun j => if j = 1 then 1 else 0
  Q := ⟨0, 0, fun _ => []⟩
  A := ⟨3, 4, fun j => if j = 0 then [(0, 1), (1, 1), (2, 1)] else if j = 1 then [(2, 1)]
    else if j = 2 then [(1, 1), (2, 1)] else [(0, 1)]⟩
  rhs := fun i => i + 1
  lower := fun j => if j = 3 then some 0 else none
  upper := fun j => if j = 3 then some 1 else none
  objConstant := 0
  coneVarStart := 0
  secondOrderConeDims := []

/-- `x₂` is bounded before `x₁`, whose row contains it, but stands after `x₁` in the list: from
`y = 0`, `z = c` the correction of `x₁` leaves `x₂` the reduced cost `-1`. -/
theorem crossingRows_reducedCost_left : crossingRows.WellFormed ∧
    crossingRows.toProgram.Stationary ⟨fun _ => 0, fun _ => 0, crossingRows.objective⟩ ∧
      ∃ b ∈ (boundFreeVariables crossingRows).2,
        (correctDuals crossingRows.A (boundFreeVariables crossingRows).2
          ⟨fun _ => 0, fun _ => 0, crossingRows.objective⟩).z b.var = -1 := by
  refine ⟨⟨rfl, rfl, by decide, by decide, fun h => absurd h (by decide)⟩, by decide +kernel, ?_⟩
  have hany : ((boundFreeVariables crossingRows).2.any fun b =>
      (correctDuals crossingRows.A (boundFreeVariables crossingRows).2
        ⟨fun _ => 0, fun _ => 0, crossingRows.objective⟩).z b.var = -1) = true := by
    decide +kernel
  obtain ⟨b, hb, hz⟩ := List.any_eq_true.mp hany
  exact ⟨b, hb, of_decide_eq_true hz⟩

end CuOpt.Simplex
