import CuOpt.Presolve.Gf2Presolve

/-! The parity rows hold at every integer point that satisfies the rows they come from, and so do the
values that the presolver fixes. -/

namespace CuOpt.Presolve

open List hiding keys keys_append keys_cons range
open SparseList Cuts
open Finset (range)

def PapiloRow.displacement (row : PapiloRow) (x : ℕ → ℚ) : ℚ :=
  dot (row.coefficients.map fun e => (e.1, e.2 - stdRound e.2)) x

/-- The columns of a parity row have integer values that solve it, and so the binaries' parity is
that of its value. -/
def Gf2Constraint.Holds (cons : Gf2Constraint) (x : ℕ → ℚ) : Prop :=
  ∃ X : ℕ → ℤ, (∀ j ∈ keys (cons.keyVar :: cons.binVars), x j = X j) ∧
    dot (cons.keyVar :: cons.binVars) X = cons.rhs ∧
    ((keys cons.binVars).map X).sum ≡ cons.rhs [ZMOD 2]

section Scan

variable {num : Num} {domains : ℕ → Domain} {row : PapiloRow}

lemma scanCoefficient_spec {st st' : Option (ℕ × ℤ) × List (ℕ × ℤ)} {e : ℕ × ℚ}
    (h : scanCoefficient num domains st e = some st') :
    (domains e.1).integral = true ∧
      (|stdRound e.2| = 2 ∧ st.1 = none ∧ st' = (some (e.1, stdRound e.2), st.2) ∨
        |stdRound e.2| = 1 ∧ isBinary (domains e.1) = true ∧
          st' = (st.1, st.2 ++ [(e.1, stdRound e.2)])) := by
  rw [scanCoefficient] at h
  split_ifs at h with hint hintegral hbinary hkey htwo hsome
  · refine ⟨by simpa using hintegral, .inl ⟨htwo, by simpa using hsome, ?_⟩⟩
    exact (Option.some.inj h).symm
  · have hbin : isBinary (domains e.1) = true := by
      by_contra hbin
      exact hkey ⟨by simpa using hbin, htwo⟩
    have hone : |stdRound e.2| = 1 := by
      by_contra hone
      exact hbinary ⟨hbin, hone, htwo⟩
    exact ⟨by simpa using hintegral, .inr ⟨hone, hbin, (Option.some.inj h).symm⟩⟩

/-- The key and the binaries that a row is split into are its rounded coefficients. -/
lemma scanCoefficients_spec (l : List (ℕ × ℚ)) {st st' : Option (ℕ × ℤ) × List (ℕ × ℤ)}
    (h : l.foldlM (scanCoefficient num domains) st = some st') :
    (st'.1.toList ++ st'.2).Perm (st.1.toList ++ st.2 ++ l.map fun e => (e.1, stdRound e.2)) ∧
      (∀ e ∈ l, (domains e.1).integral = true) ∧ (∀ key ∈ st'.1, key ∈ st.1 ∨ |key.2| = 2) ∧
      ∀ v ∈ st'.2, v ∈ st.2 ∨ |v.2| = 1 ∧ isBinary (domains v.1) = true := by
  induction l generalizing st with
  | nil =>
    obtain rfl : st = st' := Option.some.inj h
    refine ⟨?_, by simp, fun key hkey => .inl hkey, fun v hv => .inl hv⟩
    rw [map_nil, append_nil]
  | cons e l ih =>
    rw [foldlM_cons] at h
    obtain ⟨mid, hmid, hrest⟩ := Option.bind_eq_some_iff.mp h
    obtain ⟨hperm, hintegral, hkey, hbin⟩ := ih hrest
    obtain ⟨he, hcases⟩ := scanCoefficient_spec hmid
    have hall : ∀ e' ∈ e :: l, (domains e'.1).integral = true := by
      intro e' he'
      rcases mem_cons.mp he' with rfl | he'
      · exact he
      · exact hintegral e' he'
    rcases hcases with ⟨htwo, hnone, rfl⟩ | ⟨hone, hbinary, rfl⟩
    · refine ⟨hperm.trans ?_, hall, fun key hmem => ?_, fun v hv => hbin v hv⟩
      · rw [hnone, Option.toList_some, Option.toList_none, nil_append, map_cons]
        exact perm_middle.symm
      · rcases hkey key hmem with hsome | hkey
        · obtain rfl : (e.1, stdRound e.2) = key := Option.some.inj hsome
          exact .inr htwo
        · exact .inr hkey
    · refine ⟨hperm.trans ?_, hall, fun key hmem => hkey key hmem, fun v hv => ?_⟩
      · rw [map_cons, ← append_assoc, append_assoc _ [_], singleton_append]
      · rcases hbin v hv with hmem | hv
        · rcases mem_append.mp hmem with hmem | hmem
          · exact .inl hmem
          · rw [mem_singleton.mp hmem]
            exact .inr ⟨hone, hbinary⟩
        · exact .inr hv

lemma scanRow_spec {cstrIdx : ℕ} {cons : Gf2Constraint}
    (h : scanRow num domains row cstrIdx = some cons) :
    (cons.keyVar :: cons.binVars).Perm (row.coefficients.map fun e => (e.1, stdRound e.2)) ∧
      (∀ e ∈ row.coefficients, (domains e.1).integral = true) ∧ |cons.keyVar.2| = 2 ∧
      (∀ v ∈ cons.binVars, |v.2| = 1 ∧ isBinary (domains v.1) = true) ∧
      ∃ v, pinnedRowValue num row = some v ∧ |v - stdRound v| ≤ num.feasTol ∧
        cons.rhs = stdRound v := by
  rw [scanRow] at h
  split_ifs at h with hredundant
  obtain ⟨v, hv, h⟩ := Option.bind_eq_some_iff.mp h
  split_ifs at h with hinteger hlarge
  obtain ⟨st, hst, h⟩ := Option.bind_eq_some_iff.mp h
  obtain ⟨key, hkey, rfl⟩ := Option.map_eq_some_iff.mp h
  obtain ⟨hperm, hintegral, hkeys, hbins⟩ := scanCoefficients_spec _ hst
  rw [hkey] at hperm
  refine ⟨by simpa using hperm, hintegral, ?_, fun b hb => ?_, v, hv, ?_, rfl⟩
  · exact (hkeys key hkey).resolve_left (by simp)
  · exact (hbins b hb).resolve_left (by simp)
  · simpa [Num.isInteger] using hinteger

end Scan

variable {x : ℕ → ℚ}

lemma pinnedRowValue_spec {num : Num} {p : PapiloProblem} {row : PapiloRow} (hrow : row ∈ p.rows)
    (hx : p.InDomains x) (hholds : row.Holds x) {v : ℚ} (h : pinnedRowValue num row = some v) :
    |dot row.coefficients x - v| ≤ num.epsilon := by
  have hepsilon := num.epsilon_nonneg
  rw [pinnedRowValue] at h
  split_ifs at h with hequation hmin hmax
  · obtain ⟨hlhs, hrhs, heq⟩ := p.equation row hrow hequation
    obtain rfl : row.lhs = v := Option.some.inj h
    have hlower := hholds.1 hlhs
    have hupper := hholds.2 hrhs
    rw [abs_le]
    constructor <;> linarith
  · obtain ⟨hrhs, hninf, hpinned⟩ := hmin
    obtain rfl : row.rhs = v := Option.some.inj h
    have hupper := hholds.2 (by simpa using hrhs)
    have hlower := p.activity_min row hrow hninf x hx
    have hclose := abs_le.mp (of_decide_eq_true hpinned)
    rw [abs_le]
    constructor <;> linarith
  · obtain ⟨hlhs, hninf, hpinned⟩ := hmax
    obtain rfl : row.lhs = v := Option.some.inj h
    have hlower := hholds.1 (by simpa using hlhs)
    have hupper := p.activity_max row hrow hninf x hx
    have hclose := abs_le.mp (of_decide_eq_true hpinned)
    rw [abs_le]
    constructor <;> linarith

lemma dot_sub_round (l : List (ℕ × ℚ)) (x : ℕ → ℚ) (X : ℕ → ℤ) (hX : ∀ e ∈ l, x e.1 = X e.1) :
    dot l x = dot (l.map fun e => (e.1, e.2 - (stdRound e.2 : ℚ))) x +
      ((dot (l.map fun e => (e.1, stdRound e.2)) X : ℤ) : ℚ) := by
  induction l with
  | nil => simp [dot]
  | cons e l ih =>
    have he := hX e mem_cons_self
    have hrest := ih fun e' he' => hX e' (mem_cons_of_mem _ he')
    simp only [dot, map_cons, sum_cons, Int.cast_add, Int.cast_mul] at hrest ⊢
    rw [hrest, he]
    ring

/-- Odd coefficients do not change a sum's parity, and an even one adds nothing to it. -/
lemma sum_modEq_dot (l : List (ℕ × ℤ)) (hl : ∀ v ∈ l, |v.2| = 1) (X : ℕ → ℤ) :
    ((keys l).map X).sum ≡ dot l X [ZMOD 2] := by
  induction l with
  | nil => rfl
  | cons v l ih =>
    have hrest := ih fun w hw => hl w (mem_cons_of_mem _ hw)
    rw [keys_cons, map_cons, sum_cons]
    have hdot : dot (v :: l) X = v.2 * X v.1 + dot l X := by
      simp only [dot, map_cons, sum_cons]
    rw [hdot]
    apply Int.ModEq.add _ hrest
    rcases abs_eq (zero_le_one' ℤ) |>.mp (hl v mem_cons_self) with hone | hone
    · rw [hone, one_mul]
    · rw [hone]
      exact (Int.modEq_iff_dvd.mpr ⟨-X v.1, by ring⟩)

lemma Gf2Constraint.holds_of_scan {num : Num} {p : PapiloProblem} {row : PapiloRow}
    (hrow : row ∈ p.rows) {cstrIdx : ℕ} {cons : Gf2Constraint}
    (h : scanRow num p.domains row cstrIdx = some cons) (hx : p.InDomains x)
    (hsmall : |row.displacement x| + num.feasTol + num.epsilon < 1) (hholds : row.Holds x) :
    cons.Holds x := by
  obtain ⟨hperm, hintegral, hkey, hbins, v, hv, hround, hrhs⟩ := scanRow_spec h
  set X : ℕ → ℤ := fun j => ⌊x j⌋ with hX
  have hinteger : ∀ e ∈ row.coefficients, x e.1 = X e.1 := by
    intro e he
    obtain ⟨k, hk⟩ := (hx e.1).2.2 (hintegral e he)
    simp only [hX]
    rw [hk, Int.floor_intCast]
  have hpinned := pinnedRowValue_spec hrow hx hholds hv
  have hsplit : dot row.coefficients x = row.displacement x +
      ((dot (row.coefficients.map fun e => (e.1, stdRound e.2)) X : ℤ) : ℚ) :=
    dot_sub_round row.coefficients x X hinteger
  have hsame : dot (cons.keyVar :: cons.binVars) X =
      dot (row.coefficients.map fun e => (e.1, stdRound e.2)) X := (hperm.map _).sum_eq
  -- the rounded row has an integer value within one of the side's integer
  have hvalue : dot (cons.keyVar :: cons.binVars) X = cons.rhs := by
    rw [hsame, hrhs]
    have hclose : |((dot (row.coefficients.map fun e => (e.1, stdRound e.2)) X : ℤ) : ℚ) -
        (stdRound v : ℤ)| < 1 := by
      have hmove := abs_le.mp (le_refl |row.displacement x|)
      have hleft := abs_le.mp hpinned
      have hright := abs_le.mp hround
      rw [abs_lt]
      constructor <;> linarith [hleft.1, hleft.2, hright.1, hright.2, hmove.1, hmove.2]
    have hcast : |(dot (row.coefficients.map fun e => (e.1, stdRound e.2)) X) - stdRound v| <
        (1 : ℤ) := by exact_mod_cast hclose
    have hzero := Int.abs_lt_one_iff.mp hcast
    linarith
  refine ⟨X, fun j hj => ?_, hvalue, ?_⟩
  · obtain ⟨w, hw, rfl⟩ := mem_map.mp hj
    obtain ⟨e, he, rfl⟩ := mem_map.mp (hperm.mem_iff.mp hw)
    exact hinteger e he
  · have hparity := sum_modEq_dot cons.binVars (fun v hv => (hbins v hv).1) X
    refine hparity.trans ?_
    rw [← hvalue]
    have hdot : dot (cons.keyVar :: cons.binVars) X =
        cons.keyVar.2 * X cons.keyVar.1 + dot cons.binVars X := by
      simp only [dot, map_cons, sum_cons]
    have heven : (2 : ℤ) ∣ cons.keyVar.2 := by
      rcases abs_eq (zero_le_two) |>.mp hkey with htwo | htwo
      · rw [htwo]
      · rw [htwo]
        decide
    rw [hdot]
    apply Int.modEq_iff_dvd.mpr
    rw [add_sub_cancel_right]
    exact Dvd.dvd.mul_right heven _

lemma Gf2Constraint.Holds.floor {cons : Gf2Constraint} (h : cons.Holds x) :
    (∀ j ∈ keys (cons.keyVar :: cons.binVars), x j = ⌊x j⌋) ∧
      dot (cons.keyVar :: cons.binVars) (fun j => ⌊x j⌋) = cons.rhs ∧
      ((keys cons.binVars).map fun j => ⌊x j⌋).sum ≡ cons.rhs [ZMOD 2] := by
  obtain ⟨X, hX, hdot, hsum⟩ := h
  have hfloor : ∀ j ∈ keys (cons.keyVar :: cons.binVars), ⌊x j⌋ = X j := by
    intro j hj
    rw [hX j hj, Int.floor_intCast]
  refine ⟨fun j hj => ?_, ?_, ?_⟩
  · rw [hfloor j hj]
    exact hX j hj
  · rw [← hdot, dot, dot]
    congr 1
    apply map_congr_left
    intro v hv
    rw [hfloor v.1 (mem_map_of_mem hv)]
  · have hsame : (keys cons.binVars).map (fun j => ⌊x j⌋) = (keys cons.binVars).map X := by
      apply map_congr_left
      intro j hj
      exact hfloor j (mem_cons_of_mem _ hj)
    rw [hsame]
    exact hsum

lemma insertAll_spec (vars : List ℕ) :
    (insertAll vars).Nodup ∧ ∀ v, v ∈ insertAll vars ↔ v ∈ vars := by
  induction vars using reverseRecOn with
  | nil => simp [insertAll]
  | append_singleton vars v ih =>
    obtain ⟨hnodup, hmem⟩ := ih
    rw [insertAll, foldl_concat, ← insertAll]
    split_ifs with hv
    · refine ⟨hnodup, fun w => ?_⟩
      rw [hmem w, mem_append, mem_singleton]
      constructor
      · exact .inl
      · rintro (hw | rfl)
        · exact hw
        · exact (hmem w).mp hv
    · refine ⟨Nodup.append hnodup (nodup_singleton v) ?_, fun w => ?_⟩
      · exact fun w hw hsingle => hv (mem_singleton.mp hsingle ▸ hw)
      · rw [mem_append, mem_append, hmem w]

section System

variable {binVars : List ℕ}

lemma gf2Row_spec (cons : Gf2Constraint) (hbins : ∀ v ∈ cons.binVars, v.1 ∈ binVars) :
    (gf2Row binVars cons).length = gf2NWords binVars.length ∧
      ∀ c, gf2TestBit (gf2Row binVars cons) c = true ↔
        c ∈ (keys cons.binVars).map binVars.idxOf := by
  rw [gf2Row]
  revert hbins
  generalize cons.binVars = bins
  intro hbins
  induction bins using reverseRecOn with
  | nil =>
    refine ⟨length_replicate, fun c => ?_⟩
    rw [gf2TestBit_iff]
    simp [keys]
  | append_singleton l v ih =>
    obtain ⟨hlen, hmem⟩ := ih fun w hw => hbins w (mem_append_left _ hw)
    rw [foldl_concat]
    refine ⟨(length_gf2SetBit _ _).trans hlen, fun c => ?_⟩
    have hv : v.1 ∈ binVars := hbins v (mem_append_right _ (mem_singleton_self v))
    have hbound := lt_gf2NWords (idxOf_lt_length_of_mem hv)
    rw [gf2TestBit_iff, gf2SetBit_eq_set, Bitset.mem_set (by rwa [hlen]), ← gf2TestBit_iff, hmem c,
      keys_append, map_append, mem_append, or_comm]
    simp [keys]

lemma toField_positiveModulo (i : ℤ) :
    toField (decide (positiveModulo i 2 = 1)) = (i : ZMod 2) := by
  have hmod : positiveModulo i 2 = i % 2 := by
    have hlower : -2 < i.tmod 2 := Int.lt_tmod_of_pos i (by decide)
    have hsplit := Int.mul_tdiv_add_tmod i 2
    rw [positiveModulo, Int.tmod_eq_emod_of_nonneg (by omega)]
    omega
  have hcast : (i : ZMod 2) = ((i % 2 : ℤ) : ZMod 2) := by
    rw [ZMod.intCast_eq_intCast_iff]
    exact (Int.mod_modEq i 2).symm
  rw [hmod, hcast]
  rcases Int.emod_two_eq_zero_or_one i with h | h <;> rw [h] <;> decide

lemma sum_gf2Row {cons : Gf2Constraint} (hnodup : (keys cons.binVars).Nodup)
    (hbins : ∀ v ∈ cons.binVars, v.1 ∈ binVars) (X : ℕ → ℤ) :
    ∑ c ∈ range binVars.length, toField (gf2TestBit (gf2Row binVars cons) c) *
        (X (binVars.getD c 0) : ZMod 2) = (((keys cons.binVars).map X).sum : ℤ) := by
  set l : List (ℕ × ZMod 2) := cons.binVars.map fun v => (binVars.idxOf v.1, 1) with hl
  have hkeys : keys l = (keys cons.binVars).map binVars.idxOf := by
    simp only [hl, keys, map_map, Function.comp_def]
  have hinj : ∀ v ∈ keys cons.binVars, ∀ w ∈ keys cons.binVars,
      binVars.idxOf v = binVars.idxOf w → v = w := by
    intro v hv w hw heq
    obtain ⟨e, he, rfl⟩ := mem_map.mp hv
    exact (idxOf_inj (hbins e he)).mp heq
  have hlnodup : (keys l).Nodup := hkeys ▸ hnodup.map_on hinj
  have hcoeff : ∀ c, toField (gf2TestBit (gf2Row binVars cons) c) = coeff l c := by
    intro c
    have hbit := (gf2Row_spec cons hbins).2 c
    rw [← hkeys] at hbit
    by_cases hc : c ∈ keys l
    · obtain ⟨e, he, rfl⟩ := mem_map.mp hc
      have hone : e.2 = 1 := by
        obtain ⟨v, -, rfl⟩ := mem_map.mp he
        rfl
      rw [hbit.mpr hc, coeff_of_mem hlnodup he, hone]
      rfl
    · rw [Bool.eq_false_iff.mpr fun h => hc (hbit.mp h), coeff_eq_zero hc]
      rfl
  calc ∑ c ∈ range binVars.length, toField (gf2TestBit (gf2Row binVars cons) c) *
        (X (binVars.getD c 0) : ZMod 2)
      = dot l fun c => (X (binVars.getD c 0) : ZMod 2) := by
        rw [dot_eq_sum l _ (range binVars.length)]
        · simp only [hcoeff]
        · intro e he
          obtain ⟨v, hv, rfl⟩ := mem_map.mp he
          exact Finset.mem_range.mpr (idxOf_lt_length_of_mem (hbins v hv))
    _ = (((keys cons.binVars).map X).sum : ℤ) := by
        rw [dot, hl, map_map, keys, map_map, Int.cast_list_sum, map_map]
        congr 1
        apply map_congr_left
        intro v hv
        have hlt := idxOf_lt_length_of_mem (hbins v hv)
        simp only [Function.comp_apply, one_mul]
        rw [getD_eq_getElem _ _ hlt, getElem_idxOf hlt]

def gf2System (constraints : List Gf2Constraint)
    (hbins : ∀ cons ∈ constraints, ∀ v ∈ cons.binVars, v.1 ∈ binVars) : Gf2System where
  A := constraints.map (gf2Row binVars)
  n := binVars.length
  b := constraints.map fun cons => decide (positiveModulo cons.rhs 2 = 1)
  shape := by
    have hrow : ∀ r < (constraints.map (gf2Row binVars)).length, ∃ cons ∈ constraints,
        (constraints.map (gf2Row binVars)).getD r [] = gf2Row binVars cons := by
      intro r hr
      rw [getD_eq_getElem _ _ hr, getElem_map]
      exact ⟨_, getElem_mem _, rfl⟩
    refine ⟨rfl, by simp, fun r hr => ?_, fun r hr c hc => ?_⟩
    · obtain ⟨cons, hcons, hget⟩ := hrow r hr
      rw [hget]
      exact (gf2Row_spec cons (hbins cons hcons)).1
    · obtain ⟨cons, hcons, hget⟩ := hrow r hr
      rw [hget] at hc
      obtain ⟨v, hv, rfl⟩ := mem_map.mp (((gf2Row_spec cons (hbins cons hcons)).2 c).mp hc)
      obtain ⟨e, he, rfl⟩ := mem_map.mp hv
      exact idxOf_lt_length_of_mem (hbins cons hcons e he)

lemma floor_mem_solutions {constraints : List Gf2Constraint}
    (hbins : ∀ cons ∈ constraints, ∀ v ∈ cons.binVars, v.1 ∈ binVars)
    (hnodup : ∀ cons ∈ constraints, (keys cons.binVars).Nodup) {x : ℕ → ℚ}
    (hx : ∀ cons ∈ constraints, cons.Holds x) :
    (fun c => (⌊x (binVars.getD c 0)⌋ : ZMod 2)) ∈ (gf2System constraints hbins).solutions := by
  intro r hr
  have hlt : r < constraints.length := by simpa [gf2System] using hr
  have hcons : constraints[r] ∈ constraints := getElem_mem hlt
  have hrow : (constraints.map (gf2Row binVars)).getD r [] = gf2Row binVars constraints[r] := by
    rw [getD_eq_getElem _ _ (by simpa using hlt), getElem_map]
  have hside : (constraints.map fun cons => decide (positiveModulo cons.rhs 2 = 1)).getD r false =
      decide (positiveModulo constraints[r].rhs 2 = 1) := by
    rw [getD_eq_getElem _ _ (by simpa using hlt), getElem_map]
  have hsum := sum_gf2Row (hnodup _ hcons) (hbins _ hcons) fun j => ⌊x j⌋
  have hparity := (hx _ hcons).floor.2.2
  simp only [gf2System, entry, rhs, hrow, hside, toField_positiveModulo]
  rw [hsum, ZMod.intCast_eq_intCast_iff]
  exact hparity

end System

lemma floor_of_isBinary {d : Domain} (hbinary : isBinary d = true) {v : ℚ} (hv : d.Contains v)
    (hintegral : d.integral = true) : v = 0 ∨ v = 1 := by
  rw [isBinary] at hbinary
  split_ifs at hbinary with hlb hub
  rw [Bool.and_eq_true, beq_iff_eq, beq_iff_eq] at hbinary
  obtain ⟨k, hk⟩ := hv.2.2 hintegral
  have hlower := hv.1 (by simpa using hlb)
  have hupper := hv.2.1 (by simpa using hub)
  rw [hbinary.1, hk] at hlower
  rw [hbinary.2, hk] at hupper
  have h0 : 0 ≤ k := by exact_mod_cast hlower
  have h1 : k ≤ 1 := by exact_mod_cast hupper
  rw [hk]
  rcases (by omega : k = 0 ∨ k = 1) with rfl | rfl
  · exact .inl Int.cast_zero
  · exact .inr Int.cast_one

def Agrees (x : ℕ → ℚ) (fixings : List (ℕ × ℤ)) : Prop := ∀ f ∈ fixings, x f.1 = f.2

section Fixings

variable {x : ℕ → ℚ} {fixings : List (ℕ × ℤ)}

variable {v : ℕ} {value : ℤ}

lemma Agrees.setFixing (h : Agrees x fixings) (hv : x v = value) :
    Agrees x (setFixing fixings v value) := by
  intro f hf
  rcases mem_cons.mp hf with rfl | hf
  · exact hv
  · exact h f (mem_filter.mp hf).1

lemma mem_keys_setFixing {w : ℕ} :
    w ∈ keys (setFixing fixings v value) ↔ w = v ∨ w ∈ keys fixings := by
  rw [setFixing, keys_cons, mem_cons]
  by_cases hw : w = v
  · simp [hw]
  · simp only [hw, false_or, keys, mem_map, mem_filter]
    constructor
    · rintro ⟨f, ⟨hf, -⟩, rfl⟩
      exact ⟨f, hf, rfl⟩
    · rintro ⟨f, hf, rfl⟩
      exact ⟨f, ⟨hf, by simpa using hw⟩, rfl⟩

lemma Agrees.lookup (h : Agrees x fixings) (hv : fixings.lookup v = some value) :
    x v = value := by
  obtain ⟨before, after, rfl, -⟩ := lookup_eq_some_iff.mp hv
  exact h (v, value) (by simp)

lemma lookup_isSome_of_mem (hv : v ∈ keys fixings) : (fixings.lookup v).isSome = true := by
  obtain ⟨f, hf, rfl⟩ := mem_map.mp hv
  exact lookup_isSome_iff.mpr ⟨f, hf, beq_self_eq_true f.1⟩

/-- At a point that agrees with the fixings, a row's determined binaries have its values. -/
lemma Agrees.foldl_lookup (h : Agrees x fixings) (l : List (ℕ × ℤ))
    (hl : ∀ v ∈ l, v.1 ∈ keys fixings) (start : ℤ) :
    l.foldl (fun s v => s + (fixings.lookup v.1).getD 0 * v.2) start =
      start + dot l fun j => ⌊x j⌋ := by
  induction l generalizing start with
  | nil => simp [dot]
  | cons v l ih =>
    obtain ⟨value, hvalue⟩ := Option.isSome_iff_exists.mp
      (lookup_isSome_of_mem (hl v mem_cons_self))
    have hfloor : ⌊x v.1⌋ = value := by rw [h.lookup hvalue, Int.floor_intCast]
    rw [foldl_cons, ih fun w hw => hl w (mem_cons_of_mem _ hw)]
    simp only [dot, map_cons, sum_cons, hvalue, Option.getD_some, hfloor]
    ring

end Fixings

section Keys

variable {num : Num} {p : PapiloProblem} {x : ℕ → ℚ} {binVars : List ℕ} {determined : List Bool}

/-- At a feasible point the key of a row is the value that the row leaves for it, so that no check
fails. -/
lemma fixKey_agrees {cons : Gf2Constraint} (hcons : cons.Holds x) (hkey : |cons.keyVar.2| = 2)
    (hx : p.InDomains x) {fixings : List (ℕ × ℤ)} (hagrees : Agrees x fixings)
    (hdetermined : ∀ v ∈ cons.binVars, determined.getD (binVars.idxOf v.1) false = true →
      v.1 ∈ keys fixings) :
    ∃ fixings', fixKey num p binVars determined fixings cons = some fixings' ∧
      Agrees x fixings' ∧ ∀ v ∈ keys fixings, v ∈ keys fixings' := by
  rw [fixKey]
  split_ifs with hfree
  · exact ⟨fixings, rfl, hagrees, fun v hv => hv⟩
  · obtain ⟨hfloor, hdot, -⟩ := hcons.floor
    have hmem : ∀ v ∈ cons.binVars, v.1 ∈ keys fixings := by
      intro v hv
      refine hdetermined v hv ?_
      by_contra hnot
      exact hfree (any_eq_true.mpr ⟨v, hv, by simpa using hnot⟩)
    have hkeyVal : x cons.keyVar.1 = ⌊x cons.keyVar.1⌋ := hfloor _ mem_cons_self
    generalize hk : ⌊x cons.keyVar.1⌋ = k at hkeyVal
    have hne : (cons.keyVar.2 : ℚ) ≠ 0 := by
      intro hzero
      rw [Int.cast_eq_zero.mp hzero] at hkey
      exact absurd hkey (by decide)
    have hlhs : cons.binVars.foldl (fun s v => s + (fixings.lookup v.1).getD 0 * v.2) (-cons.rhs) =
        -(k * cons.keyVar.2) := by
      rw [hagrees.foldl_lookup _ hmem, ← hdot]
      simp only [dot, map_cons, sum_cons, hk]
      ring
    have hround : stdRound (-((-(k * cons.keyVar.2) : ℤ) : ℚ) / cons.keyVar.2) = k := by
      have hquotient : -((-(k * cons.keyVar.2) : ℤ) : ℚ) / cons.keyVar.2 = (k : ℚ) := by
        push_cast
        rw [neg_neg, mul_div_assoc, div_self hne, mul_one]
      rw [hquotient, stdRound_intCast]
    simp only [hlhs, hround]
    obtain ⟨hlower, hupper, -⟩ := hx cons.keyVar.1
    rw [hkeyVal] at hlower hupper
    have htol := num.feasTol_nonneg
    have heq : ∀ a : ℚ, num.isEq a a = true := by
      intro a
      rw [Num.isEq, sub_self, abs_zero]
      exact decide_eq_true num.epsilon_nonneg
    rw [if_neg, if_neg, if_neg, if_neg]
    · refine ⟨_, rfl, hagrees.setFixing hkeyVal, fun v hv => ?_⟩
      exact mem_keys_setFixing.mpr (.inr hv)
    · rintro ⟨hub, hlt⟩
      linarith [hupper (by simpa using hub)]
    · rintro ⟨hlb, hlt⟩
      linarith [hlower (by simpa using hlb)]
    · intro hother
      cases hlookup : fixings.lookup cons.keyVar.1 with
      | none =>
        rw [hlookup, Option.any_none] at hother
        exact absurd hother (by decide)
      | some f =>
        have hsame : (f : ℚ) = k := (hagrees.lookup hlookup).symm.trans hkeyVal
        rw [hlookup, Option.any_some, hsame, heq] at hother
        exact absurd hother (by decide)
    · push_cast
      rw [neg_add_cancel, heq]
      decide

lemma fixKeys_agrees {constraints : List Gf2Constraint} (hx : p.InDomains x)
    (hcons : ∀ cons ∈ constraints, cons.Holds x ∧ |cons.keyVar.2| = 2)
    {fixings : List (ℕ × ℤ)} (hagrees : Agrees x fixings)
    (hdetermined : ∀ cons ∈ constraints, ∀ v ∈ cons.binVars,
      determined.getD (binVars.idxOf v.1) false = true → v.1 ∈ keys fixings) :
    ∃ fixings', constraints.foldlM (fixKey num p binVars determined) fixings = some fixings' ∧
      Agrees x fixings' := by
  induction constraints generalizing fixings with
  | nil => exact ⟨fixings, rfl, hagrees⟩
  | cons cons constraints ih =>
    obtain ⟨hholds, hkey⟩ := hcons cons mem_cons_self
    obtain ⟨mid, hmid, hmidAgrees, hkeep⟩ := fixKey_agrees hholds hkey hx hagrees
      (hdetermined cons mem_cons_self)
    obtain ⟨last, hlast, hlastAgrees⟩ := ih (fun c hc => hcons c (mem_cons_of_mem _ hc))
      hmidAgrees fun c hc v hv hd =>
        hkeep _ (hdetermined c (mem_cons_of_mem _ hc) v hv hd)
    refine ⟨last, ?_, hlastAgrees⟩
    rw [foldlM_cons, hmid]
    exact hlast

lemma binFixings_spec {solution : List Bool}
    (hvalue : ∀ i < binVars.length, determined.getD i false = true →
      x (binVars.getD i 0) = ((if solution.getD i false then 1 else 0 : ℤ) : ℚ)) :
    Agrees x (binFixings binVars solution determined) ∧
      ∀ i < binVars.length, determined.getD i false = true →
        binVars.getD i 0 ∈ keys (binFixings binVars solution determined) := by
  have hrun : ∀ n ≤ binVars.length, ∀ fixings, fixings = (List.range n).foldl
      (fun fixings i =>
        if determined.getD i false then
          setFixing fixings (binVars.getD i 0) (if solution.getD i false then 1 else 0)
        else fixings) [] →
      Agrees x fixings ∧ ∀ i < n, determined.getD i false = true →
        binVars.getD i 0 ∈ keys fixings := by
    intro n hn
    induction n with
    | zero =>
      rintro fixings rfl
      exact ⟨fun f hf => absurd hf (by simp), fun i hi => absurd hi (Nat.not_lt_zero i)⟩
    | succ n ih =>
      rintro fixings rfl
      obtain ⟨hagrees, hmem⟩ := ih (by omega) _ rfl
      rw [range_succ, foldl_concat]
      by_cases hd : determined.getD n false = true
      · rw [if_pos hd]
        refine ⟨hagrees.setFixing ?_, fun i hi hdi => mem_keys_setFixing.mpr ?_⟩
        · exact hvalue n (by omega) hd
        · rcases Nat.lt_succ_iff_lt_or_eq.mp hi with hi | rfl
          · exact .inr (hmem i hi hdi)
          · exact .inl rfl
      · rw [if_neg hd]
        refine ⟨hagrees, fun i hi hdi => ?_⟩
        rcases Nat.lt_succ_iff_lt_or_eq.mp hi with hi | rfl
        · exact hmem i hi hdi
        · exact absurd hdi hd
  exact hrun binVars.length le_rfl _ rfl

end Keys

section Execute

variable {num : Num} {p : PapiloProblem}

/-- Wherever a parity row was found, rounding moves the row by less than the tolerances leave. -/
def RoundingSmall (num : Num) (p : PapiloProblem) : Prop :=
  ∀ row ∈ p.rows, ∀ cstrIdx cons, scanRow num p.domains row cstrIdx = some cons →
    ∀ x, p.InDomains x → |row.displacement x| + num.feasTol + num.epsilon < 1

variable {cons : Gf2Constraint}

lemma mem_gf2Constraints (h : cons ∈ gf2Constraints num p) :
    ∃ row ∈ p.rows, ∃ cstrIdx, scanRow num p.domains row cstrIdx = some cons := by
  obtain ⟨e, he, hscan⟩ := mem_filterMap.mp h
  obtain ⟨-, -, hget⟩ := mem_zipIdx (x := e.1) (i := e.2) he
  exact ⟨e.1, hget ▸ getElem_mem _, e.2, hscan⟩

lemma keys_nodup_of_scan {row : PapiloRow} (hrow : row ∈ p.rows) {cstrIdx : ℕ}
    (h : scanRow num p.domains row cstrIdx = some cons) : (keys cons.binVars).Nodup := by
  have hperm := (scanRow_spec h).1.map Prod.fst
  have hkeys : (keys (cons.keyVar :: cons.binVars)).Nodup := by
    rw [keys, hperm.nodup_iff, map_map]
    exact p.nodup row hrow
  exact (nodup_cons.mp hkeys).2

lemma mem_gf2BinVars {v : ℕ} : v ∈ gf2BinVars num p ↔
    ∃ cons ∈ gf2Constraints num p, v ∈ keys cons.binVars := by
  rw [gf2BinVars, (insertAll_spec _).2 v, mem_flatMap]

lemma binVars_subset (hcons : cons ∈ gf2Constraints num p) :
    ∀ v ∈ cons.binVars, v.1 ∈ gf2BinVars num p :=
  fun _ hv => mem_gf2BinVars.mpr ⟨cons, hcons, mem_map_of_mem hv⟩

variable {x : ℕ → ℚ}

lemma zero_or_one_of_mem (hx : p.InDomains x) {v : ℕ} (hv : v ∈ gf2BinVars num p) :
    x v = 0 ∨ x v = 1 := by
  obtain ⟨cons, hcons, hkey⟩ := mem_gf2BinVars.mp hv
  obtain ⟨e, he, rfl⟩ := mem_map.mp hkey
  obtain ⟨row, hrow, cstrIdx, hscan⟩ := mem_gf2Constraints hcons
  obtain ⟨hperm, hintegral, -, hbin, -⟩ := scanRow_spec hscan
  obtain ⟨o, ho, heq⟩ := mem_map.mp (hperm.mem_iff.mp (mem_cons_of_mem cons.keyVar he))
  have hcol : o.1 = e.1 := congrArg Prod.fst heq
  exact floor_of_isBinary (hbin e he).2 (hx e.1) (hcol ▸ hintegral o ho)

/-- The parity rows have a solution at a point where they hold, and all fixings agree with it. -/
lemma fixings_agree (hx : p.InDomains x) (hcons : ∀ cons ∈ gf2Constraints num p, cons.Holds x) :
    ∃ solution determined fixings,
      gf2Solve ((gf2Constraints num p).map (gf2Row (gf2BinVars num p))) (gf2BinVars num p).length
          ((gf2Constraints num p).map fun cons => decide (positiveModulo cons.rhs 2 = 1)) =
        some (solution, determined) ∧
      (gf2Constraints num p).foldlM (fixKey num p (gf2BinVars num p) determined)
          (binFixings (gf2BinVars num p) solution determined) = some fixings ∧
      Agrees x fixings := by
  have hbins : ∀ cons ∈ gf2Constraints num p, ∀ v ∈ cons.binVars, v.1 ∈ gf2BinVars num p :=
    fun _ hmem => binVars_subset hmem
  have hnodup : ∀ cons ∈ gf2Constraints num p, (keys cons.binVars).Nodup := by
    intro cons hmem
    obtain ⟨row, hrow, cstrIdx, hscan⟩ := mem_gf2Constraints hmem
    exact keys_nodup_of_scan hrow hscan
  have hpoint := floor_mem_solutions hbins hnodup hcons
  obtain ⟨hinfeasible, hdetermined⟩ := gf2Solve_exact (gf2System (gf2Constraints num p) hbins)
  cases hsolve : gf2Solve ((gf2Constraints num p).map (gf2Row (gf2BinVars num p)))
      (gf2BinVars num p).length
      ((gf2Constraints num p).map fun cons => decide (positiveModulo cons.rhs 2 = 1)) with
  | none =>
    rw [hinfeasible.mp hsolve] at hpoint
    exact absurd hpoint (Set.notMem_empty _)
  | some result =>
    obtain ⟨solution, determined⟩ := result
    obtain ⟨-, -, hsolution, hunique⟩ := hdetermined solution determined hsolve
    -- a determined column has one parity in all solutions, and a binary is its parity
    have hvalue : ∀ i < (gf2BinVars num p).length, determined.getD i false = true →
        x ((gf2BinVars num p).getD i 0) = ((if solution.getD i false then 1 else 0 : ℤ) : ℚ) := by
      intro i hi hd
      have hagree := (hunique i hi).mp hd _ hpoint _ hsolution
      have hmem : (gf2BinVars num p).getD i 0 ∈ gf2BinVars num p := by
        rw [getD_eq_getElem _ _ hi]
        exact getElem_mem hi
      rcases zero_or_one_of_mem hx hmem with hzero | hone
      · simp only [hzero] at hagree ⊢
        cases hbit : solution.getD i false with
        | false => rfl
        | true => exact absurd hagree (by rw [hbit]; decide)
      · simp only [hone] at hagree ⊢
        cases hbit : solution.getD i false with
        | false => exact absurd hagree (by rw [hbit]; decide)
        | true => rfl
    obtain ⟨hagrees, hfixed⟩ := binFixings_spec hvalue
    have hkeys : ∀ cons ∈ gf2Constraints num p, cons.Holds x ∧ |cons.keyVar.2| = 2 := by
      intro cons hmem
      obtain ⟨row, hrow, cstrIdx, hscan⟩ := mem_gf2Constraints hmem
      exact ⟨hcons cons hmem, (scanRow_spec hscan).2.2.1⟩
    have hcovered : ∀ cons ∈ gf2Constraints num p, ∀ v ∈ cons.binVars,
        determined.getD ((gf2BinVars num p).idxOf v.1) false = true →
        v.1 ∈ keys (binFixings (gf2BinVars num p) solution determined) := by
      intro cons hmem v hv hd
      have hlt := idxOf_lt_length_of_mem (hbins cons hmem v hv)
      have hkey := hfixed _ hlt hd
      rwa [getD_eq_getElem _ _ hlt, getElem_idxOf hlt] at hkey
    have hrun : ∃ fixings, (gf2Constraints num p).foldlM (fixKey num p (gf2BinVars num p) determined)
        (binFixings (gf2BinVars num p) solution determined) = some fixings ∧ Agrees x fixings :=
      fixKeys_agrees hx hkeys hagrees hcovered
    obtain ⟨fixings, hfixings, hlast⟩ := hrun
    exact ⟨solution, determined, fixings, rfl, hfixings, hlast⟩

lemma execute_agrees (hx : p.InDomains x) (hcons : ∀ cons ∈ gf2Constraints num p, cons.Holds x) :
    (execute num p).1 ≠ .infeasible ∧ Agrees x (execute num p).2 := by
  have hnone : Agrees x [] := fun f hf => absurd hf (by simp)
  obtain ⟨solution, determined, fixings, hsolve, hfixings, hagrees⟩ := fixings_agree hx hcons
  rw [execute]
  split_ifs with hempty hkeys hlarge
  · exact ⟨by decide, hnone⟩
  · exact ⟨by decide, hnone⟩
  · exact ⟨by decide, hnone⟩
  · simp only [hsolve, hfixings]
    split_ifs with hfixed
    · exact ⟨by decide, hnone⟩
    · refine ⟨PresolveStatus.noConfusion, fun f hf => ?_⟩
      obtain ⟨o, ho, rfl⟩ := mem_map.mp hf
      have hfix := hagrees o ho
      -- a value within epsilon of zero is zero, being an integer
      split_ifs with hzero
      · have hlt : |(o.2 : ℚ)| < 1 := (of_decide_eq_true hzero).trans_lt num.epsilon_lt
        have hcast : |o.2| < 1 := by exact_mod_cast hlt
        rw [hfix, Int.abs_lt_one_iff.mp hcast]
      · exact hfix

/-- Every parity row holds wherever its row does; the fixed columns have their values at every
feasible point, and there is none when the presolver says so. -/
theorem execute_sound (num : Num) (p : PapiloProblem) (hsmall : RoundingSmall num p) :
    (∀ row ∈ p.rows, ∀ cstrIdx cons, scanRow num p.domains row cstrIdx = some cons →
      ∀ x, p.InDomains x → row.Holds x → cons.Holds x) ∧
    (∀ x, p.Feasible x → ∀ f ∈ (execute num p).2, x f.1 = f.2) ∧
    ((execute num p).1 = .infeasible → ∀ x, ¬ p.Feasible x) := by
  have hparity : ∀ row ∈ p.rows, ∀ cstrIdx cons, scanRow num p.domains row cstrIdx = some cons →
      ∀ x, p.InDomains x → row.Holds x → cons.Holds x := by
    intro row hrow cstrIdx cons hscan x hx hholds
    exact Gf2Constraint.holds_of_scan hrow hscan hx (hsmall row hrow cstrIdx cons hscan x hx) hholds
  have hcons : ∀ x, p.Feasible x → ∀ cons ∈ gf2Constraints num p, cons.Holds x := by
    rintro x ⟨hx, hrows⟩ cons hmem
    obtain ⟨row, hrow, cstrIdx, hscan⟩ := mem_gf2Constraints hmem
    exact hparity row hrow cstrIdx cons hscan x hx (hrows row hrow)
  refine ⟨hparity, fun x hx => ?_, fun hinfeasible x hx => ?_⟩
  · exact (execute_agrees hx.1 (hcons x hx)).2
  · exact (execute_agrees hx.1 (hcons x hx)).1 hinfeasible

lemma roundingSmall_of_integral (htol : num.feasTol + num.epsilon < 1)
    (h : ∀ row ∈ p.rows, ∀ e ∈ row.coefficients, ∃ k : ℤ, e.2 = k) : RoundingSmall num p := by
  intro row hrow cstrIdx cons _ x _
  have hzero : row.displacement x = 0 := by
    rw [PapiloRow.displacement, dot, map_map]
    apply sum_eq_zero
    intro v hv
    obtain ⟨e, he, rfl⟩ := mem_map.mp hv
    obtain ⟨k, hk⟩ := h row hrow e he
    simp only [Function.comp_apply]
    rw [hk, stdRound_intCast, sub_self, zero_mul]
  rw [hzero, abs_zero, zero_add]
  exact htol

end Execute

def defaultNum : Num where
  epsilon := 1 / 10 ^ 9
  feasTol := 1 / 10 ^ 6
  epsilon_nonneg := by norm_num
  feasTol_nonneg := by norm_num
  epsilon_lt := by norm_num

def keyRow (coeff upper side : ℚ) : PapiloRow where
  coefficients := [(0, coeff), (1, 1)]
  lhs := side
  rhs := side
  equation := true
  lhsInf := false
  rhsInf := false
  redundant := false
  activity := ⟨0, coeff * upper + 1, 0, 0⟩

def keyProblem (coeff upper side : ℚ) (hcoeff : 0 ≤ coeff) : PapiloProblem where
  rows := [keyRow coeff upper side]
  domains j := ⟨0, if j = 0 then upper else 1, false, false, true⟩
  nodup := by
    intro row hrow
    rw [mem_singleton.mp hrow]
    exact of_decide_eq_true rfl
  equation := by
    intro row hrow _
    rw [mem_singleton.mp hrow]
    exact ⟨rfl, rfl, rfl⟩
  activity_min := by
    intro row hrow _ x hx
    rw [mem_singleton.mp hrow]
    have hkey := mul_nonneg hcoeff ((hx 0).1 rfl)
    have hbin := (hx 1).1 rfl
    simp only [keyRow, dot, map_cons, map_nil, sum_cons, sum_nil]
    linarith
  activity_max := by
    intro row hrow _ x hx
    rw [mem_singleton.mp hrow]
    have hkey := mul_le_mul_of_nonneg_left ((hx 0).2.1 rfl) hcoeff
    have hbin := (hx 1).2.1 rfl
    simp only [if_pos, one_ne_zero, if_false] at hkey hbin
    simp only [keyRow, dot, map_cons, map_nil, sum_cons, sum_nil]
    linarith

theorem execute_sound_two :
    (execute defaultNum (keyProblem 2 4 5 (by norm_num))).2 = [(0, 2), (1, 1)] ∧
      ∀ x, (keyProblem 2 4 5 (by norm_num)).Feasible x →
        ∀ f ∈ (execute defaultNum (keyProblem 2 4 5 (by norm_num))).2, x f.1 = f.2 := by
  refine ⟨by decide +kernel, (execute_sound defaultNum _ ?_).2.1⟩
  refine roundingSmall_of_integral (by norm_num [defaultNum]) fun row hrow e he => ?_
  rw [mem_singleton.mp hrow] at he
  rcases mem_cons.mp he with rfl | he
  · exact ⟨2, rfl⟩
  · rw [mem_singleton.mp he]
    exact ⟨1, rfl⟩

/-- A coefficient within the tolerance of two, times a large value, moves the row by one. -/
theorem execute_rounds :
    ∃ x, (keyProblem (2 + 1 / 2000000) 4000000 4000001 (by norm_num)).Feasible x ∧
      ∃ f ∈ (execute defaultNum (keyProblem (2 + 1 / 2000000) 4000000 4000001 (by norm_num))).2,
        x f.1 ≠ f.2 := by
  have hfix : (execute defaultNum
      (keyProblem (2 + 1 / 2000000) 4000000 4000001 (by norm_num))).2 = [(0, 2000000), (1, 1)] := by
    decide +kernel
  refine ⟨fun j => if j = 0 then 2000000 else 0, ⟨fun j => ?_, fun row hrow => ?_⟩, (1, 1), ?_, ?_⟩
  · refine ⟨fun _ => ?_, fun _ => ?_, fun _ => ?_⟩
    · simp only [keyProblem]
      split_ifs <;> norm_num
    · simp only [keyProblem]
      split_ifs <;> norm_num
    · exact ⟨if j = 0 then 2000000 else 0, by push_cast; rfl⟩
  · rw [mem_singleton.mp hrow]
    have hvalue : dot (keyRow (2 + 1 / 2000000) 4000000 4000001).coefficients
        (fun j => if j = 0 then (2000000 : ℚ) else 0) = 4000001 := by decide +kernel
    exact ⟨fun _ => hvalue.ge, fun _ => hvalue.le⟩
  · rw [hfix]
    exact mem_cons_of_mem _ (mem_singleton_self _)
  · norm_num

end CuOpt.Presolve
