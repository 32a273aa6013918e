import CuOpt.Presolve.SemiContinuous
import CuOpt.Simplex.BoundsStrengtheningSound
import CuOpt.Simplex.ConvertedColumns

/-! The upper bounds that strengthening of the relaxed problem gives are above every feasible value,
and not above the bounds of the problem. -/

namespace CuOpt.Presolve

open SparseList QuadProgram Activities Activities.Extended List
open CuOpt.Simplex

namespace OptimizationProblem

variable {p : OptimizationProblem}

lemma mem_ranges {q : ℕ × ℚ} : q ∈ p.toUserProblem.ranges ↔
    q.1 < p.rows.length ∧ (rowForm (p.rowBounds q.1)).2.2 = some q.2 := by
  change q ∈ (range p.rows.length).filterMap _ ↔ _
  simp only [mem_filterMap, mem_range, Option.map_eq_some_iff]
  constructor
  · rintro ⟨i, hi, range, hrange, rfl⟩
    exact ⟨hi, hrange⟩
  · rintro ⟨hi, hrange⟩
    exact ⟨q.1, hi, q.2, hrange, rfl⟩

lemma mem_rangeRows {i : ℕ} : i ∈ p.toUserProblem.rangeRows ↔
    i < p.rows.length ∧ (rowForm (p.rowBounds i)).2.2.isSome := by
  rw [UserProblem.rangeRows, mem_map]
  constructor
  · rintro ⟨q, hq, rfl⟩
    obtain ⟨hi, hrange⟩ := mem_ranges.mp hq
    exact ⟨hi, by rw [hrange]; rfl⟩
  · rintro ⟨hi, hrange⟩
    obtain ⟨range, heq⟩ := Option.isSome_iff_exists.mp hrange
    exact ⟨(i, range), mem_ranges.mpr ⟨hi, heq⟩, rfl⟩

lemma rangeRows_nodup : p.toUserProblem.rangeRows.Nodup := by
  have hsub : p.toUserProblem.rangeRows.Sublist (range p.rows.length) := by
    change (((range p.rows.length).filterMap _).map Prod.fst).Sublist _
    rw [map_filterMap]
    have hle : ∀ l : List ℕ, (l.filterMap fun i => ((rowForm (p.rowBounds i)).2.2.map
        fun range => (i, range)).map Prod.fst).Sublist l := by
      intro l
      induction l with
      | nil => exact .slnil
      | cons i l ih =>
        rw [filterMap_cons]
        cases (rowForm (p.rowBounds i)).2.2 with
        | none => exact ih.cons i
        | some range => exact ih.cons_cons i
    exact hle _
  exact hsub.nodup nodup_range

lemma toUserProblem_wellFormed : p.toUserProblem.WellFormed where
  A_m := rfl
  A_n := rfl
  A_lt := by
    intro j _ i hi
    exact (mem_keys_transposed.mp hi).1
  range_lt := fun i hi => (mem_rangeRows.mp hi).1
  range_nodup := rangeRows_nodup
  Q_lt := fun h => absurd h (lt_irrefl 0)
  Q_nil := fun h => absurd h (lt_irrefl 0)
  cones := le_rfl

lemma rangeRows_sense {i : ℕ} (hi : i ∈ p.toUserProblem.rangeRows) :
    p.toUserProblem.rowSense i = .E := by
  have hsome := (mem_rangeRows.mp hi).2
  change (rowForm (p.rowBounds i)).1 = .E
  generalize p.rowBounds i = bounds at hsome ⊢
  obtain ⟨lower, upper⟩ := bounds
  cases lower with
  | none => cases upper <;> cases hsome
  | some l =>
    cases upper with
    | none => cases hsome
    | some u =>
      change (if l = u then _ else _ : RowSense × ℚ × Option ℚ).1 = .E
      split_ifs <;> rfl

lemma convertUserProblem_some :
    ∃ lp newSlacks, convertUserProblem id p.toUserProblem hostSettings = some (lp, newSlacks) := by
  have hdual : dualizes p.toUserProblem hostSettings (inequalityState p.toUserProblem) = false := rfl
  have hcount := (artificialCount_iff toUserProblem_wellFormed rfl).mpr
    fun i (hi : i ∈ p.toUserProblem.rangeRows) => rangeRows_sense hi
  rw [convertUserProblem_eq id hdual]
  exact ⟨_, _, if_pos hcount⟩

lemma toUserProblem_rowValue (hrows : ∀ row ∈ p.rows, ∀ q ∈ row, q.1 < p.numVars) (x : ℕ → ℚ)
    {i : ℕ} (hi : i < p.rows.length) : p.toUserProblem.rowValue x i = dot (p.rows.getD i []) x := by
  have hmem : p.rows.getD i [] ∈ p.rows := by
    rw [getD_eq_getElem _ _ hi]
    exact getElem_mem hi
  rw [dot_eq_sum _ x (Finset.range p.numVars) fun q hq => Finset.mem_range.mpr (hrows _ hmem q hq)]
  apply Finset.sum_congr rfl
  intro j _
  have hentry : p.toUserProblem.A.entry i j = coeff (p.rows.getD i []) j := by
    change coeff (transposed p.rows.length (fun i => p.rows.getD i []) j) i = _
    rw [coeff_transposed, if_pos hi]
  rw [hentry]

/-- A row within its bounds holds in the user problem, unless it has none. -/
lemma rowHolds_of_inBounds {i : ℕ} (hi : i < p.rows.length) (hfree : p.isFreeRow i = false)
    {v : ℚ} (hv : InBounds (p.rowBounds i).1 (p.rowBounds i).2 v) :
    p.toUserProblem.RowHolds i v := by
  have hrange : ∀ range, (rowForm (p.rowBounds i)).2.2 = some range →
      (p.toUserProblem.RowHolds i v ↔ UserProblem.RangeHolds (rowForm (p.rowBounds i)).1
        (rowForm (p.rowBounds i)).2.1 range v) := by
    intro range hsome
    have hlookup := lookup_of_mem (rangeRows_nodup (p := p)) (mem_ranges.mpr ⟨hi, hsome⟩ :
      (i, range) ∈ p.toUserProblem.ranges)
    rw [UserProblem.RowHolds, hlookup]
    exact .rfl
  have hsense : (rowForm (p.rowBounds i)).2.2 = none →
      (p.toUserProblem.RowHolds i v ↔ UserProblem.SenseHolds (rowForm (p.rowBounds i)).1
        (rowForm (p.rowBounds i)).2.1 v) := by
    intro hnone
    apply rowHolds_of_notMem
    intro hmem
    have hsome := (mem_rangeRows.mp hmem).2
    rw [hnone] at hsome
    cases hsome
  rw [isFreeRow] at hfree
  generalize p.rowBounds i = bounds at hv hrange hsense hfree
  obtain ⟨lower, upper⟩ := bounds
  cases lower with
  | none =>
    cases upper with
    | none => exact absurd rfl (of_decide_eq_false hfree)
    | some u => exact (hsense rfl).mpr (hv.2 u rfl)
  | some l =>
    have hl : l ≤ v := hv.1 l rfl
    cases upper with
    | none => exact (hsense rfl).mpr hl
    | some u =>
      have hu : v ≤ u := hv.2 u rfl
      by_cases heq : l = u
      · have hform : rowForm (some l, some u) = (.E, l, none) := if_pos heq
        rw [hform] at hsense
        exact (hsense rfl).mpr (le_antisymm (heq ▸ hu) hl)
      · have hform : rowForm (some l, some u) = (.E, l, some (u - l)) := if_neg heq
        rw [hform] at hrange
        have hpos : 0 < u - l := sub_pos.mpr (lt_of_le_of_ne (hl.trans hu) heq)
        refine (hrange _ rfl).mpr ?_
        simp only [UserProblem.RangeHolds, if_pos hpos, abs_of_pos hpos]
        exact ⟨hl, by linarith⟩

variable {lp : LpProblem} {newSlacks : List ℕ} {x : ℕ → ℚ}

def FreeSlack (p : OptimizationProblem) (lp : LpProblem) (c : ℕ) : Prop :=
  ∃ i < p.rows.length, p.isFreeRow i = true ∧ OpenSlack lp i c

lemma freeRow_form {i : ℕ} (hfree : p.isFreeRow i = true) :
    p.toUserProblem.rowSense i = .G ∧ i ∉ p.toUserProblem.rangeRows := by
  have hnone : p.rowBounds i = (none, none) := of_decide_eq_true hfree
  constructor
  · change (rowForm (p.rowBounds i)).1 = .G
    rw [hnone]
    rfl
  · intro hmem
    have hsome := (mem_rangeRows.mp hmem).2
    rw [hnone] at hsome
    cases hsome

/-- The values of a point of the relaxed problem: rows, bounds, and integral integer variables. -/
structure RelaxedPoint (p : OptimizationProblem) (x : ℕ → ℚ) : Prop where
  rows : p.RowsHold x
  bounds : ∀ j < p.numVars, InBounds (p.varLower.getD j none) (p.varUpper.getD j none) (x j)
  integral : ∀ j < p.numVars, p.varTypes.getD j .continuous ≠ .continuous → ∃ z : ℤ, x j = z

lemma hostStrengthening_keeps (hrows : ∀ row ∈ p.rows, ∀ q ∈ row, q.1 < p.numVars)
    (hconvert : convertUserProblem id p.toUserProblem hostSettings = some (lp, newSlacks))
    (hx : p.RelaxedPoint x) (settings : StrengtheningSettings) (hprimal : 0 ≤ settings.primalTol)
    (hinteger : 0 ≤ settings.integerTol) :
    (p.hostStrengthening lp).Keeps settings
      (crushPrimalSolution p.toUserProblem lp x newSlacks) (p.FreeSlack lp) := by
  have hwf := toUserProblem_wellFormed (p := p)
  obtain ⟨emb, sgn, hlift, hemb⟩ := convertUserProblem_lifted hwf rfl hconvert
  have hm : lp.A.m = lp.numRows := hlift.inRange.A_m
  have hn : lp.A.n = lp.numCols := hlift.inRange.A_n
  have hrowCount : lp.numRows = p.rows.length := hlift.numRows
  have hvalue : ∀ i < p.rows.length, p.isFreeRow i = false →
      dot (lp.A.toCompressedRow.row i) (crushPrimalSolution p.toUserProblem lp x newSlacks) =
        lp.rhs i := by
    intro i hi hfree
    rw [dot_toCompressedRow hn]
    apply hlift.crush_rowValue hemb hi
    rw [toUserProblem_rowValue hrows x hi]
    exact rowHolds_of_inBounds hi hfree (hx.rows i hi)
  constructor
  · exact hprimal
  · exact hinteger
  · exact fun i q => mem_transposed
  · intro i hi
    have hi' : i < p.rows.length := by
      rw [← hrowCount, ← hm]
      exact hi
    cases hfree : p.isFreeRow i with
    | true =>
      right
      obtain ⟨hsense, hrange⟩ := freeRow_form hfree
      obtain ⟨c, -, hopen⟩ := convertUserProblem_openSlack hwf rfl rfl hconvert hi' hrange hsense
      refine ⟨if_pos hfree, (c, 1), ?_, one_pos, i, hi', hfree, hopen⟩
      refine mem_transposed.mpr ⟨hn.symm ▸ hopen.1, ?_⟩
      rw [hopen.2.1]
      exact mem_cons_self
    | false =>
      left
      have hclb : (p.hostStrengthening lp).constraintLb i = finite (lp.rhs i) :=
        if_neg (by rw [hfree]; exact Bool.false_ne_true)
      rw [hclb]
      exact le_of_eq (hvalue i hi' hfree).symm
  · intro i hi
    have hi' : i < p.rows.length := by
      rw [← hrowCount, ← hm]
      exact hi
    cases hfree : p.isFreeRow i with
    | true =>
      have hcub : (p.hostStrengthening lp).constraintUb i = posInf := if_pos hfree
      rw [hcub]
      exact trivial
    | false =>
      have hcub : (p.hostStrengthening lp).constraintUb i = finite (lp.rhs i) :=
        if_neg (by rw [hfree]; exact Bool.false_ne_true)
      rw [hcub]
      exact le_of_eq (hvalue i hi' hfree)
  · intro k hk hint
    have htype : resizedTypes p.toUserProblem p.userVarTypes k ≠ .continuous := by
      intro hcontinuous
      change (resizedTypes p.toUserProblem p.userVarTypes k = .integer ||
        resizedTypes p.toUserProblem p.userVarTypes k = .binary) = true at hint
      rw [hcontinuous] at hint
      exact absurd hint (by decide)
    unfold resizedTypes at htype
    split_ifs at htype with hlt
    · unfold userVarTypes at htype
      split_ifs at htype with hcontinuous
      · exact absurd rfl htype
      · rw [crushPrimalSolution_user (hlift.exactConversion hemb) rfl x hlt]
        exact hx.integral k hlt hcontinuous
    · exact absurd rfl htype
  · rintro c ⟨i, hi, hfree, hopen⟩
    refine ⟨hn.symm ▸ hopen.1, fun q hq => ?_⟩
    have hq' : q ∈ lp.A.col c := hq
    rw [hopen.2.1, mem_singleton] at hq'
    rw [hq']
    exact ⟨one_pos, if_pos hfree⟩

def hostBox (lp : LpProblem) : Box :=
  ⟨(range lp.numCols).map fun j => .ofLower (lp.lower j),
    (range lp.numCols).map fun j => .ofUpper (lp.upper j)⟩

lemma hostBox_lb {lp : LpProblem} {k : ℕ} (hk : k < lp.numCols) :
    (hostBox lp).lb k = ofLower (lp.lower k) := BufferWrites.getD_map_range _ hk _

lemma hostBox_ub {lp : LpProblem} {k : ℕ} (hk : k < lp.numCols) :
    (hostBox lp).ub k = ofUpper (lp.upper k) := BufferWrites.getD_map_range _ hk _

lemma hostBox_admits
    (hconvert : convertUserProblem id p.toUserProblem hostSettings = some (lp, newSlacks))
    (hx : p.RelaxedPoint x) :
    (p.hostStrengthening lp).Admits (crushPrimalSolution p.toUserProblem lp x newSlacks)
      (p.FreeSlack lp) (hostBox lp) := by
  obtain ⟨emb, sgn, hlift, hemb⟩ := convertUserProblem_lifted toUserProblem_wellFormed rfl hconvert
  have hn : lp.A.n = lp.numCols := hlift.inRange.A_n
  have hbounds := hlift.crush_inBounds hemb hx.bounds
  constructor
  · intro k hk
    have hk' : k < lp.numCols := hn ▸ hk
    rw [hostBox_lb hk', hostBox_ub hk']
    exact ⟨ofLower_atMost.mpr (hbounds k hk').1, ofUpper_atLeast.mpr (hbounds k hk').2⟩
  · rintro c ⟨i, -, -, hopen⟩
    rw [hostBox_ub hopen.1, hopen.2.2.2]
    rfl

structure TightFor (p : OptimizationProblem) (P : (ℕ → ℚ) → Prop) (tight : List (Extended ℚ)) :
    Prop where
  above : ∀ x, P x → ∀ j < p.numVars, AtLeast (tight.getD j nan) (x j)
  not_above : ∀ j < p.numVars, ∀ u w, p.varUpper.getD j none = some u →
    tight.getD j nan = finite w → w ≤ u

lemma getD_map_ofUpper (l : List (Option ℚ)) {j : ℕ} (hj : j < l.length) :
    (l.map ofUpper).getD j nan = ofUpper (l.getD j none) := by
  rw [getD_eq_getElem _ _ (by rwa [length_map]), getElem_map, getD_eq_getElem _ _ hj]

lemma tightFor_varUpper (hlen : p.varUpper.length = p.numVars) {P : (ℕ → ℚ) → Prop}
    (hP : ∀ x, P x → ∀ j < p.numVars, ∀ u ∈ p.varUpper.getD j none, x j ≤ u) :
    p.TightFor P (p.varUpper.map ofUpper) where
  above := by
    intro x hx j hj
    rw [getD_map_ofUpper _ (hlen ▸ hj)]
    exact ofUpper_atLeast.mpr (hP x hx j hj)
  not_above := by
    intro j hj u w hu hw
    rw [getD_map_ofUpper _ (hlen ▸ hj), hu] at hw
    cases hw
    exact le_rfl

/-- The bounds that the host strengthening returns hold at every point of the problem. -/
lemma callHostBoundsStrengthening_tightFor
    (hrows : ∀ row ∈ p.rows, ∀ q ∈ row, q.1 < p.numVars) (hlen : p.varUpper.length = p.numVars)
    {settings : MipSettings} (hprimal : settings.presolveAbsoluteTolerance = 0)
    (hinteger : 0 ≤ settings.integralityTolerance) (scIndices : List ℕ) :
    ∃ tight, p.callHostBoundsStrengthening settings scIndices = some tight ∧
      p.TightFor p.RelaxedPoint tight := by
  obtain ⟨lp, newSlacks, hconvert⟩ := convertUserProblem_some (p := p)
  obtain ⟨emb, sgn, hlift, hemb⟩ := convertUserProblem_lifted toUserProblem_wellFormed rfl hconvert
  have hn : lp.A.n = lp.numCols := hlift.inRange.A_n
  have hkeepsBounds := convertUserProblem_keepsBounds rfl rfl hconvert
  have hcols : p.numVars ≤ lp.numCols := hkeepsBounds.numCols
  rw [callHostBoundsStrengthening, hconvert]
  dsimp only
  rw [show (⟨(range lp.numCols).map fun j => .ofLower (lp.lower j),
    (range lp.numCols).map fun j => .ofUpper (lp.upper j)⟩ : Box) = hostBox lp from rfl]
  cases hrun : (p.hostStrengthening lp).boundsStrengthening
      ⟨settings.presolveAbsoluteTolerance, settings.integralityTolerance⟩
      (some fun j => scIndices.contains j) (hostBox lp) with
  | none =>
    refine ⟨_, rfl, tightFor_varUpper hlen fun x hx j hj => (hx.bounds j hj).2⟩
  | some box =>
    have hget : ∀ j < p.numVars, (box.upper.take p.numVars).getD j nan = box.ub j := by
      intro j hj
      rw [Box.ub, getD_eq_getElem?_getD, getElem?_take_of_lt hj, getD_eq_getElem?_getD]
    refine ⟨_, rfl, ?_, ?_⟩
    · intro x hx j hj
      have hkeeps := hostStrengthening_keeps hrows hconvert hx
        ⟨settings.presolveAbsoluteTolerance, settings.integralityTolerance⟩ hprimal.ge hinteger
      obtain ⟨box', hrun', hcontains⟩ := hkeeps.boundsWithin_keeps BoundsStrengthening.iterLimit
        (some fun j => scIndices.contains j) (hostBox_admits hconvert hx)
      have heq : box' = box := by
        rw [BoundsStrengthening.boundsStrengthening, hrun'] at hrun
        exact Option.some.inj hrun
      have hvalue := (hcontains j (hn.symm ▸ hj.trans_le hcols)).2
      rw [crushPrimalSolution_user (hlift.exactConversion hemb) rfl x hj, heq] at hvalue
      rw [hget j hj]
      exact hvalue
    · intro j hj u w hu hw
      rw [hget j hj] at hw
      have hj' : j < lp.numCols := hj.trans_le hcols
      have htight := BoundsStrengthening.boundsWithin_narrowed (b := p.hostStrengthening lp)
        (hn.symm ▸ hj') (.inl hprimal) (by
          rw [hostBox_lb hj', hostBox_ub hj']
          exact ⟨ofLower_ne_nan _, ofUpper_ne_nan _⟩) hrun
      have hbound := htight.le_upper w
      have hub : (hostBox lp).ub j = finite u := by
        have hupper : lp.upper j = p.varUpper.getD j none := hkeepsBounds.upper j hj
        rw [hostBox_ub (hj.trans_le hcols), hupper, hu]
        rfl
      rw [hub, hw] at hbound
      exact hbound le_rfl

end OptimizationProblem

end CuOpt.Presolve
