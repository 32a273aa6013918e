import CuOpt.Cuts.LatticeStepsSound

/-! The calls of a propagation, and where each assigned step comes from. -/

namespace CuOpt.Cuts

open WrappingInt RationalGcd Rational128 List Function

namespace Rational128

lemma approximateLoop_inRange {maxDenominator : ℤ} {passes : ℕ} {p0 q0 p1 q1 : ℤ} {val : ℚ}
    (hp : InRange p1) (hq : InRange q1) {p q : ℤ}
    (h : approximateLoop maxDenominator passes p0 q0 p1 q1 val = some (some (p, q))) :
    InRange p ∧ InRange q := by
  induction passes generalizing p0 q0 p1 q1 val with
  | zero => cases h
  | succ passes ih =>
    rw [approximateLoop] at h
    dsimp only at h
    split_ifs at h
    · cases h
    · cases h
      exact ⟨hp, hq⟩
    · cases h
      exact ⟨inRange_wrap _, inRange_wrap _⟩
    · exact ih (inRange_wrap _) (inRange_wrap _) h

lemma valid_safeFromFloatingPoint (x : ℚ) : Valid (safeFromFloatingPoint x) := by
  rw [safeFromFloatingPoint]
  split
  case h_1 num den heq =>
    split_ifs with hden
    · exact valid_zero
    · rw [rationalApproximation] at heq
      split at heq
      case h_1 | h_2 => cases (Prod.mk.inj heq).1
      case h_3 p1 q1 hloop =>
        obtain ⟨hp, hq⟩ := approximateLoop_inRange (by decide) (by decide) hloop
        obtain ⟨rfl, rfl⟩ := Prod.mk.inj (Option.some.inj (Prod.mk.inj heq).1)
        refine ⟨not_le.mp hden, ?_, hq⟩
        split_ifs
        · exact inRange_wrap _
        · exact hp
  case h_2 => exact valid_zero

end Rational128

namespace LatticeProblem

variable (d : LatticeProblem)

def passCalls : List ℕ → LatticeState × List ℕ → List StepCall
  | [], _ => []
  | i :: rows, st => (d.rowCall st.1 i).toList ++ passCalls rows (d.processRow st i)

def equalityCallsFrom : ℕ → LatticeState → List ℕ → List StepCall
  | 0, _, _ => []
  | passes + 1, st, changed =>
    if changed = [] then []
    else
      let sorted := sortChanged st changed
      let (st', discovered) := sorted.foldl d.processRow (st, [])
      d.passCalls sorted (st, []) ++ equalityCallsFrom passes st' (d.nextChanged discovered)

def equalityCalls : List StepCall := d.equalityCallsFrom d.maxPasses d.start d.equalityRows

def objectiveCalls : List StepCall :=
  match d.unknownObjective d.afterEqualities with
  | [objVar] => d.inequalityCalls d.afterEqualities objVar
  | _ => []

def calls : List StepCall := d.equalityCalls ++ combineCalls d.objectiveCalls none

def Origin (calls : List StepCall) (j : ℕ) (step : Rational128) : Prop :=
  d.knownInitially j = true ∧ step = ⟨1, 1⟩ ∨
    ∃ c ∈ calls, c.solveFor = j ∧ c.gives = true ∧ step = c.computeStep.reduced

structure Origins (calls : List StepCall) (st : LatticeState) : Prop where
  valid : ∀ j, Valid (st.steps j)
  origin : ∀ j, (st.steps j).isZero = false → d.Origin calls j (st.steps j)

variable {d} {calls calls' : List StepCall} {st : LatticeState}

lemma Origin.mono {j : ℕ} {step : Rational128} (h : d.Origin calls j step)
    (hsub : ∀ c ∈ calls, c ∈ calls') : d.Origin calls' j step := by
  rcases h with hknown | ⟨c, hc, hrest⟩
  · exact .inl hknown
  · exact .inr ⟨c, hsub c hc, hrest⟩

lemma Origins.mono (h : d.Origins calls st) (hsub : ∀ c ∈ calls, c ∈ calls') : d.Origins calls' st :=
  ⟨h.valid, fun j hj => (h.origin j hj).mono hsub⟩

lemma origins_start : d.Origins [] d.start := by
  constructor
  case valid =>
    intro j
    dsimp only [start]
    split_ifs
    · exact ⟨Int.one_pos, by decide, by decide⟩
    · exact valid_zero
  case origin =>
    intro j hj
    dsimp only [start] at hj ⊢
    split_ifs at hj ⊢ with hknown
    · exact .inl ⟨hknown, rfl⟩
    · exact absurd hj.symm Bool.false_ne_true

lemma coefRow_valid (i : ℕ) : ∀ e ∈ d.coefRow i, Valid e.2 := by
  intro e he
  obtain ⟨e', -, rfl⟩ := mem_map.mp he
  exact valid_safeFromFloatingPoint _

lemma rowCall_validInputs (h : d.Origins calls st) {i : ℕ} {c : StepCall} (hc : d.rowCall st i = some c) :
    c.ValidInputs := by
  rw [rowCall] at hc
  split_ifs at hc
  obtain ⟨j, -, rfl⟩ := Option.map_eq_some_iff.mp hc
  exact ⟨coefRow_valid i, h.valid⟩

lemma processRow_origins {discovered : List ℕ} (h : d.Origins calls st) (i : ℕ) :
    d.Origins (calls ++ (d.rowCall st i).toList) (d.processRow (st, discovered) i).1 := by
  rw [processRow]
  dsimp only
  cases hcall : d.rowCall st i with
  | none => exact h.mono fun c hc => mem_append_left _ hc
  | some c =>
    dsimp only
    cases hgives : c.gives with
    | false => exact h.mono fun c hc => mem_append_left _ hc
    | true =>
      have hstep := (StepCall.valid_computeStep hgives).1.reduced.1
      rw [if_pos rfl]
      constructor
      case valid =>
        intro j
        dsimp only [assignStep]
        rcases eq_or_ne j c.solveFor with rfl | hne
        · rw [update_self]
          exact hstep
        · rw [update_of_ne hne]
          exact h.valid j
      case origin =>
        intro j
        dsimp only [assignStep]
        rcases eq_or_ne j c.solveFor with rfl | hne
        · rw [update_self]
          intro _
          exact .inr ⟨c, mem_append_right _ (mem_singleton_self c), rfl, hgives, rfl⟩
        · rw [update_of_ne hne]
          intro hj
          exact (h.origin j hj).mono fun c hc => mem_append_left _ hc

/-- Over a pass the calls are made with valid inputs and the steps come from them. -/
lemma pass_origins {rows : List ℕ} {st : LatticeState × List ℕ} (h : d.Origins calls st.1) :
    (∀ c ∈ d.passCalls rows st, c.ValidInputs) ∧
      d.Origins (calls ++ d.passCalls rows st) (rows.foldl d.processRow st).1 := by
  induction rows generalizing calls st with
  | nil => exact ⟨nofun, h.mono fun c hc => mem_append_left _ hc⟩
  | cons i rows ih =>
    obtain ⟨hvalid, horigins⟩ := ih (@processRow_origins d calls st.1 st.2 h i)
    rw [passCalls, foldl_cons, ← append_assoc]
    refine ⟨?_, horigins⟩
    intro c hc
    rcases mem_append.mp hc with hrow | hrest
    · exact rowCall_validInputs h (Option.mem_toList.mp hrow)
    · exact hvalid c hrest

lemma passes_origins {passes : ℕ} {changed : List ℕ} (h : d.Origins calls st) :
    (∀ c ∈ d.equalityCallsFrom passes st changed, c.ValidInputs) ∧
      d.Origins (calls ++ d.equalityCallsFrom passes st changed)
        (d.equalityPasses passes st changed).1 := by
  induction passes generalizing calls st changed with
  | zero => exact ⟨nofun, h.mono fun c hc => mem_append_left _ hc⟩
  | succ passes ih =>
    rw [equalityCallsFrom, equalityPasses]
    split_ifs
    · exact ⟨nofun, h.mono fun c hc => mem_append_left _ hc⟩
    · dsimp only
      obtain ⟨hvalid, horigins⟩ := @pass_origins d calls (sortChanged st changed) (st, []) h
      obtain ⟨hvalid', horigins'⟩ := ih horigins
      rw [← append_assoc]
      refine ⟨?_, horigins'⟩
      intro c hc
      rcases mem_append.mp hc with hpass | hrest
      · exact hvalid c hpass
      · exact hvalid' c hrest

lemma afterEqualities_origins (d : LatticeProblem) :
    (∀ c ∈ d.equalityCalls, c.ValidInputs) ∧ d.Origins d.equalityCalls d.afterEqualities :=
  passes_origins origins_start

lemma inequalityCalls_validInputs (h : d.Origins calls st) (objVar : ℕ) :
    ∀ c ∈ d.inequalityCalls st objVar, c.ValidInputs := by
  intro c hc
  obtain ⟨i, -, rfl⟩ := mem_map.mp hc
  exact ⟨coefRow_valid i, h.valid⟩

def unknownEntries (d : LatticeProblem) (st : LatticeState) : ℕ :=
  d.rows.flatten.countP fun e => (st.steps e.1).isZero

lemma mem_flatten_of_mem_row {i : ℕ} {e : ℕ × ℚ} (h : e ∈ d.row i) : e ∈ d.rows.flatten := by
  rw [row] at h
  rcases lt_or_ge i d.rows.length with hlt | hge
  · rw [getD_eq_getElem _ _ hlt] at h
    exact mem_flatten.mpr ⟨_, getElem_mem hlt, h⟩
  · rw [getD_eq_default _ _ hge] at h
    cases h

lemma countP_lt_countP {α : Type} {p q : α → Bool} {l : List α} (hsub : ∀ a ∈ l, p a = true → q a = true)
    {a : α} (ha : a ∈ l) (hq : q a = true) (hp : p a = false) : l.countP p < l.countP q := by
  obtain ⟨before, after, rfl⟩ := append_of_mem ha
  rw [countP_append, countP_append, countP_cons_of_neg (by rw [hp]; exact Bool.false_ne_true),
    countP_cons_of_pos hq]
  have hbefore : before.countP p ≤ before.countP q :=
    countP_mono_left fun b hb => hsub b (mem_append_left _ hb)
  have hafter : after.countP p ≤ after.countP q :=
    countP_mono_left fun b hb => hsub b (mem_append_right _ (mem_cons_of_mem _ hb))
  omega

/-- A row discovers nothing and changes nothing, or an entry is no longer unknown. -/
lemma processRow_unknown (st : LatticeState) (discovered : List ℕ) (i : ℕ) :
    d.processRow (st, discovered) i = (st, discovered) ∨
      d.unknownEntries (d.processRow (st, discovered) i).1 < d.unknownEntries st := by
  rw [processRow]
  dsimp only
  cases hcall : d.rowCall st i with
  | none => exact .inl rfl
  | some c =>
    dsimp only
    cases hgives : c.gives with
    | false => exact .inl rfl
    | true =>
      refine .inr ?_
      rw [if_pos rfl]
      rw [rowCall] at hcall
      split_ifs at hcall
      obtain ⟨j, hj, rfl⟩ := Option.map_eq_some_iff.mp hcall
      obtain ⟨e, he, rfl⟩ := mem_map.mp (mem_of_find?_eq_some hj)
      have hzero := find?_some hj
      obtain ⟨hvalid, hne⟩ := StepCall.valid_computeStep hgives
      have hnew := isZero_eq_false_iff.mpr (reduced_p_ne_zero hvalid hne)
      rw [unknownEntries, unknownEntries]
      refine countP_lt_countP ?_ (mem_flatten_of_mem_row he) hzero ?_
      · intro e' _ hstill
        dsimp only [assignStep] at hstill
        rcases eq_or_ne e'.1 e.1 with heq | hneq
        · rw [heq]
          exact hzero
        · rwa [update_of_ne hneq] at hstill
      · dsimp only [assignStep]
        rw [update_self, hnew]

lemma pass_unknown (rows : List ℕ) (st : LatticeState × List ℕ) :
    rows.foldl d.processRow st = st ∨
      d.unknownEntries (rows.foldl d.processRow st).1 < d.unknownEntries st.1 := by
  induction rows generalizing st with
  | nil => exact .inl rfl
  | cons i rows ih =>
    rw [foldl_cons]
    rcases @processRow_unknown d st.1 st.2 i with hsame | hless
    · rw [hsame]
      exact ih st
    · rcases ih (d.processRow st i) with hrest | hrest
      · rw [hrest]
        exact .inr hless
      · exact .inr (hrest.trans hless)

lemma equalityPasses_nil (passes : ℕ) (st : LatticeState) : d.equalityPasses passes st [] = (st, []) := by
  cases passes with
  | zero => rfl
  | succ passes => rw [equalityPasses, if_pos rfl]

/-- A pass that discovers nothing leaves no work, and the others know one entry more. -/
lemma equalityPasses_empty {passes : ℕ} {changed : List ℕ} (h : d.unknownEntries st < passes) :
    (d.equalityPasses passes st changed).2 = [] := by
  induction passes generalizing st changed with
  | zero => exact absurd h (by omega)
  | succ passes ih =>
    rw [equalityPasses]
    split_ifs
    · rfl
    · rcases pass_unknown (sortChanged st changed) (st, []) with hsame | hless
      · rw [hsame]
        dsimp only
        have hnext : d.nextChanged [] = [] := rfl
        rw [hnext, equalityPasses_nil]
      · exact ih (by dsimp only at hless; omega)

/-- The worklist of the equality rows is empty after at most `maxPasses` passes. -/
theorem equalityPasses_ends (d : LatticeProblem) :
    (d.equalityPasses d.maxPasses d.start d.equalityRows).2 = [] := by
  have hle : d.unknownEntries d.start ≤ (d.rows.map length).sum := by
    rw [← length_flatten]
    exact countP_le_length
  exact equalityPasses_empty (by rw [maxPasses]; omega)

variable (d) in
/-- The steps are exact, and an overflow leaves a row or the variable of the objective without one. -/
structure ExactOrGivenUp : Prop where
  exact : ∀ j, d.propagateLattice.1 j ≠ 0 →
    d.knownInitially j = true ∧ d.propagateLattice.1 j = 1 ∨
    (∃ c ∈ d.equalityCalls, c.solveFor = j ∧ d.propagateLattice.1 j = c.exactStep) ∨
    d.unknownObjective d.afterEqualities = [j] ∧
      exactCombine d.objectiveCalls none = some (d.propagateLattice.1 j)
  rowGivenUp : ∀ c ∈ d.calls, ¬c.Fits → c.gives = false
  variableGivenUp : ¬CombineFits d.objectiveCalls none →
    ∀ r, combineSteps d.objectiveCalls none = some r → r.isZero = true

lemma propagateSteps_eq (d : LatticeProblem) :
    (d.propagateSteps.steps = d.afterEqualities.steps) ∨
      ∃ objVar r, d.unknownObjective d.afterEqualities = [objVar] ∧
        combineSteps d.objectiveCalls none = some r ∧ r.isZero = false ∧
        d.propagateSteps.steps = update d.afterEqualities.steps objVar r.reduced := by
  rw [propagateSteps, propagateInequalities]
  split
  case h_1 objVar hobj =>
    have hcalls : d.objectiveCalls = d.inequalityCalls d.afterEqualities objVar := by
      rw [objectiveCalls, hobj]
    split
    case h_1 r hr =>
      cases hzero : r.isZero with
      | true => exact .inl rfl
      | false => exact .inr ⟨objVar, r, hobj, hcalls ▸ hr, hzero, rfl⟩
    case h_2 => exact .inl rfl
  case h_2 => exact .inl rfl

lemma objectiveCalls_validInputs (d : LatticeProblem) : ∀ c ∈ d.objectiveCalls, c.ValidInputs := by
  rw [objectiveCalls]
  split
  case h_1 => exact inequalityCalls_validInputs (afterEqualities_origins d).2 _
  case h_2 => exact nofun

lemma propagateLattice_eq {j : ℕ} (h : d.propagateLattice.1 j ≠ 0) :
    (d.propagateSteps.steps j).isZero = false ∧
      d.propagateLattice.1 j = value (d.propagateSteps.steps j) := by
  rw [propagateLattice] at h ⊢
  dsimp only at h ⊢
  split_ifs at h ⊢ with hzero
  · exact absurd rfl h
  · exact ⟨Bool.not_eq_true _ ▸ hzero, rfl⟩

/-- The steps after the equality rows are known from the start, or come from a row whose first product
outside the 64 bits would have been caught. -/
lemma afterEqualities_exact (hcaught : ∀ c ∈ d.equalityCalls, c.Caught) {j : ℕ}
    (hj : (d.afterEqualities.steps j).isZero = false) :
    d.knownInitially j = true ∧ value (d.afterEqualities.steps j) = 1 ∨
      ∃ c ∈ d.equalityCalls, c.solveFor = j ∧ value (d.afterEqualities.steps j) = c.exactStep := by
  obtain ⟨hvalid, horigins⟩ := afterEqualities_origins d
  rcases horigins.origin j hj with ⟨hknown, hstep⟩ | ⟨c, hc, hsolve, hgives, hstep⟩
  · refine .inl ⟨hknown, ?_⟩
    rw [hstep, value, Int.cast_one, div_one]
  · refine .inr ⟨c, hc, hsolve, ?_⟩
    rw [hstep, (StepCall.valid_computeStep hgives).1.reduced.2]
    exact StepCall.computeStep_exact (hvalid c hc) (hcaught c hc) hgives

/-- `x₀ / 2 + x₁ / 4 + y = 0`, and `x₀ / 9970001 + x₁ / 9969999 + x₂ / 9969997 + z = 0` in doubles. -/
def negativeProduct : LatticeProblem where
  numVars := 5
  rows := [[(0, 1 / 2), (1, 1 / 4), (3, 1)], [(0, 7578521178274137 / 2 ^ 76), (1, 947315337317415 / 2 ^ 73),
    (2, 7578524218805113 / 2 ^ 76), (4, 1)]]
  conLb _ := some 0
  conUb _ := some 0
  knownInitially j := decide (j < 3)
  objCoefs j := if j = 3 then 1 else 0

/-- `x₀ / 9999991 + x₁ / 9999973 + x₂ / 9999971 + y = 0` with integer `xₖ`, in doubles. -/
def threeReciprocals : LatticeProblem where
  numVars := 4
  rows := [[(0, 944474146600661 / 2 ^ 73), (1, 944475846658715 / 2 ^ 73), (2, 7555808284435457 / 2 ^ 76),
    (3, 1)]]
  conLb _ := some 0
  conUb _ := some 0
  knownInitially j := decide (j ≠ 3)
  objCoefs j := if j = 3 then 1 else 0

end LatticeProblem

end CuOpt.Cuts
