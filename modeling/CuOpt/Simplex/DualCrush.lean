import CuOpt.Simplex.ConvertedColumns

/-! `crush_dual_solution` and `uncrush_dual_solution`: the sign of the dual value of a greater row is
changed only on the way back. -/

namespace CuOpt.Simplex

open SparseList QuadProgram List Finset

def crushDualSolution (user : UserProblem) (problem : LpProblem) (newSlacks : List ℕ)
    (userY userZ : ℕ → ℚ) : (ℕ → ℚ) × (ℕ → ℚ) :=
  let y := fun i => if i < user.numRows then userY i else 0
  let z := (List.range user.numCols).foldl
    (fun s j => Function.update s (userColToProblemCol user problem j) (userZ j)) fun _ => 0
  (y, newSlacks.foldl
    (fun s j =>
      let i := ((problem.A.col j).headD (0, 0)).1
      Function.update s j (if i ∈ user.rangeRows then y i else -y i))
    z)

def dualResidual (problem : LpProblem) (y z : ℕ → ℚ) (j : ℕ) : ℚ :=
  z j - problem.objective j + dot (problem.A.col j) y

/-- What `crush_dual_solution` returns: the largest residual of the crushed pair. -/
def dualResInf (problem : LpProblem) (y z : ℕ → ℚ) : ℚ :=
  ((List.range problem.numCols).map fun j => |dualResidual problem y z j|).foldl max 0

def uncrushDualSolution (user : UserProblem) (problem : LpProblem) (y z : ℕ → ℚ) :
    (ℕ → ℚ) × (ℕ → ℚ) :=
  (fun i => if user.rowSense i = .G then -y i else y i, uncrushPrimalSolution user problem z)

def LpProblem.DualPair (problem : LpProblem) (y z : ℕ → ℚ) : Prop :=
  ∀ j < problem.numCols,
    ∑ i ∈ Finset.range problem.numRows, problem.A.entry i j * y i + z j = problem.objective j

def UserProblem.DualPair (user : UserProblem) (y z : ℕ → ℚ) : Prop :=
  ∀ j < user.numCols,
    ∑ i ∈ Finset.range user.numRows, user.A.entry i j * y i + z j = user.objective j

instance (problem : LpProblem) (y z : ℕ → ℚ) : Decidable (problem.DualPair y z) :=
  inferInstanceAs (Decidable (∀ j < problem.numCols, _ = _))

instance (user : UserProblem) (y z : ℕ → ℚ) : Decidable (user.DualPair y z) :=
  inferInstanceAs (Decidable (∀ j < user.numCols, _ = _))

def RoundTrips (user : UserProblem) (problem : LpProblem) (newSlacks : List ℕ) (y z : ℕ → ℚ) :
    Prop :=
  let back := uncrushDualSolution user problem y z
  let crushed := crushDualSolution user problem newSlacks back.1 back.2
  (∀ i < problem.numRows, crushed.1 i = y i) ∧ (∀ j < problem.numCols, crushed.2 j = z j) ∧
    dualResInf problem crushed.1 crushed.2 = 0

instance (user : UserProblem) (problem : LpProblem) (newSlacks : List ℕ) (y z : ℕ → ℚ) :
    Decidable (RoundTrips user problem newSlacks y z) :=
  inferInstanceAs (Decidable ((∀ i < problem.numRows, _ = _) ∧ (∀ j < problem.numCols, _ = _) ∧ _ = _))

lemma foldl_max_nonneg (l : List ℚ) : 0 ≤ l.foldl max 0 := by
  induction l using List.reverseRecOn with
  | nil => exact le_rfl
  | append_singleton l v ih =>
    rw [foldl_concat]
    exact ih.trans (le_max_left _ _)

lemma foldl_max_abs_eq_zero {ι : Type*} (l : List ι) (f : ι → ℚ) :
    (l.map fun j => |f j|).foldl max 0 = 0 ↔ ∀ j ∈ l, f j = 0 := by
  induction l using List.reverseRecOn with
  | nil => exact ⟨nofun, fun _ => rfl⟩
  | append_singleton l k ih =>
    have hnonneg := foldl_max_nonneg (l.map fun j => |f j|)
    rw [map_append, foldl_append, List.map_singleton, foldl_cons, foldl_nil]
    constructor
    · intro hmax j hj
      rcases mem_append.mp hj with hj | hj
      · exact ih.mp (le_antisymm ((le_max_left _ _).trans hmax.le) hnonneg) j hj
      · rw [List.mem_singleton.mp hj]
        exact abs_eq_zero.mp (le_antisymm ((le_max_right _ _).trans hmax.le) (abs_nonneg _))
    · intro hall
      rw [ih.mpr fun j hj => hall j (mem_append_left _ hj),
        hall k (mem_append_right _ List.mem_cons_self), abs_zero, max_self]

def userSign (user : UserProblem) (i : ℕ) : ℚ :=
  if user.rowSense i = .G ∧ i ∉ user.rangeRows then -1 else 1

def slackSign (user : UserProblem) (i : ℕ) : ℚ := if i ∈ user.rangeRows then -1 else 1

structure Signed (user : UserProblem) (problem : LpProblem) (newSlacks : List ℕ) (sgn : ℕ → ℚ) :
    Prop where
  numCols : problem.numCols = user.numCols + newSlacks.length
  entry : ∀ i < user.numRows, ∀ j < user.numCols,
    problem.A.entry i (userColToProblemCol user problem j) = sgn i * user.A.entry i j
  cost : ∀ j < user.numCols,
    problem.objective (userColToProblemCol user problem j) = user.objective j
  slack : ∀ c ∈ newSlacks, (∃ i < user.numRows, problem.A.col c = [(i, slackSign user i)]) ∧
    problem.objective c = 0

section Stages

variable {user : UserProblem} {problem problem' : LpProblem} {newSlacks : List ℕ}
  {emb : ℕ → ℕ} {sgn : ℕ → ℚ}

lemma Signed.insert (h : Signed user problem newSlacks sgn) {at_ : ℕ} {new : List (ℕ × ℚ)}
    (hins : Inserts problem problem' at_ new) (hbelow : ∀ c ∈ newSlacks, c < at_)
    (hcol : ∀ j < user.numCols, userColToProblemCol user problem' j =
      shiftCol at_ new.length (userColToProblemCol user problem j))
    (hsign : ∀ p ∈ new, p.1 < user.numRows ∧ p.2 = slackSign user p.1) :
    Signed user problem' (newSlacks ++ (List.range new.length).map (at_ + ·)) sgn := by
  constructor
  case numCols =>
    rw [hins.numCols, h.numCols, length_append, length_map, length_range, add_assoc]
  case entry =>
    intro i hi j hj
    rw [CscMatrix.entry, hcol j hj, hins.col]
    exact h.entry i hi j hj
  case cost =>
    intro j hj
    rw [hcol j hj, hins.cost]
    exact h.cost j hj
  case slack =>
    intro c hc
    rcases mem_append.mp hc with hold | hnew
    · have hshift : shiftCol at_ new.length c = c := shiftCol_of_lt (hbelow c hold)
      obtain ⟨⟨i, hi, hentry⟩, hzero⟩ := h.slack c hold
      refine ⟨⟨i, hi, ?_⟩, ?_⟩
      · rw [← hshift, hins.col]
        exact hentry
      · rw [← hshift, hins.cost]
        exact hzero
    · obtain ⟨q, hq, rfl⟩ := List.mem_map.mp hnew
      have hlt := List.mem_range.mp hq
      have hmem : new.getD q (0, 0) ∈ new := by
        rw [getD_eq_getElem _ _ hlt]
        exact getElem_mem hlt
      obtain ⟨hrow, hvalue⟩ := hsign _ hmem
      refine ⟨⟨(new.getD q (0, 0)).1, hrow, ?_⟩, hins.newCost q hlt⟩
      rw [hins.newCol q hlt, ← hvalue]

lemma Signed.insertSlackColumns (h : Signed user problem newSlacks sgn) (hrange : problem.InRange)
    (hnumRows : problem.numRows = user.numRows) (hlayout : Layout user problem newSlacks emb)
    (hemb : ∀ j < user.numCols, emb j < problem.numCols) {rows : List ℕ} {isRange : Bool}
    (lower upper : ℕ → Option ℚ)
    (hrows : ∀ i ∈ rows, i < user.numRows ∧ (i ∈ user.rangeRows ↔ isRange = true)) :
    Signed user (insertSlackColumns problem rows isRange lower upper newSlacks).1
      (insertSlackColumns problem rows isRange lower upper newSlacks).2 sgn := by
  by_cases hne : rows = []
  · subst hne
    exact h
  have hins := insertSlackColumns_inserts isRange lower upper newSlacks hrange
    hlayout.linear_le (fun i hi => hnumRows ▸ (hrows i hi).1) hne
  have hnext := hlayout.insertSlackColumns rows isRange lower upper hemb
  have hstep := h.insert hins hlayout.slacks_lt
    (fun j hj => by rw [hnext.emb_eq j hj, hlayout.emb_eq j hj, length_map])
    (fun p hp => by
      obtain ⟨i, hi, rfl⟩ := List.mem_map.mp hp
      obtain ⟨hlt, hiff⟩ := hrows i hi
      refine ⟨hlt, ?_⟩
      rw [slackSign]
      simp only [hiff])
  rw [length_map] at hstep
  rw [insertSlackColumns_newSlacks]
  exact hstep

lemma signed_user (user : UserProblem) (hwf : user.WellFormed) (rhs : ℕ → ℚ) :
    Signed user { user.toLpProblem with rhs := rhs } [] fun _ => 1 := by
  have hlayout := layout_user hwf rhs
  constructor
  case numCols => rfl
  case entry =>
    intro i _ j hj
    rw [hlayout.emb_eq j hj, one_mul]
    rfl
  case cost =>
    intro j hj
    rw [hlayout.emb_eq j hj]
    rfl
  case slack => exact nofun

lemma convertRangeRows_signed (hwf : user.WellFormed) :
    Signed user (convertRangeRows user (initialState user)).problem
      (convertRangeRows user (initialState user)).newSlacks fun _ => 1 := by
  set r := user.ranges.foldl convertRangeRow ⟨user.rhs, user.rowSense,
    senseCount user.numRows user.rowSense .L, senseCount user.numRows user.rowSense .E,
    senseCount user.numRows user.rowSense .G, []⟩
  exact (signed_user user hwf r.rhs).insertSlackColumns (lifted_user hwf r.rhs).inRange rfl
    (layout_user hwf r.rhs) (fun j hj => hj) _ _
    fun i hi => ⟨hwf.range_lt i hi, fun _ => rfl, fun _ => hi⟩

lemma rangedState_eq (user : UserProblem) :
    rangedState user = convertRangeRows user (initialState user) := by
  rw [rangedState]
  split_ifs with hnil
  · unfold convertRangeRows
    rw [UserProblem.rangeRows, hnil]
    rfl
  · rfl

lemma rangedState_sense (hwf : user.WellFormed) (i : ℕ) :
    (rangedState user).rowSense i = if i ∈ user.rangeRows then .E else user.rowSense i := by
  rw [rangedState_eq]
  exact (foldl_convertRangeRow hwf.range_nodup ⟨user.rhs, user.rowSense,
    senseCount user.numRows user.rowSense .L, senseCount user.numRows user.rowSense .E,
    senseCount user.numRows user.rowSense .G, []⟩).2.1 i

lemma rowSign_rangedState (hwf : user.WellFormed) (i : ℕ) :
    rowSign (rangedState user).rowSense i = userSign user i := by
  rw [rowSign, rangedState_sense hwf, userSign]
  by_cases hi : i ∈ user.rangeRows
  · rw [if_pos hi, if_neg (by decide), if_neg fun h => h.2 hi]
  · rw [if_neg hi]
    simp only [hi, not_false_iff, and_true]

lemma convertGreaterToLess_signed {s : ConvertState} (hs : Tracks user s emb fun _ => 1)
    (h : Signed user s.problem s.newSlacks fun _ => 1) :
    Signed user (convertGreaterToLess s).problem (convertGreaterToLess s).newSlacks
      (rowSign s.rowSense) := by
  have hl := hs.lifted
  constructor
  case numCols => exact h.numCols
  case entry =>
    intro i hi j hj
    have hlt : userColToProblemCol user s.problem j < s.problem.numCols := by
      rw [hs.layout.emb_eq j hj]
      exact hl.emb_lt j hj
    have hentry := convertGreaterToLess_entry hl.inRange (hl.numRows ▸ hi) hlt
    rw [h.entry i hi j hj, one_mul] at hentry
    exact hentry
  case cost => exact h.cost
  case slack =>
    intro c hc
    obtain ⟨⟨i, hi, hcol⟩, hzero⟩ := h.slack c hc
    have hrow : s.problem.slackRow c = i := by rw [LpProblem.slackRow, hcol, headD_cons]
    exact ⟨⟨i, hi, convertGreaterToLess_slack hl.inRange (hl.slacks_lt c hc) hcol (hl.numRows ▸ hi)
      (hs.slack_sense i (hrow ▸ List.mem_map_of_mem hc))⟩, hzero⟩

/-- The state after the sign flips, with the signs of its rows. -/
lemma inequalityState_signed (hwf : user.WellFormed) :
    (∃ emb sgn, Tracks user (inequalityState user) emb sgn) ∧
      Signed user (inequalityState user).problem (inequalityState user).newSlacks (userSign user) ∧
      ∀ i ∈ user.rangeRows, (inequalityState user).rowSense i = .E := by
  obtain ⟨emb, htracks⟩ := convertRangeRows_tracks hwf
  have hsigned := convertRangeRows_signed hwf
  rw [← rangedState_eq] at htracks hsigned
  have hrange : ∀ i ∈ user.rangeRows, (rangedState user).rowSense i = .E :=
    fun i hi => (rangedState_sense hwf i).trans (if_pos hi)
  rw [inequalityState_eq]
  split_ifs with hgreater
  · refine ⟨⟨emb, _, convertGreaterToLess_tracks htracks⟩, ?_, fun i hi => ?_⟩
    · have hstep := convertGreaterToLess_signed htracks hsigned
      rwa [show rowSign (rangedState user).rowSense = userSign user from
        funext (rowSign_rangedState hwf)] at hstep
    · change (if (rangedState user).rowSense i = .G then RowSense.L else _) = _
      rw [hrange i hi, if_neg (by decide)]
  · refine ⟨⟨emb, _, htracks⟩, { hsigned with entry := fun i hi j hj => ?_ }, hrange⟩
    have hsign : userSign user i = 1 := by
      rw [← rowSign_rangedState hwf, rowSign, if_neg]
      intro hG
      refine hgreater ?_
      rw [htracks.counted.2]
      exact senseCount_pos.mpr ⟨i, hi, hG⟩
    rw [hsign]
    exact hsigned.entry i hi j hj

lemma addArtificalVariables_signed {equalityRows newSlacks' : List ℕ}
    (h : Signed user problem newSlacks sgn) (hrange : problem.InRange)
    (hnumRows : problem.numRows = user.numRows) (hslacks : ∀ c ∈ newSlacks, c < problem.numCols)
    (hcols : ∀ j < user.numCols, userColToProblemCol user problem j < problem.numCols)
    (heq : ∀ i ∈ equalityRows, i < user.numRows)
    (hadd : addArtificalVariables problem user.rangeRows equalityRows newSlacks =
      some (problem', newSlacks')) : Signed user problem' newSlacks' sgn := by
  rw [addArtificalVariables] at hadd
  simp only [Option.ite_none_right_eq_some, Option.some.injEq, Prod.mk.injEq] at hadd
  obtain ⟨-, rfl, rfl⟩ := hadd
  set rows := equalityRows.filter fun i => i ∉ user.rangeRows with hrows
  have hmem : ∀ i ∈ rows, i < user.numRows ∧ i ∉ user.rangeRows := by
    intro i hi
    obtain ⟨hin, hnot⟩ := List.mem_filter.mp hi
    exact ⟨heq i hin, of_decide_eq_true hnot⟩
  have hins : Inserts problem (insertColumns problem problem.numCols (rows.map fun i => (i, 1))
      (fun _ => some 0) fun _ => some 0) problem.numCols (rows.map fun i => (i, 1)) :=
    insertColumns_inserts hrange le_rfl
      (by
        rw [keys_unit]
        exact fun i hi => hnumRows ▸ (hmem i hi).1)
      (fun _ => some 0) (fun _ => some 0) problem.coneVarStart
      (InsertsQuad.atEnd hrange.Q_lt hrange.Q_nil)
  have hstep := h.insert hins hslacks (fun j hj => (shiftCol_of_lt (hcols j hj)).symm)
    (fun p hp => by
      obtain ⟨i, hi, rfl⟩ := List.mem_map.mp hp
      exact ⟨(hmem i hi).1, (if_neg (hmem i hi).2).symm⟩)
  rwa [length_map] at hstep

lemma convertUserProblem_signed {dualize : Dualization} {settings : SimplexSolverSettings}
    (hwf : user.WellFormed) (hdual : dualizes user settings (inequalityState user) = false)
    (hconvert : convertUserProblem dualize user settings = some (problem, newSlacks)) :
    Signed user problem newSlacks (userSign user) := by
  obtain ⟨⟨emb, sgn, htracks⟩, hsigned, hrange⟩ := inequalityState_signed hwf
  have hl := htracks.lifted
  obtain ⟨emb', sgn', hclosed⟩ := inequalityState_closed hwf
  have hless : Signed user
      (if 0 < (inequalityState user).lessRows then convertLessThanToEqual (inequalityState user)
        else inequalityState user).problem
      (if 0 < (inequalityState user).lessRows then convertLessThanToEqual (inequalityState user)
        else inequalityState user).newSlacks (userSign user) := by
    split_ifs
    · refine hsigned.insertSlackColumns hl.inRange hl.numRows htracks.layout hl.emb_lt _ _
        fun i hi => ?_
      obtain ⟨hlt, hL⟩ := List.mem_filter.mp hi
      refine ⟨hl.numRows ▸ List.mem_range.mp hlt, fun hmem => ?_, fun hfalse => ?_⟩
      · have hsense := of_decide_eq_true hL
        rw [hrange i hmem] at hsense
        cases hsense
      · cases hfalse
    · exact hsigned
  rw [convertUserProblem_eq dualize hdual] at hconvert
  cases hpresolve : settings.barrierPresolve with
  | true =>
    rw [hpresolve, if_pos rfl] at hconvert
    cases hconvert
    exact hless
  | false =>
    rw [hpresolve, if_neg Bool.false_ne_true] at hconvert
    have hc := hclosed.lifted
    refine addArtificalVariables_signed hless hc.inRange hc.numRows hc.slacks_lt (fun j hj => ?_)
      (fun i hi => List.mem_range.mp (List.mem_filter.mp hi).1) hconvert
    rw [hclosed.layout.emb_eq j hj]
    exact hc.emb_lt j hj

end Stages

def greaterPart (user : UserProblem) (y : ℕ → ℚ) (j : ℕ) : ℚ :=
  ∑ i ∈ (Finset.range user.numRows).filter fun i => user.rowSense i = .G ∧ i ∉ user.rangeRows,
    user.A.entry i j * y i

section Pairs

variable {user : UserProblem} {problem : LpProblem} {newSlacks : List ℕ} {emb : ℕ → ℕ}
  {sgn : ℕ → ℚ} {pending : ℕ → ℚ → Prop}

lemma dualResInf_eq_zero (hrange : problem.InRange) (y z : ℕ → ℚ) :
    dualResInf problem y z = 0 ↔ problem.DualPair y z := by
  rw [dualResInf, foldl_max_abs_eq_zero]
  refine forall_congr' fun j => ?_
  rw [List.mem_range]
  refine forall_congr' fun hj => ?_
  have hdot : dot (problem.A.col j) y =
      ∑ i ∈ Finset.range problem.numRows, problem.A.entry i j * y i :=
    dot_eq_sum _ _ _ fun p hp =>
      Finset.mem_range.mpr (hrange.A_lt j hj p.1 (List.mem_map_of_mem hp))
  rw [dualResidual, hdot]
  constructor
  · intro h
    linarith
  · intro h
    linarith

/-- The user's columns and the slacks are all columns. -/
lemma Lifted.cover (h : Lifted user problem newSlacks emb sgn pending)
    (hcols : problem.numCols = user.numCols + newSlacks.length) {c : ℕ} (hc : c < problem.numCols) :
    c ∈ newSlacks ∨ ∃ j < user.numCols, c = emb j := by
  have hnodup : ((List.range user.numCols).map emb ++ newSlacks).Nodup := by
    refine nodup_append.mpr ⟨nodup_range.map h.emb_inj, h.slacks_nodup, fun a ha b hb hab => ?_⟩
    obtain ⟨j, -, rfl⟩ := List.mem_map.mp ha
    exact h.emb_notMem j (hab ▸ hb)
  have hsub : ((List.range user.numCols).map emb ++ newSlacks).toFinset ⊆
      Finset.range problem.numCols := by
    intro a ha
    rw [Finset.mem_range]
    rcases mem_append.mp (List.mem_toFinset.mp ha) with ha | ha
    · obtain ⟨j, hj, rfl⟩ := List.mem_map.mp ha
      exact h.emb_lt j (List.mem_range.mp hj)
    · exact h.slacks_lt a ha
  have hcard : (Finset.range problem.numCols).card ≤
      ((List.range user.numCols).map emb ++ newSlacks).toFinset.card := by
    rw [toFinset_card_of_nodup hnodup, card_range, length_append, length_map, length_range, hcols]
  have hmem := (eq_of_subset_of_card_le hsub hcard).symm ▸ Finset.mem_range.mpr hc
  rcases mem_append.mp (List.mem_toFinset.mp hmem) with ha | ha
  · obtain ⟨j, hj, rfl⟩ := List.mem_map.mp ha
    exact .inr ⟨j, List.mem_range.mp hj, rfl⟩
  · exact .inl ha

lemma userSign_sum (user : UserProblem) (y : ℕ → ℚ) (j : ℕ) :
    ∑ i ∈ Finset.range user.numRows, userSign user i * user.A.entry i j * y i =
      ∑ i ∈ Finset.range user.numRows, user.A.entry i j * y i - 2 * greaterPart user y j := by
  rw [greaterPart, sum_filter, mul_sum, ← sum_sub_distrib]
  refine sum_congr rfl fun i _ => ?_
  rw [userSign]
  split_ifs
  · ring
  · ring

section Conversion

variable (h : Lifted user problem newSlacks emb sgn pending)
  (hemb : ∀ j < user.numCols, userColToProblemCol user problem j = emb j)
  (hsigned : Signed user problem newSlacks (userSign user))

include h hemb hsigned

/-- The equations of the equality form: those of the user's columns with the signs of the rows, and
one for each slack. -/
lemma dualPair_iff (y z : ℕ → ℚ) :
    problem.DualPair y z ↔
      (∀ j < user.numCols, ∑ i ∈ Finset.range user.numRows,
        userSign user i * user.A.entry i j * y i + z (emb j) = user.objective j) ∧
      ∀ c ∈ newSlacks, z c =
        if problem.slackRow c ∈ user.rangeRows then y (problem.slackRow c)
          else -y (problem.slackRow c) := by
  have huser : ∀ j < user.numCols,
      (∑ i ∈ Finset.range problem.numRows, problem.A.entry i (emb j) * y i + z (emb j) =
        problem.objective (emb j) ↔
      ∑ i ∈ Finset.range user.numRows, userSign user i * user.A.entry i j * y i + z (emb j) =
        user.objective j) := by
    intro j hj
    rw [← hsigned.cost j hj, hemb j hj, h.numRows]
    have hsum : ∑ i ∈ Finset.range user.numRows, problem.A.entry i (emb j) * y i =
        ∑ i ∈ Finset.range user.numRows, userSign user i * user.A.entry i j * y i := by
      refine sum_congr rfl fun i hi => ?_
      rw [← hsigned.entry i (Finset.mem_range.mp hi) j hj, hemb j hj]
    rw [hsum]
  have hslack : ∀ c ∈ newSlacks,
      (∑ i ∈ Finset.range problem.numRows, problem.A.entry i c * y i + z c = problem.objective c ↔
        z c = if problem.slackRow c ∈ user.rangeRows then y (problem.slackRow c)
          else -y (problem.slackRow c)) := by
    intro c hc
    obtain ⟨⟨i, hi, hcol⟩, hzero⟩ := hsigned.slack c hc
    have hrow : problem.slackRow c = i := by rw [LpProblem.slackRow, hcol, headD_cons]
    have hsum : ∑ k ∈ Finset.range problem.numRows, problem.A.entry k c * y k =
        slackSign user i * y i := by
      rw [sum_eq_single_of_mem i (Finset.mem_range.mpr (h.numRows.symm ▸ hi))]
      · rw [CscMatrix.entry, hcol, coeff_cons, coeff_nil, if_pos rfl, add_zero]
      · intro k _ hk
        rw [CscMatrix.entry, hcol, coeff_cons, coeff_nil, if_neg hk.symm, add_zero, zero_mul]
    rw [hsum, hzero, hrow, slackSign]
    split_ifs
    · rw [neg_one_mul, neg_add_eq_zero, eq_comm]
    · rw [one_mul, add_comm, add_eq_zero_iff_eq_neg]
  constructor
  · intro hpair
    exact ⟨fun j hj => (huser j hj).mp (hpair (emb j) (h.emb_lt j hj)),
      fun c hc => (hslack c hc).mp (hpair c (h.slacks_lt c hc))⟩
  · rintro ⟨hcols, hslacks⟩ c hc
    rcases h.cover hsigned.numCols hc with hmem | ⟨j, hj, rfl⟩
    · exact (hslack c hmem).mpr (hslacks c hmem)
    · exact (huser j hj).mpr (hcols j hj)

omit hsigned in
/-- The values of a crushed pair. -/
theorem crushDualSolution_values (y z : ℕ → ℚ) :
    (∀ i < user.numRows, (crushDualSolution user problem newSlacks y z).1 i = y i) ∧
      (∀ j < user.numCols, (crushDualSolution user problem newSlacks y z).2 (emb j) = z j) ∧
      ∀ c ∈ newSlacks, (crushDualSolution user problem newSlacks y z).2 c =
        if problem.slackRow c ∈ user.rangeRows then y (problem.slackRow c)
          else -y (problem.slackRow c) := by
  set y' := (crushDualSolution user problem newSlacks y z).1
  have hy : ∀ i < user.numRows, y' i = y i := fun i hi => if_pos hi
  have hz : (crushDualSolution user problem newSlacks y z).2 =
      updateAll (placed (userColToProblemCol user problem) z user.numCols) newSlacks fun c _ =>
        if problem.slackRow c ∈ user.rangeRows then y' (problem.slackRow c)
          else -y' (problem.slackRow c) := rfl
  refine ⟨hy, fun j hj => ?_, fun c hc => ?_⟩
  · rw [hz, updateAll_of_notMem _ _ (h.emb_notMem j), h.placed_user hemb z hj]
  · rw [hz, updateAll_of_mem _ h.slacks_nodup _ hc, hy _ (h.slackRow_lt hc)]

/-- A pair of the equality form comes back iff its greater rows have the dual value zero. -/
lemma roundTrips_iff {y z : ℕ → ℚ} (hpair : problem.DualPair y z) :
    RoundTrips user problem newSlacks y z ↔ ∀ i < user.numRows, user.rowSense i = .G → y i = 0 := by
  set back := uncrushDualSolution user problem y z with hback
  obtain ⟨hy, hz, hslack⟩ := crushDualSolution_values h hemb back.1 back.2
  constructor
  · rintro ⟨hsame, -, -⟩ i hi hG
    have hvalue := hsame i (h.numRows.symm ▸ hi)
    have hflip : back.1 i = -y i := if_pos hG
    rw [hy i hi, hflip, neg_eq_iff_add_eq_zero, add_self_eq_zero] at hvalue
    exact hvalue
  · intro hzero
    have hkeep : ∀ i < user.numRows, back.1 i = y i := by
      intro i hi
      change (if user.rowSense i = .G then -y i else y i) = y i
      split_ifs with hG
      · rw [hzero i hi hG, neg_zero]
      · rfl
    have hrows : ∀ i < problem.numRows,
        (crushDualSolution user problem newSlacks back.1 back.2).1 i = y i := by
      intro i hi
      have hi' := h.numRows ▸ hi
      exact (hy i hi').trans (hkeep i hi')
    have hcols : ∀ j < problem.numCols,
        (crushDualSolution user problem newSlacks back.1 back.2).2 j = z j := by
      intro c hc
      rcases h.cover hsigned.numCols hc with hmem | ⟨j, hj, rfl⟩
      · rw [hslack c hmem, hkeep _ (h.slackRow_lt hmem)]
        exact (((dualPair_iff h hemb hsigned y z).mp hpair).2 c hmem).symm
      · rw [hz j hj]
        exact congrArg z (hemb j hj)
    refine ⟨hrows, hcols, (dualResInf_eq_zero h.inRange _ _).mpr fun j hj => ?_⟩
    rw [hcols j hj, ← hpair j hj]
    refine congrArg (· + z j) (sum_congr rfl fun i hi => ?_)
    rw [hrows i (Finset.mem_range.mp hi)]

/-- A pair of the user is crushed to one of the equality form iff its greater rows contribute
nothing. -/
lemma crushDualSolution_dualPair_iff {y z : ℕ → ℚ} (hpair : user.DualPair y z) :
    problem.DualPair (crushDualSolution user problem newSlacks y z).1
        (crushDualSolution user problem newSlacks y z).2 ↔
      ∀ j < user.numCols, greaterPart user y j = 0 := by
  obtain ⟨hy, hz, hslack⟩ := crushDualSolution_values h hemb y z
  rw [dualPair_iff h hemb hsigned]
  have hcol : ∀ j < user.numCols,
      (∑ i ∈ Finset.range user.numRows, userSign user i * user.A.entry i j *
          (crushDualSolution user problem newSlacks y z).1 i +
        (crushDualSolution user problem newSlacks y z).2 (emb j) = user.objective j ↔
      greaterPart user y j = 0) := by
    intro j hj
    have hsum : ∑ i ∈ Finset.range user.numRows, userSign user i * user.A.entry i j *
        (crushDualSolution user problem newSlacks y z).1 i =
        ∑ i ∈ Finset.range user.numRows, userSign user i * user.A.entry i j * y i :=
      sum_congr rfl fun i hi => by rw [hy i (Finset.mem_range.mp hi)]
    rw [hsum, hz j hj, userSign_sum, ← hpair j hj]
    constructor
    · intro heq
      linarith
    · intro hzero
      linarith
  constructor
  · exact fun hboth j hj => (hcol j hj).mp (hboth.1 j hj)
  · refine fun hzero => ⟨fun j hj => (hcol j hj).mpr (hzero j hj), fun c hc => ?_⟩
    rw [hslack c hc, hy _ (h.slackRow_lt hc)]

end Conversion

end Pairs

/-- Pairs of the equality form come back from the user's form iff the dual values of all greater
rows are zero; pairs of the user become pairs of the equality form iff the greater rows without a
range contribute nothing to the reduced costs. -/
theorem crushDualSolution_iff {dualize : Dualization} {user : UserProblem}
    {settings : SimplexSolverSettings} (hwf : user.WellFormed)
    (hdual : dualizes user settings (inequalityState user) = false) {problem : LpProblem}
    {newSlacks : List ℕ}
    (hconvert : convertUserProblem dualize user settings = some (problem, newSlacks)) :
    (∀ y z, problem.DualPair y z → (RoundTrips user problem newSlacks y z ↔
        ∀ i < user.numRows, user.rowSense i = .G → y i = 0)) ∧
      ∀ y z, user.DualPair y z →
        (problem.DualPair (crushDualSolution user problem newSlacks y z).1
            (crushDualSolution user problem newSlacks y z).2 ↔
          ∀ j < user.numCols, greaterPart user y j = 0) := by
  obtain ⟨emb, sgn, hlift, hemb⟩ := convertUserProblem_lifted hwf hdual hconvert
  have hsigned := convertUserProblem_signed hwf hdual hconvert
  exact ⟨fun y z hpair => roundTrips_iff hlift hemb hsigned hpair,
    fun y z hpair => crushDualSolution_dualPair_iff hlift hemb hsigned hpair⟩

/-- With `y = (1, 0, 1)` the only greater row has the dual value zero. -/
theorem mixedSenses_crushes : ∃ problem newSlacks,
    convertUserProblem id mixedSenses simplexSettings = some (problem, newSlacks) ∧
      problem.DualPair
        (crushDualSolution mixedSenses problem newSlacks (fun i => if i = 1 then 0 else 1)
          fun j => if j = 0 then 0 else -1).1
        (crushDualSolution mixedSenses problem newSlacks (fun i => if i = 1 then 0 else 1)
          fun j => if j = 0 then 0 else -1).2 := by
  obtain ⟨problem, newSlacks, hconvert, -⟩ := (convertUserProblem_exact_iff id mixedSenses
    simplexSettings wellFormed_mixedSenses rfl).mpr (.inr (by decide))
  have hpair : mixedSenses.DualPair (fun i => if i = 1 then 0 else 1)
      fun j => if j = 0 then 0 else -1 := by
    decide +kernel
  exact ⟨problem, newSlacks, hconvert,
    ((crushDualSolution_iff wellFormed_mixedSenses rfl hconvert).2 _ _ hpair).mpr (by decide +kernel)⟩

/-- The pair `y = (0, 1, 0)`, `z = (0, 1)` of the user is crushed with the residual `2`, and the pair
`y = (0, -1, 0)`, `z = (0, 1, 0, 0, 1)` of the equality form does not come back. -/
theorem mixedSenses_not_crushed : mixedSenses.WellFormed ∧
    dualizes mixedSenses simplexSettings (inequalityState mixedSenses) = false ∧
      mixedSenses.DualPair (fun i => if i = 1 then 1 else 0) (fun j => if j = 0 then 0 else 1) ∧
      ∃ problem newSlacks,
        convertUserProblem id mixedSenses simplexSettings = some (problem, newSlacks) ∧
          dualResInf problem
            (crushDualSolution mixedSenses problem newSlacks (fun i => if i = 1 then 1 else 0)
              fun j => if j = 0 then 0 else 1).1
            (crushDualSolution mixedSenses problem newSlacks (fun i => if i = 1 then 1 else 0)
              fun j => if j = 0 then 0 else 1).2 = 2 ∧
          problem.DualPair (fun i => if i = 1 then -1 else 0)
            (fun j => if j = 1 ∨ j = 4 then 1 else 0) ∧
          ¬RoundTrips mixedSenses problem newSlacks (fun i => if i = 1 then -1 else 0)
            fun j => if j = 1 ∨ j = 4 then 1 else 0 := by
  have heval : (convertUserProblem id mixedSenses simplexSettings).any (fun r =>
      dualResInf r.1
          (crushDualSolution mixedSenses r.1 r.2 (fun i => if i = 1 then 1 else 0)
            fun j => if j = 0 then 0 else 1).1
          (crushDualSolution mixedSenses r.1 r.2 (fun i => if i = 1 then 1 else 0)
            fun j => if j = 0 then 0 else 1).2 = 2 ∧
        r.1.DualPair (fun i => if i = 1 then -1 else 0) (fun j => if j = 1 ∨ j = 4 then 1 else 0) ∧
        ¬RoundTrips mixedSenses r.1 r.2 (fun i => if i = 1 then -1 else 0)
          fun j => if j = 1 ∨ j = 4 then 1 else 0) = true := by
    decide +kernel
  obtain ⟨⟨problem, newSlacks⟩, hconvert, hr⟩ := (Option.any_eq_true _ _).mp heval
  exact ⟨wellFormed_mixedSenses, rfl, by decide +kernel, problem, newSlacks, hconvert,
    of_decide_eq_true hr⟩

end CuOpt.Simplex
