import CuOpt.Simplex.Convert

/-! The equality form of a user problem has the same feasible points and objective values. -/

namespace CuOpt.Simplex

open List hiding keys sum_eq_zero
open Function (comp_def update update_of_ne update_self)
open Finset (sum_congr sum_eq_zero sum_range_add)
open Prod (fst)

open SparseList QuadProgram
open UserProblem (RangeHolds SenseHolds rangeRows)

section Insertion

variable {α : Type*} {at_ k n : ℕ}

lemma shiftCol_lt {j : ℕ} (hj : j < n) : shiftCol at_ k j < n + k := by
  unfold shiftCol
  split_ifs <;> omega

lemma shiftCol_injective (at_ k : ℕ) : Function.Injective (shiftCol at_ k) := by
  intro i j h
  unfold shiftCol at h
  split_ifs at h <;> omega

lemma shiftCol_ne (j : ℕ) {q : ℕ} (hq : q < k) : shiftCol at_ k j ≠ at_ + q := by
  unfold shiftCol
  split_ifs <;> omega

lemma shiftCol_of_lt {j : ℕ} (hj : j < at_) : shiftCol at_ k j = j := if_pos hj

@[simp] lemma insertAt_shiftCol (f new : ℕ → α) (at_ k j : ℕ) :
    insertAt f new at_ k (shiftCol at_ k j) = f j := by
  unfold insertAt shiftCol
  split_ifs with h h' h''
  · rfl
  · omega
  · omega
  · rw [Nat.add_sub_cancel]

lemma insertAt_new (f new : ℕ → α) {q : ℕ} (hq : q < k) :
    insertAt f new at_ k (at_ + q) = new q := by
  unfold insertAt
  rw [if_neg (by omega), if_pos (by omega), Nat.add_sub_cancel_left]

lemma sum_range_insert {M : Type*} [AddCommMonoid M] (h : at_ ≤ n) (F : ℕ → M) :
    ∑ c ∈ Finset.range (n + k), F c =
      ∑ j ∈ Finset.range n, F (shiftCol at_ k j) + ∑ q ∈ Finset.range k, F (at_ + q) := by
  obtain ⟨r, rfl⟩ := Nat.exists_eq_add_of_le h
  have hlow : ∑ j ∈ Finset.range at_, F (shiftCol at_ k j) = ∑ j ∈ Finset.range at_, F j :=
    sum_congr rfl fun j hj => by rw [shiftCol_of_lt (Finset.mem_range.mp hj)]
  have hhigh : ∑ j ∈ Finset.range r, F (shiftCol at_ k (at_ + j)) =
      ∑ j ∈ Finset.range r, F (at_ + k + j) := by
    refine sum_congr rfl fun j _ => ?_
    have hshift : shiftCol at_ k (at_ + j) = at_ + k + j := by
      unfold shiftCol
      rw [if_neg (by omega)]
      omega
    rw [hshift]
  rw [sum_range_add _ at_ r, hlow, hhigh, Nat.add_right_comm at_ r k,
    sum_range_add _ (at_ + k) r, sum_range_add _ at_ k]
  exact add_right_comm _ _ _

lemma forall_lt_insert (h : at_ ≤ n) (p : ℕ → Prop) :
    (∀ c < n + k, p c) ↔ (∀ j < n, p (shiftCol at_ k j)) ∧ ∀ q < k, p (at_ + q) := by
  constructor
  · exact fun hp => ⟨fun j hj => hp _ (shiftCol_lt hj), fun q hq => hp _ (by omega)⟩
  · rintro ⟨hold, hnew⟩ c hc
    rcases Nat.lt_or_ge c at_ with hlt | hge
    · have hp := hold c (by omega)
      rwa [shiftCol_of_lt hlt] at hp
    rcases Nat.lt_or_ge c (at_ + k) with hlt' | hge'
    · have hp := hnew (c - at_) (by omega)
      rwa [Nat.add_sub_cancel' hge] at hp
    · have hp := hold (c - k) (by omega)
      unfold shiftCol at hp
      rwa [if_neg (by omega), Nat.sub_add_cancel (by omega)] at hp

end Insertion

structure LpProblem.InRange (problem : LpProblem) : Prop where
  A_m : problem.A.m = problem.numRows
  A_n : problem.A.n = problem.numCols
  A_lt : ∀ j < problem.numCols, ∀ i ∈ keys (problem.A.col j), i < problem.numRows
  Q_lt : 0 < problem.Q.n → ∀ i < problem.numCols, ∀ j ∈ keys (problem.Q.row i), j < problem.numCols
  Q_nil : 0 < problem.Q.n → ∀ i, problem.numCols ≤ i → problem.Q.row i = []

lemma coeff_map_injective {g : ℕ → ℕ} (hg : Function.Injective g) (l : List (ℕ × ℚ)) (i : ℕ) :
    coeff (l.map fun p => (g p.1, p.2)) (g i) = coeff l i := by
  induction l with
  | nil => rfl
  | cons p l ih => simp only [map_cons, coeff_cons, ih, hg.eq_iff]

lemma keys_map_fst (g : ℕ → ℕ) (l : List (ℕ × ℚ)) :
    keys (l.map fun p => (g p.1, p.2)) = (keys l).map g := by
  simp only [keys, map_map, comp_def]

def CsrMatrix.quad (Q : CsrMatrix) (i j : ℕ) : ℚ := if 0 < Q.n then Q.entry i j else 0

/-- `Q'` is `Q`, of order `n`, with `k` empty lines inserted at `at_`. -/
structure InsertsQuad (Q Q' : CsrMatrix) (n at_ k : ℕ) : Prop where
  entry : ∀ i < n, ∀ j < n, Q'.quad (shiftCol at_ k i) (shiftCol at_ k j) = Q.quad i j
  newRow : ∀ q < k, ∀ c, Q'.quad (at_ + q) c = 0
  newColumn : ∀ i < n, ∀ q < k, Q'.quad (shiftCol at_ k i) (at_ + q) = 0
  lt : 0 < Q'.n → ∀ i < n + k, ∀ j ∈ keys (Q'.row i), j < n + k
  nil : 0 < Q'.n → ∀ i, n + k ≤ i → Q'.row i = []

section Quad

variable {Q : CsrMatrix} {n k : ℕ} (hlt : 0 < Q.n → ∀ i < n, ∀ j ∈ keys (Q.row i), j < n)
  (hnil : 0 < Q.n → ∀ i, n ≤ i → Q.row i = [])

include hlt hnil

lemma insertQuadratic_inserts {at_ : ℕ} (hle : at_ ≤ n) (hk : k ≠ 0) :
    InsertsQuad Q (insertQuadratic Q at_ k (n + k)) n at_ k := by
  unfold insertQuadratic
  split_ifs with hQ
  · have hpos : 0 < n + k := by omega
    refine ⟨fun i _ j _ => ?_, fun q hq c => ?_, fun i _ q hq => ?_, fun _ => ?_, fun _ i hi => ?_⟩
    · simp only [CsrMatrix.quad, if_pos hpos, if_pos hQ, CsrMatrix.entry, insertAt_shiftCol]
      exact coeff_map_injective (shiftCol_injective at_ k) _ j
    · simp only [CsrMatrix.quad, if_pos hpos, CsrMatrix.entry, insertAt_new _ _ hq, coeff_nil]
    · simp only [CsrMatrix.quad, if_pos hpos, CsrMatrix.entry, insertAt_shiftCol]
      refine coeff_eq_zero ?_
      rw [keys_map_fst, mem_map]
      rintro ⟨j, -, hj⟩
      exact shiftCol_ne j hq hj
    · refine (forall_lt_insert hle _).mpr ⟨fun i hi j hj => ?_, fun q hq j hj => ?_⟩
      · simp only [insertAt_shiftCol, keys_map_fst, mem_map] at hj
        obtain ⟨j', hj', rfl⟩ := hj
        exact shiftCol_lt (hlt hQ i hi j' hj')
      · simp only [insertAt_new _ _ hq] at hj
        cases hj
    · simp only [insertAt, if_neg (show ¬ i < at_ by omega), if_neg (show ¬ i < at_ + k by omega)]
      rw [hnil hQ (i - k) (by omega), map_nil]
  · refine ⟨?_, ?_, ?_, fun h => absurd h hQ, fun h => absurd h hQ⟩
    all_goals simp only [CsrMatrix.quad, if_neg hQ, implies_true]

lemma InsertsQuad.atEnd : InsertsQuad Q Q n n k := by
  have hzero : ∀ c d, n ≤ c → Q.quad c d = 0 := by
    intro c d hc
    unfold CsrMatrix.quad
    split_ifs with hQ
    · rw [CsrMatrix.entry, hnil hQ c hc, coeff_nil]
    · rfl
  refine ⟨fun i hi j hj => by rw [shiftCol_of_lt hi, shiftCol_of_lt hj],
    fun q _ c => hzero _ c (by omega), fun i hi q _ => ?_, fun hQ i hi j hj => ?_,
    fun hQ i hi => hnil hQ i (by omega)⟩
  · rw [shiftCol_of_lt hi]
    unfold CsrMatrix.quad
    split_ifs with hQ
    · refine coeff_eq_zero fun hmem => ?_
      have := hlt hQ i hi _ hmem
      omega
    · rfl
  · rcases Nat.lt_or_ge i n with hlow | hhigh
    · have := hlt hQ i hlow j hj
      omega
    · rw [hnil hQ i hhigh] at hj
      cases hj

end Quad

/-- `problem'` is `problem` with the single-entry columns `new` inserted at `at_`, all of cost zero
and outside the quadratic part. -/
structure Inserts (problem problem' : LpProblem) (at_ : ℕ) (new : List (ℕ × ℚ)) : Prop where
  le : at_ ≤ problem.numCols
  inRange : problem'.InRange
  numRows : problem'.numRows = problem.numRows
  numCols : problem'.numCols = problem.numCols + new.length
  rhs : problem'.rhs = problem.rhs
  const : problem'.objConstant = problem.objConstant
  col : ∀ j, problem'.A.col (shiftCol at_ new.length j) = problem.A.col j
  newCol : ∀ q < new.length, problem'.A.col (at_ + q) = [new.getD q (0, 0)]
  cost : ∀ j, problem'.objective (shiftCol at_ new.length j) = problem.objective j
  newCost : ∀ q < new.length, problem'.objective (at_ + q) = 0
  quad : InsertsQuad problem.Q problem'.Q problem.numCols at_ new.length
  lower : ∀ j, problem'.lower (shiftCol at_ new.length j) = problem.lower j
  upper : ∀ j, problem'.upper (shiftCol at_ new.length j) = problem.upper j

namespace Inserts

variable {problem problem' : LpProblem} {at_ : ℕ} {new : List (ℕ × ℚ)}

section

variable (h : Inserts problem problem' at_ new) (y : ℕ → ℚ)
include h y

lemma rowValue_eq (i : ℕ) :
    problem'.toProgram.rowValue y i =
      problem.toProgram.rowValue (fun j => y (shiftCol at_ new.length j)) i +
        ∑ q ∈ Finset.range new.length, problem'.A.entry i (at_ + q) * y (at_ + q) := by
  change ∑ c ∈ Finset.range problem'.numCols, problem'.A.entry i c * y c =
    ∑ j ∈ Finset.range problem.numCols, problem.A.entry i j * _ + _
  rw [h.numCols, sum_range_insert h.le]
  congr 1
  refine sum_congr rfl fun j _ => ?_
  simp only [CscMatrix.entry, h.col]

lemma objective_eq :
    problem'.toProgram.objective y =
      problem.toProgram.objective fun j => y (shiftCol at_ new.length j) := by
  have hlinear : ∑ c ∈ Finset.range problem'.numCols, problem'.objective c * y c =
      ∑ j ∈ Finset.range problem.numCols, problem.objective j * y (shiftCol at_ new.length j) := by
    rw [h.numCols, sum_range_insert h.le]
    have hnew : ∑ q ∈ Finset.range new.length, problem'.objective (at_ + q) * y (at_ + q) = 0 :=
      sum_eq_zero fun q hq => by rw [h.newCost q (Finset.mem_range.mp hq), zero_mul]
    rw [hnew, add_zero]
    exact sum_congr rfl fun j _ => by rw [h.cost]
  have hquad : ∑ c ∈ Finset.range problem'.numCols, ∑ d ∈ Finset.range problem'.numCols,
      problem'.Q.quad c d * y c * y d =
      ∑ i ∈ Finset.range problem.numCols, ∑ j ∈ Finset.range problem.numCols,
        problem.Q.quad i j * y (shiftCol at_ new.length i) * y (shiftCol at_ new.length j) := by
    rw [h.numCols, sum_range_insert h.le]
    have hrows : ∑ k ∈ Finset.range new.length,
        ∑ d ∈ Finset.range (problem.numCols + new.length),
          problem'.Q.quad (at_ + k) d * y (at_ + k) * y d = 0 := by
      refine sum_eq_zero fun k hk => sum_eq_zero fun d _ => ?_
      rw [h.quad.newRow k (Finset.mem_range.mp hk), zero_mul, zero_mul]
    rw [hrows, add_zero]
    refine sum_congr rfl fun i hi => ?_
    have hi' := Finset.mem_range.mp hi
    rw [sum_range_insert h.le]
    have hcols : ∑ k ∈ Finset.range new.length,
        problem'.Q.quad (shiftCol at_ new.length i) (at_ + k) *
          y (shiftCol at_ new.length i) * y (at_ + k) = 0 := by
      refine sum_eq_zero fun k hk => ?_
      rw [h.quad.newColumn i hi' k (Finset.mem_range.mp hk), zero_mul, zero_mul]
    rw [hcols, add_zero]
    exact sum_congr rfl fun j hj => by rw [h.quad.entry i hi' j (Finset.mem_range.mp hj)]
  change ∑ c ∈ Finset.range problem'.numCols, problem'.objective c * y c + 1 / 2 *
      ∑ c ∈ Finset.range problem'.numCols, ∑ d ∈ Finset.range problem'.numCols,
        problem'.Q.quad c d * y c * y d + problem'.objConstant = _
  rw [hlinear, hquad, h.const]
  rfl

lemma bounds_iff :
    (∀ c < problem'.numCols, InBounds (problem'.lower c) (problem'.upper c) (y c)) ↔
      (∀ j < problem.numCols,
        InBounds (problem.lower j) (problem.upper j) (y (shiftCol at_ new.length j))) ∧
      ∀ q < new.length,
        InBounds (problem'.lower (at_ + q)) (problem'.upper (at_ + q)) (y (at_ + q)) := by
  rw [h.numCols, forall_lt_insert h.le]
  simp only [h.lower, h.upper]

end

end Inserts

variable {problem : LpProblem}

lemma insertColumns_inserts (hrange : problem.InRange) {at_ : ℕ} (hle : at_ ≤ problem.numCols)
    {new : List (ℕ × ℚ)} (hnew : ∀ i ∈ keys new, i < problem.numRows) (lower upper : ℕ → Option ℚ)
    {Q' : CsrMatrix} (start : ℕ) (hQ : InsertsQuad problem.Q Q' problem.numCols at_ new.length) :
    Inserts problem { insertColumns problem at_ new lower upper with Q := Q', coneVarStart := start }
      at_ new where
  le := hle
  inRange := by
    refine ⟨hrange.A_m, rfl, (forall_lt_insert hle _).mpr ⟨fun j hj => ?_, fun q hq i hi => ?_⟩,
      hQ.lt, hQ.nil⟩
    · simp only [insertColumns, insertAt_shiftCol]
      exact hrange.A_lt j hj
    · simp only [insertColumns, insertAt_new _ _ hq] at hi
      rw [getD_eq_getElem _ _ hq] at hi
      rw [mem_singleton.mp hi]
      exact hnew _ (mem_map_of_mem (getElem_mem hq))
  numRows := rfl
  numCols := rfl
  rhs := rfl
  const := rfl
  col := insertAt_shiftCol problem.A.col (fun k => [new.getD k (0, 0)]) at_ new.length
  newCol := fun q hq => insertAt_new problem.A.col (fun k => [new.getD k (0, 0)]) hq
  cost := insertAt_shiftCol problem.objective (fun _ => 0) at_ new.length
  newCost := fun q hq => insertAt_new problem.objective (fun _ => 0) hq
  quad := hQ
  lower := insertAt_shiftCol problem.lower lower at_ new.length
  upper := insertAt_shiftCol problem.upper upper at_ new.length

lemma sum_map_ite_of_nodup {ι κ : Type*} [DecidableEq κ] {l : List ι} {r : ι → κ}
    (hl : (l.map r).Nodup) (f : ι → ℚ) {c : ι} (hc : c ∈ l) :
    (l.map fun d => if r d = r c then f d else 0).sum = f c := by
  induction l with
  | nil => cases hc
  | cons d l ih =>
    rw [map_cons, nodup_cons] at hl
    rw [map_cons, sum_cons]
    rcases mem_cons.mp hc with rfl | hc
    · have hrest : (l.map fun d => if r d = r c then f d else 0).sum = 0 := by
        refine List.sum_eq_zero fun v hv => ?_
        obtain ⟨d, hd, rfl⟩ := mem_map.mp hv
        have hne : r d ≠ r c := fun he => hl.1 (he ▸ mem_map_of_mem hd)
        exact if_neg hne
      rw [if_pos rfl, hrest, add_zero]
    · have hne : r d ≠ r c := fun he => hl.1 (he ▸ mem_map_of_mem hc)
      rw [if_neg hne, zero_add, ih hl.2 hc]

def LpProblem.slackRow (problem : LpProblem) (c : ℕ) : ℕ := ((problem.A.col c).headD (0, 0)).1

def IsSlack (user : UserProblem) (problem : LpProblem) (sgn : ℕ → ℚ) (c : ℕ) : Prop :=
  ∃ i alpha, problem.A.col c = [(i, alpha)] ∧ i < user.numRows ∧ alpha ≠ 0 ∧
    ∀ v, user.RowHolds i v ↔
      InBounds (problem.lower c) (problem.upper c) ((problem.rhs i - sgn i * v) / alpha)

def closingSlack (user : UserProblem) (problem : LpProblem) (sgn : ℕ → ℚ) (x : ℕ → ℚ) (c : ℕ) : ℚ :=
  (problem.rhs (problem.slackRow c) -
    sgn (problem.slackRow c) * user.rowValue x (problem.slackRow c)) /
      ((problem.A.col c).headD (0, 0)).2

/-- `problem` is `user` with row `i` scaled by `sgn i` and column `j` at `emb j`. The columns
`newSlacks` carry the meaning of their rows; any other row `i` stands for `pending i`. -/
structure Lifted (user : UserProblem) (problem : LpProblem) (newSlacks : List ℕ) (emb : ℕ → ℕ)
    (sgn : ℕ → ℚ) (pending : ℕ → ℚ → Prop) : Prop where
  inRange : problem.InRange
  numRows : problem.numRows = user.numRows
  emb_lt : ∀ j < user.numCols, emb j < problem.numCols
  emb_inj : ∀ j k, emb j = emb k → j = k
  emb_notMem : ∀ j, emb j ∉ newSlacks
  slacks_lt : ∀ c ∈ newSlacks, c < problem.numCols
  slacks_nodup : newSlacks.Nodup
  rowValue_eq : ∀ y, ∀ i < user.numRows, problem.toProgram.rowValue y i =
    sgn i * user.rowValue (fun j => y (emb j)) i +
      (newSlacks.map fun c => problem.A.entry i c * y c).sum
  objective_eq : ∀ y, problem.toProgram.objective y = user.objectiveValue fun j => y (emb j)
  bounds_iff : ∀ y : ℕ → ℚ,
    (∀ c < problem.numCols, InBounds (problem.lower c) (problem.upper c) (y c)) ↔
      (∀ j < user.numCols, InBounds (user.lower j) (user.upper j) (y (emb j))) ∧
      ∀ c ∈ newSlacks, InBounds (problem.lower c) (problem.upper c) (y c)
  slack : ∀ c ∈ newSlacks, IsSlack user problem sgn c
  rows_nodup : (newSlacks.map problem.slackRow).Nodup
  pending_iff : ∀ i < user.numRows, i ∉ newSlacks.map problem.slackRow →
    ∀ v, user.RowHolds i v ↔ pending i (sgn i * v)

namespace Lifted

variable {user : UserProblem} {problem problem' : LpProblem} {newSlacks : List ℕ} {emb : ℕ → ℕ}
  {sgn : ℕ → ℚ} {pending : ℕ → ℚ → Prop}

variable {at_ c : ℕ} {new : List (ℕ × ℚ)}

lemma insert_slackRow_old (hins : Inserts problem problem' at_ new)
    (hbelow : ∀ c ∈ newSlacks, c < at_) :
    newSlacks.map problem'.slackRow = newSlacks.map problem.slackRow := by
  refine map_congr_left fun c hc => ?_
  have hcol := hins.col c
  rw [shiftCol_of_lt (hbelow c hc)] at hcol
  rw [LpProblem.slackRow, hcol]
  rfl

lemma insert_slackRow_new (hins : Inserts problem problem' at_ new) :
    ((range new.length).map (at_ + ·)).map problem'.slackRow = keys new := by
  refine ext_getElem (by simp [keys]) fun q hq hq' => ?_
  have hlt : q < new.length := by simpa using hq
  simp only [keys, getElem_map, getElem_range, LpProblem.slackRow, hins.newCol q hlt,
    getD_eq_getElem _ _ hlt, headD_cons]

lemma insert (h : Lifted user problem newSlacks emb sgn pending)
    (hins : Inserts problem problem' at_ new) (hbelow : ∀ c ∈ newSlacks, c < at_)
    (hfresh : ∀ i ∈ keys new, i < user.numRows ∧ i ∉ newSlacks.map problem.slackRow)
    (hnodup : (keys new).Nodup) (hne : ∀ p ∈ new, p.2 ≠ 0)
    (hmeans : ∀ q < new.length, ∀ v, pending (new.getD q (0, 0)).1 v ↔
      InBounds (problem'.lower (at_ + q)) (problem'.upper (at_ + q))
        ((problem.rhs (new.getD q (0, 0)).1 - v) / (new.getD q (0, 0)).2)) :
    Lifted user problem' (newSlacks ++ (range new.length).map (at_ + ·))
      (fun j => shiftCol at_ new.length (emb j)) sgn pending := by
  have hrowsOld := insert_slackRow_old hins hbelow
  have hrowsNew := insert_slackRow_new hins
  have hcolOld : ∀ c ∈ newSlacks, problem'.A.col c = problem.A.col c := by
    intro c hc
    have hcol := hins.col c
    rwa [shiftCol_of_lt (hbelow c hc)] at hcol
  have hboundsOld : ∀ c ∈ newSlacks, problem'.lower c = problem.lower c ∧
      problem'.upper c = problem.upper c := by
    intro c hc
    have hl := hins.lower c
    have hu := hins.upper c
    rw [shiftCol_of_lt (hbelow c hc)] at hl hu
    exact ⟨hl, hu⟩
  have hmemNew : ∀ {c}, c ∈ (range new.length).map (at_ + ·) ↔
      ∃ q < new.length, at_ + q = c := by
    intro c
    simp only [mem_map, mem_range]
  have hsum : ∀ (y : ℕ → ℚ) (i : ℕ),
      (newSlacks.map fun c => problem'.A.entry i c * y c) =
        newSlacks.map fun c => problem.A.entry i c * y (shiftCol at_ new.length c) := by
    intro y i
    refine map_congr_left fun c hc => ?_
    rw [CscMatrix.entry, hcolOld c hc, shiftCol_of_lt (hbelow c hc)]
    rfl
  constructor
  case inRange => exact hins.inRange
  case numRows => rw [hins.numRows, h.numRows]
  case emb_lt =>
    intro j hj
    rw [hins.numCols]
    exact shiftCol_lt (h.emb_lt j hj)
  case emb_inj => exact fun j k hjk => h.emb_inj j k (shiftCol_injective _ _ hjk)
  case emb_notMem =>
    intro j hmem
    rcases mem_append.mp hmem with hold | hnew
    · have hlt := hbelow _ hold
      have hemb : emb j < at_ := by
        unfold shiftCol at hlt
        split_ifs at hlt <;> omega
      rw [shiftCol_of_lt hemb] at hold
      exact h.emb_notMem j hold
    · obtain ⟨q, hq, hc⟩ := hmemNew.mp hnew
      exact shiftCol_ne _ hq hc.symm
  case slacks_lt =>
    intro c hc
    rw [hins.numCols]
    have hle := hins.le
    rcases mem_append.mp hc with hold | hnew
    · have := h.slacks_lt c hold
      omega
    · obtain ⟨q, hq, rfl⟩ := hmemNew.mp hnew
      omega
  case slacks_nodup =>
    refine nodup_append.mpr ⟨h.slacks_nodup,
      nodup_range.map fun a b hab => Nat.add_left_cancel hab, fun c hc d hd hcd => ?_⟩
    obtain ⟨q, -, rfl⟩ := hmemNew.mp hd
    have := hbelow c hc
    omega
  case rowValue_eq =>
    intro y i hi
    rw [hins.rowValue_eq, h.rowValue_eq _ i hi, map_append, sum_append, hsum y i,
      map_map, add_assoc]
    rfl
  case objective_eq => exact fun y => (hins.objective_eq y).trans (h.objective_eq _)
  case bounds_iff =>
    intro y
    rw [hins.bounds_iff, h.bounds_iff, and_assoc]
    refine and_congr_right fun _ => ?_
    simp only [mem_append, or_imp, forall_and, hmemNew]
    refine and_congr (forall₂_congr fun c hc => ?_) ?_
    · rw [(hboundsOld c hc).1, (hboundsOld c hc).2, shiftCol_of_lt (hbelow c hc)]
    · constructor
      · rintro hb c ⟨q, hq, rfl⟩
        exact hb q hq
      · exact fun hb q hq => hb _ ⟨q, hq, rfl⟩
  case slack =>
    intro c hc
    rcases mem_append.mp hc with hold | hnew
    · obtain ⟨i, alpha, hcol, hi, halpha, hiff⟩ := h.slack c hold
      refine ⟨i, alpha, by rw [hcolOld c hold, hcol], hi, halpha, fun v => ?_⟩
      rw [hiff v, hins.rhs, (hboundsOld c hold).1, (hboundsOld c hold).2]
    · obtain ⟨q, hq, rfl⟩ := hmemNew.mp hnew
      have hmem : new.getD q (0, 0) ∈ new := by
        rw [getD_eq_getElem _ _ hq]
        exact getElem_mem hq
      obtain ⟨hi, hnotMem⟩ := hfresh _ (mem_map_of_mem hmem)
      refine ⟨(new.getD q (0, 0)).1, (new.getD q (0, 0)).2, hins.newCol q hq, hi, hne _ hmem,
        fun v => ?_⟩
      rw [h.pending_iff _ hi hnotMem, hmeans q hq, hins.rhs]
  case rows_nodup =>
    rw [map_append, hrowsOld, hrowsNew]
    exact nodup_append.mpr ⟨h.rows_nodup, hnodup,
      fun i hi k hk hik => (hfresh k hk).2 (hik ▸ hi)⟩
  case pending_iff =>
    intro i hi hnotMem
    rw [map_append, hrowsOld, mem_append, not_or] at hnotMem
    exact h.pending_iff i hi hnotMem.1

section

variable (h : Lifted user problem newSlacks emb sgn pending)
include h

lemma entry_slack (i : ℕ) (hc : c ∈ newSlacks) :
    problem.A.entry i c = if problem.slackRow c = i then ((problem.A.col c).headD (0, 0)).2 else 0 := by
  obtain ⟨k, alpha, hcol, -⟩ := h.slack c hc
  simp only [CscMatrix.entry, LpProblem.slackRow, hcol, coeff_cons, coeff_nil, add_zero, headD_cons]

lemma slackSum_of_mem (y : ℕ → ℚ) (hc : c ∈ newSlacks) :
    (newSlacks.map fun d => problem.A.entry (problem.slackRow c) d * y d).sum =
      ((problem.A.col c).headD (0, 0)).2 * y c := by
  rw [map_congr_left (g := fun d => if problem.slackRow d = problem.slackRow c then
      ((problem.A.col d).headD (0, 0)).2 * y d else 0)
    fun d hd => by rw [h.entry_slack _ hd, ite_mul, zero_mul]]
  exact sum_map_ite_of_nodup h.rows_nodup _ hc

lemma slackSum_of_notMem (y : ℕ → ℚ) {i : ℕ} (hi : i ∉ newSlacks.map problem.slackRow) :
    (newSlacks.map fun d => problem.A.entry i d * y d).sum = 0 := by
  refine List.sum_eq_zero fun v hv => ?_
  obtain ⟨d, hd, rfl⟩ := mem_map.mp hv
  have hne : problem.slackRow d ≠ i := fun he => hi (he ▸ mem_map_of_mem hd)
  rw [h.entry_slack i hd, if_neg hne, zero_mul]

lemma slackRow_lt (hc : c ∈ newSlacks) :
    problem.slackRow c < user.numRows := by
  obtain ⟨i, alpha, hcol, hi, -⟩ := h.slack c hc
  rwa [LpProblem.slackRow, hcol]

lemma rowValue_eq_rhs_iff (y : ℕ → ℚ) (hc : c ∈ newSlacks) :
    problem.toProgram.rowValue y (problem.slackRow c) = problem.rhs (problem.slackRow c) ↔
      y c = closingSlack user problem sgn (fun j => y (emb j)) c := by
  rw [h.rowValue_eq y _ (h.slackRow_lt hc), h.slackSum_of_mem y hc, closingSlack]
  obtain ⟨i, alpha, hcol, -, halpha, -⟩ := h.slack c hc
  rw [hcol, headD_cons, eq_div_iff halpha]
  constructor <;> intro he <;> linarith

lemma rowHolds_iff (x : ℕ → ℚ) (hc : c ∈ newSlacks) :
    user.RowHolds (problem.slackRow c) (user.rowValue x (problem.slackRow c)) ↔
      InBounds (problem.lower c) (problem.upper c) (closingSlack user problem sgn x c) := by
  obtain ⟨i, alpha, hcol, -, -, hiff⟩ := h.slack c hc
  have hslack : problem.slackRow c = i := by rw [LpProblem.slackRow, hcol, headD_cons]
  rw [closingSlack, hslack, hcol]
  exact hiff _

end

/-- A point of a lifted equality-form problem is feasible just when its user columns are and each
slack closes its row. -/
lemma feasible_iff (h : Lifted user problem newSlacks emb sgn fun i v => v = problem.rhs i)
    (y : ℕ → ℚ) :
    problem.toProgram.Feasible y ↔
      user.Feasible (fun j => y (emb j)) ∧
        ∀ c ∈ newSlacks, y c = closingSlack user problem sgn (fun j => y (emb j)) c := by
  have hmem : ∀ i, i ∈ problem.toProgram.rows ↔ i < user.numRows := by
    intro i
    rw [← h.numRows]
    exact Finset.mem_range
  have hbounds := h.bounds_iff y
  constructor
  · rintro ⟨hrows, hcols⟩
    obtain ⟨huser, hslacks⟩ := hbounds.mp fun c hc => hcols c (Finset.mem_range.mpr hc)
    have hvalue : ∀ c ∈ newSlacks, y c = closingSlack user problem sgn (fun j => y (emb j)) c :=
      fun c hc => (h.rowValue_eq_rhs_iff y hc).mp (hrows _ ((hmem _).mpr (h.slackRow_lt hc)))
    refine ⟨⟨fun i hi => ?_, huser⟩, hvalue⟩
    by_cases hin : i ∈ newSlacks.map problem.slackRow
    · obtain ⟨c, hc, rfl⟩ := mem_map.mp hin
      rw [h.rowHolds_iff _ hc, ← hvalue c hc]
      exact hslacks c hc
    · have heq : problem.toProgram.rowValue y i = problem.rhs i := hrows i ((hmem i).mpr hi)
      rw [h.rowValue_eq y i hi, h.slackSum_of_notMem y hin, add_zero] at heq
      exact (h.pending_iff i hi hin _).mpr heq
  · rintro ⟨⟨hrows, hcols⟩, hvalue⟩
    have hslacks : ∀ c ∈ newSlacks, InBounds (problem.lower c) (problem.upper c) (y c) := by
      intro c hc
      rw [hvalue c hc, ← h.rowHolds_iff _ hc]
      exact hrows _ (h.slackRow_lt hc)
    refine ⟨fun i hi => ?_, fun c hc => hbounds.mpr ⟨hcols, hslacks⟩ c (Finset.mem_range.mp hc)⟩
    have hi' := (hmem i).mp hi
    change problem.toProgram.rowValue y i = problem.rhs i
    by_cases hin : i ∈ newSlacks.map problem.slackRow
    · obtain ⟨c, hc, rfl⟩ := mem_map.mp hin
      exact (h.rowValue_eq_rhs_iff y hc).mpr (hvalue c hc)
    · rw [h.rowValue_eq y i hi', h.slackSum_of_notMem y hin, add_zero]
      exact (h.pending_iff i hi' hin _).mp (hrows i hi')

end Lifted

namespace UserProblem

variable {user : UserProblem} {x x' : ℕ → ℚ}

lemma rowValue_congr (h : ∀ j < user.numCols, x' j = x j) (i : ℕ) :
    user.rowValue x' i = user.rowValue x i :=
  sum_congr rfl fun j hj => by rw [h j (Finset.mem_range.mp hj)]

lemma Feasible.congr (hx : user.Feasible x) (h : ∀ j < user.numCols, x' j = x j) :
    user.Feasible x' := by
  refine ⟨fun i hi => ?_, fun j hj => ?_⟩
  · rw [rowValue_congr h]
    exact hx.1 i hi
  · rw [h j hj]
    exact hx.2 j hj

lemma objectiveValue_congr (h : ∀ j < user.numCols, x' j = x j) :
    user.objectiveValue x' = user.objectiveValue x :=
  Program.objective_congr _ fun j hj => h j (Finset.mem_range.mp hj)

end UserProblem

structure ExactConversion (user : UserProblem) (problem : LpProblem) (newSlacks : List ℕ) :
    Prop where
  crush_feasible : ∀ x, user.Feasible x →
    problem.toProgram.Feasible (crushPrimalSolution user problem x newSlacks)
  uncrush_feasible : ∀ y, problem.toProgram.Feasible y →
    user.Feasible (uncrushPrimalSolution user problem y)
  uncrush_objective : ∀ y, problem.toProgram.Feasible y →
    user.objectiveValue (uncrushPrimalSolution user problem y) = problem.toProgram.objective y
  uncrush_crush : ∀ x, ∀ j < user.numCols,
    uncrushPrimalSolution user problem (crushPrimalSolution user problem x newSlacks) j = x j

lemma clamp_of_inBounds {lower upper : Option ℚ} {v : ℚ} (h : InBounds lower upper v) :
    clamp lower upper v = v := by
  have hcap : upper.elim v (min v) = v := by
    cases upper with
    | none => rfl
    | some u => exact min_eq_left (h.2 u rfl)
  unfold clamp
  rw [hcap]
  cases lower with
  | none => rfl
  | some l => exact max_eq_right (h.1 l rfl)

section Crush

variable {e : ℕ → ℕ} {n : ℕ}

def placed (e : ℕ → ℕ) (x : ℕ → ℚ) (n : ℕ) : ℕ → ℚ :=
  (range n).foldl (fun s j => Function.update s (e j) (x j)) fun _ => 0

lemma placed_succ (x : ℕ → ℚ) :
    placed e x (n + 1) = update (placed e x n) (e n) (x n) := by
  simp only [placed, range_succ, foldl_concat]

lemma placed_emb (he : ∀ j < n, ∀ k < n, e j = e k → j = k) (x : ℕ → ℚ) {j : ℕ} (hj : j < n) :
    placed e x n (e j) = x j := by
  induction n with
  | zero => omega
  | succ n ih =>
    rw [placed_succ]
    rcases Nat.lt_succ_iff_lt_or_eq.mp hj with hlt | rfl
    · have hne : e j ≠ e n := fun h => by
        have := he j hj n n.lt_succ_self h
        omega
      rw [update_of_ne hne]
      exact ih (fun a ha b hb => he a (by omega) b (by omega)) hlt
    · exact update_self ..

lemma placed_of_ne (x : ℕ → ℚ) {c : ℕ} (hc : ∀ j < n, c ≠ e j) : placed e x n c = 0 := by
  induction n with
  | zero => rfl
  | succ n ih =>
    rw [placed_succ, update_of_ne (hc n n.lt_succ_self)]
    exact ih fun j hj => hc j (by omega)

lemma crush_eq_updateAll (user : UserProblem) (problem : LpProblem) (newSlacks : List ℕ)
    (x : ℕ → ℚ) :
    crushPrimalSolution user problem x newSlacks =
      updateAll (placed (userColToProblemCol user problem) x user.numCols) newSlacks fun c _ =>
        clamp (problem.lower c) (problem.upper c)
          ((problem.rhs (problem.slackRow c) - problem.A.mulVec
            (placed (userColToProblemCol user problem) x user.numCols) (problem.slackRow c)) /
              ((problem.A.col c).headD (0, 0)).2) := rfl

end Crush

namespace Lifted

variable {user : UserProblem} {problem : LpProblem} {newSlacks : List ℕ} {emb : ℕ → ℕ}
  {sgn : ℕ → ℚ} {pending : ℕ → ℚ → Prop}

section Points

variable (h : Lifted user problem newSlacks emb sgn pending)
  (hemb : ∀ j < user.numCols, userColToProblemCol user problem j = emb j)

include h hemb

lemma placed_user (x : ℕ → ℚ) {j : ℕ} (hj : j < user.numCols) :
    placed (userColToProblemCol user problem) x user.numCols (emb j) = x j := by
  rw [← hemb j hj]
  refine placed_emb (fun a ha b hb hab => ?_) x hj
  rw [hemb a ha, hemb b hb] at hab
  exact h.emb_inj a b hab

variable {c : ℕ}

lemma placed_slack (x : ℕ → ℚ) (hc : c ∈ newSlacks) :
    placed (userColToProblemCol user problem) x user.numCols c = 0 := by
  refine placed_of_ne x fun j hj he => h.emb_notMem j ?_
  rwa [← hemb j hj, ← he]

lemma mulVec_placed (x : ℕ → ℚ) {i : ℕ} (hi : i < user.numRows) :
    problem.A.mulVec (placed (userColToProblemCol user problem) x user.numCols) i =
      sgn i * user.rowValue x i := by
  have hvalue := h.rowValue_eq (placed (userColToProblemCol user problem) x user.numCols) i hi
  have hslacks : (newSlacks.map fun c => problem.A.entry i c *
      placed (userColToProblemCol user problem) x user.numCols c).sum = 0 := by
    refine List.sum_eq_zero fun v hv => ?_
    obtain ⟨c, hc, rfl⟩ := mem_map.mp hv
    rw [h.placed_slack hemb x hc, mul_zero]
  rw [hslacks, add_zero, UserProblem.rowValue_congr fun j hj => h.placed_user hemb x hj] at hvalue
  rw [← hvalue, CscMatrix.mulVec, h.inRange.A_n]
  rfl

lemma crush_user (x : ℕ → ℚ) {j : ℕ} (hj : j < user.numCols) :
    crushPrimalSolution user problem x newSlacks (emb j) = x j := by
  rw [crush_eq_updateAll, updateAll_of_notMem _ _ (h.emb_notMem j), h.placed_user hemb x hj]

/-- The slack of a row that holds closes it. -/
lemma crush_slack_of_row {x : ℕ → ℚ} (hc : c ∈ newSlacks)
    (hrow : user.RowHolds (problem.slackRow c) (user.rowValue x (problem.slackRow c))) :
    crushPrimalSolution user problem x newSlacks c = closingSlack user problem sgn x c := by
  have hbounds := (h.rowHolds_iff x hc).mp hrow
  rw [crush_eq_updateAll, updateAll_of_mem _ h.slacks_nodup _ hc,
    h.mulVec_placed hemb x (h.slackRow_lt hc)]
  exact clamp_of_inBounds hbounds

lemma crush_slack {x : ℕ → ℚ} (hx : user.Feasible x) (hc : c ∈ newSlacks) :
    crushPrimalSolution user problem x newSlacks c = closingSlack user problem sgn x c :=
  h.crush_slack_of_row hemb hc (hx.1 _ (h.slackRow_lt hc))

end Points

lemma exactConversion (h : Lifted user problem newSlacks emb sgn fun i v => v = problem.rhs i)
    (hemb : ∀ j < user.numCols, userColToProblemCol user problem j = emb j) :
    ExactConversion user problem newSlacks := by
  have huncrush : ∀ (y : ℕ → ℚ), ∀ j < user.numCols,
      uncrushPrimalSolution user problem y j = y (emb j) :=
    fun y j hj => congrArg y (hemb j hj)
  constructor
  · intro x hx
    have huser : ∀ j < user.numCols, crushPrimalSolution user problem x newSlacks (emb j) = x j :=
      fun j hj => h.crush_user hemb x hj
    refine (h.feasible_iff _).mpr ⟨hx.congr huser, fun c hc => ?_⟩
    rw [h.crush_slack hemb hx hc, closingSlack, closingSlack, UserProblem.rowValue_congr huser]
  · exact fun y hy => ((h.feasible_iff y).mp hy).1.congr (huncrush y)
  · intro y _
    rw [h.objective_eq y, UserProblem.objectiveValue_congr (huncrush y)]
  · intro x j hj
    rw [huncrush _ j hj, h.crush_user hemb x hj]

end Lifted

lemma senseCount_eq_sum (m : ℕ) (rowSense : ℕ → RowSense) (sense : RowSense) :
    senseCount m rowSense sense = ∑ i ∈ Finset.range m, if rowSense i = sense then 1 else 0 := by
  unfold senseCount
  induction m with
  | zero => rfl
  | succ m ih =>
    rw [range_succ, filter_append, length_append, Finset.sum_range_succ, ← ih,
      Nat.cast_add]
    congr 1
    rw [filter_singleton]
    by_cases h : rowSense m = sense <;> simp [h]

lemma senseCount_nonneg (m : ℕ) (rowSense : ℕ → RowSense) (sense : RowSense) :
    0 ≤ senseCount m rowSense sense := Int.natCast_nonneg _

lemma senseCount_pos {m : ℕ} {rowSense : ℕ → RowSense} {sense : RowSense} :
    0 < senseCount m rowSense sense ↔ ∃ i < m, rowSense i = sense := by
  unfold senseCount
  rw [Int.natCast_pos, length_pos_iff_exists_mem]
  simp only [mem_filter, mem_range, decide_eq_true_eq]

lemma senseCount_update {m i : ℕ} (hi : i < m) (rowSense : ℕ → RowSense) {sense : RowSense}
    (hsense : sense ≠ .E) :
    senseCount m (update rowSense i .E) sense =
      if rowSense i = sense then senseCount m rowSense sense - 1 else senseCount m rowSense sense := by
  have hmem := Finset.mem_range.mpr hi
  have hrest : ∑ k ∈ (Finset.range m).erase i,
      (if update rowSense i .E k = sense then (1 : ℤ) else 0) =
      ∑ k ∈ (Finset.range m).erase i, if rowSense k = sense then 1 else 0 :=
    sum_congr rfl fun k hk => by rw [update_of_ne (Finset.ne_of_mem_erase hk)]
  rw [senseCount_eq_sum, senseCount_eq_sum, ← Finset.add_sum_erase _ _ hmem,
    ← Finset.add_sum_erase _ (fun k => if rowSense k = sense then (1 : ℤ) else 0) hmem, hrest,
    update_self, if_neg hsense.symm]
  split_ifs <;> ring

section RangeRows

variable {l : List (ℕ × ℚ)}

lemma lookup_of_mem (hl : (l.map fst).Nodup) {p : ℕ × ℚ} (hp : p ∈ l) :
    l.lookup p.1 = some p.2 := by
  induction l with
  | nil => cases hp
  | cons r l ih =>
    rw [map_cons, nodup_cons] at hl
    rcases mem_cons.mp hp with rfl | hp
    · rw [lookup_cons_self]
    · have hne : p.1 ≠ r.1 := fun he => hl.1 (he ▸ mem_map_of_mem hp)
      rw [lookup_cons, beq_eq_false_iff_ne.mpr hne]
      exact ih hl.2 hp

lemma rangeHolds_iff (sense : RowSense) (rhs range v : ℚ) :
    RangeHolds sense rhs range v ↔
      (getRangeBoundsFromSense sense rhs range).1 ≤ v ∧
        v ≤ (getRangeBoundsFromSense sense rhs range).2 := by
  cases sense with
  | L | G => exact .rfl
  | E =>
    unfold RangeHolds getRangeBoundsFromSense
    split_ifs <;> exact .rfl

/-- The loop of `convert_range_rows` over rows that are all distinct. -/
lemma foldl_convertRangeRow (hl : (l.map fst).Nodup) (s : RangeState) :
    (∀ i, (l.foldl convertRangeRow s).rhs i = if i ∈ l.map fst then 0 else s.rhs i) ∧
      (∀ i, (l.foldl convertRangeRow s).rowSense i =
        if i ∈ l.map fst then .E else s.rowSense i) ∧
      (l.foldl convertRangeRow s).bounds =
        s.bounds ++ l.map fun p => getRangeBoundsFromSense (s.rowSense p.1) (s.rhs p.1) p.2 := by
  induction l generalizing s with
  | nil => simp
  | cons p l ih =>
    rw [map_cons, nodup_cons] at hl
    obtain ⟨hrhs, hsense, hbounds⟩ := ih hl.2 (convertRangeRow s p)
    have hne : ∀ r ∈ l, r.1 ≠ p.1 := fun r hr he => hl.1 (he ▸ mem_map_of_mem hr)
    rw [foldl_cons]
    refine ⟨fun i => ?_, fun i => ?_, ?_⟩
    · rw [hrhs]
      rcases eq_or_ne i p.1 with rfl | hip
      · simp [convertRangeRow, hl.1]
      · simp only [convertRangeRow, update_of_ne hip, map_cons, mem_cons, hip, false_or]
    · rw [hsense]
      rcases eq_or_ne i p.1 with rfl | hip
      · simp [convertRangeRow, hl.1]
      · simp only [convertRangeRow, update_of_ne hip, map_cons, mem_cons, hip, false_or]
    · rw [hbounds, map_cons]
      simp only [convertRangeRow, append_assoc, singleton_append]
      congr 2
      refine map_congr_left fun r hr => ?_
      rw [update_of_ne (hne r hr), update_of_ne (hne r hr)]

def Counted (m : ℕ) (rowSense : ℕ → RowSense) (lessRows greaterRows : ℤ) : Prop :=
  lessRows = senseCount m rowSense .L ∧ greaterRows = senseCount m rowSense .G

lemma foldl_convertRangeRow_counted {m : ℕ} (hl : ∀ p ∈ l, p.1 < m) {s : RangeState}
    (hs : Counted m s.rowSense s.lessRows s.greaterRows) :
    Counted m (l.foldl convertRangeRow s).rowSense (l.foldl convertRangeRow s).lessRows
      (l.foldl convertRangeRow s).greaterRows := by
  induction l generalizing s with
  | nil => exact hs
  | cons p l ih =>
    refine ih (fun r hr => hl r (mem_cons_of_mem _ hr)) ⟨?_, ?_⟩
    · simp only [convertRangeRow, senseCount_update (hl p mem_cons_self) s.rowSense
        (show RowSense.L ≠ .E by decide), hs.1]
    · simp only [convertRangeRow, senseCount_update (hl p mem_cons_self) s.rowSense
        (show RowSense.G ≠ .E by decide), hs.2]

end RangeRows

variable {user : UserProblem} {newSlacks : List ℕ}

lemma Lifted.congr_pending {emb : ℕ → ℕ} {sgn : ℕ → ℚ} {pending pending' : ℕ → ℚ → Prop}
    (h : Lifted user problem newSlacks emb sgn pending)
    (hp : ∀ i < user.numRows, i ∉ newSlacks.map problem.slackRow → ∀ v, pending i v ↔ pending' i v)
    : Lifted user problem newSlacks emb sgn pending' :=
  { h with pending_iff := fun i hi hnotMem v =>
      (h.pending_iff i hi hnotMem v).trans (hp i hi hnotMem _) }

/-- Where the columns are: new slacks precede the cone variables, and `emb` is the map that the
point conversions use. -/
structure Layout (user : UserProblem) (problem : LpProblem) (newSlacks : List ℕ) (emb : ℕ → ℕ) :
    Prop where
  slacks_lt : ∀ c ∈ newSlacks, c < problem.linearVariableCount
  cones : problem.secondOrderConeDims = user.secondOrderConeDims
  linear_le : problem.linearVariableCount ≤ problem.numCols
  start_le : user.coneVarStart ≤ problem.coneVarStart
  emb_eq : ∀ j < user.numCols, userColToProblemCol user problem j = emb j

structure Tracks (user : UserProblem) (s : ConvertState) (emb : ℕ → ℕ) (sgn : ℕ → ℚ) : Prop where
  lifted : Lifted user s.problem s.newSlacks emb sgn fun i =>
    SenseHolds (s.rowSense i) (s.problem.rhs i)
  layout : Layout user s.problem s.newSlacks emb
  slack_sense : ∀ i ∈ s.newSlacks.map s.problem.slackRow, s.rowSense i = .E
  slack_origin : ∀ i ∈ s.newSlacks.map s.problem.slackRow, i ∈ user.rangeRows ∨ user.rowSense i ≠ .E
  sense_origin : ∀ i, s.rowSense i ≠ .E → user.rowSense i ≠ .E
  counted : Counted user.numRows s.rowSense s.lessRows s.greaterRows

section Stages

variable {user : UserProblem} {problem : LpProblem} {rows newSlacks : List ℕ}
  {lower upper : ℕ → Option ℚ}

lemma keys_unit (rows : List ℕ) (v : ℚ) : keys (rows.map fun i => (i, v)) = rows := by
  simp only [keys, map_map, comp_def, map_id']

lemma insertSlackColumns_nil (isRange : Bool) :
    insertSlackColumns problem [] isRange lower upper newSlacks = (problem, newSlacks) := rfl

lemma insertSlackColumns_inserts (isRange : Bool) (lower upper : ℕ → Option ℚ)
    (newSlacks : List ℕ) (hrange : problem.InRange)
    (hle : problem.linearVariableCount ≤ problem.numCols)
    (hrows : ∀ i ∈ rows, i < problem.numRows) (hne : rows ≠ []) :
    Inserts problem (insertSlackColumns problem rows isRange lower upper newSlacks).1
      problem.linearVariableCount (rows.map fun i => (i, if isRange then -1 else 1)) := by
  have hlen : rows.length ≠ 0 := fun h => hne (length_eq_zero_iff.mp h)
  rw [insertSlackColumns, if_neg hlen]
  refine insertColumns_inserts hrange hle (by rwa [keys_unit]) lower upper _ ?_
  rw [length_map]
  exact insertQuadratic_inserts hrange.Q_lt hrange.Q_nil hle hlen

lemma insertSlackColumns_newSlacks (isRange : Bool) :
    (insertSlackColumns problem rows isRange lower upper newSlacks).2 =
      newSlacks ++ (range rows.length).map (problem.linearVariableCount + ·) := by
  unfold insertSlackColumns
  by_cases hlen : rows.length = 0
  · simp [hlen]
  · simp [hlen]

lemma insertSlackColumns_bounds (problem : LpProblem) (isRange : Bool)
    (lower upper : ℕ → Option ℚ) (newSlacks : List ℕ) (hne : rows ≠ []) {q : ℕ}
    (hq : q < rows.length) :
    (insertSlackColumns problem rows isRange lower upper newSlacks).1.lower
        (problem.linearVariableCount + q) = lower q ∧
      (insertSlackColumns problem rows isRange lower upper newSlacks).1.upper
        (problem.linearVariableCount + q) = upper q := by
  have hlen : rows.length ≠ 0 := fun h => hne (length_eq_zero_iff.mp h)
  have hq' : q < (rows.map fun i => (i, if isRange then (-1 : ℚ) else 1)).length := by
    rwa [length_map]
  rw [insertSlackColumns, if_neg hlen]
  exact ⟨insertAt_new problem.lower lower hq', insertAt_new problem.upper upper hq'⟩

lemma userColToProblemCol_of_cones (hcones : user.secondOrderConeDims ≠ [])
    (hle : user.coneVarStart ≤ problem.coneVarStart) (j : ℕ) :
    userColToProblemCol user problem j = if j < user.coneVarStart then j
      else problem.coneVarStart + (j - user.coneVarStart) := by
  unfold userColToProblemCol
  rw [if_neg hcones]
  split_ifs <;> omega

lemma shiftCol_zero (at_ : ℕ) : shiftCol at_ 0 = id := by
  funext j
  unfold shiftCol
  split_ifs <;> rfl

section InsertSlack

variable {emb : ℕ → ℕ} {sgn : ℕ → ℚ} {pending : ℕ → ℚ → Prop} (isRange : Bool)

lemma insertSlackColumns_numCols :
    (insertSlackColumns problem rows isRange lower upper newSlacks).1.numCols =
      problem.numCols + rows.length := by
  unfold insertSlackColumns
  by_cases hlen : rows.length = 0
  · simp [hlen]
  · simp [hlen, insertColumns]

lemma insertSlackColumns_rhs :
    (insertSlackColumns problem rows isRange lower upper newSlacks).1.rhs = problem.rhs := by
  unfold insertSlackColumns
  by_cases hlen : rows.length = 0
  · simp [hlen]
  · simp [hlen, insertColumns]

lemma insertSlackColumns_cones :
    (insertSlackColumns problem rows isRange lower upper newSlacks).1.secondOrderConeDims =
      problem.secondOrderConeDims := by
  unfold insertSlackColumns
  by_cases hlen : rows.length = 0
  · simp [hlen]
  · simp [hlen, insertColumns]

lemma insertSlackColumns_coneVarStart (problem : LpProblem) (rows : List ℕ) (isRange : Bool)
    (lower upper : ℕ → Option ℚ) (newSlacks : List ℕ) :
    (insertSlackColumns problem rows isRange lower upper newSlacks).1.coneVarStart =
      if problem.secondOrderConeDims = [] then problem.coneVarStart
      else problem.coneVarStart + rows.length := by
  unfold insertSlackColumns
  by_cases hlen : rows.length = 0
  · simp [hlen]
  · simp [hlen]

lemma insertSlackColumns_linearVariableCount :
    (insertSlackColumns problem rows isRange lower upper newSlacks).1.linearVariableCount =
      problem.linearVariableCount + rows.length := by
  simp only [LpProblem.linearVariableCount, insertSlackColumns_cones, insertSlackColumns_numCols,
    insertSlackColumns_coneVarStart]
  split_ifs <;> rfl

lemma Layout.insertSlackColumns (h : Layout user problem newSlacks emb) (rows : List ℕ)
    (isRange : Bool) (lower upper : ℕ → Option ℚ)
    (hemb : ∀ j < user.numCols, emb j < problem.numCols) :
    Layout user (insertSlackColumns problem rows isRange lower upper newSlacks).1
      (insertSlackColumns problem rows isRange lower upper newSlacks).2
      (fun j => shiftCol problem.linearVariableCount rows.length (emb j)) where
  slacks_lt := by
    rw [insertSlackColumns_newSlacks, insertSlackColumns_linearVariableCount]
    intro c hc
    rcases mem_append.mp hc with hold | hnew
    · have := h.slacks_lt c hold
      omega
    · simp only [mem_map, mem_range] at hnew
      omega
  cones := by rw [insertSlackColumns_cones, h.cones]
  linear_le := by
    rw [insertSlackColumns_linearVariableCount, insertSlackColumns_numCols]
    exact Nat.add_le_add_right h.linear_le _
  start_le := by
    have := h.start_le
    rw [insertSlackColumns_coneVarStart]
    split_ifs <;> omega
  emb_eq := by
    intro j hj
    have hold := h.emb_eq j hj
    have hstart := insertSlackColumns_coneVarStart problem rows isRange lower upper newSlacks
    by_cases hcones : user.secondOrderConeDims = []
    · -- without cones the new columns are the last ones
      have hlinear : problem.linearVariableCount = problem.numCols := by
        rw [LpProblem.linearVariableCount, h.cones, if_pos hcones]
      rw [userColToProblemCol, if_pos hcones] at hold ⊢
      rw [hlinear, shiftCol_of_lt (hemb j hj)]
      exact hold
    · have hlinear : problem.linearVariableCount = problem.coneVarStart := by
        rw [LpProblem.linearVariableCount, h.cones, if_neg hcones]
      rw [h.cones, if_neg hcones] at hstart
      have hle := h.start_le
      rw [userColToProblemCol_of_cones hcones hle] at hold
      rw [userColToProblemCol_of_cones hcones (by omega), ← hold, hlinear, hstart]
      unfold shiftCol
      split_ifs <;> omega

lemma Lifted.insertSlackColumns (h : Lifted user problem newSlacks emb sgn pending)
    (rows : List ℕ) (isRange : Bool) (lower upper : ℕ → Option ℚ)
    (hlayout : Layout user problem newSlacks emb)
    (hfresh : ∀ i ∈ rows, i < user.numRows ∧ i ∉ newSlacks.map problem.slackRow)
    (hnodup : rows.Nodup)
    (hmeans : ∀ q < rows.length, ∀ v, pending (rows.getD q 0) v ↔ InBounds (lower q) (upper q)
      ((problem.rhs (rows.getD q 0) - v) / if isRange then -1 else 1)) :
    Lifted user (insertSlackColumns problem rows isRange lower upper newSlacks).1
      (insertSlackColumns problem rows isRange lower upper newSlacks).2
      (fun j => shiftCol problem.linearVariableCount rows.length (emb j)) sgn pending ∧
      (insertSlackColumns problem rows isRange lower upper newSlacks).2.map
        (insertSlackColumns problem rows isRange lower upper newSlacks).1.slackRow =
          newSlacks.map problem.slackRow ++ rows := by
  by_cases hne : rows = []
  · subst hne
    rw [insertSlackColumns_nil]
    simp only [length_nil, shiftCol_zero, append_nil, and_true]
    exact h
  · set new : List (ℕ × ℚ) := rows.map fun i => (i, if isRange then -1 else 1) with hnew
    have hlen : new.length = rows.length := length_map ..
    have hkeys : keys new = rows := keys_unit rows _
    have hget : ∀ q < rows.length, new.getD q (0, 0) = (rows.getD q 0, if isRange then -1 else 1) := by
      intro q hq
      rw [getD_eq_getElem _ _ (by rwa [hlen]), getD_eq_getElem _ _ hq]
      exact getElem_map ..
    have hins := insertSlackColumns_inserts isRange lower upper newSlacks h.inRange hlayout.linear_le
      (fun i hi => h.numRows ▸ (hfresh i hi).1) hne
    have hlift := h.insert hins hlayout.slacks_lt (by rwa [hkeys]) (by rwa [hkeys])
      (by
        intro p hp
        obtain ⟨i, -, rfl⟩ := mem_map.mp hp
        cases isRange <;> norm_num)
      (by
        intro q hq v
        obtain ⟨hl, hu⟩ := insertSlackColumns_bounds problem isRange lower upper newSlacks hne
          (hlen ▸ hq)
        rw [hget q (hlen ▸ hq), hl, hu]
        exact hmeans q (hlen ▸ hq) v)
    rw [insertSlackColumns_newSlacks, ← hlen]
    refine ⟨hlift, ?_⟩
    rw [map_append, insert_slackRow_old hins hlayout.slacks_lt, insert_slackRow_new hins, hkeys]

end InsertSlack

lemma lifted_user (hwf : user.WellFormed) (rhs : ℕ → ℚ) :
    Lifted user { user.toLpProblem with rhs := rhs } [] id (fun _ => 1) user.RowHolds where
  inRange := ⟨hwf.A_m, hwf.A_n, hwf.A_lt, hwf.Q_lt, hwf.Q_nil⟩
  numRows := rfl
  emb_lt := fun _ hj => hj
  emb_inj := fun _ _ h => h
  emb_notMem := fun _ => not_mem_nil
  slacks_lt := nofun
  slacks_nodup := nodup_nil
  rowValue_eq := by
    intro y i _
    rw [map_nil, sum_nil, add_zero, one_mul]
    rfl
  objective_eq := fun _ => rfl
  bounds_iff := fun y => ⟨fun h => ⟨h, nofun⟩, fun h => h.1⟩
  slack := nofun
  rows_nodup := nodup_nil
  pending_iff := fun i _ _ v => by rw [one_mul]

lemma layout_user (hwf : user.WellFormed) (rhs : ℕ → ℚ) :
    Layout user { user.toLpProblem with rhs := rhs } [] id where
  slacks_lt := nofun
  cones := rfl
  linear_le := hwf.cones
  start_le := le_rfl
  emb_eq := by
    intro j _
    unfold userColToProblemCol
    split_ifs with hcones hle hlt
    · rfl
    · rfl
    · rfl
    · exact absurd le_rfl hle

lemma rowHolds_of_mem (hwf : user.WellFormed) {q : ℕ} (hq : q < user.rangeRows.length) (v : ℚ) :
    user.RowHolds (user.rangeRows.getD q 0) v ↔
      RangeHolds (user.rowSense (user.rangeRows.getD q 0))
        (user.rhs (user.rangeRows.getD q 0)) (user.ranges.getD q (0, 0)).2 v := by
  have hq' : q < user.ranges.length := by simpa [rangeRows] using hq
  have hmem : user.ranges.getD q (0, 0) ∈ user.ranges := by
    rw [getD_eq_getElem _ _ hq']
    exact getElem_mem hq'
  have hrow : user.rangeRows.getD q 0 = (user.ranges.getD q (0, 0)).1 := by
    rw [getD_eq_getElem _ _ hq, getD_eq_getElem _ _ hq']
    exact getElem_map ..
  rw [UserProblem.RowHolds, hrow, lookup_of_mem hwf.range_nodup hmem]

lemma rowHolds_of_notMem {i : ℕ} (hi : i ∉ user.rangeRows) (v : ℚ) :
    user.RowHolds i v ↔ SenseHolds (user.rowSense i) (user.rhs i) v := by
  have hnone : user.ranges.lookup i = none := by
    rw [lookup_eq_none_iff]
    intro p hp
    rw [bne_iff_ne]
    exact fun he => hi (he ▸ mem_map_of_mem hp)
  rw [UserProblem.RowHolds, hnone]

lemma convertRangeRows_tracks (hwf : user.WellFormed) :
    ∃ emb, Tracks user (convertRangeRows user (initialState user)) emb fun _ => 1 := by
  set s₀ : RangeState := ⟨user.rhs, user.rowSense, senseCount user.numRows user.rowSense .L,
    senseCount user.numRows user.rowSense .E, senseCount user.numRows user.rowSense .G, []⟩ with hs₀
  set r := user.ranges.foldl convertRangeRow s₀ with hr
  obtain ⟨hrhs, hsense, hbounds⟩ := foldl_convertRangeRow hwf.range_nodup s₀
  rw [← hr] at hrhs hsense hbounds
  have hcounted : Counted user.numRows r.rowSense r.lessRows r.greaterRows :=
    foldl_convertRangeRow_counted
      (fun p hp => hwf.range_lt p.1 (mem_map_of_mem hp)) (s := s₀) ⟨rfl, rfl⟩
  have hmeans : ∀ q < user.rangeRows.length, ∀ v, user.RowHolds (user.rangeRows.getD q 0) v ↔
      InBounds (some (r.bounds.getD q (0, 0)).1) (some (r.bounds.getD q (0, 0)).2)
        ((r.rhs (user.rangeRows.getD q 0) - v) / -1) := by
    intro q hq v
    have hq' : q < user.ranges.length := by simpa [rangeRows] using hq
    have hget : user.rangeRows.getD q 0 = (user.ranges.getD q (0, 0)).1 := by
      rw [getD_eq_getElem _ _ hq, getD_eq_getElem _ _ hq']
      exact getElem_map ..
    have hmem : user.rangeRows.getD q 0 ∈ user.ranges.map fst := by
      rw [getD_eq_getElem _ _ hq]
      exact getElem_mem hq
    have hbound : r.bounds.getD q (0, 0) = getRangeBoundsFromSense
        (user.rowSense (user.rangeRows.getD q 0)) (user.rhs (user.rangeRows.getD q 0))
        (user.ranges.getD q (0, 0)).2 := by
      rw [hbounds, nil_append, hget, getD_eq_getElem _ _ (by simpa using hq'),
        getElem_map, getD_eq_getElem _ _ hq']
    rw [rowHolds_of_mem hwf hq, rangeHolds_iff, ← hbound, hrhs, if_pos hmem, zero_sub, neg_div_neg_eq,
      div_one]
    simp [InBounds]
  obtain ⟨hlift, hrows⟩ := (lifted_user hwf r.rhs).insertSlackColumns user.rangeRows true
    (fun k => some (r.bounds.getD k (0, 0)).1) (fun k => some (r.bounds.getD k (0, 0)).2)
    (layout_user hwf r.rhs) (fun i hi => ⟨hwf.range_lt i hi, not_mem_nil⟩) hwf.range_nodup hmeans
  have hlayout := (layout_user hwf r.rhs).insertSlackColumns user.rangeRows true
    (fun k => some (r.bounds.getD k (0, 0)).1) (fun k => some (r.bounds.getD k (0, 0)).2)
    fun j hj => hj
  rw [map_nil, nil_append] at hrows
  refine ⟨_, hlift.congr_pending fun i _ hi v => ?_, hlayout, fun i hi => ?_, fun i hi => ?_,
    fun i hi hE => hi ?_, hcounted⟩
  · rw [hrows] at hi
    change _ ↔ SenseHolds (r.rowSense i)
      ((insertSlackColumns { user.toLpProblem with rhs := r.rhs } user.rangeRows true _ _ _).1.rhs i) v
    have hsense' : r.rowSense i = user.rowSense i := (hsense i).trans (if_neg hi)
    have hrhs' : r.rhs i = user.rhs i := (hrhs i).trans (if_neg hi)
    rw [insertSlackColumns_rhs, rowHolds_of_notMem hi, hsense', ← hrhs']
  · have hmem : i ∈ user.rangeRows := hrows ▸ hi
    exact (hsense i).trans (if_pos hmem)
  · exact .inl (hrows ▸ hi)
  · refine (hsense i).trans ?_
    split_ifs
    · rfl
    · exact hE

lemma flatMap_range_ite {α : Type*} {n c : ℕ} (hc : c < n) (l : List α) :
    (range n).flatMap (fun j => if j = c then l else []) = l := by
  induction n with
  | zero => omega
  | succ n ih =>
    rw [range_succ, flatMap_append, flatMap_singleton]
    rcases Nat.lt_succ_iff_lt_or_eq.mp hc with hlt | rfl
    · rw [ih hlt, if_neg (by omega), append_nil]
    · have hrest : (range c).flatMap (fun j => if j = c then l else []) = [] := by
        rw [flatMap_eq_nil_iff]
        intro j hj
        rw [if_neg (mem_range.mp hj).ne]
      rw [hrest, if_pos rfl, nil_append]

lemma filter_transposed {n : ℕ} {line : ℕ → List (ℕ × ℚ)} {c : ℕ} (hc : c < n) (i : ℕ) :
    (transposed n line i).filter (fun p => p.1 = c) =
      ((line c).filter fun p => p.1 = i).map fun p => (c, p.2) := by
  have hpart : ∀ j, (((line j).filter fun p => p.1 = i).map fun p => (j, p.2)).filter
      (fun p => p.1 = c) = if j = c then ((line c).filter fun p => p.1 = i).map fun p => (c, p.2)
        else [] := by
    intro j
    split_ifs with hj
    · subst hj
      simp [filter_map, comp_def]
    · simp [filter_map, comp_def, hj]
  unfold transposed
  rw [filter_flatMap]
  simp only [hpart]
  exact flatMap_range_ite hc _

/-- The factor by which `convert_greater_to_less` multiplies a row. -/
def rowSign (rowSense : ℕ → RowSense) (i : ℕ) : ℚ := if rowSense i = .G then -1 else 1

section Greater

variable {s : ConvertState}

lemma flippedRow_eq (row : List (ℕ × ℚ)) (i : ℕ) :
    (if s.rowSense i = .G then row.map fun p => (p.1, p.2 * -1) else row) =
      row.map fun p => (p.1, rowSign s.rowSense i * p.2) := by
  unfold rowSign
  split_ifs
  · exact map_congr_left fun p _ => by rw [mul_comm]
  · simp only [one_mul, map_id']

lemma convertGreaterToLess_A_col (c : ℕ) :
    (convertGreaterToLess s).problem.A.col c = transposed s.problem.A.m
      (fun i => (transposed s.problem.A.n s.problem.A.col i).map fun p =>
        (p.1, rowSign s.rowSense i * p.2)) c := by
  simp only [convertGreaterToLess, flippedRow_eq, CsrMatrix.toCompressedCol_col,
    CscMatrix.toCompressedRow_row]
  rfl

lemma convertGreaterToLess_entry (hrange : s.problem.InRange) {i c : ℕ}
    (hi : i < s.problem.numRows) (hc : c < s.problem.numCols) :
    (convertGreaterToLess s).problem.A.entry i c =
      rowSign s.rowSense i * s.problem.A.entry i c := by
  rw [CscMatrix.entry, convertGreaterToLess_A_col, coeff_transposed, hrange.A_m, hrange.A_n,
    if_pos hi, coeff_map_mul, coeff_transposed, if_pos hc]
  rfl

lemma convertGreaterToLess_slack (hrange : s.problem.InRange) {c i : ℕ} {alpha : ℚ}
    (hc : c < s.problem.numCols) (hcol : s.problem.A.col c = [(i, alpha)])
    (hi : i < s.problem.numRows) (hsense : s.rowSense i = .E) :
    (convertGreaterToLess s).problem.A.col c = [(i, alpha)] := by
  have hpart : ∀ k, ((((transposed s.problem.A.n s.problem.A.col k).map fun p =>
      (p.1, rowSign s.rowSense k * p.2)).filter fun p => p.1 = c).map fun p => (k, p.2)) =
      if k = i then [(i, alpha)] else [] := by
    intro k
    rw [filter_map]
    simp only [comp_def]
    rw [filter_transposed (by rwa [hrange.A_n]), hcol]
    rcases eq_or_ne k i with rfl | hne
    · simp [rowSign, hsense]
    · simp [hne, hne.symm]
  rw [convertGreaterToLess_A_col, transposed]
  simp only [hpart]
  exact flatMap_range_ite (by rwa [hrange.A_m]) _

lemma convertGreaterToLess_inRange (hrange : s.problem.InRange) :
    (convertGreaterToLess s).problem.InRange where
  __ := hrange
  A_lt := by
    intro j _ i hi
    rw [convertGreaterToLess_A_col, mem_keys_transposed] at hi
    exact hrange.A_m ▸ hi.1

lemma senseHolds_flip (sense : RowSense) (rhs v : ℚ) :
    SenseHolds sense rhs v ↔
      SenseHolds (if sense = .G then .L else sense)
        (if sense = .G then rhs * -1 else rhs) ((if sense = .G then -1 else 1) * v) := by
  cases sense with
  | L | G | E => simp [SenseHolds]

lemma senseCount_flip (m : ℕ) (rowSense : ℕ → RowSense) :
    senseCount m (fun i => if rowSense i = .G then .L else rowSense i) .L =
        senseCount m rowSense .L + senseCount m rowSense .G ∧
      senseCount m (fun i => if rowSense i = .G then .L else rowSense i) .G = 0 := by
  simp only [senseCount_eq_sum]
  constructor
  · rw [← Finset.sum_add_distrib]
    refine sum_congr rfl fun i _ => ?_
    cases rowSense i <;> rfl
  · refine sum_eq_zero fun i _ => ?_
    cases rowSense i <;> rfl

lemma convertGreaterToLess_tracks {emb : ℕ → ℕ} {sgn : ℕ → ℚ} (h : Tracks user s emb sgn) :
    Tracks user (convertGreaterToLess s) emb fun i => rowSign s.rowSense i * sgn i := by
  have hl := h.lifted
  have hlt : ∀ c ∈ s.newSlacks, c < s.problem.numCols := hl.slacks_lt
  have hslackCol : ∀ c ∈ s.newSlacks,
      (convertGreaterToLess s).problem.A.col c = s.problem.A.col c := by
    intro c hc
    obtain ⟨i, alpha, hcol, hi, -⟩ := hl.slack c hc
    have hrow : s.problem.slackRow c = i := by rw [LpProblem.slackRow, hcol, headD_cons]
    rw [hcol]
    exact convertGreaterToLess_slack hl.inRange (hlt c hc) hcol (hl.numRows ▸ hi)
      (h.slack_sense i (hrow ▸ mem_map_of_mem hc))
  have hrows : s.newSlacks.map (convertGreaterToLess s).problem.slackRow =
      s.newSlacks.map s.problem.slackRow :=
    map_congr_left fun c hc => by rw [LpProblem.slackRow, hslackCol c hc]; rfl
  have hslackSign : ∀ i ∈ s.newSlacks.map s.problem.slackRow, rowSign s.rowSense i = 1 := by
    intro i hi
    rw [rowSign, h.slack_sense i hi]
    rfl
  have hlift : Lifted user (convertGreaterToLess s).problem s.newSlacks emb
      (fun i => rowSign s.rowSense i * sgn i) fun i => SenseHolds
        ((convertGreaterToLess s).rowSense i) ((convertGreaterToLess s).problem.rhs i) := by
    refine ⟨convertGreaterToLess_inRange hl.inRange, hl.numRows, hl.emb_lt, hl.emb_inj,
      hl.emb_notMem, hl.slacks_lt, hl.slacks_nodup, fun y i hi => ?_, hl.objective_eq,
      hl.bounds_iff, fun c hc => ?_, hrows ▸ hl.rows_nodup, fun i hi hnotMem v => ?_⟩
    · have hi' : i < s.problem.numRows := hl.numRows ▸ hi
      have hvalue : (convertGreaterToLess s).problem.toProgram.rowValue y i =
          rowSign s.rowSense i * s.problem.toProgram.rowValue y i := by
        unfold Program.rowValue
        rw [Finset.mul_sum]
        refine sum_congr rfl fun c hc => ?_
        rw [← mul_assoc]
        exact congrArg (· * y c)
          (convertGreaterToLess_entry hl.inRange hi' (Finset.mem_range.mp hc))
      rw [hvalue, hl.rowValue_eq y i hi, mul_add, mul_assoc, ← sum_map_mul_left]
      congr 2
      refine map_congr_left fun c hc => ?_
      rw [convertGreaterToLess_entry hl.inRange hi' (hlt c hc), mul_assoc]
    · obtain ⟨i, alpha, hcol, hi, halpha, hiff⟩ := hl.slack c hc
      have hrow : s.problem.slackRow c = i := by rw [LpProblem.slackRow, hcol, headD_cons]
      have hmem : i ∈ s.newSlacks.map s.problem.slackRow := hrow ▸ mem_map_of_mem hc
      have hrhs : (convertGreaterToLess s).problem.rhs i = s.problem.rhs i := by
        simp [convertGreaterToLess, h.slack_sense i hmem]
      refine ⟨i, alpha, (hslackCol c hc).trans hcol, hi, halpha, fun v => ?_⟩
      simp only [hrhs, hslackSign i hmem, one_mul]
      exact hiff v
    · rw [hrows] at hnotMem
      rw [hl.pending_iff i hi hnotMem v, mul_assoc]
      exact senseHolds_flip _ _ _
  have hlayout := h.layout
  refine ⟨hlift, ⟨hlayout.slacks_lt, hlayout.cones, hlayout.linear_le, hlayout.start_le,
    hlayout.emb_eq⟩, fun i hi => ?_, fun i hi => h.slack_origin i (hrows ▸ hi),
    fun i hi => h.sense_origin i fun hE => hi ?_, ?_, ?_⟩
  · change (if s.rowSense i = .G then RowSense.L else s.rowSense i) = .E
    rw [h.slack_sense i (hrows ▸ hi)]
    rfl
  · change (if s.rowSense i = .G then RowSense.L else s.rowSense i) = .E
    rw [hE]
    rfl
  · change s.lessRows + senseCount s.problem.numRows s.rowSense .G = _
    rw [hl.numRows, h.counted.1]
    exact (senseCount_flip user.numRows s.rowSense).1.symm
  · change s.greaterRows - senseCount s.problem.numRows s.rowSense .G = _
    rw [hl.numRows, h.counted.2, sub_self]
    exact (senseCount_flip user.numRows s.rowSense).2.symm

end Greater

section Less

variable {s : ConvertState} {emb : ℕ → ℕ} {sgn : ℕ → ℚ}

lemma getD_filter {m : ℕ} {p : ℕ → Prop} [DecidablePred p] {q : ℕ}
    (hq : q < ((range m).filter p).length) : p (((range m).filter p).getD q 0) := by
  rw [getD_eq_getElem _ _ hq]
  exact of_decide_eq_true (mem_filter.mp (getElem_mem hq)).2

/-- Every row is an equality, and an original equality row has a slack only as a range row. -/
structure Closed (user : UserProblem) (problem : LpProblem) (newSlacks : List ℕ) (emb : ℕ → ℕ)
    (sgn : ℕ → ℚ) : Prop where
  lifted : Lifted user problem newSlacks emb sgn fun i v => v = problem.rhs i
  layout : Layout user problem newSlacks emb
  slack_origin : ∀ i ∈ newSlacks.map problem.slackRow, i ∈ user.rangeRows ∨ user.rowSense i ≠ .E

lemma convertLessThanToEqual_closed (h : Tracks user s emb sgn)
    (hG : ∀ i < user.numRows, s.rowSense i ≠ .G) :
    ∃ emb', Closed user (convertLessThanToEqual s).problem (convertLessThanToEqual s).newSlacks
      emb' sgn := by
  set rows := (range s.problem.numRows).filter fun i => s.rowSense i = .L with hrowsDef
  have hmem : ∀ i, i ∈ rows ↔ i < user.numRows ∧ s.rowSense i = .L := by
    intro i
    rw [hrowsDef, mem_filter, mem_range, decide_eq_true_eq, h.lifted.numRows]
  obtain ⟨hlift, hrows⟩ := h.lifted.insertSlackColumns rows false (fun _ => some 0)
    (fun _ => none) h.layout
    (fun i hi => ⟨((hmem i).mp hi).1, fun hs => by
      have := h.slack_sense i hs
      rw [((hmem i).mp hi).2] at this
      cases this⟩)
    (nodup_range.filter _)
    (fun q hq v => by
      rw [getD_filter hq]
      simp [InBounds, SenseHolds])
  refine ⟨_, hlift.congr_pending fun i hi hnotMem v => ?_,
    h.layout.insertSlackColumns rows false _ _ h.lifted.emb_lt, fun i hi => ?_⟩
  · have hL : i ∉ rows := fun hin => hnotMem (hrows ▸ mem_append_right _ hin)
    have hE : s.rowSense i = .E := by
      cases hs : s.rowSense i with
      | L => exact absurd ((hmem i).mpr ⟨hi, hs⟩) hL
      | G => exact absurd hs (hG i hi)
      | E => rfl
    change _ ↔ v = (insertSlackColumns s.problem rows false _ _ s.newSlacks).1.rhs i
    rw [hE, insertSlackColumns_rhs]
    rfl
  · have hin : i ∈ s.newSlacks.map s.problem.slackRow ++ rows := hrows ▸ hi
    rcases mem_append.mp hin with hold | hnew
    · exact h.slack_origin i hold
    · refine .inr (h.sense_origin i ?_)
      rw [((hmem i).mp hnew).2]
      decide

/-- Without less rows the problem is closed already. -/
lemma convertLessThanToEqual_of_none (hL : ∀ i < s.problem.numRows, s.rowSense i ≠ .L) :
    (convertLessThanToEqual s).problem = s.problem ∧
      (convertLessThanToEqual s).newSlacks = s.newSlacks := by
  have hrows : (range s.problem.numRows).filter (fun i => s.rowSense i = .L) = [] := by
    rw [filter_eq_nil_iff]
    intro i hi
    rw [decide_eq_true_eq]
    exact hL i (mem_range.mp hi)
  unfold convertLessThanToEqual
  rw [hrows]
  exact ⟨rfl, rfl⟩

/-- The problem just before artificial columns are added. -/
lemma inequalityState_closed (hwf : user.WellFormed) :
    let s := inequalityState user
    let s := if 0 < s.lessRows then convertLessThanToEqual s else s
    ∃ emb sgn, Closed user s.problem s.newSlacks emb sgn := by
  intro s
  have hranges : (if user.ranges = [] then initialState user
      else convertRangeRows user (initialState user)) =
      convertRangeRows user (initialState user) := by
    split_ifs with hnil
    · unfold convertRangeRows
      rw [rangeRows, hnil]
      rfl
    · rfl
  obtain ⟨emb, htracks⟩ := convertRangeRows_tracks hwf
  have hstate : ∃ sgn, Tracks user s emb sgn ∧ ∀ i < user.numRows, s.rowSense i ≠ .G := by
    simp only [s, inequalityState, hranges]
    split_ifs with hgreater
    · refine ⟨_, convertGreaterToLess_tracks htracks, fun i _ hi => ?_⟩
      simp only [convertGreaterToLess] at hi
      split_ifs at hi with hG
      exact hG hi
    · refine ⟨_, htracks, fun i hi hG => hgreater ?_⟩
      rw [htracks.counted.2]
      exact senseCount_pos.mpr ⟨i, hi, hG⟩
  obtain ⟨sgn, htrack, hG⟩ := hstate
  obtain ⟨emb', hclosed⟩ := convertLessThanToEqual_closed htrack hG
  refine ⟨emb', sgn, ?_⟩
  split_ifs with hless
  · exact hclosed
  · have hL : ∀ i < s.problem.numRows, s.rowSense i ≠ .L := by
      intro i hi hL
      refine hless ?_
      rw [htrack.counted.1]
      exact senseCount_pos.mpr ⟨i, htrack.lifted.numRows ▸ hi, hL⟩
    obtain ⟨hp, hn⟩ := convertLessThanToEqual_of_none hL
    rwa [hp, hn] at hclosed

lemma addArtificalVariables_lifted {problem' : LpProblem} {newSlacks' equalityRows : List ℕ}
    (h : Closed user problem newSlacks emb sgn)
    (heq : equalityRows = (range user.numRows).filter fun i => user.rowSense i = .E)
    (hadd : addArtificalVariables problem user.rangeRows equalityRows newSlacks =
      some (problem', newSlacks')) :
    ∃ emb', Lifted user problem' newSlacks' emb' sgn (fun i v => v = problem'.rhs i) ∧
      ∀ j < user.numCols, userColToProblemCol user problem' j = emb' j := by
  unfold addArtificalVariables at hadd
  simp only [Option.ite_none_right_eq_some, Option.some.injEq, Prod.mk.injEq] at hadd
  obtain ⟨-, rfl, rfl⟩ := hadd
  set rows := equalityRows.filter fun i => i ∉ user.rangeRows with hrowsDef
  set new : List (ℕ × ℚ) := rows.map fun i => (i, 1) with hnew
  have hl := h.lifted
  have hmem : ∀ i ∈ rows, i < user.numRows ∧ user.rowSense i = .E ∧ i ∉ user.rangeRows := by
    intro i hi
    rw [hrowsDef, heq] at hi
    simp only [mem_filter, mem_range, decide_eq_true_eq] at hi
    exact ⟨hi.1.1, hi.1.2, hi.2⟩
  have hlen : new.length = rows.length := length_map ..
  have hkeys : keys new = rows := keys_unit rows 1
  have hnodup : rows.Nodup := by
    rw [hrowsDef, heq]
    exact (nodup_range.filter _).filter _
  have hins : Inserts problem (insertColumns problem problem.numCols new (fun _ => some 0)
      fun _ => some 0) problem.numCols new :=
    insertColumns_inserts hl.inRange le_rfl
      (by rw [hkeys]; exact fun i hi => hl.numRows ▸ (hmem i hi).1) (fun _ => some 0)
      (fun _ => some 0) problem.coneVarStart (InsertsQuad.atEnd hl.inRange.Q_lt hl.inRange.Q_nil)
  have hlift := hl.insert hins hl.slacks_lt
    (by
      rw [hkeys]
      refine fun i hi => ⟨(hmem i hi).1, fun hs => ?_⟩
      rcases h.slack_origin i hs with hr | hE
      · exact (hmem i hi).2.2 hr
      · exact hE (hmem i hi).2.1)
    (by rwa [hkeys])
    (by
      intro p hp
      obtain ⟨i, -, rfl⟩ := mem_map.mp hp
      exact one_ne_zero)
    (by
      intro q hq v
      have hlower : insertAt problem.lower (fun _ => some 0) problem.numCols new.length
          (problem.numCols + q) = some 0 := insertAt_new _ _ hq
      have hupper : insertAt problem.upper (fun _ => some 0) problem.numCols new.length
          (problem.numCols + q) = some 0 := insertAt_new _ _ hq
      have hone : (new.getD q (0, 0)).2 = 1 := by
        rw [getD_eq_getElem _ _ hq, getElem_map]
      rw [hone, div_one]
      simp only [insertColumns, hlower, hupper, InBounds, Option.mem_some_iff, forall_eq']
      constructor
      · rintro rfl
        exact ⟨(sub_self _).ge, (sub_self _).le⟩
      · rintro ⟨hge, hle⟩
        linarith)
  rw [← hlen]
  refine ⟨_, hlift, fun j hj => ?_⟩
  rw [shiftCol_of_lt (hl.emb_lt j hj)]
  exact h.layout.emb_eq j hj

end Less

/-- The columns that `add_artifical_variables` writes are as many as it makes room for just when
every range row is an equality row. -/
lemma artificialCount_iff (hwf : user.WellFormed) {equalityRows : List ℕ}
    (heq : equalityRows = (range user.numRows).filter fun i => user.rowSense i = .E) :
    ((equalityRows.filter fun i => i ∉ user.rangeRows).length : ℤ) =
        (equalityRows.length : ℤ) - user.rangeRows.length ↔
      ∀ i ∈ user.rangeRows, user.rowSense i = .E := by
  have hsplit : equalityRows.length = (equalityRows.filter fun i => i ∈ user.rangeRows).length +
      (equalityRows.filter fun i => i ∉ user.rangeRows).length := by
    rw [length_eq_length_filter_add fun i => decide (i ∈ user.rangeRows)]
    simp only [decide_not]
  -- the equality rows that are range rows are the range rows that are equality rows
  have hcommon : (equalityRows.filter fun i => i ∈ user.rangeRows).length =
      (user.rangeRows.filter fun i => user.rowSense i = .E).length := by
    refine Perm.length_eq ((perm_ext_iff_of_nodup ?_ ?_).mpr fun i => ?_)
    · rw [heq]
      exact (nodup_range.filter _).filter _
    · exact hwf.range_nodup.filter _
    · simp only [heq, mem_filter, mem_range, decide_eq_true_eq]
      constructor
      · exact fun h => ⟨h.2, h.1.2⟩
      · exact fun h => ⟨⟨hwf.range_lt i h.1, h.2⟩, h.1⟩
  have hall : (user.rangeRows.filter fun i => user.rowSense i = .E).length = user.rangeRows.length ↔
      ∀ i ∈ user.rangeRows, user.rowSense i = .E := by
    rw [length_filter_eq_length_iff]
    simp only [decide_eq_true_eq]
  rw [← hall]
  omega

end Stages

variable {settings : SimplexSolverSettings}

lemma convertUserProblem_eq (dualize : Dualization)
    (hdual : dualizes user settings (inequalityState user) = false) :
    convertUserProblem dualize user settings =
      let s := if 0 < (inequalityState user).lessRows then
        convertLessThanToEqual (inequalityState user) else inequalityState user
      if settings.barrierPresolve then some (s.problem, s.newSlacks)
      else addArtificalVariables s.problem user.rangeRows
        ((range user.numRows).filter fun i => user.rowSense i = .E) s.newSlacks := by
  simp only [convertUserProblem, hdual, Bool.false_eq_true, if_false]

/-- A conversion that succeeds leaves no row pending. -/
lemma convertUserProblem_lifted {dualize : Dualization} (hwf : user.WellFormed)
    (hdual : dualizes user settings (inequalityState user) = false)
    (hconvert : convertUserProblem dualize user settings = some (problem, newSlacks)) :
    ∃ emb sgn, Lifted user problem newSlacks emb sgn (fun i v => v = problem.rhs i) ∧
      ∀ j < user.numCols, userColToProblemCol user problem j = emb j := by
  obtain ⟨emb, sgn, hclosed⟩ := inequalityState_closed hwf
  rw [convertUserProblem_eq dualize hdual] at hconvert
  cases hpresolve : settings.barrierPresolve with
  | true =>
    rw [hpresolve, if_pos rfl] at hconvert
    cases hconvert
    exact ⟨emb, sgn, hclosed.lifted, hclosed.layout.emb_eq⟩
  | false =>
    rw [hpresolve, if_neg Bool.false_ne_true] at hconvert
    obtain ⟨emb', hlift, hemb⟩ := addArtificalVariables_lifted hclosed rfl hconvert
    exact ⟨emb', sgn, hlift, hemb⟩

/-- A conversion that succeeds is exact. -/
lemma convertUserProblem_exact {dualize : Dualization} (hwf : user.WellFormed)
    (hdual : dualizes user settings (inequalityState user) = false)
    (hconvert : convertUserProblem dualize user settings = some (problem, newSlacks)) :
    ExactConversion user problem newSlacks := by
  obtain ⟨emb, sgn, hlift, hemb⟩ := convertUserProblem_lifted hwf hdual hconvert
  exact hlift.exactConversion hemb

/-- Without dualizing, the conversion succeeds and is exact just when presolve is on or every range
row is an equality row. -/
theorem convertUserProblem_exact_iff (dualize : Dualization) (user : UserProblem)
    (settings : SimplexSolverSettings) (hwf : user.WellFormed)
    (hdual : dualizes user settings (inequalityState user) = false) :
    (∃ problem newSlacks, convertUserProblem dualize user settings = some (problem, newSlacks) ∧
        ExactConversion user problem newSlacks) ↔
      settings.barrierPresolve = true ∨ ∀ i ∈ user.rangeRows, user.rowSense i = .E := by
  have hcount := artificialCount_iff hwf rfl
  constructor
  · rintro ⟨problem, newSlacks, hadd, -⟩
    rw [convertUserProblem_eq dualize hdual] at hadd
    cases hpresolve : settings.barrierPresolve with
    | true => exact .inl rfl
    | false =>
      rw [hpresolve, if_neg Bool.false_ne_true, addArtificalVariables] at hadd
      exact .inr (hcount.mp (Option.ite_none_right_eq_some.mp hadd).1)
  · intro hor
    have hsome : ∃ result, convertUserProblem dualize user settings = some result := by
      rw [convertUserProblem_eq dualize hdual]
      cases hpresolve : settings.barrierPresolve with
      | true => exact ⟨_, if_pos rfl⟩
      | false =>
        have hall := hor.resolve_left (by rw [hpresolve]; exact Bool.false_ne_true)
        exact ⟨_, if_pos (hcount.mpr hall)⟩
    obtain ⟨⟨problem, newSlacks⟩, hconvert⟩ := hsome
    exact ⟨problem, newSlacks, hconvert, convertUserProblem_exact hwf hdual hconvert⟩

/-- Rows `x₀ + x₁ ≤ 4`, `x₀ ≥ 1` and `2 ≤ x₁ ≤ 3`, the last one an equality row with a range. -/
def mixedSenses : UserProblem where
  numRows := 3
  numCols := 2
  objective := fun _ => 1
  A := ⟨3, 2, fun j => if j = 0 then [(0, 1), (1, 1)] else [(0, 1), (2, 1)]⟩
  rhs := fun i => if i = 0 then 4 else if i = 1 then 1 else 2
  rowSense := fun i => if i = 0 then .L else if i = 1 then .G else .E
  lower := fun _ => some 0
  upper := fun _ => none
  ranges := [(2, 1)]
  objConstant := 0
  Q := ⟨0, 0, fun _ => []⟩
  coneVarStart := 0
  secondOrderConeDims := []

def rangedLess : UserProblem :=
  { mixedSenses with
    numRows := 2
    A := ⟨2, 2, fun j => if j = 0 then [(0, 1), (1, 1)] else [(1, 1)]⟩
    rhs := fun i => if i = 0 then 1 else 2
    rowSense := fun i => if i = 0 then .E else .L
    ranges := [(1, 1)] }

def simplexSettings : SimplexSolverSettings := ⟨false, false, false, 0, 0, 0⟩

lemma wellFormed_mixedSenses : mixedSenses.WellFormed where
  A_m := rfl
  A_n := rfl
  A_lt := by decide
  range_lt := by decide
  range_nodup := by decide
  Q_lt := fun h => absurd h (by decide)
  Q_nil := fun h => absurd h (by decide)
  cones := by decide

theorem mixedSenses_exact :
    ∃ problem newSlacks,
      convertUserProblem id mixedSenses simplexSettings = some (problem, newSlacks) ∧
        ExactConversion mixedSenses problem newSlacks :=
  (convertUserProblem_exact_iff id mixedSenses simplexSettings wellFormed_mixedSenses rfl).mpr
    (.inr (by decide))

lemma wellFormed_rangedLess : rangedLess.WellFormed where
  A_m := rfl
  A_n := rfl
  A_lt := by decide
  range_lt := by decide
  range_nodup := by decide
  Q_lt := fun h => absurd h (by decide)
  Q_nil := fun h => absurd h (by decide)
  cones := by decide

/-- Room is made for `1 - 1` artificial columns and one is written. -/
theorem rangedLess_not_exact :
    rangedLess.WellFormed ∧
      dualizes rangedLess simplexSettings (inequalityState rangedLess) = false ∧
      ¬ ∃ problem newSlacks,
        convertUserProblem id rangedLess simplexSettings = some (problem, newSlacks) ∧
          ExactConversion rangedLess problem newSlacks := by
  refine ⟨wellFormed_rangedLess, rfl, ?_⟩
  rintro ⟨problem, newSlacks, hconvert, -⟩
  have hnone : convertUserProblem id rangedLess simplexSettings = none := rfl
  rw [hnone] at hconvert
  cases hconvert

end CuOpt.Simplex
