import CuOpt.FeasibilityJump.ImpliedIntegers

/-! No optimum is lost to implied integers. What the propagation turns is integral at every feasible
point. A pair that is turned afterwards can be lowered together until one of the two is zero. -/

namespace CuOpt.FeasibilityJump

open List hiding range
open Cuts (dot_perm stdRound stdRound_intCast)
open Function (update update_of_ne update_self)
open QuadProgram (InBounds)
open SparseList
open Finset (range)

def Integral (v : ℚ) : Prop := ∃ k : ℤ, v = k

namespace Problem

def objective (p : Problem) (x : ℕ → ℚ) : ℚ := ∑ j ∈ range p.nVariables, p.objCoeffs j * x j

structure Feasible (p : Problem) (x : ℕ → ℚ) : Prop where
  rows : ∀ row < p.nConstraints, InBounds (p.cstrLb row) (p.cstrUb row) (dot (p.row row) x)
  bounds : ∀ j < p.nVariables, InBounds (p.lower j) (p.upper j) (x j)
  integral : ∀ j < p.nVariables, p.varTypes j = .integer → Integral (x j)

def Optimal (p : Problem) (x : ℕ → ℚ) : Prop :=
  p.Feasible x ∧ ∀ y, p.Feasible y → p.objective x ≤ p.objective y

/-- The second matrix is the transpose of the first. -/
structure WellFormed (p : Problem) : Prop where
  entry_lt : ∀ row < p.nConstraints, ∀ j ∈ keys (p.row row), j < p.nVariables
  row_lt : ∀ j < p.nVariables, ∀ row ∈ p.reverseConstraints j, row < p.nConstraints
  transposed : ∀ row < p.nConstraints, ∀ j < p.nVariables,
    (p.reverseConstraints j).count row = (keys (p.row row)).count j

end Problem

/-- A scaling that is found makes the row integral. -/
def ExactScaling (rowIntScale : List ℚ → ℚ → ℚ) : Prop :=
  ∀ coefs rhs, rowIntScale coefs rhs ≠ 0 → ∀ v ∈ rhs :: coefs, Integral (rowIntScale coefs rhs * v)

variable {rowIntScale : List ℚ → ℚ → ℚ} {p : Problem} {s : Detection} {row var r m : ℕ}
  {x : ℕ → ℚ} {scale pivotCoeff : ℚ}

namespace Detection

def potential (m : ℕ) (s : Detection) : ℕ :=
  s.pendingRows.length + {row ∈ range m | 2 ≤ s.nContinuousInRow row}.card

lemma countDown_count : (s.countDown r).nContinuousInRow row =
    s.nContinuousInRow row - [r].count row := by
  rw [count_singleton]
  by_cases hrow : row = r
  · subst hrow
    simp [countDown]
  · rw [if_neg (by simpa using Ne.symm hrow)]
    exact update_of_ne hrow _ _

/-- A row that becomes pending had two unknowns. -/
lemma countDown_potential (hr : r < m) : (s.countDown r).potential m ≤ s.potential m := by
  have hsub : {row ∈ range m | 2 ≤ (s.countDown r).nContinuousInRow row} ⊆
      {row ∈ range m | 2 ≤ s.nContinuousInRow row} := by
    intro row
    simp only [Finset.mem_filter, countDown_count]
    exact fun h => ⟨h.1, h.2.trans (Nat.sub_le ..)⟩
  by_cases htwo : s.nContinuousInRow r = 2
  · have hlt := Finset.card_lt_card (Finset.ssubset_iff_of_subset hsub |>.mpr ⟨r, by
      simp [hr, htwo, countDown_count]⟩)
    have hlength : (s.countDown r).pendingRows.length = s.pendingRows.length + 1 := by
      simp [countDown, htwo]
    rw [potential, potential]
    omega
  · have hpending : (s.countDown r).pendingRows = s.pendingRows := if_neg htwo
    rw [potential, potential, hpending]
    exact Nat.add_le_add_left (Finset.card_le_card hsub) _

lemma foldl_countDown (row m : ℕ) (s : Detection) (l : List ℕ) :
    (l.foldl countDown s).nContinuousInRow row = s.nContinuousInRow row - l.count row ∧
    (l.foldl countDown s).varTypes = s.varTypes ∧ (l.foldl countDown s).changedVars = s.changedVars ∧
    (∀ row ∈ (l.foldl countDown s).pendingRows, row ∈ s.pendingRows ∨ row ∈ l) ∧
    ((∀ r ∈ l, r < m) → (l.foldl countDown s).potential m ≤ s.potential m) := by
  induction l generalizing s with
  | nil => exact ⟨rfl, rfl, rfl, fun _ => Or.inl, fun _ => le_rfl⟩
  | cons r l ih =>
    obtain ⟨hcount, htypes, hchanged, hpending, hpotential⟩ := ih (s.countDown r)
    refine ⟨?_, htypes, hchanged, fun row hrow => ?_, fun hl => ?_⟩
    · rw [foldl_cons, hcount, countDown_count, Nat.sub_sub, ← count_append]
      rfl
    · rcases hpending row hrow with h | h
      · simp only [countDown] at h
        split_ifs at h
        · exact (mem_append.mp h).imp_right fun h => by simp [mem_singleton.mp h]
        · exact .inl h
      · exact .inr (mem_cons_of_mem _ h)
    · rw [forall_mem_cons] at hl
      exact (hpotential hl.2).trans (countDown_potential hl.1)

lemma length_turn (s : Detection) (h : s.varTypes var = .continuous) (l : List (ℕ × ℚ)) :
    ((s.turn var).continuousEntries l).length + (keys l).count var =
      (s.continuousEntries l).length := by
  induction l with
  | nil => rfl
  | cons e l ih =>
    simp only [continuousEntries, turn] at ih ⊢
    by_cases he : e.1 = var
    · simp [he, h, ← ih, add_assoc]
    · by_cases hc : s.varTypes e.1 = .continuous
      · simp [he, hc, ← ih]
        omega
      · simp [he, hc, ih]

lemma mem_continuousEntries {e : ℕ × ℚ} {l : List (ℕ × ℚ)} :
    e ∈ s.continuousEntries l ↔ e ∈ l ∧ s.varTypes e.1 = .continuous := by
  simp [continuousEntries]

/-- What a detection has turned. -/
structure Turned (p : Problem) (s : Detection) : Prop where
  types : ∀ j, s.varTypes j = .integer ↔ p.varTypes j = .integer ∨ j ∈ s.changedVars
  nodup : s.changedVars.Nodup
  continuous : ∀ j ∈ s.changedVars, j < p.nVariables ∧ p.varTypes j = .continuous

lemma Turned.turn (h : s.Turned p) (hlt : var < p.nVariables) (hvar : s.varTypes var = .continuous) :
    (s.turn var).Turned p := by
  have hnot : ¬ (p.varTypes var = .integer ∨ var ∈ s.changedVars) := by
    rw [← h.types, hvar]
    exact nofun
  rw [not_or] at hnot
  constructor
  case types =>
    intro j
    by_cases hj : j = var
    · subst hj
      simp [Detection.turn]
    · simpa [Detection.turn, update_of_ne hj, hj] using h.types j
  case nodup => exact nodup_append.mpr ⟨h.nodup, nodup_singleton _, by
    rintro a ha b hb rfl
    exact hnot.2 (mem_singleton.mp hb ▸ ha)⟩
  case continuous =>
    intro j hj
    rcases mem_append.mp hj with hj | hj
    · exact h.continuous j hj
    · rw [mem_singleton.mp hj]
      cases htype : p.varTypes var with
      | continuous => exact ⟨hlt, rfl⟩
      | integer => exact absurd htype hnot.1

lemma Turned.integral (h : s.Turned p) (hx : p.Feasible x) (hchanged : ∀ j ∈ s.changedVars, Integral (x j))
    {j : ℕ} (hj : j < p.nVariables) (htype : s.varTypes j ≠ .continuous) : Integral (x j) := by
  have hinteger : s.varTypes j = .integer := by
    cases h : s.varTypes j with
    | continuous => exact absurd h htype
    | integer => rfl
  exact ((h.types j).mp hinteger).elim (hx.integral j hj) (hchanged j)

end Detection

namespace Problem

lemma eq_of_isEquality (h : p.isEquality row = true) {rhs v : ℚ} (hrhs : p.cstrLb row = some rhs)
    (hv : InBounds (p.cstrLb row) (p.cstrUb row) v) : v = rhs := by
  simp only [isEquality, hrhs, Option.isSome_some, Bool.true_and, decide_eq_true_eq] at h
  rw [← h, hrhs] at hv
  exact le_antisymm (hv.2 rhs rfl) (hv.1 rhs rfl)

/-- The scaled row and its side are multiples of the pivot. -/
lemma impliedIntegerRowScale_spec (hexact : ExactScaling rowIntScale)
    (hscale : p.impliedIntegerRowScale rowIntScale row pivotCoeff = scale) (hne : scale ≠ 0)
    (hpivot : pivotCoeff ∈ (p.row row).map Prod.snd) :
    ∃ rhs, p.cstrLb row = some rhs ∧ pivotCoeff ≠ 0 ∧
      ∀ v ∈ rhs :: (p.row row).map Prod.snd, ∃ k : ℤ, v = pivotCoeff * k ∧
        (stdRound (scale * v) : ℚ) = scale * v := by
  unfold impliedIntegerRowScale at hscale
  split at hscale
  · exact absurd hscale.symm hne
  rename_i rhs hrhs
  dsimp only at hscale
  split_ifs at hscale with hbad
  · exact absurd hscale.symm hne
  simp only [not_or, not_not, any_eq_true, decide_eq_true_eq, not_exists, not_and] at hbad
  obtain ⟨-, hfound, hdivisor, hside, hcoefs⟩ := hbad
  have hround : ∀ v ∈ rhs :: (p.row row).map Prod.snd, (stdRound (scale * v) : ℚ) = scale * v := by
    intro v hv
    obtain ⟨k, hk⟩ := hexact _ _ hfound v hv
    rw [← hscale, hk, stdRound_intCast]
  rw [hscale] at hdivisor hside hcoefs
  have hpivotRound := hround _ (mem_cons_of_mem _ hpivot)
  refine ⟨rhs, hrhs, fun hzero => hdivisor ?_, fun v hv => ?_⟩
  · rw [hzero, mul_zero] at hpivotRound ⊢
    exact_mod_cast hpivotRound
  · have hdvd : stdRound (scale * pivotCoeff) ∣ stdRound (scale * v) := by
      rcases mem_cons.mp hv with rfl | hv
      · exact Int.dvd_of_tmod_eq_zero hside
      · obtain ⟨e, he, rfl⟩ := mem_map.mp hv
        exact Int.dvd_of_tmod_eq_zero (hcoefs e he)
    obtain ⟨k, hk⟩ := hdvd
    refine ⟨k, mul_left_cancel₀ hne ?_, hround v hv⟩
    rw [← mul_assoc, ← hpivotRound, ← hround v hv, hk, Int.cast_mul]

lemma exists_dot_eq {l : List (ℕ × ℚ)} (hl : ∀ e ∈ l, ∃ k : ℤ, e.2 = pivotCoeff * k)
    (hx : ∀ e ∈ l, Integral (x e.1)) : ∃ k : ℤ, dot l x = pivotCoeff * k := by
  induction l with
  | nil => exact ⟨0, by simp [dot]⟩
  | cons e l ih =>
    rw [forall_mem_cons] at hl hx
    obtain ⟨⟨a, ha⟩, b, hb⟩ := hl.1, hx.1
    obtain ⟨k, hk⟩ := ih hl.2 hx.2
    refine ⟨a * b + k, ?_⟩
    simp only [dot, map_cons, sum_cons] at hk ⊢
    rw [hk, ha, hb]
    push_cast
    ring

/-- The unknowns of the row make up a multiple of the pivot. -/
lemma dot_continuousEntries (hexact : ExactScaling rowIntScale) (hwf : p.WellFormed)
    (h : s.Turned p) (hrow : row < p.nConstraints) (heq : p.isEquality row = true)
    (hne : p.impliedIntegerRowScale rowIntScale row pivotCoeff ≠ 0)
    (hpivot : pivotCoeff ∈ (p.row row).map Prod.snd) (hx : p.Feasible x)
    (hchanged : ∀ j ∈ s.changedVars, Integral (x j)) :
    ∃ k : ℤ, dot (s.continuousEntries (p.row row)) x = pivotCoeff * k := by
  obtain ⟨rhs, hrhs, -, hmul⟩ := impliedIntegerRowScale_spec hexact rfl hne hpivot
  rw [forall_mem_cons] at hmul
  obtain ⟨⟨a, ha, -⟩, hcoefs⟩ := hmul
  set rest := (p.row row).filter fun e => !decide (s.varTypes e.1 = .continuous) with hrest
  have hsplit : dot (s.continuousEntries (p.row row)) x + dot rest x = rhs := by
    rw [← dot_append, ← eq_of_isEquality heq hrhs (hx.rows row hrow)]
    exact dot_perm (filter_append_perm ..) x
  obtain ⟨b, hb⟩ : ∃ k : ℤ, dot rest x = pivotCoeff * k := by
    refine exists_dot_eq (fun e he => ?_) fun e he => ?_
    · obtain ⟨k, hk, -⟩ := hcoefs e.2 (mem_map_of_mem (mem_filter.mp he).1)
      exact ⟨k, hk⟩
    · obtain ⟨hmem, htype⟩ := mem_filter.mp he
      exact h.integral hx hchanged (hwf.entry_lt row hrow e.1 (mem_map_of_mem hmem))
        (by simpa using htype)
  refine ⟨a - b, ?_⟩
  rw [Int.cast_sub, mul_sub, ← ha, ← hb]
  exact eq_sub_of_add_eq hsplit

end Problem

namespace Detection

structure Sound (p : Problem) (s : Detection) : Prop extends s.Turned p where
  counts : ∀ row < p.nConstraints, s.nContinuousInRow row =
    if p.isEquality row then (s.continuousEntries (p.row row)).length else 0
  pending : ∀ row ∈ s.pendingRows, row < p.nConstraints
  forced : ∀ x, p.Feasible x → ∀ j ∈ s.changedVars, Integral (x j)

lemma Sound.forceRow (hexact : ExactScaling rowIntScale) (hwf : p.WellFormed) (h : s.Sound p)
    (hrow : row < p.nConstraints) : (p.forceRow rowIntScale s row).Sound p := by
  unfold Problem.forceRow
  split
  · exact h
  rename_i var pivotCoeff hfind
  split_ifs with hforce
  swap
  · exact h
  obtain ⟨hone, hscale, -⟩ := hforce
  have hcont : s.varTypes var = .continuous := by simpa using find?_some hfind
  have hmem := mem_of_find?_eq_some hfind
  have hlt : var < p.nVariables := hwf.entry_lt row hrow var (mem_map_of_mem hmem)
  have hcount := h.counts row hrow
  rw [hone] at hcount
  have heq : p.isEquality row = true := by
    by_contra hnot
    rw [if_neg hnot] at hcount
    cases hcount
  rw [if_pos heq] at hcount
  obtain ⟨e, he⟩ := length_eq_one_iff.mp hcount.symm
  have hentry : s.continuousEntries (p.row row) = [(var, pivotCoeff)] := by
    have hmem' : (var, pivotCoeff) ∈ s.continuousEntries (p.row row) :=
      mem_continuousEntries.mpr ⟨hmem, hcont⟩
    rw [he, mem_singleton] at hmem'
    rw [he, hmem']
  have hturned := h.toTurned.turn hlt hcont
  set t := (p.reverseConstraints var).foldl countDown (s.turn var)
  have hspec := fun row => foldl_countDown row 0 (s.turn var) (p.reverseConstraints var)
  obtain ⟨-, htypes, hchanged, hpending, -⟩ := hspec 0
  refine ⟨⟨htypes ▸ hchanged ▸ hturned.types, hchanged ▸ hturned.nodup,
    hchanged ▸ hturned.continuous⟩, ?_, fun r hr => (hpending r hr).elim (h.pending r) (hwf.row_lt var hlt r),
    ?_⟩
  · intro r hr
    have hlength := length_turn s hcont (p.row r)
    have hsame : t.continuousEntries (p.row r) = (s.turn var).continuousEntries (p.row r) := by
      rw [continuousEntries, htypes]
      rfl
    rw [(hspec r).1, hwf.transposed r hr var hlt, hsame]
    show s.nContinuousInRow r - _ = _
    rw [h.counts r hr]
    split_ifs
    · omega
    · exact Nat.zero_sub _
  · rw [hchanged]
    intro x hx j hj
    rcases mem_append.mp hj with hj | hj
    · exact h.forced x hx j hj
    · obtain ⟨k, hk⟩ := Problem.dot_continuousEntries hexact hwf h.toTurned hrow heq hscale
        (mem_map_of_mem hmem) hx (h.forced x hx)
      obtain ⟨-, -, hpivot, -⟩ :=
        Problem.impliedIntegerRowScale_spec hexact rfl hscale (mem_map_of_mem hmem)
      rw [hentry, dot_singleton] at hk
      rw [mem_singleton.mp hj]
      exact ⟨k, mul_left_cancel₀ hpivot hk⟩

lemma forceRow_potential (hwf : p.WellFormed) (hrow : row < p.nConstraints) :
    (p.forceRow rowIntScale s row).potential p.nConstraints ≤ s.potential p.nConstraints := by
  unfold Problem.forceRow
  split
  · exact le_rfl
  rename_i var pivotCoeff hfind
  have hlt := hwf.entry_lt row hrow var (mem_map_of_mem (mem_of_find?_eq_some hfind))
  split_ifs
  · exact (foldl_countDown 0 _ (s.turn var) _).2.2.2.2 (hwf.row_lt var hlt)
  · exact le_rfl

/-- The worklist is empty in the end, since each row becomes pending at most once. -/
lemma propagate_sound (hexact : ExactScaling rowIntScale) (hwf : p.WellFormed) {fuel : ℕ}
    (h : s.Sound p) (hfuel : s.potential p.nConstraints ≤ fuel) :
    (p.propagate rowIntScale fuel s).Sound p ∧
      (p.propagate rowIntScale fuel s).pendingRows = [] := by
  induction fuel generalizing s with
  | zero =>
    have hempty : s.pendingRows.length = 0 := by
      rw [potential] at hfuel
      omega
    exact ⟨h, length_eq_zero_iff.mp hempty⟩
  | succ fuel ih =>
    rw [Problem.propagate]
    split
    · exact ⟨h, ‹_›⟩
    rename_i row pending hpending
    have hrow : row < p.nConstraints := h.pending row (by simp [hpending])
    have hpopped : Sound p { s with pendingRows := pending } :=
      ⟨⟨h.types, h.nodup, h.continuous⟩, h.counts, fun r hr => h.pending r (by simp [hpending, hr]),
        h.forced⟩
    refine ih (hpopped.forceRow hexact hwf hrow) ((forceRow_potential hwf hrow).trans ?_)
    simp only [potential, hpending, length_cons] at hfuel ⊢
    omega

lemma initial_sound (p : Problem) : p.initialDetection.Sound p where
  types _ := ⟨Or.inl, fun h => h.resolve_right not_mem_nil⟩
  nodup := nodup_nil
  continuous _ h := absurd h not_mem_nil
  counts _ _ := by
    rw [continuousEntries, ← countP_eq_length_filter]
    rfl
  pending _ h := mem_range.mp (mem_filter.mp h).1
  forced _ _ _ h := absurd h not_mem_nil

lemma initial_potential (p : Problem) :
    p.initialDetection.potential p.nConstraints ≤ p.nConstraints := by
  set count := p.initialDetection.nContinuousInRow with hcount
  have hpending : p.initialDetection.pendingRows.length =
      {row ∈ range p.nConstraints | count row = 1}.card := rfl
  rw [potential, hpending, ← Finset.card_union_of_disjoint]
  · exact (Finset.card_le_card (Finset.union_subset (Finset.filter_subset ..)
      (Finset.filter_subset ..))).trans (Finset.card_range _).le
  · refine Finset.disjoint_filter.mpr fun row _ hone htwo => ?_
    rw [← hcount, hone] at htwo
    cases htwo
    contradiction

/-- Every feasible point has one that is no worse and integral where it has to be. -/
structure Completed (p : Problem) (s : Detection) : Prop extends s.Turned p where
  counts : ∀ row < p.nConstraints, s.nContinuousInRow row ≠ 0 →
    p.isEquality row = true ∧ (s.continuousEntries (p.row row)).length ≤ s.nContinuousInRow row
  complete : ∀ x, p.Feasible x →
    ∃ y, p.Feasible y ∧ p.objective y ≤ p.objective x ∧ ∀ j ∈ s.changedVars, Integral (y j)

lemma Sound.completed (h : s.Sound p) : s.Completed p where
  toTurned := h.toTurned
  counts row hrow hne := by
    rw [h.counts row hrow] at hne ⊢
    split_ifs at hne ⊢ with heq
    · exact ⟨heq, le_rfl⟩
    · exact absurd rfl hne
  complete x hx := ⟨x, hx, le_rfl, h.forced x hx⟩

end Detection

namespace Problem

/-- Both variables of a pair are lowered by the smaller of the two. -/
def lowered (x : ℕ → ℚ) (a b : ℕ) : ℕ → ℚ :=
  fun j => if j = a ∨ j = b then x j - min (x a) (x b) else x j

variable {a b : ℕ}

lemma lowered_of_ne {j : ℕ} (ha : j ≠ a) (hb : j ≠ b) : lowered x a b j = x j :=
  if_neg (not_or.mpr ⟨ha, hb⟩)

lemma lowered_left : lowered x a b a = x a - min (x a) (x b) := if_pos (.inl rfl)

lemma lowered_right : lowered x a b b = x b - min (x a) (x b) := if_pos (.inr rfl)

lemma lowered_integral {k : ℤ} (h : x a - x b = k) :
    Integral (lowered x a b a) ∧ Integral (lowered x a b b) := by
  rw [lowered_left, lowered_right]
  rcases le_total (x a) (x b) with hle | hle
  · rw [min_eq_left hle, sub_self]
    exact ⟨⟨0, rfl⟩, -k, by rw [Int.cast_neg, ← h, neg_sub]⟩
  · rw [min_eq_right hle, sub_self]
    exact ⟨⟨k, h⟩, 0, rfl⟩

lemma objective_lowered (ha : 0 < p.objCoeffs a) (hb : 0 < p.objCoeffs b) (hxa : 0 ≤ x a)
    (hxb : 0 ≤ x b) : p.objective (lowered x a b) ≤ p.objective x := by
  refine Finset.sum_le_sum fun j _ => ?_
  have hmin : 0 ≤ min (x a) (x b) := le_min hxa hxb
  rw [lowered]
  split_ifs with hj
  · have hobj : 0 ≤ p.objCoeffs j := by rcases hj with rfl | rfl <;> exact le_of_lt ‹_›
    exact mul_le_mul_of_nonneg_left (sub_le_self _ hmin) hobj
  · exact le_rfl

lemma completable_spec (h : p.completable a = true) :
    (∃ r, p.reverseConstraints a = [r]) ∧ p.lower a = some 0 := by
  simp only [completable, Bool.and_eq_true, decide_eq_true_eq] at h
  exact ⟨length_eq_one_iff.mp h.1.1.1, h.1.1.2⟩

lemma notMem_of_completable (hwf : p.WellFormed) (h : p.completable a = true)
    (hrow : row < p.nConstraints) (ha : a ∈ keys (p.row row)) (hr : r < p.nConstraints)
    (hne : r ≠ row) : a ∉ keys (p.row r) := by
  have hlt := hwf.entry_lt row hrow a ha
  have hmem : ∀ r < p.nConstraints, a ∈ keys (p.row r) → r ∈ p.reverseConstraints a := by
    intro r hr hkey
    rw [← count_pos_iff, hwf.transposed r hr a hlt]
    exact count_pos_iff.mpr hkey
  obtain ⟨only, honly⟩ := (completable_spec h).1
  intro hkey
  have hfirst := hmem row hrow ha
  have hother := hmem r hr hkey
  rw [honly, mem_singleton] at hfirst hother
  exact hne (hother.trans hfirst.symm)

/-- A pair of which the row fixes the difference. -/
structure Pair (p : Problem) (row a b : ℕ) : Prop where
  row_lt : row < p.nConstraints
  left_mem : a ∈ keys (p.row row)
  right_mem : b ∈ keys (p.row row)
  left : p.completable a = true ∧ p.varTypes a = .continuous
  right : p.completable b = true ∧ p.varTypes b = .continuous
  fixed : ∀ x, dot (p.row row) (lowered x a b) = dot (p.row row) x

lemma Pair.nonneg (h : p.Pair row a b) (hwf : p.WellFormed) (hx : p.Feasible x) :
    0 ≤ x a ∧ 0 ≤ x b :=
  ⟨(hx.bounds a (hwf.entry_lt row h.row_lt a h.left_mem)).1 0 (completable_spec h.left.1).2,
    (hx.bounds b (hwf.entry_lt row h.row_lt b h.right_mem)).1 0 (completable_spec h.right.1).2⟩

lemma Pair.feasible (h : p.Pair row a b) (hwf : p.WellFormed) (hx : p.Feasible x) :
    p.Feasible (lowered x a b) := by
  obtain ⟨hxa, hxb⟩ := h.nonneg hwf hx
  constructor
  case rows =>
    intro r hr
    by_cases heq : r = row
    · rw [heq, h.fixed]
      exact hx.rows row h.row_lt
    · have hsame : dot (p.row r) (lowered x a b) = dot (p.row r) x := by
        refine congrArg sum (map_congr_left fun e he => ?_)
        have hkey : e.1 ∈ keys (p.row r) := mem_map_of_mem he
        rw [lowered_of_ne]
        · rintro rfl
          exact notMem_of_completable hwf h.left.1 h.row_lt h.left_mem hr heq hkey
        · rintro rfl
          exact notMem_of_completable hwf h.right.1 h.row_lt h.right_mem hr heq hkey
      rw [hsame]
      exact hx.rows r hr
  case bounds =>
    intro j hj
    have hbound := hx.bounds j hj
    have hmin : 0 ≤ min (x a) (x b) := le_min hxa hxb
    rw [lowered]
    split_ifs with hpair
    · have hlower : p.lower j = some 0 ∧ min (x a) (x b) ≤ x j := by
        rcases hpair with rfl | rfl
        · exact ⟨(completable_spec h.left.1).2, min_le_left ..⟩
        · exact ⟨(completable_spec h.right.1).2, min_le_right ..⟩
      refine ⟨?_, fun u hu => (sub_le_self _ hmin).trans (hbound.2 u hu)⟩
      rintro l hl
      rw [hlower.1] at hl
      cases hl
      exact sub_nonneg.mpr hlower.2
    · exact hbound
  case integral =>
    intro j hj htype
    rw [lowered_of_ne]
    · exact hx.integral j hj htype
    · rintro rfl
      cases htype.symm.trans h.left.2
    · rintro rfl
      cases htype.symm.trans h.right.2

end Problem

namespace Detection

lemma Completed.pairRow (hexact : ExactScaling rowIntScale) (hwf : p.WellFormed)
    (h : s.Completed p) (hrow : row < p.nConstraints) :
    (p.pairRow rowIntScale s row).Completed p := by
  unfold Problem.pairRow
  split
  swap
  · exact h
  rename_i a pa other others hentries
  dsimp only
  split_ifs with hpair
  swap
  · exact h
  obtain ⟨htwo, hne, hscale, hopposite, hcost, hsame, hleft, hright⟩ := hpair
  obtain ⟨heq, hlength⟩ := h.counts row hrow (by rw [htwo]; exact two_ne_zero)
  obtain rfl : others = [] := by
    rw [hentries, htwo] at hlength
    exact length_eq_zero_iff.mp (by simpa using hlength)
  obtain ⟨b, pb⟩ := other
  rw [getLastD_nil] at hne hopposite hsame hright ⊢
  have hmem : ∀ e ∈ [(a, pa), (b, pb)], e ∈ p.row row ∧ s.varTypes e.1 = .continuous :=
    fun e he => mem_continuousEntries.mp (hentries ▸ he)
  obtain ⟨hrowa, hconta : s.varTypes a = .continuous⟩ := hmem (a, pa) (by simp)
  obtain ⟨hrowb, hcontb : s.varTypes b = .continuous⟩ := hmem (b, pb) (by simp)
  have hlta := hwf.entry_lt row hrow a (mem_map_of_mem hrowa)
  have hltb := hwf.entry_lt row hrow b (mem_map_of_mem hrowb)
  have hb : (s.turn a).varTypes b = .continuous := (update_of_ne hne.symm _ _).trans hcontb
  have hturned := (h.toTurned.turn hlta hconta).turn hltb hb
  have hnotMem : ∀ {j}, j < p.nVariables → s.varTypes j = .continuous →
      p.varTypes j = .continuous ∧ j ∉ s.changedVars := by
    intro j hj hcont
    have hmem := (h.toTurned.turn hj hcont).nodup
    exact ⟨((h.toTurned.turn hj hcont).continuous j (by simp [turn])).2,
      fun hj => (nodup_append.mp hmem).2.2 j hj j (mem_singleton_self j) rfl⟩
  have hpivot : pa ∈ (p.row row).map Prod.snd := mem_map_of_mem hrowa
  have hminus : pb = -pa := by
    obtain ⟨_, -, -, hround⟩ := Problem.impliedIntegerRowScale_spec hexact rfl hscale hpivot
    obtain ⟨_, -, hpa⟩ := hround pa (mem_cons_of_mem _ hpivot)
    obtain ⟨_, -, hpb⟩ := hround pb (mem_cons_of_mem _ (mem_map_of_mem hrowb))
    refine mul_left_cancel₀ hscale ?_
    rw [← hpb, hopposite, Int.cast_neg, hpa, mul_neg]
  have hsplit : ∀ x : ℕ → ℚ, dot (p.row row) x = pa * (x a - x b) +
      dot ((p.row row).filter fun e => !decide (s.varTypes e.1 = .continuous)) x := by
    intro x
    have hdot : dot (s.continuousEntries (p.row row)) x = pa * (x a - x b) := by
      rw [hentries, hminus]
      simp only [dot, map_cons, map_nil, sum_cons, sum_nil]
      ring
    rw [← hdot, ← dot_append]
    exact dot_perm (filter_append_perm ..).symm x
  have hpair : p.Pair row a b := by
    refine ⟨hrow, mem_map_of_mem hrowa, mem_map_of_mem hrowb, ⟨hleft, (hnotMem hlta hconta).1⟩,
      ⟨hright, (hnotMem hltb hcontb).1⟩, fun x => ?_⟩
    rw [hsplit, hsplit, Problem.lowered_left, Problem.lowered_right, sub_sub_sub_cancel_right]
    refine congrArg _ (congrArg sum (map_congr_left fun e he => ?_))
    have htype : s.varTypes e.1 ≠ .continuous := by simpa using (mem_filter.mp he).2
    rw [Problem.lowered_of_ne]
    · exact fun h => htype (h ▸ hconta)
    · exact fun h => htype (h ▸ hcontb)
  constructor
  case toTurned => exact hturned
  case counts =>
    intro r hr hcount
    obtain ⟨heq, hle⟩ := h.counts r hr hcount
    have hfirst := length_turn s hconta (p.row r)
    have hsecond := length_turn (s.turn a) hb (p.row r)
    have hfewer : (((s.turn a).turn b).continuousEntries (p.row r)).length ≤ s.nContinuousInRow r := by
      omega
    exact ⟨heq, hfewer⟩
  case complete =>
    intro x hx
    obtain ⟨y, hy, hle, hint⟩ := h.complete x hx
    obtain ⟨k, hk⟩ :=
      Problem.dot_continuousEntries hexact hwf h.toTurned hrow heq hscale hpivot hy hint
    have hdiff : y a - y b = k := by
      obtain ⟨-, -, hne, -⟩ := Problem.impliedIntegerRowScale_spec hexact rfl hscale hpivot
      refine mul_left_cancel₀ hne (Eq.trans ?_ hk)
      rw [hentries, hminus]
      simp only [dot, map_cons, map_nil, sum_cons, sum_nil]
      ring
    obtain ⟨hya, hyb⟩ := hpair.nonneg hwf hy
    refine ⟨_, hpair.feasible hwf hy,
      (Problem.objective_lowered hcost (hsame ▸ hcost) hya hyb).trans hle, fun j hj => ?_⟩
    obtain ⟨hinta, hintb⟩ := Problem.lowered_integral hdiff
    simp only [turn, mem_append, mem_singleton] at hj
    obtain (hj | rfl) | rfl := hj
    · rw [Problem.lowered_of_ne]
      · exact hint j hj
      · exact fun h => (hnotMem hlta hconta).2 (h ▸ hj)
      · exact fun h => (hnotMem hltb hcontb).2 (h ▸ hj)
    · exact hinta
    · exact hintb

end Detection

namespace Problem

lemma propagation_sound (hexact : ExactScaling rowIntScale) (hwf : p.WellFormed) :
    (p.propagation rowIntScale).Sound p ∧ (p.propagation rowIntScale).pendingRows = [] :=
  Detection.propagate_sound hexact hwf (Detection.initial_sound p) (Detection.initial_potential p)

lemma detection_completed (hexact : ExactScaling rowIntScale) (hwf : p.WellFormed) :
    (p.detection rowIntScale).Completed p := by
  unfold detection
  split_ifs
  · exact (Detection.initial_sound p).completed
  · refine foldlRecOn _ _ (propagation_sound hexact hwf).1.completed fun s hs row hrow => ?_
    exact hs.pairRow hexact hwf (mem_range.mp hrow)

lemma feasible_detected (h : (p.detection rowIntScale).Turned p) (c : Start) :
    (p.detectImpliedIntegers rowIntScale c).1.Feasible x ↔
      p.Feasible x ∧ ∀ j ∈ (p.detection rowIntScale).changedVars, Integral (x j) := by
  constructor
  · intro hx
    exact ⟨⟨hx.rows, hx.bounds, fun j hj htype => hx.integral j hj ((h.types j).mpr (.inl htype))⟩,
      fun j hj => hx.integral j (h.continuous j hj).1 ((h.types j).mpr (.inr hj))⟩
  · rintro ⟨hx, hint⟩
    exact ⟨hx.rows, hx.bounds,
      fun j hj htype => ((h.types j).mp htype).elim (hx.integral j hj) (hint j)⟩

/-- No optimum is lost, and the optimal value stays. -/
theorem detectImpliedIntegers_exact (hexact : ExactScaling rowIntScale) (hwf : p.WellFormed)
    (c : Start) :
    (p.propagation rowIntScale).pendingRows = [] ∧
    (∀ j ∈ (p.propagation rowIntScale).changedVars, ∀ x, p.Feasible x → Integral (x j)) ∧
    (p.detection rowIntScale).changedVars.Nodup ∧
    (∀ j ∈ (p.detection rowIntScale).changedVars, p.varTypes j = .continuous) ∧
    (∀ j, (p.detectImpliedIntegers rowIntScale c).1.varTypes j = .integer ↔
      p.varTypes j = .integer ∨ j ∈ (p.detection rowIntScale).changedVars) ∧
    ((∃ x, p.Optimal x) → ∃ x, p.Optimal x ∧
      ∀ j ∈ (p.detection rowIntScale).changedVars, Integral (x j)) ∧
    ∀ v, (∃ x, p.Optimal x ∧ p.objective x = v) ↔
      ∃ x, (p.detectImpliedIntegers rowIntScale c).1.Optimal x ∧ p.objective x = v := by
  obtain ⟨hsound, hdone⟩ := propagation_sound (p := p) hexact hwf
  have h := detection_completed (p := p) hexact hwf
  have hoptimal : ∀ x, p.Optimal x → ∃ y, p.Optimal y ∧ p.objective y = p.objective x ∧
      ∀ j ∈ (p.detection rowIntScale).changedVars, Integral (y j) := by
    rintro x ⟨hx, hbest⟩
    obtain ⟨y, hy, hle, hint⟩ := h.complete x hx
    exact ⟨y, ⟨hy, fun z hz => hle.trans (hbest z hz)⟩, le_antisymm hle (hbest y hy), hint⟩
  refine ⟨hdone, fun j hj x hx => hsound.forced x hx j hj, h.nodup, fun j hj => (h.continuous j hj).2,
    h.types, ?_, fun v => ⟨?_, ?_⟩⟩
  · rintro ⟨x, hx⟩
    obtain ⟨y, hy, -, hint⟩ := hoptimal x hx
    exact ⟨y, hy, hint⟩
  · rintro ⟨x, hx, rfl⟩
    obtain ⟨y, hy, hvalue, hint⟩ := hoptimal x hx
    refine ⟨y, ⟨(feasible_detected h.toTurned c).mpr ⟨hy.1, hint⟩, fun z hz => ?_⟩, hvalue⟩
    exact hy.2 z ((feasible_detected h.toTurned c).mp hz).1
  · rintro ⟨x, ⟨hx, hbest⟩, rfl⟩
    refine ⟨x, ⟨((feasible_detected h.toTurned c).mp hx).1, fun y hy => ?_⟩, rfl⟩
    obtain ⟨z, hz, hle, hint⟩ := h.complete y hy
    exact (hbest z ((feasible_detected h.toTurned c).mpr ⟨hz, hint⟩)).trans hle

/-- The first row forces variable 1, and the second is left with the pair 2 and 3. -/
def chainedRows : Problem where
  nVariables := 4
  nConstraints := 2
  row := fun row => if row = 0 then [(0, 1), (1, 1)] else [(1, 2), (2, 2), (3, -2)]
  reverseConstraints := fun j => if j = 0 then [0] else if j = 1 then [0, 1] else [1]
  cstrLb := fun row => if row = 0 then some 3 else some 2
  cstrUb := fun row => if row = 0 then some 3 else some 2
  varTypes := fun j => if j = 0 then .integer else .continuous
  objCoeffs := fun j => if j < 2 then 0 else 1
  lower := fun _ => some 0
  upper := fun _ => some 5

def unitScale (coefs : List ℚ) (rhs : ℚ) : ℚ := if (rhs :: coefs).all fun v => v.den = 1 then 1 else 0

lemma unitScale_exact : ExactScaling unitScale := by
  intro coefs rhs hne v hv
  rw [unitScale] at hne ⊢
  split_ifs at hne ⊢ with hall
  · exact ⟨v.num, by rw [one_mul, Rat.coe_int_num_of_den_eq_one (by simpa using all_eq_true.mp hall v hv)]⟩
  · exact absurd rfl hne

def startZero : Start := ⟨fun _ => 0, fun _ => 0, fun _ => false, []⟩

theorem detectImpliedIntegers_exact_chainedRows :
    (chainedRows.propagation unitScale).changedVars = [1] ∧
    (chainedRows.detection unitScale).changedVars = [1, 2, 3] ∧
    ∀ v, (∃ x, chainedRows.Optimal x ∧ chainedRows.objective x = v) ↔
      ∃ x, (chainedRows.detectImpliedIntegers unitScale startZero).1.Optimal x ∧
        chainedRows.objective x = v := by
  have hwf : chainedRows.WellFormed := ⟨by decide, by decide, by decide⟩
  exact ⟨by decide +kernel, by decide +kernel,
    (detectImpliedIntegers_exact unitScale_exact hwf startZero).2.2.2.2.2.2⟩

end Problem

end CuOpt.FeasibilityJump
