import CuOpt.Presolve.SemiContinuousBounds

/-! The reformulation of semi-continuous variables is exact: its points restrict to the points of the
problem, and every point of the problem extends. The values that are appended to an assignment
extend it just when no variable with a binary is negative. -/

namespace CuOpt.Presolve

open SparseList QuadProgram Activities Activities.Extended List
open BufferWrites (getD_mapIdx)
open OptimizationProblem (rowBounds)
open Option (mem_some)

/-- The two linking rows with the binary `b` say that a variable is off or on. -/
lemma linked_iff {l u v b : ℚ} (hb : b = 0 ∨ b = 1) :
    l * b ≤ v ∧ v ≤ u * b ↔ b = 0 ∧ v = 0 ∨ b = 1 ∧ l ≤ v ∧ v ≤ u := by
  rcases hb with rfl | rfl
  · simp only [mul_zero, true_and, zero_ne_one, false_and, or_false]
    exact ⟨fun h => le_antisymm h.2 h.1, fun h => ⟨h.ge, h.le⟩⟩
  · simp only [mul_one, one_ne_zero, false_and, true_and, false_or]

lemma inBounds_some {l u v : ℚ} : InBounds (some l) (some u) v ↔ l ≤ v ∧ v ≤ u :=
  ⟨fun h => ⟨h.1 l rfl, h.2 u rfl⟩,
    fun h => ⟨fun _ hl => mem_some.mp hl ▸ h.1, fun _ hu => mem_some.mp hu ▸ h.2⟩⟩

lemma domainHolds_binary {v : ℚ} : DomainHolds .integer (some 0) (some 1) v ↔ v = 0 ∨ v = 1 := by
  constructor
  · rintro ⟨hbounds, z, rfl⟩
    obtain ⟨hlow, hhigh⟩ := inBounds_some.mp hbounds
    have hlow' : 0 ≤ z := Int.cast_nonneg_iff.mp hlow
    have hhigh' : z ≤ 1 := by exact_mod_cast hhigh
    have hcases : z = 0 ∨ z = 1 := by omega
    exact_mod_cast hcases
  · rintro (rfl | rfl)
    · exact ⟨inBounds_some.mpr ⟨le_rfl, zero_le_one⟩, 0, Int.cast_zero.symm⟩
    · exact ⟨inBounds_some.mpr ⟨zero_le_one, le_rfl⟩, 1, Int.cast_one.symm⟩

def Holds (p : OptimizationProblem) (y : ℕ → ℚ) : Prop := p.RowsHold y ∧ p.DomainsHold y

/-- The vectors of a state of the loop have their lengths; only the variables of `done` have changed
since `start`. -/
structure Reached (start : OptimizationProblem) (needs : ℕ → Bool) (done : List ℕ) (s : ScState) :
    Prop where
  numVars : s.problem.numVars = start.numVars
  varTypes : s.problem.varTypes.length = start.numVars
  varLower : s.problem.varLower.length = start.numVars
  varUpper : s.problem.varUpper.length = start.numVars
  lower : s.problem.constraintLower.length = s.problem.rows.length
  upper : s.problem.constraintUpper.length = s.problem.rows.length
  binaries : s.binaryToOriginal = done.filter needs
  types_eq : ∀ j, j ∉ done →
    s.problem.varTypes.getD j .continuous = start.varTypes.getD j .continuous
  lower_eq : ∀ j, j ∉ done → s.problem.varLower.getD j none = start.varLower.getD j none
  upper_eq : ∀ j, j ∉ done → s.problem.varUpper.getD j none = start.varUpper.getD j none

/-- What is known of a semi-continuous variable before its step: its bounds `l ≤ u`, and a tight
bound that is not above `u`. -/
structure ScData (start : OptimizationProblem) (needs : ℕ → Bool) (tight : List (Extended ℚ))
    (idx : ℕ) (l u : ℚ) : Prop where
  lt : idx < start.numVars
  type : start.varTypes.getD idx .continuous = .semiContinuous
  lower : start.varLower.getD idx none = some l
  upper : start.varUpper.getD idx none = some u
  le : l ≤ u
  needs_eq : needs idx = needsBinary (some l) (some u)
  tight_le : 0 ≤ u → ∀ w, tight.getD idx nan = finite w → w ≤ u

section Step

variable {start : OptimizationProblem} {needs : ℕ → Bool} {tight : List (Extended ℚ)}
  {done : List ℕ} {s : ScState} {idx nOrig : ℕ} {l u bigM : ℚ} {y : ℕ → ℚ}

lemma needsBinary_eq_false {l u : ℚ} : needsBinary (some l) (some u) = false ↔ l ≤ 0 ∧ 0 ≤ u := by
  simp [needsBinary]

lemma scUpper_le {e : Extended ℚ} (hle : 0 ≤ u → ∀ w, e = finite w → w ≤ u) :
    (scUpper bigM (some u) e).1 ≤ u := by
  unfold scUpper
  by_cases hu : 0 ≤ u
  · have hall : ∀ v ∈ some u, 0 ≤ v := fun v hv => mem_some.mp hv ▸ hu
    rw [if_pos hall]
    cases e with
    | finite w => exact hle hu w rfl
    | _ => exact le_rfl
  · have hall : ¬ ∀ v ∈ some u, 0 ≤ v := fun h => hu (h u rfl)
    rw [if_neg hall]
    exact le_rfl

/-- Below the original bound, and below the tight bound where that is used, means below `U`. -/
lemma le_scUpper (bigM : ℚ) {e : Extended ℚ} {v : ℚ} (hu : v ≤ u) (htight : 0 ≤ u → AtLeast e v) :
    v ≤ (scUpper bigM (some u) e).1 := by
  unfold scUpper
  by_cases hpos : 0 ≤ u
  · have hall : ∀ v ∈ some u, 0 ≤ v := fun v hv => mem_some.mp hv ▸ hpos
    rw [if_pos hall]
    cases e with
    | finite w => exact htight hpos
    | _ => exact hu
  · have hall : ¬ ∀ v ∈ some u, 0 ≤ v := fun h => hpos (h u rfl)
    rw [if_neg hall]
    exact hu

lemma rowsHold_append {p q : OptimizationProblem} {r₁ r₂ : List (ℕ × ℚ)}
    {a₁ a₂ b₁ b₂ : Option ℚ} (hlower : p.constraintLower.length = p.rows.length)
    (hupper : p.constraintUpper.length = p.rows.length) (hrows : q.rows = p.rows ++ [r₁, r₂])
    (hql : q.constraintLower = p.constraintLower ++ [a₁, a₂])
    (hqu : q.constraintUpper = p.constraintUpper ++ [b₁, b₂]) :
    q.RowsHold y ↔ p.RowsHold y ∧ InBounds a₁ b₁ (dot r₁ y) ∧ InBounds a₂ b₂ (dot r₂ y) := by
  have hold : ∀ i < p.rows.length, q.rowBounds i = p.rowBounds i ∧
      q.rows.getD i [] = p.rows.getD i [] := by
    intro i hi
    rw [rowBounds, rowBounds, hrows, hql, hqu,
      getD_append _ _ _ _ (hlower ▸ hi), getD_append _ _ _ _ (hupper ▸ hi), getD_append _ _ _ _ hi]
    exact ⟨rfl, rfl⟩
  have hnew : ∀ k, q.rowBounds (p.rows.length + k) = ([a₁, a₂].getD k none, [b₁, b₂].getD k none) ∧
      q.rows.getD (p.rows.length + k) [] = [r₁, r₂].getD k [] := by
    intro k
    rw [rowBounds, hrows, hql, hqu,
      getD_append_right _ _ _ _ (hlower ▸ Nat.le_add_right _ _),
      getD_append_right _ _ _ _ (hupper ▸ Nat.le_add_right _ _),
      getD_append_right _ _ _ _ (Nat.le_add_right _ _), hlower, hupper, Nat.add_sub_cancel_left]
    exact ⟨rfl, rfl⟩
  have hlen : q.rows.length = p.rows.length + 2 := by rw [hrows, length_append]; rfl
  unfold OptimizationProblem.RowsHold
  rw [hlen]
  constructor
  · intro h
    refine ⟨fun i hi => ?_, ?_, ?_⟩
    · have hrow := h i (by omega)
      rwa [(hold i hi).1, (hold i hi).2] at hrow
    · have hrow := h (p.rows.length + 0) (by omega)
      rwa [(hnew 0).1, (hnew 0).2] at hrow
    · have hrow := h (p.rows.length + 1) (by omega)
      rwa [(hnew 1).1, (hnew 1).2] at hrow
  · rintro ⟨hrows', h₁, h₂⟩ i hi
    rcases Nat.lt_or_ge i p.rows.length with hlt | hge
    · rw [(hold i hlt).1, (hold i hlt).2]
      exact hrows' i hlt
    · obtain ⟨k, rfl⟩ := Nat.exists_eq_add_of_le hge
      rw [(hnew k).1, (hnew k).2]
      have hk : k = 0 ∨ k = 1 := by omega
      rcases hk with rfl | rfl
      · exact h₁
      · exact h₂

lemma domainsHold_iff (p : OptimizationProblem) (hidx : idx < p.numVars) : p.DomainsHold y ↔
    (∀ j < p.numVars, j ≠ idx → DomainHolds (p.varTypes.getD j .continuous)
      (p.varLower.getD j none) (p.varUpper.getD j none) (y j)) ∧
    DomainHolds (p.varTypes.getD idx .continuous) (p.varLower.getD idx none)
      (p.varUpper.getD idx none) (y idx) := by
  constructor
  · exact fun h => ⟨fun j hj _ => h j hj, h idx hidx⟩
  · rintro ⟨hothers, hown⟩ j hj
    by_cases heq : j = idx
    · exact heq ▸ hown
    · exact hothers j hj heq

lemma domainsHold_set {p q : OptimizationProblem} (hidx : idx < p.numVars) {t : VarT}
    (lower upper : Option ℚ) (hn : q.numVars = p.numVars)
    (ht : q.varTypes.getD idx .continuous = t ∧
      ∀ j, j ≠ idx → q.varTypes.getD j .continuous = p.varTypes.getD j .continuous)
    (hl : q.varLower.getD idx none = lower ∧
      ∀ j, j ≠ idx → q.varLower.getD j none = p.varLower.getD j none)
    (hu : q.varUpper.getD idx none = upper ∧
      ∀ j, j ≠ idx → q.varUpper.getD j none = p.varUpper.getD j none) :
    q.DomainsHold y ↔
      (∀ j < p.numVars, j ≠ idx → DomainHolds (p.varTypes.getD j .continuous)
        (p.varLower.getD j none) (p.varUpper.getD j none) (y j)) ∧
      DomainHolds t lower upper (y idx) := by
  rw [domainsHold_iff q (hn ▸ hidx), ht.1, hl.1, hu.1, hn]
  refine and_congr_left fun _ => forall_congr' fun j => forall_congr' fun _ => forall_congr' fun hne => ?_
  rw [ht.2 j hne, hl.2 j hne, hu.2 j hne]

lemma getD_set_self_and {α : Type} (list : List α) (v d : α) (hidx : idx < list.length) :
    (list.set idx v).getD idx d = v ∧ ∀ j, j ≠ idx → (list.set idx v).getD j d = list.getD j d := by
  constructor
  · rw [BufferWrites.getD_set, if_pos ⟨rfl, hidx⟩]
  · intro j hne
    rw [BufferWrites.getD_set, if_neg fun h => hne h.1.symm]

lemma dot_link (a : ℚ) (b : ℕ) : dot [(idx, 1), (b, -a)] y = y idx - a * y b := by
  simp only [dot, map_cons, map_nil, sum_cons, sum_nil]
  ring

section

variable (hs : Reached start needs done s) (hd : ScData start needs tight idx l u)
  (hnot : idx ∉ done)
include hs hd hnot

lemma holds_before : Holds s.problem y ↔ s.problem.RowsHold y ∧
      (∀ j < start.numVars, j ≠ idx → DomainHolds (s.problem.varTypes.getD j .continuous)
        (s.problem.varLower.getD j none) (s.problem.varUpper.getD j none) (y j)) ∧
      (y idx = 0 ∨ l ≤ y idx ∧ y idx ≤ u) := by
  rw [Holds, domainsHold_iff _ (hs.numVars ▸ hd.lt), hs.types_eq idx hnot, hs.lower_eq idx hnot,
    hs.upper_eq idx hnot, hd.type, hd.lower, hd.upper, hs.numVars, ← inBounds_some]
  exact .rfl

lemma holds_step_plain (hneeds : needs idx = false) :
    Holds (reformulateVariable nOrig bigM tight needs s idx).problem y ↔ s.problem.RowsHold y ∧
      (∀ j < start.numVars, j ≠ idx → DomainHolds (s.problem.varTypes.getD j .continuous)
        (s.problem.varLower.getD j none) (s.problem.varUpper.getD j none) (y j)) ∧
      (l ≤ y idx ∧ y idx ≤ u) := by
  have hlt : idx < s.problem.numVars := hs.numVars ▸ hd.lt
  set q := (reformulateVariable nOrig bigM tight needs s idx).problem with hq
  rw [reformulateVariable, if_neg (by rw [hneeds]; exact Bool.false_ne_true)] at hq
  have hdomains := domainsHold_set (p := s.problem) (q := q) (y := y) (t := .continuous) hlt
    (some l) (some u) (by rw [hq]) (by rw [hq]; exact getD_set_self_and _ _ _ (hs.varTypes ▸ hd.lt))
    (by rw [hq]; exact ⟨(hs.lower_eq idx hnot).trans hd.lower, fun _ _ => rfl⟩)
    (by rw [hq]; exact ⟨(hs.upper_eq idx hnot).trans hd.upper, fun _ _ => rfl⟩)
  have hrows : q.RowsHold y ↔ s.problem.RowsHold y := by
    rw [hq]
    exact .rfl
  rw [Holds, hrows, hdomains, hs.numVars, ← inBounds_some]
  exact .rfl

lemma holds_step_binary (hneeds : needs idx = true) :
    Holds (reformulateVariable nOrig bigM tight needs s idx).problem y ↔ s.problem.RowsHold y ∧
      (∀ j < start.numVars, j ≠ idx → DomainHolds (s.problem.varTypes.getD j .continuous)
        (s.problem.varLower.getD j none) (s.problem.varUpper.getD j none) (y j)) ∧
      (l * y (nOrig + (done.filter needs).length) ≤ y idx ∧
        y idx ≤ (scUpper bigM (some u) (tight.getD idx nan)).1 *
          y (nOrig + (done.filter needs).length)) ∧
      min 0 l ≤ y idx ∧ y idx ≤ max 0 (scUpper bigM (some u) (tight.getD idx nan)).1 := by
  have hlt : idx < s.problem.numVars := hs.numVars ▸ hd.lt
  have hlower : (s.problem.varLower.getD idx none).getD 0 = l := by
    rw [hs.lower_eq idx hnot, hd.lower]
    rfl
  have hupper : s.problem.varUpper.getD idx none = some u :=
    (hs.upper_eq idx hnot).trans hd.upper
  set q := (reformulateVariable nOrig bigM tight needs s idx).problem with hq
  rw [reformulateVariable, if_pos hneeds, hlower, hupper, hs.binaries] at hq
  dsimp only at hq
  have hrows := rowsHold_append (p := s.problem) (q := q) (y := y) hs.lower hs.upper
    (by rw [hq]) (by rw [hq]) (by rw [hq])
  have hdomains := domainsHold_set (p := s.problem) (q := q) (y := y) hlt _ _
    (by rw [hq]) (by rw [hq]; exact getD_set_self_and _ _ _ (hs.varTypes ▸ hd.lt))
    (by rw [hq]; exact getD_set_self_and _ _ _ (hs.varLower ▸ hd.lt))
    (by rw [hq]; exact getD_set_self_and _ _ _ (hs.varUpper ▸ hd.lt))
  have hfirst : ∀ v : ℚ, InBounds (some 0) none v ↔ 0 ≤ v :=
    fun v => ⟨fun h => h.1 0 rfl, fun h => ⟨fun _ h' => mem_some.mp h' ▸ h,
      fun _ h' => absurd h' (Option.not_mem_none _)⟩⟩
  have hsecond : ∀ v : ℚ, InBounds none (some 0) v ↔ v ≤ 0 :=
    fun v => ⟨fun h => h.2 0 rfl, fun h => ⟨fun _ h' => absurd h' (Option.not_mem_none _),
      fun _ h' => mem_some.mp h' ▸ h⟩⟩
  rw [Holds, hrows, hdomains, hfirst, hsecond, dot_link, dot_link, sub_nonneg, sub_nonpos, hs.numVars]
  change (_ ∧ _ ∧ _) ∧ _ ∧ InBounds _ _ _ ↔ _
  rw [inBounds_some]
  tauto

end

lemma filter_append_singleton (needs : ℕ → Bool) (done : List ℕ) (idx : ℕ) :
    (done ++ [idx]).filter needs = done.filter needs ++ if needs idx then [idx] else [] := by
  rw [filter_append, filter_singleton]
  cases needs idx <;> rfl

lemma reached_step (hs : Reached start needs done s) (hd : ScData start needs tight idx l u) :
    Reached start needs (done ++ [idx]) (reformulateVariable nOrig bigM tight needs s idx) := by
  have hother : ∀ j, j ∉ done ++ [idx] → j ∉ done ∧ j ≠ idx := by
    intro j hj
    rw [mem_append, mem_singleton, not_or] at hj
    exact hj
  have hfilter := filter_append_singleton needs done idx
  have htypes := getD_set_self_and s.problem.varTypes .continuous .continuous (hs.varTypes ▸ hd.lt)
  cases hneeds : needs idx with
  | false =>
    rw [reformulateVariable, hneeds, if_neg Bool.false_ne_true]
    refine ⟨hs.numVars, ?_, hs.varLower, hs.varUpper, hs.lower, hs.upper, ?_, fun j hj => ?_,
      fun j hj => hs.lower_eq j (hother j hj).1, fun j hj => hs.upper_eq j (hother j hj).1⟩
    · exact List.length_set.trans hs.varTypes
    · rw [hfilter, hneeds, if_neg Bool.false_ne_true, append_nil]
      exact hs.binaries
    · exact (htypes.2 j (hother j hj).2).trans (hs.types_eq j (hother j hj).1)
  | true =>
    rw [reformulateVariable, hneeds, if_pos rfl]
    refine ⟨hs.numVars, ?_, ?_, ?_, ?_, ?_, ?_, fun j hj => ?_, fun j hj => ?_, fun j hj => ?_⟩
    · exact List.length_set.trans hs.varTypes
    · exact List.length_set.trans hs.varLower
    · exact List.length_set.trans hs.varUpper
    · dsimp only
      rw [length_append, length_append, hs.lower]
      rfl
    · dsimp only
      rw [length_append, length_append, hs.upper]
      rfl
    · dsimp only
      rw [hfilter, hneeds, if_pos rfl, hs.binaries]
    · exact (htypes.2 j (hother j hj).2).trans (hs.types_eq j (hother j hj).1)
    · exact ((getD_set_self_and s.problem.varLower _ none (hs.varLower ▸ hd.lt)).2 j
        (hother j hj).2).trans (hs.lower_eq j (hother j hj).1)
    · exact ((getD_set_self_and s.problem.varUpper _ none (hs.varUpper ▸ hd.lt)).2 j
        (hother j hj).2).trans (hs.upper_eq j (hother j hj).1)

end Step

structure BinaryTail (start : OptimizationProblem) (nOrig nb : ℕ) : Prop where
  numVars : start.numVars = nOrig + nb
  types : ∀ k < nb, start.varTypes.getD (nOrig + k) .continuous = .integer
  lower : ∀ k < nb, start.varLower.getD (nOrig + k) none = some 0
  upper : ∀ k < nb, start.varUpper.getD (nOrig + k) none = some 1

structure Loop (start : OptimizationProblem) (needs : ℕ → Bool) (tight : List (Extended ℚ))
    (nOrig nb : ℕ) (done : List ℕ) : Prop where
  nodup : done.Nodup
  lt : ∀ idx ∈ done, idx < nOrig
  data : ∀ idx ∈ done, ∃ l u, ScData start needs tight idx l u
  count : (done.filter needs).length ≤ nb

section Run

variable {start : OptimizationProblem} {needs : ℕ → Bool} {tight : List (Extended ℚ)}
  {nOrig nb : ℕ} {bigM : ℚ} {y : ℕ → ℚ} {done : List ℕ} {idx : ℕ} {s₀ : ScState}

lemma Loop.init (h : Loop start needs tight nOrig nb (done ++ [idx])) :
    Loop start needs tight nOrig nb done where
  nodup := (nodup_append.mp h.nodup).1
  lt := fun j hj => h.lt j (mem_append_left _ hj)
  data := fun j hj => h.data j (mem_append_left _ hj)
  count := by
    have hcount := h.count
    rw [filter_append_singleton, length_append] at hcount
    omega

lemma Loop.last (h : Loop start needs tight nOrig nb (done ++ [idx])) :
    idx ∉ done ∧ idx < nOrig ∧ (∃ l u, ScData start needs tight idx l u) ∧
      (needs idx = true → (done.filter needs).length < nb) := by
  have hmem : idx ∈ done ++ [idx] := mem_append_right _ mem_cons_self
  refine ⟨?_, h.lt idx hmem, h.data idx hmem, fun hneeds => ?_⟩
  · intro hdone
    exact (nodup_append.mp h.nodup).2.2 idx hdone idx mem_cons_self rfl
  · have hcount := h.count
    rw [filter_append_singleton, hneeds, if_pos rfl, length_append, length_singleton] at hcount
    omega

def stateAfter (nOrig : ℕ) (bigM : ℚ) (tight : List (Extended ℚ)) (needs : ℕ → Bool)
    (s₀ : ScState) (done : List ℕ) : ScState :=
  done.foldl (reformulateVariable nOrig bigM tight needs) s₀

lemma stateAfter_append :
    stateAfter nOrig bigM tight needs s₀ (done ++ [idx]) =
      reformulateVariable nOrig bigM tight needs (stateAfter nOrig bigM tight needs s₀ done) idx :=
  foldl_append ..

lemma stateAfter_reached (bigM : ℚ) (hs₀ : Reached start needs [] s₀)
    (h : Loop start needs tight nOrig nb done) :
    Reached start needs done (stateAfter nOrig bigM tight needs s₀ done) := by
  induction done using reverseRecOn with
  | nil => exact hs₀
  | append_singleton done idx ih =>
    obtain ⟨-, -, ⟨l, u, hd⟩, -⟩ := h.last
    rw [stateAfter_append]
    exact reached_step (ih h.init) hd

lemma BinaryTail.binary (htail : BinaryTail start nOrig nb) {s : ScState}
    (hs : Reached start needs done s) (hdone : ∀ j ∈ done, j < nOrig) {k : ℕ} (hk : k < nb) :
    DomainHolds (s.problem.varTypes.getD (nOrig + k) .continuous)
      (s.problem.varLower.getD (nOrig + k) none) (s.problem.varUpper.getD (nOrig + k) none)
      (y (nOrig + k)) ↔ y (nOrig + k) = 0 ∨ y (nOrig + k) = 1 := by
  have hnot : nOrig + k ∉ done := fun hmem => absurd (hdone _ hmem) (by omega)
  rw [hs.types_eq _ hnot, hs.lower_eq _ hnot, hs.upper_eq _ hnot, htail.types k hk,
    htail.lower k hk, htail.upper k hk]
  exact domainHolds_binary

def OffIsZero (needs : ℕ → Bool) (nOrig : ℕ) (y : ℕ → ℚ) (done : List ℕ) : Prop :=
  ∀ k idx, (done.filter needs)[k]? = some idx → y (nOrig + k) = 0 → y idx = 0

/-- A point of a later state is a point of the first one. -/
lemma stateAfter_down (htail : BinaryTail start nOrig nb) (hs₀ : Reached start needs [] s₀)
    (h : Loop start needs tight nOrig nb done)
    (hy : Holds (stateAfter nOrig bigM tight needs s₀ done).problem y) :
    Holds s₀.problem y ∧ OffIsZero needs nOrig y done := by
  induction done using reverseRecOn with
  | nil => exact ⟨hy, nofun⟩
  | append_singleton done idx ih =>
    obtain ⟨hnot, hlt, ⟨l, u, hd⟩, hcount⟩ := h.last
    have hs := stateAfter_reached bigM hs₀ h.init
    rw [stateAfter_append] at hy
    cases hneeds : needs idx with
    | false =>
      obtain ⟨hrows, hothers, hown⟩ := (holds_step_plain hs hd hnot hneeds).mp hy
      obtain ⟨hstart, hoff⟩ := ih h.init ((holds_before hs hd hnot).mpr ⟨hrows, hothers, .inr hown⟩)
      refine ⟨hstart, ?_⟩
      rw [OffIsZero, filter_append_singleton, hneeds, if_neg Bool.false_ne_true, append_nil]
      exact hoff
    | true =>
      obtain ⟨hrows, hothers, hlink, -⟩ := (holds_step_binary hs hd hnot hneeds).mp hy
      have hb : y (nOrig + (done.filter needs).length) = 0 ∨
          y (nOrig + (done.filter needs).length) = 1 := by
        rw [← htail.binary hs h.init.lt (hcount hneeds)]
        apply hothers
        · rw [htail.numVars]
          exact Nat.add_lt_add_left (hcount hneeds) _
        · omega
      rw [linked_iff hb] at hlink
      have hown : y idx = 0 ∨ l ≤ y idx ∧ y idx ≤ u := by
        rcases hlink with ⟨-, hzero⟩ | ⟨-, hlow, hhigh⟩
        · exact .inl hzero
        · exact .inr ⟨hlow, hhigh.trans (scUpper_le hd.tight_le)⟩
      obtain ⟨hstart, hoff⟩ := ih h.init ((holds_before hs hd hnot).mpr ⟨hrows, hothers, hown⟩)
      refine ⟨hstart, fun k idx' hk hzero => ?_⟩
      rw [filter_append_singleton, hneeds, if_pos rfl] at hk
      rcases Nat.lt_trichotomy k (done.filter needs).length with hless | heq | hmore
      · rw [getElem?_append_left hless] at hk
        exact hoff k idx' hk hzero
      · rw [heq, getElem?_concat_length, Option.some.injEq] at hk
        rw [heq] at hzero
        rcases hlink with ⟨-, hvalue⟩ | ⟨hone, -⟩
        · exact hk ▸ hvalue
        · exact absurd (hzero.symm.trans hone) zero_ne_one
      · rw [getElem?_eq_none (by rw [length_append, length_singleton]; omega)] at hk
        cases hk

def Indicates (needs : ℕ → Bool) (nOrig : ℕ) (y : ℕ → ℚ) (done : List ℕ) : Prop :=
  ∀ k idx, (done.filter needs)[k]? = some idx →
    y (nOrig + k) = 0 ∧ y idx = 0 ∨ y (nOrig + k) = 1 ∧ y idx ≠ 0

lemma Indicates.init (h : Indicates needs nOrig y (done ++ [idx])) :
    Indicates needs nOrig y done := by
  intro k idx' hk
  apply h k idx'
  rw [filter_append_singleton]
  have hlt := (List.getElem?_eq_some_iff.mp hk).1
  rwa [getElem?_append_left hlt]

/-- With the binaries set to what the variables are, a point of the first state is one of the
later state. -/
lemma stateAfter_up (hs₀ : Reached start needs [] s₀)
    (h : Loop start needs tight nOrig nb done) (hy : Holds s₀.problem y)
    (htight : ∀ idx ∈ done, (∀ u, start.varUpper.getD idx none = some u → 0 ≤ u →
      AtLeast (tight.getD idx nan) (y idx))) (hind : Indicates needs nOrig y done) :
    Holds (stateAfter nOrig bigM tight needs s₀ done).problem y := by
  induction done using reverseRecOn with
  | nil => exact hy
  | append_singleton done idx ih =>
    obtain ⟨hnot, -, ⟨l, u, hd⟩, -⟩ := h.last
    have hs := stateAfter_reached bigM hs₀ h.init
    have hbefore := ih h.init (fun j hj => htight j (mem_append_left _ hj)) hind.init
    obtain ⟨hrows, hothers, hown⟩ := (holds_before hs hd hnot).mp hbefore
    rw [stateAfter_append]
    cases hneeds : needs idx with
    | false =>
      have hzero : l ≤ 0 ∧ 0 ≤ u := by
        rw [← needsBinary_eq_false, ← hd.needs_eq, hneeds]
      refine (holds_step_plain hs hd hnot hneeds).mpr ⟨hrows, hothers, ?_⟩
      rcases hown with hoff | hon
      · rw [hoff]
        exact hzero
      · exact hon
    | true =>
      have hbinary := hind (done.filter needs).length idx (by
        rw [filter_append_singleton, hneeds, if_pos rfl, getElem?_concat_length])
      have hupper : 0 ≤ u → AtLeast (tight.getD idx nan) (y idx) :=
        htight idx (mem_append_right _ mem_cons_self) u hd.upper
      refine (holds_step_binary hs hd hnot hneeds).mpr ⟨hrows, hothers, ?_⟩
      rcases hbinary with ⟨hb, hoff⟩ | ⟨hb, hon⟩
      · rw [hb, hoff, mul_zero, mul_zero]
        exact ⟨⟨le_rfl, le_rfl⟩, min_le_left _ _, le_max_left _ _⟩
      · obtain ⟨hlow, hhigh⟩ := hown.resolve_left hon
        have hle := le_scUpper bigM hhigh hupper
        rw [hb, mul_one, mul_one]
        exact ⟨⟨hlow, hle⟩, (min_le_right _ _).trans hlow, hle.trans (le_max_right _ _)⟩

end Run

namespace OptimizationProblem

variable {p : OptimizationProblem} {y : ℕ → ℚ}

/-- Semi-continuous variables have a domain `[l, u]`, with `u` below the infinity threshold. -/
def FiniteDomains (p : OptimizationProblem) : Prop :=
  ∀ j < p.numVars, p.varTypes.getD j .continuous = .semiContinuous →
    ∃ l u, p.varLower.getD j none = some l ∧ p.varUpper.getD j none = some u ∧ l ≤ u ∧
      u < scInfinityThreshold

lemma ensure_fields (p : OptimizationProblem) :
    p.ensureConstraintBoundsPopulated.numVars = p.numVars ∧
      p.ensureConstraintBoundsPopulated.rows = p.rows ∧
      p.ensureConstraintBoundsPopulated.varTypes = p.varTypes ∧
      p.ensureConstraintBoundsPopulated.varLower = p.varLower ∧
      p.ensureConstraintBoundsPopulated.varUpper = p.varUpper := by
  unfold ensureConstraintBoundsPopulated
  split_ifs <;> exact ⟨rfl, rfl, rfl, rfl, rfl⟩

/-- The bounds of the rows depend on the row vectors only. -/
lemma ensure_rowsHold_congr {q : OptimizationProblem} (hrows : q.rows = p.rows)
    (hl : q.constraintLower = p.constraintLower) (hu : q.constraintUpper = p.constraintUpper)
    (ht : q.rowTypes = p.rowTypes) (hb : q.constraintBounds = p.constraintBounds) :
    q.ensureConstraintBoundsPopulated.RowsHold y ↔ p.ensureConstraintBoundsPopulated.RowsHold y := by
  obtain ⟨n, obj, offset, rows, lower, upper, types, bounds, vars, vl, vu⟩ := p
  obtain ⟨n', obj', offset', rows', lower', upper', types', bounds', vars', vl', vu'⟩ := q
  dsimp only at hrows hl hu ht hb
  subst hrows hl hu ht hb
  unfold ensureConstraintBoundsPopulated
  split_ifs <;> exact .rfl

lemma ensure_lengths (hwf : p.WellFormed) :
    p.ensureConstraintBoundsPopulated.constraintLower.length = p.rows.length ∧
      p.ensureConstraintBoundsPopulated.constraintUpper.length = p.rows.length := by
  unfold ensureConstraintBoundsPopulated
  split_ifs with hpopulated hempty
  · rcases hwf.bounds with hlen | ⟨hl, hu, -⟩
    · exact hlen
    · exact absurd hpopulated (by rw [hl, hu]; simp)
  · rcases hwf.bounds with hlen | ⟨hl, hu, ht, hb⟩
    · exact hlen
    · have hzero : p.rows.length = 0 := by
        rcases hempty with h | h
        · rw [← ht, h, length_nil]
        · rw [← hb, h, length_nil]
      rw [hl, hu, hzero]
      exact ⟨rfl, rfl⟩
  · dsimp only
    rw [length_map, length_map, length_zipWith]
    rcases hwf.bounds with hlen | ⟨-, -, ht, hb⟩
    · -- vectors of bounds that are empty belong to a problem without rows
      rw [not_or, not_not, not_not] at hpopulated
      have hzero : p.rows.length = 0 := by rw [← hlen.1, hpopulated.1, length_nil]
      rcases hwf.rowTypes with hnil | htypes
      · exact absurd (.inl hnil) hempty
      · rw [htypes, hzero]
        exact ⟨by omega, by omega⟩
    · rw [ht, hb]
      exact ⟨min_self _, min_self _⟩

lemma ensure_rowsHold (hl : p.constraintLower.length = p.rows.length) :
    p.ensureConstraintBoundsPopulated.RowsHold y ↔ p.RowsHold y := by
  by_cases hpopulated : p.constraintLower ≠ [] ∨ p.constraintUpper ≠ []
  · rw [ensureConstraintBoundsPopulated, if_pos hpopulated]
  · rw [not_or, not_not, not_not] at hpopulated
    have hzero : p.rows.length = 0 := by rw [← hl, hpopulated.1, length_nil]
    have hrows := (ensure_fields p).2.1
    constructor
    · exact fun _ i hi => absurd hi (by rw [hzero]; exact Nat.not_lt_zero i)
    · exact fun _ i hi => absurd hi (by rw [hrows, hzero]; exact Nat.not_lt_zero i)

lemma mem_scIndices {j : ℕ} : j ∈ p.scIndices ↔ j < p.varTypes.length ∧
    p.varTypes.getD j .continuous = .semiContinuous ∧ p.varLower.getD j none ≠ some 0 := by
  simp only [scIndices, mem_filter, mem_range, decide_eq_true_eq]

lemma normalized_type {j : ℕ} (hj : j < p.varTypes.length) :
    p.normalized.varTypes.getD j .continuous =
      if p.varTypes.getD j .continuous = .semiContinuous ∧ p.varLower.getD j none = some 0 then
        .continuous else p.varTypes.getD j .continuous :=
  getD_mapIdx p.varTypes
    (fun i t =>
      if t = .semiContinuous ∧ p.varLower.getD i none = some 0 then VarT.continuous else t)
    .continuous _ hj

section

variable (hwf : p.WellFormed)
include hwf

lemma normalized_upper (hfin : p.FiniteDomains) {j : ℕ} (hj : j < p.numVars) :
    p.normalized.varUpper.getD j none = p.varUpper.getD j none := by
  have hget : p.normalized.varUpper.getD j none = _ :=
    getD_mapIdx p.varUpper _ none _ (hwf.varUpper.symm ▸ hj)
  rw [hget]
  apply if_neg
  rintro ⟨hmem, hinf⟩
  obtain ⟨l, u, -, hu, -, hlt⟩ := hfin j hj (mem_scIndices.mp hmem).2.1
  rw [hu] at hinf
  exact absurd (of_decide_eq_true hinf) (not_le.mpr hlt)

lemma normalized_wellFormed : p.normalized.WellFormed where
  __ := hwf
  varTypes := length_mapIdx.trans hwf.varTypes
  varUpper := length_mapIdx.trans hwf.varUpper

/-- A variable with a zero lower bound is continuous. -/
lemma normalized_feasible (hfin : p.FiniteDomains) :
    p.normalized.Feasible y ↔ p.Feasible y := by
  refine and_congr (ensure_rowsHold_congr rfl rfl rfl rfl rfl) (forall_congr' fun j =>
    forall_congr' fun hj => ?_)
  have hj' : j < p.numVars := hj
  rw [normalized_type (hwf.varTypes.symm ▸ hj'), normalized_upper hwf hfin hj']
  split_ifs with hzero
  · obtain ⟨l, u, hl, hu, hle, -⟩ := hfin j hj' hzero.1
    have hl0 : l = 0 := Option.some.inj (hl.symm.trans hzero.2)
    have hlower : p.normalized.varLower.getD j none = some l := hl
    rw [hzero.1, hlower, hl, hu]
    constructor
    · exact .inr
    · rintro (hoff | hon)
      · rw [hoff]
        exact inBounds_some.mpr ⟨hl0.le, hl0 ▸ hle⟩
      · exact hon
  · exact .rfl

/-- Only the variables with a step of their own are semi-continuous. -/
lemma normalized_type_ne {j : ℕ} (hj : j < p.numVars) (hnot : j ∉ p.scIndices) :
    p.normalized.varTypes.getD j .continuous ≠ .semiContinuous := by
  have hlen : j < p.varTypes.length := hwf.varTypes.symm ▸ hj
  rw [normalized_type hlen]
  split_ifs with hzero
  · decide
  · intro hsc
    exact hnot (mem_scIndices.mpr ⟨hlen, hsc, fun hl => hzero ⟨hsc, hl⟩⟩)

lemma normalized_of_mem (hfin : p.FiniteDomains) {j : ℕ} (hmem : j ∈ p.scIndices) :
    j < p.numVars ∧
      p.normalized.varTypes.getD j .continuous = .semiContinuous ∧
      ∃ l u, p.normalized.varLower.getD j none = some l ∧
        p.normalized.varUpper.getD j none = some u ∧ l ≤ u ∧ p.varLower.getD j none = some l := by
  obtain ⟨hlen, hsc, hne⟩ := mem_scIndices.mp hmem
  have hj : j < p.numVars := hwf.varTypes ▸ hlen
  obtain ⟨l, u, hl, hu, hle, -⟩ := hfin j hj hsc
  refine ⟨hj, ?_, l, u, hl, (normalized_upper hwf hfin hj).trans hu, hle, hl⟩
  rw [normalized_type hlen, if_neg fun h => hne h.2]
  exact hsc

end

lemma relaxed_fields (m : OptimizationProblem) (indices : List ℕ) :
    (m.relaxed indices).numVars = m.numVars ∧ (m.relaxed indices).rows = m.rows ∧
      (m.relaxed indices).varTypes =
        m.varTypes.mapIdx (fun i t => if i ∈ indices then .continuous else t) ∧
      (m.relaxed indices).varLower =
        m.varLower.mapIdx (fun i l => if i ∈ indices then l.map (min 0) else l) ∧
      (m.relaxed indices).varUpper =
        m.varUpper.mapIdx (fun i u => if i ∈ indices then u.map (max 0) else u) :=
  ensure_fields _

lemma relaxedPoint (hwf : p.WellFormed) (hfin : p.FiniteDomains) {x : ℕ → ℚ}
    (hx : p.Feasible x) : (p.normalized.relaxed p.scIndices).RelaxedPoint x := by
  have hm := (normalized_feasible hwf hfin).mpr hx
  have hmwf := normalized_wellFormed hwf
  obtain ⟨hn, hrows, htypes, hlower, hupper⟩ := relaxed_fields p.normalized p.scIndices
  have hvar : ∀ j < p.numVars, (p.normalized.relaxed p.scIndices).varTypes.getD j .continuous =
        (if j ∈ p.scIndices then .continuous else p.normalized.varTypes.getD j .continuous) ∧
      (p.normalized.relaxed p.scIndices).varLower.getD j none =
        (if j ∈ p.scIndices then (p.normalized.varLower.getD j none).map (min 0)
          else p.normalized.varLower.getD j none) ∧
      (p.normalized.relaxed p.scIndices).varUpper.getD j none =
        (if j ∈ p.scIndices then (p.normalized.varUpper.getD j none).map (max 0)
          else p.normalized.varUpper.getD j none) := by
    intro j hj
    rw [htypes, hlower, hupper]
    exact ⟨BufferWrites.getD_mapIdx _ _ .continuous _ (hmwf.varTypes.symm ▸ hj),
      getD_mapIdx _ _ none _ (hmwf.varLower.symm ▸ hj),
      getD_mapIdx _ _ none _ (hmwf.varUpper.symm ▸ hj)⟩
  constructor
  · have hrowsHold : (p.normalized.relaxed p.scIndices).RowsHold x ↔
        p.normalized.ensureConstraintBoundsPopulated.RowsHold x :=
      ensure_rowsHold_congr rfl rfl rfl rfl rfl
    exact hrowsHold.mpr hm.1
  · intro j hj
    have hj' : j < p.numVars := hn ▸ hj
    obtain ⟨-, hl, hu⟩ := hvar j hj'
    have hdomain := hm.2 j hj'
    rw [hl, hu]
    split_ifs with hmem
    · obtain ⟨-, hsc, l, u, hl', hu', -⟩ := normalized_of_mem hwf hfin hmem
      rw [hsc, hl', hu'] at hdomain
      rw [hl', hu']
      apply inBounds_some.mpr
      rcases hdomain with hoff | hon
      · rw [hoff]
        exact ⟨min_le_left _ _, le_max_left _ _⟩
      · obtain ⟨hlow, hhigh⟩ := inBounds_some.mp hon
        exact ⟨(min_le_right _ _).trans hlow, hhigh.trans (le_max_right _ _)⟩
    · cases htype : p.normalized.varTypes.getD j .continuous with
      | continuous =>
        rw [htype] at hdomain
        exact hdomain
      | integer =>
        rw [htype] at hdomain
        exact hdomain.1
      | semiContinuous => exact absurd htype (normalized_type_ne hwf hj' hmem)
  · intro j hj hne
    have hj' : j < p.numVars := hn ▸ hj
    rw [(hvar j hj').1] at hne
    split_ifs at hne with hmem
    · exact absurd rfl hne
    · have hdomain := hm.2 j hj'
      cases htype : p.normalized.varTypes.getD j .continuous with
      | continuous => exact absurd htype hne
      | integer =>
        rw [htype] at hdomain
        exact hdomain.2
      | semiContinuous => exact absurd htype (normalized_type_ne hwf hj' hmem)

/-- The tight bounds are above the values of the variables, and not above their upper bounds, where
these are not negative. -/
lemma tightUpper_spec (hwf : p.WellFormed) (hfin : p.FiniteDomains) {settings : MipSettings}
    (hprimal : settings.presolveAbsoluteTolerance = 0) (hint : 0 ≤ settings.integralityTolerance) :
    ∃ tight, p.normalized.tightUpper settings p.scIndices = some tight ∧
      ∀ j ∈ p.scIndices, ∀ u, p.normalized.varUpper.getD j none = some u → 0 ≤ u →
        (∀ w, tight.getD j nan = finite w → w ≤ u) ∧
          ∀ x, p.Feasible x → AtLeast (tight.getD j nan) (x j) := by
  have hmwf := normalized_wellFormed hwf
  have hlt : ∀ j ∈ p.scIndices, j < p.numVars := fun j hj => hwf.varTypes ▸ (mem_scIndices.mp hj).1
  rw [tightUpper]
  split_ifs with hrows
  · obtain ⟨hn, hrelaxed, -, -, hupper⟩ := relaxed_fields p.normalized p.scIndices
    have hlen : (p.normalized.relaxed p.scIndices).varUpper.length =
        (p.normalized.relaxed p.scIndices).numVars := by
      rw [hupper, hn, length_mapIdx]
      exact hmwf.varUpper
    obtain ⟨tight, hsome, htight⟩ := callHostBoundsStrengthening_tightFor
      (p := p.normalized.relaxed p.scIndices)
      (by rw [hrelaxed, hn]; exact hwf.rows_lt) hlen hprimal hint p.scIndices
    refine ⟨tight, hsome, fun j hj u hu hpos => ⟨fun w hw => ?_, fun x hx => ?_⟩⟩
    · apply htight.not_above j (hn.symm ▸ hlt j hj) u w _ hw
      rw [hupper, getD_mapIdx _ _ none _ (hmwf.varUpper.symm ▸ hlt j hj), if_pos hj, hu]
      exact congrArg some (max_eq_right hpos)
    · exact htight.above x (relaxedPoint hwf hfin hx) j (hn.symm ▸ hlt j hj)
  · refine ⟨_, rfl, fun j hj u hu hpos => ?_⟩
    rw [getD_map_ofUpper _ (hmwf.varUpper.symm ▸ hlt j hj), hu]
    refine ⟨fun w hw => ?_, fun x hx => ?_⟩
    · cases hw
      exact le_rfl
    · obtain ⟨hjn, hsc, l, u', hl, hu', -⟩ := normalized_of_mem hwf hfin hj
      have hdomain := ((normalized_feasible hwf hfin).mpr hx).2 j hjn
      rw [hsc, hl, hu] at hdomain
      rcases hdomain with hoff | hon
      · rw [hoff]
        exact hpos
      · exact (inBounds_some.mp hon).2

end OptimizationProblem

section Reformulate

variable {p : OptimizationProblem} {settings : MipSettings}

def loopStart (p : OptimizationProblem) (nb : ℕ) : OptimizationProblem :=
  p.normalized.ensureConstraintBoundsPopulated.withBinaries nb

lemma loopStart_fields (p : OptimizationProblem) (nb : ℕ) :
    (loopStart p nb).numVars = p.numVars + nb ∧
      (loopStart p nb).varTypes = p.normalized.varTypes ++ replicate nb .integer ∧
      (loopStart p nb).varLower = p.normalized.varLower ++ replicate nb (some 0) ∧
      (loopStart p nb).varUpper = p.normalized.varUpper ++ replicate nb (some 1) := by
  obtain ⟨hn, -, ht, hl, hu⟩ := OptimizationProblem.ensure_fields p.normalized
  refine ⟨congrArg (· + nb) hn, ?_, ?_, ?_⟩
  · exact congrArg (· ++ _) ht
  · exact congrArg (· ++ _) hl
  · exact congrArg (· ++ _) hu

lemma getD_replicate_tail {α : Type} {l : List α} {n nb k : ℕ} (hlen : l.length = n) (v d : α)
    (hk : k < nb) : (l ++ replicate nb v).getD (n + k) d = v := by
  rw [getD_append_right _ _ _ _ (hlen ▸ Nat.le_add_right _ _), hlen, Nat.add_sub_cancel_left,
    getD_eq_getElem _ _ (by rwa [length_replicate]), getElem_replicate]

lemma loopStart_tail (hwf : p.WellFormed) (nb : ℕ) : BinaryTail (loopStart p nb) p.numVars nb := by
  obtain ⟨hn, ht, hl, hu⟩ := loopStart_fields p nb
  have hm := OptimizationProblem.normalized_wellFormed hwf
  constructor
  · exact hn
  · intro k hk
    rw [ht]
    exact getD_replicate_tail hm.varTypes _ _ hk
  · intro k hk
    rw [hl]
    exact getD_replicate_tail hm.varLower _ _ hk
  · intro k hk
    rw [hu]
    exact getD_replicate_tail hm.varUpper _ _ hk

lemma loopStart_getD (hwf : p.WellFormed) (nb : ℕ) {j : ℕ} (hj : j < p.numVars) :
    (loopStart p nb).varTypes.getD j .continuous = p.normalized.varTypes.getD j .continuous ∧
      (loopStart p nb).varLower.getD j none = p.normalized.varLower.getD j none ∧
      (loopStart p nb).varUpper.getD j none = p.normalized.varUpper.getD j none := by
  obtain ⟨-, ht, hl, hu⟩ := loopStart_fields p nb
  have hm := OptimizationProblem.normalized_wellFormed hwf
  rw [ht, hl, hu, getD_append _ _ _ _ (hm.varTypes.symm ▸ hj),
    getD_append _ _ _ _ (hm.varLower.symm ▸ hj), getD_append _ _ _ _ (hm.varUpper.symm ▸ hj)]
  exact ⟨rfl, rfl, rfl⟩

lemma loopStart_reached (hwf : p.WellFormed) (needs : ℕ → Bool) (nb : ℕ) (fallback : List Bool) :
    Reached (loopStart p nb) needs [] ⟨loopStart p nb, [], fallback⟩ := by
  obtain ⟨hn, ht, hl, hu⟩ := loopStart_fields p nb
  have hm := OptimizationProblem.normalized_wellFormed hwf
  have hlen := OptimizationProblem.ensure_lengths hm
  have hrows := (OptimizationProblem.ensure_fields p.normalized).2.1
  constructor
  · rfl
  · rw [ht, hn, length_append, length_replicate, hm.varTypes]
    rfl
  · rw [hl, hn, length_append, length_replicate, hm.varLower]
    rfl
  · rw [hu, hn, length_append, length_replicate, hm.varUpper]
    rfl
  · exact hlen.1.trans (congrArg length hrows).symm
  · exact hlen.2.trans (congrArg length hrows).symm
  · rfl
  · exact fun _ _ => rfl
  · exact fun _ _ => rfl
  · exact fun _ _ => rfl

/-- A point of the start is a point of the problem, with zero or one for each binary. -/
lemma loopStart_holds (hwf : p.WellFormed) (hfin : p.FiniteDomains) (nb : ℕ) {y : ℕ → ℚ} :
    Holds (loopStart p nb) y ↔
      p.Feasible y ∧ ∀ k < nb, y (p.numVars + k) = 0 ∨ y (p.numVars + k) = 1 := by
  have htail := loopStart_tail hwf nb
  have hrows : (loopStart p nb).RowsHold y ↔
      p.normalized.ensureConstraintBoundsPopulated.RowsHold y := .rfl
  have hdomains : (loopStart p nb).DomainsHold y ↔ p.normalized.DomainsHold y ∧
      ∀ k < nb, y (p.numVars + k) = 0 ∨ y (p.numVars + k) = 1 := by
    constructor
    · intro h
      refine ⟨fun j hj => ?_, fun k hk => ?_⟩
      · have hj' : j < p.numVars := hj
        obtain ⟨ht, hl, hu⟩ := loopStart_getD hwf nb hj'
        rw [← ht, ← hl, ← hu]
        exact h j (by rw [htail.numVars]; omega)
      · rw [← domainHolds_binary, ← htail.types k hk, ← htail.lower k hk, ← htail.upper k hk]
        exact h _ (by rw [htail.numVars]; omega)
    · rintro ⟨horig, hbinary⟩ j hj
      rcases Nat.lt_or_ge j p.numVars with hlt | hge
      · obtain ⟨ht, hl, hu⟩ := loopStart_getD hwf nb hlt
        rw [ht, hl, hu]
        exact horig j hlt
      · obtain ⟨k, rfl⟩ := Nat.exists_eq_add_of_le hge
        have hk : k < nb := by
          rw [htail.numVars] at hj
          omega
        rw [htail.types k hk, htail.lower k hk, htail.upper k hk]
        exact domainHolds_binary.mpr (hbinary k hk)
  rw [Holds, hrows, hdomains, ← OptimizationProblem.normalized_feasible hwf hfin]
  exact and_assoc.symm

def needsOf (p : OptimizationProblem) (idx : ℕ) : Bool :=
  needsBinary (p.normalized.ensureConstraintBoundsPopulated.varLower.getD idx none)
    (p.normalized.ensureConstraintBoundsPopulated.varUpper.getD idx none)

lemma scIndices_loop (hwf : p.WellFormed) (hfin : p.FiniteDomains) {tight : List (Extended ℚ)}
    (htight : ∀ j ∈ p.scIndices, ∀ u, p.normalized.varUpper.getD j none = some u → 0 ≤ u →
      ∀ w, tight.getD j nan = finite w → w ≤ u) :
    Loop (loopStart p (p.scIndices.filter (needsOf p)).length) (needsOf p) tight p.numVars
      (p.scIndices.filter (needsOf p)).length p.scIndices where
  nodup := nodup_range.filter _
  lt := fun j hj => (OptimizationProblem.normalized_of_mem hwf hfin hj).1
  data := by
    intro j hj
    obtain ⟨hlt, hsc, l, u, hl, hu, hle, -⟩ := OptimizationProblem.normalized_of_mem hwf hfin hj
    obtain ⟨ht', hl', hu'⟩ := loopStart_getD hwf (p.scIndices.filter (needsOf p)).length hlt
    obtain ⟨-, -, -, hel, heu⟩ := OptimizationProblem.ensure_fields p.normalized
    refine ⟨l, u, ?_, ht'.trans hsc, hl'.trans hl, hu'.trans hu, hle, ?_, htight j hj u hu⟩
    · rw [(loopStart_fields p _).1]
      omega
    · rw [needsOf, hel, heu, hl, hu]
  count := le_rfl

def extendPoint (n : ℕ) (x : ℕ → ℚ) (idxs : List ℕ) (value : ℚ → ℚ) (j : ℕ) : ℚ :=
  if j < n then x j else idxs[j - n]?.elim 0 fun idx => value (x idx)

lemma extendPoint_binary {n : ℕ} {x : ℕ → ℚ} {idxs : List ℕ} {value : ℚ → ℚ} {k idx : ℕ}
    (hk : idxs[k]? = some idx) : extendPoint n x idxs value (n + k) = value (x idx) := by
  rw [extendPoint, if_neg (by omega), Nat.add_sub_cancel_left, hk]
  rfl

lemma Feasible.congr {x y : ℕ → ℚ} (hwf : p.WellFormed) (h : ∀ j < p.numVars, y j = x j) :
    p.Feasible y ↔ p.Feasible x := by
  have hrows := (OptimizationProblem.ensure_fields p).2.1
  refine and_congr (forall_congr' fun i => forall_congr' fun hi => ?_)
    (forall_congr' fun j => forall_congr' fun hj => ?_)
  · have hmem : p.ensureConstraintBoundsPopulated.rows.getD i [] ∈ p.rows := by
      rw [← hrows, getD_eq_getElem _ _ hi]
      exact getElem_mem hi
    have hdot : dot (p.ensureConstraintBoundsPopulated.rows.getD i []) y =
        dot (p.ensureConstraintBoundsPopulated.rows.getD i []) x := by
      apply congrArg sum
      apply map_congr_left
      intro q hq
      rw [h q.1 (hwf.rows_lt _ hmem q hq)]
    rw [hdot]
  · rw [h j hj]

structure ExactFor (p : OptimizationProblem) (s : ScState) : Prop where
  binaries_lt : ∀ idx ∈ s.binaryToOriginal, idx < p.numVars
  down : ∀ y, s.problem.Feasible y → p.Feasible y ∧ ∀ k idx, s.binaryToOriginal[k]? = some idx →
    y (p.numVars + k) = 0 → y idx = 0
  up : ∀ x, p.Feasible x → ∀ value : ℚ → ℚ,
    (∀ idx ∈ s.binaryToOriginal, value (x idx) = 0 ∧ x idx = 0 ∨ value (x idx) = 1 ∧ x idx ≠ 0) →
    s.problem.Feasible (extendPoint p.numVars x s.binaryToOriginal value)
  semiContinuous : ∀ idx ∈ s.binaryToOriginal, p.varTypes.getD idx .continuous = .semiContinuous

lemma exactFor_loop (hwf : p.WellFormed) (hfin : p.FiniteDomains) {tight : List (Extended ℚ)}
    (htight : ∀ j ∈ p.scIndices, ∀ u, p.normalized.varUpper.getD j none = some u → 0 ≤ u →
      (∀ w, tight.getD j nan = finite w → w ≤ u) ∧
        ∀ x, p.Feasible x → AtLeast (tight.getD j nan) (x j)) (bigM : ℚ) (fallback : List Bool) :
    ExactFor p (stateAfter p.numVars bigM tight (needsOf p)
      ⟨loopStart p (p.scIndices.filter (needsOf p)).length, [], fallback⟩ p.scIndices) := by
  have hloop := scIndices_loop hwf hfin fun j hj u hu hpos => (htight j hj u hu hpos).1
  have hs₀ := loopStart_reached hwf (needsOf p) (p.scIndices.filter (needsOf p)).length fallback
  have htail := loopStart_tail hwf (p.scIndices.filter (needsOf p)).length
  have hs := stateAfter_reached bigM hs₀ hloop
  have hfeasible : ∀ y, (stateAfter p.numVars bigM tight (needsOf p)
      ⟨loopStart p (p.scIndices.filter (needsOf p)).length, [], fallback⟩
        p.scIndices).problem.Feasible y ↔ Holds (stateAfter p.numVars bigM tight (needsOf p)
      ⟨loopStart p (p.scIndices.filter (needsOf p)).length, [], fallback⟩ p.scIndices).problem y :=
    fun y => and_congr_left fun _ => OptimizationProblem.ensure_rowsHold hs.lower
  constructor
  · intro idx hidx
    rw [hs.binaries] at hidx
    exact hloop.lt idx (mem_of_mem_filter hidx)
  · intro y hy
    rw [hs.binaries]
    obtain ⟨hstart, hoff⟩ := stateAfter_down htail hs₀ hloop ((hfeasible y).mp hy)
    exact ⟨((loopStart_holds hwf hfin _).mp hstart).1, hoff⟩
  · intro x hx value hvalue
    rw [hs.binaries] at hvalue ⊢
    set y := extendPoint p.numVars x (p.scIndices.filter (needsOf p)) value with hy
    have hagree : ∀ j < p.numVars, y j = x j := fun j hj => if_pos hj
    have hind : Indicates (needsOf p) p.numVars y p.scIndices := by
      intro k idx hk
      have hmem := mem_of_getElem? hk
      rw [hy, extendPoint_binary hk, ← hy, hagree idx (hloop.lt idx (mem_of_mem_filter hmem))]
      exact hvalue idx hmem
    apply (hfeasible y).mpr
    apply stateAfter_up hs₀ hloop
    · refine (loopStart_holds hwf hfin _).mpr ⟨(Feasible.congr hwf hagree).mpr hx, fun k hk => ?_⟩
      rcases hind k _ (getElem?_eq_getElem hk) with ⟨hzero, -⟩ | ⟨hone, -⟩
      · exact .inl hzero
      · exact .inr hone
    · intro idx hidx u hu hpos
      have hlt := hloop.lt idx hidx
      rw [(loopStart_getD hwf _ hlt).2.2] at hu
      rw [hagree idx hlt]
      exact (htight idx hidx u hu hpos).2 x hx
    · exact hind
  · intro idx hidx
    rw [hs.binaries] at hidx
    exact (OptimizationProblem.mem_scIndices.mp (mem_of_mem_filter hidx)).2.1

/-- Without variables that need a step, the normalized problem is the result. -/
lemma exactFor_nil {q : OptimizationProblem} (hwf : p.WellFormed)
    (hq : ∀ y, q.Feasible y ↔ p.Feasible y) : ExactFor p ⟨q, [], []⟩ where
  binaries_lt := nofun
  down := fun y hy => ⟨(hq y).mp hy, nofun⟩
  up := fun _ hx _ _ => (hq _).mpr ((Feasible.congr hwf fun _ hj => if_pos hj).mpr hx)
  semiContinuous := nofun

lemma reformulateSemiContinuous_exactFor (hwf : p.WellFormed) (hfin : p.FiniteDomains)
    (hprimal : settings.presolveAbsoluteTolerance = 0) (hint : 0 ≤ settings.integralityTolerance) :
    ∃ s flag, reformulateSemiContinuous p settings = some (s, flag) ∧ ExactFor p s := by
  obtain ⟨tight, hsome, htight⟩ := OptimizationProblem.tightUpper_spec hwf hfin hprimal hint
  rw [reformulateSemiContinuous]
  split_ifs with hsc
  · dsimp only
    split_ifs with hnil
    · exact ⟨_, _, rfl, exactFor_nil hwf fun y =>
        OptimizationProblem.normalized_feasible hwf hfin⟩
    · rw [hsome]
      have hn : p.normalized.ensureConstraintBoundsPopulated.numVars = p.numVars :=
        (OptimizationProblem.ensure_fields p.normalized).1
      refine ⟨_, _, rfl, ?_⟩
      rw [hn]
      exact exactFor_loop hwf hfin htight settings.semiContinuousBigM _
  · exact ⟨_, _, rfl, exactFor_nil hwf fun y => .rfl⟩

lemma appendAuxiliaries_eq (settings : MipSettings) (assignment : List ℚ) {idxs : List ℕ}
    (hidxs : ∀ idx ∈ idxs, idx < assignment.length) :
    ∃ extended, appendAuxiliaries settings assignment idxs = some extended ∧
      (fun j => extended.getD j 0) =
        extendPoint assignment.length (fun j => assignment.getD j 0) idxs fun v =>
          if v ≤ max settings.absoluteTolerance settings.integralityTolerance then 0 else 1 := by
  have hall : (idxs.all fun idx => decide (idx < assignment.length)) = true := by
    rw [all_eq_true]
    exact fun idx hidx => decide_eq_true (hidxs idx hidx)
  refine ⟨_, if_pos hall, funext fun j => ?_⟩
  rw [extendPoint]
  split_ifs with hj
  · exact getD_append _ _ _ _ hj
  · rw [getD_append_right _ _ _ _ (not_lt.mp hj), getD_eq_getElem?_getD, getElem?_map]
    cases idxs[j - assignment.length]? <;> rfl

/-- For any finite domains the reformulated problem has the points of the problem, and the appended
values make a point of it just when no variable with a binary is negative; so they do for the domains
that problem checking accepts. -/
theorem reformulateSemiContinuous_exact (p : OptimizationProblem) (settings : MipSettings)
    (hwf : p.WellFormed) (hfin : p.FiniteDomains)
    (hprimal : settings.presolveAbsoluteTolerance = 0) (habs : settings.absoluteTolerance = 0)
    (hint : settings.integralityTolerance = 0) :
    ∃ s flag, reformulateSemiContinuous p settings = some (s, flag) ∧
      (∀ x, p.Feasible x ↔ ∃ y, (∀ j < p.numVars, y j = x j) ∧ s.problem.Feasible y) ∧
      ∀ assignment : List ℚ, assignment.length = p.numVars →
        p.Feasible (fun j => assignment.getD j 0) →
        ∃ extended, appendAuxiliaries settings assignment s.binaryToOriginal = some extended ∧
          (s.problem.Feasible (fun j => extended.getD j 0) ↔
            ∀ idx ∈ s.binaryToOriginal, 0 ≤ assignment.getD idx 0) ∧
          ((∀ j < p.numVars, p.varTypes.getD j .continuous = .semiContinuous →
              ∀ l ∈ p.varLower.getD j none, 0 ≤ l) →
            s.problem.Feasible fun j => extended.getD j 0) := by
  obtain ⟨s, flag, hsome, hs⟩ := reformulateSemiContinuous_exactFor hwf hfin hprimal hint.ge
  refine ⟨s, flag, hsome, fun x => ⟨fun hx => ?_, ?_⟩, fun assignment hlen hx => ?_⟩
  · refine ⟨_, fun j hj => if_pos hj, hs.up x hx (fun v => if v = 0 then 0 else 1) ?_⟩
    intro idx _
    by_cases hzero : x idx = 0
    · exact .inl ⟨if_pos hzero, hzero⟩
    · exact .inr ⟨if_neg hzero, hzero⟩
  · rintro ⟨y, hagree, hy⟩
    exact (Feasible.congr hwf hagree).mp (hs.down y hy).1
  · obtain ⟨extended, hext, heq⟩ := appendAuxiliaries_eq settings assignment fun idx hidx =>
      hlen.symm ▸ hs.binaries_lt idx hidx
    rw [habs, hint, max_self, hlen] at heq
    have hiff : s.problem.Feasible (fun j => extended.getD j 0) ↔
        ∀ idx ∈ s.binaryToOriginal, 0 ≤ assignment.getD idx 0 := by
      rw [heq]
      constructor
      · intro hfeasible idx hidx
        by_contra hneg
        obtain ⟨k, hk⟩ := List.getElem?_of_mem hidx
        have hoff := (hs.down _ hfeasible).2 k idx hk
        rw [extendPoint_binary hk, if_pos (not_le.mp hneg).le] at hoff
        have hzero := hoff rfl
        rw [extendPoint, if_pos (hs.binaries_lt idx hidx)] at hzero
        exact hneg hzero.ge
      · intro hnonneg
        apply hs.up _ hx
        intro idx hidx
        have hidx0 := hnonneg idx hidx
        by_cases hzero : assignment.getD idx 0 = 0
        · exact .inl ⟨if_pos hzero.le, hzero⟩
        · exact .inr ⟨if_neg fun hle => hzero (le_antisymm hle hidx0), hzero⟩
    refine ⟨extended, hext, hiff, fun hdomains => hiff.mpr fun idx hidx => ?_⟩
    have hlt := hs.binaries_lt idx hidx
    have hsc := hs.semiContinuous idx hidx
    obtain ⟨l, u, hl, hu, -⟩ := hfin idx hlt hsc
    have hdomain := hx.2 idx hlt
    rw [hsc, hl, hu] at hdomain
    rcases hdomain with hoff | hon
    · exact hoff.ge
    · exact (hdomains idx hlt hsc l hl).trans (inBounds_some.mp hon).1

def onOffPositive : OptimizationProblem where
  numVars := 1
  objective := [1]
  objectiveOffset := 0
  rows := [[(0, 1)]]
  constraintLower := []
  constraintUpper := []
  rowTypes := [.L]
  constraintBounds := [5]
  varTypes := [.semiContinuous]
  varLower := [some 2]
  varUpper := [some 9]

def onOffNegative : OptimizationProblem :=
  { onOffPositive with
    rows := []
    rowTypes := []
    constraintBounds := []
    varLower := [some (-5)]
    varUpper := [some (-1)] }

theorem reformulateSemiContinuous_exact_onOffPositive :
    ∃ s flag, reformulateSemiContinuous onOffPositive ⟨0, 0, 0, 1⟩ = some (s, flag) ∧
      ∃ extended, appendAuxiliaries ⟨0, 0, 0, 1⟩ [3] s.binaryToOriginal = some extended ∧
        s.problem.Feasible fun j => extended.getD j 0 := by
  have hwf : onOffPositive.WellFormed :=
    ⟨rfl, rfl, rfl, by decide, .inr rfl, .inr ⟨rfl, rfl, rfl, rfl⟩⟩
  have hfin : onOffPositive.FiniteDomains := by
    intro j hj _
    obtain rfl : j = 0 := Nat.lt_one_iff.mp hj
    exact ⟨2, 9, rfl, rfl, by norm_num, by norm_num [scInfinityThreshold]⟩
  have hx : onOffPositive.Feasible fun j => [3].getD j 0 := by
    constructor
    · intro i hi
      obtain rfl : i = 0 := Nat.lt_one_iff.mp hi
      exact ⟨by decide +kernel, by decide +kernel⟩
    · intro j hj
      obtain rfl : j = 0 := Nat.lt_one_iff.mp hj
      exact .inr ⟨by decide +kernel, by decide +kernel⟩
  obtain ⟨s, flag, hsome, -, happend⟩ :=
    reformulateSemiContinuous_exact onOffPositive ⟨0, 0, 0, 1⟩ hwf hfin rfl rfl rfl
  obtain ⟨extended, hext, -, hnonneg⟩ := happend [3] rfl hx
  refine ⟨s, flag, hsome, extended, hext, hnonneg fun j hj _ l hl => ?_⟩
  obtain rfl : j = 0 := Nat.lt_one_iff.mp hj
  cases hl
  norm_num

/-- The value `-2` gets a zero, and the linking row `x + 5 b ≥ 0` fails. -/
theorem appendAuxiliaries_not_feasible :
    onOffNegative.WellFormed ∧ onOffNegative.FiniteDomains ∧
      onOffNegative.Feasible (fun j => [-2].getD j 0) ∧
      ∃ s, reformulateSemiContinuous onOffNegative ⟨0, 0, 0, 1⟩ = some (s, true) ∧
        appendAuxiliaries ⟨0, 0, 0, 1⟩ [-2] s.binaryToOriginal = some [-2, 0] ∧
        ¬ s.problem.Feasible fun j => [-2, 0].getD j 0 := by
  refine ⟨⟨rfl, rfl, rfl, by decide, .inl rfl, .inl ⟨rfl, rfl⟩⟩, ?_, ⟨?_, ?_⟩, ?_⟩
  · intro j hj _
    obtain rfl : j = 0 := Nat.lt_one_iff.mp hj
    exact ⟨-5, -1, rfl, rfl, by norm_num, by norm_num [scInfinityThreshold]⟩
  · exact fun i hi => absurd hi (Nat.not_lt_zero i)
  · intro j hj
    obtain rfl : j = 0 := Nat.lt_one_iff.mp hj
    exact .inr ⟨by decide +kernel, by decide +kernel⟩
  · refine ⟨{
      problem := { onOffNegative with
        numVars := 2
        objective := [1, 0]
        rows := [[(0, 1), (1, 5)], [(0, 1), (1, 1)]]
        constraintLower := [some 0, none]
        constraintUpper := [none, some 0]
        varTypes := [.continuous, .integer]
        varLower := [some (-5), some 0]
        varUpper := [some 0, some 1] }
      binaryToOriginal := [0]
      usedFallbackBigM := [false] }, by decide +kernel, by decide +kernel, fun h => ?_⟩
    have hrow := (h.1 0 (by decide)).1 0 rfl
    exact absurd hrow (by decide +kernel)

end Reformulate

end CuOpt.Presolve
