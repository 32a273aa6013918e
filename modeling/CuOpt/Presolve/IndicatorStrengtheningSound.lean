import CuOpt.Presolve.IndicatorStrengthening

/-! The strengthened problem has the feasible points of the problem, and its matrix is built from
triplets in the order of rows and columns. -/

namespace CuOpt.Presolve

open List hiding keys keys_append
open Int (cast_one)
open Bool (and_eq_true not_eq_false not_eq_true' or_eq_true)
open Function (update)
open Option (map_some)

open SparseList CountingScatter
open Triplet (Before)

section Chunks

variable {β : Type*} {f : β × ℕ → List Triplet}

lemma zipIdx_increasing (l : List β) (n : ℕ) : (l.zipIdx n).Pairwise fun q q' => q.2 < q'.2 := by
  have hsnd : ((l.zipIdx n).map Prod.snd).Pairwise (· < ·) := by
    rw [zipIdx_map_snd]
    exact pairwise_lt_range'
  exact pairwise_map.mp hsnd

/-- The triplets of one row, where each element gives those of the row of its index. -/
lemma filter_zipIdx (hrow : ∀ q, ∀ e ∈ f q, e.row = q.2) (l : List β) (n r : ℕ) :
    ((l.zipIdx n).flatMap f).filter (fun e => e.row = r) =
      ((l.zipIdx n).filter fun q => q.2 = r).flatMap f := by
  induction l generalizing n with
  | nil => rfl
  | cons a l ih =>
    rw [zipIdx_cons, flatMap_cons, filter_append, ih (n + 1)]
    rcases eq_or_ne n r with rfl | hne
    · have hown : decide ((a, n).2 = n) = true := decide_eq_true rfl
      have hkeep : (f (a, n)).filter (fun e => decide (e.row = n)) = f (a, n) :=
        filter_eq_self.mpr fun e he => decide_eq_true (hrow _ e he)
      rw [filter_cons_of_pos (p := fun q : β × ℕ => decide (q.2 = n)) hown, flatMap_cons,
        hkeep]
    · rw [filter_cons_of_neg (by simpa using hne), filter_eq_nil_iff.mpr, nil_append]
      intro e he
      rw [decide_eq_true_eq, hrow _ e he]
      exact hne

variable {l : List β} {n : ℕ}

lemma filter_zipIdx_eq {r : ℕ} (hn : n ≤ r) {a : β} (ha : l[r - n]? = some a) :
    (l.zipIdx n).filter (fun q => q.2 = r) = [(a, r)] := by
  induction l generalizing n with
  | nil => cases ha
  | cons b l ih =>
    rw [zipIdx_cons]
    rcases eq_or_lt_of_le hn with rfl | hlt
    · rw [Nat.sub_self, getElem?_cons_zero] at ha
      cases ha
      have hown : decide ((a, n).2 = n) = true := decide_eq_true rfl
      rw [filter_cons_of_pos (p := fun q : β × ℕ => decide (q.2 = n)) hown,
        filter_eq_nil_iff.mpr]
      intro q hq
      rw [decide_eq_true_eq]
      have hle := le_snd_of_mem_zipIdx hq
      omega
    · have hstep : r - n = r - (n + 1) + 1 := by omega
      rw [hstep, getElem?_cons_succ] at ha
      rw [filter_cons_of_neg (by simpa using hlt.ne)]
      exact ih hlt ha

lemma filter_zipIdx_nil {r : ℕ} (h : ¬ (n ≤ r ∧ r < n + l.length)) :
    (l.zipIdx n).filter (fun q => q.2 = r) = [] := by
  rw [filter_eq_nil_iff]
  intro q hq
  rw [decide_eq_true_eq]
  rintro rfl
  have hle := le_snd_of_mem_zipIdx hq
  have hlt := snd_lt_add_of_mem_zipIdx hq
  omega

lemma before_zipIdx (hrow : ∀ q, ∀ e ∈ f q, e.row = q.2)
    (hsorted : ∀ q ∈ l.zipIdx n, (f q).Pairwise Before) :
    ((l.zipIdx n).flatMap f).Pairwise Before := by
  rw [pairwise_flatMap]
  refine ⟨hsorted, (zipIdx_increasing l n).imp ?_⟩
  intro q q' hlt e he e' he'
  left
  rw [hrow _ e he, hrow _ e' he']
  exact hlt

/-- A list split at a place of its order, with a new element there. -/
lemma insert_sorted {κ : Type*} {g : κ → ℕ} {l : List κ} (hl : (l.map g).Pairwise (· < ·)) {c : ℕ}
    (hc : c ∉ l.map g) (row : ℕ) (val : κ → ℚ) (v : ℚ) :
    ((l.takeWhile fun q => g q < c).map (fun q => Triplet.mk row (g q) (val q)) ++ [Triplet.mk row c v] ++
      (l.dropWhile fun q => g q < c).map fun q => Triplet.mk row (g q) (val q)).Pairwise
        Before := by
  induction l with
  | nil => exact pairwise_singleton _ _
  | cons a l ih =>
    rw [map_cons, pairwise_cons] at hl
    rw [map_cons, mem_cons, not_or] at hc
    by_cases ha : g a < c
    · have hrest := ih hl.2 hc.2
      have htake : ((a :: l).takeWhile fun q => g q < c) = a :: l.takeWhile fun q => g q < c :=
        takeWhile_cons_of_pos (decide_eq_true ha)
      have hdrop : ((a :: l).dropWhile fun q => g q < c) = l.dropWhile fun q => g q < c :=
        dropWhile_cons_of_pos (decide_eq_true ha)
      rw [htake, hdrop, map_cons, cons_append, cons_append, pairwise_cons]
      refine ⟨fun e he => .inr ?_, hrest⟩
      simp only [append_assoc, mem_append, mem_map, mem_singleton] at he
      rcases he with ⟨q, hq, rfl⟩ | rfl | ⟨q, hq, rfl⟩
      · exact ⟨rfl, hl.1 _ (mem_map_of_mem ((takeWhile_sublist _).mem hq))⟩
      · exact ⟨rfl, ha⟩
      · exact ⟨rfl, hl.1 _ (mem_map_of_mem ((dropWhile_sublist _).mem hq))⟩
    · have hlt : c < g a := lt_of_le_of_ne (not_lt.mp ha) hc.1
      have hstop : ¬ (decide (g a < c) = true) := fun h => ha (of_decide_eq_true h)
      have htake : ((a :: l).takeWhile fun q => g q < c) = [] := takeWhile_cons_of_neg hstop
      have hdrop : ((a :: l).dropWhile fun q => g q < c) = a :: l := dropWhile_cons_of_neg hstop
      rw [htake, hdrop, map_nil, nil_append, singleton_append, pairwise_cons]
      constructor
      · intro e he
        obtain ⟨q, hq, rfl⟩ := mem_map.mp he
        rcases mem_cons.mp hq with rfl | hmem
        · exact .inr ⟨rfl, hlt⟩
        · exact .inr ⟨rfl, hlt.trans (hl.1 _ (mem_map_of_mem hmem))⟩
      · have hall : ((a :: l).map g).Pairwise (· < ·) := by
          rw [map_cons, pairwise_cons]
          exact hl
        rw [pairwise_map]
        exact (pairwise_map.mp hall).imp fun hlt' => .inr ⟨rfl, hlt'⟩

end Chunks

namespace ConstraintRow

variable {row : ConstraintRow} {x : ℕ → ℚ}

lemma orientation_eq (h : row.orientation ≠ 0) :
    row.lhsInf = true ∧ row.rhsInf = false ∧ row.orientation = 1 ∧ row.side = row.rhs ∨
      row.lhsInf = false ∧ row.rhsInf = true ∧ row.orientation = -1 ∧ row.side = row.lhs := by
  obtain ⟨coefficients, lhs, rhs, lhsInf, rhsInf⟩ := row
  cases lhsInf with
  | true =>
    cases rhsInf with
    | true => exact absurd rfl h
    | false => exact .inl ⟨rfl, rfl, rfl, rfl⟩
  | false =>
    cases rhsInf with
    | true => exact .inr ⟨rfl, rfl, rfl, rfl⟩
    | false => exact absurd rfl h

/-- Turned to `≤`, a row with one side is one inequality. -/
lemma holds_iff (h : row.orientation ≠ 0) :
    row.Holds x ↔ row.orientation * dot row.coefficients x ≤ row.orientation * row.side := by
  rw [Holds]
  rcases orientation_eq h with ⟨hl, hr, ho, hs⟩ | ⟨hl, hr, ho, hs⟩
  · rw [hl, hr, ho, hs, cast_one, one_mul, one_mul]
    exact ⟨fun hx => hx.2 rfl, fun hx => ⟨fun hfalse => (Bool.noConfusion hfalse), fun _ => hx⟩⟩
  · rw [hl, hr, ho, hs, Int.cast_neg, cast_one, neg_one_mul, neg_one_mul, neg_le_neg_iff]
    exact ⟨fun hx => hx.1 rfl, fun hx => ⟨fun _ => hx, fun hfalse => (Bool.noConfusion hfalse)⟩⟩

def withZeroSide (row : ConstraintRow) : ConstraintRow :=
  if row.orientation = 1 then { row with rhs := 0 } else { row with lhs := 0 }

@[simp] lemma orientation_withZeroSide : row.withZeroSide.orientation = row.orientation := by
  rw [withZeroSide]
  split_ifs
  · rfl
  · rfl

lemma side_withZeroSide : row.withZeroSide.side = 0 := by
  rw [side, orientation_withZeroSide]
  by_cases h : row.orientation = 1
  · rw [withZeroSide, if_pos h, if_pos h]
  · rw [withZeroSide, if_neg h, if_neg h]

lemma withZeroSide_idem : row.withZeroSide.withZeroSide = row.withZeroSide := by
  rw [withZeroSide, orientation_withZeroSide]
  by_cases h : row.orientation = 1
  · rw [withZeroSide, if_pos h, if_pos h]
  · rw [withZeroSide, if_neg h, if_neg h]

end ConstraintRow

namespace IndicatorProblem

variable {p : IndicatorProblem} {x : ℕ → ℚ}

variable {j a z : ℕ}

lemma isBinary_iff : p.isBinary j = true ↔ (p.domains j).integral = true ∧
    (p.domains j).lbInf = false ∧ (p.domains j).ubInf = false ∧ (p.domains j).lower = 0 ∧
      (p.domains j).upper = 1 := by
  simp only [isBinary, and_eq_true, not_eq_true', Bool.or_eq_false_iff,
    decide_eq_true_eq, and_assoc]

lemma InDomains.zero_or_one (hx : p.InDomains x) (hj : j < p.numCols)
    (hbinary : p.isBinary j = true) : x j = 0 ∨ x j = 1 := by
  obtain ⟨hint, hlb, hub, hlower, hupper⟩ := isBinary_iff.mp hbinary
  obtain ⟨hge, hle, hk⟩ := hx j hj
  obtain ⟨k, hk⟩ := hk hint
  have hge : x j ≥ 0 := hlower ▸ hge hlb
  have hle : x j ≤ 1 := hupper ▸ hle hub
  rw [hk] at hge hle ⊢
  have hk0 : 0 ≤ k := by exact_mod_cast hge
  have hk1 : k ≤ 1 := by exact_mod_cast hle
  rcases eq_or_lt_of_le hk0 with hzero | hpos
  · left
    rw [← hzero, Int.cast_zero]
  · right
    rw [le_antisymm hk1 hpos, cast_one]

structure Links (p : IndicatorProblem) (row : ConstraintRow) (member indicator : ℕ) : Prop where
  orientation : row.orientation ≠ 0
  side : row.side = 0
  member_binary : p.isBinary member = true
  indicator_binary : p.isBinary indicator = true
  member_mem : member ∈ keys row.coefficients
  indicator_mem : indicator ∈ keys row.coefficients
  ne : (keys row.coefficients).Nodup → member ≠ indicator
  dot_eq : ∀ x : ℕ → ℚ, row.orientation * dot row.coefficients x = x member - x indicator

lemma dot_pair (j₀ j₁ : ℕ) (a₀ a₁ : ℚ) (x : ℕ → ℚ) :
    dot [(j₀, a₀), (j₁, a₁)] x = a₀ * x j₀ + a₁ * x j₁ := by
  rw [dot, map_cons, map_cons, map_nil, sum_cons, sum_cons, sum_nil,
    add_zero]

variable {row r : ConstraintRow}

lemma links_of_variableUpperBound (h : p.variableUpperBound row = some (a, z)) :
    p.Links row a z := by
  obtain ⟨coefficients, lhs, rhs, lhsInf, rhsInf⟩ := row
  by_cases hor : (ConstraintRow.mk coefficients lhs rhs lhsInf rhsInf).orientation = 0
  · rw [variableUpperBound, if_pos hor] at h
    cases h
  rw [variableUpperBound, if_neg hor] at h
  match coefficients with
  | [] | [_] | _ :: _ :: _ :: _ => cases h
  | [(j₀, a₀), (j₁, a₁)] =>
    dsimp only at h
    split_ifs at h with hside hbinary hfirst hsecond
    · have hlink : j₀ = a ∧ j₁ = z := Prod.mk.inj (Option.some.inj h)
      obtain ⟨rfl, rfl⟩ := hlink
      rw [or_eq_true, not_eq_true', not_eq_true', not_or, not_eq_false,
        not_eq_false] at hbinary
      refine ⟨hor, not_not.mp hside, hbinary.1, hbinary.2, mem_cons_self,
        mem_cons_of_mem _ mem_cons_self, fun hnodup => ?_, fun x => ?_⟩
      · rintro rfl
        exact (nodup_cons.mp hnodup).1 mem_cons_self
      · rw [dot_pair, mul_add, ← mul_assoc, ← mul_assoc, hfirst.1, hfirst.2]
        ring
    · have hlink : j₁ = a ∧ j₀ = z := Prod.mk.inj (Option.some.inj h)
      obtain ⟨rfl, rfl⟩ := hlink
      rw [or_eq_true, not_eq_true', not_eq_true', not_or, not_eq_false,
        not_eq_false] at hbinary
      refine ⟨hor, not_not.mp hside, hbinary.2, hbinary.1,
        mem_cons_of_mem _ mem_cons_self, mem_cons_self, fun hnodup => ?_, fun x => ?_⟩
      · rintro rfl
        exact (nodup_cons.mp hnodup).1 mem_cons_self
      · rw [dot_pair, mul_add, ← mul_assoc, ← mul_assoc, hsecond.1, hsecond.2]
        ring

lemma Links.holds_iff (h : p.Links row a z) : row.Holds x ↔ x a ≤ x z := by
  rw [ConstraintRow.holds_iff h.orientation, h.side, mul_zero, h.dot_eq, sub_nonpos]

lemma mem_variableUpperBounds (h : (a, z) ∈ p.variableUpperBounds) :
    ∃ row ∈ p.rows, p.Links row a z := by
  obtain ⟨row, hrow, hlink⟩ := mem_filterMap.mp h
  exact ⟨row, hrow, links_of_variableUpperBound hlink⟩

def RespectsIndicators (p : IndicatorProblem) (x : ℕ → ℚ) : Prop :=
  ∀ q ∈ p.variableUpperBounds, x q.1 ≤ x q.2

lemma respectsIndicators (hx : ∀ row ∈ p.rows, row.side = 0 → row.Holds x) :
    p.RespectsIndicators x := by
  rintro ⟨a, z⟩ hq
  obtain ⟨row, hrow, hlink⟩ := mem_variableUpperBounds hq
  exact hlink.holds_iff.mp (hx row hrow hlink.side)

lemma WellFormed.nodup (hp : p.WellFormed) (hrow : row ∈ p.rows) :
    (keys row.coefficients).Nodup := (hp row hrow).1.imp fun hlt => hlt.ne

/-- The cells of a column hold the indicators of its rows. -/
lemma mem_indicatorsOf (hp : p.WellFormed) (hj : j < p.numCols) :
    z ∈ p.indicatorsOf j ↔ (j, z) ∈ p.variableUpperBounds := by
  have hkeys : ∀ q ∈ p.variableUpperBounds, q.1 < p.numCols := by
    rintro ⟨a, z⟩ hq
    obtain ⟨row, hrow, hlink⟩ := mem_variableUpperBounds hq
    exact (hp row hrow).2 a hlink.member_mem
  rw [indicatorsOf, variableUpperBoundIndicators, variableUpperBoundOffsets,
    slice_scatterAscending 0 hkeys hj, mem_bucket]
  constructor
  · rintro ⟨⟨a, z'⟩, hmem, hkey, hvalue⟩
    rw [← hkey, ← hvalue]
    exact hmem
  · exact fun hmem => ⟨(j, z), hmem, rfl, rfl⟩

structure Owns (p : IndicatorProblem) (z j : ℕ) : Prop where
  binary : p.isBinary z = true
  lt : z < p.numCols
  le : ∀ x, p.RespectsIndicators x → x j ≤ x z

lemma owns_self (hj : j < p.numCols) (hbinary : p.isBinary j = true) : p.Owns j j :=
  ⟨hbinary, hj, fun _ _ => le_rfl⟩

lemma owns_of_mem (hp : p.WellFormed) (hj : j < p.numCols) (hz : z ∈ p.indicatorsOf j) :
    p.Owns z j ∧ j ≠ z := by
  have hmem := (mem_indicatorsOf hp hj).mp hz
  obtain ⟨row, hrow, hlink⟩ := mem_variableUpperBounds hmem
  exact ⟨⟨hlink.indicator_binary, (hp row hrow).2 z hlink.indicator_mem, fun x hx => hx _ hmem⟩,
    hlink.ne (hp.nodup hrow)⟩

lemma owns_headD (hp : p.WellFormed) (hj : j < p.numCols) (hbinary : p.isBinary j = true) :
    p.Owns ((p.indicatorsOf j).headD j) j := by
  cases hl : p.indicatorsOf j with
  | nil => exact owns_self hj hbinary
  | cons z l =>
    apply (owns_of_mem hp hj _).1
    rw [hl]
    exact mem_cons_self

def DisjunctionScan.headValue (s : DisjunctionScan) (x : ℕ → ℚ) : ℚ := (s.head.map x).getD 0

structure Scanned (p : IndicatorProblem) (row : ℕ) (direction : ℤ) (done : List (ℕ × ℚ))
    (s : DisjunctionScan) : Prop where
  nodup : s.indicators.Nodup
  binary : ∀ z ∈ s.indicators, p.isBinary z = true ∧ z < p.numCols
  head_binary : ∀ h, s.head = some h → p.isBinary h = true ∧ h < p.numCols
  marked : ∀ z, s.mark z = some row ↔ z ∈ s.indicators
  mark_le : ∀ z r, s.mark z = some r → r ≤ row
  covered : s.usable = true → ∀ x, p.InDomains x → p.RespectsIndicators x →
    s.headValue x ≤ direction * dot done x ∨ ∃ z ∈ s.indicators, x z = 1

section Scan

variable {row : ℕ} {direction : ℤ} {done : List (ℕ × ℚ)} {s : DisjunctionScan} {q : ℕ × ℚ}

section

variable (h : p.Scanned row direction done s)
include h

lemma Scanned.unusable (done' : List (ℕ × ℚ)) :
    p.Scanned row direction done' { s with usable := false } where
  __ := h
  covered := fun hfalse => (Bool.noConfusion hfalse)

lemma Scanned.head_step (hq : q.1 < p.numCols) (hbinary : p.isBinary q.1 = true)
    (hone : direction * q.2 = 1) (husable : s.usable = true) :
    p.Scanned row direction (done ++ [q])
      { s with usable := s.head.isNone, head := some q.1 } where
  __ := h
  head_binary := by
    rintro _ ⟨⟩
    exact ⟨hbinary, hq⟩
  covered := by
    intro hnone x hx hrespects
    rcases h.covered husable x hx hrespects with hle | hcovered
    · left
      rw [DisjunctionScan.headValue, Option.isNone_iff_eq_none.mp hnone] at hle
      rw [dot_snoc, mul_add, ← mul_assoc, hone, one_mul]
      exact le_add_of_nonneg_left hle
    · exact .inr hcovered

/-- A member is at most its indicator, so either it does not count or the indicator is one. -/
lemma Scanned.covered_member (husable : s.usable = true) (hq : q.1 < p.numCols)
    (hbinary : p.isBinary q.1 = true) {z : ℕ} (hz : p.Owns z q.1) (hx : p.InDomains x)
    (hrespects : p.RespectsIndicators x) :
    s.headValue x ≤ direction * dot (done ++ [q]) x ∨ (∃ z' ∈ s.indicators, x z' = 1) ∨
      x z = 1 := by
  rcases h.covered husable x hx hrespects with hle | hcovered
  · rcases hx.zero_or_one hq hbinary with hzero | hone
    · left
      rw [dot_snoc, hzero, mul_zero, add_zero]
      exact hle
    · right
      right
      have hle := hz.le x hrespects
      rw [hone] at hle
      rcases hx.zero_or_one hz.lt hz.binary with hzero | hone
      · rw [hzero] at hle
        exact absurd hle (by norm_num)
      · exact hone
  · exact .inr (.inl hcovered)

lemma Scanned.new_indicator (hq : q.1 < p.numCols) (hbinary : p.isBinary q.1 = true)
    (husable : s.usable = true) {z : ℕ} (hz : p.Owns z q.1) (hmark : s.mark z ≠ some row)
    (usable : Bool) :
    p.Scanned row direction (done ++ [q])
      { s with
        mark := update s.mark z (some row)
        indicators := s.indicators ++ [z]
        usable := usable } where
  nodup := by
    refine nodup_append.mpr ⟨h.nodup, nodup_singleton z, fun a ha b hb => ?_⟩
    rw [mem_singleton.mp hb]
    rintro rfl
    exact hmark ((h.marked a).mpr ha)
  binary := by
    intro z' hz'
    rcases mem_append.mp hz' with hold | hnew
    · exact h.binary z' hold
    · rw [mem_singleton.mp hnew]
      exact ⟨hz.binary, hz.lt⟩
  head_binary := h.head_binary
  marked := by
    intro z'
    change update s.mark z (some row) z' = some row ↔ z' ∈ s.indicators ++ [z]
    rw [mem_append, mem_singleton, Function.update_apply]
    by_cases heq : z' = z
    · rw [if_pos heq]
      exact ⟨fun _ => .inr heq, fun _ => rfl⟩
    · rw [if_neg heq, h.marked z']
      exact ⟨.inl, fun hor => hor.resolve_right heq⟩
  mark_le := by
    intro z' r hr
    change update s.mark z (some row) z' = some r at hr
    rw [Function.update_apply] at hr
    by_cases heq : z' = z
    · rw [if_pos heq] at hr
      exact (Option.some.inj hr).ge
    · rw [if_neg heq] at hr
      exact h.mark_le z' r hr
  covered := by
    intro _ x hx hrespects
    rcases h.covered_member husable hq hbinary hz hx hrespects with hle | ⟨z', hz', hval⟩ | hnew
    · exact .inl hle
    · exact .inr ⟨z', mem_append_left _ hz', hval⟩
    · exact .inr ⟨z, mem_append_right _ mem_cons_self, hnew⟩

end

lemma Scanned.scanEntry (hp : p.WellFormed) (h : p.Scanned row direction done s)
    (hq : q.1 < p.numCols) (numMembers : ℕ) :
    p.Scanned row direction (done ++ [q]) (p.scanEntry row direction numMembers s q) := by
  rw [IndicatorProblem.scanEntry]
  cases husable : s.usable with
  | false =>
    rw [Bool.not_false, if_pos rfl]
    have hs := h.unusable (done ++ [q])
    rwa [← husable] at hs
  | true =>
    rw [Bool.not_true, if_neg Bool.false_ne_true]
    cases hbinary : p.isBinary q.1 with
    | false =>
      rw [Bool.not_false, if_pos rfl]
      exact h.unusable _
    | true =>
      rw [Bool.not_true, if_neg Bool.false_ne_true]
      by_cases hone : direction * q.2 = 1
      · rw [if_pos hone]
        exact h.head_step hq hbinary hone husable
      rw [if_neg hone]
      by_cases hminus : direction * q.2 = -1
      · rw [if_pos hminus]
        have hz := owns_headD hp hq hbinary
        set z := (p.indicatorsOf q.1).headD q.1
        dsimp only
        by_cases hmark : s.mark z = some row
        · rw [if_neg (not_not.mpr hmark)]
          refine ⟨h.nodup, h.binary, h.head_binary, h.marked, h.mark_le, fun _ x hx hrespects => ?_⟩
          rcases h.covered_member husable hq hbinary hz hx hrespects with hle | hold | hnew
          · exact .inl hle
          · exact .inr hold
          · exact .inr ⟨z, (h.marked z).mp hmark, hnew⟩
        · rw [if_pos hmark]
          exact h.new_indicator hq hbinary husable hz hmark _
      · rw [if_neg hminus]
        exact h.unusable _

lemma Scanned.foldl (hp : p.WellFormed) (numMembers : ℕ) {l : List (ℕ × ℚ)}
    (hl : ∀ q ∈ l, q.1 < p.numCols) (h : p.Scanned row direction done s) :
    p.Scanned row direction (done ++ l) (l.foldl (p.scanEntry row direction numMembers) s) := by
  induction l generalizing done s with
  | nil => rwa [append_nil]
  | cons q l ih =>
    have hstep := h.scanEntry hp (hl q mem_cons_self) numMembers
    have hrest := ih (fun q' hq' => hl q' (mem_cons_of_mem q hq')) hstep
    rwa [append_assoc] at hrest

lemma scanned_scanRow (hp : p.WellFormed) {r : ConstraintRow} (hr : r ∈ p.rows)
    {mark : ℕ → Option ℕ} (hmark : ∀ z k, mark z = some k → k < row) :
    p.Scanned row r.orientation r.coefficients (p.scanRow row r mark) := by
  have hstart : p.Scanned row r.orientation [] ⟨none, true, [], mark⟩ := by
    refine ⟨nodup_nil, nofun, fun h hh => ?_, fun z => ?_,
      fun z k hk => (hmark z k hk).le, fun _ x _ _ => .inl ?_⟩
    · cases hh
    · exact ⟨fun hz => absurd (hmark z row hz) (lt_irrefl row), fun hz => absurd hz not_mem_nil⟩
    · exact (mul_zero _).ge
  exact hstart.foldl hp _ fun q hq => (hp r hr).2 q.1 (mem_map_of_mem hq)

end Scan

structure Implied (p : IndicatorProblem) (q : ℕ × List ℕ) : Prop where
  nodup : q.2.Nodup
  head_notMem : q.1 ∉ q.2
  covered : ∀ x, p.Feasible x → x q.1 ≤ (q.2.map x).sum

lemma Scanned.implied {row head : ℕ} {s : DisjunctionScan}
    (h : p.Scanned row r.orientation r.coefficients s) (hr : r ∈ p.rows) (hor : r.orientation ≠ 0)
    (hside : r.side = 0) (husable : s.usable = true) (hhead : s.head = some head)
    (hmark : s.mark head ≠ some row) : p.Implied (head, s.indicators) where
  nodup := h.nodup
  head_notMem := fun hmem => hmark ((h.marked head).mpr hmem)
  covered := by
    intro x hx
    have hrespects : p.RespectsIndicators x := respectsIndicators fun row hrow _ => hx.2 row hrow
    have hrow := (ConstraintRow.holds_iff hor).mp (hx.2 r hr)
    rw [hside, mul_zero] at hrow
    have hzeros : ∀ z ∈ s.indicators, x z = 0 ∨ x z = 1 := fun z hz =>
      hx.1.zero_or_one (h.binary z hz).2 (h.binary z hz).1
    have hnonneg : ∀ v ∈ s.indicators.map x, (0 : ℚ) ≤ v := by
      intro v hv
      obtain ⟨z, hz, rfl⟩ := mem_map.mp hv
      rcases hzeros z hz with hzero | hone
      · exact hzero.ge
      · rw [hone]
        exact zero_le_one
    rcases h.covered husable x hx.1 hrespects with hle | ⟨z, hz, hone⟩
    · rw [DisjunctionScan.headValue, hhead] at hle
      exact (hle.trans hrow).trans (sum_nonneg hnonneg)
    · have hsum : x z ≤ (s.indicators.map x).sum :=
        single_le_sum hnonneg _ (mem_map_of_mem hz)
      obtain ⟨hbinary, hlt⟩ := h.head_binary head hhead
      rcases hx.1.zero_or_one hlt hbinary with hzero | hhone
      · exact hzero.le.trans (sum_nonneg hnonneg)
      · exact (hhone.trans hone.symm).le.trans hsum

def madeEntries (q : (ℕ × List ℕ) × ℕ) : List Triplet := impliedEntries q.2 q.1.1 q.1.2

structure Made (p : IndicatorProblem) (k : ℕ) (s : ImpliedState) (made : List (ℕ × List ℕ)) :
    Prop where
  implied : ∀ q ∈ made, p.Implied q
  count : s.numImplied = made.length
  entries : s.entries = (made.zipIdx p.rows.length).flatMap madeEntries
  mark_lt : ∀ z r, s.mark z = some r → r < k

variable {made : List (ℕ × List ℕ)}

lemma Made.implyRow (hp : p.WellFormed) {k : ℕ} {s : ImpliedState} (h : p.Made k s made)
    (hr : r ∈ p.rows) : ∃ made', p.Made (k + 1) (p.implyRow s (r, k)) made' := by
  have hlater : ∀ z r, s.mark z = some r → r < k + 1 := fun z r hz =>
    (h.mark_lt z r hz).trans (Nat.lt_succ_self k)
  rw [IndicatorProblem.implyRow.eq_def]
  dsimp only
  by_cases hshort : r.orientation = 0 ∨ r.coefficients.length < 3
  · rw [if_pos hshort]
    exact ⟨made, h.implied, h.count, h.entries, hlater⟩
  rw [if_neg hshort]
  by_cases hside : r.side = 0
  swap
  · rw [if_pos hside]
    exact ⟨made, h.implied, h.count, h.entries, hlater⟩
  rw [if_neg (not_not.mpr hside)]
  have hscan := scanned_scanRow hp hr h.mark_lt
  generalize p.scanRow k r s.mark = scan at hscan ⊢
  have hmarks : ∀ z r, scan.mark z = some r → r < k + 1 := fun z r hz =>
    Nat.lt_succ_of_le (hscan.mark_le z r hz)
  cases hhead : scan.head with
  | none => exact ⟨made, h.implied, h.count, h.entries, hmarks⟩
  | some head =>
    dsimp only
    by_cases hskip : (!scan.usable || decide (scan.mark head = some k)) = true
    · rw [if_pos hskip]
      exact ⟨made, h.implied, h.count, h.entries, hmarks⟩
    · rw [if_neg hskip]
      rw [or_eq_true, not_eq_true', decide_eq_true_eq, not_or, not_eq_false] at hskip
      have himplied := hscan.implied hr (fun hzero => hshort (.inl hzero)) hside hskip.1 hhead hskip.2
      refine ⟨made ++ [(head, scan.indicators)], fun q hq => ?_, ?_, ?_, hmarks⟩
      · rcases mem_append.mp hq with hold | hnew
        · exact h.implied q hold
        · rw [mem_singleton.mp hnew]
          exact himplied
      · rw [length_append, length_singleton, h.count]
      · rw [zipIdx_append, flatMap_append, h.entries, h.count, zipIdx_singleton,
          flatMap_singleton, madeEntries]

lemma exists_made (hp : p.WellFormed) : ∃ made, p.Made p.rows.length p.addImpliedIndicatorRows made := by
  have hrun : ∀ (l : List ConstraintRow) (k : ℕ) (s : ImpliedState) (made : List (ℕ × List ℕ)),
      (∀ r ∈ l, r ∈ p.rows) → p.Made k s made →
        ∃ made', p.Made (k + l.length) ((l.zipIdx k).foldl p.implyRow s) made' := by
    intro l
    induction l with
    | nil => exact fun k s made _ h => ⟨made, h⟩
    | cons r l ih =>
      intro k s made hl h
      obtain ⟨made', h'⟩ := h.implyRow hp (hl r mem_cons_self)
      have hrest := ih (k + 1) _ made' (fun r' hr' => hl r' (mem_cons_of_mem r hr')) h'
      rw [zipIdx_cons, foldl_cons, length_cons, Nat.add_comm l.length 1, ← Nat.add_assoc]
      exact hrest
  have hstart : p.Made 0 ⟨fun _ => none, 0, []⟩ [] :=
    ⟨nofun, rfl, rfl, nofun⟩
  have hall := hrun p.rows 0 _ [] (fun r hr => hr) hstart
  rwa [Nat.zero_add] at hall

lemma impliedEntries_row (row head : ℕ) (indicators : List ℕ) :
    ∀ e ∈ impliedEntries row head indicators, e.row = row := by
  intro e he
  simp only [impliedEntries, append_assoc, mem_append, mem_map, mem_singleton] at he
  rcases he with ⟨_, _, rfl⟩ | rfl | ⟨_, _, rfl⟩
  · rfl
  · rfl
  · rfl

lemma madeEntries_row (q : (ℕ × List ℕ) × ℕ) : ∀ e ∈ madeEntries q, e.row = q.2 :=
  impliedEntries_row q.2 q.1.1 q.1.2

lemma impliedEntries_sorted {q : ℕ × List ℕ} (h : p.Implied q) (row : ℕ) :
    (impliedEntries row q.1 q.2).Pairwise Before := by
  have hperm := perm_insertionSort (· ≤ ·) q.2
  have hstrict : (q.2.insertionSort (· ≤ ·)).Pairwise (· < ·) :=
    ((pairwise_insertionSort (· ≤ ·) q.2).and (hperm.nodup_iff.mpr h.nodup)).imp fun hle =>
      lt_of_le_of_ne hle.1 hle.2
  have hfresh : q.1 ∉ (q.2.insertionSort (· ≤ ·)).map id := by
    rw [map_id]
    exact fun hmem => h.head_notMem (hperm.mem_iff.mp hmem)
  exact insert_sorted (g := id) (by rwa [map_id]) hfresh row (fun _ => -1) 1

/-- The implied row is the head less the indicators. -/
lemma dot_impliedEntries (row head : ℕ) (indicators : List ℕ) (x : ℕ → ℚ) :
    dot ((impliedEntries row head indicators).map fun e => (e.col, e.val)) x =
      x head - (indicators.map x).sum := by
  have hsum : ∀ l : List ℕ, dot ((l.map fun z => Triplet.mk row z (-1)).map fun e => (e.col, e.val)) x =
      -(l.map x).sum := by
    intro l
    induction l with
    | nil => exact neg_zero.symm
    | cons z l ih =>
      have hcons : dot ((z, (-1 : ℚ)) :: (l.map fun z => Triplet.mk row z (-1)).map fun e =>
          (e.col, e.val)) x = -1 * x z + _ := sum_cons
      rw [map_cons, map_cons, hcons, map_cons, sum_cons, neg_add, neg_one_mul]
      exact congrArg _ ih
  have hone : dot ([Triplet.mk row head 1].map fun e => (e.col, e.val)) x = x head := by
    rw [map_singleton, dot_singleton, one_mul]
  have hperm := (perm_insertionSort (· ≤ ·) indicators).map x
  rw [← hperm.sum_eq, impliedEntries]
  set sorted := indicators.insertionSort (· ≤ ·)
  have hsplit : (sorted.map x).sum = ((sorted.takeWhile (· < head)).map x).sum +
      ((sorted.dropWhile (· < head)).map x).sum := by
    rw [← sum_append, ← map_append, takeWhile_append_dropWhile]
  rw [hsplit, map_append, map_append, dot_append, dot_append, hsum, hsum, hone]
  ring

def CapacityEntry (p : IndicatorProblem) (direction : ℤ) (q : ℕ × ℚ) : Prop :=
  p.isBinary q.1 = true ∧ direction * q.2 = 1 ∨
    (p.domains q.1).integral = false ∧ direction * q.2 < 0 ∧ (p.domains q.1).lbInf = false ∧
      0 ≤ (p.domains q.1).lower

structure CapacityScanned (p : IndicatorProblem) (direction : ℤ) (done : List (ℕ × ℚ))
    (s : CapacityScan) : Prop where
  pivot : ∀ j, s.pivot = some j → j ∈ keys done
  entries : s.usable = true → ∀ q ∈ done, p.CapacityEntry direction q ∧
    ((p.domains q.1).integral = true → q.1 ∈ s.members)

section Capacity

variable {direction : ℤ} {done : List (ℕ × ℚ)} {s : CapacityScan} {q : ℕ × ℚ}

lemma CapacityScanned.scanCapacity (h : p.CapacityScanned direction done s) (q : ℕ × ℚ) :
    p.CapacityScanned direction (done ++ [q]) (p.scanCapacity direction s q) := by
  have hpivot : ∀ j, s.pivot = some j → j ∈ keys (done ++ [q]) := fun j hj => by
    rw [keys_append]
    exact mem_append_left _ (h.pivot j hj)
  have hown : q.1 ∈ keys (done ++ [q]) := by
    rw [keys_append]
    exact mem_append_right _ mem_cons_self
  rw [IndicatorProblem.scanCapacity.eq_def]
  cases husable : s.usable with
  | false =>
    rw [Bool.not_false, if_pos rfl]
    exact ⟨hpivot, fun htrue => absurd (husable.symm.trans htrue) Bool.false_ne_true⟩
  | true =>
    rw [Bool.not_true, if_neg Bool.false_ne_true]
    have hdone := h.entries husable
    cases hint : (p.domains q.1).integral with
    | true =>
      rw [if_pos rfl]
      by_cases hmember : (p.isBinary q.1 && decide (direction * q.2 = 1) &&
          decide (0 < (p.indicatorsOf q.1).length)) = true
      · rw [if_pos hmember]
        rw [and_eq_true, and_eq_true, decide_eq_true_eq] at hmember
        constructor
        · intro j hj
          cases hold : s.pivot with
          | none =>
            rw [hold] at hj
            rw [← Option.some.inj hj]
            exact hown
          | some pivot =>
            rw [hold] at hj
            dsimp only at hj
            split_ifs at hj
            · rw [← Option.some.inj hj]
              exact hown
            · exact hpivot j (hold.trans hj)
        · intro _ q' hq'
          rcases mem_append.mp hq' with hmem | hnew
          · obtain ⟨hentry, hin⟩ := hdone q' hmem
            exact ⟨hentry, fun hq => mem_append_left _ (hin hq)⟩
          · rw [mem_singleton.mp hnew]
            exact ⟨.inl hmember.1, fun _ => mem_append_right _ mem_cons_self⟩
      · rw [if_neg hmember]
        exact ⟨hpivot, fun hfalse => (Bool.noConfusion hfalse)⟩
    | false =>
      rw [if_neg Bool.false_ne_true]
      refine ⟨hpivot, fun hslack q' hq' => ?_⟩
      rcases mem_append.mp hq' with hmem | hnew
      · exact hdone q' hmem
      · rw [mem_singleton.mp hnew]
        rw [and_eq_true, and_eq_true, decide_eq_true_eq, decide_eq_true_eq,
          not_eq_true'] at hslack
        exact ⟨.inr ⟨hint, hslack.1.1, hslack.1.2, hslack.2⟩, fun htrue =>
          absurd (hint.symm.trans htrue) Bool.false_ne_true⟩

lemma CapacityScanned.foldl (h : p.CapacityScanned direction done s) (l : List (ℕ × ℚ)) :
    p.CapacityScanned direction (done ++ l) (l.foldl (p.scanCapacity direction) s) := by
  induction l generalizing done s with
  | nil => rwa [append_nil]
  | cons q l ih =>
    have hrest := ih (h.scanCapacity q)
    rwa [append_assoc] at hrest

end Capacity

structure Lifts (p : IndicatorProblem) (r : ConstraintRow) (t : Triplet) : Prop where
  orientation : r.orientation ≠ 0
  capacity : 0 < r.orientation * r.side
  val : t.val = r.orientation * -(r.orientation * r.side)
  binary : p.isBinary t.col = true
  lt : t.col < p.numCols
  notMem : t.col ∉ keys r.coefficients
  entries : ∀ q ∈ r.coefficients, p.CapacityEntry r.orientation q ∧
    (p.isBinary q.1 = true → p.Owns t.col q.1)

variable {t : Triplet}

lemma liftRow_row {row : ℕ} (h : p.liftRow (r, row) = some t) : t.row = row := by
  rw [liftRow.eq_def] at h
  dsimp only at h
  split_ifs at h
  generalize r.coefficients.foldl (p.scanCapacity r.orientation) ⟨[], none, true⟩ = scan at h
  cases hpivot : scan.pivot with
  | none =>
    rw [hpivot] at h
    cases h
  | some pivot =>
    rw [hpivot] at h
    dsimp only at h
    generalize (p.indicatorsOf pivot).find? _ = found at h
    cases found with
    | none => cases h
    | some z => exact congrArg Triplet.row (Option.some.inj h.symm)

lemma lifts_of_liftRow (hp : p.WellFormed) (hr : r ∈ p.rows) {row : ℕ}
    (h : p.liftRow (r, row) = some t) : p.Lifts r t := by
  rw [liftRow.eq_def] at h
  dsimp only at h
  by_cases hor : r.orientation = 0
  · rw [if_pos hor] at h
    cases h
  rw [if_neg hor] at h
  by_cases hcapacity : r.orientation * r.side ≤ 0
  · rw [if_pos hcapacity] at h
    cases h
  rw [if_neg hcapacity] at h
  have hstart : p.CapacityScanned r.orientation [] ⟨[], none, true⟩ :=
    ⟨fun j hj => absurd hj.symm (Option.some_ne_none j), nofun⟩
  have hscan := hstart.foldl r.coefficients
  rw [nil_append] at hscan
  generalize r.coefficients.foldl (p.scanCapacity r.orientation) ⟨[], none, true⟩ = scan at h hscan
  by_cases husable : (!scan.usable || decide (scan.members.length < 2)) = true
  · rw [if_pos husable] at h
    cases h
  rw [if_neg husable] at h
  rw [or_eq_true, not_eq_true', not_or, not_eq_false] at husable
  by_cases hmany : (scan.members.length : ℚ) ≤ r.orientation * r.side
  · rw [if_pos hmany] at h
    cases h
  rw [if_neg hmany] at h
  cases hpivot : scan.pivot with
  | none =>
    rw [hpivot] at h
    cases h
  | some pivot =>
    rw [hpivot] at h
    dsimp only at h
    cases hfound : (p.indicatorsOf pivot).find? fun z =>
        scan.members.all fun k => k = pivot || (p.indicatorsOf k).contains z with
    | none =>
      rw [hfound] at h
      cases h
    | some z =>
      rw [hfound] at h
      have ht : t = ⟨row, z, r.orientation * -(r.orientation * r.side)⟩ := (Option.some.inj h).symm
      subst ht
      have hz : z ∈ p.indicatorsOf pivot := mem_of_find?_eq_some hfound
      have hshared := all_eq_true.mp (find?_some (p := fun z =>
        scan.members.all fun k => k = pivot || (p.indicatorsOf k).contains z) hfound)
      have hkeys := (hp r hr).2
      have hmembers : ∀ q ∈ r.coefficients, p.isBinary q.1 = true → z ∈ p.indicatorsOf q.1 := by
        intro q hq hbinary
        have hmem := (hscan.entries husable.1 q hq).2 (isBinary_iff.mp hbinary).1
        have hor' := hshared q.1 hmem
        rw [or_eq_true, decide_eq_true_eq, contains_iff_mem] at hor'
        rcases hor' with heq | hmem
        · rw [heq]
          exact hz
        · exact hmem
      have howns := (owns_of_mem hp (hkeys pivot (hscan.pivot pivot hpivot)) hz).1
      refine ⟨hor, not_le.mp hcapacity, rfl, howns.binary, howns.lt, ?_, fun q hq =>
        ⟨(hscan.entries husable.1 q hq).1, fun hbinary =>
          (owns_of_mem hp (hkeys q.1 (mem_map_of_mem hq)) (hmembers q hq hbinary)).1⟩⟩
      -- an indicator that stands in the row would be its own
      intro hmem
      obtain ⟨q, hq, rfl⟩ := mem_map.mp hmem
      exact (owns_of_mem hp (hkeys q.1 hmem) (hmembers q hq howns.binary)).2 rfl

/-- Without its indicator nothing in a capacity row counts. -/
lemma Lifts.dot_nonpos (h : p.Lifts r t) (hkeys : ∀ j ∈ keys r.coefficients, j < p.numCols)
    (hx : p.InDomains x) (hrespects : p.RespectsIndicators x) (hzero : x t.col = 0) :
    r.orientation * dot r.coefficients x ≤ 0 := by
  rw [dot, ← sum_map_mul_left]
  refine (sum_le_card_nsmul _ 0 fun v hv => ?_).trans_eq (smul_zero _)
  obtain ⟨q, hq, rfl⟩ := mem_map.mp hv
  have hlt := hkeys q.1 (mem_map_of_mem hq)
  obtain ⟨hentry, howns⟩ := h.entries q hq
  rw [← mul_assoc]
  rcases hentry with ⟨hbinary, hone⟩ | ⟨_, hneg, hlb, hlower⟩
  · rw [hone, one_mul, ← hzero]
    exact (howns hbinary).le x hrespects
  · exact mul_nonpos_of_nonpos_of_nonneg hneg.le (hlower.trans ((hx q.1 hlt).1 hlb))

/-- The capacity times the indicator bounds the row as the capacity does. -/
lemma Lifts.bound_iff (h : p.Lifts r t) (hkeys : ∀ j ∈ keys r.coefficients, j < p.numCols)
    (hx : p.InDomains x) (hrespects : p.RespectsIndicators x) :
    r.orientation * dot r.coefficients x ≤ r.orientation * r.side * x t.col ↔
      r.orientation * dot r.coefficients x ≤ r.orientation * r.side := by
  rcases hx.zero_or_one h.lt h.binary with hzero | hone
  · have hle := h.dot_nonpos hkeys hx hrespects hzero
    rw [hzero, mul_zero]
    exact ⟨fun _ => hle.trans h.capacity.le, fun _ => hle⟩
  · rw [hone, mul_one]

def rowEntries (p : IndicatorProblem) (q : ConstraintRow × ℕ) : List Triplet :=
  match p.liftRow q with
  | none => q.1.coefficients.map fun e => ⟨q.2, e.1, e.2⟩
  | some lifted => insertLifted q.2 q.1.coefficients lifted

lemma rowEntries_row (q : ConstraintRow × ℕ) : ∀ e ∈ p.rowEntries q, e.row = q.2 := by
  intro e he
  rw [rowEntries] at he
  cases hlift : p.liftRow q with
  | none =>
    rw [hlift] at he
    obtain ⟨_, _, rfl⟩ := mem_map.mp he
    rfl
  | some lifted =>
    rw [hlift] at he
    simp only [insertLifted, append_assoc, mem_append, mem_map, mem_singleton] at he
    rcases he with ⟨_, _, rfl⟩ | rfl | ⟨_, _, rfl⟩
    · rfl
    · exact liftRow_row hlift
    · rfl

lemma rowEntries_sorted (hp : p.WellFormed) (hr : r ∈ p.rows) (row : ℕ) :
    (p.rowEntries (r, row)).Pairwise Before := by
  have hsorted := (hp r hr).1
  rw [rowEntries]
  cases hlift : p.liftRow (r, row) with
  | none =>
    rw [pairwise_map]
    exact (pairwise_map.mp hsorted).imp fun hlt => .inr ⟨rfl, hlt⟩
  | some lifted =>
    have hinsert := insert_sorted hsorted (lifts_of_liftRow hp hr hlift).notMem row Prod.snd lifted.val
    have heq : Triplet.mk row lifted.col lifted.val = lifted := by rw [← liftRow_row hlift]
    rwa [heq] at hinsert

/-- The loop takes the lifted entries in the order of their rows. -/
lemma foldl_rebuildRow (l : List ConstraintRow) (n : ℕ) (entries : List Triplet) :
    (l.zipIdx n).foldl rebuildRow (entries, (l.zipIdx n).filterMap p.liftRow) =
      (entries ++ (l.zipIdx n).flatMap p.rowEntries, []) := by
  induction l generalizing n entries with
  | nil => rw [zipIdx_nil, flatMap_nil, append_nil]; rfl
  | cons r l ih =>
    have hstep : rebuildRow (entries, ((r :: l).zipIdx n).filterMap p.liftRow) (r, n) =
        (entries ++ p.rowEntries (r, n), (l.zipIdx (n + 1)).filterMap p.liftRow) := by
      rw [zipIdx_cons, rowEntries]
      cases hlift : p.liftRow (r, n) with
      | some lifted =>
        rw [filterMap_cons_some hlift]
        exact if_pos (liftRow_row hlift)
      | none =>
        rw [filterMap_cons_none hlift]
        cases hrest : (l.zipIdx (n + 1)).filterMap p.liftRow with
        | nil => rfl
        | cons lifted rest =>
          have hmem : lifted ∈ (l.zipIdx (n + 1)).filterMap p.liftRow := by
            rw [hrest]
            exact mem_cons_self
          obtain ⟨⟨r', n'⟩, hq, hlift'⟩ := mem_filterMap.mp hmem
          have hlater : n + 1 ≤ n' := le_snd_of_mem_zipIdx hq
          apply if_neg
          rw [liftRow_row hlift']
          exact (Nat.lt_of_succ_le hlater).ne'
    have hrun : ((r :: l).zipIdx n).foldl rebuildRow
        (entries, ((r :: l).zipIdx n).filterMap p.liftRow) =
          (l.zipIdx (n + 1)).foldl rebuildRow
            (entries ++ p.rowEntries (r, n), (l.zipIdx (n + 1)).filterMap p.liftRow) :=
      congrArg (fun s => (l.zipIdx (n + 1)).foldl rebuildRow s) hstep
    rw [hrun, ih, zipIdx_cons, flatMap_cons, append_assoc]

lemma strengthenedEntries_eq (hmade : p.Made p.rows.length p.addImpliedIndicatorRows made) :
    p.strengthenedEntries = p.rows.zipIdx.flatMap p.rowEntries ++
      (made.zipIdx p.rows.length).flatMap madeEntries := by
  rw [strengthenedEntries, findLiftCapacityRows, foldl_rebuildRow, hmade.entries, nil_append]

/-- The triplets are in the order of rows and columns, none twice. -/
lemma strengthenedEntries_sorted (hp : p.WellFormed) :
    p.strengthenedEntries.Pairwise Before := by
  obtain ⟨made, hmade⟩ := exists_made hp
  rw [strengthenedEntries_eq hmade, pairwise_append]
  refine ⟨before_zipIdx rowEntries_row fun q hq => ?_,
    before_zipIdx madeEntries_row fun q hq => ?_, ?_⟩
  · exact rowEntries_sorted hp (fst_mem_of_mem_zipIdx hq) q.2
  · exact impliedEntries_sorted (hmade.implied q.1 (fst_mem_of_mem_zipIdx hq)) q.2
  · intro e he e' he'
    obtain ⟨q, hq, he⟩ := mem_flatMap.mp he
    obtain ⟨q', hq', he'⟩ := mem_flatMap.mp he'
    left
    rw [rowEntries_row q e he, madeEntries_row q' e' he']
    have hlt := snd_lt_add_of_mem_zipIdx hq
    have hle := le_snd_of_mem_zipIdx hq'
    omega

def withEntries (entries : List Triplet) (r : ConstraintRow) : ConstraintRow :=
  { r with coefficients := entries.map fun e => (e.col, e.val) }

def strengthenedRow (p : IndicatorProblem) (q : ConstraintRow × ℕ) : ConstraintRow :=
  match p.liftRow q with
  | none => q.1
  | some lifted => withEntries (insertLifted q.2 q.1.coefficients lifted) q.1.withZeroSide

lemma getElem?_liftedSides (lifted : List Triplet) (i : ℕ) :
    (p.liftedSides lifted)[i]? = p.rows[i]?.map fun r =>
      if ∃ t ∈ lifted, t.row = i then r.withZeroSide else r := by
  induction lifted using reverseRecOn with
  | nil =>
    cases h : p.rows[i]? with
    | none => exact h
    | some r =>
      rw [map_some, if_neg fun ⟨t, ht, _⟩ => not_mem_nil ht]
      exact h
  | append_singleton lifted t ih =>
    have hstep : p.liftedSides (lifted ++ [t]) =
        (p.liftedSides lifted).modify t.row ConstraintRow.withZeroSide := foldl_append
    rw [hstep, getElem?_modify, ih]
    cases p.rows[i]? with
    | none => rfl
    | some r =>
      have hor : (∃ t' ∈ lifted ++ [t], t'.row = i) ↔ (∃ t' ∈ lifted, t'.row = i) ∨ t.row = i := by
        simp only [mem_append, mem_singleton, or_and_right, exists_or, exists_eq_left]
      rw [map_some, map_some, Option.map_eq_map, map_some, if_congr hor rfl rfl]
      by_cases hrow : t.row = i
      · rw [if_pos hrow, if_pos (Or.inr hrow)]
        split_ifs
        · exact congrArg some ConstraintRow.withZeroSide_idem
        · rfl
      · rw [if_neg hrow, if_congr (or_iff_left hrow) rfl rfl]

lemma exists_lifted_iff {i : ℕ} (hr : p.rows[i]? = some r) :
    (∃ t ∈ p.findLiftCapacityRows, t.row = i) ↔ (p.liftRow (r, i)).isSome = true := by
  constructor
  · rintro ⟨t, ht, hrow⟩
    obtain ⟨⟨r', i'⟩, hq, hlift⟩ := mem_filterMap.mp ht
    have hi : i' = i := (liftRow_row hlift).symm.trans hrow
    rw [hi] at hq hlift
    have hr' := mem_zipIdx_iff_getElem?.mp hq
    rw [Option.some.inj (hr.symm.trans hr'), hlift]
    rfl
  · intro hsome
    obtain ⟨t, hlift⟩ := Option.isSome_iff_exists.mp hsome
    exact ⟨t, mem_filterMap.mpr ⟨(r, i), mem_zipIdx_iff_getElem?.mpr hr, hlift⟩,
      liftRow_row hlift⟩

lemma withEntries_rowEntries (r : ConstraintRow) (i : ℕ) :
    withEntries (p.rowEntries (r, i))
      (if (p.liftRow (r, i)).isSome = true then r.withZeroSide else r) = p.strengthenedRow (r, i) := by
  rw [rowEntries, strengthenedRow]
  cases p.liftRow (r, i) with
  | some lifted => rfl
  | none =>
    have hmap : (r.coefficients.map fun e => Triplet.mk i e.1 e.2).map (fun e => (e.col, e.val)) =
        r.coefficients := by
      rw [map_map]
      exact map_id _
    exact congrArg (fun c => { r with coefficients := c }) hmap

lemma rows_strengthened (hmade : p.Made p.rows.length p.addImpliedIndicatorRows made) :
    setConstraintMatrix p.strengthenedEntries (p.liftedSides p.findLiftCapacityRows ++
      replicate p.addImpliedIndicatorRows.numImplied impliedSides) =
        p.rows.zipIdx.map p.strengthenedRow ++ (made.zipIdx p.rows.length).map fun q =>
          withEntries (madeEntries q) impliedSides := by
  have hsides : (p.liftedSides p.findLiftCapacityRows).length = p.rows.length := by
    have hlast := getElem?_liftedSides (p := p) p.findLiftCapacityRows
    apply le_antisymm
    · rw [← getElem?_eq_none_iff, hlast, getElem?_eq_none le_rfl]
      rfl
    · rw [← getElem?_eq_none_iff, ← Option.map_eq_none_iff, ← hlast, getElem?_eq_none le_rfl]
  apply ext_getElem?
  intro i
  rw [setConstraintMatrix, getElem?_mapIdx, strengthenedEntries_eq hmade, filter_append,
    filter_zipIdx rowEntries_row, filter_zipIdx madeEntries_row]
  rcases lt_or_ge i p.rows.length with hlt | hge
  · have hr : p.rows[i]? = some p.rows[i] := getElem?_eq_getElem hlt
    rw [getElem?_append_left (hsides ▸ hlt), getElem?_liftedSides,
      getElem?_append_left (by rwa [length_map, length_zipIdx]), getElem?_map,
      getElem?_zipIdx, hr, filter_zipIdx_eq (Nat.zero_le i) hr,
      filter_zipIdx_nil (l := made) fun h => absurd h.1 hlt.not_ge, flatMap_nil, append_nil,
      flatMap_singleton]
    simp only [map_some, Nat.zero_add]
    rw [if_congr (exists_lifted_iff hr) rfl rfl]
    exact congrArg some (withEntries_rowEntries _ i)
  · rw [getElem?_append_right (hsides.le.trans hge), hsides,
      getElem?_append_right (by rwa [length_map, length_zipIdx]), length_map,
      length_zipIdx, getElem?_map, getElem?_zipIdx, getElem?_replicate, hmade.count,
      filter_zipIdx_nil (l := p.rows) fun h => absurd h.2 (by omega), flatMap_nil, nil_append]
    by_cases hin : i - p.rows.length < made.length
    · have hq : made[i - p.rows.length]? = some made[i - p.rows.length] := getElem?_eq_getElem hin
      rw [if_pos hin, hq, filter_zipIdx_eq hge hq, flatMap_singleton]
      have hindex : p.rows.length + (i - p.rows.length) = i := by omega
      simp only [map_some, hindex]
      rfl
    · rw [if_neg hin, getElem?_eq_none (not_lt.mp hin)]
      rfl

lemma dot_insertLifted (row : ℕ) (coefficients : List (ℕ × ℚ)) (t : Triplet) :
    dot ((insertLifted row coefficients t).map fun e => (e.col, e.val)) x =
      dot coefficients x + t.val * x t.col := by
  have hentries : ∀ l : List (ℕ × ℚ),
      (l.map fun q => Triplet.mk row q.1 q.2).map (fun e => (e.col, e.val)) = l := fun l => by
    rw [map_map]
    exact map_id l
  rw [insertLifted, map_append, map_append, hentries, hentries, map_singleton,
    dot_append, dot_append, dot_singleton, add_right_comm, ← dot_append,
    takeWhile_append_dropWhile]

/-- A lifted row holds at the points of the links where the row does. -/
lemma strengthenedRow_holds (hp : p.WellFormed) (hr : r ∈ p.rows) (row : ℕ) (hx : p.InDomains x)
    (hrespects : p.RespectsIndicators x) : (p.strengthenedRow (r, row)).Holds x ↔ r.Holds x := by
  rw [strengthenedRow]
  cases hlift : p.liftRow (r, row) with
  | none => exact .rfl
  | some t =>
    have hlifts := lifts_of_liftRow hp hr hlift
    have hdirection : (withEntries (insertLifted row r.coefficients t) r.withZeroSide).orientation =
        r.orientation := ConstraintRow.orientation_withZeroSide
    have hside : (withEntries (insertLifted row r.coefficients t) r.withZeroSide).side = 0 :=
      ConstraintRow.side_withZeroSide
    have hsquare : (r.orientation : ℚ) * r.orientation = 1 := by
      rcases ConstraintRow.orientation_eq hlifts.orientation with ⟨_, _, ho, _⟩ | ⟨_, _, ho, _⟩
      · rw [ho, cast_one, one_mul]
      · rw [ho, Int.cast_neg, cast_one, neg_one_mul, neg_neg]
    have hvalue : (r.orientation : ℚ) * (t.val * x t.col) =
        -(r.orientation * r.side * x t.col) := by
      rw [hlifts.val, ← mul_assoc, ← mul_assoc, hsquare, one_mul, neg_mul]
    change (withEntries (insertLifted row r.coefficients t) r.withZeroSide).Holds x ↔ _
    rw [ConstraintRow.holds_iff (hdirection ▸ hlifts.orientation), hside, hdirection,
      ConstraintRow.holds_iff hlifts.orientation, ← hlifts.bound_iff (hp r hr).2 hx hrespects, mul_zero]
    change (r.orientation : ℚ) * dot ((insertLifted row r.coefficients t).map fun e => (e.col, e.val)) x
      ≤ 0 ↔ _
    rw [dot_insertLifted, mul_add, hvalue, ← sub_eq_add_neg, sub_nonpos]

lemma impliedRow_holds {q : (ℕ × List ℕ) × ℕ} :
    (withEntries (madeEntries q) impliedSides).Holds x ↔ x q.1.1 ≤ (q.1.2.map x).sum := by
  have hor : (withEntries (madeEntries q) impliedSides).orientation = 1 := rfl
  rw [ConstraintRow.holds_iff (hor ▸ one_ne_zero), hor, cast_one, one_mul, one_mul]
  change dot ((impliedEntries q.2 q.1.1 q.1.2).map fun e => (e.col, e.val)) x ≤ 0 ↔ _
  rw [dot_impliedEntries, sub_nonpos]

lemma strengthenedRow_of_side (hside : r.side = 0) (row : ℕ) :
    p.strengthenedRow (r, row) = r := by
  have hnone : p.liftRow (r, row) = none := by
    rw [liftRow.eq_def]
    dsimp only
    rw [hside, mul_zero, if_pos le_rfl, ite_self]
  rw [strengthenedRow, hnone]

/-- The rows of the strengthened problem hold at the mixed-integer points where the rows of the
problem do. -/
lemma rows_hold_iff (hp : p.WellFormed) (hmade : ∀ q ∈ made, p.Implied q) (hx : p.InDomains x) :
    (∀ row ∈ p.rows, row.Holds x) ↔
      ∀ row ∈ p.rows.zipIdx.map p.strengthenedRow ++ (made.zipIdx p.rows.length).map fun q =>
        withEntries (madeEntries q) impliedSides, row.Holds x := by
  constructor
  · intro hrows row hrow
    have hrespects : p.RespectsIndicators x := respectsIndicators fun row hrow _ => hrows row hrow
    rcases mem_append.mp hrow with hold | hnew
    · obtain ⟨⟨r, i⟩, hq, rfl⟩ := mem_map.mp hold
      have hr := fst_mem_of_mem_zipIdx hq
      exact (strengthenedRow_holds hp hr i hx hrespects).mpr (hrows r hr)
    · obtain ⟨q, hq, rfl⟩ := mem_map.mp hnew
      exact impliedRow_holds.mpr ((hmade q.1 (fst_mem_of_mem_zipIdx hq)).covered x ⟨hx, hrows⟩)
  · intro hrows
    have hstrengthened : ∀ r ∈ p.rows, ∃ i, (p.strengthenedRow (r, i)).Holds x := by
      intro r hr
      obtain ⟨i, hi⟩ := mem_iff_getElem?.mp hr
      exact ⟨i, hrows _ (mem_append_left _
        (mem_map_of_mem (mem_zipIdx_iff_getElem?.mpr hi)))⟩
    have hrespects : p.RespectsIndicators x := by
      apply respectsIndicators
      intro r hr hside
      obtain ⟨i, hi⟩ := hstrengthened r hr
      rwa [strengthenedRow_of_side hside] at hi
    intro r hr
    obtain ⟨i, hi⟩ := hstrengthened r hr
    exact (strengthenedRow_holds hp hr i hx hrespects).mp hi

lemma strengthenIndicators_feasible (hp : p.WellFormed) (x : ℕ → ℚ) :
    p.Feasible x ↔ p.strengthenIndicators.Feasible x := by
  obtain ⟨made, hmade⟩ := exists_made hp
  have hrows := rows_strengthened hmade
  rw [strengthenIndicators]
  dsimp only
  by_cases hempty : p.variableUpperBounds.isEmpty = true
  · rw [if_pos hempty]
  rw [if_neg hempty]
  by_cases hnothing : (p.addImpliedIndicatorRows.numImplied = 0 &&
      p.findLiftCapacityRows.isEmpty) = true
  · rw [if_pos hnothing]
  rw [if_neg hnothing, hrows]
  exact and_congr_right fun hx => rows_hold_iff hp hmade.implied hx

lemma findLiftCapacityRows_sorted (p : IndicatorProblem) :
    p.findLiftCapacityRows.Pairwise Before := by
  rw [findLiftCapacityRows, pairwise_filterMap]
  refine (zipIdx_increasing p.rows 0).imp ?_
  intro q q' hlt t ht t' ht'
  left
  rw [liftRow_row ht, liftRow_row ht']
  exact hlt

/-- Strengthening keeps the feasible mixed-integer points, and all its triplets are in the order of
rows and columns, none twice. -/
theorem strengthenIndicators_keeps_points (hp : p.WellFormed) :
    (∀ x, p.Feasible x ↔ p.strengthenIndicators.Feasible x) ∧
      p.strengthenedEntries.Pairwise Before ∧
      p.addImpliedIndicatorRows.entries.Pairwise Before ∧
      p.findLiftCapacityRows.Pairwise Before := by
  have hsorted := strengthenedEntries_sorted hp
  refine ⟨strengthenIndicators_feasible hp, hsorted, ?_, findLiftCapacityRows_sorted p⟩
  rw [strengthenedEntries] at hsorted
  exact hsorted.sublist (sublist_append_right _ _)

/-- A head with two members of one indicator, and a row of capacity one over the members. -/
def pairedMembers : IndicatorProblem where
  numCols := 4
  domains _ := ⟨0, 1, false, false, true⟩
  rows := [⟨[(0, 1), (3, -1)], 0, 0, true, false⟩, ⟨[(1, -1), (3, 1)], 0, 0, false, true⟩,
    ⟨[(0, -1), (1, -1), (2, 1)], 0, 0, true, false⟩, ⟨[(0, 1), (1, 1)], 0, 1, true, false⟩]
  constraintNames := []

theorem strengthenIndicators_keeps_points_pairedMembers :
    (pairedMembers.addImpliedIndicatorRows.entries = [⟨4, 2, 1⟩, ⟨4, 3, -1⟩] ∧
      pairedMembers.findLiftCapacityRows = [⟨3, 3, -1⟩]) ∧
    (∀ x, pairedMembers.Feasible x ↔ pairedMembers.strengthenIndicators.Feasible x) ∧
      pairedMembers.strengthenedEntries.Pairwise Before ∧
      pairedMembers.addImpliedIndicatorRows.entries.Pairwise Before ∧
      pairedMembers.findLiftCapacityRows.Pairwise Before := by
  refine ⟨⟨by decide +kernel, by decide +kernel⟩, strengthenIndicators_keeps_points ?_⟩
  decide +kernel

end IndicatorProblem

end CuOpt.Presolve
