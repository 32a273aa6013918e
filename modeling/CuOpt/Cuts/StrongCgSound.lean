import CuOpt.Cuts.StrongCg
import CuOpt.Library.RoundingCuts

/-! The strong Chvátal-Gomory cut keeps every feasible point of a row, and where the row is negated, of
an equality. -/

namespace CuOpt.Cuts

open SparseList QuadProgram Activities Activities.Extended RoundingCuts List
open Option (getD_some)
open Int (fract)

def BoundShift.value (l u : Option ℚ) (x : ℚ) : BoundShift → ℚ
  | .unshifted => x
  | .lower => x - l.getD 0
  | .upper => u.getD 0 - x

namespace MixedProblem

variable {p : MixedProblem} {x : ℕ → ℚ} {marks marks' : ℕ → BoundShift}

def ShiftFinite (p : MixedProblem) (marks : ℕ → BoundShift) (j : ℕ) : Prop :=
  match marks j with
  | .unshifted => True
  | .lower => p.lower j ≠ none
  | .upper => p.upper j ≠ none

def shifted (p : MixedProblem) (marks : ℕ → BoundShift) (x : ℕ → ℚ) (j : ℕ) : ℚ :=
  (marks j).value (p.lower j) (p.upper j) (x j)

/-- Each continuous column has the bound that lets it be dropped from `vector · x ≤ rhs`. -/
def Removable (p : MixedProblem) (vector : List (ℕ × ℚ)) : Prop :=
  ∀ q ∈ vector, p.varTypes q.1 = .continuous →
    q.2 = 0 ∨ 0 < q.2 ∧ p.lower q.1 ≠ none ∨ q.2 < 0 ∧ p.upper q.1 ≠ none

structure Dropped (p : MixedProblem) (l : List (ℕ × ℚ)) (marks : ℕ → BoundShift)
    (rhs : Extended ℚ) (l' : List (ℕ × ℚ)) (rhs' : Extended ℚ) : Prop where
  integer : ∀ q ∈ l', q.2 ≠ 0 → q.1 ∈ keys l ∧ p.varTypes q.1 ≠ .continuous
  finite_shift : ∀ v, rhs' = finite v → ∀ q ∈ l', q.2 ≠ 0 → p.ShiftFinite marks q.1
  bound : ∀ v, rhs' = finite v → ∃ v₀, rhs = finite v₀ ∧
    ∀ x, (∀ j ∈ keys l, InBounds (p.lower j) (p.upper j) (x j)) →
      dot l' (p.shifted marks x) - v ≤ dot l x - v₀

lemma dropped_nil (rhs : Extended ℚ) : p.Dropped [] marks rhs [] rhs where
  integer := nofun
  finite_shift := fun _ _ _ hq => absurd hq not_mem_nil
  bound := fun v hv => ⟨v, hv, fun _ _ => le_rfl⟩

variable {rhs : Extended ℚ} {j : ℕ} {a v : ℚ}

lemma Dropped.cons {l l' : List (ℕ × ℚ)} {rhs₁ rhs' : Extended ℚ} {a' : ℚ}
    (h : p.Dropped l marks rhs₁ l' rhs') (hinteger : a' ≠ 0 → p.varTypes j ≠ .continuous)
    (hfinite : ∀ v, rhs₁ = finite v → a' ≠ 0 → p.ShiftFinite marks j)
    (hbound : ∀ v, rhs₁ = finite v → ∃ v₀, rhs = finite v₀ ∧
      ∀ x, InBounds (p.lower j) (p.upper j) (x j) → a' * p.shifted marks x j - v ≤ a * x j - v₀) :
    p.Dropped ((j, a) :: l) marks rhs ((j, a') :: l') rhs' where
  integer := by
    intro q hq hne
    rcases mem_cons.mp hq with rfl | hq
    · exact ⟨mem_cons_self, hinteger hne⟩
    · exact ⟨mem_cons_of_mem _ (h.integer q hq hne).1, (h.integer q hq hne).2⟩
  finite_shift := by
    intro v hv q hq hne
    rcases mem_cons.mp hq with rfl | hq
    · obtain ⟨v₁, hv₁, -⟩ := h.bound v hv
      exact hfinite v₁ hv₁ hne
    · exact h.finite_shift v hv q hq hne
  bound := by
    intro v hv
    obtain ⟨v₁, hv₁, hrest⟩ := h.bound v hv
    obtain ⟨v₀, hv₀, hfirst⟩ := hbound v₁ hv₁
    refine ⟨v₀, hv₀, fun x hx => ?_⟩
    have hj := hfirst x (hx j mem_cons_self)
    have hl := hrest x fun i hi => hx i (mem_cons_of_mem j hi)
    show a' * p.shifted marks x j + dot l' (p.shifted marks x) - v ≤ a * x j + dot l x - v₀
    linarith

lemma Dropped.congr {l l' : List (ℕ × ℚ)} {rhs' : Extended ℚ} (h : p.Dropped l marks rhs l' rhs')
    (hmarks : ∀ j, p.varTypes j ≠ .continuous → marks' j = marks j) :
    p.Dropped l marks' rhs l' rhs' where
  integer := h.integer
  finite_shift := by
    intro v hv q hq hne
    have hfinite := h.finite_shift v hv q hq hne
    rwa [ShiftFinite, ← hmarks q.1 (h.integer q hq hne).2] at hfinite
  bound := by
    intro v hv
    obtain ⟨v₀, hv₀, hrest⟩ := h.bound v hv
    refine ⟨v₀, hv₀, fun x hx => ?_⟩
    have hsame : dot l' (p.shifted marks' x) = dot l' (p.shifted marks x) := by
      refine congrArg sum (map_congr_left fun q hq => ?_)
      by_cases hne : q.2 = 0
      · simp only [hne, zero_mul]
      · rw [shifted, shifted, hmarks q.1 (h.integer q hq hne).2]
    rw [hsame]
    exact hrest x hx

lemma update_of_integer {i : ℕ} {b : BoundShift} (hj : p.varTypes j = .continuous)
    (hi : p.varTypes i ≠ .continuous) : Function.update marks j b i = marks i := by
  have hne : i ≠ j := fun h => hi (h ▸ hj)
  rw [Function.update_of_ne hne]

lemma bound_lower (h : sub rhs (scale a (ofLower (p.lower j))) = finite v) :
    ∃ l, p.lower j = some l ∧ rhs = finite (v + a * l) := by
  obtain ⟨v₀, w, hrhs, hw, rfl⟩ := sub_scale_eq_finite h
  cases hl : p.lower j with
  | none =>
    rw [hl] at hw
    cases hw
  | some l =>
    rw [hl] at hw
    cases hw
    exact ⟨_, rfl, by rw [sub_add_cancel, hrhs]⟩

lemma bound_upper (h : sub rhs (scale a (ofUpper (p.upper j))) = finite v) :
    ∃ u, p.upper j = some u ∧ rhs = finite (v + a * u) := by
  obtain ⟨v₀, w, hrhs, hw, rfl⟩ := sub_scale_eq_finite h
  cases hu : p.upper j with
  | none =>
    rw [hu] at hw
    cases hw
  | some u =>
    rw [hu] at hw
    cases hw
    exact ⟨_, rfl, by rw [sub_add_cancel, hrhs]⟩

/-- The continuous columns are dropped, or one of them cannot be; the substitutions of integer columns
stay. -/
lemma dropContinuous_spec (l : List (ℕ × ℚ)) (marks : ℕ → BoundShift) (rhs : Extended ℚ) :
    (∀ j, p.varTypes j ≠ .continuous → (dropContinuous p l marks rhs).1 j = marks j) ∧
    match (dropContinuous p l marks rhs).2 with
    | none => ¬p.Removable l
    | some r => p.Dropped l marks rhs r.1 r.2 := by
  induction l generalizing marks rhs with
  | nil => exact ⟨fun _ _ => rfl, dropped_nil rhs⟩
  | cons q rest ih =>
    obtain ⟨j, aj⟩ := q
    have hnot : ¬p.Removable rest → ¬p.Removable ((j, aj) :: rest) :=
      fun h hall => h fun q hq => hall q (mem_cons_of_mem _ hq)
    -- every branch that goes on keeps one entry and passes the rest its marks and right-hand side
    have hkeep : ∀ (a' : ℚ) (marks₁ : ℕ → BoundShift) (rhs₁ : Extended ℚ),
        (∀ i, p.varTypes i ≠ .continuous → marks₁ i = marks i) →
        (a' ≠ 0 → p.varTypes j ≠ .continuous) →
        (∀ v, rhs₁ = finite v → a' ≠ 0 → p.ShiftFinite marks j) →
        (∀ v, rhs₁ = finite v → ∃ v₀, rhs = finite v₀ ∧
          ∀ x, InBounds (p.lower j) (p.upper j) (x j) →
            a' * p.shifted marks x j - v ≤ aj * x j - v₀) →
        (∀ i, p.varTypes i ≠ .continuous → (dropContinuous p rest marks₁ rhs₁).1 i = marks i) ∧
        match (dropContinuous p rest marks₁ rhs₁).2.map fun r => ((j, a') :: r.1, r.2) with
        | none => ¬p.Removable ((j, aj) :: rest)
        | some r => p.Dropped ((j, aj) :: rest) marks rhs r.1 r.2 := by
      intro a' marks₁ rhs₁ hmarks hinteger hfinite hbound
      obtain ⟨hsame, hresult⟩ := ih marks₁ rhs₁
      refine ⟨fun i hi => (hsame i hi).trans (hmarks i hi), ?_⟩
      cases hrest : (dropContinuous p rest marks₁ rhs₁).2 with
      | none =>
        rw [hrest] at hresult
        exact hnot hresult
      | some r =>
        rw [hrest] at hresult
        exact (hresult.congr fun i hi => (hmarks i hi).symm).cons hinteger hfinite hbound
    rw [dropContinuous]
    dsimp only
    split_ifs with hcontinuous hzero hlower hupper
    · refine hkeep aj marks rhs (fun _ _ => rfl) (fun hne => absurd hzero hne)
        (fun _ _ hne => absurd hzero hne) fun v hv => ⟨v, hv, fun x _ => ?_⟩
      rw [hzero, zero_mul, zero_mul]
    · refine hkeep 0 _ _ (fun i hi => update_of_integer hcontinuous hi) (fun h => absurd rfl h)
        (fun _ _ h => absurd rfl h) fun v hv => ?_
      obtain ⟨w, hw, hrhs⟩ := bound_lower hv
      refine ⟨_, hrhs, fun x hx => ?_⟩
      have hle := mul_le_mul_of_nonneg_left (hx.1 w hw) hlower.1.le
      linarith
    · refine hkeep 0 _ _ (fun i hi => update_of_integer hcontinuous hi) (fun h => absurd rfl h)
        (fun _ _ h => absurd rfl h) fun v hv => ?_
      obtain ⟨w, hw, hrhs⟩ := bound_upper hv
      refine ⟨_, hrhs, fun x hx => ?_⟩
      have hle := mul_le_mul_of_nonpos_left (hx.2 w hw) hupper.1.le
      linarith
    · refine ⟨fun _ _ => rfl, fun hall => ?_⟩
      rcases hall (j, aj) mem_cons_self hcontinuous with h | h | h
      · exact hzero h
      · exact hlower h
      · exact hupper h
    · cases hj : marks j with
      | unshifted =>
        refine hkeep aj marks rhs (fun _ _ => rfl) (fun _ => hcontinuous) (fun _ _ _ => ?_)
          fun v hv => ⟨v, hv, fun x _ => ?_⟩
        · rw [ShiftFinite, hj]
          trivial
        · rw [shifted, hj]
          exact le_rfl
      | lower =>
        refine hkeep aj marks _ (fun _ _ => rfl) (fun _ => hcontinuous) (fun v hv _ => ?_)
          fun v hv => ?_
        · obtain ⟨w, hw, -⟩ := bound_lower hv
          simp [ShiftFinite, hj, hw]
        · obtain ⟨w, hw, hrhs⟩ := bound_lower hv
          refine ⟨_, hrhs, fun x _ => ?_⟩
          rw [shifted, hj, BoundShift.value, hw, getD_some]
          linarith
      | upper =>
        refine hkeep (-aj) marks _ (fun _ _ => rfl) (fun _ => hcontinuous) (fun v hv _ => ?_)
          fun v hv => ?_
        · obtain ⟨w, hw, -⟩ := bound_upper hv
          simp [ShiftFinite, hj, hw]
        · obtain ⟨w, hw, hrhs⟩ := bound_upper hv
          refine ⟨_, hrhs, fun x _ => ?_⟩
          rw [shifted, hj, BoundShift.value, hw, getD_some]
          linarith

lemma removeContinuousVariables_spec (marks : ℕ → BoundShift) (b : Inequality) :
    (∀ j, p.varTypes j ≠ .continuous → (removeContinuousVariables p marks b).1 j = marks j) ∧
    match (removeContinuousVariables p marks b).2 with
    | none => ¬p.Removable b.vector
    | some r => ∃ l, r.1 = squeeze l ∧ p.Dropped b.vector marks (finite b.rhs) l r.2 := by
  obtain ⟨hmarks, hresult⟩ := dropContinuous_spec (p := p) b.vector marks (finite b.rhs)
  unfold removeContinuousVariables
  refine ⟨hmarks, ?_⟩
  dsimp only
  cases h : (dropContinuous p b.vector marks (finite b.rhs)).2 with
  | none =>
    rw [h] at hresult
    exact hresult
  | some r =>
    rw [h] at hresult
    exact ⟨r.1, rfl, hresult⟩

lemma dot_squeeze (l : List (ℕ × ℚ)) (f : ℕ → ℚ) : dot (squeeze l) f = dot l f := by
  rw [dot, squeeze, sum_map_filter]
  refine congrArg sum (map_congr_left fun q _ => ?_)
  split_ifs with hne
  · rfl
  · have hzero : q.2 = 0 := by simpa using hne
    rw [hzero, zero_mul]

lemma strongCgCoefficient_eq {k : ℕ} (hk : 0 < k) {f₀ : ℚ} (hf₀ : 0 < f₀) (hlt : f₀ * k < 1)
    (a : ℚ) :
    ∃ e : ℕ, strongCgCoefficient k f₀ a = (k + 1) * ⌊a⌋ + e ∧ IsExtra f₀ k (fract a) e := by
  have hk' : (0 : ℚ) < k := Nat.cast_pos.mpr hk
  have hfract : fractionalPart a = fract a := rfl
  unfold strongCgCoefficient
  rw [hfract]
  dsimp only
  obtain ⟨piece, hpiece⟩ : ∃ n : ℕ, ⌊((k : ℤ) : ℚ) * fract a⌋ = n := by
    refine Int.eq_ofNat_of_zero_le (Int.floor_nonneg.mpr ?_)
    exact mul_nonneg (by exact_mod_cast hk'.le) (Int.fract_nonneg a)
  rw [hpiece]
  have hfloor : (piece : ℚ) ≤ k * fract a := by
    have hle := Int.floor_le (((k : ℤ) : ℚ) * fract a)
    rw [hpiece] at hle
    exact_mod_cast hle
  split_ifs with hsmall hstep
  · refine ⟨0, by push_cast; ring, fun h => absurd h (by decide)⟩
  · refine ⟨piece + 1, by push_cast; ring, fun _ => ?_⟩
    push_cast at hstep ⊢
    rw [add_sub_cancel_right]
    linarith
  · refine ⟨piece, by push_cast; ring, fun hone => ?_⟩
    have hone' : (1 : ℚ) ≤ piece := by exact_mod_cast hone
    have hratio : 0 ≤ ((piece : ℚ) - 1) / k := div_nonneg (sub_nonneg.mpr hone') hk'.le
    have hf : (piece : ℚ) / k ≤ fract a := by
      rw [div_le_iff₀ hk', mul_comm]
      exact hfloor
    have hbelow : f₀ < 1 / k := by rwa [lt_div_iff₀ hk']
    calc f₀ + ((piece : ℚ) - 1) / k * (1 - f₀)
        ≤ f₀ + ((piece : ℚ) - 1) / k := by
          have hmul := mul_nonneg hratio hf₀.le
          linarith
      _ < 1 / k + ((piece : ℚ) - 1) / k := by linarith
      _ = piece / k := by ring
      _ ≤ fract a := hf

/-- Over nonnegative integers the rounded inequality follows. -/
lemma generateStrongCgCutHelper_le {vector : List (ℕ × ℚ)} {cut : Inequality}
    (h : generateStrongCgCutHelper p vector v = some cut) :
    (∀ q ∈ vector, p.varTypes q.1 = .integer) ∧
      ∀ y : ℕ → ℚ, (∀ q ∈ vector, ∃ n : ℕ, y q.1 = n) → dot vector y ≤ v →
        dot cut.vector y ≤ cut.rhs := by
  unfold generateStrongCgCutHelper at h
  dsimp only at h
  split_ifs at h with hsmall hlarge hk hall
  have hfract : fractionalPart v = fract v := rfl
  rw [hfract] at h hsmall hk
  have hpos : 0 < fract v := lt_of_lt_of_le (by norm_num) (not_lt.mp hsmall)
  have hceil : (1 : ℤ) < ⌈1 / fract v⌉ := by
    rw [Int.lt_ceil, Int.cast_one, lt_div_iff₀ hpos, one_mul]
    exact Int.fract_lt_one v
  obtain ⟨k, hkv⟩ : ∃ k : ℕ, ⌈1 / fract v⌉ - 1 = k :=
    Int.eq_ofNat_of_zero_le (by omega)
  have hkpos : 0 < k := by omega
  rw [hkv] at h hk
  have hk' : (0 : ℚ) < k := Nat.cast_pos.mpr hkpos
  have hlower : 1 ≤ fract v * (k + 1) := by
    have hle := hk.1
    rw [div_le_iff₀ (by exact_mod_cast Nat.succ_pos k)] at hle
    exact_mod_cast hle
  have hupper : fract v * k < 1 := by
    have hlt := hk.2
    rw [lt_div_iff₀ (by exact_mod_cast hk')] at hlt
    exact_mod_cast hlt
  choose e he hextra using strongCgCoefficient_eq hkpos hpos hupper
  cases h
  refine ⟨fun q hq => of_decide_eq_true (all_eq_true.mp hall q hq), fun y hy hle => ?_⟩
  have hstrong := sum_strong_le (y := fun q : ℕ × ℚ => y q.1) hkpos hlower hy
    (fun q _ => hextra q.2) hle
  refine le_of_eq_of_le ?_ (hstrong.trans_eq ?_)
  · rw [dot, map_map]
    refine congrArg sum (map_congr_left fun q _ => ?_)
    show strongCgCoefficient k (fract v) q.2 * y q.1 = _
    rw [he]
  · push_cast
    rfl

lemma generateStrongCgCutIntegerOnly_le {vector : List (ℕ × ℚ)} {cut : Inequality}
    (h : generateStrongCgCutIntegerOnly p vector rhs = some cut) :
    (∀ q ∈ vector, p.varTypes q.1 = .integer) ∧ ∃ v, rhs = finite v ∧
      ∀ y : ℕ → ℚ, (∀ q ∈ vector, ∃ n : ℕ, y q.1 = n) → dot vector y ≤ v →
        dot cut.vector y ≤ cut.rhs := by
  cases rhs with
  | finite v =>
    unfold generateStrongCgCutIntegerOnly at h
    dsimp only at h
    split_ifs at h with hzero hall
    · cases h
      refine ⟨fun q hq => of_decide_eq_true (all_eq_true.mp hall q hq), v, rfl, fun y hy hle => ?_⟩
      have hfloor := sum_floor_le (y := fun q : ℕ × ℚ => y q.1) hy hle
      rw [dot, map_map]
      exact hfloor
    · obtain ⟨hinteger, hle⟩ := generateStrongCgCutHelper_le h
      exact ⟨hinteger, v, rfl, hle⟩
  | _ => cases h

lemma toOriginal_slack (marks : ℕ → BoundShift) (x : ℕ → ℚ) (cut : Inequality) :
    dot (toOriginalIntegerVariables p marks cut).vector x -
        (toOriginalIntegerVariables p marks cut).rhs =
      dot cut.vector (p.shifted marks x) - cut.rhs := by
  obtain ⟨l, r⟩ := cut
  unfold toOriginalIntegerVariables
  dsimp only
  induction l generalizing r with
  | nil => rfl
  | cons q l ih =>
    rw [map_cons, foldl_cons]
    have hcons : ∀ (l : List (ℕ × ℚ)) (q : ℕ × ℚ) (f : ℕ → ℚ),
        dot (q :: l) f = q.2 * f q.1 + dot l f := fun _ _ _ => rfl
    rw [hcons, hcons, add_sub_assoc, ih, shifted]
    cases marks q.1 with
    | unshifted =>
      rw [if_neg (by decide), BoundShift.value]
      ring
    | lower =>
      rw [if_neg (by decide), BoundShift.value]
      ring
    | upper =>
      rw [if_pos rfl, BoundShift.value]
      ring

end MixedProblem

namespace RoundedProblem

open MixedProblem

variable {p : RoundedProblem} {xstar : ℕ → ℚ} {marks : ℕ → BoundShift}

def Marked (p : RoundedProblem) (xstar : ℕ → ℚ) (marks : ℕ → BoundShift) : Prop :=
  ∀ j, p.varTypes j ≠ .continuous → marks j = transformedVariable p.toMixedProblem xstar j

lemma exists_shifted_eq_nat (hmarks : p.Marked xstar marks) {x : ℕ → ℚ} (hx : x ∈ p.feasible)
    {j : ℕ} (hj : j < p.numVars) (hinteger : p.varTypes j = .integer)
    (hfinite : p.ShiftFinite marks j) : ∃ n : ℕ, p.shifted marks x j = n := by
  have hne : p.varTypes j ≠ .continuous := by
    rw [hinteger]
    decide
  have hnat : ∀ v : ℚ, 0 ≤ v → (∃ k : ℤ, v = k) → ∃ n : ℕ, v = n := by
    rintro v hv ⟨k, rfl⟩
    obtain ⟨n, rfl⟩ := Int.eq_ofNat_of_zero_le (Int.cast_nonneg_iff.mp hv)
    exact ⟨n, rfl⟩
  obtain ⟨k, hk⟩ := p.integral x hx j hj hne
  have hbounds := p.inBounds x hx j hj
  unfold ShiftFinite at hfinite
  rw [shifted]
  refine hnat _ ?_ ?_
  · cases hm : marks j with
    | unshifted =>
      have hzero : p.lower j = some 0 := by
        by_contra hlower
        have hchoice := hm.symm.trans (hmarks j hne)
        unfold transformedVariable at hchoice
        rw [if_pos ⟨hinteger, hlower⟩] at hchoice
        split at hchoice
        · cases hchoice
        · cases hchoice
        · split_ifs at hchoice
      exact hbounds.1 0 hzero
    | lower =>
      rw [hm] at hfinite
      obtain ⟨l, hl⟩ := Option.ne_none_iff_exists'.mp hfinite
      rw [BoundShift.value, hl, getD_some, sub_nonneg]
      exact hbounds.1 l hl
    | upper =>
      rw [hm] at hfinite
      obtain ⟨u, hu⟩ := Option.ne_none_iff_exists'.mp hfinite
      rw [BoundShift.value, hu, getD_some, sub_nonneg]
      exact hbounds.2 u hu
  · cases hm : marks j with
    | unshifted => exact ⟨k, hk⟩
    | lower =>
      rw [hm] at hfinite
      obtain ⟨l, hl⟩ := Option.ne_none_iff_exists'.mp hfinite
      obtain ⟨m, rfl⟩ := p.lower_integral j hj hne l hl
      rw [BoundShift.value, hl, getD_some, hk]
      exact ⟨k - m, by rw [Int.cast_sub]⟩
    | upper =>
      rw [hm] at hfinite
      obtain ⟨u, hu⟩ := Option.ne_none_iff_exists'.mp hfinite
      obtain ⟨m, rfl⟩ := p.upper_integral j hj hne u hu
      rw [BoundShift.value, hu, getD_some, hk]
      exact ⟨m - k, by rw [Int.cast_sub]⟩

/-- The base holds as `vector · x ≤ rhs`, and as an equality if its continuous columns cannot be
removed. -/
structure BaseHolds (p : RoundedProblem) (b : Inequality) : Prop where
  lt : ∀ q ∈ b.vector, q.1 < p.numVars
  le : ∀ x ∈ p.feasible, dot b.vector x ≤ b.rhs
  eq : ∀ x ∈ p.feasible, p.Removable b.vector ∨ dot b.vector x = b.rhs

lemma valid_of_dropped {b : Inequality} (hlt : ∀ q ∈ b.vector, q.1 < p.numVars)
    (hle : ∀ x ∈ p.feasible, dot b.vector x ≤ b.rhs) {marks marks' : ℕ → BoundShift}
    (hmarks : p.Marked xstar marks)
    (hsame : ∀ j, p.varTypes j ≠ .continuous → marks' j = marks j) {l : List (ℕ × ℚ)}
    {rhs : Extended ℚ} (hdropped : p.Dropped b.vector marks (finite b.rhs) l rhs)
    {cut : Inequality}
    (hcut : generateStrongCgCutIntegerOnly p.toMixedProblem (squeeze l) rhs = some cut) :
    p.Valid (toOriginalIntegerVariables p.toMixedProblem marks' cut).negate := by
  intro x hx
  obtain ⟨hinteger, v, hv, hrounded⟩ := generateStrongCgCutIntegerOnly_le hcut
  have hdropped' := hdropped.congr hsame
  have hmarks' : p.Marked xstar marks' := fun j hj => (hsame j hj).trans (hmarks j hj)
  obtain ⟨v₀, hv₀, hbound⟩ := hdropped'.bound v hv
  cases hv₀
  have hkeys : ∀ j ∈ keys b.vector, j < p.numVars := by
    intro j hj
    obtain ⟨q, hq, rfl⟩ := mem_map.mp hj
    exact hlt q hq
  have hnat : ∀ q ∈ squeeze l, ∃ n : ℕ, p.shifted marks' x q.1 = n := by
    intro q hq
    obtain ⟨hql, hne⟩ := mem_filter.mp hq
    have hne' : q.2 ≠ 0 := of_decide_eq_true hne
    exact exists_shifted_eq_nat hmarks' hx (hkeys _ (hdropped'.integer q hql hne').1)
      (hinteger q hq) (hdropped'.finite_shift v hv q hql hne')
  have hsum : dot (squeeze l) (p.shifted marks' x) ≤ v := by
    have hdot := hbound x fun j hj => p.inBounds x hx j (hkeys j hj)
    have hbase := hle x hx
    rw [dot_squeeze]
    linarith
  have hslack := toOriginal_slack (p := p.toMixedProblem) marks' x cut
  have hfinal := hrounded _ hnat hsum
  rw [dot_negate, Inequality.negate]
  linarith

lemma generateStrongCgCut_valid {b : Inequality} (hb : p.BaseHolds b)
    (hmarks : p.Marked xstar marks) :
    p.Marked xstar (generateStrongCgCut p.toMixedProblem xstar marks b).1 ∧
      ∀ cut, (generateStrongCgCut p.toMixedProblem xstar marks b).2 = some cut → p.Valid cut := by
  obtain ⟨hsame, hresult⟩ :=
    removeContinuousVariables_spec (p := p.toMixedProblem) marks b
  unfold generateStrongCgCut
  cases hremoved : removeContinuousVariables p.toMixedProblem marks b with
  | mk marks₁ removed =>
    rw [hremoved] at hsame hresult
    have hmarks₁ : p.Marked xstar marks₁ := fun j hj => (hsame j hj).trans (hmarks j hj)
    cases removed with
    | some r =>
      refine ⟨hmarks₁, fun cut hcut => ?_⟩
      obtain ⟨l, hl, hdropped⟩ := hresult
      obtain ⟨rounded, hrounded, hcut⟩ := Option.bind_eq_some_iff.mp hcut
      dsimp only at hcut
      split_ifs at hcut
      cases hcut
      rw [hl] at hrounded
      exact valid_of_dropped hb.lt hb.le hmarks hsame hdropped hrounded
    | none =>
      -- the base is an equality, so its negation holds as well
      have heq : ∀ x ∈ p.feasible, dot b.vector x = b.rhs :=
        fun x hx => (hb.eq x hx).resolve_left hresult
      obtain ⟨hsame', hresult'⟩ :=
        removeContinuousVariables_spec (p := p.toMixedProblem) marks₁ b.negate
      refine ⟨fun j hj => (hsame' j hj).trans (hmarks₁ j hj), fun cut hcut => ?_⟩
      obtain ⟨r, hr, hcut⟩ := Option.bind_eq_some_iff.mp hcut
      obtain ⟨rounded, hrounded, hcut⟩ := Option.bind_eq_some_iff.mp hcut
      dsimp only at hr hrounded hcut
      rw [hr] at hresult'
      obtain ⟨l, hl, hdropped⟩ := hresult'
      split_ifs at hcut
      cases hcut
      rw [hl] at hrounded
      refine valid_of_dropped ?_ (fun x hx => ?_) hmarks₁ hsame' hdropped hrounded
      · intro q hq
        obtain ⟨q₀, hq₀, rfl⟩ := mem_map.mp hq
        exact hb.lt q₀ hq₀
      · rw [dot_negate, heq x hx]
        exact le_rfl

lemma valid_of_mem_strongCgCuts (bases : List Inequality) (hbases : ∀ b ∈ bases, p.BaseHolds b)
    (hmarks : p.Marked xstar marks) {cut : Inequality}
    (hcut : some cut ∈ strongCgCuts p.toMixedProblem xstar bases marks) : p.Valid cut := by
  induction bases generalizing marks with
  | nil => cases hcut
  | cons b rest ih =>
    obtain ⟨hmarks', hvalid⟩ := generateStrongCgCut_valid (hbases b mem_cons_self) hmarks
    rcases mem_cons.mp hcut with hcut | hcut
    · exact hvalid cut hcut.symm
    · exact ih (fun c hc => hbases c (mem_cons_of_mem b hc)) hmarks' hcut

/-- Every cut that one object returns over its rows keeps every feasible point. -/
theorem strongCgCuts_valid (p : RoundedProblem) (xstar : ℕ → ℚ) (bases : List Inequality)
    (hbases : ∀ b ∈ bases, p.BaseHolds b) :
    ∀ cut, some cut ∈ strongCgCuts p.toMixedProblem xstar bases
      (transformedVariable p.toMixedProblem xstar) → p.Valid cut :=
  fun _ hcut => valid_of_mem_strongCgCuts bases hbases (fun _ _ => rfl) hcut

end RoundedProblem

/-- A continuous `x_0` in `(-inf, 0]` and an integer `x_1` in `[0, 5]` whose sum satisfies `row`. -/
def continuousAndInteger (row : ℚ → Prop) : RoundedProblem where
  numVars := 2
  varTypes := fun j => if j = 1 then .integer else .continuous
  lower := fun j => if j = 1 then some 0 else none
  upper := fun j => if j = 1 then some 5 else some 0
  feasible := {x | x 0 ≤ 0 ∧ 0 ≤ x 1 ∧ x 1 ≤ 5 ∧ (∃ k : ℤ, x 1 = k) ∧ row (x 0 + x 1)}
  inBounds := by
    rintro x ⟨hx₀, hlower, hupper, -, -⟩ j hj
    interval_cases j
    · simpa [InBounds] using hx₀
    · simpa [InBounds] using ⟨hlower, hupper⟩
  integral := by
    rintro x ⟨-, -, -, hint, -⟩ j hj hne
    interval_cases j
    · exact absurd rfl hne
    · exact hint
  lower_integral := by
    intro j hj hne l hl
    interval_cases j
    · exact absurd rfl hne
    · exact ⟨0, (Option.some_injective _ hl).symm⟩
  upper_integral := by
    intro j hj hne u hu
    interval_cases j
    · exact absurd rfl hne
    · exact ⟨5, (Option.some_injective _ hu).symm⟩

def sumRow : Inequality := ⟨[(0, 1), (1, 1)], 1 / 2⟩

/-- With `x_0 + x_1 = 1/2` the cut is `2 x_1 >= 2`. -/
theorem strongCgCuts_valid_equality : (continuousAndInteger (· = 1 / 2)).Valid ⟨[(1, 2)], 2⟩ := by
  refine RoundedProblem.strongCgCuts_valid _ (fun j => if j = 1 then 1 / 2 else 0) [sumRow] ?_ _ ?_
  · intro b hb
    cases List.mem_singleton.mp hb
    have hsum : ∀ x : ℕ → ℚ, dot sumRow.vector x = x 0 + x 1 := by
      intro x
      simp [sumRow, dot]
    refine ⟨by decide, fun x hx => ?_, fun x hx => .inr ?_⟩
    · rw [hsum]
      exact hx.2.2.2.2.le
    · rw [hsum]
      exact hx.2.2.2.2
  · decide +kernel

/-- With `x_0 + x_1 <= 1/2` the row is negated all the same, and the cut excludes the origin. -/
theorem strongCgCuts_inequality_not_valid :
    ¬∀ (p : RoundedProblem) (xstar : ℕ → ℚ) (bases : List Inequality),
      (∀ b ∈ bases, (∀ q ∈ b.vector, q.1 < p.numVars) ∧ ∀ x ∈ p.feasible, dot b.vector x ≤ b.rhs) →
      ∀ cut, some cut ∈ strongCgCuts p.toMixedProblem xstar bases
        (transformedVariable p.toMixedProblem xstar) → p.Valid cut := by
  intro h
  have hvalid := h (continuousAndInteger (· ≤ 1 / 2)) (fun j => if j = 1 then 1 / 2 else 0) [sumRow]
    (fun b hb => by
      cases List.mem_singleton.mp hb
      refine ⟨by decide, fun x hx => ?_⟩
      have hsum : dot sumRow.vector x = x 0 + x 1 := by simp [sumRow, dot]
      rw [hsum]
      exact hx.2.2.2.2)
    ⟨[(1, 2)], 2⟩ (by decide +kernel)
  have horigin := hvalid (fun _ => 0)
    ⟨le_rfl, le_rfl, by norm_num, ⟨0, Int.cast_zero.symm⟩, by norm_num⟩
  norm_num [dot] at horigin

end CuOpt.Cuts
