import CuOpt.Presolve.CoeffReduceShapes

/-! A reduced row, in the variables of its row again, has the same 0/1 points, and over the unit cube it
implies its row, with the side that the scaling to integers gives. -/

namespace CuOpt.Presolve

open Cuts Sorting List BitMasks
open Int (cast_zero)
open Function (comp_apply)
open Int (cast)

section Rows

def rowActivity (a : List ℚ) (x : ℕ → ℚ) : ℚ := ((range a.length).map fun j => a.getD j 0 * x j).sum

def Direction.Holds (direction : Direction) (a : List ℚ) (side : ℚ) (x : ℕ → ℚ) : Prop :=
  match direction with
  | lessEqual => rowActivity a x ≤ side
  | greaterEqual => side ≤ rowActivity a x

def RowRewrite.Holds (direction : Direction) (r : RowRewrite) (x : ℕ → ℚ) : Prop :=
  direction.Holds (r.coefficients.map cast) r.side x

lemma sign_mul_sign (direction : Direction) : (direction.sign : ℚ) * direction.sign = 1 := by
  cases direction
  case lessEqual | greaterEqual => norm_num [Direction.sign]

lemma Direction.holds_iff (direction : Direction) (a : List ℚ) (side : ℚ) (x : ℕ → ℚ) :
    direction.Holds a side x ↔ direction.sign * rowActivity a x ≤ direction.sign * side := by
  cases direction
  case lessEqual => rw [Holds, sign, Int.cast_one, one_mul, one_mul]
  case greaterEqual => rw [Holds, sign, Int.cast_neg, Int.cast_one, neg_one_mul, neg_one_mul, neg_le_neg_iff]

lemma getD_map_intCast (a : List ℤ) (j : ℕ) : (a.map cast).getD j 0 = (a.getD j 0 : ℚ) := by
  rw [← cast_zero, getD_map]

lemma rowActivity_map (f : ℚ → ℚ) (hf : f 0 = 0) (a : List ℚ) (x : ℕ → ℚ) :
    rowActivity (a.map f) x = ((range a.length).map fun j => f (a.getD j 0) * x j).sum := by
  rw [rowActivity, length_map]
  congr 2
  funext j
  rw [← hf, getD_map, hf]

lemma rowActivity_map_mul (c : ℚ) (a : List ℚ) (x : ℕ → ℚ) :
    rowActivity (a.map fun v => v * c) x = c * rowActivity a x := by
  rw [rowActivity_map _ (zero_mul c), rowActivity, ← sum_map_mul_left]
  congr 2
  funext j
  ring

lemma map_getD_range {α : Type} (l : List α) (d : α) :
    (range l.length).map (fun i => l.getD i d) = l := by
  apply ext_getElem
  · rw [length_map, length_range]
  · intro i _ hi
    rw [getElem_map, getElem_range, getD_eq_getElem _ _ hi]

lemma sum_map_getD {α K : Type} [AddCommMonoid K] (l : List α) (d : α) (f : α → K) :
    ((range l.length).map fun i => f (l.getD i d)).sum = (l.map f).sum := by
  conv_rhs => rw [← map_getD_range l d, map_map]
  rfl

lemma rowActivity_cons (v : ℚ) (a : List ℚ) (x : ℕ → ℚ) :
    rowActivity (v :: a) x = v * x 0 + rowActivity a fun j => x (j + 1) := by
  rw [rowActivity, length_cons, range_succ_eq_map, map_cons, sum_cons, map_map]
  rfl

lemma rowActivity_set {a : List ℚ} {i : ℕ} (hi : i < a.length) (v : ℚ) (x : ℕ → ℚ) :
    rowActivity (a.set i v) x = rowActivity a x + (v - a.getD i 0) * x i := by
  induction a generalizing i x with
  | nil => exact absurd hi (Nat.not_lt_zero i)
  | cons b a ih =>
    cases i with
    | zero =>
      rw [set_cons_zero, rowActivity_cons, rowActivity_cons, getD_cons_zero]
      ring
    | succ i =>
      rw [set_cons_succ, rowActivity_cons, rowActivity_cons, ih (Nat.lt_of_succ_lt_succ hi),
        getD_cons_succ, add_assoc]

lemma rowActivity_getD (a m : List ℚ) :
    rowActivity a (fun i => m.getD i 0) = (zipWith (fun v y => v * y) a m).sum := by
  induction a generalizing m with
  | nil => rfl
  | cons v a ih =>
    rw [rowActivity_cons]
    cases m with
    | nil =>
      have hzero := ih []
      rw [zipWith_nil_right, sum_nil] at hzero ⊢
      simpa using hzero
    | cons y m =>
      rw [zipWith_cons_cons, sum_cons, ← ih]
      rfl

lemma rowActivity_natCast (w : List ℕ) (y : ℕ → ℚ) : rowActivity (w.map Nat.cast) y =
    ((range w.length).map fun i => (w.getD i 0 : ℚ) * y i).sum := by
  rw [rowActivity, length_map]
  congr 2
  funext j
  rw [← Nat.cast_zero, getD_map]

lemma getD_replicate_self {α : Type} (len i : ℕ) (d : α) : (replicate len d).getD i d = d := by
  rcases lt_or_ge i len with hlt | hge
  · exact getD_replicate d hlt
  · exact getD_eq_default _ d (by rwa [length_replicate])

lemma rowActivity_zero (len : ℕ) (x : ℕ → ℚ) : rowActivity (replicate len 0) x = 0 := by
  rw [rowActivity]
  apply sum_eq_zero
  intro v hv
  obtain ⟨j, -, rfl⟩ := mem_map.mp hv
  rw [getD_replicate_self, zero_mul]

lemma sum_map_sub {α : Type} (l : List α) (f g : α → ℚ) :
    (l.map fun a => f a - g a).sum = (l.map f).sum - (l.map g).sum := by
  induction l with
  | nil => simp
  | cons a l ih =>
    rw [map_cons, map_cons, map_cons, sum_cons, sum_cons, sum_cons, ih]
    ring

end Rows

section Normalization

variable {std : Sorter} {integral : List ℤ} {x : ℕ → ℚ}

def NormEntry.literal (x : ℕ → ℚ) (e : NormEntry) : ℚ := if e.flipped then 1 - x e.slot else x e.slot

lemma slots_perm (std : Sorter) (integral : List ℤ) :
    ((normEntries std integral).map NormEntry.slot).Perm (range integral.length) := by
  rw [normEntries, map_map]
  have hid : (NormEntry.slot ∘ fun j : ℕ =>
      (⟨(integral.getD j 0).natAbs, j, decide (integral.getD j 0 < 0)⟩ : NormEntry)) = id := rfl
  rw [hid, map_id]
  exact std.perm _ _

lemma length_normEntries (std : Sorter) (integral : List ℤ) :
    (normEntries std integral).length = integral.length := by
  have h := (slots_perm std integral).length_eq
  rwa [length_map, length_range] at h

lemma normRhs_eq (integral : List ℤ) (integralSide : ℤ) :
    normRhs integral integralSide = integralSide -
      ((range integral.length).map fun j => min (integral.getD j 0) 0).sum := by
  have hfold : ∀ (l : List ℤ) (rhs : ℤ), (l.filter fun a => decide (a < 0)).foldl (fun rhs a => rhs - a) rhs =
      rhs - (l.map fun a => min a 0).sum := by
    intro l
    induction l with
    | nil => simp
    | cons a l ih =>
      intro rhs
      rw [map_cons, sum_cons]
      rcases lt_or_ge a 0 with hneg | hpos
      · rw [filter_cons_of_pos (by simpa using hneg), foldl_cons, ih, min_eq_left hneg.le, sub_sub]
      · rw [filter_cons_of_neg (by simpa using hpos), ih, min_eq_right hpos, zero_add]
  rw [normRhs, hfold, sum_map_getD integral 0 fun a => min a 0]

/-- The normalized row is the row, the negative coefficients moved to the side. -/
lemma sum_literal (std : Sorter) (integral : List ℤ) (x : ℕ → ℚ) :
    ((normEntries std integral).map fun e => (e.coef : ℚ) * e.literal x).sum =
      rowActivity (integral.map cast) x -
        ((range integral.length).map fun j => ((min (integral.getD j 0) 0 : ℤ) : ℚ)).sum := by
  have hcast : rowActivity (integral.map cast) x =
      ((range integral.length).map fun j => (integral.getD j 0 : ℚ) * x j).sum := by
    rw [rowActivity, length_map]
    congr 2
    funext j
    rw [getD_map_intCast]
  have hterm : ∀ j, ((integral.getD j 0).natAbs : ℚ) *
      (if integral.getD j 0 < 0 then 1 - x j else x j) =
      integral.getD j 0 * x j - ((min (integral.getD j 0) 0 : ℤ) : ℚ) := by
    intro j
    generalize integral.getD j 0 = a
    rw [Nat.cast_natAbs]
    split_ifs with hneg
    · rw [abs_of_neg hneg, min_eq_left hneg.le]
      push_cast
      ring
    · rw [abs_of_nonneg (not_lt.mp hneg), min_eq_right (not_lt.mp hneg), cast_zero, sub_zero]
  rw [hcast, ← sum_map_sub, normEntries, map_map]
  have hsort := (std.perm (fun x y => if (integral.getD x 0).natAbs ≠ (integral.getD y 0).natAbs then
    decide ((integral.getD y 0).natAbs < (integral.getD x 0).natAbs) else decide (x < y))
    (range integral.length)).map fun j => integral.getD j 0 * x j - ((min (integral.getD j 0) 0 : ℤ) : ℚ)
  refine Eq.trans ?_ hsort.sum_eq
  congr 2
  funext j
  rw [← hterm j]
  simp only [comp_apply, NormEntry.literal, decide_eq_true_eq]

end Normalization

section Undo

variable {std : Sorter} {x : ℕ → ℚ}

lemma foldl_placeWeight {zipped : List (NormEntry × ℕ)} (x : ℕ → ℚ) {c : List ℤ} {side : ℤ}
    (hnodup : (zipped.map fun q => q.1.slot).Nodup) (hlt : ∀ q ∈ zipped, q.1.slot < c.length)
    (hzero : ∀ q ∈ zipped, c.getD q.1.slot 0 = 0) :
    rowActivity ((zipped.foldl placeWeight (c, side)).1.map cast) x -
        (zipped.foldl placeWeight (c, side)).2 =
      rowActivity (c.map cast) x - side + (zipped.map fun q => (q.2 : ℚ) * q.1.literal x).sum := by
  induction zipped generalizing c side with
  | nil => simp
  | cons q zipped ih =>
    obtain ⟨hq, hnodup⟩ := nodup_cons.mp hnodup
    obtain ⟨hqlt, hlt⟩ := forall_mem_cons.mp hlt
    obtain ⟨hqzero, hzero⟩ := forall_mem_cons.mp hzero
    have hset : ∀ v : ℤ, rowActivity ((c.set q.1.slot v).map cast) x =
        rowActivity (c.map cast) x + v * x q.1.slot := by
      intro v
      rw [map_set, rowActivity_set (by rwa [length_map]), getD_map_intCast, hqzero, cast_zero,
        sub_zero]
    have hother : ∀ v : ℤ, ∀ q' ∈ zipped, (c.set q.1.slot v).getD q'.1.slot 0 = 0 := by
      intro v q' hq'
      have hne : q.1.slot ≠ q'.1.slot := by
        intro heq
        apply hq
        dsimp only
        rw [heq]
        exact mem_map_of_mem (f := fun q : NormEntry × ℕ => q.1.slot) hq'
      rw [getD_eq_getElem?_getD, getElem?_set_ne hne, ← getD_eq_getElem?_getD]
      exact hzero q' hq'
    have hlength : ∀ v : ℤ, ∀ q' ∈ zipped, q'.1.slot < (c.set q.1.slot v).length := by
      intro v q' hq'
      rw [length_set]
      exact hlt q' hq'
    rw [foldl_cons, placeWeight, map_cons, sum_cons, NormEntry.literal]
    split_ifs with hflipped
    · rw [ih hnodup (hlength _) (hother _), hset]
      push_cast
      ring
    · rw [ih hnodup (hlength _) (hother _), hset]
      push_cast
      ring

lemma holds_undoNormalization {direction : Direction} {entries : List NormEntry} {r : Reduction} {len : ℕ}
    (hslots : (entries.map NormEntry.slot).Perm (range len))
    (hlen : r.weights.length = entries.length) :
    direction.Holds ((undoNormalization direction len entries r).1.map cast)
        (undoNormalization direction len entries r).2 x ↔
      ((entries.zip r.weights).map fun q => (q.2 : ℚ) * q.1.literal x).sum ≤ r.bound := by
  have hfst : (entries.zip r.weights).map Prod.fst = entries := map_fst_zip hlen.ge
  have hslotMap : (entries.zip r.weights).map (fun q => q.1.slot) = entries.map NormEntry.slot := by
    conv_rhs => rw [← hfst, map_map]
    rfl
  have hfold := @foldl_placeWeight (entries.zip r.weights) x (replicate len 0) r.bound
    (hslotMap ▸ hslots.nodup_iff.mpr nodup_range)
    (fun q hq => by
      rw [length_replicate, ← mem_range, ← hslots.mem_iff, ← hslotMap]
      exact mem_map_of_mem (f := fun q : NormEntry × ℕ => q.1.slot) hq)
    (fun q _ => getD_replicate_self _ _ _)
  rw [map_replicate, cast_zero, rowActivity_zero] at hfold
  rw [undoNormalization, Direction.holds_iff]
  generalize (entries.zip r.weights).foldl placeWeight (replicate len 0, r.bound) = undone at hfold
  have hsign : ((undone.1.map fun c => c * direction.sign).map cast : List ℚ) =
      (undone.1.map cast).map fun v => v * (direction.sign : ℚ) := by
    rw [map_map, map_map]
    congr 1
    funext c
    exact Int.cast_mul _ _
  have hsquare := sign_mul_sign direction
  dsimp only
  rw [hsign, rowActivity_map_mul, ← mul_assoc, hsquare, one_mul, Int.cast_mul, mul_left_comm, hsquare, mul_one]
  constructor
  · intro h
    linarith
  · intro h
    linarith

end Undo

section Reduced

variable {std : Sorter} {cache cache' : Option (ShapeCache std)} {coefficients : List ℚ} {side : ℚ}
  {direction : Direction} {rewrite : RowRewrite} {x : ℕ → ℚ}

lemma cachedReduce_fst (cache : Option (ShapeCache std)) (row : RowShape) :
    (cachedReduce cache row).1 = reduceShape std row := by
  cases cache with
  | none => rfl
  | some cache =>
    simp only [cachedReduce]
    split
    case h_1 r hr => exact cache.sound row r hr
    case h_2 => rfl

lemma bhwReduceRow_cases
    (h : bhwReduceRow std coefficients side direction cache = (some rewrite, cache')) :
    2 ≤ coefficients.length ∧ scalingBoundFinite side = true ∧ ∃ scale integral integralSide r,
      rowIntScale coefficients side maxLen intScaleMax = some scale ∧
      integralRow coefficients side direction scale = (integral, integralSide) ∧ 0 ∉ integral ∧
      reduceShape std ⟨(normEntries std integral).map NormEntry.coef, normRhs integral integralSide⟩ =
        some r ∧
      integerizationPreservesBinaryFeasibleSet coefficients side direction integral integralSide = true ∧
      rewrite.coefficients =
        (undoNormalization direction coefficients.length (normEntries std integral) r).1 ∧
      rewrite.side = (undoNormalization direction coefficients.length (normEntries std integral) r).2 := by
  have hnone : ∀ {c : Option (ShapeCache std)}, (none, c) ≠ (some rewrite, cache') := by
    intro c heq
    cases (Prod.mk.inj heq).1
  rw [bhwReduceRow] at h
  by_cases hlen : coefficients.length < 2 ∨ maxLen < coefficients.length
  · rw [if_pos hlen] at h
    exact absurd h hnone
  rw [if_neg hlen] at h
  cases hfinite : scalingBoundFinite side with
  | false =>
    rw [hfinite] at h
    exact absurd h hnone
  | true =>
  refine ⟨not_lt.mp (not_or.mp hlen).1, rfl, ?_⟩
  rw [hfinite, Bool.not_true, if_neg Bool.false_ne_true] at h
  split at h
  case h_1 => exact absurd h hnone
  case h_2 scale hscale =>
    generalize hintegral : integralRow coefficients side direction scale = scaled at h
    obtain ⟨integral, integralSide⟩ := scaled
    dsimp only at h
    by_cases hzero : 0 ∈ integral
    · rw [if_pos hzero] at h
      exact absurd h hnone
    rw [if_neg hzero] at h
    split at h
    case isTrue => exact absurd h hnone
    case isFalse =>
    have hfst := cachedReduce_fst cache
      ⟨(normEntries std integral).map NormEntry.coef, normRhs integral integralSide⟩
    split at h
    case h_1 => exact absurd h hnone
    case h_2 r hr =>
      cases hpreserves : integerizationPreservesBinaryFeasibleSet coefficients side direction integral
          integralSide with
      | false =>
        rw [hpreserves] at h
        exact absurd h hnone
      | true =>
        rw [hpreserves, Bool.not_true, if_neg Bool.false_ne_true] at h
        obtain rfl := Option.some.inj (Prod.mk.inj h).1
        exact ⟨scale, integral, integralSide, r, hscale, hintegral, hzero, hfst.symm.trans hr, hpreserves,
          rfl, rfl⟩

/-- At a 0/1 point the activity is that of its mask. -/
lemma pointActivity_eq_rowActivity {a : List ℚ} {mask : ℕ} (hx : ∀ j < a.length, x j = 0 ∨ x j = 1)
    (hmask : support a.length mask = (Finset.range a.length).filter fun j => x j = 1) :
    pointActivity a mask = rowActivity a x := by
  rw [pointActivity_eq, hmask, rowActivity, sum_mul_zeroOne hx]

lemma cast_pointActivity (a : List ℤ) (mask : ℕ) :
    ((pointActivity a mask : ℤ) : ℚ) = pointActivity (a.map cast : List ℚ) mask := by
  rw [pointActivity_eq, pointActivity_eq, Int.cast_sum, length_map]
  apply Finset.sum_congr rfl
  intro i _
  rw [getD_map_intCast]

/-- The scaled row has the 0/1 points of the row. -/
lemma holds_iff_integral {integral : List ℤ} {integralSide : ℤ}
    (h : integerizationPreservesBinaryFeasibleSet coefficients side direction integral integralSide = true)
    (hlen : integral.length = coefficients.length) (hx : ∀ j < coefficients.length, x j = 0 ∨ x j = 1) :
    direction.Holds coefficients side x ↔ rowActivity (integral.map cast) x ≤ integralSide := by
  obtain ⟨mask, hmask, hsupport⟩ := exists_mask
    (Finset.filter_subset (fun j => x j = 1) (Finset.range coefficients.length))
  rw [integerizationPreservesBinaryFeasibleSet, all_eq_true] at h
  have hsame := h mask (mem_range.mpr hmask)
  have horiginal := pointActivity_eq_rowActivity hx hsupport
  have hintegral : ((pointActivity integral mask : ℤ) : ℚ) = rowActivity (integral.map cast) x := by
    rw [cast_pointActivity]
    apply pointActivity_eq_rowActivity
    · rwa [length_map, hlen]
    · rwa [length_map, hlen]
  rw [← hintegral, Int.cast_le]
  cases direction
  case lessEqual | greaterEqual =>
    rw [Direction.Holds, ← horiginal]
    simpa only [beq_iff_eq, decide_eq_decide] using hsame

lemma literal_mem_unit {e : NormEntry} (hx : 0 ≤ x e.slot ∧ x e.slot ≤ 1) :
    0 ≤ e.literal x ∧ e.literal x ≤ 1 := by
  rw [NormEntry.literal]
  split_ifs
  · constructor
    · linarith
    · linarith
  · exact hx

lemma literal_zeroOne {e : NormEntry} (hx : x e.slot = 0 ∨ x e.slot = 1) :
    e.literal x = 0 ∨ e.literal x = 1 := by
  rw [NormEntry.literal]
  split_ifs
  · rcases hx with hzero | hone
    · exact .inr (by rw [hzero, sub_zero])
    · exact .inl (by rw [hone, sub_self])
  · exact hx

/-- A property of the values of the variables and of their complements holds of the literals. -/
lemma forall_literal {P : ℚ → Prop} {integral : List ℤ}
    (hP : ∀ e ∈ normEntries std integral, P (e.literal x)) :
    ∀ i < (normEntries std integral).length,
      P (((normEntries std integral).map fun e => e.literal x).getD i 0) := by
  intro i hi
  rw [getD_eq_getElem _ _ (by rwa [length_map]), getElem_map]
  exact hP _ (getElem_mem hi)

lemma slot_lt {integral : List ℤ} {e : NormEntry} (he : e ∈ normEntries std integral) :
    e.slot < integral.length := by
  rw [← mem_range, ← (slots_perm std integral).mem_iff]
  exact mem_map_of_mem he

/-- In the variables of the row: the reduced row has the 0/1 points of the scaled one, and implies it over
the unit cube. -/
lemma reduceShape_literals {integral : List ℤ} {integralSide : ℤ} {r : Reduction}
    (h : reduceShape std ⟨(normEntries std integral).map NormEntry.coef,
      normRhs integral integralSide⟩ = some r)
    (hlen : 1 ≤ integral.length) :
    r.weights.length = (normEntries std integral).length ∧
      ((∀ j < integral.length, x j = 0 ∨ x j = 1) →
        (rowActivity (integral.map cast) x ≤ integralSide ↔
          (((normEntries std integral).zip r.weights).map fun q => (q.2 : ℚ) * q.1.literal x).sum ≤ r.bound)) ∧
      ((∀ j < integral.length, 0 ≤ x j ∧ x j ≤ 1) →
        (((normEntries std integral).zip r.weights).map fun q => (q.2 : ℚ) * q.1.literal x).sum ≤ r.bound →
          rowActivity (integral.map cast) x ≤ integralSide) := by
  have hslot : ∀ e ∈ normEntries std integral, e.slot < integral.length := fun e => slot_lt
  have hliteral := sum_literal std integral x
  have hrhs := normRhs_eq integral integralSide
  rw [← length_normEntries std integral] at hlen
  have hforall := fun P => @forall_literal std x P integral
  generalize normEntries std integral = entries at *
  have hspec := reduceShape_spec h (by rwa [length_map])
  rw [length_map] at hspec
  obtain ⟨hlength, hpoints, hcube⟩ := hspec
  have hweights : ((range entries.length).map fun i =>
      (r.weights.getD i 0 : ℚ) * (entries.map fun e => e.literal x).getD i 0).sum =
      ((entries.zip r.weights).map fun q => (q.2 : ℚ) * q.1.literal x).sum := by
    rw [← hlength, ← rowActivity_natCast, rowActivity_getD, zipWith_map, zipWith_comm,
      map_zip_eq_zipWith]
    rfl
  have hcoef : ((range entries.length).map fun i =>
      ((entries.map NormEntry.coef).getD i 0 : ℚ) * (entries.map fun e => e.literal x).getD i 0).sum =
      (entries.map fun e => (e.coef : ℚ) * e.literal x).sum := by
    have hnat := rowActivity_natCast (entries.map NormEntry.coef)
      fun i => (entries.map fun e => e.literal x).getD i 0
    rw [length_map, rowActivity_getD, zipWith_map, zipWith_map_left, zipWith_self] at hnat
    exact hnat.symm
  have hshift : rowActivity (integral.map cast) x ≤ integralSide ↔
      (entries.map fun e => (e.coef : ℚ) * e.literal x).sum ≤ (normRhs integral integralSide : ℤ) := by
    rw [hliteral, hrhs, Int.cast_sub, Int.cast_list_sum, map_map]
    exact (sub_le_sub_iff_right _).symm
  rw [hshift, ← hweights, ← hcoef]
  refine ⟨hlength, ?_, ?_⟩
  · intro hx
    exact hpoints _ (hforall (fun v => v = 0 ∨ v = 1) fun e he => literal_zeroOne (hx _ (hslot e he)))
  · intro hx
    exact hcube _ (hforall (fun v => 0 ≤ v ∧ v ≤ 1) fun e he => literal_mem_unit (hx _ (hslot e he)))

def scaledSide (side scale : ℚ) : ℚ := stdRound (side * scale) / scale

lemma rowActivity_integralRow {A : List ℤ} {scale : ℚ}
    (hexact : ∀ a ∈ A, ∃ k : ℤ, scale * a = k) (side : ℚ) (direction : Direction) (x : ℕ → ℚ) :
    rowActivity ((integralRow (A.map cast) side direction scale).1.map cast) x =
      scale * (direction.sign * rowActivity (A.map cast) x) := by
  have hmap : ((integralRow (A.map cast) side direction scale).1.map cast : List ℚ) =
      (A.map cast).map fun v => v * (scale * direction.sign) := by
    rw [integralRow, map_map, map_map, map_map]
    apply map_congr_left
    intro a ha
    obtain ⟨k, hk⟩ := hexact a ha
    have hround : stdRound ((a : ℚ) * scale) = k := by rw [mul_comm, hk, stdRound_intCast]
    rw [comp_apply, comp_apply, comp_apply, hround, Int.cast_mul, ← hk]
    ring
  rw [hmap, rowActivity_map_mul]
  ring

/-- Where a row with integer coefficients is reduced, the 0/1 points are the same, and over the unit cube
the reduced row implies the row, with the side rounded to the scale; an integer side is kept by that. -/
theorem bhwReduceRow_points {A : List ℤ}
    (h : bhwReduceRow std (A.map cast) side direction cache = (some rewrite, cache')) :
    (∀ x : ℕ → ℚ, (∀ j < A.length, x j = 0 ∨ x j = 1) →
      (rewrite.Holds direction x ↔ direction.Holds (A.map cast) side x)) ∧
    ∃ scale, rowIntScale (A.map cast) side maxLen intScaleMax = some scale ∧ 0 < scale ∧
      |scaledSide side scale - side| ≤ intcheckTol / scale ∧
      ((∃ k : ℤ, side = k) → scaledSide side scale = side) ∧
      ∀ x : ℕ → ℚ, (∀ j < A.length, 0 ≤ x j ∧ x j ≤ 1) → rewrite.Holds direction x →
        direction.Holds (A.map cast) (scaledSide side scale) x := by
  obtain ⟨hlen, hfinite, scale, integral, integralSide, r, hscale, hintegral, hzero, hr, hpreserves, hcoefs,
    hside⟩ := bhwReduceRow_cases h
  have hfst : integral = (integralRow (A.map cast) side direction scale).1 := by rw [hintegral]
  have hsnd : integralSide = (integralRow (A.map cast) side direction scale).2 := by rw [hintegral]
  have hlength : integral.length = A.length := by
    rw [hfst, integralRow, length_map, length_map]
  rw [length_map] at hlen
  have hholds : ∀ x, rewrite.Holds direction x ↔
      (((normEntries std integral).zip r.weights).map fun q => (q.2 : ℚ) * q.1.literal x).sum ≤ r.bound := by
    intro x
    rw [RowRewrite.Holds, hcoefs, hside]
    apply holds_undoNormalization
    · rw [length_map, ← hlength]
      exact slots_perm std integral
    · exact (reduceShape_literals (x := x) hr (by omega)).1
  constructor
  · intro x hx
    rw [hholds, holds_iff_integral hpreserves (by rw [hlength, length_map]) (by rwa [length_map])]
    exact ((reduceShape_literals hr (by omega)).2.1 (hlength ▸ hx)).symm
  · -- no coefficient is zero, as its integer is not
    obtain ⟨z, hz⟩ := exists_mem_of_length_pos (show 0 < A.length by omega)
    have hz0 : z ≠ 0 := by
      rintro rfl
      apply hzero
      rw [hfst, integralRow]
      apply List.mem_map.mpr
      refine ⟨0, ?_, ?_⟩
      · exact List.mem_map.mpr ⟨0, hz, cast_zero⟩
      · have hround : stdRound ((0 : ℚ) * scale) = 0 := by
          rw [zero_mul, ← cast_zero, stdRound_intCast]
        rw [hround, zero_mul]
    obtain ⟨hpos, hnear, hexact⟩ := rowIntScale_spec hscale hfinite (mem_map_of_mem hz) hz0
    refine ⟨scale, hscale, hpos, ?_, ?_, ?_⟩
    · rw [mul_comm scale side] at hnear
      rw [scaledSide, div_sub' hpos.ne', abs_div, abs_of_pos hpos, mul_comm scale side, abs_sub_comm]
      exact div_le_div_of_nonneg_right hnear hpos.le
    · rintro ⟨k, rfl⟩
      obtain ⟨m, hm⟩ := hexact k (.inr rfl)
      rw [scaledSide, mul_comm, hm, stdRound_intCast, ← hm, mul_div_cancel_left₀ _ hpos.ne']
    · intro x hx hrewrite
      have hscaled := (reduceShape_literals hr (by omega)).2.2 (hlength ▸ hx) ((hholds x).mp hrewrite)
      have hall : ∀ a ∈ A, ∃ k : ℤ, scale * a = k := fun a ha => hexact a (.inl (mem_map_of_mem ha))
      rw [hfst, rowActivity_integralRow hall, hsnd, integralRow] at hscaled
      rw [Direction.holds_iff, scaledSide]
      apply le_of_mul_le_mul_left _ hpos
      rw [mul_left_comm scale (direction.sign : ℚ) (_ / scale), mul_div_cancel₀ _ hpos.ne', mul_comm]
      push_cast at hscaled
      linarith

/-- `9 x₀ + 2 x₁ + 2 x₂ ≤ 3` becomes `3 x₀ + x₁ + x₂ ≤ 1`. -/
theorem bhwReduceRow_points_three :
    (∀ x : ℕ → ℚ, (∀ j < 3, x j = 0 ∨ x j = 1) →
      (RowRewrite.Holds .lessEqual ⟨[3, 1, 1], 1, 9, 3⟩ x ↔
        Direction.lessEqual.Holds ([9, 2, 2].map cast) 3 x)) ∧
    ∃ scale, rowIntScale ([9, 2, 2].map cast) 3 maxLen intScaleMax = some scale ∧ 0 < scale ∧
      |scaledSide 3 scale - 3| ≤ intcheckTol / scale ∧
      ((∃ k : ℤ, (3 : ℚ) = k) → scaledSide 3 scale = 3) ∧
      ∀ x : ℕ → ℚ, (∀ j < 3, 0 ≤ x j ∧ x j ≤ 1) → RowRewrite.Holds .lessEqual ⟨[3, 1, 1], 1, 9, 3⟩ x →
        Direction.lessEqual.Holds ([9, 2, 2].map cast) (scaledSide 3 scale) x := by
  have hrewrite : (bhwReduceRow insertionSorter ([9, 2, 2].map cast) 3 .lessEqual none).1 =
      some ⟨[3, 1, 1], 1, 9, 3⟩ := by decide +kernel
  have hcache : (bhwReduceRow insertionSorter ([9, 2, 2].map cast) 3 .lessEqual none).2 = none :=
    Option.isNone_iff_eq_none.mp (by decide +kernel)
  exact bhwReduceRow_points (Prod.ext hrewrite hcache)

/-- A result from the cache is the one computed. -/
example :
    let first := bhwReduceRow insertionSorter [-6, 4, 3, -2] 1 .lessEqual (some (ShapeCache.empty _))
    let again := bhwReduceRow insertionSorter [-6, 4, 3, -2] 1 .lessEqual first.2
    again.1 = first.1 ∧ first.1 = some ⟨[-3, 2, 1, -1], 0, 6, 3⟩ := by decide +kernel

/-- The side `3 - 2 ^ -51` is scaled to `3`: the point `(1/3, 0, 0)` satisfies the reduced row only. -/
theorem bhwReduceRow_nearThree : ∃ rewrite : RowRewrite, ∃ x : ℕ → ℚ,
    (bhwReduceRow insertionSorter ([9, 2, 2].map cast) (3 - 1 / 2 ^ 51) .lessEqual none).1 =
      some rewrite ∧ (∀ j, 0 ≤ x j ∧ x j ≤ 1) ∧ rewrite.Holds .lessEqual x ∧
    ¬Direction.lessEqual.Holds ([9, 2, 2].map cast) (3 - 1 / 2 ^ 51) x := by
  refine ⟨⟨[3, 1, 1], 1, 9, 3⟩, fun j => if j = 0 then 1 / 3 else 0, by decide +kernel, ?_, ?_, ?_⟩
  · intro j
    dsimp only
    split_ifs
    · norm_num
    · norm_num
  · rw [RowRewrite.Holds, Direction.Holds]
    decide +kernel
  · rw [Direction.Holds]
    decide +kernel

end Reduced

end CuOpt.Presolve
