import CuOpt.Cuts.Inequality
import CuOpt.Library.ParityElimination

/-! Sets of rows whose parities cancel with an odd right-hand side, found by elimination over the
field with two elements. -/

namespace CuOpt.Cuts

open ParityElimination List Finset
open Function (update)

structure Mod2ParityRow where
  parity : List ℕ
  rhsParity : Bool
  sorted : parity.Pairwise (· < ·)

structure Mod2BasisRow where
  parity : List ℕ
  combination : List ℕ
  rhs : Bool

/-- The limits of a call: `timeUp` is the clock read before a candidate, `sortWork` the charge for
sorting that many rows, and no work estimate means that no work is counted. -/
structure Mod2Limits where
  maxCombinationSize : ℕ
  maxCombinations : ℕ
  workEstimate : Option ℚ
  maxWorkEstimate : WithTop ℚ
  sortWork : ℕ → ℚ
  timeUp : ℕ → Bool

variable (rows : List Mod2ParityRow)

def parityOf (i : ℕ) : List ℕ := ((rows[i]?).map Mod2ParityRow.parity).getD []

def rhsOf (i : ℕ) : Bool := ((rows[i]?).map Mod2ParityRow.rhsParity).getD false

/-- Small rows first, and even right-hand sides before odd ones; equal rows keep their order. -/
def NotAfter (a b : ℕ) : Prop :=
  (parityOf rows a).length < (parityOf rows b).length ∨
    (parityOf rows a).length = (parityOf rows b).length ∧ (rhsOf rows a ≤ rhsOf rows b)

instance : DecidableRel (NotAfter rows) :=
  fun _ _ => inferInstanceAs (Decidable (_ ∨ _ ∧ _))

def rowOrder : List ℕ := (List.range rows.length).insertionSort (NotAfter rows)

def pivotCount : ℕ := (rows.flatMap Mod2ParityRow.parity).foldl (fun m k => max m (k + 1)) 0

structure Elimination where
  pivotToBasis : ℕ → Option ℕ
  basis : List Mod2BasisRow
  combinations : List (List ℕ)
  workEstimate : Option ℚ
  /-- a work or time limit has ended the search -/
  limitMet : Bool

inductive Reduction where
  | reduced (current : Mod2BasisRow)
  | abandoned

variable {rows}

/-- The inner loop on one candidate, with the work it has done. -/
def reduceRow (limits : Mod2Limits) (e : Elimination) :
    ℕ → Mod2BasisRow → ℚ → Option (Reduction × ℚ)
  | 0, _, _ => none
  | fuel + 1, current, work =>
    match current.parity with
    | [] => some (.reduced current, work)
    | pivot :: _ =>
      match (e.pivotToBasis pivot).bind (e.basis[·]?) with
      | none => some (.reduced current, work)
      | some pivotRow =>
        let work := work + (current.parity.length + pivotRow.parity.length +
          current.combination.length + pivotRow.combination.length)
        let parity := symmetricDifference current.parity pivotRow.parity
        let combination := symmetricDifference current.combination pivotRow.combination
        if limits.maxCombinationSize < combination.length then some (.abandoned, work)
        else reduceRow limits e fuel ⟨parity, combination, current.rhs != pivotRow.rhs⟩ work

variable (rows)

def candidateRow (candidate : ℕ) : Mod2BasisRow :=
  ⟨parityOf rows candidate, [candidate], rhsOf rows candidate⟩

def eliminate (limits : Mod2Limits) : List ℕ → Elimination → Option Elimination
  | [], e => some e
  | candidate :: rest, e =>
    if limits.timeUp candidate then some { e with limitMet := true }
    else
      (reduceRow limits e (pivotCount rows + 1) (candidateRow rows candidate)
        ((parityOf rows candidate).length + 2)).bind fun (outcome, candidateWork) =>
      let (work, isOver) := addWorkEstimate candidateWork e.workEstimate limits.maxWorkEstimate
      let e := { e with workEstimate := work }
      if isOver then some { e with limitMet := true }
      else
        match outcome with
        | .abandoned => eliminate limits rest e
        | .reduced current =>
          match current.parity with
          | [] =>
            if current.rhs && !current.combination.isEmpty then
              let e := { e with combinations := e.combinations ++ [current.combination] }
              if limits.maxCombinations ≤ e.combinations.length then some e
              else eliminate limits rest e
            else eliminate limits rest e
          | pivot :: _ =>
            eliminate limits rest
              { e with
                pivotToBasis := Function.update e.pivotToBasis pivot (some e.basis.length)
                basis := e.basis ++ [current] }

def inputScanWork : ℚ := (rows.map fun row => (row.parity.length + 1 : ℚ)).sum

def findMod2RowCombinations (limits : Mod2Limits) : Option Elimination :=
  let start : Elimination := ⟨fun _ => none, [], [], limits.workEstimate, false⟩
  let (work, isOver) := addWorkEstimate (inputScanWork rows) start.workEstimate limits.maxWorkEstimate
  if isOver then some { start with workEstimate := work, limitMet := true }
  else
    let (work, isOver) :=
      addWorkEstimate (limits.sortWork rows.length) work limits.maxWorkEstimate
    if isOver then some { start with workEstimate := work, limitMet := true }
    else
      let (work, isOver) := addWorkEstimate (pivotCount rows) work limits.maxWorkEstimate
      if isOver then some { start with workEstimate := work, limitMet := true }
      else eliminate rows limits (rowOrder rows) { start with workEstimate := work }

section Correctness

variable {rows}

/-- The rows of a set have parities that cancel and an odd sum of right-hand sides. -/
def OddCancellation (rows : List Mod2ParityRow) (S : Finset ℕ) : Prop :=
  (∀ k, Even {i ∈ S | k ∈ parityOf rows i}.card) ∧ Odd {i ∈ S | rhsOf rows i = true}.card

def vectorOf (parity : List ℕ) (rhs : Bool) : (ℕ → ZMod 2) × ZMod 2 :=
  (indicator parity, if rhs then 1 else 0)

lemma vectorOf_symmetricDifference {p q : List ℕ} (hp : p.Pairwise (· < ·))
    (hq : q.Pairwise (· < ·)) (r s : Bool) :
    vectorOf (symmetricDifference p q) (r != s) = vectorOf p r + vectorOf q s := by
  refine Prod.ext (indicator_symmetricDifference hp hq) ?_
  show (if (r != s) then 1 else 0) = (if r then (1 : ZMod 2) else 0) + if s then 1 else 0
  cases r <;> cases s <;> decide

variable (rows) in
def rowVector (i : ℕ) : (ℕ → ZMod 2) × ZMod 2 := vectorOf (parityOf rows i) (rhsOf rows i)

variable (rows) in
def combine (c : List ℕ) : (ℕ → ZMod 2) × ZMod 2 :=
  ∑ i ∈ Finset.range rows.length, indicator c i • rowVector rows i

variable {c todo : List ℕ}

lemma combine_symmetricDifference {d : List ℕ} (hc : c.Pairwise (· < ·))
    (hd : d.Pairwise (· < ·)) :
    combine rows (symmetricDifference c d) = combine rows c + combine rows d := by
  rw [combine, indicator_symmetricDifference hc hd, combine, combine, ← sum_add_distrib]
  refine sum_congr rfl fun i _ => ?_
  rw [Pi.add_apply, add_smul]

variable {i : ℕ}

lemma combine_singleton (hi : i < rows.length) : combine rows [i] = rowVector rows i := by
  rw [combine, sum_eq_single i]
  · rw [indicator, if_pos (List.mem_singleton_self i), one_smul]
  · intro j _ hne
    rw [indicator, if_neg fun h => hne (List.mem_singleton.mp h), zero_smul]
  · intro hnot
    exact absurd (Finset.mem_range.mpr hi) hnot

lemma combine_eq_sum (hc : ∀ i ∈ c, i < rows.length) :
    combine rows c = ∑ i ∈ c.toFinset, rowVector rows i := by
  have hsubset : c.toFinset ⊆ Finset.range rows.length := by
    intro i hi
    exact Finset.mem_range.mpr (hc i (List.mem_toFinset.mp hi))
  rw [combine, ← sum_subset hsubset]
  · refine sum_congr rfl fun i hi => ?_
    rw [indicator, if_pos (List.mem_toFinset.mp hi), one_smul]
  · intro i _ hi
    rw [indicator, if_neg fun h => hi (List.mem_toFinset.mpr h), zero_smul]

lemma sum_rowVector_fst (S : Finset ℕ) (k : ℕ) :
    (∑ i ∈ S, rowVector rows i).1 k = ({i ∈ S | k ∈ parityOf rows i}.card : ZMod 2) := by
  rw [Prod.fst_sum, Finset.sum_apply, ← sum_boole]
  rfl

lemma sum_rowVector_snd (S : Finset ℕ) :
    (∑ i ∈ S, rowVector rows i).2 = ({i ∈ S | rhsOf rows i = true}.card : ZMod 2) := by
  rw [Prod.snd_sum, ← sum_boole]
  rfl

lemma oddCancellation_iff (S : Finset ℕ) :
    OddCancellation rows S ↔ ∑ i ∈ S, rowVector rows i = (0, 1) := by
  rw [Prod.ext_iff, sum_rowVector_snd, ZMod.natCast_eq_one_iff_odd, OddCancellation,
    and_congr_left_iff]
  intro _
  rw [funext_iff]
  refine forall_congr' fun k => ?_
  rw [sum_rowVector_fst]
  exact ZMod.natCast_eq_zero_iff_even.symm

structure Mod2BasisRow.Sound (rows : List Mod2ParityRow) (limits : Mod2Limits)
    (row : Mod2BasisRow) : Prop where
  parity_sorted : row.parity.Pairwise (· < ·)
  parity_lt : ∀ k ∈ row.parity, k < pivotCount rows
  combination_sorted : row.combination.Pairwise (· < ·)
  combination_lt : ∀ i ∈ row.combination, i < rows.length
  combination_le : row.combination.length ≤ limits.maxCombinationSize
  vector : vectorOf row.parity row.rhs = combine rows row.combination

variable {limits : Mod2Limits} {e : Elimination}

lemma parityOf_sorted (i : ℕ) : (parityOf rows i).Pairwise (· < ·) := by
  unfold parityOf
  cases rows[i]? with
  | none => exact List.Pairwise.nil
  | some row => exact row.sorted

lemma lt_foldl_max {l : List ℕ} {k : ℕ} (hk : k ∈ l) (m : ℕ) :
    k < l.foldl (fun m k => max m (k + 1)) m := by
  have hmono : ∀ (l : List ℕ) (m : ℕ), m ≤ l.foldl (fun m k => max m (k + 1)) m := by
    intro l
    induction l with
    | nil => exact fun m => le_rfl
    | cons a l ih => exact fun m => (le_max_left m (a + 1)).trans (ih _)
  induction l generalizing m with
  | nil => cases hk
  | cons a l ih =>
    rcases List.mem_cons.mp hk with rfl | hk
    · have hmax : k + 1 ≤ max m (k + 1) := le_max_right m (k + 1)
      exact Nat.lt_of_succ_le (hmax.trans (hmono l _))
    · exact ih hk _

lemma parityOf_lt {k : ℕ} (hk : k ∈ parityOf rows i) : k < pivotCount rows := by
  unfold parityOf at hk
  cases hrow : rows[i]? with
  | none =>
    rw [hrow] at hk
    cases hk
  | some row =>
    rw [hrow] at hk
    exact lt_foldl_max (mem_flatMap.mpr ⟨row, mem_of_getElem? hrow, hk⟩) 0

lemma candidateRow_sound (hi : i < rows.length) (hmax : 0 < limits.maxCombinationSize) :
    (candidateRow rows i).Sound rows limits where
  parity_sorted := parityOf_sorted i
  parity_lt := fun _ => parityOf_lt
  combination_sorted := pairwise_singleton _ i
  combination_lt := fun _ hj => List.mem_singleton.mp hj ▸ hi
  combination_le := hmax
  vector := (combine_singleton hi).symm

/-- The sum of two rows that are sums of the rows they record. -/
lemma Mod2BasisRow.Sound.symmetricDifference {row row' : Mod2BasisRow}
    (h : row.Sound rows limits) (h' : row'.Sound rows limits)
    (hsize : (ParityElimination.symmetricDifference row.combination row'.combination).length ≤
      limits.maxCombinationSize) :
    Mod2BasisRow.Sound rows limits
      ⟨ParityElimination.symmetricDifference row.parity row'.parity,
        ParityElimination.symmetricDifference row.combination row'.combination,
        row.rhs != row'.rhs⟩ where
  parity_sorted := sorted_symmetricDifference h.parity_sorted h'.parity_sorted
  parity_lt := fun k hk => (mem_or_of_mem hk).elim (h.parity_lt k) (h'.parity_lt k)
  combination_sorted := sorted_symmetricDifference h.combination_sorted h'.combination_sorted
  combination_lt := fun i hi =>
    (mem_or_of_mem hi).elim (h.combination_lt i) (h'.combination_lt i)
  combination_le := hsize
  vector := by
    rw [vectorOf_symmetricDifference h.parity_sorted h'.parity_sorted, h.vector, h'.vector,
      combine_symmetricDifference h.combination_sorted h'.combination_sorted]

def Mod2BasisRow.vec (row : Mod2BasisRow) : (ℕ → ZMod 2) × ZMod 2 := vectorOf row.parity row.rhs

def Elimination.vectors (e : Elimination) : Set ((ℕ → ZMod 2) × ZMod 2) :=
  Mod2BasisRow.vec '' {row | row ∈ e.basis}

def Elimination.pivots (e : Elimination) : Set ℕ := {p | e.pivotToBasis p ≠ none}

structure Elimination.Sound (rows : List Mod2ParityRow) (limits : Mod2Limits)
    (e : Elimination) : Prop where
  basis : ∀ row ∈ e.basis, row.Sound rows limits
  pivot : ∀ p j, e.pivotToBasis p = some j →
    ∃ row, e.basis[j]? = some row ∧ row.parity.head? = some p
  echelon : Echelon (K := ZMod 2) e.vectors e.pivots
  found : ∀ c ∈ e.combinations, c.Nodup ∧ (∀ i ∈ c, i < rows.length) ∧
    c.length ≤ limits.maxCombinationSize ∧ OddCancellation rows c.toFinset

/-- What a reduction may come to: a row that differs from the first one by a sum of basis rows and
whose first index, if any, is no pivot yet; or more rows than a combination may have. -/
def Reduction.Fits (rows : List Mod2ParityRow) (limits : Mod2Limits) (e : Elimination)
    (first : Mod2BasisRow) : Reduction → Prop
  | .reduced current => current.Sound rows limits ∧
      first.vec - current.vec ∈ Submodule.span (ZMod 2) e.vectors ∧
      ∀ p tail, current.parity = p :: tail → e.pivotToBasis p = none
  | .abandoned => limits.maxCombinationSize < rows.length

lemma length_le_of_sorted {n : ℕ} (hc : c.Pairwise (· < ·)) (hn : ∀ i ∈ c, i < n) :
    c.length ≤ n := by
  have hnodup : c.Nodup := hc.imp fun h => h.ne
  rw [← toFinset_card_of_nodup hnodup, ← card_range n]
  refine card_le_card fun i hi => ?_
  exact Finset.mem_range.mpr (hn i (List.mem_toFinset.mp hi))

lemma reduceRow_fits (h : e.Sound rows limits) (first : Mod2BasisRow) :
    ∀ (fuel : ℕ) (current : Mod2BasisRow) (work : ℚ), current.Sound rows limits →
      first.vec - current.vec ∈ Submodule.span (ZMod 2) e.vectors →
      (∀ k ∈ current.parity, pivotCount rows ≤ k + fuel) →
      ∃ outcome work', reduceRow limits e (fuel + 1) current work = some (outcome, work') ∧
        outcome.Fits rows limits e first := by
  intro fuel
  induction fuel with
  | zero =>
    intro current work hcurrent hspan hfuel
    cases hparity : current.parity with
    | nil =>
      refine ⟨.reduced current, work, ?_, hcurrent, hspan, ?_⟩
      · rw [reduceRow, hparity]
      · rw [hparity]
        exact fun _ _ => nofun
    | cons pivot tail =>
      have hpivot : pivot ∈ current.parity := hparity ▸ mem_cons_self
      exact absurd (hcurrent.parity_lt pivot hpivot) (Nat.not_lt.mpr (hfuel pivot hpivot))
  | succ fuel ih =>
    intro current work hcurrent hspan hfuel
    cases hparity : current.parity with
    | nil =>
      refine ⟨.reduced current, work, ?_, hcurrent, hspan, ?_⟩
      · rw [reduceRow, hparity]
      · rw [hparity]
        exact fun _ _ => nofun
    | cons pivot tail =>
      cases hindex : e.pivotToBasis pivot with
      | none =>
        refine ⟨.reduced current, work, ?_, hcurrent, hspan, ?_⟩
        · rw [reduceRow, hparity]
          simp only [hindex, Option.bind_none]
        · rw [hparity]
          intro p tail' heq
          exact (List.cons.inj heq).1 ▸ hindex
      | some j =>
        obtain ⟨pivotRow, hrow, hhead⟩ := h.pivot pivot j hindex
        have hsound : pivotRow.Sound rows limits := h.basis pivotRow (mem_of_getElem? hrow)
        obtain ⟨tail', hparity'⟩ : ∃ tail', pivotRow.parity = pivot :: tail' :=
          head?_eq_some_iff.mp hhead
        rw [reduceRow, hparity]
        simp only [hindex, Option.bind_some, hrow]
        split_ifs with hsize
        · -- more rows than allowed can only be combined when there are more rows than allowed
          refine ⟨.abandoned, _, rfl, hsize.trans_le ?_⟩
          exact length_le_of_sorted
            (sorted_symmetricDifference hcurrent.combination_sorted hsound.combination_sorted)
            fun i hi => (mem_or_of_mem hi).elim (hcurrent.combination_lt i) (hsound.combination_lt i)
        · have hnext := hcurrent.symmetricDifference hsound (not_lt.mp hsize)
          rw [hparity] at hnext
          refine ih _ _ hnext ?_ ?_
          · have hvec : Mod2BasisRow.vec ⟨symmetricDifference (pivot :: tail) pivotRow.parity,
                symmetricDifference current.combination pivotRow.combination,
                current.rhs != pivotRow.rhs⟩ = current.vec + pivotRow.vec := by
              rw [← hparity]
              exact vectorOf_symmetricDifference hcurrent.parity_sorted hsound.parity_sorted _ _
            rw [hvec, ← sub_sub]
            exact Submodule.sub_mem _ hspan
              (Submodule.subset_span ⟨pivotRow, mem_of_getElem? hrow, rfl⟩)
          · intro k hk
            have hsorted := hcurrent.parity_sorted
            have hsorted' := hsound.parity_sorted
            rw [hparity] at hsorted
            rw [hparity'] at hsorted'
            have hlt : pivot < k := by
              refine lt_of_mem_symmetricDifference hsorted hsorted' ?_
              rw [← hparity']
              exact hk
            have hbound := hfuel pivot (hparity ▸ mem_cons_self)
            omega

variable {current : Mod2BasisRow}

/-- A reduced row with a new pivot joins the basis. -/
lemma Elimination.Sound.push (h : e.Sound rows limits) {pivot : ℕ} {tail : List ℕ}
    (hcurrent : current.Sound rows limits) (hparity : current.parity = pivot :: tail)
    (hnew : e.pivotToBasis pivot = none) :
    Elimination.Sound rows limits
      { e with
        pivotToBasis := update e.pivotToBasis pivot (some e.basis.length)
        basis := e.basis ++ [current] } where
  basis := by
    intro row hrow
    rcases mem_append.mp hrow with hrow | hrow
    · exact h.basis row hrow
    · exact List.mem_singleton.mp hrow ▸ hcurrent
  pivot := by
    intro p j hj
    by_cases hp : p = pivot
    · subst hp
      have hlast : e.basis.length = j :=
        Option.some.inj ((Function.update_self p _ e.pivotToBasis).symm.trans hj)
      refine ⟨current, ?_, head?_eq_some_iff.mpr ⟨tail, hparity⟩⟩
      rw [← hlast]
      exact getElem?_concat_length
    · obtain ⟨row, hrow, hhead⟩ := h.pivot p j ((Function.update_of_ne hp _ _).symm.trans hj)
      refine ⟨row, ?_, hhead⟩
      have hlt : j < e.basis.length := (List.getElem?_eq_some_iff.mp hrow).1
      rw [getElem?_append_left hlt, hrow]
  echelon := by
    have hvectors : Mod2BasisRow.vec '' {row | row ∈ e.basis ++ [current]} =
        insert current.vec e.vectors := by
      rw [Elimination.vectors, ← Set.image_insert_eq]
      congr 1
      ext row
      simp only [mem_append, List.mem_singleton, Set.mem_ofPred_eq, Set.mem_insert_iff]
      exact or_comm
    have hpivots : {p | update e.pivotToBasis pivot (some e.basis.length) p ≠ none} =
        insert pivot e.pivots := by
      ext p
      by_cases hp : p = pivot
      · subst hp
        simp
      · simp [Elimination.pivots, hp]
    show Echelon (Mod2BasisRow.vec '' _) {p | _ ≠ none}
    rw [hvectors, hpivots]
    refine h.echelon.insert ?_ fun hmem => hmem hnew
    show Leads (indicator current.parity) pivot
    have hsorted := hcurrent.parity_sorted
    rw [hparity] at hsorted ⊢
    exact leads_indicator hsorted
  found := h.found

/-- A row reduced to nothing with an odd right-hand side is a combination. -/
lemma Elimination.Sound.found_push (h : e.Sound rows limits)
    (hcurrent : current.Sound rows limits) (hparity : current.parity = [])
    (hrhs : current.rhs = true) :
    Elimination.Sound rows limits
      { e with combinations := e.combinations ++ [current.combination] } where
  __ := h
  found := by
    intro c hc
    rcases mem_append.mp hc with hc | hc
    · exact h.found c hc
    · rw [List.mem_singleton.mp hc]
      refine ⟨hcurrent.combination_sorted.imp fun h => h.ne, hcurrent.combination_lt,
        hcurrent.combination_le, (oddCancellation_iff _).mpr ?_⟩
      rw [← combine_eq_sum hcurrent.combination_lt, ← hcurrent.vector, hparity, hrhs]
      rfl

lemma Mod2BasisRow.Sound.vec_eq_zero (hcurrent : current.Sound rows limits)
    (hparity : current.parity = [])
    (hnone : ¬ (current.rhs && !current.combination.isEmpty) = true) : current.vec = 0 := by
  cases hrhs : current.rhs with
  | false =>
    rw [Mod2BasisRow.vec, hparity, hrhs]
    rfl
  | true =>
    have hempty : current.combination = [] := by
      simpa [hrhs] using hnone
    rw [Mod2BasisRow.vec, hcurrent.vector, hempty, combine]
    refine Finset.sum_eq_zero fun i _ => ?_
    rw [indicator_nil, Pi.zero_apply, zero_smul]

/-- How the search goes on from `e` over the candidates to `e'`: unless it finds something or meets
a limit, the basis comes to span every candidate. -/
structure Elimination.Reaches (rows : List Mod2ParityRow) (limits : Mod2Limits) (todo : List ℕ)
    (e e' : Elimination) : Prop where
  found : e'.combinations = [] → e.combinations = []
  span : rows.length ≤ limits.maxCombinationSize → e'.limitMet = false → e'.combinations = [] →
    Submodule.span (ZMod 2) e.vectors ≤ Submodule.span (ZMod 2) e'.vectors ∧
      ∀ i ∈ todo, rowVector rows i ∈ Submodule.span (ZMod 2) e'.vectors

variable {e' : Elimination}

/-- One candidate, after which the basis spans it, and then the others. -/
lemma Elimination.Reaches.cons {e₁ : Elimination} {candidate : ℕ}
    (h : Elimination.Reaches rows limits todo e₁ e')
    (hfound : e₁.combinations = [] → e.combinations = [])
    (hspan : rows.length ≤ limits.maxCombinationSize → e₁.combinations = [] →
      Submodule.span (ZMod 2) e.vectors ≤ Submodule.span (ZMod 2) e₁.vectors ∧
        rowVector rows candidate ∈ Submodule.span (ZMod 2) e₁.vectors) :
    Elimination.Reaches rows limits (candidate :: todo) e e' where
  found := fun hnone => hfound (h.found hnone)
  span := by
    intro hsize hlimit hnone
    obtain ⟨hle, htodo⟩ := h.span hsize hlimit hnone
    obtain ⟨hle₁, hcandidate⟩ := hspan hsize (h.found hnone)
    refine ⟨hle₁.trans hle, fun i hi => ?_⟩
    rcases List.mem_cons.mp hi with rfl | hi
    · exact hle hcandidate
    · exact htodo i hi

lemma Elimination.Reaches.of_limit (hfound : e'.combinations = [] → e.combinations = [])
    (hlimit : e'.limitMet = true) : Elimination.Reaches rows limits todo e e' where
  found := hfound
  span := fun _ hfalse => absurd (hlimit.symm.trans hfalse) (by decide)

lemma Elimination.Reaches.of_found (hfound : e'.combinations ≠ []) :
    Elimination.Reaches rows limits todo e e' where
  found := fun hnone => absurd hnone hfound
  span := fun _ _ hnone => absurd hnone hfound

lemma Elimination.Sound.of_same (h : e.Sound rows limits)
    (hpivot : e'.pivotToBasis = e.pivotToBasis) (hbasis : e'.basis = e.basis)
    (hfound : e'.combinations = e.combinations) : e'.Sound rows limits := by
  obtain ⟨pivotToBasis, basis, combinations, workEstimate, limitMet⟩ := e'
  dsimp only at hpivot hbasis hfound
  subst hpivot hbasis hfound
  exact ⟨h.basis, h.pivot, h.echelon, h.found⟩

lemma eliminate_reaches (hmax : 0 < limits.maxCombinationSize) (todo : List ℕ)
    (htodo : ∀ i ∈ todo, i < rows.length) (h : e.Sound rows limits) :
    ∃ e', eliminate rows limits todo e = some e' ∧ e'.Sound rows limits ∧
      Elimination.Reaches rows limits todo e e' := by
  induction todo generalizing e with
  | nil =>
    exact ⟨e, rfl, h, id, fun _ _ _ => ⟨le_rfl, nofun⟩⟩
  | cons candidate todo ih =>
    have hcandidate : candidate < rows.length := htodo candidate mem_cons_self
    have hrest : ∀ i ∈ todo, i < rows.length := fun i hi => htodo i (mem_cons_of_mem _ hi)
    rw [eliminate]
    split_ifs with htime
    · exact ⟨_, rfl, h.of_same rfl rfl rfl, .of_limit id rfl⟩
    · obtain ⟨outcome, work, hreduce, hfits⟩ := reduceRow_fits h (candidateRow rows candidate)
        (pivotCount rows) (candidateRow rows candidate) ((parityOf rows candidate).length + 2)
        (candidateRow_sound hcandidate hmax) (by rw [sub_self]; exact Submodule.zero_mem _)
        fun k _ => Nat.le_add_left _ _
      rw [hreduce, Option.bind_some]
      have hcharged : Elimination.Sound rows limits
          { e with workEstimate := (addWorkEstimate work e.workEstimate limits.maxWorkEstimate).1 } :=
        h.of_same rfl rfl rfl
      dsimp only
      split_ifs with hover
      · exact ⟨_, rfl, h.of_same rfl rfl rfl, .of_limit id rfl⟩
      · cases outcome with
        | abandoned =>
          obtain ⟨e', heq, hsound, hreaches⟩ := ih hrest hcharged
          exact ⟨e', heq, hsound, hreaches.cons id fun hsize =>
            absurd hfits (Nat.not_lt.mpr hsize)⟩
        | reduced current =>
          obtain ⟨hcurrent, hdiff, hnew⟩ := hfits
          dsimp only
          split
          case h_1 hparity =>
            split_ifs with hodd hcount
            · refine ⟨_, rfl, hcharged.found_push hcurrent hparity ?_, .of_found ?_⟩
              · exact (Bool.and_eq_true_iff.mp hodd).1
              · exact concat_ne_nil _ _
            · obtain ⟨e', heq, hsound, hreaches⟩ := ih hrest
                (hcharged.found_push hcurrent hparity (Bool.and_eq_true_iff.mp hodd).1)
              refine ⟨e', heq, hsound, hreaches.cons ?_ ?_⟩
              · exact fun hnone => absurd hnone (concat_ne_nil _ _)
              · exact fun _ hnone => absurd hnone (concat_ne_nil _ _)
            · obtain ⟨e', heq, hsound, hreaches⟩ := ih hrest hcharged
              refine ⟨e', heq, hsound, hreaches.cons id fun _ _ => ⟨le_rfl, ?_⟩⟩
              rw [hcurrent.vec_eq_zero hparity hodd, sub_zero] at hdiff
              exact hdiff
          case h_2 pivot tail hparity =>
            have hpushed := hcharged.push hcurrent hparity (hnew pivot tail hparity)
            obtain ⟨e', heq, hsound, hreaches⟩ := ih hrest hpushed
            refine ⟨e', heq, hsound, hreaches.cons id fun _ _ => ?_⟩
            have hle : Submodule.span (ZMod 2) e.vectors ≤ Submodule.span (ZMod 2)
                (Mod2BasisRow.vec '' {row | row ∈ e.basis ++ [current]}) := by
              refine Submodule.span_mono (Set.image_mono fun row hrow => ?_)
              exact mem_append_left [current] hrow
            refine ⟨hle, ?_⟩
            have hvec : current.vec ∈ Submodule.span (ZMod 2)
                (Mod2BasisRow.vec '' {row | row ∈ e.basis ++ [current]}) :=
              Submodule.subset_span ⟨current, mem_append_right _ (List.mem_singleton_self _), rfl⟩
            have hsum := Submodule.add_mem _ (hle hdiff) hvec
            rw [sub_add_cancel] at hsum
            exact hsum

lemma rowOrder_perm : (rowOrder rows).Perm (List.range rows.length) :=
  perm_insertionSort _ _

lemma start_sound (work : Option ℚ) (limitMet : Bool) :
    Elimination.Sound rows limits ⟨fun _ => none, [], [], work, limitMet⟩ where
  basis := nofun
  pivot := fun _ _ => nofun
  echelon := by
    have hvectors : Elimination.vectors ⟨fun _ => none, [], [], work, limitMet⟩ = ∅ := by
      simp [Elimination.vectors]
    have hpivots : Elimination.pivots ⟨fun _ => none, [], [], work, limitMet⟩ = ∅ := by
      simp [Elimination.pivots]
    rw [hvectors, hpivots]
    exact echelon_empty
  found := nofun

/-- A search that spans every row and has found nothing leaves nothing to find. -/
lemma Elimination.Sound.not_oddCancellation (h : e.Sound rows limits)
    (hspan : ∀ i < rows.length, rowVector rows i ∈ Submodule.span (ZMod 2) e.vectors)
    {S : Finset ℕ} (hS : S ⊆ Finset.range rows.length) : ¬ OddCancellation rows S := by
  intro hodd
  have hsum := (oddCancellation_iff S).mp hodd
  have hmem : (0, 1) ∈ Submodule.span (ZMod 2) e.vectors := by
    rw [← hsum]
    exact Submodule.sum_mem _ fun i hi => hspan i (Finset.mem_range.mp (hS hi))
  have hzero := h.echelon.eq_zero hmem rfl
  exact one_ne_zero (congrArg Prod.snd hzero)

/-- Without a limit the search does not meet one. -/
lemma eliminate_unlimited (htime : ∀ i, limits.timeUp i = false)
    (hwork : limits.maxWorkEstimate = ⊤) (h : e.limitMet = false)
    (heq : eliminate rows limits todo e = some e') : e'.limitMet = false := by
  induction todo generalizing e with
  | nil =>
    cases heq
    exact h
  | cons candidate todo ih =>
    rw [eliminate, if_neg (Bool.eq_false_iff.mp (htime candidate))] at heq
    obtain ⟨⟨outcome, work⟩, -, heq⟩ := Option.bind_eq_some_iff.mp heq
    dsimp only at heq
    rw [hwork, addWorkEstimate_top, if_neg Bool.false_ne_true] at heq
    cases outcome with
    | abandoned => exact ih (by exact h) heq
    | reduced current =>
      dsimp only at heq
      split at heq
      · split_ifs at heq
        · cases heq
          exact h
        · exact ih (by exact h) heq
        · exact ih (by exact h) heq
      · exact ih (by exact h) heq

theorem findMod2RowCombinations_exact (rows : List Mod2ParityRow) (limits : Mod2Limits)
    (hmax : 0 < limits.maxCombinationSize) :
    ∃ result, findMod2RowCombinations rows limits = some result ∧
      (∀ c ∈ result.combinations, c.Nodup ∧ (∀ i ∈ c, i < rows.length) ∧
        c.length ≤ limits.maxCombinationSize ∧ OddCancellation rows c.toFinset) ∧
      (rows.length ≤ limits.maxCombinationSize → result.limitMet = false →
        (result.combinations ≠ [] ↔ ∃ S ⊆ Finset.range rows.length, OddCancellation rows S)) ∧
      ((∀ i, limits.timeUp i = false) → limits.maxWorkEstimate = ⊤ → result.limitMet = false) := by
  have hstop : ∀ accesses estimate work,
      (addWorkEstimate accesses estimate limits.maxWorkEstimate).2 = true →
      ∃ result : Elimination, some (⟨fun _ => none, [], [], work, true⟩ : Elimination) = some result ∧
      (∀ c ∈ result.combinations, c.Nodup ∧ (∀ i ∈ c, i < rows.length) ∧
        c.length ≤ limits.maxCombinationSize ∧ OddCancellation rows c.toFinset) ∧
      (rows.length ≤ limits.maxCombinationSize → result.limitMet = false →
        (result.combinations ≠ [] ↔ ∃ S ⊆ Finset.range rows.length, OddCancellation rows S)) ∧
      ((∀ i, limits.timeUp i = false) → limits.maxWorkEstimate = ⊤ → result.limitMet = false) := by
    intro accesses estimate work hover
    refine ⟨_, rfl, nofun, fun _ => nofun, fun _ hwork => ?_⟩
    rw [hwork, addWorkEstimate_top] at hover
    cases hover
  unfold findMod2RowCombinations
  dsimp only
  split_ifs with hscan hsort hpivots
  · exact hstop _ _ _ hscan
  · exact hstop _ _ _ hsort
  · exact hstop _ _ _ hpivots
  · have htodo : ∀ i ∈ rowOrder rows, i < rows.length :=
      fun i hi => List.mem_range.mp (rowOrder_perm.mem_iff.mp hi)
    obtain ⟨result, hrun, hsound, hreaches⟩ :=
      eliminate_reaches hmax (rowOrder rows) htodo (start_sound _ _)
    refine ⟨result, hrun, hsound.found, fun hsize hlimit => ⟨?_, ?_⟩,
      fun htime hwork => eliminate_unlimited htime hwork rfl hrun⟩
    · intro hfound
      obtain ⟨c, rest, hc⟩ := exists_cons_of_ne_nil hfound
      obtain ⟨-, hlt, -, hodd⟩ := hsound.found c (hc ▸ mem_cons_self)
      refine ⟨c.toFinset, fun i hi => ?_, hodd⟩
      exact Finset.mem_range.mpr (hlt i (List.mem_toFinset.mp hi))
    · rintro ⟨S, hS, hodd⟩ hnone
      obtain ⟨-, hspan⟩ := hreaches.span hsize hlimit hnone
      refine hsound.not_oddCancellation (fun i hi => ?_) hS hodd
      exact hspan i (rowOrder_perm.mem_iff.mpr (List.mem_range.mpr hi))

def equalRows : List Mod2ParityRow := [⟨[0, 1], false, by decide⟩, ⟨[0, 1], true, by decide⟩]

def pairLimits : Mod2Limits := ⟨2, 8, none, ⊤, fun _ => 0, fun _ => false⟩

theorem findMod2RowCombinations_equalRows :
    ∃ result, findMod2RowCombinations equalRows pairLimits = some result ∧
      result.limitMet = false ∧ result.combinations = [[0, 1]] ∧
      ∃ S ⊆ Finset.range equalRows.length, OddCancellation equalRows S := by
  obtain ⟨result, hrun, -, hexact, -⟩ :=
    findMod2RowCombinations_exact equalRows pairLimits (by decide)
  have hresult : result.limitMet = false ∧ result.combinations = [[0, 1]] := by
    have horder : rowOrder equalRows = [0, 1] := by decide
    have hpivots : pivotCount equalRows = 2 := by decide
    have hempty : symmetricDifference [0, 1] [0, 1] = ([] : List ℕ) := by simp [symmetricDifference]
    have hpair : symmetricDifference [1] [0] = [0, 1] := by simp [symmetricDifference]
    have hfirst : candidateRow equalRows 0 = ⟨[0, 1], [0], false⟩ := rfl
    have hsecond : candidateRow equalRows 1 = ⟨[0, 1], [1], true⟩ := rfl
    simp [findMod2RowCombinations, horder, addWorkEstimate, pairLimits, eliminate, reduceRow,
      hpivots, hfirst, hsecond, hempty, hpair] at hrun
    rw [← hrun]
    exact ⟨rfl, rfl⟩
  exact ⟨result, hrun, hresult.1, hresult.2,
    (hexact (by decide) hresult.1).mp (hresult.2 ▸ cons_ne_nil _ _)⟩

end Correctness

end CuOpt.Cuts
