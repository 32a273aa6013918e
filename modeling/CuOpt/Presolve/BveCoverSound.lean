import CuOpt.Presolve.BveCover

/-! The clauses of the greedy cover are prime implicates of the feasibility table, and together they
are satisfied by the feasible patterns only. -/

namespace CuOpt.Presolve

open BooleanCubes BufferWrites List Finset
open Nat (testBit_ldiff testBit_or)
open Bitset (empty)
open BveClause (satisfied)

section Cells

variable {nb : ℕ}

variable {lit : ℕ}

lemma cell_lt {bit : ℕ} (hlit : lit < 2 ^ nb) (hbit : bit < 2 ^ nb) :
    cell nb lit bit < 2 ^ nb * 2 ^ nb := by
  have hrow : (lit + 1) * 2 ^ nb ≤ 2 ^ nb * 2 ^ nb := Nat.mul_le_mul_right _ hlit
  rw [Nat.succ_mul] at hrow
  rw [cell]
  omega

lemma cell_inj {bit lit' bit' : ℕ} (hbit : bit < 2 ^ nb) (hbit' : bit' < 2 ^ nb)
    (h : cell nb lit bit = cell nb lit' bit') : lit = lit' ∧ bit = bit' := by
  have hdiv := congrArg (· / 2 ^ nb) h
  have hmod := congrArg (· % 2 ^ nb) h
  have hpos : 0 < 2 ^ nb := Nat.two_pow_pos nb
  simp only [cell, mul_comm _ (2 ^ nb), Nat.mul_add_div hpos, Nat.mul_add_mod,
    Nat.div_eq_of_lt hbit, Nat.div_eq_of_lt hbit', Nat.mod_eq_of_lt hbit,
    Nat.mod_eq_of_lt hbit', add_zero] at hdiv hmod
  exact ⟨hdiv, hmod⟩

lemma popcount_le (mask : ℕ) : popcount nb mask ≤ nb := by
  rw [popcount]
  exact countP_le_length.trans_eq length_range

lemma popcount_eq_iff (hlit : lit < 2 ^ nb) : popcount nb lit = nb ↔ lit = fullMask nb := by
  have hall : popcount nb lit = nb ↔ ∀ i < nb, lit.testBit i = true := by
    have hlength := countP_eq_length (p := fun i => lit.testBit i) (l := List.range nb)
    rw [length_range] at hlength
    rw [popcount, hlength]
    exact forall_congr' fun i => by rw [List.mem_range]
  rw [hall]
  constructor
  · intro h
    apply (submask_full_iff.mpr hlit).antisymm
    intro i hi
    rw [Nat.testBit_two_pow_sub_one, decide_eq_true_eq] at hi
    exact h i hi
  · rintro rfl i hi
    rw [fullMask, Nat.testBit_two_pow_sub_one]
    exact decide_eq_true hi

lemma popcount_set {j : ℕ} (hj : j < nb) (hfree : lit.testBit j = false) :
    popcount nb (lit ||| 1 <<< j) = popcount nb lit + 1 := by
  rw [popcount, popcount, countP_eq_length_filter, countP_eq_length_filter,
    ← toFinset_card_of_nodup (nodup_range.filter _),
    ← toFinset_card_of_nodup (nodup_range.filter _)]
  have hinsert : ((List.range nb).filter fun i => (lit ||| 1 <<< j).testBit i).toFinset =
      insert j ((List.range nb).filter fun i => lit.testBit i).toFinset := by
    ext i
    rw [mem_insert, List.mem_toFinset, List.mem_toFinset, List.mem_filter, List.mem_filter,
      List.mem_range, testBit_or, testBit_one_shiftLeft, Bool.or_eq_true, decide_eq_true_eq]
    constructor
    · rintro ⟨hi, hbit | heq⟩
      · exact .inr ⟨hi, hbit⟩
      · exact .inl heq.symm
    · rintro (rfl | ⟨hi, hbit⟩)
      · exact ⟨hj, .inr rfl⟩
      · exact ⟨hi, .inl hbit⟩
  rw [hinsert, card_insert_of_notMem]
  rw [List.mem_toFinset, List.mem_filter, hfree]
  exact fun h => absurd h.2 Bool.false_ne_true

lemma freePosition_spec (h : popcount nb lit < nb) :
    freePosition nb lit < nb ∧ lit.testBit (freePosition nb lit) = false := by
  have hex : ∃ j ∈ List.range nb, ¬ lit.testBit j = true := by
    by_contra hall
    push Not at hall
    have hcount := countP_eq_length.mpr hall
    rw [length_range] at hcount
    exact h.ne hcount
  obtain ⟨j, hj, hbit⟩ := hex
  cases hfind : (List.range nb).find? fun j => !lit.testBit j with
  | none =>
    have hnone := find?_eq_none.mp hfind j hj
    rw [Bool.not_eq_true', Bool.not_eq_false] at hnone
    exact absurd hnone hbit
  | some k =>
    rw [freePosition, hfind]
    refine ⟨List.mem_range.mp (mem_of_find?_eq_some hfind), ?_⟩
    have hk := find?_some hfind
    rwa [Bool.not_eq_true'] at hk

end Cells

section Table

variable {feas : ℕ → Bool} {nb : ℕ}

inductive Flag : ℕ → Prop → Prop where
  | one {p : Prop} (h : p) : Flag 1 p
  | zero {p : Prop} (h : ¬ p) : Flag 0 p

variable {v : ℕ} {p : Prop}

lemma Flag.ne_zero_iff (h : Flag v p) : v ≠ 0 ↔ p := by
  cases h with
  | one hp => exact ⟨fun _ => hp, fun _ => Nat.one_ne_zero⟩
  | zero hp => exact ⟨fun h => absurd rfl h, fun h => absurd h hp⟩

lemma Flag.unique {w : ℕ} (hv : Flag v p) (hw : Flag w p) : v = w := by
  cases hv with
  | one hp =>
    cases hw with
    | one => rfl
    | zero hp' => exact absurd hp hp'
  | zero hp =>
    cases hw with
    | one hp' => exact absurd hp' hp
    | zero => rfl

lemma Flag.and {w : ℕ} {q : Prop} (hv : Flag v p) (hw : Flag w q) : Flag (v &&& w) (p ∧ q) := by
  cases hv with
  | one hp =>
    cases hw with
    | one hq => exact .one ⟨hp, hq⟩
    | zero hq => exact .zero fun h => hq h.2
  | zero hp =>
    rw [Nat.zero_and]
    exact .zero fun h => hp h.1

def Infeasible (feas : ℕ → Bool) (m : ℕ) : Prop := feas m = false

def RowFlagged (feas : ℕ → Bool) (nb : ℕ) (valid : List ℕ) (lit : ℕ) : Prop :=
  ∀ bit, Submask bit lit →
    Flag (valid.getD (cell nb lit bit) 0) (Cube.Within nb (Infeasible feas) ⟨lit, bit⟩)

structure Filled (feas : ℕ → Bool) (nb k : ℕ) (valid : List ℕ) : Prop where
  size : 2 ^ nb * 2 ^ nb ≤ valid.length
  flagged : ∀ lit < 2 ^ nb, k ≤ popcount nb lit → RowFlagged feas nb valid lit

lemma length_grow (valid : List ℕ) : 2 ^ nb * 2 ^ nb ≤ (grow nb valid).length := by
  rw [grow, length_append, length_replicate]
  omega

variable {valid : List ℕ}

lemma seedMinterms_filled (hsize : 2 ^ nb * 2 ^ nb ≤ valid.length) :
    Filled feas nb nb (seedMinterms feas nb valid) where
  size := by
    rw [seedMinterms, length_writeAll]
    exact hsize
  flagged := by
    intro lit hlit hcount bit hbit
    obtain rfl := (popcount_eq_iff hlit).mp (le_antisymm (popcount_le lit) hcount)
    have hm : bit < 2 ^ nb := hbit.lt hlit
    have hcell := (cell_lt hlit hm).trans_le hsize
    rw [seedMinterms, getD_writeAll (fun m => cell nb (fullMask nb) m) (fun _ => True)
      (fun _ _ => trivial) (fun _ _ _ _ _ => rfl) (fun x hx y hy heq => (cell_inj
        (List.mem_range.mp hx) (List.mem_range.mp hy) heq).2) (List.mem_range.mpr hm) hcell]
    cases hfeas : feas bit with
    | false => exact .one ((Cube.within_minterm hm).mpr hfeas)
    | true =>
      refine .zero fun h => ?_
      have hbad := (Cube.within_minterm hm).mp h
      rw [Infeasible, hfeas] at hbad
      exact Bool.false_ne_true hbad.symm

/-- The step of the table: a row is flagged from rows of one literal more, and no other row
changes. -/
lemma mergeHalves_flagged {lit : ℕ} (hlit : lit < 2 ^ nb)
    (hsize : 2 ^ nb * 2 ^ nb ≤ valid.length) (hcount : popcount nb lit < nb)
    (hnext : ∀ lit' < 2 ^ nb, popcount nb lit' = popcount nb lit + 1 →
      RowFlagged feas nb valid lit') :
    RowFlagged feas nb (mergeHalves nb lit valid) lit ∧
      ∀ lit' < 2 ^ nb, RowFlagged feas nb valid lit' →
        RowFlagged feas nb (mergeHalves nb lit valid) lit' := by
  obtain ⟨hj, hfree⟩ := freePosition_spec hcount
  generalize hpos : freePosition nb lit = j at hj hfree
  have hone : 1 <<< j < 2 ^ nb := by
    rw [Nat.one_shiftLeft]
    exact Nat.pow_lt_pow_right (by decide) hj
  have hchild : lit ||| 1 <<< j < 2 ^ nb := Nat.or_lt_two_pow hlit hone
  have hne : lit ||| 1 <<< j ≠ lit := by
    intro heq
    have hbit := congrArg (fun x => x.testBit j) heq
    simp only [testBit_or, testBit_one_shiftLeft, decide_true, Bool.or_true, hfree] at hbit
    exact absurd hbit (by decide)
  have hrow : RowFlagged feas nb (mergeHalves nb lit valid) lit := by
    intro bit hbit
    have hlt : bit < 2 ^ nb := hbit.lt hlit
    have hflags := hnext _ hchild (popcount_set hj hfree)
    have hlow : Submask bit (lit ||| 1 <<< j) := by
      intro i hi
      rw [testBit_or, hbit i hi, Bool.true_or]
    have hhigh : Submask (bit ||| 1 <<< j) (lit ||| 1 <<< j) := by
      intro i hi
      rw [testBit_or, Bool.or_eq_true] at hi ⊢
      exact hi.imp_left (hbit i)
    have hread : ∀ b b' : List ℕ,
        (∀ c, ¬ (∃ bit < 2 ^ nb, cell nb lit bit = c) → b.getD c 0 = b'.getD c 0) →
        ∀ x ∈ submasks lit,
          b.getD (cell nb (lit ||| 1 <<< j) x) 0 &&&
            b.getD (cell nb (lit ||| 1 <<< j) (x ||| 1 <<< j)) 0 =
          b'.getD (cell nb (lit ||| 1 <<< j) x) 0 &&&
            b'.getD (cell nb (lit ||| 1 <<< j) (x ||| 1 <<< j)) 0 := by
      intro b b' hb x hx
      -- the cells read belong to the child, none of them to `lit`
      have hcell : ∀ y < 2 ^ nb, b.getD (cell nb (lit ||| 1 <<< j) y) 0 =
          b'.getD (cell nb (lit ||| 1 <<< j) y) 0 := by
        intro y hy
        apply hb
        rintro ⟨z, hz, heq⟩
        exact hne (cell_inj hz hy heq).1.symm
      have hxlt : x < 2 ^ nb := (mem_submasks.mp hx).lt hlit
      rw [hcell x hxlt, hcell _ (Nat.or_lt_two_pow hxlt hone)]
    have hplace : ∀ x ∈ submasks lit, ∀ y ∈ submasks lit, cell nb lit x = cell nb lit y → x = y :=
      fun x hx y hy heq =>
        (cell_inj ((mem_submasks.mp hx).lt hlit) ((mem_submasks.mp hy).lt hlit) heq).2
    rw [mergeHalves, hpos]
    rw [getD_writeAll (fun bit => cell nb lit bit) _
      (fun x hx => ⟨x, (mem_submasks.mp hx).lt hlit, rfl⟩) hread hplace (mem_submasks.mpr hbit)
      ((cell_lt hlit hlt).trans_le hsize)]
    have hand := (hflags bit hlow).and (hflags _ hhigh)
    rwa [← Cube.within_iff_halves hbit hfree] at hand
  refine ⟨hrow, fun lit' hlit' hflag bit hbit => ?_⟩
  rcases eq_or_ne lit lit' with rfl | hother
  · exact hrow bit hbit
  · rw [mergeHalves, getD_writeAll_of_ne]
    · exact hflag bit hbit
    · intro x hx heq
      exact hother (cell_inj ((mem_submasks.mp hx).lt hlit) (hbit.lt hlit') heq).1

@[simp] lemma length_mergeHalves (lit : ℕ) (valid : List ℕ) :
    (mergeHalves nb lit valid).length = valid.length := by
  rw [mergeHalves]
  exact length_writeAll _ _

lemma fillLevel_filled {n : ℕ} (hn : n < nb) (h : Filled feas nb (n + 1) valid) :
    Filled feas nb n (fillLevel nb n valid) := by
  -- over the literals passed so far: their rows are flagged, and no flagged row is lost
  suffices hloop : ∀ l : List ℕ, (∀ lit ∈ l, lit < 2 ^ nb) → ∀ valid : List ℕ,
      Filled feas nb (n + 1) valid →
      Filled feas nb (n + 1) (l.foldl (fun valid lit =>
        if popcount nb lit ≠ n then valid else mergeHalves nb lit valid) valid) ∧
      ∀ lit < 2 ^ nb, popcount nb lit = n → lit ∈ l ∨ RowFlagged feas nb valid lit →
        RowFlagged feas nb (l.foldl (fun valid lit =>
          if popcount nb lit ≠ n then valid else mergeHalves nb lit valid) valid) lit by
    obtain ⟨hfilled, hrows⟩ := hloop (List.range (2 ^ nb)) (fun _ => List.mem_range.mp) valid h
    refine ⟨hfilled.size, fun lit hlit hcount => ?_⟩
    rcases hcount.lt_or_eq with hlt | heq
    · exact hfilled.flagged lit hlit hlt
    · exact hrows lit hlit heq.symm (.inl (List.mem_range.mpr hlit))
  intro l hl
  induction l with
  | nil =>
    intro valid h
    refine ⟨h, fun lit hlit hcount hor => ?_⟩
    exact hor.resolve_left not_mem_nil
  | cons x l ih =>
    intro valid h
    rw [foldl_cons]
    have hx : x < 2 ^ nb := hl x List.mem_cons_self
    have hl' : ∀ lit ∈ l, lit < 2 ^ nb := fun lit hlit => hl lit (List.mem_cons_of_mem x hlit)
    by_cases hcx : popcount nb x = n
    · rw [if_neg (not_not.mpr hcx)]
      obtain ⟨hself, hkeep⟩ := mergeHalves_flagged hx h.size (hcx.trans_lt hn)
        fun lit' hlit' hcount => h.flagged lit' hlit' (by omega)
      have hnext : Filled feas nb (n + 1) (mergeHalves nb x valid) :=
        ⟨by rw [length_mergeHalves]; exact h.size,
          fun lit hlit hcount => hkeep lit hlit (h.flagged lit hlit hcount)⟩
      obtain ⟨hfilled, hrows⟩ := ih hl' _ hnext
      refine ⟨hfilled, fun lit hlit hcount hor => hrows lit hlit hcount ?_⟩
      rcases hor with hmem | hflag
      · rcases List.mem_cons.mp hmem with rfl | hmem
        · exact .inr hself
        · exact .inl hmem
      · exact .inr (hkeep lit hlit hflag)
    · rw [if_pos hcx]
      obtain ⟨hfilled, hrows⟩ := ih hl' valid h
      refine ⟨hfilled, fun lit hlit hcount hor => hrows lit hlit hcount ?_⟩
      rcases hor with hmem | hflag
      · rcases List.mem_cons.mp hmem with rfl | hmem
        · exact absurd hcount hcx
        · exact .inl hmem
      · exact .inr hflag

lemma fillValid_filled (feas : ℕ → Bool) (nb : ℕ) (valid : List ℕ) :
    Filled feas nb 0 (fillValid feas nb valid) := by
  have hloop : ∀ k ≤ nb, ∀ valid : List ℕ, Filled feas nb k valid →
      Filled feas nb 0 ((List.range k).reverse.foldl
        (fun valid nLits => fillLevel nb nLits valid) valid) := by
    intro k hk
    induction k with
    | zero => exact fun _ h => h
    | succ k ih =>
      intro valid h
      rw [range_succ, reverse_append, reverse_singleton, singleton_append, foldl_cons]
      exact ih (by omega) _ (fillLevel_filled (by omega) h)
  exact hloop nb le_rfl _ (seedMinterms_filled (length_grow valid))

lemma isPrime_iff (h : Filled feas nb 0 valid) {c : Cube} (hlit : c.lit < 2 ^ nb)
    (hnormal : c.Normal) (hc : c.Within nb (Infeasible feas)) :
    isPrime nb valid c = true ↔ c.Prime nb (Infeasible feas) := by
  rw [isPrime, all_eq_true, Cube.prime_iff_drop, and_iff_right hc]
  have hflag : ∀ j, c.lit.testBit j = true →
      (valid.getD (cell nb (c.drop j).lit (c.drop j).bit) 0 ≠ 0 ↔
        (c.drop j).Within nb (Infeasible feas)) := by
    intro j hj
    have hlt := (Cube.drop_lit_lt hj).trans hlit
    exact (h.flagged _ hlt (Nat.zero_le _) _ (hnormal.drop hj)).ne_zero_iff
  constructor
  · intro hall j hj hdrop
    have hjn : j < nb := by
      have := submask_full_iff.mpr hlit j hj
      rwa [Nat.testBit_two_pow_sub_one, decide_eq_true_eq] at this
    have hone := hall j (List.mem_range.mpr hjn)
    rw [hj, decide_eq_true ((hflag j hj).mpr hdrop)] at hone
    exact Bool.false_ne_true hone
  · intro hall j _
    cases hj : c.lit.testBit j with
    | false => rfl
    | true =>
      rw [decide_eq_false fun hne => hall j hj ((hflag j hj).mp hne)]
      rfl

lemma mem_collectPrimes (h : Filled feas nb 0 valid) {c : BveClause} :
    c ∈ collectPrimes nb valid ↔ c.lit < 2 ^ nb ∧ c.Normal ∧ c.Prime nb (Infeasible feas) := by
  rw [collectPrimes, mem_flatMap]
  constructor
  · rintro ⟨lit, hlit, hmem⟩
    obtain ⟨bit, hbit, hsome⟩ := List.mem_filterMap.mp hmem
    rw [List.mem_range] at hlit
    rw [mem_submasks] at hbit
    by_cases hp : valid.getD (cell nb lit bit) 0 ≠ 0 ∧ isPrime nb valid ⟨lit, bit⟩ = true
    · rw [if_pos hp] at hsome
      cases hsome
      have hc := (h.flagged lit hlit (Nat.zero_le _) bit hbit).ne_zero_iff.mp hp.1
      exact ⟨hlit, hbit, (isPrime_iff (c := ⟨lit, bit⟩) h hlit hbit hc).mp hp.2⟩
    · rw [if_neg hp] at hsome
      cases hsome
  · rintro ⟨hlit, hnormal, hprime⟩
    refine ⟨c.lit, List.mem_range.mpr hlit, List.mem_filterMap.mpr
      ⟨c.bit, mem_submasks.mpr hnormal, if_pos ⟨?_, ?_⟩⟩⟩
    · exact (h.flagged c.lit hlit (Nat.zero_le _) c.bit hnormal).ne_zero_iff.mpr hprime.1
    · exact (isPrime_iff h hlit hnormal hprime.1).mpr hprime

lemma collectPrimes_eq {valid' : List ℕ} (h : Filled feas nb 0 valid)
    (h' : Filled feas nb 0 valid') : collectPrimes nb valid = collectPrimes nb valid' := by
  rw [collectPrimes, collectPrimes]
  apply flatMap_congr
  intro lit hlit
  rw [List.mem_range] at hlit
  apply filterMap_congr
  intro bit hbit
  rw [mem_submasks] at hbit
  have hcell := (h.flagged lit hlit (Nat.zero_le _) bit hbit).unique
    (h'.flagged lit hlit (Nat.zero_le _) bit hbit)
  by_cases hc : Cube.Within nb (Infeasible feas) ⟨lit, bit⟩
  · have hiff := (isPrime_iff (c := ⟨lit, bit⟩) h hlit hbit hc).trans
      (isPrime_iff (c := ⟨lit, bit⟩) h' hlit hbit hc).symm
    rw [hcell, Bool.eq_iff_iff.mpr hiff]
  · have hzero : valid'.getD (cell nb lit bit) 0 = 0 := by
      by_contra hne
      exact hc ((h'.flagged lit hlit (Nat.zero_le _) bit hbit).ne_zero_iff.mp hne)
    rw [hcell, hzero, if_neg fun hp => hp.1 rfl, if_neg fun hp => hp.1 rfl]

end Table

section Cover

variable {feas : ℕ → Bool} {nb : ℕ}

lemma le_bveMaskWords (nb : ℕ) : 2 ^ nb ≤ 64 * (bveMaskWords nb) := by
  rw [bveMaskWords]
  omega

@[simp] lemma length_bveCubeCover (c : BveClause) :
    (bveCubeCover nb c).length = bveMaskWords nb := by
  rw [bveCubeCover, Bitset.length_foldl_set, empty, length_replicate]

@[simp] lemma length_infeasiblePatterns (feas : ℕ → Bool) :
    (infeasiblePatterns feas nb).length = bveMaskWords nb := by
  rw [infeasiblePatterns, ← foldl_filter (p := fun m => !feas m), Bitset.length_foldl_set,
    empty, length_replicate]

lemma mem_infeasiblePatterns (m : ℕ) :
    Bitset.Mem (infeasiblePatterns feas nb) m ↔ m < 2 ^ nb ∧ Infeasible feas m := by
  have hrange : ∀ x ∈ (List.range (2 ^ nb)).filter fun m => !feas m,
      x < 64 * (empty (bveMaskWords nb)).length := by
    intro x hx
    rw [empty, length_replicate]
    exact (List.mem_range.mp (List.mem_filter.mp hx).1).trans_le (le_bveMaskWords nb)
  rw [infeasiblePatterns, ← foldl_filter (p := fun m => !feas m), Bitset.mem_foldl_set hrange]
  constructor
  · rintro (⟨x, hx, rfl⟩ | hempty)
    · obtain ⟨hlt, hfeas⟩ := List.mem_filter.mp hx
      rw [Bool.not_eq_true'] at hfeas
      exact ⟨List.mem_range.mp hlt, hfeas⟩
    · exact absurd hempty (Bitset.not_mem_empty _ m)
  · rintro ⟨hlt, hfeas⟩
    refine .inl ⟨m, List.mem_filter.mpr ⟨List.mem_range.mpr hlt, ?_⟩, rfl⟩
    rw [hfeas]
    rfl

lemma mem_bveCubeCover {c : BveClause} (hlit : c.lit < 2 ^ nb) (hnormal : c.Normal) (m : ℕ) :
    Bitset.Mem (bveCubeCover nb c) m ↔ m < 2 ^ nb ∧ c.Matches m := by
  have hlitFull := submask_full_iff.mpr hlit
  have hpattern : ∀ s, Submask s (Nat.ldiff (fullMask nb) c.lit) → c.bit ||| s < 2 ^ nb := by
    intro s hs
    apply Nat.or_lt_two_pow (hnormal.lt hlit)
    apply submask_full_iff.mp
    intro i hi
    have hfree := hs i hi
    rw [testBit_ldiff, Bool.and_eq_true] at hfree
    exact hfree.1
  have hrange : ∀ s ∈ submasks (Nat.ldiff (fullMask nb) c.lit),
      c.bit ||| s < 64 * (empty (bveMaskWords nb)).length := by
    intro s hs
    rw [empty, length_replicate]
    exact (hpattern s (mem_submasks.mp hs)).trans_le (le_bveMaskWords nb)
  rw [bveCubeCover, Bitset.mem_foldl_set hrange, or_iff_left (Bitset.not_mem_empty _ m)]
  constructor
  · rintro ⟨s, hs, rfl⟩
    rw [mem_submasks] at hs
    refine ⟨hpattern s hs, fun i hi => ?_⟩
    have hout : s.testBit i = false := by
      by_contra hset
      have hfree := hs i (Bool.not_eq_false _ ▸ hset)
      rw [testBit_ldiff, hi, Bool.not_true, Bool.and_false] at hfree
      exact Bool.false_ne_true hfree
    rw [testBit_or, hout, Bool.or_false]
  · rintro ⟨hm, hmatch⟩
    refine ⟨Nat.ldiff m c.lit, mem_submasks.mpr fun i hi => ?_, Nat.eq_of_testBit_eq fun i => ?_⟩
    · rw [testBit_ldiff, Bool.and_eq_true] at hi
      rw [testBit_ldiff, Bool.and_eq_true]
      exact ⟨submask_full_iff.mpr hm i hi.1, hi.2⟩
    · rw [testBit_or, testBit_ldiff]
      cases hi : c.lit.testBit i with
      | false =>
        have hbit : c.bit.testBit i = false := by
          by_contra hset
          have hlit := hnormal i (Bool.not_eq_false _ ▸ hset)
          exact absurd (hi.symm.trans hlit) (by decide)
        rw [hbit, Bool.false_or, Bool.not_false, Bool.and_true]
      | true => rw [hmatch i hi, Bool.not_true, Bool.and_false, Bool.or_false]

/-- A pick overlaps the uncovered patterns; without a pick nothing does. -/
lemma bestCube_spec (uncovered : List (BitVec 64)) (cover : List (List (BitVec 64))) :
    (∀ q, (bestCube uncovered cover).1 = some q →
      q < cover.length ∧ Bitset.count (Bitset.inter uncovered (cover.getD q [])) ≠ 0) ∧
    ((bestCube uncovered cover).1 = none →
      ∀ q < cover.length, Bitset.count (Bitset.inter uncovered (cover.getD q [])) = 0) := by
  let gain q := Bitset.count (Bitset.inter uncovered (cover.getD q []))
  let step (best : Option ℕ × ℕ) (q : ℕ) := if best.2 < gain q then (some q, gain q) else best
  -- after the first `k` cubes, the best of them is at hand with its gain
  suffices hloop : ∀ k, ∀ best, (List.range k).foldl step (none, 0) = best →
      (∀ q, best.1 = some q → q < k ∧ gain q = best.2 ∧ best.2 ≠ 0) ∧
      (best.1 = none → best.2 = 0) ∧ ∀ q < k, gain q ≤ best.2 by
    obtain ⟨hsome, hnone, hall⟩ := hloop cover.length _ rfl
    constructor
    · intro q hq
      obtain ⟨hlt, hgain, hpos⟩ := hsome q hq
      refine ⟨hlt, ?_⟩
      rw [← hgain] at hpos
      exact hpos
    · intro hq q hlt
      have hle := hall q hlt
      rw [hnone hq] at hle
      exact Nat.le_zero.mp hle
  intro k
  induction k with
  | zero =>
    rintro best rfl
    refine ⟨fun q hq => ?_, fun _ => rfl, fun q hq => absurd hq (Nat.not_lt_zero q)⟩
    cases hq
  | succ k ih =>
    rintro best rfl
    rw [range_succ, foldl_concat]
    obtain ⟨hsome, hnone, hall⟩ := ih _ rfl
    generalize (List.range k).foldl step (none, 0) = best at hsome hnone hall
    show _ ∧ _ ∧ _
    by_cases hbetter : best.2 < gain k
    · have hstep : step best k = (some k, gain k) := if_pos hbetter
      rw [hstep]
      refine ⟨fun q hq => ?_, fun hq => ?_, fun q hq => ?_⟩
      · cases hq
        exact ⟨Nat.lt_succ_self k, rfl, Nat.ne_zero_of_lt hbetter⟩
      · cases hq
      · rcases Nat.lt_succ_iff_lt_or_eq.mp hq with hlt | rfl
        · exact (hall q hlt).trans hbetter.le
        · exact le_rfl
    · have hstep : step best k = best := if_neg hbetter
      rw [hstep]
      refine ⟨fun q hq => ?_, hnone, fun q hq => ?_⟩
      · obtain ⟨hlt, hrest⟩ := hsome q hq
        exact ⟨hlt.trans (Nat.lt_succ_self k), hrest⟩
      · rcases Nat.lt_succ_iff_lt_or_eq.mp hq with hlt | rfl
        · exact hall q hlt
        · exact not_lt.mp hbetter

/-- What the picks keep: the patterns still to cover are infeasible ones, and every other infeasible
pattern is matched by a picked cube. -/
structure Covering (feas : ℕ → Bool) (nb : ℕ) (primes : List BveClause)
    (uncovered : List (BitVec 64)) (out : List BveClause) : Prop where
  length : uncovered.length = bveMaskWords nb
  infeasible : ∀ m, Bitset.Mem uncovered m → m < 2 ^ nb ∧ Infeasible feas m
  covered : ∀ m < 2 ^ nb, Infeasible feas m → Bitset.Mem uncovered m ∨ ∃ c ∈ out, c.Matches m
  picked : ∀ c ∈ out, c ∈ primes

/-- The verdict of the loop, with `room` clauses left under the cap. -/
def CoverVerdict (feas : ℕ → Bool) (nb room : ℕ) (primes : List BveClause)
    (uncovered : List (BitVec 64)) : CoverResult → Prop
  | .clauses out =>
    (∀ c ∈ out, c ∈ primes) ∧ ∀ m < 2 ^ nb, Infeasible feas m → ∃ c ∈ out, c.Matches m
  | .overCap => room < (Bitset.toFinset uncovered).card
  | .noCube => False

lemma getD_cover (nb : ℕ) {primes : List BveClause} {q : ℕ} (hq : q < primes.length) :
    primes.getD q ⟨0, 0⟩ ∈ primes ∧
      (primes.map (bveCubeCover nb)).getD q [] = bveCubeCover nb (primes.getD q ⟨0, 0⟩) := by
  rw [getD_eq_getElem _ _ hq]
  refine ⟨getElem_mem hq, ?_⟩
  rw [getD_eq_getElem _ _ (by rw [length_map]; exact hq), getElem_map]

namespace Covering

variable {primes : List BveClause} {uncovered : List (BitVec 64)} {out : List BveClause}

section

variable (h : Covering feas nb primes uncovered out)
include h

lemma stop (hcount : Bitset.count uncovered = 0) :
    ∀ m < 2 ^ nb, Infeasible feas m → ∃ c ∈ out, c.Matches m := by
  intro m hm hinf
  apply (h.covered m hm hinf).resolve_left
  intro hmem
  have hempty := (Bitset.count_eq_zero_iff uncovered).mp hcount
  rw [← Bitset.mem_toFinset, hempty] at hmem
  exact notMem_empty m hmem

/-- Some pattern is left, and the prime cube that matches it overlaps. -/
lemma exists_pick (hprimes : ∀ c ∈ primes, c.lit < 2 ^ nb ∧ c.Normal)
    (hall : ∀ m < 2 ^ nb, Infeasible feas m → ∃ c ∈ primes, c.Matches m)
    (hcount : Bitset.count uncovered ≠ 0) :
    ∃ q, (bestCube uncovered (primes.map (bveCubeCover nb))).1 = some q := by
  obtain ⟨-, hnone⟩ := bestCube_spec uncovered (primes.map (bveCubeCover nb))
  cases hbest : (bestCube uncovered (primes.map (bveCubeCover nb))).1 with
  | some q => exact ⟨q, rfl⟩
  | none =>
    have hne : (Bitset.toFinset uncovered).Nonempty := by
      rw [nonempty_iff_ne_empty]
      exact fun hempty => hcount ((Bitset.count_eq_zero_iff uncovered).mpr hempty)
    obtain ⟨m, hm⟩ := hne
    rw [Bitset.mem_toFinset] at hm
    obtain ⟨hlt, hinf⟩ := h.infeasible m hm
    obtain ⟨c, hc, hmatch⟩ := hall m hlt hinf
    obtain ⟨q, hq, rfl⟩ := mem_iff_getElem.mp hc
    have hzero := hnone hbest q (by rw [length_map]; exact hq)
    obtain ⟨hin, hget⟩ := getD_cover nb hq
    rw [hget, getD_eq_getElem _ _ hq, Bitset.count_eq_zero_iff] at hzero
    have hboth : Bitset.Mem (Bitset.inter uncovered (bveCubeCover nb primes[q])) m := by
      rw [Bitset.mem_inter (by rw [h.length, length_bveCubeCover])]
      exact ⟨hm, (mem_bveCubeCover (hprimes _ hc).1 (hprimes _ hc).2 m).mpr ⟨hlt, hmatch⟩⟩
    rw [← Bitset.mem_toFinset, hzero] at hboth
    exact absurd hboth (notMem_empty m)

lemma pick (hprimes : ∀ c ∈ primes, c.lit < 2 ^ nb ∧ c.Normal) {q : ℕ}
    (hbest : (bestCube uncovered (primes.map (bveCubeCover nb))).1 = some q) :
    Covering feas nb primes (Bitset.diff uncovered ((primes.map (bveCubeCover nb)).getD q []))
      (out ++ [primes.getD q ⟨0, 0⟩]) ∧
    (Bitset.toFinset (Bitset.diff uncovered ((primes.map (bveCubeCover nb)).getD q []))).card <
      (Bitset.toFinset uncovered).card := by
  obtain ⟨hsome, -⟩ := bestCube_spec uncovered (primes.map (bveCubeCover nb))
  obtain ⟨hq, hgain⟩ := hsome q hbest
  rw [length_map] at hq
  obtain ⟨hin, hget⟩ := getD_cover nb hq
  rw [hget] at hgain ⊢
  generalize primes.getD q ⟨0, 0⟩ = c at hin hgain ⊢
  obtain ⟨hlit, hnormal⟩ := hprimes c hin
  have hlen : uncovered.length = (bveCubeCover nb c).length := by
    rw [h.length, length_bveCubeCover]
  constructor
  · refine ⟨?_, fun m hm => ?_, fun m hm hinf => ?_, fun d hd => ?_⟩
    · rw [Bitset.diff, length_zipWith, ← hlen, Nat.min_self, h.length]
    · rw [Bitset.mem_diff hlen] at hm
      exact h.infeasible m hm.1
    · rw [Bitset.mem_diff hlen, mem_bveCubeCover hlit hnormal]
      by_cases hmatch : c.Matches m
      · exact .inr ⟨c, mem_append_right _ List.mem_cons_self, hmatch⟩
      · rcases h.covered m hm hinf with hmem | ⟨d, hd, hdm⟩
        · exact .inl ⟨hmem, fun hc => hmatch hc.2⟩
        · exact .inr ⟨d, mem_append_left _ hd, hdm⟩
    · rcases mem_append.mp hd with hd | hd
      · exact h.picked d hd
      · rw [List.mem_singleton.mp hd]
        exact hin
  · apply card_lt_card
    rw [ssubset_iff_of_subset]
    · have hne : (Bitset.toFinset (Bitset.inter uncovered (bveCubeCover nb c))).Nonempty := by
        rw [nonempty_iff_ne_empty]
        exact fun hempty => hgain ((Bitset.count_eq_zero_iff _).mpr hempty)
      obtain ⟨m, hm⟩ := hne
      rw [Bitset.mem_toFinset, Bitset.mem_inter hlen] at hm
      refine ⟨m, (Bitset.mem_toFinset _ _).mpr hm.1, fun hdiff => ?_⟩
      rw [Bitset.mem_toFinset, Bitset.mem_diff hlen] at hdiff
      exact hdiff.2 hm.2
    · intro m hm
      rw [Bitset.mem_toFinset, Bitset.mem_diff hlen] at hm
      exact (Bitset.mem_toFinset _ _).mpr hm.1

end

end Covering

lemma coverLoop_spec {primes : List BveClause} (hprimes : ∀ c ∈ primes, c.lit < 2 ^ nb ∧ c.Normal)
    (hall : ∀ m < 2 ^ nb, Infeasible feas m → ∃ c ∈ primes, c.Matches m) (room : ℕ)
    {uncovered : List (BitVec 64)} {out : List BveClause}
    (h : Covering feas nb primes uncovered out) :
    CoverVerdict feas nb room primes uncovered
      (coverLoop primes (primes.map (bveCubeCover nb)) room uncovered out).1 := by
  induction room generalizing uncovered out with
  | zero =>
    rw [coverLoop.eq_def]
    dsimp only
    by_cases hcount : Bitset.count uncovered = 0
    · rw [if_pos hcount]
      exact ⟨h.picked, h.stop hcount⟩
    · rw [if_neg hcount]
      obtain ⟨q, hq⟩ := h.exists_pick hprimes hall hcount
      rw [hq]
      exact (Nat.zero_le _).trans_lt (h.pick hprimes hq).2
  | succ room ih =>
    rw [coverLoop.eq_def]
    dsimp only
    by_cases hcount : Bitset.count uncovered = 0
    · rw [if_pos hcount]
      exact ⟨h.picked, h.stop hcount⟩
    · rw [if_neg hcount]
      obtain ⟨q, hq⟩ := h.exists_pick hprimes hall hcount
      rw [hq]
      obtain ⟨hnext, hcard⟩ := h.pick hprimes hq
      have hverdict := ih hnext
      dsimp only
      cases hresult : (coverLoop primes (primes.map (bveCubeCover nb)) room
          (Bitset.diff uncovered ((primes.map (bveCubeCover nb)).getD q []))
          (out ++ [primes.getD q ⟨0, 0⟩])).1 with
      | clauses cs =>
        rw [hresult] at hverdict
        exact hverdict
      | overCap =>
        rw [hresult] at hverdict
        exact Nat.lt_of_le_of_lt hverdict hcard
      | noCube =>
        rw [hresult] at hverdict
        exact hverdict

end Cover

section Clauses

variable {feas : ℕ → Bool} {nb : ℕ}

def Implicate (feas : ℕ → Bool) (nb : ℕ) (c : BveClause) : Prop :=
  ∀ m < 2 ^ nb, feas m = true → satisfied c m = true

structure PrimeImplicate (feas : ℕ → Bool) (nb : ℕ) (c : BveClause) : Prop where
  boundary : c.lit < 2 ^ nb
  implicate : Implicate feas nb c
  minimal : ∀ d : BveClause, Cube.Sub d c → Implicate feas nb d → Cube.Sub c d

variable {c : BveClause}

lemma satisfied_iff {m : ℕ} : satisfied c m = true ↔ ¬ Cube.Matches c m := by
  rw [satisfied, decide_eq_true_eq, Cube.matches_iff]

lemma implicate_iff_within : Implicate feas nb c ↔ Cube.Within nb (Infeasible feas) c := by
  refine forall_congr' fun m => forall_congr' fun _ => ?_
  rw [satisfied_iff, ← not_imp_not, not_not, Bool.not_eq_true]
  rfl

lemma primeImplicate_iff :
    PrimeImplicate feas nb c ↔ c.lit < 2 ^ nb ∧ Cube.Prime nb (Infeasible feas) c := by
  constructor
  · intro h
    exact ⟨h.boundary, implicate_iff_within.mp h.implicate, fun d hsub hd =>
      h.minimal d hsub (implicate_iff_within.mpr hd)⟩
  · rintro ⟨hlit, hprime⟩
    exact ⟨hlit, implicate_iff_within.mpr hprime.1, fun d hsub hd =>
      hprime.2 d hsub (implicate_iff_within.mp hd)⟩

lemma bveEnumeratePrimeCubes_primes (feas : ℕ → Bool) (nb : ℕ) (scratch : BveCoverScratch)
    (c : BveClause) : c ∈ (bveEnumeratePrimeCubes feas nb scratch).primes ↔
      PrimeImplicate feas nb c ∧ Cube.Normal c := by
  rw [primeImplicate_iff, and_assoc, and_comm (a := Cube.Prime _ _ _)]
  exact mem_collectPrimes (fillValid_filled feas nb scratch.valid)

lemma exists_prime_of_infeasible (scratch : BveCoverScratch) {m : ℕ} (hm : m < 2 ^ nb)
    (hinf : Infeasible feas m) :
    ∃ c ∈ (bveEnumeratePrimeCubes feas nb scratch).primes, Cube.Matches c m := by
  have hnormal : Cube.Normal ⟨fullMask nb, m⟩ := submask_full_iff.mpr hm
  obtain ⟨p, hp, hpn, hsub⟩ := Cube.exists_prime ((Cube.within_minterm hm).mpr hinf) hnormal
  refine ⟨p, (bveEnumeratePrimeCubes_primes feas nb scratch p).mpr
    ⟨primeImplicate_iff.mpr ⟨?_, hp⟩, hpn⟩, hsub.matches_of fun _ _ => rfl⟩
  exact submask_full_iff.mp fun i hi => (hsub i hi).1

def CoverResult.Exact (feas : ℕ → Bool) (nb cap : ℕ) : CoverResult → Prop
  | .clauses out =>
    (∀ m < 2 ^ nb, (∀ c ∈ out, satisfied c m = true) ↔ feas m = true) ∧
      ∀ c ∈ out, PrimeImplicate feas nb c
  | .overCap => cap < ((Finset.range (2 ^ nb)).filter fun m => feas m = false).card
  | .noCube => False

lemma CoverVerdict.exact {cap : ℕ} {primes : List BveClause} {result : CoverResult}
    (hprimes : ∀ c ∈ primes, PrimeImplicate feas nb c)
    (h : CoverVerdict feas nb cap primes (infeasiblePatterns feas nb) result) :
    result.Exact feas nb cap := by
  cases result with
  | clauses out =>
    obtain ⟨hpicked, hcovered⟩ := h
    refine ⟨fun m hm => ⟨fun hall => ?_, fun hfeas c hc => ?_⟩, fun c hc => hprimes c (hpicked c hc)⟩
    · by_contra hinf
      obtain ⟨c, hc, hmatch⟩ := hcovered m hm (Bool.eq_false_of_not_eq_true hinf)
      exact satisfied_iff.mp (hall c hc) hmatch
    · exact (hprimes c (hpicked c hc)).implicate m hm hfeas
  | overCap =>
    have hset : Bitset.toFinset (infeasiblePatterns feas nb) =
        (Finset.range (2 ^ nb)).filter fun m => feas m = false := by
      ext m
      rw [Bitset.mem_toFinset, mem_infeasiblePatterns, Finset.mem_filter, Finset.mem_range]
      rfl
    show cap < _
    rw [← hset]
    exact h
  | noCube => exact h

lemma infeasiblePatterns_covering (feas : ℕ → Bool) (nb : ℕ) (primes : List BveClause) :
    Covering feas nb primes (infeasiblePatterns feas nb) [] where
  length := length_infeasiblePatterns feas
  infeasible m hm := (mem_infeasiblePatterns m).mp hm
  covered m hm hinf := .inl ((mem_infeasiblePatterns m).mpr ⟨hm, hinf⟩)
  picked _ hc := absurd hc not_mem_nil

/-- The clauses are satisfied by exactly the feasible patterns and each is a prime implicate,
whatever the buffers held; they are missing only when the cap is below the number of infeasible
patterns. -/
theorem bveGreedyPrimeCover_exact (feas : ℕ → Bool) (nb cap : ℕ) (scratch : BveCoverScratch) :
    (bveGreedyPrimeCover feas nb cap scratch).1.Exact feas nb cap := by
  have hmem := bveEnumeratePrimeCubes_primes feas nb scratch
  have hprime : ∀ c ∈ (bveEnumeratePrimeCubes feas nb scratch).primes, PrimeImplicate feas nb c :=
    fun c hc => ((hmem c).mp hc).1
  apply CoverVerdict.exact hprime
  have hcovering := infeasiblePatterns_covering feas nb (bveEnumeratePrimeCubes feas nb scratch).primes
  rw [bveGreedyPrimeCover]
  dsimp only
  split_ifs with hcount
  · exact ⟨hcovering.picked, hcovering.stop hcount⟩
  · refine coverLoop_spec (fun c hc => ?_)
      (fun m hm hinf => exists_prime_of_infeasible scratch hm hinf) cap hcovering
    exact ⟨((hmem c).mp hc).1.boundary, ((hmem c).mp hc).2⟩

example : (bveGreedyPrimeCover (fun m => m == 1 || m == 2) 2 64 ⟨[7, 7], [], [], []⟩).1 =
    .clauses [⟨3, 3⟩, ⟨3, 0⟩] := by decide +kernel

/-- The buffers do not change the result. -/
lemma bveGreedyPrimeCover_scratch (feas : ℕ → Bool) (nb cap : ℕ) (s t : BveCoverScratch) :
    (bveGreedyPrimeCover feas nb cap s).1 = (bveGreedyPrimeCover feas nb cap t).1 := by
  have hprimes : (bveEnumeratePrimeCubes feas nb s).primes =
      (bveEnumeratePrimeCubes feas nb t).primes :=
    collectPrimes_eq (fillValid_filled feas nb s.valid) (fillValid_filled feas nb t.valid)
  rw [bveGreedyPrimeCover, bveGreedyPrimeCover]
  dsimp only
  rw [hprimes]
  split_ifs
  · rfl
  · rfl

end Clauses

end CuOpt.Presolve
