import CuOpt.Library.Bitset
import CuOpt.Library.BufferWrites
import CuOpt.Library.RowReduction

/-! Linear systems over the field with two elements, the rows packed into words: reduction to row form
column by column, a solution, and the columns that every solution agrees on. -/

namespace CuOpt.Presolve

open List hiding any length_set mem_range range set
open Function (update update_of_ne update_self)

open Bitset Finset

def gf2NWords (n : ℕ) : ℕ := (n + 63) / 64

def gf2TestBit (row : List (BitVec 64)) (col : ℕ) : Bool :=
  (row.getD (col / 64) 0).getLsbD (col % 64)

def gf2SetBit (row : List (BitVec 64)) (col : ℕ) : List (BitVec 64) :=
  row.modify (col / 64) (· ||| ((1 : BitVec 64) <<< (col % 64)))

structure Gf2State where
  A : List (List (BitVec 64))
  b : List Bool
  pivotRowOfCol : ℕ → Option ℕ
  nextPivotRow : ℕ

def swapAt {α : Type} (l : List α) (i j : ℕ) (d : α) : List α :=
  (l.set i (l.getD j d)).set j (l.getD i d)

def findPivot (A : List (List (BitVec 64))) (nextPivotRow col : ℕ) : Option ℕ :=
  (range' nextPivotRow (A.length - nextPivotRow)).find? fun r => gf2TestBit (A.getD r []) col

def eliminateColumn (A : List (List (BitVec 64))) (b : List Bool) (pivotRow col : ℕ) :
    List (List (BitVec 64)) × List Bool :=
  (A.mapIdx fun r row =>
      if r ≠ pivotRow ∧ gf2TestBit row col then xor row (A.getD pivotRow []) else row,
    b.mapIdx fun r v =>
      if r ≠ pivotRow ∧ gf2TestBit (A.getD r []) col then v ^^ b.getD pivotRow false else v)

def reduceColumn (st : Gf2State) (col : ℕ) : Gf2State :=
  match findPivot st.A st.nextPivotRow col with
  | none => st
  | some pivot =>
    let A := if pivot ≠ st.nextPivotRow then swapAt st.A st.nextPivotRow pivot [] else st.A
    let b := if pivot ≠ st.nextPivotRow then swapAt st.b st.nextPivotRow pivot false else st.b
    let (A, b) := eliminateColumn A b st.nextPivotRow col
    ⟨A, b, Function.update st.pivotRowOfCol col (some st.nextPivotRow), st.nextPivotRow + 1⟩

def reduceColumns (A : List (List (BitVec 64))) (b : List Bool) (n : ℕ) : Gf2State :=
  (List.range n).foldl reduceColumn ⟨A, b, fun _ => none, 0⟩

def freeMask (st : Gf2State) (n : ℕ) : List (BitVec 64) :=
  (List.range n).foldl (fun mask c => if st.pivotRowOfCol c = none then gf2SetBit mask c else mask)
    (empty (gf2NWords n))

/-- `none` is infeasible; otherwise a solution and whether each column is determined. -/
def gf2Solve (A : List (List (BitVec 64))) (n : ℕ) (b : List Bool) :
    Option (List Bool × List Bool) :=
  let st := reduceColumns A b n
  let rank := st.nextPivotRow
  if (range' rank (st.A.length - rank)).any fun r => st.b.getD r false then none
  else
    some ((List.range n).map fun col =>
        (st.pivotRowOfCol col).elim false fun row => st.b.getD row false,
      (List.range n).map fun col =>
        (st.pivotRowOfCol col).elim false fun row =>
          !any (inter (st.A.getD row []) (freeMask st n)))

def toField (v : Bool) : ZMod 2 := if v then 1 else 0

lemma toField_xor (v w : Bool) : toField (v ^^ w) = toField v + toField w := by
  cases v <;> cases w <;> decide

def entry (A : List (List (BitVec 64))) (r c : ℕ) : ZMod 2 := toField (gf2TestBit (A.getD r []) c)

def rhs (b : List Bool) (r : ℕ) : ZMod 2 := toField (b.getD r false)

/-- `m` rows of `n` columns, each of as many words as it takes, the rest of its last word zero. -/
structure Shape (A : List (List (BitVec 64))) (b : List Bool) (m n : ℕ) : Prop where
  rows : A.length = m
  rhs : b.length = m
  words : ∀ r < m, (A.getD r []).length = gf2NWords n
  padding : ∀ r < m, ∀ c, gf2TestBit (A.getD r []) c = true → c < n

def Solves (A : List (List (BitVec 64))) (b : List Bool) (n : ℕ) (x : ℕ → ZMod 2) : Prop :=
  RowReduction.Solves {r | r < A.length} (range n) (entry A) (rhs b) x

section Rows

variable {A : List (List (BitVec 64))} {b : List Bool} {m n : ℕ}

lemma gf2TestBit_iff (row : List (BitVec 64)) (c : ℕ) : gf2TestBit row c = true ↔ Mem row c :=
  .rfl

lemma gf2TestBit_xor {u v : List (BitVec 64)} (hlen : u.length = v.length) (c : ℕ) :
    gf2TestBit (xor u v) c = (gf2TestBit u c ^^ gf2TestBit v c) := by
  rw [Bool.eq_iff_iff, gf2TestBit_iff, mem_xor hlen, ← gf2TestBit_iff, ← gf2TestBit_iff]
  cases gf2TestBit u c <;> cases gf2TestBit v c <;> simp

lemma getD_swapAt {α : Type} {l : List α} {i j : ℕ} (hi : i < l.length) (hj : j < l.length) (d : α)
    (r : ℕ) : (swapAt l i j d).getD r d = l.getD (Equiv.swap i j r) d := by
  have hset : ∀ (l : List α) (k : ℕ) (v : α), k < l.length →
      (l.set k v).getD r d = if k = r then v else l.getD r d := by
    intro l k v hk
    rw [getD_eq_getElem?_getD, getD_eq_getElem?_getD, getElem?_set]
    split_ifs
    · rfl
    · rfl
  rw [swapAt, hset _ _ _ (by rwa [List.length_set]), hset _ _ _ hi]
  split_ifs with hjr hir
  · rw [← hjr, Equiv.swap_apply_right]
  · rw [← hir, Equiv.swap_apply_left]
  · rw [Equiv.swap_apply_of_ne_of_ne (Ne.symm hir) (Ne.symm hjr)]

lemma length_swapAt {α : Type} (l : List α) (i j : ℕ) (d : α) :
    (swapAt l i j d).length = l.length := by
  rw [swapAt, List.length_set, List.length_set]

lemma eliminateColumn_spec (h : Shape A b m n) {p : ℕ} (hp : p < m) (col : ℕ) :
    Shape (eliminateColumn A b p col).1 (eliminateColumn A b p col).2 m n ∧
      (∀ r < m, ∀ c, entry (eliminateColumn A b p col).1 r c =
        entry A r c + (if r = p then 0 else entry A r col) * entry A p c) ∧
      ∀ r < m, rhs (eliminateColumn A b p col).2 r =
        rhs b r + (if r = p then 0 else entry A r col) * rhs b p := by
  have hrow : ∀ r < m, (eliminateColumn A b p col).1.getD r [] =
      if r ≠ p ∧ gf2TestBit (A.getD r []) col then xor (A.getD r []) (A.getD p [])
      else A.getD r [] :=
    fun r hr => BufferWrites.getD_mapIdx A _ [] [] (h.rows ▸ hr)
  have hvalue : ∀ r < m, (eliminateColumn A b p col).2.getD r false =
      if r ≠ p ∧ gf2TestBit (A.getD r []) col then b.getD r false ^^ b.getD p false
      else b.getD r false :=
    fun r hr => BufferWrites.getD_mapIdx b _ false false (h.rhs ▸ hr)
  have hlen : ∀ r < m, (A.getD r []).length = (A.getD p []).length :=
    fun r hr => (h.words r hr).trans (h.words p hp).symm
  refine ⟨⟨?_, ?_, fun r hr => ?_, fun r hr c hc => ?_⟩, fun r hr c => ?_, fun r hr => ?_⟩
  · rw [eliminateColumn, length_mapIdx, h.rows]
  · rw [eliminateColumn, length_mapIdx, h.rhs]
  · rw [hrow r hr]
    split_ifs
    · rw [Bitset.xor, length_zipWith, hlen r hr, Nat.min_self, h.words p hp]
    · exact h.words r hr
  · rw [hrow r hr] at hc
    split_ifs at hc
    · rw [gf2TestBit_xor (hlen r hr)] at hc
      cases hbit : gf2TestBit (A.getD r []) c with
      | true => exact h.padding r hr c hbit
      | false =>
        rw [hbit, Bool.false_xor] at hc
        exact h.padding p hp c hc
    · exact h.padding r hr c hc
  · rw [entry, hrow r hr]
    by_cases hrp : r = p
    · rw [if_neg fun h => h.1 hrp, if_pos hrp, zero_mul, add_zero]
      rfl
    · cases hbit : gf2TestBit (A.getD r []) col with
      | true =>
        have hone : entry A r col = 1 := by rw [entry, hbit]; rfl
        rw [if_pos ⟨hrp, rfl⟩, if_neg hrp, gf2TestBit_xor (hlen r hr), toField_xor, hone, one_mul]
        rfl
      | false =>
        have hzero : entry A r col = 0 := by rw [entry, hbit]; rfl
        rw [if_neg fun h => Bool.false_ne_true h.2, if_neg hrp, hzero, zero_mul, add_zero]
        rfl
  · rw [rhs, hvalue r hr]
    by_cases hrp : r = p
    · rw [if_neg fun h => h.1 hrp, if_pos hrp, zero_mul, add_zero]
      rfl
    · cases hbit : gf2TestBit (A.getD r []) col with
      | true =>
        have hone : entry A r col = 1 := by rw [entry, hbit]; rfl
        rw [if_pos ⟨hrp, rfl⟩, if_neg hrp, toField_xor, hone, one_mul]
        rfl
      | false =>
        have hzero : entry A r col = 0 := by rw [entry, hbit]; rfl
        rw [if_neg fun h => Bool.false_ne_true h.2, if_neg hrp, hzero, zero_mul, add_zero]
        rfl

lemma swapAt_spec (h : Shape A b m n) {i j : ℕ} (hi : i < m) (hj : j < m) :
    Shape (swapAt A i j []) (swapAt b i j false) m n ∧
      (∀ r, entry (swapAt A i j []) r = entry A (Equiv.swap i j r)) ∧
      ∀ r, rhs (swapAt b i j false) r = rhs b (Equiv.swap i j r) := by
  have hrow := getD_swapAt (h.rows ▸ hi) (h.rows ▸ hj) ([] : List (BitVec 64))
  have hvalue := getD_swapAt (h.rhs ▸ hi) (h.rhs ▸ hj) false
  have hlt : ∀ r < m, Equiv.swap i j r < m := by
    intro r hr
    rw [Equiv.swap_apply_def]
    split_ifs
    · exact hj
    · exact hi
    · exact hr
  refine ⟨⟨?_, ?_, fun r hr => ?_, fun r hr c hc => ?_⟩, fun r => ?_, fun r => ?_⟩
  · rw [length_swapAt, h.rows]
  · rw [length_swapAt, h.rhs]
  · rw [hrow]
    exact h.words _ (hlt r hr)
  · rw [hrow] at hc
    exact h.padding _ (hlt r hr) c hc
  · funext c
    rw [entry, hrow, entry]
  · rw [rhs, hvalue, rhs]

lemma findPivot_some {next col p : ℕ} (h : findPivot A next col = some p) :
    next ≤ p ∧ p < A.length ∧ entry A p col = 1 := by
  have hmem := mem_range'_1.mp (mem_of_find?_eq_some h)
  have hbit : gf2TestBit (A.getD p []) col = true := by
    simpa using find?_some (p := fun r => gf2TestBit (A.getD r []) col) h
  refine ⟨hmem.1, by omega, ?_⟩
  rw [entry, hbit]
  rfl

lemma findPivot_none {next col : ℕ} (h : findPivot A next col = none) :
    ∀ r, next ≤ r → r < A.length → entry A r col = 0 := by
  intro r hle hlt
  have hnot := find?_eq_none.mp h r (mem_range'_1.mpr ⟨hle, by omega⟩)
  rw [entry, Bool.eq_false_iff.mpr hnot]
  rfl

end Rows

/-- The system has the solutions of the first one; pivot columns before `col` are unit vectors in rows
before `nextPivotRow`, and the others are zero from there on. -/
structure Reducing (A : List (List (BitVec 64))) (b : List Bool) (m n col : ℕ) (st : Gf2State) :
    Prop where
  shape : Shape st.A st.b m n
  same : ∀ x, Solves st.A st.b n x ↔ Solves A b n x
  next_le : st.nextPivotRow ≤ m
  pivot : ∀ c p, st.pivotRowOfCol c = some p → c < col ∧ p < st.nextPivotRow ∧ entry st.A p c = 1 ∧
    ∀ r < m, r ≠ p → entry st.A r c = 0
  inj : ∀ c c' p, st.pivotRowOfCol c = some p → st.pivotRowOfCol c' = some p → c = c'
  surj : ∀ p < st.nextPivotRow, ∃ c, st.pivotRowOfCol c = some p
  below : ∀ c < col, ∀ r, st.nextPivotRow ≤ r → r < m → entry st.A r c = 0

section Reduction

variable {A : List (List (BitVec 64))} {b : List Bool} {m n col : ℕ} {st : Gf2State}

lemma Reducing.reduceColumn (h : Reducing A b m n col st) :
    Reducing A b m n (col + 1) (reduceColumn st col) := by
  unfold Presolve.reduceColumn
  cases hfind : findPivot st.A st.nextPivotRow col with
  | none =>
    refine ⟨h.shape, h.same, h.next_le, fun c p hc => ?_, h.inj, h.surj, fun c hc r hle hlt => ?_⟩
    · obtain ⟨hlt, hrest⟩ := h.pivot c p hc
      exact ⟨Nat.lt_succ_of_lt hlt, hrest⟩
    · rcases Nat.lt_succ_iff_lt_or_eq.mp hc with hc | rfl
      · exact h.below c hc r hle hlt
      · exact findPivot_none hfind r hle (h.shape.rows ▸ hlt)
  | some p =>
    obtain ⟨hnext, hp, hone⟩ := findPivot_some hfind
    rw [h.shape.rows] at hp
    obtain ⟨A₀, b₀, pivotOf, k⟩ := st
    have hpivotOf : ∀ c q, pivotOf c = some q → c < col ∧ q < k ∧ entry A₀ q c = 1 ∧
        ∀ r < m, r ≠ q → entry A₀ r c = 0 := h.pivot
    have hsurj : ∀ q < k, ∃ c, pivotOf c = some q := h.surj
    have hbelow : ∀ c < col, ∀ r, k ≤ r → r < m → entry A₀ r c = 0 := h.below
    dsimp only at hnext hone ⊢
    have hkm : k < m := lt_of_le_of_lt hnext hp
    -- the pivot row is brought to place `k`
    obtain ⟨A₁, hA₁⟩ : ∃ A₁, (if p ≠ k then swapAt A₀ k p [] else A₀) = A₁ := ⟨_, rfl⟩
    obtain ⟨b₁, hb₁⟩ : ∃ b₁, (if p ≠ k then swapAt b₀ k p false else b₀) = b₁ := ⟨_, rfl⟩
    have hswap : Shape A₁ b₁ m n ∧ (∀ r, entry A₁ r = entry A₀ (Equiv.swap k p r)) ∧
        ∀ r, rhs b₁ r = rhs b₀ (Equiv.swap k p r) := by
      rw [← hA₁, ← hb₁]
      by_cases hpk : p = k
      · subst hpk
        rw [if_neg (not_not.mpr rfl), if_neg (not_not.mpr rfl), Equiv.swap_self]
        exact ⟨h.shape, fun _ => rfl, fun _ => rfl⟩
      · rw [if_pos hpk, if_pos hpk]
        exact swapAt_spec h.shape hkm hp
    obtain ⟨hshape₁, hentry₁, hrhs₁⟩ := hswap
    obtain ⟨hshape₂, hentry₂, hrhs₂⟩ := eliminateColumn_spec hshape₁ hkm col
    rw [hA₁, hb₁]
    have hpivotRow : ∀ c, entry A₁ k c = entry A₀ p c := by
      intro c
      rw [hentry₁, Equiv.swap_apply_left]
    have hkept : ∀ r < k, ∀ c, entry A₁ r c = entry A₀ r c := by
      intro r hr c
      rw [hentry₁, Equiv.swap_apply_of_ne_of_ne (by omega) (by omega)]
    have hbelow₁ : ∀ c < col, ∀ r, k ≤ r → r < m → entry A₁ r c = 0 := by
      intro c hc r hle hlt
      rw [hentry₁]
      refine hbelow c hc _ ?_ ?_
      · rw [Equiv.swap_apply_def]
        split_ifs <;> omega
      · rw [Equiv.swap_apply_def]
        split_ifs <;> omega
    -- columns before `col` are zero in the pivot row, so the elimination keeps them
    have hold : ∀ c < col, ∀ r < m, entry (eliminateColumn A₁ b₁ k col).1 r c = entry A₁ r c := by
      intro c hc r hr
      rw [hentry₂ r hr, hbelow₁ c hc k le_rfl hkm, mul_zero, add_zero]
    have hunit : entry (eliminateColumn A₁ b₁ k col).1 k col = 1 ∧
        ∀ r < m, r ≠ k → entry (eliminateColumn A₁ b₁ k col).1 r col = 0 := by
      have hkk : entry A₁ k col = 1 := (hpivotRow col).trans hone
      refine ⟨?_, fun r hr hne => ?_⟩
      · rw [hentry₂ k hkm, if_pos rfl, zero_mul, add_zero, hkk]
      · rw [hentry₂ r hr, if_neg hne, hkk, mul_one]
        exact CharTwo.add_self_eq_zero _
    refine ⟨hshape₂, fun x => ?_, hkm, fun c q hc => ?_, fun c c' q hc hc' => ?_, fun q hq => ?_,
      fun c hc r hle hlt => ?_⟩
    · have heliminate : RowReduction.Solves {r | r < m} (range n)
          (entry (eliminateColumn A₁ b₁ k col).1) (rhs (eliminateColumn A₁ b₁ k col).2) x ↔
          RowReduction.Solves {r | r < m} (range n) (entry A₁) (rhs b₁) x :=
        RowReduction.solves_add_multiple (p := k) hkm
          (k := fun r => if r = k then 0 else entry A₁ r col) (if_pos rfl)
          (fun r hr c _ => hentry₂ r hr c) hrhs₂
      have hrows : ∀ r, Equiv.swap k p r ∈ {r | r < m} ↔ r ∈ {r | r < m} := by
        intro r
        show Equiv.swap k p r < m ↔ r < m
        rw [Equiv.swap_apply_def]
        split_ifs <;> omega
      have hpermute : RowReduction.Solves {r | r < m} (range n) (entry A₁) (rhs b₁) x ↔
          RowReduction.Solves {r | r < m} (range n) (entry A₀) (rhs b₀) x :=
        RowReduction.solves_perm hrows (fun r _ => hentry₁ r) fun r _ => hrhs₁ r
      rw [← h.same x, Solves, hshape₂.rows, Solves, h.shape.rows]
      exact heliminate.trans hpermute
    · change update pivotOf col (some k) c = some q at hc
      by_cases hcc : c = col
      · subst hcc
        rw [update_self] at hc
        cases hc
        exact ⟨Nat.lt_succ_self c, Nat.lt_succ_self _, hunit⟩
      · rw [update_of_ne hcc] at hc
        obtain ⟨hlt, hq, hq1, hq0⟩ := hpivotOf c q hc
        have hqm : q < m := hq.trans hkm
        refine ⟨Nat.lt_succ_of_lt hlt, Nat.lt_succ_of_lt hq, ?_, fun r hr hne => ?_⟩
        · rw [hold c hlt q hqm, hkept q hq, hq1]
        · rw [hold c hlt r hr]
          rcases Nat.lt_or_ge r k with hrk | hrk
          · rw [hkept r hrk]
            exact hq0 r hr hne
          · exact hbelow₁ c hlt r hrk hr
    · change update pivotOf col (some k) c = some q at hc
      change update pivotOf col (some k) c' = some q at hc'
      have hfresh : ∀ c, pivotOf c ≠ some k := by
        intro c hc
        exact absurd (hpivotOf c k hc).2.1 (lt_irrefl k)
      by_cases hcc : c = col
      · by_cases hcc' : c' = col
        · rw [hcc, hcc']
        · subst hcc
          rw [update_self] at hc
          rw [update_of_ne hcc'] at hc'
          cases hc
          exact absurd hc' (hfresh c')
      · by_cases hcc' : c' = col
        · subst hcc'
          rw [update_self] at hc'
          rw [update_of_ne hcc] at hc
          cases hc'
          exact absurd hc (hfresh c)
        · rw [update_of_ne hcc] at hc
          rw [update_of_ne hcc'] at hc'
          exact h.inj c c' q hc hc'
    · show ∃ c, update pivotOf col (some k) c = some q
      rcases Nat.lt_succ_iff_lt_or_eq.mp hq with hq | rfl
      · obtain ⟨c, hc⟩ := hsurj q hq
        have hne : c ≠ col := ((hpivotOf c q hc).1).ne
        exact ⟨c, by rw [update_of_ne hne, hc]⟩
      · exact ⟨col, update_self _ _ _⟩
    · have hle' : k + 1 ≤ r := hle
      rcases Nat.lt_succ_iff_lt_or_eq.mp hc with hc | rfl
      · rw [hold c hc r hlt]
        exact hbelow₁ c hc r (by omega) hlt
      · exact hunit.2 r hlt (by omega)

lemma reduceColumns_reducing (h : Shape A b m n) : Reducing A b m n n (reduceColumns A b n) := by
  have hrun : ∀ k, Reducing A b m n k
      ((List.range k).foldl Presolve.reduceColumn ⟨A, b, fun _ => none, 0⟩) := by
    intro k
    induction k with
    | zero =>
      refine ⟨h, fun _ => .rfl, Nat.zero_le m, fun _ _ hc => ?_, fun _ _ _ hc => ?_,
        fun p hp => absurd hp (Nat.not_lt_zero p), fun c hc => absurd hc (Nat.not_lt_zero c)⟩
      · cases hc
      · cases hc
    | succ k ih =>
      rw [range_succ, foldl_concat]
      exact ih.reduceColumn
  exact hrun n

lemma Reducing.reduced (h : Reducing A b m n n st) :
    RowReduction.Reduced {r | r < m} (range n) (entry st.A) st.pivotRowOfCol where
  mem := fun c _ r hr => (h.pivot c r hr).2.1.trans_le h.next_le
  one := fun c _ r hr => (h.pivot c r hr).2.2.1
  zero := fun c _ r hr r' hr' hne => (h.pivot c r hr).2.2.2 r' hr' hne
  inj := fun c _ c' _ r hr hr' => h.inj c c' r hr hr'
  unused := by
    intro r hr hunused c hc
    refine h.below c (mem_range.mp hc) r (not_lt.mp fun hlt => ?_) hr
    obtain ⟨c', hc'⟩ := h.surj r hlt
    exact hunused c' (mem_range.mpr (h.pivot c' r hc').1) hc'

lemma Reducing.unused_iff (h : Reducing A b m n n st) {r : ℕ} :
    (∀ c ∈ range n, st.pivotRowOfCol c ≠ some r) ↔ st.nextPivotRow ≤ r := by
  constructor
  · intro hunused
    refine not_lt.mp fun hlt => ?_
    obtain ⟨c, hc⟩ := h.surj r hlt
    exact hunused c (mem_range.mpr (h.pivot c r hc).1) hc
  · intro hle c _ hc
    exact absurd (h.pivot c r hc).2.1 (not_lt.mpr hle)

lemma length_gf2SetBit (row : List (BitVec 64)) (c : ℕ) :
    (gf2SetBit row c).length = row.length := length_modify _ _ _

lemma gf2SetBit_eq_set (row : List (BitVec 64)) (c : ℕ) : gf2SetBit row c = Bitset.set row c := by
  rw [gf2SetBit, Bitset.set, (word_of c).1, (word_of c).2]

lemma lt_gf2NWords {c n : ℕ} (h : c < n) : c < 64 * gf2NWords n := by
  rw [gf2NWords]
  omega

lemma mem_freeMask (st : Gf2State) (n c : ℕ) :
    (freeMask st n).length = gf2NWords n ∧
      (Mem (freeMask st n) c ↔ c < n ∧ st.pivotRowOfCol c = none) := by
  have hrun : ∀ k ≤ n, ((List.range k).foldl
      (fun mask c => if st.pivotRowOfCol c = none then gf2SetBit mask c else mask)
      (empty (gf2NWords n))).length = gf2NWords n ∧
      (Mem ((List.range k).foldl
        (fun mask c => if st.pivotRowOfCol c = none then gf2SetBit mask c else mask)
        (empty (gf2NWords n))) c ↔ c < k ∧ st.pivotRowOfCol c = none) := by
    intro k hk
    induction k with
    | zero =>
      refine ⟨length_replicate, ?_⟩
      simp
    | succ k ih =>
      obtain ⟨hlen, hmem⟩ := ih (by omega)
      rw [range_succ, foldl_concat]
      generalize (List.range k).foldl _ _ = mask at hlen hmem
      split_ifs with hfree
      · have hbound : k < 64 * mask.length := by
          rw [hlen]
          exact lt_gf2NWords hk
        refine ⟨(length_gf2SetBit mask k).trans hlen, ?_⟩
        rw [gf2SetBit_eq_set, mem_set hbound, hmem]
        constructor
        · rintro (rfl | ⟨hlt, hnone⟩)
          · exact ⟨Nat.lt_succ_self _, hfree⟩
          · exact ⟨Nat.lt_succ_of_lt hlt, hnone⟩
        · rintro ⟨hlt, hnone⟩
          rcases Nat.lt_succ_iff_lt_or_eq.mp hlt with hlt | heq
          · exact .inr ⟨hlt, hnone⟩
          · exact .inl heq
      · refine ⟨hlen, hmem.trans ?_⟩
        constructor
        · rintro ⟨hlt, hnone⟩
          exact ⟨Nat.lt_succ_of_lt hlt, hnone⟩
        · rintro ⟨hlt, hnone⟩
          refine ⟨lt_of_le_of_ne (Nat.lt_succ_iff.mp hlt) fun heq => ?_, hnone⟩
          exact hfree (heq ▸ hnone)
  exact hrun n le_rfl

/-- The pivot row of a column meets no free column. -/
lemma Reducing.freeSupport_iff (h : Reducing A b m n n st) {p : ℕ} (hp : p < m) :
    any (inter (st.A.getD p []) (freeMask st n)) = false ↔
      ∀ f ∈ RowReduction.free (range n) st.pivotRowOfCol, entry st.A p f = 0 := by
  have hlen : (st.A.getD p []).length = (freeMask st n).length :=
    (h.shape.words p hp).trans (mem_freeMask st n 0).1.symm
  rw [← Bool.not_eq_true, any_eq_true_iff, not_exists]
  constructor
  · intro hnone f hf
    obtain ⟨hlt, hfree⟩ := RowReduction.mem_free.mp hf
    have hmask := (mem_freeMask st n f).2.mpr ⟨mem_range.mp hlt, hfree⟩
    have hbit : gf2TestBit (st.A.getD p []) f = false := by
      refine Bool.eq_false_iff.mpr fun hbit => hnone f ?_
      exact (mem_inter hlen f).mpr ⟨hbit, hmask⟩
    rw [entry, hbit]
    rfl
  · intro hzero f hf
    obtain ⟨hrow, hmask⟩ := (mem_inter hlen f).mp hf
    obtain ⟨hlt, hfree⟩ := (mem_freeMask st n f).2.mp hmask
    have hentry := hzero f (RowReduction.mem_free.mpr ⟨mem_range.mpr hlt, hfree⟩)
    rw [entry, (gf2TestBit_iff _ f).mpr hrow] at hentry
    exact absurd hentry one_ne_zero

end Reduction

structure Gf2System where
  A : List (List (BitVec 64))
  n : ℕ
  b : List Bool
  shape : Shape A b A.length n

def Gf2System.solutions (s : Gf2System) : Set (ℕ → ZMod 2) := {x | Solves s.A s.b s.n x}

/-- The solver finds a system infeasible exactly when it is, and else a solution and the columns that
have one value in all solutions. -/
theorem gf2Solve_exact (s : Gf2System) :
    (gf2Solve s.A s.n s.b = none ↔ s.solutions = ∅) ∧
      ∀ x determined, gf2Solve s.A s.n s.b = some (x, determined) →
        x.length = s.n ∧ determined.length = s.n ∧
          (fun c => toField (x.getD c false)) ∈ s.solutions ∧
          ∀ c < s.n, determined.getD c false = true ↔
            ∀ y ∈ s.solutions, ∀ z ∈ s.solutions, y c = z c := by
  have hreducing := reduceColumns_reducing s.shape
  have hreduced := hreducing.reduced
  generalize hst : reduceColumns s.A s.b s.n = st at *
  have hsolutions : ∀ x, x ∈ s.solutions ↔
      RowReduction.Solves {r | r < s.A.length} (range s.n) (entry st.A) (rhs st.b) x := by
    intro x
    have hsame := hreducing.same x
    rw [Solves, hreducing.shape.rows] at hsame
    exact hsame.symm
  have hsolve : gf2Solve s.A s.n s.b =
      if (range' st.nextPivotRow (st.A.length - st.nextPivotRow)).any fun r =>
        st.b.getD r false then none
      else some ((List.range s.n).map fun col =>
          (st.pivotRowOfCol col).elim false fun row => st.b.getD row false,
        (List.range s.n).map fun col =>
          (st.pivotRowOfCol col).elim false fun row =>
            !any (inter (st.A.getD row []) (freeMask st s.n))) := by
    rw [gf2Solve, hst]
  rw [hsolve]
  split_ifs with hbad
  · obtain ⟨r, hr, hvalue⟩ := any_eq_true.mp hbad
    have hrange := mem_range'_1.mp hr
    rw [hreducing.shape.rows] at hrange
    have hrhs : rhs st.b r ≠ 0 := by
      rw [rhs, hvalue]
      exact one_ne_zero
    refine ⟨⟨fun _ => ?_, fun _ => rfl⟩, fun _ _ hsome => (nomatch hsome)⟩
    refine Set.eq_empty_iff_forall_notMem.mpr fun x hx => ?_
    exact hreduced.not_solves (show r < s.A.length by omega) (hreducing.unused_iff.mpr hrange.1) hrhs x
      ((hsolutions x).mp hx)
  · have hzero : ∀ r ∈ {r | r < s.A.length},
        (∀ c ∈ range s.n, st.pivotRowOfCol c ≠ some r) → rhs st.b r = 0 := by
      intro r hr hunused
      have hlt : r < s.A.length := hr
      have hle := hreducing.unused_iff.mp hunused
      have hvalue : st.b.getD r false = false := by
        refine Bool.eq_false_iff.mpr fun hvalue => hbad (any_eq_true.mpr ⟨r, ?_, hvalue⟩)
        rw [hreducing.shape.rows]
        exact mem_range'_1.mpr ⟨hle, by omega⟩
      rw [rhs, hvalue]
      rfl
    have hfound : (fun c => toField (((List.range s.n).map fun col =>
        (st.pivotRowOfCol col).elim false fun row => st.b.getD row false).getD c false)) ∈
        s.solutions := by
      rw [hsolutions]
      have hparticular := hreduced.solves_of_free hzero fun _ => 0
      intro r hr
      rw [← hparticular r hr]
      refine sum_congr rfl fun c hc => ?_
      have hget : ((List.range s.n).map fun col =>
          (st.pivotRowOfCol col).elim false fun row => st.b.getD row false).getD c false =
          (st.pivotRowOfCol c).elim false fun row => st.b.getD row false := by
        rw [getD_eq_getElem?_getD, getElem?_map, getElem?_range (mem_range.mp hc)]
        rfl
      beta_reduce
      rw [hget]
      cases st.pivotRowOfCol c with
      | none => rfl
      | some row =>
        simp only [Option.elim_some, mul_zero, sum_const_zero, sub_zero]
        rfl
    refine ⟨⟨fun hsome => (nomatch hsome), fun hempty => ?_⟩, fun x determined hsome => ?_⟩
    · rw [hempty] at hfound
      exact absurd hfound (Set.notMem_empty _)
    · cases hsome
      refine ⟨by simp, by simp, hfound, fun c hc => ?_⟩
      have hget : ((List.range s.n).map fun col =>
          (st.pivotRowOfCol col).elim false fun row =>
            !any (inter (st.A.getD row []) (freeMask st s.n))).getD c false =
          (st.pivotRowOfCol c).elim false fun row =>
            !any (inter (st.A.getD row []) (freeMask st s.n)) := by
        rw [getD_eq_getElem?_getD, getElem?_map, getElem?_range hc]
        rfl
      have hdetermined := hreduced.determined_iff hzero (mem_range.mpr hc)
      have hall : (∀ y ∈ s.solutions, ∀ z ∈ s.solutions, y c = z c) ↔
          ∀ y z, RowReduction.Solves {r | r < s.A.length} (range s.n) (entry st.A) (rhs st.b) y →
            RowReduction.Solves {r | r < s.A.length} (range s.n) (entry st.A) (rhs st.b) z →
              y c = z c := by
        constructor
        · intro h y z hy hz
          exact h y ((hsolutions y).mpr hy) z ((hsolutions z).mpr hz)
        · intro h y hy z hz
          exact h y z ((hsolutions y).mp hy) ((hsolutions z).mp hz)
      rw [hget, hall, hdetermined]
      cases hpivot : st.pivotRowOfCol c with
      | none => simp
      | some p =>
        have hp : p < s.A.length := (hreducing.pivot c p hpivot).2.1.trans_le hreducing.next_le
        rw [Option.elim_some, Bool.not_eq_true', hreducing.freeSupport_iff hp]
        constructor
        · intro hfree
          exact ⟨p, rfl, hfree⟩
        · rintro ⟨r, hr, hfree⟩
          cases hr
          exact hfree

end CuOpt.Presolve
