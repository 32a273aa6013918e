import Mathlib

/-! Sets of numbers as vectors of 64-bit words: the bits of a word in ascending order by clearing the
lowest one, and the set operations word by word. -/

namespace Bitset

open List
open BitVec (getLsbD_and)
open Bool (and_eq_true)
open Nat (mod_lt)

variable {word : BitVec 64}

lemma toNat_sub_one (h : word ≠ 0) : (word - 1).toNat = word.toNat - 1 := by
  have hpos : word.toNat ≠ 0 := fun hzero => h (BitVec.eq_of_toNat_eq hzero)
  have hlt := word.isLt
  rw [BitVec.toNat_sub]
  simp only [BitVec.ofNat_eq_ofNat, BitVec.toNat_ofNat]
  omega

def wordBits (word : BitVec 64) : List ℕ :=
  if h : word = 0 then []
  else word.ctz.toNat :: wordBits (word &&& (word - 1))
termination_by word.toNat
decreasing_by
  have hpos : word.toNat ≠ 0 := fun hzero => h (BitVec.eq_of_toNat_eq hzero)
  have hle : (word &&& (word - 1)).toNat ≤ (word - 1).toNat := by
    rw [BitVec.toNat_and]
    exact Nat.and_le_right
  rw [toNat_sub_one h] at hle
  omega

lemma exists_lowest (word : BitVec 64) (h : word ≠ 0) :
    ∃ q, word.toNat = 2 ^ (word.ctz.toNat + 1) * q + 2 ^ word.ctz.toNat := by
  generalize ht : word.ctz.toNat = t
  have hlow : word.toNat % 2 ^ t = 0 := by
    apply Nat.eq_of_testBit_eq
    intro i
    rw [Nat.testBit_mod_two_pow, Nat.zero_testBit]
    by_cases hi : i < t
    · have hfalse : word.toNat.testBit i = false :=
        BitVec.getLsbD_false_of_lt_ctz (ht.symm ▸ hi)
      rw [hfalse, Bool.and_false]
    · rw [decide_eq_false hi, Bool.false_and]
  obtain ⟨y, hy⟩ := Nat.dvd_of_mod_eq_zero hlow
  have hodd : y.testBit 0 = true := by
    have hset : word.toNat.testBit t = true := by
      rw [← ht]
      exact BitVec.getLsbD_true_ctz_of_ne_zero h
    rw [hy, Nat.testBit_two_pow_mul] at hset
    simpa using hset
  rw [Nat.testBit_zero, decide_eq_true_eq] at hodd
  refine ⟨y / 2, ?_⟩
  have hhalf : y = 2 * (y / 2) + 1 := by omega
  calc word.toNat = 2 ^ t * y := hy
    _ = 2 ^ t * (2 * (y / 2) + 1) := by rw [← hhalf]
    _ = 2 ^ (t + 1) * (y / 2) + 2 ^ t := by ring

lemma getLsbD_and_sub_one (h : word ≠ 0) (i : ℕ) :
    (word &&& (word - 1)).getLsbD i = (word.getLsbD i && decide (i ≠ word.ctz.toNat)) := by
  obtain ⟨q, hq⟩ := exists_lowest word h
  have hbelow : ∀ i < word.ctz.toNat, word.getLsbD i = false :=
    fun i hi => BitVec.getLsbD_false_of_lt_ctz hi
  generalize word.ctz.toNat = t at hq hbelow
  have hpos : 0 < 2 ^ t := Nat.two_pow_pos t
  have hlt : 2 ^ t < 2 ^ (t + 1) := Nat.pow_lt_pow_right (by omega) (by omega)
  have hpred : word.toNat - 1 = 2 ^ (t + 1) * q + (2 ^ t - 1) := by omega
  rw [getLsbD_and]
  rcases lt_trichotomy i t with hi | rfl | hi
  · rw [hbelow i hi, Bool.false_and, Bool.false_and]
  · have hclear : (word - 1).getLsbD i = false := by
      show (word - 1).toNat.testBit i = false
      rw [toNat_sub_one h, hpred, Nat.testBit_two_pow_mul_add _ (by omega), if_pos (by omega)]
      simp
    rw [hclear]
    simp
  · have hsame : (word - 1).getLsbD i = word.getLsbD i := by
      show (word - 1).toNat.testBit i = word.toNat.testBit i
      rw [toNat_sub_one h, hpred, hq, Nat.testBit_two_pow_mul_add _ (by omega),
        Nat.testBit_two_pow_mul_add _ hlt, if_neg (by omega), if_neg (by omega)]
    rw [hsame, Bool.and_self, decide_eq_true (Nat.ne_of_gt hi), Bool.and_true]

lemma mem_wordBits (word : BitVec 64) (i : ℕ) : i ∈ wordBits word ↔ word.getLsbD i = true := by
  fun_induction wordBits word with
  | case1 => simp
  | case2 word h ih =>
    rw [mem_cons, ih, getLsbD_and_sub_one h, and_eq_true, decide_eq_true_eq]
    constructor
    · rintro (rfl | hi)
      · exact BitVec.getLsbD_true_ctz_of_ne_zero h
      · exact hi.1
    · intro hi
      by_cases heq : i = word.ctz.toNat
      · exact .inl heq
      · exact .inr ⟨hi, heq⟩

lemma wordBits_lt {i : ℕ} (h : i ∈ wordBits word) : i < 64 := by
  by_contra hle
  have hfalse := BitVec.getLsbD_of_ge word i (by omega)
  rw [(mem_wordBits word i).mp h] at hfalse
  exact absurd hfalse (by decide)

lemma sorted_wordBits (word : BitVec 64) : (wordBits word).Pairwise (· < ·) := by
  fun_induction wordBits word with
  | case1 => exact List.Pairwise.nil
  | case2 word h ih =>
    refine pairwise_cons.mpr ⟨fun i hi => ?_, ih⟩
    rw [mem_wordBits, getLsbD_and_sub_one h, and_eq_true, decide_eq_true_eq] at hi
    have hge : ¬ i < word.ctz.toNat := by
      intro hlt
      rw [BitVec.getLsbD_false_of_lt_ctz hlt] at hi
      exact absurd hi.1 (by decide)
    omega

def membersFrom (start : ℕ) : List (BitVec 64) → List ℕ
  | [] => []
  | word :: rest => (wordBits word).map (64 * start + ·) ++ membersFrom (start + 1) rest

def members (bits : List (BitVec 64)) : List ℕ := membersFrom 0 bits

def Mem (bits : List (BitVec 64)) (i : ℕ) : Prop := (bits.getD (i / 64) 0).getLsbD (i % 64) = true

lemma mem_membersFrom (start : ℕ) (bits : List (BitVec 64)) (i : ℕ) :
    i ∈ membersFrom start bits ↔ 64 * start ≤ i ∧ Mem bits (i - 64 * start) := by
  induction bits generalizing start with
  | nil => simp [membersFrom, Mem]
  | cons word rest ih =>
    rw [membersFrom, mem_append, ih, mem_map]
    constructor
    · rintro (⟨b, hb, rfl⟩ | ⟨hle, hmem⟩)
      · have hlt := wordBits_lt hb
        refine ⟨by omega, ?_⟩
        rw [Mem, Nat.add_sub_cancel_left, Nat.div_eq_of_lt hlt, Nat.mod_eq_of_lt hlt]
        exact (mem_wordBits word b).mp hb
      · refine ⟨by omega, ?_⟩
        have hdiv : (i - 64 * start) / 64 = (i - 64 * (start + 1)) / 64 + 1 := by omega
        have hmod : (i - 64 * start) % 64 = (i - 64 * (start + 1)) % 64 := by omega
        rw [Mem, hdiv, hmod, getD_cons_succ]
        exact hmem
    · rintro ⟨hle, hmem⟩
      by_cases hnear : i - 64 * start < 64
      · rw [Mem, Nat.div_eq_of_lt hnear, Nat.mod_eq_of_lt hnear] at hmem
        exact .inl ⟨i - 64 * start, (mem_wordBits word _).mpr hmem, by omega⟩
      · refine .inr ⟨by omega, ?_⟩
        have hdiv : (i - 64 * start) / 64 = (i - 64 * (start + 1)) / 64 + 1 := by omega
        have hmod : (i - 64 * start) % 64 = (i - 64 * (start + 1)) % 64 := by omega
        rw [Mem, hdiv, hmod, getD_cons_succ] at hmem
        exact hmem

@[simp] lemma mem_members (bits : List (BitVec 64)) (i : ℕ) : i ∈ members bits ↔ Mem bits i := by
  rw [members, mem_membersFrom]
  simp

lemma sorted_membersFrom (start : ℕ) (bits : List (BitVec 64)) :
    (membersFrom start bits).Pairwise (· < ·) := by
  induction bits generalizing start with
  | nil => exact List.Pairwise.nil
  | cons word rest ih =>
    refine pairwise_append.mpr ⟨?_, ih (start + 1), fun a ha b hb => ?_⟩
    · exact pairwise_map.mpr ((sorted_wordBits word).imp fun h => by omega)
    · obtain ⟨c, hc, rfl⟩ := mem_map.mp ha
      have hlt := wordBits_lt hc
      have hle := ((mem_membersFrom (start + 1) rest b).mp hb).1
      omega

lemma nodup_members (bits : List (BitVec 64)) : (members bits).Nodup :=
  (sorted_membersFrom 0 bits).imp fun h => h.ne

def toFinset (bits : List (BitVec 64)) : Finset ℕ := (members bits).toFinset

@[simp] lemma mem_toFinset (bits : List (BitVec 64)) (i : ℕ) : i ∈ toFinset bits ↔ Mem bits i := by
  rw [toFinset, List.mem_toFinset, mem_members]

def any (bits : List (BitVec 64)) : Bool := bits.any fun word => decide (word ≠ 0)

def set (bits : List (BitVec 64)) (i : ℕ) : List (BitVec 64) :=
  bits.modify (i >>> 6) (· ||| ((1 : BitVec 64) <<< (i &&& 63)))

def clear (bits : List (BitVec 64)) (i : ℕ) : List (BitVec 64) :=
  bits.modify (i >>> 6) (· &&& ~~~((1 : BitVec 64) <<< (i &&& 63)))

def inter (a b : List (BitVec 64)) : List (BitVec 64) := List.zipWith (· &&& ·) a b

def union (a b : List (BitVec 64)) : List (BitVec 64) := List.zipWith (· ||| ·) a b

def diff (a b : List (BitVec 64)) : List (BitVec 64) := List.zipWith (fun x y => x &&& ~~~y) a b

def xor (a b : List (BitVec 64)) : List (BitVec 64) := List.zipWith (· ^^^ ·) a b

def empty (words : ℕ) : List (BitVec 64) := replicate words 0

lemma any_eq_true_iff (bits : List (BitVec 64)) : any bits = true ↔ ∃ i, Mem bits i := by
  rw [any, any_eq_true]
  constructor
  · rintro ⟨word, hword, hne⟩
    obtain ⟨w, hlt, rfl⟩ := mem_iff_getElem.mp hword
    have hbit : (bits[w]).ctz.toNat < 64 :=
      wordBits_lt ((mem_wordBits _ _).mpr
        (BitVec.getLsbD_true_ctz_of_ne_zero (of_decide_eq_true hne)))
    refine ⟨64 * w + (bits[w]).ctz.toNat, ?_⟩
    have hdiv : (64 * w + (bits[w]).ctz.toNat) / 64 = w := by omega
    have hmod : (64 * w + (bits[w]).ctz.toNat) % 64 = (bits[w]).ctz.toNat := by omega
    rw [Mem, hdiv, hmod, getD_eq_getElem _ _ hlt]
    exact BitVec.getLsbD_true_ctz_of_ne_zero (of_decide_eq_true hne)
  · rintro ⟨i, hi⟩
    by_cases hlt : i / 64 < bits.length
    · refine ⟨bits[i / 64], getElem_mem hlt, decide_eq_true fun hzero => ?_⟩
      rw [Mem, getD_eq_getElem _ _ hlt, hzero] at hi
      simp at hi
    · rw [Mem, getD_eq_default _ _ (not_lt.mp hlt)] at hi
      simp at hi

lemma any_eq_false_iff (bits : List (BitVec 64)) : any bits = false ↔ toFinset bits = ∅ := by
  rw [← Bool.not_eq_true, any_eq_true_iff, not_exists, Finset.eq_empty_iff_forall_notMem]
  exact forall_congr' fun i => not_congr (mem_toFinset bits i).symm

variable {a b : List (BitVec 64)}

lemma getD_zipWith {f : BitVec 64 → BitVec 64 → BitVec 64} (hf : f 0 0 = 0)
    (hlen : a.length = b.length) (w : ℕ) :
    (zipWith f a b).getD w 0 = f (a.getD w 0) (b.getD w 0) := by
  by_cases hlt : w < a.length
  · have hzip : w < (zipWith f a b).length := by
      rw [length_zipWith]
      omega
    rw [getD_eq_getElem _ _ hzip, getD_eq_getElem _ _ hlt,
      getD_eq_getElem _ _ (hlen ▸ hlt), getElem_zipWith]
  · have hle : a.length ≤ w := not_lt.mp hlt
    have hle' : b.length ≤ w := hlen ▸ hle
    have hzip : (zipWith f a b).length ≤ w := by
      rw [length_zipWith]
      omega
    rw [getD_eq_default a 0 hle, getD_eq_default b 0 hle', getD_eq_default _ 0 hzip, hf]

section

variable (hlen : a.length = b.length)
include hlen

@[simp] lemma length_inter : (inter a b).length = a.length := by
  rw [inter, length_zipWith, ← hlen, Nat.min_self]

lemma mem_inter (i : ℕ) : Mem (inter a b) i ↔ Mem a i ∧ Mem b i := by
  rw [Mem, inter, getD_zipWith (BitVec.and_self) hlen, getLsbD_and, and_eq_true]
  rfl

lemma mem_union (i : ℕ) : Mem (union a b) i ↔ Mem a i ∨ Mem b i := by
  rw [Mem, union, getD_zipWith (BitVec.or_self) hlen, BitVec.getLsbD_or, Bool.or_eq_true]
  rfl

lemma mem_xor (i : ℕ) : Mem (xor a b) i ↔ ¬(Mem a i ↔ Mem b i) := by
  rw [Mem, Mem, Mem, xor, getD_zipWith BitVec.xor_self hlen, BitVec.getLsbD_xor]
  cases (a.getD (i / 64) 0).getLsbD (i % 64) <;> cases (b.getD (i / 64) 0).getLsbD (i % 64) <;> simp

lemma mem_diff (i : ℕ) : Mem (diff a b) i ↔ Mem a i ∧ ¬ Mem b i := by
  have hlt : i % 64 < 64 := mod_lt i (by decide)
  rw [Mem, diff, getD_zipWith (by decide) hlen, getLsbD_and, BitVec.getLsbD_not,
    and_eq_true, decide_eq_true hlt, Bool.true_and, Bool.not_eq_true']
  exact and_congr_right fun _ => (Bool.not_eq_true _).symm.to_iff

end

lemma word_of (i : ℕ) : i >>> 6 = i / 64 ∧ i &&& 63 = i % 64 :=
  ⟨Nat.shiftRight_eq_div_pow i 6, Nat.and_two_pow_sub_one_eq_mod i 6⟩

@[simp] lemma length_set (bits : List (BitVec 64)) (i : ℕ) :
    (set bits i).length = bits.length := length_modify _ _ _

@[simp] lemma length_clear (bits : List (BitVec 64)) (i : ℕ) :
    (clear bits i).length = bits.length := length_modify _ _ _

lemma getLsbD_one_shiftLeft {b : ℕ} (hb : b < 64) (k : ℕ) :
    ((1 : BitVec 64) <<< b).getLsbD k = decide (k = b) := by
  rw [BitVec.getLsbD_shiftLeft]
  by_cases heq : k = b
  · subst heq
    simp [hb]
  · rw [decide_eq_false heq]
    by_cases hlt : k < b
    · simp [hlt]
    · have hne : ¬ k - b = 0 := by omega
      simp [BitVec.getLsbD_one, hne]

lemma getD_modify {f : BitVec 64 → BitVec 64} (bits : List (BitVec 64)) {w : ℕ}
    (hw : w < bits.length ∨ f 0 = 0) (v : ℕ) :
    (bits.modify w f).getD v 0 = if w = v then f (bits.getD v 0) else bits.getD v 0 := by
  rw [getD_eq_getElem?_getD, getD_eq_getElem?_getD, getElem?_modify]
  split_ifs with heq
  · subst heq
    cases hget : bits[w]? with
    | none =>
      have hout : bits.length ≤ w := getElem?_eq_none_iff.mp hget
      rcases hw with hw | hw
      · exact absurd hw (not_lt.mpr hout)
      · exact hw.symm
    | some word => rfl
  · cases bits[v]? with
    | none | some word => rfl

lemma mem_set {bits : List (BitVec 64)} {i : ℕ} (hi : i < 64 * bits.length) (j : ℕ) :
    Mem (set bits i) j ↔ j = i ∨ Mem bits j := by
  have hword : i / 64 < bits.length := by omega
  rw [Mem, set, (word_of i).1, (word_of i).2, getD_modify bits (.inl hword), Mem]
  split_ifs with heq
  · rw [BitVec.getLsbD_or, getLsbD_one_shiftLeft (mod_lt i (by decide)), Bool.or_eq_true,
      decide_eq_true_eq, or_comm]
    have hsame : j % 64 = i % 64 ↔ j = i := by omega
    rw [hsame]
  · have hne : j ≠ i := fun h => heq (by rw [h])
    simp only [hne, false_or]

lemma mem_clear (bits : List (BitVec 64)) (i j : ℕ) :
    Mem (clear bits i) j ↔ j ≠ i ∧ Mem bits j := by
  have hzero : (0 : BitVec 64) &&& ~~~((1 : BitVec 64) <<< (i % 64)) = 0 := BitVec.zero_and
  rw [Mem, clear, (word_of i).1, (word_of i).2, getD_modify bits (.inr hzero), Mem]
  split_ifs with heq
  · have hlt : j % 64 < 64 := mod_lt j (by decide)
    rw [getLsbD_and, BitVec.getLsbD_not, getLsbD_one_shiftLeft (mod_lt i (by decide)),
      and_eq_true, decide_eq_true hlt, Bool.true_and, Bool.not_eq_true',
      decide_eq_false_iff_not, and_comm]
    have hsame : j % 64 = i % 64 ↔ j = i := by omega
    rw [hsame]
  · have hne : j ≠ i := fun h => heq (by rw [h])
    simp only [hne, ne_eq, not_false_eq_true, true_and]

@[simp] lemma not_mem_empty (words i : ℕ) : ¬ Mem (empty words) i := by
  have hzero : (empty words).getD (i / 64) 0 = 0 := by
    rw [empty, getD_eq_getElem?_getD, getElem?_replicate]
    split_ifs
    · rfl
    · rfl
  rw [Mem, hzero]
  simp

def count (bits : List (BitVec 64)) : ℕ := (bits.map fun word => word.cpop.toNat).sum

lemma cpopNatRec_eq_countP (word : BitVec 64) (n : ℕ) :
    word.cpopNatRec n 0 = (range n).countP word.getLsbD := by
  induction n with
  | zero => rfl
  | succ n ih =>
    rw [BitVec.cpopNatRec_succ, BitVec.cpopNatRec_eq, ih, range_succ, countP_append,
      countP_singleton]
    cases word.getLsbD n with
    | false => rfl
    | true => rfl

lemma cpop_eq_zero_iff (word : BitVec 64) : word.cpop.toNat = 0 ↔ word = 0 := by
  rw [BitVec.toNat_cpop, cpopNatRec_eq_countP, countP_eq_zero]
  constructor
  · intro h
    apply BitVec.eq_of_getLsbD_eq
    intro i hi
    rw [Bool.eq_false_of_not_eq_true (h i (mem_range.mpr hi))]
    exact BitVec.getLsbD_zero.symm
  · rintro rfl i -
    rw [show (0 : BitVec 64).getLsbD i = false from BitVec.getLsbD_zero]
    exact Bool.false_ne_true

lemma count_eq_zero_iff (bits : List (BitVec 64)) : count bits = 0 ↔ toFinset bits = ∅ := by
  rw [← any_eq_false_iff, count, sum_eq_zero_iff, any, any_eq_false]
  constructor
  · intro h word hword
    have hzero := (cpop_eq_zero_iff word).mp (h _ (mem_map_of_mem hword))
    simp [hzero]
  · intro h v hv
    obtain ⟨word, hword, rfl⟩ := mem_map.mp hv
    apply (cpop_eq_zero_iff word).mpr
    by_contra hne
    exact h word hword (decide_eq_true hne)

section Fill

variable {ι : Type*} {f : ι → ℕ}

@[simp] lemma length_foldl_set (l : List ι) (bits : List (BitVec 64)) :
    (l.foldl (fun b x => set b (f x)) bits).length = bits.length := by
  induction l generalizing bits with
  | nil => rfl
  | cons x l ih => rw [foldl_cons, ih, length_set]

lemma mem_foldl_set {l : List ι} {bits : List (BitVec 64)}
    (h : ∀ x ∈ l, f x < 64 * bits.length) (j : ℕ) :
    Mem (l.foldl (fun b x => set b (f x)) bits) j ↔ (∃ x ∈ l, f x = j) ∨ Mem bits j := by
  induction l generalizing bits with
  | nil => simp
  | cons x l ih =>
    have hset := mem_set (h x mem_cons_self) j
    have hrest := @ih (set bits (f x)) fun y hy => by
      rw [length_set]
      exact h y (mem_cons_of_mem x hy)
    rw [foldl_cons, hrest, hset, exists_mem_cons_iff]
    constructor
    · rintro (hl | rfl | hbits)
      · exact .inl (.inr hl)
      · exact .inl (.inl rfl)
      · exact .inr hbits
    · rintro ((rfl | hl) | hbits)
      · exact .inr (.inl rfl)
      · exact .inl hl
      · exact .inr (.inr hbits)

end Fill

end Bitset
