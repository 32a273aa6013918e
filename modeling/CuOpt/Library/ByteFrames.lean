import Mathlib

/-! Bytes: numbers in little-endian order, reading from a stream, and a buffer that is filled piece
by piece. -/

namespace ByteFrames

open List
open Function (update)

def leBytes : ℕ → ℕ → List UInt8
  | 0, _ => []
  | k + 1, n => UInt8.ofNat (n % 256) :: leBytes k (n / 256)

def ofLeBytes : List UInt8 → ℕ
  | [] => 0
  | b :: l => b.toNat + 256 * ofLeBytes l

@[simp] lemma length_leBytes (k n : ℕ) : (leBytes k n).length = k := by
  induction k generalizing n with
  | zero => rfl
  | succ k ih => rw [leBytes, length_cons, ih]

lemma ofLeBytes_leBytes {k n : ℕ} (h : n < 256 ^ k) : ofLeBytes (leBytes k n) = n := by
  induction k generalizing n with
  | zero =>
    rw [pow_zero, Nat.lt_one_iff] at h
    exact h.symm
  | succ k ih =>
    have hdiv : n / 256 < 256 ^ k := by
      rw [Nat.div_lt_iff_lt_mul (by decide), ← pow_succ]
      exact h
    have hbyte : (UInt8.ofNat (n % 256)).toNat = n % 256 := by
      rw [UInt8.toNat_ofNat']
      exact Nat.mod_eq_of_lt (Nat.mod_lt n (by decide))
    rw [leBytes, ofLeBytes, ih hdiv, hbyte]
    exact Nat.mod_add_div n 256

def readBytes (n : ℕ) (stream : List UInt8) : Option (List UInt8 × List UInt8) :=
  if stream.length < n then none else some (stream.take n, stream.drop n)

lemma readBytes_append (bytes rest : List UInt8) :
    readBytes bytes.length (bytes ++ rest) = some (bytes, rest) := by
  have hnot : ¬(bytes ++ rest).length < bytes.length := by
    rw [length_append]
    omega
  rw [readBytes, if_neg hnot, take_left, drop_left]

lemma readBytes_eq {n : ℕ} {bytes : List UInt8} (h : bytes.length = n) (rest : List UInt8) :
    readBytes n (bytes ++ rest) = some (bytes, rest) := by
  rw [← h]
  exact readBytes_append bytes rest

section Buffer

variable {α : Type*}

def writeAt (buffer : List α) (position : ℕ) (data : List α) : List α :=
  buffer.take position ++ data ++ buffer.drop (position + data.length)

lemma length_writeAt {buffer data : List α} {position : ℕ}
    (h : position + data.length ≤ buffer.length) :
    (writeAt buffer position data).length = buffer.length := by
  simp only [writeAt, length_append, length_take, length_drop]
  omega

lemma getElem?_writeAt {buffer data : List α} {position : ℕ}
    (h : position + data.length ≤ buffer.length) (i : ℕ) : (writeAt buffer position data)[i]? =
      if position ≤ i ∧ i < position + data.length then data[i - position]? else buffer[i]? := by
  have hlen : (buffer.take position).length = position := by
    rw [length_take]
    omega
  rw [writeAt]
  by_cases hlow : i < position
  · have hnot : ¬(position ≤ i ∧ i < position + data.length) := by omega
    rw [if_neg hnot, append_assoc, getElem?_append_left (by omega), getElem?_take_of_lt hlow]
  · by_cases hmid : i < position + data.length
    · rw [if_pos ⟨not_lt.mp hlow, hmid⟩, append_assoc, getElem?_append_right (by omega),
        hlen, getElem?_append_left (by omega)]
    · have hnot : ¬(position ≤ i ∧ i < position + data.length) := by omega
      rw [if_neg hnot, getElem?_append_right (by simp only [length_append]; omega), getElem?_drop]
      congr 1
      simp only [length_append]
      omega

def markAll (covered : ℕ → Bool) (indices : List ℕ) : Option (ℕ → Bool) :=
  indices.foldlM (fun covered i => if covered i then none else some (Function.update covered i true))
    covered

lemma markAll_eq_some {covered : ℕ → Bool} {indices : List ℕ} (hnodup : indices.Nodup)
    (hfree : ∀ i ∈ indices, covered i = false) :
    markAll covered indices = some fun i => covered i || decide (i ∈ indices) := by
  induction indices generalizing covered with
  | nil => simp [markAll]
  | cons j indices ih =>
    obtain ⟨hj, hnodup⟩ := nodup_cons.mp hnodup
    have hstep : markAll covered (j :: indices) =
        markAll (update covered j true) indices := by
      rw [markAll, foldlM_cons, hfree j mem_cons_self]
      rfl
    have hfree' : ∀ i ∈ indices, update covered j true i = false := by
      intro i hi
      have hne : i ≠ j := fun h => hj (h ▸ hi)
      rw [Function.update_of_ne hne]
      exact hfree i (mem_cons_of_mem j hi)
    rw [hstep, ih hnodup hfree']
    congr 1
    funext i
    by_cases heq : i = j
    · subst heq
      simp
    · simp [heq]

lemma markAll_eq_some_iff {covered covered' : ℕ → Bool} {indices : List ℕ} :
    markAll covered indices = some covered' ↔ indices.Nodup ∧ (∀ i ∈ indices, covered i = false) ∧
      covered' = fun i => covered i || decide (i ∈ indices) := by
  have hfree : ∀ covered, markAll covered indices = some covered' →
      indices.Nodup ∧ ∀ i ∈ indices, covered i = false := by
    induction indices with
    | nil => exact fun _ _ => ⟨nodup_nil, nofun⟩
    | cons j indices ih =>
      intro covered h
      rw [markAll, foldlM_cons] at h
      cases hj : covered j with
      | true =>
        rw [hj] at h
        cases h
      | false =>
        rw [hj] at h
        obtain ⟨hnodup, hrest⟩ := ih (update covered j true) h
        have hnotMem : j ∉ indices := by
          intro hmem
          have hcovered := hrest j hmem
          rw [Function.update_self] at hcovered
          cases hcovered
        refine ⟨nodup_cons.mpr ⟨hnotMem, hnodup⟩, fun i hi => ?_⟩
        rcases mem_cons.mp hi with rfl | hi
        · exact hj
        · have hfree := hrest i hi
          rwa [Function.update_of_ne fun heq : i = j => hnotMem (heq ▸ hi)] at hfree
  constructor
  · intro h
    obtain ⟨hnodup, hcovered⟩ := hfree covered h
    rw [markAll_eq_some hnodup hcovered] at h
    exact ⟨hnodup, hcovered, (Option.some.inj h).symm⟩
  · rintro ⟨hnodup, hcovered, rfl⟩
    exact markAll_eq_some hnodup hcovered

end Buffer

end ByteFrames
