import CuOpt.Simplex.EmptyLines

/-! The row-wise matrix on which free variables are substituted out: each row is a list of entries,
each column an append-only list of rows that may hold it. -/

namespace CuOpt.Simplex

open List hiding keys keys_cons
open Function (update update_of_ne update_self)
open Prod (fst)

open SparseList

namespace SparseRow

def find (row : List (ℕ × ℚ)) (col : ℕ) : Option ℕ := row.findIdx? fun p => p.1 = col

def value (row : List (ℕ × ℚ)) (offset : ℕ) : ℚ := (row.getD offset (0, 0)).2

def erase (row : List (ℕ × ℚ)) (offset : ℕ) : List (ℕ × ℚ) :=
  (row.set offset (row.getLastD (0, 0))).dropLast

def setValue (row : List (ℕ × ℚ)) (offset : ℕ) (v : ℚ) : List (ℕ × ℚ) :=
  row.set offset ((row.getD offset (0, 0)).1, v)

def maxAbs (row : List (ℕ × ℚ)) : ℚ := row.foldl (fun m p => max m |p.2|) 0

variable {row : List (ℕ × ℚ)} {col k : ℕ}

lemma find_eq_none (h : find row col = none) : col ∉ keys row := by
  simp only [find, findIdx?_eq_none_iff, decide_eq_false_iff_not] at h
  intro hmem
  obtain ⟨p, hp, rfl⟩ := mem_map.mp hmem
  exact h p hp rfl

lemma find_eq_some (h : find row col = some k) : ∃ hk : k < row.length, (row[k]).1 = col := by
  obtain ⟨hk, hp, -⟩ := findIdx?_eq_some_iff_getElem.mp h
  exact ⟨hk, by simpa using hp⟩

lemma find_isSome (h : col ∈ keys row) : ∃ k, find row col = some k := by
  cases hf : find row col with
  | none => exact absurd h (find_eq_none hf)
  | some k => exact ⟨k, rfl⟩

lemma value_find (hrow : (keys row).Nodup) (h : find row col = some k) :
    value row k = coeff row col := by
  obtain ⟨hk, rfl⟩ := find_eq_some h
  rw [value, getD_eq_getElem _ _ hk, coeff_of_mem hrow (getElem_mem hk)]

lemma erase_perm (hk : k < row.length) : (erase row k).Perm (row.eraseIdx k) := by
  obtain ⟨l, p, rfl⟩ := (eq_nil_or_concat' row).resolve_left
    (ne_nil_of_length_pos (by omega))
  rw [length_append, length_singleton] at hk
  by_cases hlast : k = l.length
  · subst hlast
    simp [erase, eraseIdx_append_of_length_le]
  · have hlt : k < l.length := by omega
    have herase : erase (l ++ [p]) k = l.set k p := by
      simp only [erase, getLastD_concat, set_append_left _ _ hlt, dropLast_concat]
    rw [herase, eraseIdx_append_of_lt_length hlt]
    exact ((set_perm_cons_eraseIdx hlt p).trans (perm_append_singleton p _).symm)

lemma coeff_eraseIdx (hk : k < row.length) (c : ℕ) :
    coeff (row.eraseIdx k) c = coeff row c - if (row[k]).1 = c then (row[k]).2 else 0 := by
  have hperm := getElem_cons_eraseIdx_perm hk
  rw [← coeff_perm hperm c, coeff_cons]
  ring

lemma coeff_erase (hrow : (keys row).Nodup) (h : find row col = some k) (c : ℕ) :
    coeff (erase row k) c = if c = col then 0 else coeff row c := by
  obtain ⟨hk, rfl⟩ := find_eq_some h
  rw [coeff_perm (erase_perm hk), coeff_eraseIdx hk]
  by_cases hc : c = (row[k]).1
  · subst hc
    rw [if_pos rfl, if_pos rfl, coeff_of_mem hrow (getElem_mem hk), sub_self]
  · rw [if_neg (Ne.symm hc), if_neg hc, sub_zero]

lemma nodup_keys_erase (hrow : (keys row).Nodup) (h : find row col = some k) :
    (keys (erase row k)).Nodup := by
  obtain ⟨hk, rfl⟩ := find_eq_some h
  rw [keys, ((erase_perm hk).map fst).nodup_iff]
  exact hrow.sublist ((eraseIdx_sublist row k).map fst)

lemma keys_erase_subset (h : find row col = some k) : ∀ c ∈ keys (erase row k), c ∈ keys row := by
  obtain ⟨hk, rfl⟩ := find_eq_some h
  intro c hc
  rw [keys, ((erase_perm hk).map fst).mem_iff] at hc
  exact ((eraseIdx_sublist row k).map fst).subset hc

lemma keys_setValue (hk : k < row.length) (v : ℚ) : keys (setValue row k v) = keys row := by
  have hlen : k < (keys row).length := by simpa [keys] using hk
  have hget : (row.getD k (0, 0)).1 = (keys row)[k] := by
    simp only [getD_eq_getElem _ _ hk, keys, getElem_map]
  rw [keys, setValue, map_set, hget]
  exact set_getElem_self hlen

lemma coeff_setValue (hrow : (keys row).Nodup) (h : find row col = some k) (v : ℚ) (c : ℕ) :
    coeff (setValue row k v) c = if c = col then v else coeff row c := by
  obtain ⟨hk, rfl⟩ := find_eq_some h
  rw [setValue, coeff_perm (set_perm_cons_eraseIdx hk _), coeff_cons, coeff_eraseIdx hk,
    getD_eq_getElem _ _ hk]
  by_cases hc : c = (row[k]).1
  · subst hc
    simp only [if_true, coeff_of_mem hrow (getElem_mem hk), sub_self, add_zero]
  · simp only [if_neg hc, if_neg (Ne.symm hc), zero_add, sub_zero]

end SparseRow

structure SubstitutionMatrix where
  row : ℕ → List (ℕ × ℚ)
  colRow : ℕ → List ℕ

namespace SubstitutionMatrix

def build (A : CscMatrix) : SubstitutionMatrix where
  row := A.toCompressedRow.row
  colRow := fun j => keys (A.col j)

def setRow (m : SubstitutionMatrix) (i : ℕ) (r : List (ℕ × ℚ)) : SubstitutionMatrix :=
  { m with row := update m.row i r }

def insert (m : SubstitutionMatrix) (i col : ℕ) (v : ℚ) : SubstitutionMatrix where
  row := update m.row i (m.row i ++ [(col, v)])
  colRow := update m.colRow col (m.colRow col ++ [i])

/-- Entries at or below this magnitude are dropped; zero in exact arithmetic. -/
def dropTol : ℚ := 0

def subtractEntry (i : ℕ) (factor : ℚ) (m : SubstitutionMatrix) (p : ℕ × ℚ) : SubstitutionMatrix :=
  let delta := factor * p.2
  match SparseRow.find (m.row i) p.1 with
  | none => if |0 - delta| ≤ dropTol then m else m.insert i p.1 (0 - delta)
  | some offset =>
    let newValue := SparseRow.value (m.row i) offset - delta
    if |newValue| ≤ dropTol then m.setRow i (SparseRow.erase (m.row i) offset)
    else m.setRow i (SparseRow.setValue (m.row i) offset newValue)

/-- Replaces row `i` by itself minus `factor` times the pivot row, whose entry in the eliminated
column sits at `offset` in row `i`. -/
def subtractRow (m : SubstitutionMatrix) (i offset : ℕ) (factor : ℚ) (columns : List (ℕ × ℚ)) :
    SubstitutionMatrix :=
  columns.foldl (subtractEntry i factor) (m.setRow i (SparseRow.erase (m.row i) offset))

structure Updates (m m' : SubstitutionMatrix) (i : ℕ) : Prop where
  row_of_ne : ∀ k ≠ i, m'.row k = m.row k
  colRow_mono : ∀ c k, k ∈ m.colRow c → k ∈ m'.colRow c
  colRow_new : ∀ c k, k ∈ m'.colRow c → k ∈ m.colRow c ∨ k = i
  listed : ∀ c ∈ keys (m'.row i), c ∈ keys (m.row i) ∨ i ∈ m'.colRow c

namespace Updates

variable {m m' m'' : SubstitutionMatrix} {i : ℕ}

lemma refl (m : SubstitutionMatrix) (i : ℕ) : Updates m m i :=
  ⟨fun _ _ => rfl, fun _ _ h => h, fun _ _ h => .inl h, fun _ h => .inl h⟩

lemma trans (h : Updates m m' i) (h' : Updates m' m'' i) : Updates m m'' i where
  row_of_ne := fun k hk => (h'.row_of_ne k hk).trans (h.row_of_ne k hk)
  colRow_mono := fun c k hk => h'.colRow_mono c k (h.colRow_mono c k hk)
  colRow_new := fun c k hk => by
    rcases h'.colRow_new c k hk with hk | hk
    · exact h.colRow_new c k hk
    · exact .inr hk
  listed := fun c hc => by
    rcases h'.listed c hc with hc | hc
    · rcases h.listed c hc with hc | hc
      · exact .inl hc
      · exact .inr (h'.colRow_mono c i hc)
    · exact .inr hc

lemma setRow {r : List (ℕ × ℚ)} (hr : ∀ c ∈ keys r, c ∈ keys (m.row i)) :
    Updates m (m.setRow i r) i where
  row_of_ne := fun k hk => update_of_ne hk _ _
  colRow_mono := fun _ _ h => h
  colRow_new := fun _ _ h => .inl h
  listed := fun c hc => by
    simp only [SubstitutionMatrix.setRow, update_self] at hc
    exact .inl (hr c hc)

lemma insert (m : SubstitutionMatrix) (i col : ℕ) (v : ℚ) : Updates m (m.insert i col v) i where
  row_of_ne := fun k hk => update_of_ne hk _ _
  colRow_mono := fun c k hk => by
    by_cases hc : c = col
    · subst hc
      simp only [SubstitutionMatrix.insert, update_self]
      exact mem_append_left _ hk
    · simpa only [SubstitutionMatrix.insert, update_of_ne hc] using hk
  colRow_new := fun c k hk => by
    by_cases hc : c = col
    · subst hc
      simp only [SubstitutionMatrix.insert, update_self, mem_append, mem_singleton] at hk
      exact hk
    · exact .inl (by simpa only [SubstitutionMatrix.insert, update_of_ne hc] using hk)
  listed := fun c hc => by
    simp only [SubstitutionMatrix.insert, update_self, keys, map_append,
      map_cons, map_nil, mem_append, mem_singleton] at hc
    rcases hc with hc | rfl
    · exact .inl hc
    · right
      simp only [SubstitutionMatrix.insert, update_self]
      exact mem_append_right _ (mem_singleton_self i)

end Updates

lemma subtractEntry_spec (m : SubstitutionMatrix) (i : ℕ) (factor : ℚ) (p : ℕ × ℚ)
    (hrow : (keys (m.row i)).Nodup) :
    Updates m (subtractEntry i factor m p) i ∧ (keys ((subtractEntry i factor m p).row i)).Nodup ∧
      (∀ c ∈ keys ((subtractEntry i factor m p).row i), c ∈ keys (m.row i) ∨ c = p.1) ∧
      ∀ c, coeff ((subtractEntry i factor m p).row i) c =
        coeff (m.row i) c - if p.1 = c then factor * p.2 else 0 := by
  unfold subtractEntry
  cases hf : SparseRow.find (m.row i) p.1 with
  | none =>
    have habsent := SparseRow.find_eq_none hf
    simp only [dropTol, abs_nonpos_iff, zero_sub, neg_eq_zero]
    split_ifs with hzero
    · refine ⟨Updates.refl m i, hrow, fun _ h => .inl h, fun c => ?_⟩
      simp only [hzero, ite_self, sub_zero]
    · refine ⟨Updates.insert m i _ _, ?_, fun c hc => ?_, fun c => ?_⟩
      · simp only [SubstitutionMatrix.insert, update_self, keys, map_append,
          map_cons, map_nil]
        exact nodup_append.mpr ⟨hrow, nodup_singleton _, fun a ha b hb hab =>
          habsent (mem_singleton.mp hb ▸ hab ▸ ha)⟩
      · simpa only [SubstitutionMatrix.insert, update_self, keys, map_append,
          map_cons, map_nil, mem_append, mem_singleton] using hc
      · simp only [SubstitutionMatrix.insert, update_self, coeff_append, coeff_cons,
          coeff_nil, add_zero]
        split_ifs <;> ring
  | some offset =>
    have hval := SparseRow.value_find hrow hf
    obtain ⟨hlt, _⟩ := SparseRow.find_eq_some hf
    simp only [dropTol, abs_nonpos_iff, hval]
    split_ifs with hzero
    · refine ⟨Updates.setRow (SparseRow.keys_erase_subset hf), ?_, fun c hc => ?_, fun c => ?_⟩
      · simpa only [setRow, update_self] using SparseRow.nodup_keys_erase hrow hf
      · simp only [setRow, update_self] at hc
        exact .inl (SparseRow.keys_erase_subset hf c hc)
      · simp only [setRow, update_self, SparseRow.coeff_erase hrow hf]
        by_cases hc : c = p.1
        · subst hc
          simp only [if_true, hzero]
        · simp only [if_neg hc, if_neg (Ne.symm hc), sub_zero]
    · refine ⟨Updates.setRow fun c hc => by rwa [SparseRow.keys_setValue hlt] at hc, ?_,
        fun c hc => ?_, fun c => ?_⟩
      · simpa only [setRow, update_self, SparseRow.keys_setValue hlt] using hrow
      · simp only [setRow, update_self, SparseRow.keys_setValue hlt] at hc
        exact .inl hc
      · simp only [setRow, update_self, SparseRow.coeff_setValue hrow hf]
        by_cases hc : c = p.1
        · subst hc
          simp only [if_true]
        · simp only [if_neg hc, if_neg (Ne.symm hc), sub_zero]

lemma foldl_subtractEntry (m : SubstitutionMatrix) (i : ℕ) (factor : ℚ) (l : List (ℕ × ℚ))
    (hrow : (keys (m.row i)).Nodup) :
    Updates m (l.foldl (subtractEntry i factor) m) i ∧
      (keys ((l.foldl (subtractEntry i factor) m).row i)).Nodup ∧
      (∀ c ∈ keys ((l.foldl (subtractEntry i factor) m).row i), c ∈ keys (m.row i) ∨ c ∈ keys l) ∧
      ∀ c, coeff ((l.foldl (subtractEntry i factor) m).row i) c =
        coeff (m.row i) c - factor * coeff l c := by
  induction l generalizing m with
  | nil => exact ⟨Updates.refl m i, hrow, fun _ h => .inl h, fun c => by simp⟩
  | cons p l ih =>
    obtain ⟨hu, hn, hk, hc⟩ := subtractEntry_spec m i factor p hrow
    obtain ⟨hu', hn', hk', hc'⟩ := ih (subtractEntry i factor m p) hn
    rw [foldl_cons]
    refine ⟨hu.trans hu', hn', fun c hmem => ?_, fun c => ?_⟩
    · rw [keys_cons, mem_cons]
      rcases hk' c hmem with h | h
      · rcases hk c h with h | h
        · exact .inl h
        · exact .inr (.inl h)
      · exact .inr (.inr h)
    · rw [hc', hc, coeff_cons]
      split_ifs <;> ring

/-- Row `i` becomes itself minus `factor` times the pivot row, with column `j` gone. -/
lemma subtractRow_spec (m : SubstitutionMatrix) {i j offset : ℕ} (factor : ℚ)
    (columns : List (ℕ × ℚ)) (hrow : (keys (m.row i)).Nodup)
    (hfind : SparseRow.find (m.row i) j = some offset) :
    Updates m (m.subtractRow i offset factor columns) i ∧
      (keys ((m.subtractRow i offset factor columns).row i)).Nodup ∧
      (∀ c ∈ keys ((m.subtractRow i offset factor columns).row i),
        c ∈ keys (m.row i) ∨ c ∈ keys columns) ∧
      ∀ c, coeff ((m.subtractRow i offset factor columns).row i) c =
        (if c = j then 0 else coeff (m.row i) c) - factor * coeff columns c := by
  have hset : (m.setRow i (SparseRow.erase (m.row i) offset)).row i =
      SparseRow.erase (m.row i) offset := update_self _ _ _
  have hnodup := SparseRow.nodup_keys_erase hrow hfind
  obtain ⟨hu, hn, hk, hc⟩ := foldl_subtractEntry (m.setRow i (SparseRow.erase (m.row i) offset))
    i factor columns (by rw [hset]; exact hnodup)
  refine ⟨(Updates.setRow (SparseRow.keys_erase_subset hfind)).trans hu, hn, fun c hmem => ?_,
    fun c => ?_⟩
  · rcases hk c hmem with h | h
    · rw [hset] at h
      exact .inl (SparseRow.keys_erase_subset hfind c h)
    · exact .inr h
  · rw [subtractRow, hc, hset, SparseRow.coeff_erase hrow hfind]

end SubstitutionMatrix

end CuOpt.Simplex
