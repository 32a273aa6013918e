import Mathlib

/-! Sorting by a comparison that may leave ties, and taking the top element of a heap: what an
algorithm promises, and that the sorted keys do not depend on the order of the input. -/

namespace Sorting

open List hiding getElem?_eq_some_iff

/-- The comparison `lt` is the strict order of the keys. -/
def ByKey {α κ : Type*} [LinearOrder κ] (lt : α → α → Bool) (key : α → κ) : Prop :=
  ∀ a b, lt a b = true ↔ key a < key b

/-- An algorithm that permutes its input into the order of the keys, equal keys in any order. -/
structure Sorter where
  sort : {α : Type} → (α → α → Bool) → List α → List α
  perm : ∀ {α : Type} (lt : α → α → Bool) (l : List α), (sort lt l).Perm l
  sorted : ∀ {α κ : Type} [LinearOrder κ] {lt : α → α → Bool} {key : α → κ}, ByKey lt key →
    ∀ l, ((sort lt l).map key).Pairwise (· ≤ ·)

lemma Sorter.map_key_eq (std : Sorter) {α κ : Type} [LinearOrder κ] {lt : α → α → Bool}
    {key : α → κ} (hlt : ByKey lt key) {l l' : List α} (h : l.Perm l') :
    (std.sort lt l).map key = (std.sort lt l').map key := by
  apply Perm.eq_of_pairwise' (std.sorted hlt l) (std.sorted hlt l')
  have hperm : (std.sort lt l).Perm (std.sort lt l') :=
    (std.perm lt l).trans (h.trans (std.perm lt l').symm)
  exact hperm.map key

section Insertion

variable {α : Type}

def NotAfter (lt : α → α → Bool) (a b : α) : Prop := lt b a = false

instance (lt : α → α → Bool) : DecidableRel (NotAfter lt) :=
  fun a b => inferInstanceAs (Decidable (lt b a = false))

lemma notAfter_iff {κ : Type} [LinearOrder κ] {lt : α → α → Bool} {key : α → κ}
    (hlt : ByKey lt key) (a b : α) : NotAfter lt a b ↔ key a ≤ key b := by
  rw [NotAfter, ← Bool.not_eq_true, hlt b a, not_lt]

def insertionSorter : Sorter where
  sort := fun lt l => l.insertionSort (NotAfter lt)
  perm := fun lt l => perm_insertionSort (NotAfter lt) l
  sorted := by
    intro α κ _ lt key hlt l
    have htotal : Std.Total (NotAfter lt) :=
      ⟨fun a b => by rw [notAfter_iff hlt, notAfter_iff hlt]; exact le_total _ _⟩
    have htrans : IsTrans α (NotAfter lt) := by
      constructor
      intro a b c hab hbc
      rw [notAfter_iff hlt] at *
      exact hab.trans hbc
    have hsorted := pairwise_insertionSort (NotAfter lt) l
    rw [pairwise_map]
    exact hsorted.imp fun h => (notAfter_iff hlt _ _).mp h

end Insertion

section Top

variable {α : Type*} (comp : α → α → Bool)

def popTop : List α → Option (α × List α)
  | [] => none
  | a :: l =>
    match popTop l with
    | none => some (a, [])
    | some (b, rest) => if comp a b then some (b, a :: rest) else some (a, b :: rest)

lemma popTop_eq_none {l : List α} (h : popTop comp l = none) : l = [] := by
  cases l with
  | nil => rfl
  | cons a l =>
    unfold popTop at h
    split at h
    · cases h
    · split_ifs at h

lemma popTop_perm {l rest : List α} {a : α} (h : popTop comp l = some (a, rest)) :
    l.Perm (a :: rest) := by
  induction l generalizing a rest with
  | nil => cases h
  | cons c l ih =>
    unfold popTop at h
    cases hpop : popTop comp l with
    | none =>
      rw [hpop] at h
      obtain ⟨rfl, rfl⟩ := Prod.mk.inj (Option.some.inj h)
      rw [popTop_eq_none comp hpop]
    | some p =>
      obtain ⟨b, rest'⟩ := p
      have hperm := ih hpop
      rw [hpop] at h
      simp only at h
      split_ifs at h
      · obtain ⟨rfl, rfl⟩ := Prod.mk.inj (Option.some.inj h)
        exact (hperm.cons c).trans (Perm.swap b c rest')
      · obtain ⟨rfl, rfl⟩ := Prod.mk.inj (Option.some.inj h)
        exact hperm.cons c

lemma popTop_le {κ : Type*} [LinearOrder κ] {key : α → κ}
    (hcomp : ∀ a b, comp a b = true ↔ key b < key a) {l rest : List α} {a : α}
    (h : popTop comp l = some (a, rest)) : ∀ b ∈ l, key a ≤ key b := by
  induction l generalizing a rest with
  | nil => cases h
  | cons c l ih =>
    unfold popTop at h
    cases hpop : popTop comp l with
    | none =>
      rw [hpop] at h
      cases h
      rw [popTop_eq_none comp hpop]
      simp
    | some p =>
      obtain ⟨top, rest'⟩ := p
      have hle := ih hpop
      rw [hpop] at h
      simp only at h
      intro b hb
      split_ifs at h with hlt
      · cases h
        rcases mem_cons.mp hb with rfl | hin
        · exact ((hcomp _ _).mp hlt).le
        · exact hle b hin
      · cases h
        rw [hcomp, not_lt] at hlt
        rcases mem_cons.mp hb with rfl | hin
        · exact le_rfl
        · exact hlt.trans (hle b hin)

/-- Entry `k` of a heap, when no other one outranks it. Which of several is on top depends on the
layout of the heap. -/
def topAt (heap : List α) (k : ℕ) : Option α :=
  match heap[k]? with
  | none => none
  | some a => if heap.any (comp a) then none else some a

lemma topAt_perm {heap : List α} {k : ℕ} {a : α} (h : topAt comp heap k = some a) :
    heap.Perm (a :: heap.eraseIdx k) := by
  unfold topAt at h
  cases hk : heap[k]? with
  | none =>
    rw [hk] at h
    cases h
  | some b =>
    rw [hk] at h
    simp only at h
    split_ifs at h
    cases h
    obtain ⟨hlt, rfl⟩ := List.getElem?_eq_some_iff.mp hk
    exact (getElem_cons_eraseIdx_perm hlt).symm

lemma topAt_le {κ : Type*} [LinearOrder κ] {key : α → κ}
    (hcomp : ∀ a b, comp a b = true ↔ key b < key a) {heap : List α} {k : ℕ} {a : α}
    (h : topAt comp heap k = some a) : ∀ b ∈ heap, key a ≤ key b := by
  unfold topAt at h
  cases hk : heap[k]? with
  | none =>
    rw [hk] at h
    cases h
  | some c =>
    rw [hk] at h
    simp only at h
    split_ifs at h with hany
    cases h
    intro b hb
    rw [← not_lt, ← hcomp]
    intro hlt
    exact hany (any_eq_true.mpr ⟨b, hb, hlt⟩)

end Top

end Sorting
