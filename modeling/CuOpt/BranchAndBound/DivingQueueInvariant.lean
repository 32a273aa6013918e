import CuOpt.BranchAndBound.DivingQueue

/-! Over any operations of the queues: the entries of a best-first heap carry the nodes that wait
there, the other entries of the diving heaps are null, and no node gets lost between the heaps. -/

namespace CuOpt.BranchAndBound

open List Function
open Multiset (coe_add inf_le mem_map_of_mem)

namespace Queues

open Sorting
open Queues (stealLoop)

variable {ι : Type}

lemma lowerBoundComp_iff (entry : ℕ → SharedEntry) (a b : ℕ) :
    lowerBoundComp entry a b = true ↔ (entry b).lowerBound < (entry a).lowerBound := by
  rw [lowerBoundComp, decide_eq_true_eq]

lemma topBound_eq (entry : ℕ → SharedEntry) (heap : List ℕ) :
    topBound entry heap = (Multiset.map (fun e => (entry e).lowerBound) heap).inf := by
  unfold topBound
  cases hpop : popTop (lowerBoundComp entry) heap with
  | none =>
    rw [popTop_eq_none _ hpop]
    rfl
  | some p =>
    obtain ⟨top, rest⟩ := p
    have hle : ∀ e ∈ heap, (entry top).lowerBound ≤ (entry e).lowerBound :=
      popTop_le _ (lowerBoundComp_iff entry) hpop
    have hmem : top ∈ heap := (popTop_perm _ hpop).mem_iff.mpr mem_cons_self
    apply le_antisymm
    · rw [Multiset.le_inf]
      intro b hb
      obtain ⟨e, he, rfl⟩ := Multiset.mem_map.mp hb
      exact hle e he
    · exact inf_le (mem_map_of_mem _ hmem)

lemma topBound_congr {entry entry' : ℕ → SharedEntry} {heap : List ℕ}
    (h : ∀ e ∈ heap, (entry' e).lowerBound = (entry e).lowerBound) :
    topBound entry' heap = topBound entry heap := by
  rw [topBound_eq, topBound_eq]
  congr 1
  exact Multiset.map_congr rfl h

structure Inv (s : Queues ι) : Prop where
  allocated : ∀ i, ∀ e ∈ (s.queue i).bestFirstHeap, e < s.numEntries
  allocatedDiving : ∀ i, ∀ e ∈ (s.queue i).divingHeap, e < s.numEntries
  live : ∀ i, ∀ e ∈ (s.queue i).bestFirstHeap, ∃ n, (s.entry e).node = some n
  nodup : ∀ i, (s.queue i).bestFirstHeap.Nodup
  nodupDiving : ∀ i, (s.queue i).divingHeap.Nodup
  owner : ∀ i j e, e ∈ (s.queue i).bestFirstHeap → e ∈ (s.queue j).bestFirstHeap → i = j
  diving : ∀ i, ∀ e ∈ (s.queue i).divingHeap, (s.entry e).node ≠ none →
    e ∈ (s.queue i).bestFirstHeap
  bound : ∀ i, ∀ e ∈ (s.queue i).bestFirstHeap, ∀ n, (s.entry e).node = some n →
    (s.entry e).lowerBound = (s.node n).lowerBound
  cached : ∀ i, (s.queue i).lowerBound = topBound s.entry (s.queue i).bestFirstHeap
  noNull : s.nullDeref = false

lemma mem_waiting {s : Queues ι} {i : ι} {n : ℕ} : n ∈ s.waiting i ↔
    ∃ e ∈ (s.queue i).bestFirstHeap, (s.entry e).node = some n := by
  rw [waiting, mem_filterMap]

lemma Inv.cached_eq {s : Queues ι} (h : s.Inv) (i : ι) : (s.queue i).lowerBound =
    (Multiset.map (fun n => (s.node n).lowerBound) (s.waiting i)).inf := by
  rw [h.cached i, topBound_eq]
  apply le_antisymm
  · rw [Multiset.le_inf]
    intro b hb
    obtain ⟨n, hn, rfl⟩ := Multiset.mem_map.mp hb
    obtain ⟨e, he, hnode⟩ := mem_waiting.mp hn
    rw [← h.bound i e he n hnode]
    exact inf_le (mem_map_of_mem (fun e => (s.entry e).lowerBound) he)
  · rw [Multiset.le_inf]
    intro b hb
    obtain ⟨e, he, rfl⟩ := Multiset.mem_map.mp hb
    obtain ⟨n, hnode⟩ := h.live i e he
    have hn : n ∈ s.waiting i := mem_waiting.mpr ⟨e, he, hnode⟩
    rw [h.bound i e he n hnode]
    exact inf_le (mem_map_of_mem (fun n => (s.node n).lowerBound) hn)

lemma initial_inv (lowerBound objectiveEstimate : ℕ → WithTop ℚ) :
    (initial (ι := ι) lowerBound objectiveEstimate).Inv := by
  constructor
  · intro i e he
    cases he
  · intro i e he
    cases he
  · intro i e he
    cases he
  · intro i
    exact nodup_nil
  · intro i
    exact nodup_nil
  · intro i j e he
    cases he
  · intro i e he
    cases he
  · intro i e he
    cases he
  · intro i
    rfl
  · rfl

variable [DecidableEq ι]

section Push

variable (s : Queues ι) (i : ι) (n : ℕ)

lemma pushLockfree_bestFirst (j : ι) : ((s.pushLockfree i n).queue j).bestFirstHeap =
    if j = i then (s.queue i).bestFirstHeap ++ [s.numEntries]
    else (s.queue j).bestFirstHeap := by
  by_cases hj : j = i
  · subst hj
    simp only [pushLockfree, update_self, if_true]
  · simp only [pushLockfree, update_of_ne hj, if_neg hj]

lemma pushLockfree_diving (j : ι) : ((s.pushLockfree i n).queue j).divingHeap =
    if j = i ∧ (s.node n).canDive = true then (s.queue i).divingHeap ++ [s.numEntries]
    else (s.queue j).divingHeap := by
  by_cases hj : j = i
  · subst hj
    simp only [pushLockfree, update_self, true_and]
  · simp only [pushLockfree, update_of_ne hj, hj, false_and, if_false]

variable {e : ℕ}

lemma pushLockfree_entry (he : e < s.numEntries) : (s.pushLockfree i n).entry e = s.entry e :=
  update_of_ne he.ne _ _

lemma pushLockfree_entry_new : (s.pushLockfree i n).entry s.numEntries =
    ⟨some n, (s.node n).lowerBound, (s.node n).objectiveEstimate⟩ :=
  update_self _ _ _

variable {s i n}

lemma mem_pushLockfree_bestFirst {j : ι} :
    e ∈ ((s.pushLockfree i n).queue j).bestFirstHeap ↔
      e ∈ (s.queue j).bestFirstHeap ∨ (j = i ∧ e = s.numEntries) := by
  rw [pushLockfree_bestFirst]
  by_cases hj : j = i
  · subst hj
    simp only [if_true, mem_append, mem_singleton, true_and]
  · rw [if_neg hj]
    simp only [hj, false_and, or_false]

lemma mem_pushLockfree_diving {j : ι} :
    e ∈ ((s.pushLockfree i n).queue j).divingHeap ↔
      e ∈ (s.queue j).divingHeap ∨ (j = i ∧ (s.node n).canDive = true ∧ e = s.numEntries) := by
  rw [pushLockfree_diving]
  by_cases hj : j = i ∧ (s.node n).canDive = true
  · obtain ⟨rfl, hdive⟩ := hj
    simp only [hdive, and_self, if_true, mem_append, mem_singleton, true_and]
  · rw [if_neg hj, ← and_assoc]
    simp only [hj, false_and, or_false]

lemma Inv.pushLockfree (h : s.Inv) : (s.pushLockfree i n).Inv := by
  constructor
  · intro j e he
    rcases mem_pushLockfree_bestFirst.mp he with hin | ⟨-, rfl⟩
    · exact (h.allocated j e hin).trans (Nat.lt_succ_self _)
    · exact Nat.lt_succ_self _
  · intro j e he
    rcases mem_pushLockfree_diving.mp he with hin | ⟨-, -, rfl⟩
    · exact (h.allocatedDiving j e hin).trans (Nat.lt_succ_self _)
    · exact Nat.lt_succ_self _
  · intro j e he
    rcases mem_pushLockfree_bestFirst.mp he with hin | ⟨-, rfl⟩
    · rw [pushLockfree_entry s i n (h.allocated j e hin)]
      exact h.live j e hin
    · exact ⟨n, by rw [pushLockfree_entry_new]⟩
  · intro j
    rw [pushLockfree_bestFirst]
    split_ifs with hj
    · rw [nodup_append]
      refine ⟨h.nodup i, nodup_singleton _, ?_⟩
      intro e he e' he'
      rw [mem_singleton.mp he']
      exact (h.allocated i e he).ne
    · exact h.nodup j
  · intro j
    rw [pushLockfree_diving]
    split_ifs with hj
    · rw [nodup_append]
      refine ⟨h.nodupDiving i, nodup_singleton _, ?_⟩
      intro e he e' he'
      rw [mem_singleton.mp he']
      exact (h.allocatedDiving i e he).ne
    · exact h.nodupDiving j
  · intro j k e hej hek
    rcases mem_pushLockfree_bestFirst.mp hej with hj | ⟨rfl, rfl⟩
    · rcases mem_pushLockfree_bestFirst.mp hek with hk | ⟨rfl, rfl⟩
      · exact h.owner j k e hj hk
      · exact absurd (h.allocated j _ hj) (lt_irrefl _)
    · rcases mem_pushLockfree_bestFirst.mp hek with hk | ⟨rfl, -⟩
      · exact absurd (h.allocated k _ hk) (lt_irrefl _)
      · rfl
  · intro j e he hlive
    rcases mem_pushLockfree_diving.mp he with hin | ⟨rfl, -, rfl⟩
    · rw [pushLockfree_entry s i n (h.allocatedDiving j e hin)] at hlive
      exact mem_pushLockfree_bestFirst.mpr (.inl (h.diving j e hin hlive))
    · exact mem_pushLockfree_bestFirst.mpr (.inr ⟨rfl, rfl⟩)
  · intro j e he m hnode
    rcases mem_pushLockfree_bestFirst.mp he with hin | ⟨-, rfl⟩
    · rw [pushLockfree_entry s i n (h.allocated j e hin)] at hnode ⊢
      exact h.bound j e hin m hnode
    · rw [pushLockfree_entry_new] at hnode ⊢
      cases hnode
      rfl
  · intro j
    by_cases hj : j = i
    · subst hj
      simp only [Queues.pushLockfree, update_self]
    · rw [pushLockfree_bestFirst, if_neg hj]
      have hsame : ((s.pushLockfree i n).queue j).lowerBound = (s.queue j).lowerBound := by
        simp only [Queues.pushLockfree, update_of_ne hj]
      rw [hsame, h.cached j]
      apply Eq.symm
      apply topBound_congr
      intro e he
      rw [pushLockfree_entry s i n (h.allocated j e he)]
  · exact h.noNull

lemma Inv.pushLockfree_waiting (h : s.Inv) (j : ι) :
    (s.pushLockfree i n).waiting j = s.waiting j ++ if j = i then [n] else [] := by
  have hold : (s.queue j).bestFirstHeap.filterMap
      (fun e => ((s.pushLockfree i n).entry e).node) = s.waiting j := by
    apply filterMap_congr
    intro e he
    rw [pushLockfree_entry s i n (h.allocated j e he)]
  rw [waiting, pushLockfree_bestFirst]
  by_cases hj : j = i
  · subst hj
    rw [if_pos rfl, if_pos rfl, filterMap_append, hold]
    congr 1
    simp only [filterMap_cons, pushLockfree_entry_new, filterMap_nil]
  · rw [if_neg hj, if_neg hj, hold, append_nil]

end Push

section Pop

variable {s s' : Queues ι} {i : ι} {k : ℕ} {r : Option ℕ}

def takeEntry (s : Queues ι) (i : ι) (e : ℕ) (heap : List ℕ) : Queues ι :=
  { s with
    entry := update s.entry e { s.entry e with node := none }
    queue := update s.queue i
      { s.queue i with bestFirstHeap := heap, lowerBound := topBound s.entry heap } }

lemma popEntry_spec (hpop : s.popEntry i k = some (r, s')) :
    ∃ e heap, (s.queue i).bestFirstHeap.Perm (e :: heap) ∧ r = (s.entry e).node ∧
      (∀ e' ∈ (s.queue i).bestFirstHeap, (s.entry e).lowerBound ≤ (s.entry e').lowerBound) ∧
      s' = s.takeEntry i e heap := by
  unfold popEntry at hpop
  cases htop : topAt (lowerBoundComp s.entry) (s.queue i).bestFirstHeap k with
  | none =>
    simp only [htop] at hpop
    cases hpop
  | some e =>
    simp only [htop] at hpop
    cases hpop
    exact ⟨e, _, topAt_perm _ htop, rfl, topAt_le _ (lowerBoundComp_iff s.entry) htop, rfl⟩

lemma takeEntry_lowerBound (e : ℕ) (heap : List ℕ) (e' : ℕ) :
    ((s.takeEntry i e heap).entry e').lowerBound = (s.entry e').lowerBound := by
  by_cases he : e' = e
  · subst he
    simp only [takeEntry, update_self]
  · simp only [takeEntry, update_of_ne he]

variable {e : ℕ} {heap : List ℕ}

lemma takeEntry_node {e' : ℕ} (he : e' ≠ e) :
    ((s.takeEntry i e heap).entry e').node = (s.entry e').node := by
  simp only [takeEntry, update_of_ne he]

lemma takeEntry_node_self : ((s.takeEntry i e heap).entry e).node = none := by
  simp only [takeEntry, update_self]

lemma takeEntry_bestFirst (e : ℕ) (heap : List ℕ) (j : ι) :
    ((s.takeEntry i e heap).queue j).bestFirstHeap =
      if j = i then heap else (s.queue j).bestFirstHeap := by
  by_cases hj : j = i
  · subst hj
    simp only [takeEntry, update_self, if_true]
  · simp only [takeEntry, update_of_ne hj, if_neg hj]

lemma takeEntry_diving (e : ℕ) (heap : List ℕ) (j : ι) :
    ((s.takeEntry i e heap).queue j).divingHeap = (s.queue j).divingHeap := by
  by_cases hj : j = i
  · subst hj
    simp only [takeEntry, update_self]
  · simp only [takeEntry, update_of_ne hj]

section

variable (h : s.Inv) (hperm : (s.queue i).bestFirstHeap.Perm (e :: heap))
include h hperm

/-- What stays in the heaps is not the entry that was taken. -/
lemma Inv.mem_takeEntry {j : ι} {e' : ℕ} :
    e' ∈ ((s.takeEntry i e heap).queue j).bestFirstHeap ↔
      e' ∈ (s.queue j).bestFirstHeap ∧ e' ≠ e := by
  have hnodup := nodup_cons.mp (hperm.nodup_iff.mp (h.nodup i))
  have hmem : e ∈ (s.queue i).bestFirstHeap := hperm.mem_iff.mpr mem_cons_self
  rw [takeEntry_bestFirst]
  by_cases hj : j = i
  · subst hj
    rw [if_pos rfl, hperm.mem_iff, mem_cons]
    constructor
    · intro he'
      exact ⟨.inr he', fun heq => hnodup.1 (heq ▸ he')⟩
    · rintro ⟨rfl | he', hne⟩
      · exact absurd rfl hne
      · exact he'
  · rw [if_neg hj]
    constructor
    · intro he'
      exact ⟨he', fun heq => hj (h.owner j i e (heq ▸ he') hmem)⟩
    · exact fun he' => he'.1

lemma Inv.takeEntry :
    (s.takeEntry i e heap).Inv := by
  constructor
  · intro j e' he'
    exact h.allocated j e' ((h.mem_takeEntry hperm).mp he').1
  · intro j e' he'
    rw [takeEntry_diving] at he'
    exact h.allocatedDiving j e' he'
  · intro j e' he'
    obtain ⟨hin, hne⟩ := (h.mem_takeEntry hperm).mp he'
    rw [takeEntry_node hne]
    exact h.live j e' hin
  · intro j
    rw [takeEntry_bestFirst]
    split_ifs with hj
    · exact (nodup_cons.mp (hperm.nodup_iff.mp (h.nodup i))).2
    · exact h.nodup j
  · intro j
    rw [takeEntry_diving]
    exact h.nodupDiving j
  · intro j l e' hj hl
    exact h.owner j l e' ((h.mem_takeEntry hperm).mp hj).1 ((h.mem_takeEntry hperm).mp hl).1
  · intro j e' he' hlive
    rw [takeEntry_diving] at he'
    by_cases hne : e' = e
    · subst hne
      exact absurd takeEntry_node_self hlive
    · rw [takeEntry_node hne] at hlive
      exact (h.mem_takeEntry hperm).mpr ⟨h.diving j e' he' hlive, hne⟩
  · intro j e' he' n hnode
    obtain ⟨hin, hne⟩ := (h.mem_takeEntry hperm).mp he'
    rw [takeEntry_node hne] at hnode
    rw [takeEntry_lowerBound]
    exact h.bound j e' hin n hnode
  · intro j
    rw [takeEntry_bestFirst, topBound_congr fun e' _ => takeEntry_lowerBound e heap e']
    by_cases hj : j = i
    · subst hj
      simp only [Queues.takeEntry, update_self, if_true]
    · rw [if_neg hj, ← h.cached j]
      simp only [Queues.takeEntry, update_of_ne hj]
  · exact h.noNull

lemma Inv.takeEntry_waiting {n : ℕ} (hnode : (s.entry e).node = some n) (j : ι) :
    (s.waiting j).Perm ((if j = i then [n] else []) ++ (s.takeEntry i e heap).waiting j) := by
  have hkept : ∀ e' ∈ ((s.takeEntry i e heap).queue j).bestFirstHeap,
      (s.entry e').node = ((s.takeEntry i e heap).entry e').node := by
    intro e' he'
    rw [takeEntry_node ((h.mem_takeEntry hperm).mp he').2]
  rw [waiting, waiting, ← filterMap_congr hkept, takeEntry_bestFirst]
  by_cases hj : j = i
  · subst hj
    rw [if_pos rfl, if_pos rfl]
    have hmap := hperm.filterMap fun e' => (s.entry e').node
    rw [filterMap_cons, hnode] at hmap
    exact hmap
  · rw [if_neg hj, if_neg hj]
    exact .refl _

end

/-- An entry of a best-first heap has a node, and no waiting node has a smaller bound. -/
lemma Inv.popEntry (h : s.Inv) (hpop : s.popEntry i k = some (r, s')) :
    ∃ n, r = some n ∧ s'.Inv ∧ s'.node = s.node ∧ n ∈ s.waiting i ∧
      (∀ m ∈ s.waiting i, (s.node n).lowerBound ≤ (s.node m).lowerBound) ∧
      ∀ j, (s.waiting j).Perm ((if j = i then [n] else []) ++ s'.waiting j) := by
  obtain ⟨e, heap, hperm, hr, hle, rfl⟩ := popEntry_spec hpop
  have hmem : e ∈ (s.queue i).bestFirstHeap := hperm.mem_iff.mpr mem_cons_self
  obtain ⟨n, hnode⟩ := h.live i e hmem
  refine ⟨n, by rw [hr, hnode], h.takeEntry hperm, rfl, mem_waiting.mpr ⟨e, hmem, hnode⟩, ?_,
    h.takeEntry_waiting hperm hnode⟩
  intro m hm
  obtain ⟨e', he', hnode'⟩ := mem_waiting.mp hm
  rw [← h.bound i e hmem n hnode, ← h.bound i e' he' m hnode']
  exact hle e' he'

end Pop

section Dive

variable {s s' : Queues ι} {i : ι} {r : Option ℕ}

def setDiving (s : Queues ι) (i : ι) (heap : List ℕ) : Queues ι :=
  { s with queue := update s.queue i { s.queue i with divingHeap := heap } }

def clearDive (s : Queues ι) (n : ℕ) : Queues ι :=
  { s with node := update s.node n { s.node n with canDive := false } }

lemma setDiving_bestFirst (heap : List ℕ) (j : ι) :
    ((s.setDiving i heap).queue j).bestFirstHeap = (s.queue j).bestFirstHeap := by
  by_cases hj : j = i
  · subst hj
    simp only [setDiving, update_self]
  · simp only [setDiving, update_of_ne hj]

lemma setDiving_lowerBound (heap : List ℕ) (j : ι) :
    ((s.setDiving i heap).queue j).lowerBound = (s.queue j).lowerBound := by
  by_cases hj : j = i
  · subst hj
    simp only [setDiving, update_self]
  · simp only [setDiving, update_of_ne hj]

lemma setDiving_sublist {heap : List ℕ} (hsub : heap.Sublist (s.queue i).divingHeap) (j : ι) :
    ((s.setDiving i heap).queue j).divingHeap.Sublist (s.queue j).divingHeap := by
  by_cases hj : j = i
  · subst hj
    simpa only [setDiving, update_self] using hsub
  · simp only [setDiving, update_of_ne hj, List.Sublist.refl]

lemma setDiving_waiting (heap : List ℕ) (j : ι) :
    (s.setDiving i heap).waiting j = s.waiting j := by
  rw [waiting, setDiving_bestFirst]
  rfl

lemma Inv.setDiving (h : s.Inv) {heap : List ℕ}
    (hsub : heap.Sublist (s.queue i).divingHeap) : (s.setDiving i heap).Inv := by
  constructor
  · intro j e he
    rw [setDiving_bestFirst] at he
    exact h.allocated j e he
  · intro j e he
    exact h.allocatedDiving j e ((setDiving_sublist hsub j).subset he)
  · intro j e he
    rw [setDiving_bestFirst] at he
    exact h.live j e he
  · intro j
    rw [setDiving_bestFirst]
    exact h.nodup j
  · intro j
    exact (h.nodupDiving j).sublist (setDiving_sublist hsub j)
  · intro j k e hj hk
    rw [setDiving_bestFirst] at hj hk
    exact h.owner j k e hj hk
  · intro j e he hlive
    rw [setDiving_bestFirst]
    exact h.diving j e ((setDiving_sublist hsub j).subset he) hlive
  · intro j e he
    rw [setDiving_bestFirst] at he
    exact h.bound j e he
  · intro j
    rw [setDiving_lowerBound, setDiving_bestFirst]
    exact h.cached j
  · exact h.noNull

omit [DecidableEq ι] in
/-- A change of the nodes that keeps the bounds of those that wait. -/
theorem Inv.congr_node (h : s.Inv) {node : ℕ → QueuedNode}
    (hbound : ∀ i, ∀ n ∈ s.waiting i, (node n).lowerBound = (s.node n).lowerBound) :
    Inv { s with node := node } where
  __ := h
  bound := by
    intro i e he n hnode
    rw [hbound i n (mem_waiting.mpr ⟨e, he, hnode⟩)]
    exact h.bound i e he n hnode

omit [DecidableEq ι] in
theorem clearDive_lowerBound (n m : ℕ) :
    ((s.clearDive n).node m).lowerBound = (s.node m).lowerBound := by
  by_cases hm : m = n
  · subst hm
    simp only [clearDive, update_self]
  · simp only [clearDive, update_of_ne hm]

omit [DecidableEq ι] in
theorem Inv.clearDive (h : s.Inv) (n : ℕ) : (s.clearDive n).Inv :=
  h.congr_node fun _ m _ => clearDive_lowerBound n m

/-- The null entries on top are dropped; the first entry with a node ends the loop. -/
lemma popDiving_cases {ks : List ℕ} (hnodup : (s.queue i).divingHeap.Nodup)
    (hpop : popDiving i ks s = some (r, s')) :
    ∃ heap, heap.Sublist (s.queue i).divingHeap ∧
      ((r = none ∧ s' = s.setDiving i heap) ∨
        ∃ e n, r = some n ∧ e ∈ (s.queue i).divingHeap ∧ e ∉ heap ∧
          (s.entry e).node = some n ∧ s' = (s.setDiving i heap).clearDive n) := by
  induction ks generalizing s with
  | nil =>
    unfold popDiving at hpop
    simp only at hpop
    split_ifs at hpop
    cases hpop
    refine ⟨(s'.queue i).divingHeap, List.Sublist.refl _, .inl ⟨rfl, ?_⟩⟩
    rw [setDiving, update_eq_self]
  | cons k ks ih =>
    unfold popDiving at hpop
    simp only at hpop
    split_ifs at hpop
    · cases hpop
      refine ⟨(s'.queue i).divingHeap, List.Sublist.refl _, .inl ⟨rfl, ?_⟩⟩
      rw [setDiving, update_eq_self]
    · cases htop : topAt (scoreComp s.entry) (s.queue i).divingHeap k with
      | none =>
        simp only [htop] at hpop
        cases hpop
      | some e =>
        simp only [htop] at hpop
        have hperm := topAt_perm _ htop
        have hsub : ((s.queue i).divingHeap.eraseIdx k).Sublist (s.queue i).divingHeap :=
          eraseIdx_sublist _ _
        cases hnode : (s.entry e).node with
        | some n =>
          simp only [hnode] at hpop
          cases hpop
          refine ⟨_, hsub, .inr ⟨e, n, rfl, hperm.mem_iff.mpr mem_cons_self, ?_, hnode, rfl⟩⟩
          exact (nodup_cons.mp (hperm.nodup_iff.mp hnodup)).1
        | none =>
          simp only [hnode] at hpop
          have hself : ((s.setDiving i ((s.queue i).divingHeap.eraseIdx k)).queue i).divingHeap =
              (s.queue i).divingHeap.eraseIdx k := by
            simp only [setDiving, update_self]
          have hrest := ih (s := s.setDiving i ((s.queue i).divingHeap.eraseIdx k))
            (by rw [hself]; exact hnodup.sublist hsub) hpop
          rw [hself] at hrest
          obtain ⟨heap, hheap, hcases⟩ := hrest
          have hidem : (s.setDiving i ((s.queue i).divingHeap.eraseIdx k)).setDiving i heap =
              s.setDiving i heap := by
            simp only [setDiving, update_self, update_idem]
          rw [hidem] at hcases
          refine ⟨heap, hheap.trans hsub, ?_⟩
          rcases hcases with ⟨hr, hs'⟩ | ⟨e', n, hr, he', hnot, hnode', hs'⟩
          · exact .inl ⟨hr, hs'⟩
          · exact .inr ⟨e', n, hr, hsub.subset he', hnot, hnode', hs'⟩

lemma Inv.popDiving (h : s.Inv) {ks : List ℕ} (hpop : Queues.popDiving i ks s = some (r, s')) :
    s'.Inv ∧ (∀ j, s'.waiting j = s.waiting j) ∧ ∀ n, r = some n → n ∈ s.waiting i := by
  obtain ⟨heap, hsub, ⟨rfl, rfl⟩ | ⟨e, n, rfl, he, hnot, hnode, rfl⟩⟩ :=
    popDiving_cases (h.nodupDiving i) hpop
  · refine ⟨h.setDiving hsub, setDiving_waiting heap, ?_⟩
    intro n hn
    cases hn
  · refine ⟨(h.setDiving hsub).clearDive n, fun j => ?_, ?_⟩
    · show (s.setDiving i heap).waiting j = s.waiting j
      exact setDiving_waiting heap j
    intro m hm
    cases hm
    have hlive : (s.entry e).node ≠ none := by
      rw [hnode]
      exact Option.some_ne_none n
    exact mem_waiting.mpr ⟨e, h.diving i e he hlive, hnode⟩

end Dive

end Queues

namespace QueueEvent

variable {ι : Type} [DecidableEq ι]

def enters (j : ι) : QueueEvent ι → Multiset ℕ
  | .pushed i n => if j = i then {n} else 0
  | .stolen _ i n => if j = i then {n} else 0
  | .popped _ _ | .dived _ _ => 0

def leaves (j : ι) : QueueEvent ι → Multiset ℕ
  | .popped i n => if j = i then {n} else 0
  | .stolen victim _ n => if j = victim then {n} else 0
  | .pushed _ _ | .dived _ _ => 0

def pushedNode : QueueEvent ι → Multiset ℕ
  | .pushed _ n => {n}
  | .popped _ _ | .stolen _ _ _ | .dived _ _ => 0

def poppedNode : QueueEvent ι → Multiset ℕ
  | .popped _ n => {n}
  | .pushed _ _ | .stolen _ _ _ | .dived _ _ => 0

def divedNode : QueueEvent ι → Option ℕ
  | .dived _ n => some n
  | .pushed _ _ | .popped _ _ | .stolen _ _ _ => none

def entered (events : List (QueueEvent ι)) (j : ι) : Multiset ℕ := (events.map (enters j)).sum

def removed (events : List (QueueEvent ι)) (j : ι) : Multiset ℕ := (events.map (leaves j)).sum

def pushedNodes (events : List (QueueEvent ι)) : Multiset ℕ := (events.map pushedNode).sum

def poppedNodes (events : List (QueueEvent ι)) : Multiset ℕ := (events.map poppedNode).sum

def divedNodes (events : List (QueueEvent ι)) : List ℕ := events.filterMap divedNode

lemma entered_append (l l' : List (QueueEvent ι)) (j : ι) :
    entered (l ++ l') j = entered l j + entered l' j := by
  rw [entered, map_append, sum_append]
  rfl

lemma removed_append (l l' : List (QueueEvent ι)) (j : ι) :
    removed (l ++ l') j = removed l j + removed l' j := by
  rw [removed, map_append, sum_append]
  rfl

lemma sum_entered [Fintype ι] (events : List (QueueEvent ι)) :
    ∑ j, entered events j + poppedNodes events = ∑ j, removed events j + pushedNodes events := by
  induction events with
  | nil => rfl
  | cons e events ih =>
    have hcons : ∀ j, entered (e :: events) j = enters j e + entered events j := fun j => rfl
    have hcons' : ∀ j, removed (e :: events) j = leaves j e + removed events j := fun j => rfl
    have hpopped : poppedNodes (e :: events) = poppedNode e + poppedNodes events := rfl
    have hpushed : pushedNodes (e :: events) = pushedNode e + pushedNodes events := rfl
    have hsplit : ∑ j, enters j e + poppedNode e = ∑ j, leaves j e + pushedNode e := by
      cases e with
      | pushed i n => simp [enters, leaves, poppedNode, pushedNode]
      | popped i n => simp [enters, leaves, poppedNode, pushedNode]
      | stolen victim i n => simp [enters, leaves, poppedNode, pushedNode]
      | dived i n => simp [enters, leaves, poppedNode, pushedNode]
    simp only [hcons, hcons', hpopped, hpushed, Finset.sum_add_distrib]
    calc ∑ j, enters j e + ∑ j, entered events j + (poppedNode e + poppedNodes events)
        = (∑ j, enters j e + poppedNode e) + (∑ j, entered events j + poppedNodes events) := by
          rw [add_add_add_comm]
      _ = (∑ j, leaves j e + pushedNode e) + (∑ j, removed events j + pushedNodes events) := by
          rw [hsplit, ih]
      _ = ∑ j, leaves j e + ∑ j, removed events j + (pushedNode e + pushedNodes events) := by
          rw [add_add_add_comm]

end QueueEvent

namespace Queues

open Sorting QueueEvent

variable {ι : Type} [DecidableEq ι]

variable {s s' : Queues ι} {i : ι} {ks dived : List ℕ} {events : List (QueueEvent ι)}

/-- The loop of `steal_from` moves nodes from the victim to the thief. -/
lemma Inv.stealLoop {nodesToSteal : ℕ} {victim : ι} (h : s.Inv)
    (hsteal : stealLoop nodesToSteal i victim ks s = some (s', events)) :
    s'.Inv ∧ ∀ j, (s.waiting j : Multiset ℕ) + entered events j =
      removed events j + s'.waiting j := by
  induction ks generalizing s events with
  | nil =>
    cases hsteal
    exact ⟨h, fun j => by simp [entered, removed]⟩
  | cons k ks ih =>
    unfold stealLoop at hsteal
    split_ifs at hsteal
    · cases hsteal
      exact ⟨h, fun j => by simp [entered, removed]⟩
    · cases hpop : s.popEntry victim k with
      | none =>
        simp only [hpop] at hsteal
        cases hsteal
      | some p =>
        obtain ⟨r, s₁⟩ := p
        obtain ⟨n, rfl, hinv, -, -, -, hwaiting⟩ := h.popEntry hpop
        simp only [hpop] at hsteal
        cases hloop : stealLoop nodesToSteal i victim ks (s₁.pushLockfree i n) with
        | none =>
          simp only [hloop] at hsteal
          cases hsteal
        | some q =>
          obtain ⟨s₂, later⟩ := q
          simp only [hloop] at hsteal
          cases hsteal
          obtain ⟨hinv', hrest⟩ := ih hinv.pushLockfree hloop
          refine ⟨hinv', fun j => ?_⟩
          have hout : (s.waiting j : Multiset ℕ) =
              leaves j (.stolen victim i n) + s₁.waiting j := by
            rw [Multiset.coe_eq_coe.mpr (hwaiting j), ← coe_add]
            congr 1
            by_cases hj : j = victim
            · simp [leaves, hj]
            · simp [leaves, hj]
          have hin : ((s₁.pushLockfree i n).waiting j : Multiset ℕ) =
              s₁.waiting j + enters j (.stolen victim i n) := by
            rw [hinv.pushLockfree_waiting j, ← coe_add]
            congr 1
            by_cases hj : j = i
            · simp [enters, hj]
            · simp [enters, hj]
          have hevents : entered (.stolen victim i n :: later) j =
              enters j (.stolen victim i n) + entered later j := rfl
          have hevents' : removed (.stolen victim i n :: later) j =
              leaves j (.stolen victim i n) + removed later j := rfl
          have hloop := hrest j
          rw [hin] at hloop
          rw [hevents, hevents', hout, add_assoc, add_assoc, ← hloop, add_assoc]

variable [Fintype ι]

lemma Inv.step {op : QueueOp ι} (h : s.Inv) (hstep : s.step op = some (s', events)) :
    s'.Inv ∧ ∀ j, (s.waiting j : Multiset ℕ) + entered events j =
      removed events j + s'.waiting j := by
  cases op with
  | push i n =>
    cases hstep
    refine ⟨h.pushLockfree, fun j => ?_⟩
    rw [h.pushLockfree_waiting j, ← coe_add]
    by_cases hj : j = i
    · simp [entered, removed, enters, leaves, hj]
    · simp [entered, removed, enters, leaves, hj]
  | pop i k =>
    unfold Queues.step Queues.pop at hstep
    by_cases hempty : (s.queue i).bestFirstHeap.isEmpty = true
    · simp only [hempty, if_true] at hstep
      cases hstep
      exact ⟨h, fun j => by simp [entered, removed]⟩
    · simp only [hempty] at hstep
      cases hpop : s.popEntry i k with
      | none =>
        simp only [hpop] at hstep
        cases hstep
      | some p =>
        obtain ⟨r, s₁⟩ := p
        obtain ⟨n, rfl, hinv, -, -, -, hwaiting⟩ := h.popEntry hpop
        simp only [hpop] at hstep
        cases hstep
        refine ⟨hinv, fun j => ?_⟩
        rw [Multiset.coe_eq_coe.mpr (hwaiting j), ← coe_add]
        by_cases hj : j = i
        · simp [entered, removed, enters, leaves, hj]
        · simp [entered, removed, enters, leaves, hj]
  | stealFrom i victim ks =>
    unfold Queues.step at hstep
    simp only at hstep
    split_ifs at hstep
    exact h.stealLoop hstep
  | divingInit i ks =>
    unfold Queues.step at hstep
    simp only at hstep
    cases hpop : Queues.popDiving i ks s with
    | none =>
      simp only [hpop] at hstep
      cases hstep
    | some p =>
      obtain ⟨r, s₁⟩ := p
      obtain ⟨hinv, hwaiting, -⟩ := h.popDiving hpop
      cases r with
      | none =>
        simp only [hpop] at hstep
        cases hstep
        exact ⟨hinv, fun j => by simp [entered, removed, hwaiting j]⟩
      | some n =>
        simp only [hpop] at hstep
        cases hstep
        exact ⟨hinv, fun j => by simp [entered, removed, enters, leaves, hwaiting j]⟩
  | write n lowerBound objectiveEstimate =>
    unfold Queues.step at hstep
    simp only at hstep
    split_ifs at hstep with hfree
    cases hstep
    have hbound : ∀ i, ∀ m ∈ s.waiting i,
        (update s.node n { s.node n with
          lowerBound := lowerBound
          objectiveEstimate := objectiveEstimate } m).lowerBound = (s.node m).lowerBound := by
      intro i m hm
      have hne : m ≠ n := fun heq => hfree i (heq ▸ hm)
      rw [update_of_ne hne]
    refine ⟨h.congr_node hbound, fun j => ?_⟩
    have hsame : (removed [] j : Multiset ℕ) = 0 := rfl
    rw [hsame, zero_add]
    exact add_zero _

lemma run_cons {op : QueueOp ι} {ops : List (QueueOp ι)}
    (hrun : s.run (op :: ops) = some (s', events)) :
    ∃ s₁ now later, s.step op = some (s₁, now) ∧ s₁.run ops = some (s', later) ∧
      events = now ++ later := by
  unfold Queues.run at hrun
  cases hstep : s.step op with
  | none =>
    simp only [hstep] at hrun
    cases hrun
  | some p =>
    simp only [hstep] at hrun
    cases hlater : p.1.run ops with
    | none =>
      simp only [hlater] at hrun
      cases hrun
    | some q =>
      simp only [hlater] at hrun
      cases hrun
      exact ⟨p.1, p.2, q.2, rfl, hlater, rfl⟩

lemma Inv.run {ops : List (QueueOp ι)} (h : s.Inv) (hrun : s.run ops = some (s', events)) :
    s'.Inv ∧ ∀ j, (s.waiting j : Multiset ℕ) + entered events j =
      removed events j + s'.waiting j := by
  induction ops generalizing s events with
  | nil =>
    cases hrun
    exact ⟨h, fun j => by simp [entered, removed]⟩
  | cons op ops ih =>
    obtain ⟨s₁, now, later, hstep, hlater, rfl⟩ := run_cons hrun
    obtain ⟨hinv, hnow⟩ := h.step hstep
    obtain ⟨hinv', hrest⟩ := ih hinv hlater
    refine ⟨hinv', fun j => ?_⟩
    rw [entered_append, removed_append, ← add_assoc, hnow j, add_assoc, hrest j, add_assoc]

structure Once (s : Queues ι) (dived : List ℕ) : Prop where
  unique : ∀ i j e e' n, e ∈ (s.queue i).bestFirstHeap → e' ∈ (s.queue j).bestFirstHeap →
    (s.entry e).node = some n → (s.entry e').node = some n → e = e'
  canDive : ∀ i, ∀ e ∈ (s.queue i).divingHeap, ∀ n, (s.entry e).node = some n →
    (s.node n).canDive = true
  cleared : ∀ n ∈ dived, (s.node n).canDive = false
  nodup : dived.Nodup

omit [Fintype ι]

variable {n : ℕ}

section

variable (h : s.Inv) (honce : s.Once dived)
include h honce

lemma Once.pushLockfree (hfresh : ∀ j, n ∉ s.waiting j) :
    (s.pushLockfree i n).Once dived := by
  have hold : ∀ j, ∀ e ∈ (s.queue j).bestFirstHeap, (s.entry e).node ≠ some n := by
    intro j e he hnode
    exact hfresh j (mem_waiting.mpr ⟨e, he, hnode⟩)
  constructor
  · intro j k e e' m he he' hnode hnode'
    rcases mem_pushLockfree_bestFirst.mp he with hin | ⟨rfl, rfl⟩
    · rw [pushLockfree_entry s i n (h.allocated j e hin)] at hnode
      rcases mem_pushLockfree_bestFirst.mp he' with hin' | ⟨rfl, rfl⟩
      · rw [pushLockfree_entry s i n (h.allocated k e' hin')] at hnode'
        exact honce.unique j k e e' m hin hin' hnode hnode'
      · rw [pushLockfree_entry_new] at hnode'
        cases hnode'
        exact absurd hnode (hold j e hin)
    · rw [pushLockfree_entry_new] at hnode
      cases hnode
      rcases mem_pushLockfree_bestFirst.mp he' with hin' | ⟨rfl, rfl⟩
      · rw [pushLockfree_entry s j n (h.allocated k e' hin')] at hnode'
        exact absurd hnode' (hold k e' hin')
      · rfl
  · intro j e he m hnode
    rcases mem_pushLockfree_diving.mp he with hin | ⟨-, hdive, rfl⟩
    · rw [pushLockfree_entry s i n (h.allocatedDiving j e hin)] at hnode
      exact honce.canDive j e hin m hnode
    · rw [pushLockfree_entry_new] at hnode
      cases hnode
      exact hdive
  · exact honce.cleared
  · exact honce.nodup

lemma Once.takeEntry {e : ℕ} {heap : List ℕ} (hperm : (s.queue i).bestFirstHeap.Perm (e :: heap))
    (hnode : (s.entry e).node = some n) :
    (s.takeEntry i e heap).Once dived ∧ ∀ j, n ∉ (s.takeEntry i e heap).waiting j := by
  have hmem : e ∈ (s.queue i).bestFirstHeap := hperm.mem_iff.mpr mem_cons_self
  refine ⟨⟨?_, ?_, honce.cleared, honce.nodup⟩, ?_⟩
  · intro j k a b m ha hb hnodea hnodeb
    obtain ⟨hina, hnea⟩ := (h.mem_takeEntry hperm).mp ha
    obtain ⟨hinb, hneb⟩ := (h.mem_takeEntry hperm).mp hb
    rw [takeEntry_node hnea] at hnodea
    rw [takeEntry_node hneb] at hnodeb
    exact honce.unique j k a b m hina hinb hnodea hnodeb
  · intro j a ha m hnodea
    rw [takeEntry_diving] at ha
    by_cases hne : a = e
    · subst hne
      rw [takeEntry_node_self] at hnodea
      cases hnodea
    · rw [takeEntry_node hne] at hnodea
      exact honce.canDive j a ha m hnodea
  · intro j hn
    obtain ⟨a, ha, hnodea⟩ := mem_waiting.mp hn
    obtain ⟨hina, hnea⟩ := (h.mem_takeEntry hperm).mp ha
    rw [takeEntry_node hnea] at hnodea
    exact hnea (honce.unique j i a e n hina hmem hnodea hnode)

lemma Once.popEntry {k : ℕ} (hpop : s.popEntry i k = some (some n, s')) :
    s'.Once dived ∧ ∀ j, n ∉ s'.waiting j := by
  obtain ⟨e, heap, hperm, hnode, -, rfl⟩ := popEntry_spec hpop
  exact honce.takeEntry h hperm hnode.symm

lemma Once.stealLoop {nodesToSteal : ℕ} {victim : ι}
    (hsteal : stealLoop nodesToSteal i victim ks s = some (s', events)) :
    s'.Once dived ∧ divedNodes events = [] := by
  induction ks generalizing s events with
  | nil =>
    cases hsteal
    exact ⟨honce, rfl⟩
  | cons k ks ih =>
    unfold stealLoop at hsteal
    split_ifs at hsteal
    · cases hsteal
      exact ⟨honce, rfl⟩
    · cases hpop : s.popEntry victim k with
      | none =>
        simp only [hpop] at hsteal
        cases hsteal
      | some p =>
        obtain ⟨r, s₁⟩ := p
        obtain ⟨n, rfl, hinv, -⟩ := h.popEntry hpop
        obtain ⟨honce₁, hgone⟩ := honce.popEntry h hpop
        simp only [hpop] at hsteal
        cases hloop : stealLoop nodesToSteal i victim ks (s₁.pushLockfree i n) with
        | none =>
          simp only [hloop] at hsteal
          cases hsteal
        | some q =>
          obtain ⟨s₂, later⟩ := q
          simp only [hloop] at hsteal
          cases hsteal
          obtain ⟨honce₂, hnone⟩ := ih hinv.pushLockfree (honce₁.pushLockfree hinv hgone) hloop
          exact ⟨honce₂, hnone⟩

/-- The entry of a dive was the last one of its node in a diving heap. -/
lemma Once.popDiving {r : Option ℕ} (hpop : Queues.popDiving i ks s = some (r, s')) :
    s'.Once (dived ++ r.toList) := by
  obtain ⟨heap, hsub, ⟨rfl, rfl⟩ | ⟨e, n, rfl, he, hnot, hnode, rfl⟩⟩ :=
    popDiving_cases (h.nodupDiving i) hpop
  · rw [Option.toList_none, append_nil]
    refine ⟨?_, ?_, honce.cleared, honce.nodup⟩
    · intro j k a b m ha hb
      rw [setDiving_bestFirst] at ha hb
      exact honce.unique j k a b m ha hb
    · intro j a ha
      exact honce.canDive j a ((setDiving_sublist hsub j).subset ha)
  · have hlive : (s.entry e).node ≠ none := by
      rw [hnode]
      exact Option.some_ne_none n
    have hbest := h.diving i e he hlive
    have hwas := honce.canDive i e he n hnode
    refine ⟨?_, ?_, ?_, ?_⟩
    · intro j k a b m ha hb
      have ha' : a ∈ ((s.setDiving i heap).queue j).bestFirstHeap := ha
      have hb' : b ∈ ((s.setDiving i heap).queue k).bestFirstHeap := hb
      rw [setDiving_bestFirst] at ha' hb'
      exact honce.unique j k a b m ha' hb'
    · intro j a ha m hnodea
      have ha' : a ∈ ((s.setDiving i heap).queue j).divingHeap := ha
      have hin := (setDiving_sublist hsub j).subset ha'
      have hnodea' : (s.entry a).node = some m := hnodea
      have hlivea : (s.entry a).node ≠ none := by
        rw [hnodea']
        exact Option.some_ne_none m
      have hbesta := h.diving j a hin hlivea
      have hne : m ≠ n := by
        rintro rfl
        obtain rfl := honce.unique j i a e m hbesta hbest hnodea' hnode
        obtain rfl := h.owner j i a hbesta hbest
        have hself : ((s.setDiving j heap).queue j).divingHeap = heap := by
          simp only [setDiving, update_self]
        rw [hself] at ha'
        exact hnot ha'
      have hkept : (((s.setDiving i heap).clearDive n).node m) = s.node m := by
        simp only [clearDive, update_of_ne hne, setDiving]
      rw [hkept]
      exact honce.canDive j a hin m hnodea'
    · intro m hm
      by_cases hmn : m = n
      · subst hmn
        simp only [clearDive, update_self]
      · have hm' : m ∈ dived := by
          rcases mem_append.mp hm with hin | hin
          · exact hin
          · exact absurd (mem_singleton.mp hin) hmn
        simp only [clearDive, update_of_ne hmn, setDiving]
        exact honce.cleared m hm'
    · rw [Option.toList_some, nodup_append]
      refine ⟨honce.nodup, nodup_singleton n, ?_⟩
      rintro a ha b hb rfl
      rw [mem_singleton.mp hb] at ha
      rw [honce.cleared n ha] at hwas
      cases hwas

end

variable [Fintype ι]

lemma Once.step {op : QueueOp ι} (h : s.Inv) (honce : s.Once dived)
    (hfresh : ∀ i n, op = .push i n → ∀ j, n ∉ s.waiting j) (hstep : s.step op = some (s', events))
    : s'.Once (dived ++ divedNodes events) := by
  cases op with
  | push i n =>
    cases hstep
    have hnone : divedNodes [QueueEvent.pushed i n] = [] := rfl
    rw [hnone, append_nil]
    exact honce.pushLockfree h (hfresh i n rfl)
  | pop i k =>
    unfold Queues.step Queues.pop at hstep
    by_cases hempty : (s.queue i).bestFirstHeap.isEmpty = true
    · simp only [hempty, if_true] at hstep
      cases hstep
      have hnone : divedNodes ([] : List (QueueEvent ι)) = [] := rfl
      rw [hnone, append_nil]
      exact honce
    · simp only [hempty] at hstep
      cases hpop : s.popEntry i k with
      | none =>
        simp only [hpop] at hstep
        cases hstep
      | some p =>
        obtain ⟨r, s₁⟩ := p
        obtain ⟨n, rfl, hinv, -⟩ := h.popEntry hpop
        simp only [hpop] at hstep
        cases hstep
        have hnone : divedNodes [QueueEvent.popped i n] = [] := rfl
        rw [hnone, append_nil]
        exact (honce.popEntry h hpop).1
  | stealFrom i victim ks =>
    unfold Queues.step at hstep
    simp only at hstep
    split_ifs at hstep
    obtain ⟨honce', hnone⟩ := honce.stealLoop h hstep
    rw [hnone, append_nil]
    exact honce'
  | divingInit i ks =>
    unfold Queues.step at hstep
    simp only at hstep
    cases hpop : Queues.popDiving i ks s with
    | none =>
      simp only [hpop] at hstep
      cases hstep
    | some p =>
      obtain ⟨r, s₁⟩ := p
      have honce' := honce.popDiving h hpop
      cases r with
      | none =>
        simp only [hpop] at hstep
        cases hstep
        exact honce'
      | some n =>
        simp only [hpop] at hstep
        cases hstep
        exact honce'
  | write n lowerBound objectiveEstimate =>
    unfold Queues.step at hstep
    simp only at hstep
    split_ifs at hstep
    cases hstep
    have hdive : ∀ m, (update s.node n { s.node n with
        lowerBound := lowerBound
        objectiveEstimate := objectiveEstimate } m).canDive = (s.node m).canDive := by
      intro m
      by_cases hm : m = n
      · subst hm
        rw [update_self]
      · rw [update_of_ne hm]
    have hnone : divedNodes ([] : List (QueueEvent ι)) = [] := rfl
    rw [hnone, append_nil]
    refine ⟨honce.unique, ?_, ?_, honce.nodup⟩
    · intro j e he m hnode
      rw [hdive m]
      exact honce.canDive j e he m hnode
    · intro m hm
      rw [hdive m]
      exact honce.cleared m hm

lemma Once.run {ops : List (QueueOp ι)} (h : s.Inv) (honce : s.Once dived)
    (hfresh : s.pushesFresh ops = true) (hrun : s.run ops = some (s', events)) :
    s'.Once (dived ++ divedNodes events) := by
  induction ops generalizing s dived events with
  | nil =>
    cases hrun
    have hnone : divedNodes ([] : List (QueueEvent ι)) = [] := rfl
    rw [hnone, append_nil]
    exact honce
  | cons op ops ih =>
    obtain ⟨s₁, now, later, hstep, hlater, rfl⟩ := run_cons hrun
    rw [pushesFresh, Bool.and_eq_true, hstep] at hfresh
    obtain ⟨hnow, hnext⟩ := hfresh
    have hpush : ∀ i n, op = .push i n → ∀ j, n ∉ s.waiting j := by
      rintro i n rfl
      exact of_decide_eq_true hnow
    have hrest := ih (h.step hstep).1 (honce.step h hpush hstep) hnext hlater
    have happend : divedNodes (now ++ later) = divedNodes now ++ divedNodes later :=
      filterMap_append
    rw [happend, ← append_assoc]
    exact hrest

omit [DecidableEq ι] [Fintype ι] in
theorem initial_once (lowerBound objectiveEstimate : ℕ → WithTop ℚ) :
    (initial (ι := ι) lowerBound objectiveEstimate).Once [] := by
  constructor
  · intro i j e e' n he
    cases he
  · intro i e he
    cases he
  · intro n hn
    cases hn
  · exact nodup_nil

/-- After any operations on any number of queues: no null node was taken for a node, what entered a
queue and did not leave it waits there, a pop returns a waiting node of least bound, the cached bound
is the least one, and a dive starts from a waiting node, from each node once if no node is pushed
while it waits. -/
theorem no_node_lost {lowerBound objectiveEstimate : ℕ → WithTop ℚ} {ops : List (QueueOp ι)}
    {s : Queues ι} {events : List (QueueEvent ι)}
    (hrun : (initial lowerBound objectiveEstimate).run ops = some (s, events)) :
    s.nullDeref = false ∧ (∀ i, entered events i = removed events i + s.waiting i) ∧
    pushedNodes events = poppedNodes events + ∑ i, (s.waiting i : Multiset ℕ) ∧
    (∀ i k r s', s.pop i k = some (r, s') → (r = none ∧ s.waiting i = []) ∨
      ∃ n, r = some n ∧ n ∈ s.waiting i ∧
        ∀ m ∈ s.waiting i, (s.node n).lowerBound ≤ (s.node m).lowerBound) ∧
    (∀ i, (s.queue i).lowerBound =
      (Multiset.map (fun n => (s.node n).lowerBound) (s.waiting i)).inf) ∧
    (∀ i ks n s', popDiving i ks s = some (some n, s') → n ∈ s.waiting i) ∧
    ((initial lowerBound objectiveEstimate).pushesFresh ops = true → (divedNodes events).Nodup) := by
  have hinitial := initial_inv (ι := ι) lowerBound objectiveEstimate
  obtain ⟨hinv, hflow⟩ := hinitial.run hrun
  have hqueue : ∀ i, entered events i = removed events i + s.waiting i := by
    intro i
    have hstart : ((initial (ι := ι) lowerBound objectiveEstimate).waiting i : Multiset ℕ) = 0 :=
      rfl
    rw [← hflow i, hstart, zero_add]
  refine ⟨hinv.noNull, hqueue, ?_, ?_, hinv.cached_eq, ?_, ?_⟩
  · have hsum := sum_entered events
    simp only [hqueue, Finset.sum_add_distrib] at hsum
    rw [add_assoc] at hsum
    have hcancel := add_left_cancel hsum
    rw [← hcancel, add_comm]
  · intro i k r s' hpop
    unfold Queues.pop at hpop
    by_cases hempty : (s.queue i).bestFirstHeap.isEmpty = true
    · simp only [hempty, if_true] at hpop
      cases hpop
      refine .inl ⟨rfl, ?_⟩
      rw [waiting, List.isEmpty_iff.mp hempty]
      rfl
    · simp only [hempty] at hpop
      cases htake : s.popEntry i k with
      | none =>
        simp only [htake] at hpop
        cases hpop
      | some p =>
        obtain ⟨r', s₁⟩ := p
        obtain ⟨n, rfl, -, -, hwait, hle, -⟩ := hinv.popEntry htake
        simp only [htake] at hpop
        cases hpop
        exact .inr ⟨n, rfl, hwait, hle⟩
  · intro i ks n s' hpop
    exact (hinv.popDiving hpop).2.2 n rfl
  · intro hfresh
    have honce := Once.run hinitial (initial_once lowerBound objectiveEstimate) hfresh hrun
    exact honce.nodup

/-- Two queues: node 0 is dived into, stolen and popped, node 1 is dived into after the theft. -/
theorem no_node_lost_two : ∃ s events, (initial (ι := Fin 2) (fun n => n) (fun n => n)).run
      [.push 0 0, .push 0 1, .divingInit 0 [0], .stealFrom 1 0 [0], .divingInit 0 [0],
        .pop 1 0] = some (s, events) ∧ s.nullDeref = false ∧ (divedNodes events).Nodup ∧
    pushedNodes events = poppedNodes events + ∑ i, (s.waiting i : Multiset ℕ) := by
  have hsome : ((initial (ι := Fin 2) (fun n => n) (fun n => n)).run
      [.push 0 0, .push 0 1, .divingInit 0 [0], .stealFrom 1 0 [0], .divingInit 0 [0],
        .pop 1 0]).isSome = true := by
    decide +kernel
  obtain ⟨⟨s, events⟩, hrun⟩ := Option.isSome_iff_exists.mp hsome
  have hmain := no_node_lost hrun
  have hfresh : (initial (ι := Fin 2) (fun n => n) (fun n => n)).pushesFresh
      [.push 0 0, .push 0 1, .divingInit 0 [0], .stealFrom 1 0 [0], .divingInit 0 [0],
        .pop 1 0] = true := by
    decide +kernel
  exact ⟨s, events, hrun, hmain.1, hmain.2.2.2.2.2.2 hfresh, hmain.2.2.1⟩

/-- Node 0 is pushed while it waits, and a dive returns it for each of its two entries. -/
theorem pushed_twice_dived_twice : ¬ ∀ (ops : List (QueueOp (Fin 1))) (s : Queues (Fin 1)) events,
    (initial (fun n => n) (fun n => n)).run ops = some (s, events) →
      (divedNodes events).Nodup := by
  intro h
  have hdived : ((initial (ι := Fin 1) (fun n => n) (fun n => n)).run
      [.push 0 0, .push 0 0, .divingInit 0 [0], .divingInit 0 [0]]).map
        (fun p => divedNodes p.2) = some [0, 0] := by
    decide +kernel
  obtain ⟨p, hrun, heq⟩ := Option.map_eq_some_iff.mp hdived
  have hnodup := h _ p.1 p.2 hrun
  rw [heq] at hnodup
  exact absurd hnodup (by decide)

end Queues

end CuOpt.BranchAndBound
