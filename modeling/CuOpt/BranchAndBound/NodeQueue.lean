import CuOpt.Library.Sorting

/-! The queue of the nodes that wait to be explored: a heap ordered by lower bound, with the bound of
its top cached. -/

namespace CuOpt.BranchAndBound

open Sorting List

structure HeapEntry where
  node : ℕ
  lowerBound : WithTop ℚ

def lowerBoundComp (a b : HeapEntry) : Bool := b.lowerBound < a.lowerBound

def topBound (heap : List HeapEntry) : WithTop ℚ :=
  match popTop lowerBoundComp heap with
  | none => ⊤
  | some (top, _) => top.lowerBound

structure NodeQueue where
  bestFirstHeap : List HeapEntry
  lowerBound : WithTop ℚ

namespace NodeQueue

def empty : NodeQueue := ⟨[], ⊤⟩

def bestFirstQueueSize (q : NodeQueue) : ℕ := q.bestFirstHeap.length

def getLowerBound (q : NodeQueue) : WithTop ℚ :=
  if q.bestFirstHeap.isEmpty then ⊤ else q.lowerBound

def push (q : NodeQueue) (node : ℕ) (lowerBound : WithTop ℚ) : NodeQueue :=
  let heap := q.bestFirstHeap ++ [⟨node, lowerBound⟩]
  ⟨heap, topBound heap⟩

/-- Pops entry `k`, which must be a top entry. Which of several is on top depends on the layout of
the heap. -/
def popAt (q : NodeQueue) (k : ℕ) : Option (HeapEntry × NodeQueue) :=
  match q.bestFirstHeap[k]? with
  | none => none
  | some top =>
    if q.bestFirstHeap.any (lowerBoundComp top) then none
    else
      let heap := q.bestFirstHeap.eraseIdx k
      some (top, ⟨heap, topBound heap⟩)

/-- One round of the loop of `steal_from`, which ends when the victim has too few nodes; `lowerBound`
gives the bounds of the nodes. Returns the queue of the thief, that of the victim, and whether a node
was stolen. -/
def stealRound (lowerBound : ℕ → WithTop ℚ) (nodesToSteal : ℕ) (q victim : NodeQueue) (k : ℕ) :
    Option (NodeQueue × NodeQueue × Bool) :=
  if victim.bestFirstQueueSize < nodesToSteal then some (q, victim, false)
  else
    match victim.popAt k with
    | none => none
    | some (entry, victim) => some (q.push entry.node (lowerBound entry.node), victim, true)

def nodes (q : NodeQueue) : List ℕ := q.bestFirstHeap.map HeapEntry.node

/-- The entries carry the bounds of their nodes, and the cached bound is not above any of them. -/
structure Ok (lowerBound : ℕ → WithTop ℚ) (q : NodeQueue) : Prop where
  entry : ∀ e ∈ q.bestFirstHeap, e.lowerBound = lowerBound e.node
  cached : ∀ e ∈ q.bestFirstHeap, q.lowerBound ≤ e.lowerBound

end NodeQueue

lemma topBound_le {heap : List HeapEntry} {e : HeapEntry} (he : e ∈ heap) :
    topBound heap ≤ e.lowerBound := by
  unfold topBound
  cases hpop : popTop lowerBoundComp heap with
  | none =>
    rw [popTop_eq_none lowerBoundComp hpop] at he
    cases he
  | some p =>
    have hcomp : ∀ a b, lowerBoundComp a b = true ↔ b.lowerBound < a.lowerBound := by
      intro a b
      rw [lowerBoundComp, decide_eq_true_eq]
    exact popTop_le lowerBoundComp hcomp hpop e he

namespace NodeQueue

variable {lowerBound lowerBound' : ℕ → WithTop ℚ} {q q' victim victim' : NodeQueue}

lemma empty_ok : empty.Ok lowerBound := by
  constructor <;> intro e he <;> cases he

lemma Ok.congr (h : q.Ok lowerBound) (heq : ∀ n ∈ q.nodes, lowerBound' n = lowerBound n) :
    q.Ok lowerBound' := by
  refine ⟨fun e he => ?_, h.cached⟩
  rw [h.entry e he, heq e.node (mem_map_of_mem he)]

lemma Ok.getLowerBound_le (h : q.Ok lowerBound) {n : ℕ} (hn : n ∈ q.nodes) :
    q.getLowerBound ≤ lowerBound n := by
  obtain ⟨e, he, rfl⟩ := mem_map.mp hn
  have hne : q.bestFirstHeap.isEmpty = false := by
    rw [isEmpty_eq_false_iff]
    exact ne_nil_of_mem he
  rw [getLowerBound, hne, ← h.entry e he]
  exact h.cached e he

lemma push_nodes (n : ℕ) (b : WithTop ℚ) : (q.push n b).nodes = q.nodes ++ [n] := by
  rw [nodes, push, map_append]
  rfl

lemma Ok.push (h : q.Ok lowerBound) (n : ℕ) : (q.push n (lowerBound n)).Ok lowerBound := by
  constructor
  · intro e he
    rcases mem_append.mp he with hin | hin
    · exact h.entry e hin
    · obtain rfl := mem_singleton.mp hin
      rfl
  · exact fun e he => topBound_le he

variable {k : ℕ} {e : HeapEntry}

lemma popAt_spec (hpop : q.popAt k = some (e, q')) :
    q.bestFirstHeap.Perm (e :: q'.bestFirstHeap) ∧ q'.lowerBound = topBound q'.bestFirstHeap := by
  unfold popAt at hpop
  cases hk : q.bestFirstHeap[k]? with
  | none =>
    rw [hk] at hpop
    cases hpop
  | some top =>
    rw [hk] at hpop
    simp only at hpop
    split_ifs at hpop
    cases hpop
    obtain ⟨hlt, rfl⟩ := List.getElem?_eq_some_iff.mp hk
    exact ⟨(getElem_cons_eraseIdx_perm hlt).symm, rfl⟩

lemma popAt_nodes (hpop : q.popAt k = some (e, q')) :
    q.nodes.Perm (e.node :: q'.nodes) := (popAt_spec hpop).1.map HeapEntry.node

lemma Ok.popAt (h : q.Ok lowerBound) (hpop : q.popAt k = some (e, q')) :
    q'.Ok lowerBound ∧ e ∈ q.bestFirstHeap := by
  obtain ⟨hperm, hcached⟩ := popAt_spec hpop
  refine ⟨⟨fun e' he' => ?_, fun e' he' => ?_⟩, hperm.mem_iff.mpr mem_cons_self⟩
  · exact h.entry e' (hperm.mem_iff.mpr (mem_cons_of_mem e he'))
  · rw [hcached]
    exact topBound_le he'

structure Stolen (lowerBound : ℕ → WithTop ℚ) (q victim q' victim' : NodeQueue) : Prop where
  nodes : (q'.nodes ++ victim'.nodes).Perm (q.nodes ++ victim.nodes)
  kept : ∀ n ∈ q.nodes, n ∈ q'.nodes
  shrunk : ∀ e ∈ victim'.bestFirstHeap, e ∈ victim.bestFirstHeap
  thief : q.Ok lowerBound → q'.Ok lowerBound
  victim : victim.Ok lowerBound → victim'.Ok lowerBound

lemma Stolen.refl : Stolen lowerBound q victim q victim :=
  ⟨.refl _, fun _ hn => hn, fun _ he => he, id, id⟩

lemma Stolen.of_pop (hpop : victim.popAt k = some (e, victim')) :
    Stolen lowerBound q victim (q.push e.node (lowerBound e.node)) victim' where
  nodes := by
    rw [push_nodes, append_assoc]
    exact List.Perm.append_left _ (popAt_nodes hpop).symm
  kept := by
    intro n hn
    rw [push_nodes]
    exact mem_append_left _ hn
  shrunk := fun b hb => (popAt_spec hpop).1.mem_iff.mpr (mem_cons_of_mem e hb)
  thief := fun hok => hok.push e.node
  victim := fun hok => (hok.popAt hpop).1

lemma stealRound_spec {nodesToSteal : ℕ} {steal : Bool}
    (h : stealRound lowerBound nodesToSteal q victim k = some (q', victim', steal)) :
    Stolen lowerBound q victim q' victim' ∧ (steal = false → q' = q) := by
  unfold stealRound at h
  split_ifs at h
  · cases h
    exact ⟨.refl, fun _ => rfl⟩
  · cases hpop : victim.popAt k with
    | none =>
      rw [hpop] at h
      cases h
    | some p =>
      rw [hpop] at h
      cases h
      exact ⟨.of_pop hpop, nofun⟩

end NodeQueue

end CuOpt.BranchAndBound
