import CuOpt.Cuts.Inequality
import CuOpt.Library.Bitset
import CuOpt.Library.MaximalCliques

/-! The search for maximal cliques over bitsets, with its pivot, its weight test and its limits. -/

namespace CuOpt.Cuts

open MaximalCliques List Finset

/-- What a search does not change: `timeUp` is the clock, read when so many calls have been made, and
`add` adds up weights. -/
structure BkSearch where
  adj : List (List (BitVec 64))
  weights : List ℚ
  add : ℚ → ℚ → ℚ
  minWeight : ℚ
  maxCalls : WithTop ℕ
  timeUp : ℕ → Bool
  words : ℕ
  maxWorkEstimate : WithTop ℚ

structure BkContext where
  workEstimate : Option ℚ
  numCalls : ℕ
  workLimitReached : Bool
  callLimitReached : Bool
  cliques : List (List ℕ)

section Search

variable (s : BkSearch)

def BkContext.addWork (ctx : BkContext) (accesses : ℚ) : BkContext × Bool :=
  let (work, isOver) := addWorkEstimate accesses ctx.workEstimate s.maxWorkEstimate
  ({ ctx with workEstimate := work, workLimitReached := ctx.workLimitReached || isOver }, isOver)

def BkContext.overWorkLimit (ctx : BkContext) : Bool :=
  ctx.workLimitReached || match ctx.workEstimate with
    | none => false
    | some work => decide (s.maxWorkEstimate < (work : WithTop ℚ))

def BkContext.overCallLimit (ctx : BkContext) : Bool :=
  ctx.callLimitReached || decide (s.maxCalls ≤ ctx.numCalls)

def BkSearch.neighbours (v : ℕ) : List (BitVec 64) := s.adj.getD v []

def BkSearch.weight (v : ℕ) : ℚ := s.weights.getD v 0

def sumWeightsBitset (bits : List (BitVec 64)) : ℚ :=
  (Bitset.members bits).foldl (fun sum idx => s.add sum (s.weight idx)) 0

def choosePivot (P X : List (BitVec 64)) : Option ℕ × ℤ :=
  (Bitset.members (Bitset.union P X)).foldl
    (fun best v =>
      let count : ℤ := Bitset.count (Bitset.inter P (s.neighbours v))
      if best.2 < count then (some v, count) else best)
    (none, -1)

def bkCandidates (recurse : BkContext → List ℕ → List (BitVec 64) → List (BitVec 64) → ℚ →
      Option BkContext) (R : List ℕ) (weightR : ℚ) :
    List ℕ → BkContext → List (BitVec 64) → List (BitVec 64) → Option BkContext
  | [], ctx, _, _ => some ctx
  | v :: rest, ctx, P, X =>
    if ctx.overCallLimit s then some { ctx with callLimitReached := true }
    else if s.timeUp ctx.numCalls then some ctx
    else
      (recurse ctx (R ++ [v]) (Bitset.inter P (s.neighbours v)) (Bitset.inter X (s.neighbours v))
        (s.add weightR (s.weight v))).bind fun ctx =>
      if ctx.overWorkLimit s then some ctx
      else if ctx.overCallLimit s then some { ctx with callLimitReached := true }
      else bkCandidates recurse R weightR rest ctx (Bitset.clear P v) (Bitset.set X v)

def bronKerbosch : ℕ → BkContext → List ℕ → List (BitVec 64) → List (BitVec 64) → ℚ →
    Option BkContext
  | 0, _, _, _, _, _ => none
  | fuel + 1, ctx, R, P, X, weightR =>
    if ctx.overWorkLimit s || ctx.overCallLimit s then some ctx
    else if s.timeUp ctx.numCalls then some ctx
    else
      let ctx := { ctx with numCalls := ctx.numCalls + 1 }
      if s.maxCalls < ctx.numCalls then some { ctx with callLimitReached := true }
      else
        let (ctx, isOver) := ctx.addWork s (4 * s.words)
        if isOver then some ctx
        else if !Bitset.any P && !Bitset.any X then
          if s.minWeight ≤ weightR then
            let ctx := (ctx.addWork s R.length).1
            some { ctx with cliques := ctx.cliques ++ [R] }
          else some ctx
        else if s.add weightR (sumWeightsBitset s P) < s.minWeight then some ctx
        else
          match (choosePivot s P X).1 with
          | none => none
          | some pivot =>
            let examined := (Bitset.members (Bitset.union P X)).length
            let ctx := (ctx.addWork s (2 * s.words + examined * (2 * s.words))).1
            let candidates := Bitset.members (Bitset.diff P (s.neighbours pivot))
            let ctx := (ctx.addWork s (2 * s.words + candidates.length)).1
            let ctx := (ctx.addWork s (candidates.length * (7 * s.words + 6))).1
            bkCandidates s (bronKerbosch fuel) R weightR candidates ctx P X

end Search

def bitsetWords (n : ℕ) : ℕ := (n + 63) / 64

def adjBitset (adjacencyList : List (List ℕ)) : List (List (BitVec 64)) :=
  adjacencyList.map fun nbrs =>
    nbrs.foldl Bitset.set (Bitset.empty (bitsetWords adjacencyList.length))

def allVertices (n : ℕ) : List (BitVec 64) :=
  (List.range n).foldl Bitset.set (Bitset.empty (bitsetWords n))

def BkSearch.root (s : BkSearch) (n : ℕ) (workEstimate : Option ℚ) : Option BkContext :=
  bronKerbosch s (n + 1) ⟨workEstimate, 0, false, false, []⟩ [] (allVertices n)
    (Bitset.empty (bitsetWords n)) 0

def searchOf (add : ℚ → ℚ → ℚ) (adjacencyList : List (List ℕ)) (weights : List ℚ)
    (minWeight : ℚ) (maxCalls : WithTop ℕ) (timeUp : ℕ → Bool) : BkSearch where
  adj := adjBitset adjacencyList
  weights := weights
  add := add
  minWeight := minWeight
  maxCalls := maxCalls
  timeUp := timeUp
  words := bitsetWords adjacencyList.length
  maxWorkEstimate := ⊤

def searchAll (add : ℚ → ℚ → ℚ) (adjacencyList : List (List ℕ)) (weights : List ℚ)
    (minWeight : ℚ) (maxCalls : WithTop ℕ) (timeUp : ℕ → Bool) : Option (List (List ℕ)) :=
  ((searchOf add adjacencyList weights minWeight maxCalls timeUp).root adjacencyList.length
    (some 0)).map BkContext.cliques

def findMaximalCliques (add : ℚ → ℚ → ℚ) (adjacencyList : List (List ℕ)) (weights : List ℚ)
    (minWeight : ℚ) (maxCalls : WithTop ℕ) (timeUp : ℕ → Bool) : Option (List (List ℕ)) :=
  if adjacencyList.length = 0 then some []
  else searchAll add adjacencyList weights minWeight maxCalls timeUp

section Correctness

variable {s : BkSearch} {G : SimpleGraph ℕ} {n : ℕ} {ctx : BkContext}

structure BkSearch.Unlimited (s : BkSearch) : Prop where
  maxCalls : s.maxCalls = ⊤
  timeUp : ∀ calls, s.timeUp calls = false
  maxWorkEstimate : s.maxWorkEstimate = ⊤

structure BkSearch.Weighs (s : BkSearch) : Prop where
  add : ∀ a b, s.add a b = a + b
  nonneg : ∀ v, 0 ≤ s.weight v

def BkContext.Running (ctx : BkContext) : Prop :=
  ctx.workLimitReached = false ∧ ctx.callLimitReached = false

lemma addWork_over (hs : s.Unlimited) (accesses : ℚ) : (ctx.addWork s accesses).2 = false := by
  show (addWorkEstimate accesses ctx.workEstimate s.maxWorkEstimate).2 = false
  rw [hs.maxWorkEstimate, addWorkEstimate_top]

lemma addWork_running (hs : s.Unlimited) (h : ctx.Running) (accesses : ℚ) :
    (ctx.addWork s accesses).1.Running := by
  refine ⟨?_, h.2⟩
  show (ctx.workLimitReached || (ctx.addWork s accesses).2) = false
  rw [h.1, addWork_over hs, Bool.or_self]

lemma overWorkLimit_eq (hs : s.Unlimited) (h : ctx.Running) : ctx.overWorkLimit s = false := by
  rw [BkContext.overWorkLimit, h.1, Bool.false_or, hs.maxWorkEstimate]
  cases ctx.workEstimate with
  | none => rfl
  | some work =>
    have hle : (work : WithTop ℚ) ≤ ⊤ := le_top
    exact decide_eq_false hle.not_gt

lemma overCallLimit_eq (hs : s.Unlimited) (h : ctx.Running) : ctx.overCallLimit s = false := by
  rw [BkContext.overCallLimit, h.2, Bool.false_or, hs.maxCalls]
  exact decide_eq_false (by simp)

lemma sumWeightsBitset_eq (hw : s.Weighs) (bits : List (BitVec 64)) :
    sumWeightsBitset s bits = ∑ v ∈ Bitset.toFinset bits, s.weight v := by
  have hfold : ∀ (l : List ℕ) (a : ℚ),
      l.foldl (fun sum idx => s.add sum (s.weight idx)) a = a + (l.map s.weight).sum := by
    intro l
    induction l with
    | nil => exact fun a => (add_zero a).symm
    | cons v l ih =>
      intro a
      rw [foldl_cons, ih, hw.add, List.map_cons, List.sum_cons, add_assoc]
  rw [sumWeightsBitset, hfold, zero_add, Bitset.toFinset,
    sum_toFinset s.weight (Bitset.nodup_members bits)]

lemma choosePivot_foldl (P : List (BitVec 64)) (l : List ℕ) (best : Option ℕ × ℤ) :
    (∃ v ∈ l, (l.foldl (fun best v =>
        let count : ℤ := Bitset.count (Bitset.inter P (s.neighbours v))
        if best.2 < count then (some v, count) else best) best).1 = some v) ∨
      l.foldl (fun best v =>
        let count : ℤ := Bitset.count (Bitset.inter P (s.neighbours v))
        if best.2 < count then (some v, count) else best) best = best := by
  induction l generalizing best with
  | nil => exact .inr rfl
  | cons v l ih =>
    rw [foldl_cons]
    dsimp only at ih ⊢
    split_ifs with hbetter
    · rcases ih (some v, (Bitset.count (Bitset.inter P (s.neighbours v)) : ℤ)) with
        ⟨u, hu, heq⟩ | heq
      · exact .inl ⟨u, List.mem_cons_of_mem v hu, heq⟩
      · exact .inl ⟨v, List.mem_cons_self, by rw [heq]⟩
    · exact (ih best).imp (fun ⟨u, hu, heq⟩ => ⟨u, List.mem_cons_of_mem v hu, heq⟩) id

lemma mem_members_union {P X : List (BitVec 64)} (hlen : P.length = X.length) (v : ℕ) :
    v ∈ Bitset.members (Bitset.union P X) ↔ v ∈ Bitset.toFinset P ∪ Bitset.toFinset X := by
  rw [Bitset.mem_members, Bitset.mem_union hlen, Finset.mem_union, Bitset.mem_toFinset,
    Bitset.mem_toFinset]

lemma mem_of_choosePivot {P X : List (BitVec 64)} (hlen : P.length = X.length) {pivot : ℕ}
    (h : (choosePivot s P X).1 = some pivot) :
    pivot ∈ Bitset.toFinset P ∪ Bitset.toFinset X := by
  rw [choosePivot] at h
  rcases choosePivot_foldl (s := s) P (Bitset.members (Bitset.union P X)) (none, -1) with
    ⟨v, hv, heq⟩ | heq
  · cases heq.symm.trans h
    exact (mem_members_union hlen _).mp hv
  · rw [heq] at h
    cases h

/-- A vertex is chosen unless there is none: no count is below the first best one. -/
lemma exists_choosePivot {P X : List (BitVec 64)} (hlen : P.length = X.length)
    (hsome : (Bitset.toFinset P ∪ Bitset.toFinset X).Nonempty) :
    ∃ pivot, (choosePivot s P X).1 = some pivot := by
  cases hlist : Bitset.members (Bitset.union P X) with
  | nil =>
    obtain ⟨v, hv⟩ := hsome
    rw [← mem_members_union hlen, hlist] at hv
    cases hv
  | cons v l =>
    have hfirst : (-1 : ℤ) < Bitset.count (Bitset.inter P (s.neighbours v)) := by omega
    rw [choosePivot, hlist, foldl_cons]
    dsimp only
    rw [if_pos hfirst]
    rcases choosePivot_foldl (s := s) P l
      (some v, (Bitset.count (Bitset.inter P (s.neighbours v)) : ℤ)) with ⟨u, hu, heq⟩ | heq
    · exact ⟨u, heq⟩
    · exact ⟨v, by rw [heq]⟩

structure BkSearch.Represents (s : BkSearch) (G : SimpleGraph ℕ) (n : ℕ) : Prop where
  words : n ≤ 64 * s.words
  length : ∀ v < n, (s.neighbours v).length = s.words
  adj : ∀ v < n, ∀ u, Bitset.Mem (s.neighbours v) u ↔ G.Adj v u

structure BkNode (s : BkSearch) (G : SimpleGraph ℕ) (n : ℕ) (R : List ℕ)
    (P X : List (BitVec 64)) : Prop where
  nodup : R.Nodup
  node : Node G (Finset.range n) R.toFinset (Bitset.toFinset P) (Bitset.toFinset X)
  lengthP : P.length = s.words
  lengthX : X.length = s.words

def Weight (s : BkSearch) (R : List ℕ) : ℚ := ∑ v ∈ R.toFinset, s.weight v

variable {R : List ℕ} {P X : List (BitVec 64)} {weightR : ℚ} {v : ℕ}

lemma BkNode.lt (h : BkNode s G n R P X) (hv : v ∈ Bitset.toFinset P) : v < n :=
  Finset.mem_range.mp ((h.node.common v).mp (Finset.mem_union_left _ hv)).1

lemma toFinset_concat (R : List ℕ) (v : ℕ) : (R ++ [v]).toFinset = insert v R.toFinset := by
  ext u
  simp only [toFinset_append, toFinset_cons, toFinset_nil, Finset.mem_union,
    mem_insert, notMem_empty, or_false]
  exact or_comm

lemma toFinset_inter [DecidableRel G.Adj] (hs : s.Represents G n) (hv : v < n)
    {bits : List (BitVec 64)} (hlen : bits.length = s.words) :
    Bitset.toFinset (Bitset.inter bits (s.neighbours v)) =
      {u ∈ Bitset.toFinset bits | G.Adj v u} := by
  ext u
  have hsame : bits.length = (s.neighbours v).length := hlen.trans (hs.length v hv).symm
  rw [Bitset.mem_toFinset, Bitset.mem_inter hsame, hs.adj v hv, Finset.mem_filter,
    Bitset.mem_toFinset]

lemma toFinset_clear (bits : List (BitVec 64)) (v : ℕ) :
    Bitset.toFinset (Bitset.clear bits v) = (Bitset.toFinset bits).erase v := by
  ext u
  rw [Bitset.mem_toFinset, Bitset.mem_clear, mem_erase, Bitset.mem_toFinset]

lemma toFinset_set {bits : List (BitVec 64)} (hv : v < 64 * bits.length) :
    Bitset.toFinset (Bitset.set bits v) = insert v (Bitset.toFinset bits) := by
  ext u
  rw [Bitset.mem_toFinset, Bitset.mem_set hv, mem_insert, Bitset.mem_toFinset]

lemma BkNode.child [DecidableRel G.Adj] (hs : s.Represents G n) (h : BkNode s G n R P X)
    (hv : v ∈ Bitset.toFinset P) :
    BkNode s G n (R ++ [v]) (Bitset.inter P (s.neighbours v))
      (Bitset.inter X (s.neighbours v)) where
  nodup := by
    refine List.Nodup.append h.nodup (nodup_singleton v) fun u hu huv => ?_
    have hnot := h.node.notMem (Finset.mem_union_left (Bitset.toFinset X) hv)
    exact hnot (List.mem_toFinset.mpr (List.mem_singleton.mp huv ▸ hu))
  node := by
    rw [toFinset_concat, toFinset_inter hs (h.lt hv) h.lengthP,
      toFinset_inter hs (h.lt hv) h.lengthX]
    exact h.node.child hv
  lengthP := by
    rw [Bitset.length_inter (h.lengthP.trans (hs.length v (h.lt hv)).symm), h.lengthP]
  lengthX := by
    rw [Bitset.length_inter (h.lengthX.trans (hs.length v (h.lt hv)).symm), h.lengthX]

lemma BkNode.weight_child (hw : s.Weighs) (h : BkNode s G n R P X) (hv : v ∈ Bitset.toFinset P) :
    s.add (Weight s R) (s.weight v) = Weight s (R ++ [v]) := by
  have hnot := h.node.notMem (Finset.mem_union_left (Bitset.toFinset X) hv)
  rw [Weight, Weight, toFinset_concat, sum_insert hnot, hw.add, add_comm]

lemma BkNode.tried (hs : s.Represents G n) (h : BkNode s G n R P X)
    (hv : v ∈ Bitset.toFinset P) : BkNode s G n R (Bitset.clear P v) (Bitset.set X v) where
  nodup := h.nodup
  node := by
    have hroom : v < 64 * X.length := by
      rw [h.lengthX]
      exact (h.lt hv).trans_le hs.words
    rw [toFinset_clear, toFinset_set hroom]
    exact h.node.tried hv
  lengthP := (Bitset.length_clear P v).trans h.lengthP
  lengthX := (Bitset.length_set X v).trans h.lengthX

lemma BkNode.mem_candidates (hs : s.Represents G n) (h : BkNode s G n R P X) {pivot : ℕ}
    (hpivot : pivot ∈ Bitset.toFinset P ∪ Bitset.toFinset X) :
    v ∈ Bitset.members (Bitset.diff P (s.neighbours pivot)) ↔
      v ∈ Bitset.toFinset P ∧ ¬ G.Adj pivot v := by
  have hlt : pivot < n := Finset.mem_range.mp ((h.node.common pivot).mp hpivot).1
  rw [Bitset.mem_members, Bitset.mem_diff (h.lengthP.trans (hs.length pivot hlt).symm),
    hs.adj pivot hlt, Bitset.mem_toFinset]

def Wanted (s : BkSearch) (G : SimpleGraph ℕ) (n : ℕ) (R : List ℕ) (P : List (BitVec 64))
    (C : Finset ℕ) : Prop :=
  Below G (Finset.range n) R.toFinset (Bitset.toFinset P) C ∧ s.minWeight ≤ ∑ v ∈ C, s.weight v

def Reports (ctx : BkContext) (result : Option BkContext) (p : Finset ℕ → Prop) : Prop :=
  ∃ ctx' out, result = some ctx' ∧ ctx'.Running ∧ ctx'.cliques = ctx.cliques ++ out ∧
    Enumerates out p

lemma bkCandidates_reports [DecidableRel G.Adj] (hs : s.Represents G n) (hw : s.Weighs)
    (hfree : s.Unlimited) {fuel : ℕ}
    (hrec : ∀ ctx R P X, BkNode s G n R P X → ctx.Running → (Bitset.toFinset P).card < fuel →
      Reports ctx (bronKerbosch s fuel ctx R P X (Weight s R)) (Wanted s G n R P))
    (todo : List ℕ) (htodo : todo.Nodup) (hP : ∀ v ∈ todo, v ∈ Bitset.toFinset P)
    (h : BkNode s G n R P X) (hcard : (Bitset.toFinset P).card ≤ fuel)
    (hctx : ctx.Running) :
    Reports ctx (bkCandidates s (bronKerbosch s fuel) R (Weight s R) todo ctx P X)
      (fun C => Wanted s G n R P C ∧ ∃ v ∈ todo, v ∈ C) := by
  induction todo generalizing ctx P X with
  | nil =>
    refine ⟨ctx, [], rfl, hctx, (append_nil _).symm, .nil ?_⟩
    rintro C ⟨-, v, hv, -⟩
    exact not_mem_nil hv
  | cons v rest ih =>
    obtain ⟨hv, hrest⟩ := nodup_cons.mp htodo
    have hvP : v ∈ Bitset.toFinset P := hP v List.mem_cons_self
    have hnode := h.child hs hvP
    have hchild : (Bitset.toFinset (Bitset.inter P (s.neighbours v))).card < fuel := by
      refine lt_of_lt_of_le (card_lt_card ?_) hcard
      rw [toFinset_inter hs (h.lt hvP) h.lengthP]
      refine filter_ssubset.mpr ⟨v, hvP, G.irrefl⟩
    obtain ⟨ctx₁, out₁, hcall, hrun₁, hcliques₁, hout₁⟩ := hrec ctx _ _ _ hnode hctx hchild
    have hlater : ∀ u ∈ rest, u ∈ Bitset.toFinset (Bitset.clear P v) := by
      intro u hu
      rw [toFinset_clear]
      refine mem_erase.mpr ⟨?_, hP u (List.mem_cons_of_mem v hu)⟩
      exact fun heq => hv (heq ▸ hu)
    have hcard₂ : (Bitset.toFinset (Bitset.clear P v)).card ≤ fuel := by
      rw [toFinset_clear]
      exact (card_erase_le).trans hcard
    obtain ⟨ctx₂, out₂, hloop, hrun₂, hcliques₂, hout₂⟩ :=
      ih hrest hlater (h.tried hs hvP) hcard₂ hrun₁
    refine ⟨ctx₂, out₁ ++ out₂, ?_, hrun₂, ?_, ?_⟩
    · rw [bkCandidates, overCallLimit_eq hfree hctx, hfree.timeUp]
      rw [if_neg Bool.false_ne_true, if_neg Bool.false_ne_true, h.weight_child hw hvP, hcall,
        Option.bind_some]
      rw [overWorkLimit_eq hfree hrun₁, overCallLimit_eq hfree hrun₁]
      exact hloop
    · rw [hcliques₂, hcliques₁, append_assoc]
    · -- a clique is reported below the first candidate it contains
      have hwith : ∀ C, Wanted s G n (R ++ [v]) (Bitset.inter P (s.neighbours v)) C ↔
          Wanted s G n R P C ∧ v ∈ C := by
        intro C
        rw [Wanted, Wanted, toFinset_concat, toFinset_inter hs (h.lt hvP) h.lengthP,
          below_child hvP]
        exact and_right_comm
      have hwithout : ∀ C, Wanted s G n R (Bitset.clear P v) C ↔ Wanted s G n R P C ∧ v ∉ C := by
        intro C
        rw [Wanted, Wanted, toFinset_clear, h.node.below_tried hvP]
        exact and_right_comm
      refine (hout₁.append hout₂ ?_).congr ?_
      · rintro C hC ⟨hC', -⟩
        exact ((hwithout C).mp hC').2 ((hwith C).mp hC).2
      · intro C
        rw [hwith, hwithout]
        constructor
        · rintro (⟨hC, hvC⟩ | ⟨⟨hC, -⟩, u, hu, huC⟩)
          · exact ⟨hC, v, List.mem_cons_self, hvC⟩
          · exact ⟨hC, u, List.mem_cons_of_mem v hu, huC⟩
        · rintro ⟨hC, u, hu, huC⟩
          by_cases hvC : v ∈ C
          · exact .inl ⟨hC, hvC⟩
          · rcases List.mem_cons.mp hu with rfl | hu
            · exact absurd huC hvC
            · exact .inr ⟨⟨hC, hvC⟩, u, hu, huC⟩

lemma bronKerbosch_reports [DecidableRel G.Adj] (hs : s.Represents G n) (hw : s.Weighs)
    (hfree : s.Unlimited) (fuel : ℕ) : ∀ ctx R P X, BkNode s G n R P X → ctx.Running →
      (Bitset.toFinset P).card < fuel →
      Reports ctx (bronKerbosch s fuel ctx R P X (Weight s R)) (Wanted s G n R P) := by
  induction fuel with
  | zero => exact fun _ _ _ _ _ _ hcard => absurd hcard (Nat.not_lt_zero _)
  | succ fuel ih =>
    intro ctx R P X h hctx hcard
    have hmax : ¬ s.maxCalls < ((ctx.numCalls + 1 : ℕ) : WithTop ℕ) := by
      rw [hfree.maxCalls]
      exact le_top.not_gt
    have hcalled : BkContext.Running { ctx with numCalls := ctx.numCalls + 1 } := hctx
    rw [bronKerbosch, overWorkLimit_eq hfree hctx, overCallLimit_eq hfree hctx, hfree.timeUp]
    rw [Bool.or_self, if_neg Bool.false_ne_true, if_neg Bool.false_ne_true]
    dsimp only
    rw [if_neg hmax, addWork_over hfree, if_neg Bool.false_ne_true]
    have hctx₁ := addWork_running hfree hcalled (4 * s.words)
    split_ifs with hleaf hheavy hlight
    · obtain ⟨hP, hX⟩ := Bool.and_eq_true_iff.mp hleaf
      rw [Bool.not_eq_true', Bitset.any_eq_false_iff] at hP hX
      have hnode := h.node
      rw [hP, hX] at hnode
      refine ⟨_, [R], rfl, addWork_running hfree hctx₁ _, rfl, .singleton h.nodup fun C => ?_⟩
      rw [Wanted, hP, hnode.below_leaf]
      constructor
      · exact And.left
      · rintro rfl
        exact ⟨rfl, hheavy⟩
    · obtain ⟨hP, hX⟩ := Bool.and_eq_true_iff.mp hleaf
      rw [Bool.not_eq_true', Bitset.any_eq_false_iff] at hP hX
      have hnode := h.node
      rw [hP, hX] at hnode
      refine ⟨_, [], rfl, hctx₁, (append_nil _).symm, .nil fun C hC => ?_⟩
      rw [Wanted, hP, hnode.below_leaf] at hC
      rw [hC.1] at hC
      exact hheavy hC.2
    · refine ⟨_, [], rfl, hctx₁, (append_nil _).symm, .nil fun C hC => ?_⟩
      have hle := hC.1.weight_le hw.nonneg
      rw [hw.add, sumWeightsBitset_eq hw] at hlight
      exact absurd hlight (not_lt.mpr (hC.2.trans hle))
    · have hsome : (Bitset.toFinset P ∪ Bitset.toFinset X).Nonempty := by
        rw [nonempty_iff_ne_empty]
        intro hempty
        obtain ⟨hP, hX⟩ := union_eq_empty.mp hempty
        rw [← Bitset.any_eq_false_iff] at hP hX
        rw [hP, hX] at hleaf
        exact hleaf rfl
      have hlen : P.length = X.length := h.lengthP.trans h.lengthX.symm
      obtain ⟨pivot, hchoice⟩ := exists_choosePivot (s := s) hlen hsome
      have hpivot := mem_of_choosePivot hlen hchoice
      rw [hchoice]
      dsimp only
      obtain ⟨ctx', out, hrun, hrunning, hcliques, hout⟩ := bkCandidates_reports hs hw hfree ih
        (Bitset.members (Bitset.diff P (s.neighbours pivot))) (Bitset.nodup_members _)
        (fun v hv => ((h.mem_candidates hs hpivot).mp hv).1) h (Nat.lt_succ_iff.mp hcard)
        (addWork_running hfree (addWork_running hfree (addWork_running hfree hctx₁
          (2 * s.words + (Bitset.members (Bitset.union P X)).length * (2 * s.words)))
          (2 * s.words + (Bitset.members (Bitset.diff P (s.neighbours pivot))).length))
          ((Bitset.members (Bitset.diff P (s.neighbours pivot))).length * (7 * s.words + 6)))
      refine ⟨ctx', out, hrun, hrunning, hcliques, hout.congr fun C => ?_⟩
      refine ⟨And.left, fun hC => ⟨hC, ?_⟩⟩
      obtain ⟨v, hvP, hnot, hvC⟩ := h.node.exists_candidate hpivot hC.1
      exact ⟨v, (h.mem_candidates hs hpivot).mpr ⟨hvP, hnot⟩, hvC⟩

/-- What a search has reported are cliques, wherever its limits end it. -/
def BkContext.Sound (G : SimpleGraph ℕ) (n : ℕ) (ctx : BkContext) : Prop :=
  ∀ R ∈ ctx.cliques, R.Nodup ∧ (∀ v ∈ R, v < n) ∧ ∀ u ∈ R, ∀ v ∈ R, u ≠ v → G.Adj u v

lemma bkCandidates_sound [DecidableRel G.Adj] (hs : s.Represents G n) {fuel : ℕ}
    (hrec : ∀ ctx ctx' R P X weightR, BkNode s G n R P X → ctx.Sound G n →
      bronKerbosch s fuel ctx R P X weightR = some ctx' → ctx'.Sound G n)
    (todo : List ℕ) (htodo : todo.Nodup) (hP : ∀ v ∈ todo, v ∈ Bitset.toFinset P)
    (h : BkNode s G n R P X) (hctx : ctx.Sound G n) {ctx' : BkContext}
    (hrun : bkCandidates s (bronKerbosch s fuel) R weightR todo ctx P X = some ctx') :
    ctx'.Sound G n := by
  induction todo generalizing ctx P X with
  | nil =>
    cases hrun
    exact hctx
  | cons v rest ih =>
    obtain ⟨hv, hrest⟩ := nodup_cons.mp htodo
    have hvP : v ∈ Bitset.toFinset P := hP v List.mem_cons_self
    have hlater : ∀ u ∈ rest, u ∈ Bitset.toFinset (Bitset.clear P v) := by
      intro u hu
      rw [toFinset_clear]
      exact mem_erase.mpr ⟨fun heq => hv (heq ▸ hu), hP u (List.mem_cons_of_mem v hu)⟩
    rw [bkCandidates] at hrun
    split_ifs at hrun
    · cases hrun
      exact hctx
    · cases hrun
      exact hctx
    · obtain ⟨ctx₁, hcall, hnext⟩ := Option.bind_eq_some_iff.mp hrun
      have hctx₁ := hrec ctx ctx₁ _ _ _ _ (h.child hs hvP) hctx hcall
      split_ifs at hnext
      · cases hnext
        exact hctx₁
      · cases hnext
        exact hctx₁
      · exact ih hrest hlater (h.tried hs hvP) hctx₁ hnext

lemma bronKerbosch_sound [DecidableRel G.Adj] (hs : s.Represents G n) (fuel : ℕ) :
    ∀ ctx ctx' R P X weightR, BkNode s G n R P X → ctx.Sound G n →
      bronKerbosch s fuel ctx R P X weightR = some ctx' → ctx'.Sound G n := by
  induction fuel with
  | zero =>
    intro ctx ctx' R P X weightR _ _ hrun
    cases hrun
  | succ fuel ih =>
    intro ctx ctx' R P X weightR h hctx hrun
    rw [bronKerbosch] at hrun
    dsimp only at hrun
    split_ifs at hrun with hover htime hcalls hwork hleaf hheavy hlight
    · cases hrun
      exact hctx
    · cases hrun
      exact hctx
    · cases hrun
      exact hctx
    · cases hrun
      exact hctx
    · cases hrun
      intro C hC
      rcases List.mem_append.mp hC with hC | hC
      · exact hctx C hC
      · cases List.mem_singleton.mp hC
        refine ⟨h.nodup, fun v hv => ?_, fun u hu v hv => ?_⟩
        · exact Finset.mem_range.mp (h.node.subset (List.mem_toFinset.mpr hv))
        · exact h.node.clique u (List.mem_toFinset.mpr hu) v (List.mem_toFinset.mpr hv)
    · cases hrun
      exact hctx
    · cases hrun
      exact hctx
    · cases hpivot : (choosePivot s P X).1 with
      | none =>
        rw [hpivot] at hrun
        cases hrun
      | some pivot =>
        rw [hpivot] at hrun
        have hmem := mem_of_choosePivot (h.lengthP.trans h.lengthX.symm) hpivot
        refine bkCandidates_sound hs ih _ (Bitset.nodup_members _)
          (fun v hv => ((h.mem_candidates hs hmem).mp hv).1) h ?_ hrun
        exact hctx

end Correctness

/-- A finite symmetric irreflexive graph. -/
structure AdjacencyGraph where
  adjacencyList : List (List ℕ)
  lt : ∀ v, ∀ u ∈ adjacencyList.getD v [], u < adjacencyList.length
  symm : ∀ v u, u ∈ adjacencyList.getD v [] → v ∈ adjacencyList.getD u []
  irrefl : ∀ v, v ∉ adjacencyList.getD v []

namespace AdjacencyGraph

variable (g : AdjacencyGraph)

def graph : SimpleGraph ℕ where
  Adj v u := u ∈ g.adjacencyList.getD v []
  symm := ⟨fun v u h => g.symm v u h⟩
  loopless := ⟨fun v h => g.irrefl v h⟩

instance : DecidableRel g.graph.Adj :=
  fun v u => inferInstanceAs (Decidable (u ∈ g.adjacencyList.getD v []))

def vertices : Finset ℕ := Finset.range g.adjacencyList.length

lemma mem_foldl_set {l : List ℕ} {bits : List (BitVec 64)} (h : ∀ v ∈ l, v < 64 * bits.length)
    (u : ℕ) : Bitset.Mem (l.foldl Bitset.set bits) u ↔ u ∈ l ∨ Bitset.Mem bits u := by
  rw [Bitset.mem_foldl_set h]
  simp

lemma length_empty (n : ℕ) : (Bitset.empty (bitsetWords n)).length = bitsetWords n :=
  length_replicate

lemma le_bitsetWords (n : ℕ) : n ≤ 64 * bitsetWords n := by
  unfold bitsetWords
  omega

lemma toFinset_allVertices : Bitset.toFinset (allVertices g.adjacencyList.length) = g.vertices := by
  ext v
  rw [Bitset.mem_toFinset, allVertices, mem_foldl_set, List.mem_range, vertices, Finset.mem_range]
  · exact or_iff_left (Bitset.not_mem_empty _ v)
  · intro w hw
    rw [length_empty]
    exact (List.mem_range.mp hw).trans_le (le_bitsetWords _)

lemma toFinset_empty (words : ℕ) : Bitset.toFinset (Bitset.empty words) = ∅ := by
  rw [eq_empty_iff_forall_notMem]
  intro v hv
  exact Bitset.not_mem_empty words v ((Bitset.mem_toFinset _ v).mp hv)

section Search

variable {s : BkSearch} (hadj : s.adj = adjBitset g.adjacencyList)
  (hwords : s.words = bitsetWords g.adjacencyList.length)

include hadj

lemma neighbours_eq {v : ℕ} (hv : v < g.adjacencyList.length) :
    s.neighbours v = (g.adjacencyList.getD v []).foldl Bitset.set
      (Bitset.empty (bitsetWords g.adjacencyList.length)) := by
  have hmap : v < (adjBitset g.adjacencyList).length := by
    rw [adjBitset, length_map]
    exact hv
  rw [BkSearch.neighbours, hadj, getD_eq_getElem _ _ hmap, getD_eq_getElem _ _ hv]
  exact getElem_map _

include hwords

lemma represents : s.Represents g.graph g.adjacencyList.length where
  words := hwords ▸ le_bitsetWords _
  length := by
    intro v hv
    rw [g.neighbours_eq hadj hv, Bitset.length_foldl_set, length_empty, hwords]
  adj := by
    intro v hv u
    rw [g.neighbours_eq hadj hv, mem_foldl_set]
    · exact or_iff_left (Bitset.not_mem_empty _ u)
    · intro w hw
      rw [length_empty]
      exact (g.lt v w hw).trans_le (le_bitsetWords _)

omit hadj in
lemma root_node : BkNode s g.graph g.adjacencyList.length []
    (allVertices g.adjacencyList.length)
    (Bitset.empty (bitsetWords g.adjacencyList.length)) := by
  refine ⟨nodup_nil, ?_, ?_, ?_⟩
  · rw [toFinset_allVertices, toFinset_empty]
    exact node_root
  · rw [allVertices, Bitset.length_foldl_set, length_empty, hwords]
  · rw [length_empty, hwords]

lemma root_sound {work : Option ℚ} {ctx : BkContext}
    (hrun : s.root g.adjacencyList.length work = some ctx) :
    ctx.Sound g.graph g.adjacencyList.length :=
  bronKerbosch_sound (g.represents hadj hwords) _ _ ctx _ _ _ _ (g.root_node hwords)
    (fun _ hR => absurd hR List.not_mem_nil) hrun

end Search

end AdjacencyGraph

/-- A nonnegative weight for each vertex. -/
structure WeightedGraph extends AdjacencyGraph where
  weights : List ℚ
  weights_length : weights.length = adjacencyList.length
  nonneg : ∀ w ∈ weights, 0 ≤ w

namespace WeightedGraph

variable (g : WeightedGraph) (minWeight : ℚ)

def weight (v : ℕ) : ℚ := g.weights.getD v 0

def IsHeavyMaximalClique (C : Finset ℕ) : Prop :=
  IsMaximalClique g.graph g.vertices C ∧ minWeight ≤ ∑ v ∈ C, g.weight v

lemma weighs : (searchOf (· + ·) g.adjacencyList g.weights minWeight ⊤ fun _ => false).Weighs where
  add _ _ := rfl
  nonneg := by
    intro v
    show 0 ≤ g.weights.getD v 0
    by_cases hv : v < g.weights.length
    · rw [getD_eq_getElem _ _ hv]
      exact g.nonneg _ (getElem_mem hv)
    · rw [getD_eq_default _ _ (not_lt.mp hv)]

lemma searchAll_enumerates :
    ∃ cliques, searchAll (· + ·) g.adjacencyList g.weights minWeight ⊤ (fun _ => false) =
        some cliques ∧ Enumerates cliques (g.IsHeavyMaximalClique minWeight) := by
  have hcard : (Bitset.toFinset (allVertices g.adjacencyList.length)).card <
      g.adjacencyList.length + 1 := by
    rw [g.toFinset_allVertices, AdjacencyGraph.vertices, card_range]
    exact Nat.lt_succ_self _
  obtain ⟨ctx, out, hrun, -, hcliques, hout⟩ :=
    bronKerbosch_reports (g.represents rfl rfl) (g.weighs minWeight) ⟨rfl, fun _ => rfl, rfl⟩
      (g.adjacencyList.length + 1) ⟨some 0, 0, false, false, []⟩ _ _ _ (g.root_node rfl)
      ⟨rfl, rfl⟩ hcard
  refine ⟨ctx.cliques, ?_, ?_⟩
  · rw [searchAll, BkSearch.root]
    exact congrArg (Option.map BkContext.cliques) hrun
  · rw [hcliques, nil_append]
    refine hout.congr fun C => ?_
    rw [Wanted, g.toFinset_allVertices]
    exact and_congr_left fun _ => below_root

/-- The search of every graph names each maximal clique that weighs enough, once and nothing else;
the function around it does so for the cliques that have a vertex. -/
theorem findMaximalCliques_exact :
    (∃ cliques, searchAll (· + ·) g.adjacencyList g.weights minWeight ⊤ (fun _ => false) =
        some cliques ∧ Enumerates cliques (g.IsHeavyMaximalClique minWeight)) ∧
    ∃ cliques, findMaximalCliques (· + ·) g.adjacencyList g.weights minWeight ⊤ (fun _ => false) =
        some cliques ∧
      Enumerates cliques (fun C => C.Nonempty ∧ g.IsHeavyMaximalClique minWeight C) := by
  refine ⟨g.searchAll_enumerates minWeight, ?_⟩
  unfold findMaximalCliques
  split_ifs with hzero
  · refine ⟨[], rfl, .nil ?_⟩
    rintro C ⟨⟨v, hv⟩, hC⟩
    have hmem := hC.1.subset hv
    rw [AdjacencyGraph.vertices, hzero] at hmem
    exact absurd hmem (Finset.notMem_empty v)
  · obtain ⟨cliques, hrun, hout⟩ := g.searchAll_enumerates minWeight
    refine ⟨cliques, hrun, hout.congr fun C => ⟨fun hC => ⟨?_, hC⟩, And.right⟩⟩
    obtain ⟨u, hu, -⟩ := hC.1.maximal 0 (Finset.mem_range.mpr (Nat.pos_of_ne_zero hzero))
    exact ⟨u, hu⟩

/-- A triangle and a vertex that is joined to one of its corners. -/
def pendant : WeightedGraph where
  adjacencyList := [[1, 2], [0, 2], [0, 1, 3], [2]]
  weights := [1, 2, 3, 1 / 2]
  lt := forall_mem_getD (by decide)
  symm := forall_mem_getD (by decide)
  irrefl v hv := forall_mem_getD (P := fun v u => v ≠ u) (by decide) v v hv rfl
  weights_length := rfl
  nonneg := by decide +kernel

theorem findMaximalCliques_pendant :
    findMaximalCliques (· + ·) pendant.adjacencyList pendant.weights 4 ⊤ (fun _ => false) =
        some [[2, 0, 1]] ∧
      Enumerates [[2, 0, 1]] (fun C => C.Nonempty ∧ pendant.IsHeavyMaximalClique 4 C) := by
  have hrun : findMaximalCliques (· + ·) pendant.adjacencyList pendant.weights 4 ⊤
      (fun _ => false) = some [[2, 0, 1]] := by
    decide +kernel
  obtain ⟨-, cliques, hfound, hexact⟩ := pendant.findMaximalCliques_exact 4
  cases hrun.symm.trans hfound
  exact ⟨hrun, hexact⟩

/-- The sum of doubles, rounded to the nearest and a tie to the even one, where it is in range and
not subnormal. -/
def addDouble (a b : ℚ) : ℚ :=
  let ulp : ℚ := 2 ^ (Int.log 2 |a + b| - 52)
  let q := ⌊(a + b) / ulp⌋
  let rest := (a + b) / ulp - q
  ulp * (if rest < 1 / 2 ∨ rest = 1 / 2 ∧ Even q then q else q + 1 : ℤ)

def heavyTriangle : WeightedGraph where
  adjacencyList := [[1, 2], [0, 2], [0, 1]]
  weights := [2 ^ 53, 1, 1]
  lt := forall_mem_getD (by decide)
  symm := forall_mem_getD (by decide)
  irrefl v hv := forall_mem_getD (P := fun v u => v ≠ u) (by decide) v v hv rfl
  weights_length := rfl
  nonneg := by decide +kernel

/-- Doubles next to `2 ^ 53` are two apart, so that the weight of the triangle rounds to less than
it is. -/
theorem findMaximalCliques_not_exact :
    findMaximalCliques addDouble heavyTriangle.adjacencyList heavyTriangle.weights (2 ^ 53 + 2) ⊤
        (fun _ => false) = some [] ∧
      heavyTriangle.IsHeavyMaximalClique (2 ^ 53 + 2) {0, 1, 2} := by
  refine ⟨by decide +kernel, ⟨by decide, by decide, by decide⟩, ?_⟩
  decide +kernel

end WeightedGraph

end CuOpt.Cuts
