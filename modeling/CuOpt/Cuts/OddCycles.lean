import CuOpt.Cuts.Inequality
import CuOpt.Library.ShortestPaths

/-! The search for an odd closed walk of least weight through a vertex, on the graph's double cover,
with arrays that later calls use again. -/

namespace CuOpt.Cuts

open ShortestPaths
open Function (update)

/-- The arrays that calls share: an entry counts only when its stamp is the current generation, a
64-bit counter. -/
structure DijkstraScratch where
  size : ℕ
  dist : ℕ → ℚ
  prev : ℕ → ℤ
  stamp : ℕ → ℕ
  gen : ℕ

namespace DijkstraScratch

def empty : DijkstraScratch := ⟨0, fun _ => 0, fun _ => 0, fun _ => 0, 0⟩

def ensureSize (n : ℕ) (scratch : DijkstraScratch) : DijkstraScratch :=
  if scratch.size < n then { scratch with size := n, stamp := fun _ => 0, gen := 0 } else scratch

def nextGen (scratch : DijkstraScratch) : DijkstraScratch :=
  { scratch with gen := (scratch.gen + 1) % 2 ^ 64 }

/-- The distance of this call; none is infinity. -/
def curDist (scratch : DijkstraScratch) (v : ℕ) : Option ℚ :=
  if scratch.stamp v = scratch.gen then some (scratch.dist v) else none

def write (scratch : DijkstraScratch) (v : ℕ) (d : ℚ) (parent : ℤ) : DijkstraScratch :=
  { scratch with
    dist := update scratch.dist v d
    prev := update scratch.prev v parent
    stamp := update scratch.stamp v scratch.gen }

end DijkstraScratch

def EntryLe (a b : ℚ × ℕ) : Prop := a.1 < b.1 ∨ a.1 = b.1 ∧ a.2 ≤ b.2

instance : DecidableRel EntryLe := fun _ _ => inferInstanceAs (Decidable (_ ∨ _ ∧ _))

structure DijkstraState where
  scratch : DijkstraScratch
  queue : List (ℚ × ℕ)

section Search

variable (localAdj : List (List ℕ)) (weights : List ℚ)

def edgeWeight (u v : ℕ) : ℚ :=
  let edge := (1 - weights.getD u 0 - weights.getD v 0) / 2
  if edge < 0 then 0 else edge

def relaxNeighbour (u : ℕ) (d : ℚ) (st : DijkstraState) (vLocal : ℕ) : DijkstraState :=
  let n := localAdj.length
  let v := vLocal + (1 - u / n) * n
  let nd := d + edgeWeight weights (u % n) vLocal
  if (st.scratch.curDist v).all fun dv => decide (nd < dv) then
    ⟨st.scratch.write v nd u, st.queue.orderedInsert EntryLe (nd, v)⟩
  else st

/-- The loop over the queue; the flag tells that the work limit ended it. -/
def dijkstraLoop (target : ℕ) (cutoff : ℚ) (maxWorkEstimate : WithTop ℚ) :
    ℕ → DijkstraState → Option ℚ → Option (DijkstraState × Option ℚ × Bool)
  | 0, _, _ => none
  | fuel + 1, st, work =>
    match st.queue with
    | [] => some (st, work, false)
    | (d, u) :: rest =>
      let st : DijkstraState := ⟨st.scratch, rest⟩
      if (st.scratch.curDist u).any fun du => decide (du < d) then
        dijkstraLoop target cutoff maxWorkEstimate fuel st work
      else if u = target then some (st, work, false)
      else if 0 < cutoff ∧ cutoff ≤ d then some (st, work, false)
      else
        let neigh := localAdj.getD (u % localAdj.length) []
        let (work, isOver) := addWorkEstimate (neigh.length + 4) work maxWorkEstimate
        if isOver then some (st, work, true)
        else
          dijkstraLoop target cutoff maxWorkEstimate fuel
            (neigh.foldl (relaxNeighbour localAdj weights u d) st) work

def tracePath (prev : ℕ → ℤ) (source : ℕ) : ℕ → ℤ → Option (List ℕ)
  | 0, _ => none
  | fuel + 1, cur =>
    if cur = -1 then some []
    else if cur = source then some [source]
    else (tracePath prev source fuel (prev cur.toNat)).map (cur.toNat :: ·)

structure OddCycleResult where
  found : Option (List ℕ × ℚ)
  scratch : DijkstraScratch
  workEstimate : Option ℚ
  limitMet : Bool

def dijkstraFuel : ℕ := 2 * (localAdj.map List.length).sum + 2

def dijkstraOddCycle (sourceLocal : ℤ) (cutoff : ℚ) (workEstimate : Option ℚ)
    (maxWorkEstimate : WithTop ℚ) (scratch : DijkstraScratch) : Option OddCycleResult :=
  let n := localAdj.length
  if sourceLocal < 0 ∨ (n : ℤ) ≤ sourceLocal then some ⟨none, scratch, workEstimate, false⟩
  else if weights.length ≠ n then some ⟨none, scratch, workEstimate, false⟩
  else
    let source := sourceLocal.toNat
    let target := source + n
    let scratch := ((scratch.ensureSize (2 * n)).nextGen).write source 0 (-1)
    (dijkstraLoop localAdj weights target cutoff maxWorkEstimate (dijkstraFuel localAdj)
      ⟨scratch, [(0, source)]⟩ workEstimate).bind fun (st, work, limitMet) =>
    if limitMet then some ⟨none, st.scratch, work, true⟩
    else
      match st.scratch.curDist target with
      | none => some ⟨none, st.scratch, work, false⟩
      | some total =>
        if 0 < cutoff ∧ cutoff ≤ total then some ⟨none, st.scratch, work, false⟩
        else
          (tracePath st.scratch.prev source (2 * n + 1) target).map fun path =>
            ⟨some (path.reverse, total), st.scratch, work, false⟩

end Search

structure OddGraph where
  localAdj : List (List ℕ)
  weights : List ℚ
  lt : ∀ v, ∀ u ∈ localAdj.getD v [], u < localAdj.length
  symm : ∀ v u, u ∈ localAdj.getD v [] → v ∈ localAdj.getD u []
  weights_length : weights.length = localAdj.length

structure OddCall where
  graph : OddGraph
  source : ℤ
  cutoff : ℚ
  workEstimate : Option ℚ
  maxWorkEstimate : WithTop ℚ

def OddCall.run (call : OddCall) (scratch : DijkstraScratch) : Option OddCycleResult :=
  dijkstraOddCycle call.graph.localAdj call.graph.weights call.source call.cutoff
    call.workEstimate call.maxWorkEstimate scratch

def runCalls : List OddCall → DijkstraScratch → Option (List OddCycleResult)
  | [], _ => some []
  | call :: rest, scratch =>
    (call.run scratch).bind fun result => (runCalls rest result.scratch).map (result :: ·)

def walkWeight (weights : List ℚ) : List ℕ → ℚ
  | a :: b :: p => edgeWeight weights a b + walkWeight weights (b :: p)
  | _ => 0

def OddGraph.IsOddClosedWalk (g : OddGraph) (source : ℤ) (p : List ℕ) : Prop :=
  (∃ s : ℕ, (s : ℤ) = source ∧ p.head? = some s ∧ p.getLast? = some s) ∧
    p.IsChain (fun a b => b ∈ g.localAdj.getD a []) ∧ Even p.length

/-- The call finds a walk exactly when there is one below the cutoff, if that is positive, and the
walk it finds is one of least weight. -/
def OddCall.Exact (call : OddCall) (found : Option (List ℕ × ℚ)) : Prop :=
  (found.isSome = true ↔ ∃ p, call.graph.IsOddClosedWalk call.source p ∧
    (0 < call.cutoff → walkWeight call.graph.weights p < call.cutoff)) ∧
  ∀ path total, found = some (path, total) →
    call.graph.IsOddClosedWalk call.source (path.map (· % call.graph.localAdj.length)) ∧
    walkWeight call.graph.weights (path.map (· % call.graph.localAdj.length)) = total ∧
    ∀ p, call.graph.IsOddClosedWalk call.source p → total ≤ walkWeight call.graph.weights p

end CuOpt.Cuts
