import CuOpt.BranchAndBound.ObjectiveLattice
import CuOpt.BranchAndBound.SearchTree
import CuOpt.Library.Sorting

/-! The workers of deterministic branch and bound: the node containers of a best-first worker, the
events it records, and one pass of its loop. -/

namespace CuOpt.BranchAndBound

open Sorting

inductive EventPayload
  | branched (downChild upChild : ℕ) (lowerBound : WithTop ℚ) (branchVar : ℕ) (branchValue : ℚ)
  | fathomed (lowerBound : WithTop ℚ)
  | integer (objective : WithTop ℚ)
  | infeasible
  | numerical
  deriving DecidableEq

structure BbEvent where
  payload : EventPayload
  workTimestamp : ℚ
  workerId : ℕ
  nodeId : ℕ
  eventSequence : ℕ
  deriving DecidableEq

structure QueuedIntegerSolution where
  objective : ℚ
  solution : List ℚ
  depth : ℕ
  workerId : ℤ
  sequenceId : ℕ
  workTimestamp : ℚ
  deriving DecidableEq

/-- `plungeStack` has its front first. `solving` holds between the start of a node solve and its
return, where a worker may wait for a sync. -/
structure BfsWorker where
  workerId : ℕ
  clock : ℚ
  localUpperBound : WithTop ℚ
  integerSolutions : List QueuedIntegerSolution
  nextSolutionSeq : ℕ
  plungeStack : List ℕ
  backlog : List ℕ
  currentNode : Option ℕ
  solving : Bool
  events : List BbEvent
  eventSequence : ℕ
  nextCreationSeq : ℕ
  localLowerBoundCeiling : WithTop ℚ

def backlogNodeCompare (tree : SearchTree) (a b : ℕ) : Bool :=
  let a := tree.node a
  let b := tree.node b
  if a.lowerBound ≠ b.lowerBound then b.lowerBound < a.lowerBound
  else if a.originWorkerId ≠ b.originWorkerId then b.originWorkerId < a.originWorkerId
  else b.creationSeq < a.creationSeq

namespace BfsWorker

def hasWork (w : BfsWorker) : Bool :=
  w.currentNode.isSome || !w.plungeStack.isEmpty || !w.backlog.isEmpty

def enqueueNode (w : BfsWorker) (n : ℕ) : BfsWorker :=
  { w with plungeStack := n :: w.plungeStack }

def enqueueChildrenForPlunge (w : BfsWorker) (tree : SearchTree) (down up : ℕ)
    (preferred : BranchDirection) : SearchTree × BfsWorker :=
  let (stack, backlog) := match w.plungeStack.getLast? with
    | some oldest => (w.plungeStack.dropLast, w.backlog ++ [oldest])
    | none => (w.plungeStack, w.backlog)
  let tree := tree.modify down fun node =>
    { node with originWorkerId := w.workerId, creationSeq := w.nextCreationSeq }
  let tree := tree.modify up fun node =>
    { node with originWorkerId := w.workerId, creationSeq := w.nextCreationSeq + 1 }
  let stack := match preferred with
    | .up => up :: down :: stack
    | .down => down :: up :: stack
  (tree, { w with
    plungeStack := stack, backlog := backlog, nextCreationSeq := w.nextCreationSeq + 2 })

/-- A paused node comes first, then the front of the plunge stack, then the top of the backlog. -/
def dequeueNode (w : BfsWorker) (tree : SearchTree) : Option (ℕ × BfsWorker) :=
  match w.currentNode with
  | some n => some (n, { w with currentNode := none })
  | none =>
    match w.plungeStack with
    | n :: rest => some (n, { w with plungeStack := rest })
    | [] =>
      match popTop (backlogNodeCompare tree) w.backlog with
      | some (n, rest) => some (n, { w with backlog := rest })
      | none => none

def queueSize (w : BfsWorker) : ℕ :=
  w.plungeStack.length + w.backlog.length + if w.currentNode.isSome then 1 else 0

def recordEvent (w : BfsWorker) (nodeId : ℕ) (payload : EventPayload) : BfsWorker :=
  { w with
    events := w.events ++ [⟨payload, w.clock, w.workerId, nodeId, w.eventSequence⟩]
    eventSequence := w.eventSequence + 1 }

end BfsWorker

/-- What the relaxation of a node gave. `fractional` is the branching variable with its value and
the preferred direction; without it the solution is integer. -/
inductive LpResult
  | dualUnbounded
  | cutoff
  | optimal (leafObj : ℚ) (x : List ℚ) (fractional : Option (ℕ × ℚ × BranchDirection))
  | timeLimit
  | workLimit
  | numerical

inductive NodeResult
  | boundsInfeasible
  | outOfTime
  | relaxation (workPerformed : ℚ) (result : LpResult)

structure SolverConfig where
  lattice : LatticeSettings
  absoluteMipGapTol : ℚ
  horizonStep : ℚ
  std : Sorter

def BfsWorker.handleIntegerSolution (w : BfsWorker) (depth : ℕ) (obj : ℚ) (x : List ℚ) :
    BfsWorker :=
  if (obj : WithTop ℚ) < w.localUpperBound then
    { w with
      localUpperBound := obj
      integerSolutions := w.integerSolutions ++ [⟨obj, x, depth, w.workerId, w.nextSolutionSeq, 0⟩]
      nextSolutionSeq := w.nextSolutionSeq + 1 }
  else w

def updateTree (cfg : SolverConfig) (tree : SearchTree) (w : BfsWorker) (n : ℕ) (result : LpResult) :
    SearchTree × BfsWorker × NodeStatus :=
  let absFathomTol := cfg.absoluteMipGapTol / 10
  let nodeId := (tree.node n).creationSeq
  match result with
  | .dualUnbounded =>
    ((tree.setLowerBound n ⊤).setStatus n .infeasible, w.recordEvent nodeId .infeasible, .infeasible)
  | .cutoff =>
    ((tree.setLowerBound n w.localUpperBound).setStatus n .fathomed,
      w.recordEvent nodeId (.fathomed w.localUpperBound), .fathomed)
  | .optimal leafObj x fractional =>
    let bound : WithTop ℚ := (cfg.lattice.snapToLattice leafObj : ℚ)
    let upperBound := w.localUpperBound
    let tree := tree.setLowerBound n bound
    match fractional with
    | none =>
      (tree.setStatus n .integerFeasible,
        (w.handleIntegerSolution (tree.node n).depth leafObj x).recordEvent nodeId (.integer bound),
        .integerFeasible)
    | some (branchVar, branchValue, dir) =>
      if bound ≤ upperBound + (absFathomTol : ℚ) then
        let down := tree.numNodes
        let up := tree.numNodes + 1
        let tree := (tree.branch n).setStatus n .hasChildren
        let w := w.recordEvent nodeId (.branched down up bound branchVar branchValue)
        let (tree, w) := w.enqueueChildrenForPlunge tree down up dir
        (tree, w, .hasChildren)
      else
        (tree.setStatus n .fathomed, w.recordEvent nodeId (.fathomed bound), .fathomed)
  | .timeLimit => (tree, w, .pending)
  | .workLimit => (tree, w, .pending)
  | .numerical =>
    (tree.setStatus n .numerical,
      { w with
        localLowerBoundCeiling := min (tree.node n).lowerBound w.localLowerBoundCeiling }.recordEvent
          nodeId .numerical,
      .numerical)

def solveNodeDeterministic (cfg : SolverConfig) (tree : SearchTree) (w : BfsWorker) (n : ℕ)
    (result : NodeResult) : SearchTree × BfsWorker × NodeStatus :=
  match result with
  | .boundsInfeasible =>
    ((tree.setLowerBound n ⊤).setStatus n .infeasible,
      w.recordEvent (tree.node n).creationSeq .infeasible, .infeasible)
  | .outOfTime => (tree, w, .pending)
  | .relaxation work lp => updateTree cfg tree { w with clock := w.clock + work } n lp

/-- The loop of `run_deterministic_bfs_loop` up to the node solve; `none` when the worker is inside
a solve or has no work. -/
def beginNode (tree : SearchTree) (w : BfsWorker) : Option (SearchTree × BfsWorker) :=
  if w.solving then none
  else
    match w.dequeueNode tree with
    | none => none
    | some (n, w) =>
      if w.localUpperBound < (tree.node n).lowerBound then
        some (tree.setStatus n .fathomed, { w with currentNode := none }.recordEvent
          (tree.node n).creationSeq (.fathomed (tree.node n).lowerBound))
      else some (tree, { w with currentNode := some n, solving := true })

/-- The rest of the loop body. A pending node stays the current node. -/
def finishNode (cfg : SolverConfig) (tree : SearchTree) (w : BfsWorker) (result : NodeResult) :
    Option (SearchTree × BfsWorker) :=
  match w.solving, w.currentNode with
  | true, some n =>
    let (tree, w, status) := solveNodeDeterministic cfg tree w n result
    if status = .pending then some (tree, { w with solving := false })
    else some (tree, { w with solving := false, currentNode := none })
  | _, _ => none

end CuOpt.BranchAndBound
