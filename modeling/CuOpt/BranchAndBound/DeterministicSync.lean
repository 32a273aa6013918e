import CuOpt.BranchAndBound.DeterministicWorkers

/-! The sync callback of deterministic branch and bound, which runs while every worker waits: replay
of the recorded events together with queued heuristic solutions, incumbent updates, load balancing
and the global lower bound. -/

namespace CuOpt.BranchAndBound

open Sorting

structure Incumbent where
  objective : ℚ
  x : List ℚ
  deriving DecidableEq

structure SolverState where
  tree : SearchTree
  workers : List BfsWorker
  divingSolutions : List (List QueuedIntegerSolution)
  heuristicQueue : List QueuedIntegerSolution
  lowerBoundNumerical : WithTop ℚ
  upperBound : WithTop ℚ
  incumbent : Option Incumbent
  currentHorizon : ℚ

/-- `bb_event_t::operator<`, the order of the tuple of timestamp, worker, node and sequence. -/
def BbEvent.lt (a b : BbEvent) : Bool :=
  if a.workTimestamp ≠ b.workTimestamp then a.workTimestamp < b.workTimestamp
  else if a.workerId ≠ b.workerId then a.workerId < b.workerId
  else if a.nodeId ≠ b.nodeId then a.nodeId < b.nodeId
  else a.eventSequence < b.eventSequence

def QueuedIntegerSolution.lt (a b : QueuedIntegerSolution) : Bool :=
  if a.objective ≠ b.objective then a.objective < b.objective
  else if a.workerId ≠ b.workerId then a.workerId < b.workerId
  else a.sequenceId < b.sequenceId

def heuristicLess (a b : QueuedIntegerSolution) : Bool :=
  if a.workTimestamp ≠ b.workTimestamp then a.workTimestamp < b.workTimestamp
  else if a.objective ≠ b.objective then a.objective < b.objective
  else a.solution < b.solution

def deterministicLess (tree : SearchTree) (a b : ℕ) : Bool :=
  let a := tree.node a
  let b := tree.node b
  if a.originWorkerId ≠ b.originWorkerId then a.originWorkerId < b.originWorkerId
  else a.creationSeq < b.creationSeq

structure Bounds where
  upperBound : WithTop ℚ
  incumbent : Option Incumbent
  deriving DecidableEq

def Bounds.offer (cfg : SolverConfig) (b : Bounds) (objective : ℚ) (solution : List ℚ) : Bounds :=
  if cfg.lattice.acceptNewIncumbent (b.incumbent.map Incumbent.objective) objective then
    ⟨min b.upperBound objective, some ⟨objective, solution⟩⟩
  else b

inductive ReplayItem
  | event (e : BbEvent)
  | heuristic (workTimestamp objective : ℚ) (solution : List ℚ)
  deriving DecidableEq

def QueuedIntegerSolution.toReplayItem (sol : QueuedIntegerSolution) : ReplayItem :=
  .heuristic sol.workTimestamp sol.objective sol.solution

def mergeEvent (e : BbEvent) (rest : List QueuedIntegerSolution → List ReplayItem) :
    List QueuedIntegerSolution → List ReplayItem
  | [] => .event e :: rest []
  | sol :: sols =>
    if e.workTimestamp ≤ sol.workTimestamp then .event e :: rest (sol :: sols)
    else sol.toReplayItem :: mergeEvent e rest sols

/-- Both lists in the order of their timestamps, an event before a solution of the same time. -/
def mergeReplay : List BbEvent → List QueuedIntegerSolution → List ReplayItem
  | [] => fun sols => sols.map QueuedIntegerSolution.toReplayItem
  | e :: events => mergeEvent e (mergeReplay events)

def replayItem (cfg : SolverConfig) (b : Bounds) : ReplayItem → Bounds
  | .event _ => b
  | .heuristic _ objective solution => b.offer cfg objective solution

def processWorkerSolutions (cfg : SolverConfig) (solutions : List (List QueuedIntegerSolution))
    (b : Bounds) : Bounds :=
  let all := cfg.std.sort QueuedIntegerSolution.lt solutions.flatten
  (all.foldl
    (fun (acc : Bounds × WithTop ℚ) sol =>
      if (sol.objective : WithTop ℚ) < acc.2 then
        if cfg.lattice.acceptNewIncumbent (acc.1.incumbent.map Incumbent.objective) sol.objective then
          (acc.1.offer cfg sol.objective sol.solution, sol.objective)
        else acc
      else acc)
    (b, b.upperBound)).1

def collectAndSortEvents (cfg : SolverConfig) (workers : List BfsWorker) :
    List BbEvent × List BfsWorker :=
  (cfg.std.sort BbEvent.lt (workers.flatMap BfsWorker.events),
    workers.map fun w => { w with events := [] })

/-- Offers the heuristic solutions of the replay as incumbents, takes over the workers' solutions and
merges the numerical ceilings. -/
def applyReplay (cfg : SolverConfig) (replay : List ReplayItem) (s : SolverState) : SolverState :=
  let b := replay.foldl (replayItem cfg) ⟨s.upperBound, s.incumbent⟩
  let b := processWorkerSolutions cfg (s.workers.map BfsWorker.integerSolutions) b
  { s with
    upperBound := b.upperBound
    incumbent := b.incumbent
    workers := s.workers.map fun w => { w with integerSolutions := [] }
    lowerBoundNumerical := s.workers.foldl (fun acc w => min acc w.localLowerBoundCeiling)
      s.lowerBoundNumerical }

/-- `deterministic_sort_replay_events`, with the replayed sequence. Solutions of later horizons stay
in the queue. -/
def sortReplayEvents (cfg : SolverConfig) (events : List BbEvent) (s : SolverState) :
    SolverState × List ReplayItem :=
  let heuristic := s.heuristicQueue.filter fun sol => sol.workTimestamp < s.currentHorizon
  let future := s.heuristicQueue.filter fun sol => ¬ sol.workTimestamp < s.currentHorizon
  let replay := mergeReplay events (cfg.std.sort heuristicLess heuristic)
  (applyReplay cfg replay { s with heuristicQueue := future }, replay)

def collectDivingSolutions (cfg : SolverConfig) (s : SolverState) : SolverState :=
  let b := processWorkerSolutions cfg s.divingSolutions ⟨s.upperBound, s.incumbent⟩
  { s with
    upperBound := b.upperBound
    incumbent := b.incumbent
    divingSolutions := s.divingSolutions.map fun _ => [] }

def dealNodes (workers : List BfsWorker) (i : ℕ) : List ℕ → List BfsWorker
  | [] => workers
  | n :: nodes =>
    dealNodes (workers.modify (i % workers.length) (BfsWorker.enqueueNode · n)) (i + 1) nodes

def balanceWorkerLoads (cfg : SolverConfig) (tree : SearchTree) (workers : List BfsWorker) :
    List BfsWorker :=
  if workers.length ≤ 1 then workers
  else
    let counts := workers.map BfsWorker.queueSize
    let maxWork := counts.foldl max 0
    let minWork := counts.foldl min (counts.headD 0)
    if counts.sum = 0 then workers
    else if (minWork = 0 ∧ 2 ≤ maxWork) ∨ (0 < minWork ∧ 4 * minWork < maxWork) then
      let all := workers.flatMap BfsWorker.backlog
      let workers := workers.map fun w => { w with backlog := [] }
      dealNodes workers 0 (cfg.std.sort (deterministicLess tree) all)
    else workers

def computeLowerBound (s : SolverState) : WithTop ℚ :=
  let bound := fun (acc : WithTop ℚ) n => min (s.tree.node n).lowerBound acc
  let lower := s.workers.foldl
    (fun acc w => w.backlog.foldl bound (w.plungeStack.foldl bound (w.currentNode.elim acc (bound acc))))
    s.lowerBoundNumerical
  if lower = ⊤ ∧ s.incumbent.isSome then s.upperBound else lower

/-- `deterministic_broadcast_snapshots`, as far as it reaches the best-first workers. -/
def broadcastSnapshots (s : SolverState) : SolverState :=
  { s with workers := s.workers.map fun w => { w with localUpperBound := s.upperBound } }

structure SyncResult where
  state : SolverState
  replayed : List ReplayItem
  lowerBound : WithTop ℚ

def finishSync (cfg : SolverConfig) (s : SolverState) : SolverState :=
  let s := collectDivingSolutions cfg s
  let s := { s with workers := balanceWorkerLoads cfg s.tree s.workers }
  broadcastSnapshots { s with currentHorizon := s.currentHorizon + cfg.horizonStep }

def syncCallback (cfg : SolverConfig) (s : SolverState) : SyncResult :=
  let (events, workers) := collectAndSortEvents cfg s.workers
  let (s, replayed) := sortReplayEvents cfg events { s with workers := workers }
  let s := finishSync cfg s
  ⟨s, replayed, computeLowerBound s⟩

end CuOpt.BranchAndBound
