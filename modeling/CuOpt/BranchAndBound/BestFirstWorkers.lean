import CuOpt.BranchAndBound.NodeQueue
import CuOpt.BranchAndBound.ObjectiveLattice
import CuOpt.BranchAndBound.SearchTree

/-! The best-first workers of branch and bound as processes on shared data. Each has its own node
queue and publishes a lower bound; an action is one atomic step of one worker, and the actions of
the workers interleave. -/

namespace CuOpt.BranchAndBound.BestFirst

inductive LaunchStage
  | preset
  | activate
  | steal
  | publish (success : Bool)
  | conclude (success : Bool)

/-- Where a worker stands in `plunge_with`, with the nodes it holds outside the stack. -/
inductive PlungePhase
  | loopHead
  | launching (target : ℕ) (stage : LaunchStage)
  | launched
  | taken (n : ℕ)
  | published (n : ℕ)
  | solving (n : ℕ)
  | branched (preferred sibling : ℕ)
  | evicted (preferred sibling : ℕ)
  | placing (preferred sibling : ℕ) (toQueue : Bool)
  | draining

/-- Where a worker stands in `best_first_search_with`. An idle worker is in the pool; a reserved one
was taken out of the pool by its launcher. The stack of a plunge has its front first. -/
inductive Phase
  | idle
  | reserved (launcher : ℕ)
  | loopHead
  | preset
  | popped (n : ℕ)
  | started (n : ℕ)
  | plunge (stack : List ℕ) (point : PlungePhase)
  | plunged
  | stealing (victim left : ℕ) (success : Bool)
  | leaving
  | retired
  | finished

structure BfsWorker where
  isActive : Bool
  lowerBound : WithTop ℚ
  nodeQueue : NodeQueue
  phase : Phase

def BfsWorker.isIdle (w : BfsWorker) : Bool :=
  match w.phase with
  | .idle => true
  | _ => false

structure SolverState where
  tree : SearchTree
  workers : List BfsWorker
  lowerBoundNumerical : WithTop ℚ
  upperBound : WithTop ℚ

structure SolverConfig where
  lattice : LatticeSettings
  absoluteMipGapTol : ℚ
  relativeMipGapTol : ℚ
  objScale : ℚ
  objConstant : ℚ
  rootObjective : Option ℚ
  minNodeQueueSize : ℕ
  nodesPerSteal : ℕ

namespace SolverState

def lowerBound (s : SolverState) (n : ℕ) : WithTop ℚ := (s.tree.node n).lowerBound

def put (s : SolverState) (i : ℕ) (w : BfsWorker) : SolverState :=
  { s with workers := s.workers.set i w }

end SolverState

/-- What `solve_node_lp` gave. A time, iteration or concurrent limit interrupts it; without a
branching direction the solution is integer. -/
inductive NodeLpResult
  | interrupted
  | dualUnbounded
  | cutoff
  | optimal (leafObj : ℚ) (fractional : Option BranchDirection)
  | numerical

/-- `update_tree`; the direction is that of a branching. -/
def updateTree (cfg : SolverConfig) (s : SolverState) (n : ℕ) (result : NodeLpResult) :
    SolverState × Option BranchDirection :=
  let absFathomTol := cfg.absoluteMipGapTol / 10
  match result with
  | .interrupted => (s, none)
  | .dualUnbounded =>
    ({ s with tree := (s.tree.setLowerBound n ⊤).setStatus n .infeasible }, none)
  | .cutoff =>
    ({ s with tree := (s.tree.setLowerBound n s.upperBound).setStatus n .fathomed }, none)
  | .optimal leafObj fractional =>
    let bound : WithTop ℚ := (cfg.lattice.snapToLattice leafObj : ℚ)
    let tree := s.tree.setLowerBound n bound
    match fractional with
    | none => ({ s with tree := tree.setStatus n .integerFeasible }, none)
    | some dir =>
      if bound ≤ s.upperBound + (absFathomTol : ℚ) then
        ({ s with tree := (tree.branch n).setStatus n .hasChildren }, some dir)
      else ({ s with tree := tree.setStatus n .fathomed }, none)
  | .numerical =>
    ({ s with
      tree := s.tree.setStatus n .numerical
      lowerBoundNumerical := min s.lowerBoundNumerical (s.lowerBound n) }, none)

inductive SearchAction
  | preset
  | pop (k : ℕ)
  | publish
  | start
  | nextRound
  | checkVictim (victim : ℕ)
  | steal (k : ℕ)
  | leave
  | retire
  | rejoin

/-- The steps of `best_first_search_with`, `work_stealing` and `return_worker_to_pool`. -/
def searchStep (cfg : SolverConfig) (s : SolverState) (i : ℕ) (w : BfsWorker) (a : SearchAction) :
    Option SolverState :=
  match a, w.phase with
  | .preset, .loopHead =>
    if 0 < w.nodeQueue.bestFirstQueueSize then
      some (s.put i { w with lowerBound := w.nodeQueue.getLowerBound, phase := .preset })
    else none
  | .pop k, .preset =>
    -- another worker may have emptied the queue since the preset
    if w.nodeQueue.bestFirstQueueSize = 0 then some (s.put i { w with phase := .loopHead })
    else
      match w.nodeQueue.popAt k with
      | none => none
      | some (entry, queue) =>
        some (s.put i { w with nodeQueue := queue, phase := .popped entry.node })
  | .publish, .popped n => some (s.put i { w with lowerBound := s.lowerBound n, phase := .started n })
  | .start, .started n =>
    if s.upperBound < s.lowerBound n then
      some ({ s with tree := s.tree.setStatus n .fathomed }.put i { w with phase := .loopHead })
    else some (s.put i { w with phase := .plunge [n] .loopHead })
  | .nextRound, .plunged => some (s.put i { w with phase := .loopHead })
  | .checkVictim victim, .plunged =>
    match s.workers[victim]? with
    | none => none
    | some v =>
      if victim ≠ i ∧ 1 ≤ cfg.nodesPerSteal ∧ v.isActive ∧
          2 * cfg.nodesPerSteal ≤ v.nodeQueue.bestFirstQueueSize then
        some (s.put i { w with phase := .stealing victim cfg.nodesPerSteal false })
      else none
  | .steal k, .stealing victim (left + 1) success =>
    match s.workers[victim]? with
    | none => none
    | some v =>
      if victim = i then none
      else
        match w.nodeQueue.stealRound s.lowerBound cfg.nodesPerSteal v.nodeQueue k with
        | none => none
        | some (queue, victimQueue, stolen) =>
          some ((s.put victim { v with nodeQueue := victimQueue }).put i
            { w with nodeQueue := queue
                     phase := .stealing victim (if stolen then left else 0) (success || stolen) })
  | .steal _, .stealing _ 0 success =>
    some (s.put i { w with phase := if success then .loopHead else .plunged })
  | .leave, .loopHead => some (s.put i { w with phase := .leaving })
  | .leave, .plunged => some (s.put i { w with phase := .leaving })
  | .retire, .leaving =>
    if w.nodeQueue.bestFirstQueueSize = 0 then
      some (s.put i { w with isActive := false, phase := .retired })
    else some (s.put i { w with phase := .finished })
  | .rejoin, .retired => some (s.put i { w with phase := .idle })
  | _, _ => none

/-- The steps of `launch_bfs_worker` of worker `i`, whose plunge stack is `stack`. The pool takes a
target back that got no node. -/
def launchStep (s : SolverState) (i : ℕ) (w : BfsWorker) (stack : List ℕ) (target : ℕ)
    (v : BfsWorker) (k : ℕ) : LaunchStage → Option SolverState
  | .preset =>
    some ((s.put target { v with lowerBound := w.nodeQueue.getLowerBound }).put i
      { w with phase := .plunge stack (.launching target .activate) })
  | .activate =>
    some ((s.put target { v with isActive := true }).put i
      { w with phase := .plunge stack (.launching target .steal) })
  | .steal =>
    match v.nodeQueue.stealRound s.lowerBound 1 w.nodeQueue k with
    | none => none
    | some (queue, victimQueue, success) =>
      some ((s.put target { v with nodeQueue := queue }).put i
        { w with nodeQueue := victimQueue
                 phase := .plunge stack (.launching target (.publish success)) })
  | .publish success =>
    some ((s.put target { v with lowerBound := v.nodeQueue.getLowerBound }).put i
      { w with phase := .plunge stack (.launching target (.conclude success)) })
  | .conclude success =>
    let v := if success then { v with phase := .loopHead }
      else { v with isActive := false, phase := .retired }
    some ((s.put target v).put i { w with phase := .plunge stack .launched })

inductive PlungeAction
  | launch (target : ℕ)
  | advanceLaunch (k : ℕ)
  | take
  | publish
  | examine
  | halt
  | finish (result : NodeLpResult)
  | evict
  | measure
  | place
  | stop
  | drain

def plungeStep (cfg : SolverConfig) (s : SolverState) (i : ℕ) (w : BfsWorker) (stack : List ℕ)
    (a : PlungeAction) (point : PlungePhase) : Option SolverState :=
  let goto (stack : List ℕ) (point : PlungePhase) := s.put i { w with phase := .plunge stack point }
  match a, point with
  | .launch target, .loopHead =>
    match s.workers[target]? with
    | none => none
    | some v =>
      if v.isIdle ∧ 0 < w.nodeQueue.bestFirstQueueSize then
        some ((s.put target { v with phase := .reserved i }).put i
          { w with phase := .plunge stack (.launching target .preset) })
      else none
  | .advanceLaunch k, .launching target stage =>
    match s.workers[target]? with
    | none => none
    | some v => launchStep s i w stack target v k stage
  | .take, .loopHead =>
    match stack with
    | [] => none
    | n :: rest => some (goto rest (.taken n))
  | .take, .launched =>
    match stack with
    | [] => none
    | n :: rest => some (goto rest (.taken n))
  | .publish, .taken n =>
    some (s.put i { w with lowerBound := s.lowerBound n, phase := .plunge stack (.published n) })
  | .examine, .published n =>
    if s.upperBound < s.lowerBound n then
      some ({ s with tree := s.tree.setStatus n .fathomed }.put i
        { w with phase := .plunge stack .loopHead })
    else some (goto stack (.solving n))
  | .halt, .solving n => some (goto (n :: stack) .draining)
  | .finish .interrupted, .solving n => some (goto (n :: stack) .draining)
  | .finish result, .solving n =>
    let (s', dir) := updateTree cfg s n result
    let point := match dir with
      | none => PlungePhase.loopHead
      | some .up => .branched (s.tree.numNodes + 1) s.tree.numNodes
      | some .down => .branched s.tree.numNodes (s.tree.numNodes + 1)
    some (s'.put i { w with phase := .plunge stack point })
  | .evict, .branched preferred sibling =>
    -- the sibling of the branched node gives way to the children
    match stack.getLast? with
    | none => some (goto stack (.evicted preferred sibling))
    | some oldest =>
      some (s.put i { w with
        nodeQueue := w.nodeQueue.push oldest (s.lowerBound oldest)
        phase := .plunge stack.dropLast (.evicted preferred sibling) })
  | .measure, .evicted preferred sibling =>
    some (goto stack (.placing preferred sibling
      (w.nodeQueue.bestFirstQueueSize < cfg.minNodeQueueSize)))
  | .place, .placing preferred sibling toQueue =>
    if toQueue then
      some (s.put i { w with
        nodeQueue := w.nodeQueue.push sibling (s.lowerBound sibling)
        phase := .plunge (preferred :: stack) .loopHead })
    else some (goto (preferred :: sibling :: stack) .loopHead)
  | .stop, .loopHead => some (goto stack .draining)
  | .drain, .draining =>
    match stack with
    | n :: rest =>
      some (s.put i { w with
        nodeQueue := w.nodeQueue.push n (s.lowerBound n)
        phase := .plunge rest .draining })
    | [] => some (s.put i { w with lowerBound := ⊤, phase := .plunged })
  | _, _ => none

inductive Action
  | search (i : ℕ) (a : SearchAction)
  | plunge (i : ℕ) (a : PlungeAction)
  | incumbent (objective : ℚ)

def step (cfg : SolverConfig) (s : SolverState) : Action → Option SolverState
  | .search i a =>
    match s.workers[i]? with
    | none => none
    | some w => searchStep cfg s i w a
  | .plunge i a =>
    match s.workers[i]? with
    | none => none
    | some w =>
      match w.phase with
      | .plunge stack point => plungeStep cfg s i w stack a point
      | _ => none
  | .incumbent objective => some { s with upperBound := min s.upperBound objective }

def initialState (numWorkers : ℕ) (rootBound upperBound : WithTop ℚ) : SolverState :=
  let tree : SearchTree := ⟨fun n => ⟨rootBound, if n = 0 then .hasChildren else .pending,
    if n = 0 then 0 else 1, -1, n - 1⟩, 3⟩
  let queue := (NodeQueue.empty.push 1 rootBound).push 2 rootBound
  let initialWorker : BfsWorker := ⟨true, queue.getLowerBound, queue, .loopHead⟩
  ⟨tree, initialWorker :: List.replicate (numWorkers - 1) ⟨false, ⊤, .empty, .idle⟩, ⊤, upperBound⟩

end CuOpt.BranchAndBound.BestFirst
