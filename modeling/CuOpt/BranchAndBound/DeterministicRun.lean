import CuOpt.BranchAndBound.DeterministicSync

/-! Runs of deterministic branch and bound. Between syncs the workers act in any interleaving; in
every reachable state each open node is in one container of one worker, and the bound computed at a
sync is the smallest bound of the nodes that are open or were given up. -/

namespace CuOpt.BranchAndBound

open Sorting List
open Function (update_of_ne)
open BfsWorker (enqueueChildrenForPlunge enqueueNode localLowerBoundCeiling)
open List (Perm)

/-- `beginNode` and `finishNode` are the two halves of a worker's loop body; `arrive` queues a
heuristic solution and `dive` a solution of diving worker `i`. -/
inductive Action
  | beginNode (i : ℕ)
  | finishNode (i : ℕ) (result : NodeResult)
  | arrive (objective : ℚ) (solution : List ℚ) (workTimestamp : ℚ)
  | dive (i : ℕ) (sol : QueuedIntegerSolution)
  | sync

def workerStep (s : SolverState) (i : ℕ)
    (f : SearchTree → BfsWorker → Option (SearchTree × BfsWorker)) : Option SolverState :=
  match s.workers[i]? with
  | none => none
  | some w => (f s.tree w).map fun r => { s with tree := r.1, workers := s.workers.set i r.2 }

def step (cfg : SolverConfig) (s : SolverState) : Action → Option SolverState
  | .beginNode i => workerStep s i beginNode
  | .finishNode i result => workerStep s i fun tree w => finishNode cfg tree w result
  | .arrive objective solution workTimestamp =>
    some { s with
      heuristicQueue := s.heuristicQueue ++ [⟨objective, solution, 0, -1, 0, workTimestamp⟩] }
  | .dive i sol => some { s with divingSolutions := s.divingSolutions.modify i (· ++ [sol]) }
  | .sync => some (syncCallback cfg s).state

def initialState (numWorkers numDiving : ℕ) (rootBound upperBound : WithTop ℚ)
    (incumbent : Option Incumbent) : SolverState :=
  let tree : SearchTree := ⟨fun n => ⟨rootBound, if n = 0 then .hasChildren else .pending,
    if n = 0 then 0 else 1, -1, n - 1⟩, 3⟩
  let workers := (range numWorkers).map fun i =>
    (⟨i, 0, upperBound, [], 0, [], [], none, false, [], 0, 0, ⊤⟩ : BfsWorker)
  let workers := workers.modify 0 (enqueueNode · 1)
  let workers := workers.modify (1 % numWorkers) (enqueueNode · 2)
  ⟨tree, workers, replicate numDiving [], [], ⊤, upperBound, incumbent, 0⟩

inductive Reachable (cfg : SolverConfig) : SolverState → Prop
  | initial (numWorkers numDiving : ℕ) (hpos : 0 < numWorkers) (rootBound upperBound : WithTop ℚ)
      (incumbent : Option Incumbent) :
      Reachable cfg (initialState numWorkers numDiving rootBound upperBound incumbent)
  | step {s s' : SolverState} (action : Action) (hs : Reachable cfg s)
      (hstep : step cfg s action = some s') : Reachable cfg s'

inductive Slot
  | currentNode
  | plungeStack
  | backlog
  deriving DecidableEq

namespace BfsWorker

def slot (w : BfsWorker) : Slot → List ℕ
  | .currentNode => w.currentNode.toList
  | .plungeStack => w.plungeStack
  | .backlog => w.backlog

def held (w : BfsWorker) : List ℕ := w.currentNode.toList ++ w.plungeStack ++ w.backlog

end BfsWorker

namespace SolverState

def container (s : SolverState) (place : ℕ × Slot) : List ℕ :=
  match s.workers[place.1]? with
  | none => []
  | some w => w.slot place.2

def held (s : SolverState) : List ℕ := s.workers.flatMap BfsWorker.held

end SolverState

inductive WorkerEffect (tree : SearchTree) (w : BfsWorker) : SearchTree → BfsWorker → Prop
  | move {w' : BfsWorker} (hheld : w'.held.Perm w.held)
      (hceiling : w'.localLowerBoundCeiling = w.localLowerBoundCeiling) : WorkerEffect tree w tree w'
  | close {tree' : SearchTree} {w' : BfsWorker} (n : ℕ) (hheld : (n :: w'.held).Perm w.held)
      (hnum : tree'.numNodes = tree.numNodes) (hsame : SameExcept tree tree' n)
      (hopen : (tree'.node n).status ≠ .pending) (hgiven : (tree'.node n).status ≠ .numerical)
      (hceiling : w'.localLowerBoundCeiling = w.localLowerBoundCeiling) :
      WorkerEffect tree w tree' w'
  | giveUp {tree' : SearchTree} {w' : BfsWorker} (n : ℕ) (hheld : (n :: w'.held).Perm w.held)
      (hnum : tree'.numNodes = tree.numNodes) (hsame : SameExcept tree tree' n)
      (hstatus : (tree'.node n).status = .numerical)
      (hbound : (tree'.node n).lowerBound = (tree.node n).lowerBound)
      (hceiling : w'.localLowerBoundCeiling =
        min (tree.node n).lowerBound w.localLowerBoundCeiling) :
      WorkerEffect tree w tree' w'
  | branch {tree' : SearchTree} {w' : BfsWorker} (n : ℕ) (hn : n < tree.numNodes)
      (hheld : (n :: w'.held).Perm ([tree.numNodes, tree.numNodes + 1] ++ w.held))
      (hnum : tree'.numNodes = tree.numNodes + 2) (hsame : SameExcept tree tree' n)
      (hstatus : (tree'.node n).status = .hasChildren)
      (hdown : (tree'.node tree.numNodes).status = .pending)
      (hup : (tree'.node (tree.numNodes + 1)).status = .pending)
      (hceiling : w'.localLowerBoundCeiling = w.localLowerBoundCeiling) :
      WorkerEffect tree w tree' w'

section Effects

variable {tree tree' : SearchTree} {w w' : BfsWorker} {n : ℕ}

@[simp] lemma recordEvent_held (id : ℕ) (p : EventPayload) : (w.recordEvent id p).held = w.held :=
  rfl

lemma WorkerEffect.of_held_eq {w₁ : BfsWorker} (h : WorkerEffect tree w₁ tree' w')
    (hheld : w₁.held = w.held) (hceiling : w₁.localLowerBoundCeiling = w.localLowerBoundCeiling) :
    WorkerEffect tree w tree' w' := by
  cases h with
  | move h₁ h₂ => exact .move (hheld ▸ h₁) (hceiling ▸ h₂)
  | close n h₁ hnum hsame hopen hgiven h₂ =>
    exact .close n (hheld ▸ h₁) hnum hsame hopen hgiven (hceiling ▸ h₂)
  | giveUp n h₁ hnum hsame hstatus hbound h₂ =>
    exact .giveUp n (hheld ▸ h₁) hnum hsame hstatus hbound (hceiling ▸ h₂)
  | branch n hn h₁ hnum hsame hstatus hdown hup h₂ =>
    exact .branch n hn (hheld ▸ h₁) hnum hsame hstatus hdown hup (hceiling ▸ h₂)

lemma handleIntegerSolution_held (w : BfsWorker) (depth : ℕ) (obj : ℚ) (x : List ℚ) :
    (w.handleIntegerSolution depth obj x).held = w.held ∧
      (w.handleIntegerSolution depth obj x).localLowerBoundCeiling = w.localLowerBoundCeiling ∧
      (w.handleIntegerSolution depth obj x).currentNode = w.currentNode := by
  unfold BfsWorker.handleIntegerSolution
  split_ifs
  · exact ⟨rfl, rfl, rfl⟩
  · exact ⟨rfl, rfl, rfl⟩

lemma dequeueNode_held {w w' : BfsWorker} (h : w.dequeueNode tree = some (n, w')) :
    (n :: w'.held).Perm w.held ∧ w'.currentNode = none ∧
      w'.localLowerBoundCeiling = w.localLowerBoundCeiling := by
  unfold BfsWorker.dequeueNode at h
  cases hcur : w.currentNode with
  | some m =>
    rw [hcur] at h
    cases h
    refine ⟨?_, rfl, rfl⟩
    rw [BfsWorker.held, BfsWorker.held, hcur]
    exact .refl _
  | none =>
    rw [hcur] at h
    cases hstack : w.plungeStack with
    | cons m rest =>
      rw [hstack] at h
      cases h
      refine ⟨?_, rfl, rfl⟩
      simp only [BfsWorker.held, hcur, hstack]
      exact .refl _
    | nil =>
      rw [hstack] at h
      cases hpop : popTop (backlogNodeCompare tree) w.backlog with
      | none =>
        rw [hpop] at h
        cases h
      | some p =>
        obtain ⟨m, rest⟩ := p
        rw [hpop] at h
        cases h
        refine ⟨?_, rfl, rfl⟩
        simp only [BfsWorker.held, hcur, hstack]
        exact (popTop_perm _ hpop).symm

lemma beginNode_effect (h : beginNode tree w = some (tree', w')) :
    WorkerEffect tree w tree' w' := by
  unfold beginNode at h
  split_ifs at h
  cases hdeq : w.dequeueNode tree with
  | none =>
    rw [hdeq] at h
    cases h
  | some p =>
    obtain ⟨n, w₁⟩ := p
    obtain ⟨hheld, hcur, hceiling⟩ := dequeueNode_held hdeq
    rw [hdeq] at h
    simp only at h
    split_ifs at h
    · cases h
      have hnone : { w₁ with currentNode := none } = w₁ := by rw [← hcur]
      apply WorkerEffect.close n
      · rwa [recordEvent_held, hnone]
      · rfl
      · exact sameExcept_setStatus _
      · rw [setStatus_status]
        decide
      · rw [setStatus_status]
        decide
      · exact hceiling
    · cases h
      apply WorkerEffect.move
      · have hmoved : ({ w₁ with currentNode := some n, solving := true } : BfsWorker).held =
            n :: w₁.held := by
          simp only [BfsWorker.held, hcur]
          rfl
        rwa [hmoved]
      · exact hceiling

/-- Leaving the current node: everything else stays where it is. -/
lemma held_of_current (hcur : w.currentNode = some n) (hstack : w'.plungeStack = w.plungeStack)
    (hbacklog : w'.backlog = w.backlog) (hnone : w'.currentNode = none) :
    (n :: w'.held).Perm w.held := by
  simp only [BfsWorker.held, hcur, hnone, hstack, hbacklog]
  exact .refl _

lemma enqueueChildrenForPlunge_held (w : BfsWorker) (tree : SearchTree) (down up : ℕ)
    (dir : BranchDirection) :
    (w.enqueueChildrenForPlunge tree down up dir).2.held.Perm ([down, up] ++ w.held) := by
  -- the oldest node only moves from the stack to the backlog
  have hmoved : ∃ stack backlog, (stack ++ backlog).Perm (w.plungeStack ++ w.backlog) ∧
      (w.enqueueChildrenForPlunge tree down up dir).2.backlog = backlog ∧
      (w.enqueueChildrenForPlunge tree down up dir).2.plungeStack.Perm ([down, up] ++ stack) := by
    rcases eq_nil_or_concat w.plungeStack with hnil | ⟨init, last, hlast⟩
    · refine ⟨[], w.backlog, by rw [hnil], ?_, ?_⟩
      · simp only [enqueueChildrenForPlunge, hnil, getLast?_nil]
      · simp only [enqueueChildrenForPlunge, hnil, getLast?_nil]
        cases dir with
        | up => exact Perm.swap down up []
        | down => exact .refl _
    · refine ⟨init, w.backlog ++ [last], ?_, ?_, ?_⟩
      · rw [hlast, concat_eq_append, append_assoc]
        exact Perm.append_left init perm_append_comm
      · simp only [enqueueChildrenForPlunge, hlast, concat_eq_append,
          getLast?_append, getLast?_singleton, Option.some_or]
      · simp only [enqueueChildrenForPlunge, hlast, concat_eq_append,
          getLast?_append, getLast?_singleton, Option.some_or, dropLast_concat]
        cases dir with
        | up => exact Perm.swap down up init
        | down => exact .refl _
  obtain ⟨stack, backlog, hperm, hbacklog, hstack⟩ := hmoved
  have hcurrent : (w.enqueueChildrenForPlunge tree down up dir).2.currentNode = w.currentNode := rfl
  have hfront : ((w.enqueueChildrenForPlunge tree down up dir).2.plungeStack ++ backlog).Perm
      ([down, up] ++ (w.plungeStack ++ w.backlog)) := by
    have happend := hstack.append_right backlog
    rw [append_assoc] at happend
    exact happend.trans (Perm.append_left _ hperm)
  simp only [BfsWorker.held, hcurrent, hbacklog, append_assoc]
  exact (Perm.append_left _ hfront).trans (perm_append_comm_assoc _ _ _)

lemma branch_tree (w : BfsWorker) (hn : n < tree.numNodes) (dir : BranchDirection)
    (bound : WithTop ℚ) :
    let tree₁ := tree.setLowerBound n bound
    let tree' := (w.enqueueChildrenForPlunge ((tree₁.branch n).setStatus n .hasChildren)
      tree.numNodes (tree.numNodes + 1) dir).1
    tree'.numNodes = tree.numNodes + 2 ∧ SameExcept tree tree' n ∧
      (tree'.node n).status = .hasChildren ∧ (tree'.node tree.numNodes).status = .pending ∧
      (tree'.node (tree.numNodes + 1)).status = .pending := by
  intro tree₁ tree'
  have hnode : ∀ m, (tree'.node m).status =
      (((tree₁.branch n).setStatus n .hasChildren).node m).status ∧ (tree'.node m).lowerBound =
      (((tree₁.branch n).setStatus n .hasChildren).node m).lowerBound := by
    intro m
    simp only [tree', enqueueChildrenForPlunge, SearchTree.modify, Function.update_apply]
    split_ifs <;> simp_all
  refine ⟨rfl, fun m hm hne => ?_, ?_, ?_, ?_⟩
  · have hdown : m ≠ tree.numNodes := by omega
    have hup : m ≠ tree.numNodes + 1 := by omega
    rw [(hnode m).1, (hnode m).2]
    simp only [SearchTree.setStatus, SearchTree.branch, tree₁, SearchTree.setLowerBound,
      SearchTree.modify, update_of_ne hne, update_of_ne hup,
      update_of_ne hdown, and_self]
  · rw [(hnode n).1, setStatus_status]
  · rw [(hnode _).1, SearchTree.setStatus, modify_node_of_ne (by omega)]
    simp [SearchTree.branch, tree₁, SearchTree.setLowerBound, SearchTree.modify]
  · rw [(hnode _).1, SearchTree.setStatus, modify_node_of_ne (by omega)]
    simp [SearchTree.branch, tree₁, SearchTree.setLowerBound, SearchTree.modify]

/-- What `updateTree` leaves for the loop body: a pending node is kept, any other one is dropped. -/
def dropCurrent (r : SearchTree × BfsWorker × NodeStatus) : SearchTree × BfsWorker :=
  if r.2.2 = .pending then (r.1, { r.2.1 with solving := false })
  else (r.1, { r.2.1 with solving := false, currentNode := none })

lemma dropCurrent_close (status : NodeStatus) (hheld : w'.held = w.held) (hcur' : w'.currentNode = some n)
    (hceiling : w'.localLowerBoundCeiling = w.localLowerBoundCeiling) (bound : WithTop ℚ)
    (hopen : status ≠ .pending) (hgiven : status ≠ .numerical) :
    WorkerEffect tree w (dropCurrent ((tree.setLowerBound n bound).setStatus n status, w', status)).1
      (dropCurrent ((tree.setLowerBound n bound).setStatus n status, w', status)).2 := by
  rw [dropCurrent, if_neg hopen]
  apply WorkerEffect.close n
  · have hdrop : (n :: ({ w' with solving := false, currentNode := none } : BfsWorker).held).Perm
        w'.held := held_of_current hcur' rfl rfl rfl
    rwa [← hheld]
  · rfl
  · exact sameExcept_close bound status
  · rwa [setStatus_status]
  · rwa [setStatus_status]
  · exact hceiling

lemma updateTree_effect (cfg : SolverConfig) (hn : n < tree.numNodes)
    (hcur : w.currentNode = some n) (result : LpResult) :
    WorkerEffect tree w (dropCurrent (updateTree cfg tree w n result)).1
      (dropCurrent (updateTree cfg tree w n result)).2 := by
  cases result with
  | dualUnbounded =>
    refine dropCurrent_close .infeasible ?_ ?_ ?_ ⊤ (by decide) (by decide)
    all_goals first | rfl | exact hcur
  | cutoff =>
    refine dropCurrent_close .fathomed ?_ ?_ ?_ w.localUpperBound (by decide) (by decide)
    all_goals first | rfl | exact hcur
  | timeLimit | workLimit => exact .move (.refl _) rfl
  | numerical =>
    apply WorkerEffect.giveUp n
    · exact held_of_current hcur rfl rfl rfl
    · rfl
    · exact sameExcept_setStatus .numerical
    · exact setStatus_status .numerical
    · change ((tree.setStatus n .numerical).node n).lowerBound = (tree.node n).lowerBound
      rw [SearchTree.setStatus, modify_node_self]
    · rfl
  | optimal leafObj x fractional =>
    cases fractional with
    | none =>
      obtain ⟨hheld, hceiling, hcur'⟩ :=
        handleIntegerSolution_held w ((tree.setLowerBound n _).node n).depth leafObj x
      refine dropCurrent_close .integerFeasible ?_ ?_ ?_ _ (by decide) (by decide)
      · exact hheld
      · exact hcur'.trans hcur
      · exact hceiling
    | some choice =>
      obtain ⟨branchVar, branchValue, dir⟩ := choice
      simp only [updateTree]
      split_ifs with hbranch
      · obtain ⟨hnum, hsame, hstatus, hdown, hup⟩ := branch_tree (w.recordEvent
          (tree.node n).creationSeq (.branched tree.numNodes (tree.numNodes + 1)
            (cfg.lattice.snapToLattice leafObj : ℚ) branchVar branchValue)) hn dir
          (cfg.lattice.snapToLattice leafObj : ℚ)
        apply WorkerEffect.branch n hn _ hnum hsame hstatus hdown hup
        · rfl
        · have hchildren := enqueueChildrenForPlunge_held (w := w.recordEvent
            (tree.node n).creationSeq (.branched tree.numNodes (tree.numNodes + 1)
              (cfg.lattice.snapToLattice leafObj : ℚ) branchVar branchValue))
            (((tree.setLowerBound n (cfg.lattice.snapToLattice leafObj : ℚ)).branch n).setStatus n
              .hasChildren) tree.numNodes (tree.numNodes + 1) dir
          refine Perm.trans ?_ hchildren
          exact held_of_current hcur rfl rfl rfl
      · refine dropCurrent_close .fathomed ?_ ?_ ?_ _ (by decide) (by decide)
        all_goals first | rfl | exact hcur

lemma finishNode_effect {cfg : SolverConfig} {result : NodeResult}
    (hopen : ∀ n ∈ w.held, n < tree.numNodes) (h : finishNode cfg tree w result = some (tree', w')) :
    WorkerEffect tree w tree' w' := by
  unfold finishNode at h
  cases hsolving : w.solving with
  | false =>
    rw [hsolving] at h
    cases h
  | true =>
    cases hcur : w.currentNode with
    | none =>
      rw [hsolving, hcur] at h
      cases h
    | some n =>
      have hn : n < tree.numNodes := hopen n (by simp [BfsWorker.held, hcur])
      rw [hsolving, hcur] at h
      have hdrop : some (dropCurrent (solveNodeDeterministic cfg tree w n result)) =
          some (tree', w') := by
        simp only at h
        rw [← h, dropCurrent]
        split_ifs <;> rfl
      obtain ⟨rfl, rfl⟩ := Prod.mk.inj (Option.some.inj hdrop)
      cases result with
      | boundsInfeasible =>
        refine dropCurrent_close .infeasible ?_ ?_ ?_ ⊤ (by decide) (by decide)
        all_goals first | rfl | exact hcur
      | outOfTime => exact .move (.refl _) rfl
      | relaxation work lp =>
        have hclock : ({ w with clock := w.clock + work } : BfsWorker).currentNode = some n := hcur
        exact (updateTree_effect cfg hn hclock lp).of_held_eq rfl rfl

end Effects

/-- Each open node is held once, and the numerical ceilings say what the given up nodes say. -/
structure Inv (s : SolverState) : Prop where
  custody : Custody.Exact s.held s.tree.IsOpen
  ceiling : ∀ b, (b ≤ s.lowerBoundNumerical ∧ ∀ w ∈ s.workers, b ≤ w.localLowerBoundCeiling) ↔
    ∀ n < s.tree.numNodes, (s.tree.node n).status = .numerical → b ≤ (s.tree.node n).lowerBound

lemma forall_mem_split {α : Type*} {l l₁ l₂ : List α} {a : α} (h : l = l₁ ++ a :: l₂)
    (p : α → Prop) : (∀ x ∈ l, p x) ↔ p a ∧ ∀ x ∈ l₁ ++ l₂, p x := by
  simp only [h, mem_append, mem_cons, or_imp, forall_and, forall_eq]
  exact and_left_comm

section WorkerSteps

variable {s : SolverState} {tree' : SearchTree} {w w' : BfsWorker} {i : ℕ}

lemma Inv.workerEffect (h : Inv s) (hw : s.workers[i]? = some w)
    (heffect : WorkerEffect s.tree w tree' w') :
    Inv { s with tree := tree', workers := s.workers.set i w' } := by
  obtain ⟨hi, rfl⟩ := List.getElem?_eq_some_iff.mp hw
  obtain ⟨l₁, l₂, hsplit, -, hset⟩ : ∃ l₁ l₂, s.workers = l₁ ++ s.workers[i] :: l₂ ∧
      l₁.length = i ∧ s.workers.set i w' = l₁ ++ w' :: l₂ := exists_of_set hi
  set w := s.workers[i]
  set s' : SolverState := { s with tree := tree', workers := s.workers.set i w' } with hs'
  have hheld : s.held.Perm (w.held ++ (l₁ ++ l₂).flatMap BfsWorker.held) :=
    Custody.flatMap_perm_of_split hsplit _
  have hheld' : s'.held.Perm (w'.held ++ (l₁ ++ l₂).flatMap BfsWorker.held) :=
    Custody.flatMap_perm_of_split hset _
  have hceil : ∀ b, (∀ x ∈ s.workers, b ≤ x.localLowerBoundCeiling) ↔
      b ≤ w.localLowerBoundCeiling ∧ ∀ x ∈ l₁ ++ l₂, b ≤ x.localLowerBoundCeiling :=
    fun b => forall_mem_split hsplit _
  have hceil' : ∀ b, (∀ x ∈ s'.workers, b ≤ x.localLowerBoundCeiling) ↔
      b ≤ w'.localLowerBoundCeiling ∧ ∀ x ∈ l₁ ++ l₂, b ≤ x.localLowerBoundCeiling :=
    fun b => forall_mem_split hset _
  have hopenHeld : ∀ n, (n :: w'.held).Perm w.held → s.tree.IsOpen n ∧
      (n :: s'.held).Perm s.held := by
    intro n hn
    have hperm : (n :: s'.held).Perm s.held :=
      (hheld'.cons n).trans ((hn.append_right _).trans hheld.symm)
    exact ⟨(h.custody.mem_iff n).mp (hperm.mem_iff.mp mem_cons_self), hperm⟩
  cases heffect with
  | move hmove hsame =>
    refine ⟨h.custody.perm ?_, fun b => ?_⟩
    · exact hheld'.trans ((hmove.append_right _).trans hheld.symm)
    · rw [hceil', hsame, ← hceil]
      exact h.ceiling b
  | close n hclose hnum hsame hopen hgiven hkeep =>
    obtain ⟨⟨hn, hpending⟩, hperm⟩ := hopenHeld n hclose
    refine ⟨h.custody.release hperm fun m => ?_, fun b => ?_⟩
    · exact isOpen_close hnum hsame hopen m
    · rw [hceil', hkeep, ← hceil]
      refine (h.ceiling b).trans (forall_congr' fun m => ?_)
      change (m < s.tree.numNodes → _) ↔ (m < tree'.numNodes →
        (tree'.node m).status = .numerical → b ≤ (tree'.node m).lowerBound)
      rw [hnum]
      refine forall_congr' fun hm => ?_
      rcases eq_or_ne m n with rfl | hne
      · simp only [hpending, hgiven, reduceCtorEq, false_imp_iff]
      · rw [(hsame m hm hne).1, (hsame m hm hne).2]
  | giveUp n hclose hnum hsame hstatus hbound hnew =>
    obtain ⟨⟨hn, hpending⟩, hperm⟩ := hopenHeld n hclose
    have hopen : (tree'.node n).status ≠ .pending := by
      rw [hstatus]
      decide
    refine ⟨h.custody.release hperm fun m => isOpen_close hnum hsame hopen m, fun b => ?_⟩
    rw [hceil', hnew, le_min_iff]
    have hold := h.ceiling b
    rw [hceil] at hold
    constructor
    · rintro ⟨hb, ⟨hbn, hbw⟩, hrest⟩ m hm hnumerical
      change m < tree'.numNodes at hm
      rw [hnum] at hm
      rcases eq_or_ne m n with rfl | hne
      · exact hbn.trans_eq hbound.symm
      · rw [(hsame m hm hne).1] at hnumerical
        rw [(hsame m hm hne).2]
        exact hold.mp ⟨hb, hbw, hrest⟩ m hm hnumerical
    · intro hall
      have hbefore := hold.mpr fun m hm hnumerical => by
        have hne : m ≠ n := by
          rintro rfl
          rw [hpending] at hnumerical
          cases hnumerical
        rw [← (hsame m hm hne).1] at hnumerical
        rw [← (hsame m hm hne).2]
        exact hall m (hnum.symm ▸ hm) hnumerical
      have hbn := hall n (hnum.symm ▸ hn) hstatus
      exact ⟨hbefore.1, ⟨hbn.trans_eq hbound, hbefore.2.1⟩, hbefore.2.2⟩
  | branch n hn hbranch hnum hsame hstatus hdown hup hkeep =>
    set new := [s.tree.numNodes, s.tree.numNodes + 1] with hnew
    have hperm : (n :: s'.held).Perm (new ++ s.held) := by
      have happend := (hheld'.cons n).trans (hbranch.append_right _)
      rw [append_assoc] at happend
      exact happend.trans (Perm.append_left _ hheld.symm)
    have hmemHeld : n ∈ s.held := by
      rcases mem_append.mp (hperm.mem_iff.mp mem_cons_self) with hin | hin
      · simp only [hnew, mem_cons, not_mem_nil, or_false] at hin
        omega
      · exact hin
    have hpending : (s.tree.node n).status = .pending := ((h.custody.mem_iff n).mp hmemHeld).2
    refine ⟨custody_branch h.custody hn hperm hnum hsame hstatus hdown hup, fun b => ?_⟩
    · rw [hceil', hkeep, ← hceil]
      refine (h.ceiling b).trans (forall_congr' fun m => ?_)
      change (m < s.tree.numNodes → _) ↔ (m < tree'.numNodes →
        (tree'.node m).status = .numerical → b ≤ (tree'.node m).lowerBound)
      rw [hnum]
      rcases Nat.lt_or_ge m s.tree.numNodes with hm | hm
      · have hlt : m < s.tree.numNodes + 2 := by omega
        rcases eq_or_ne m n with rfl | hne
        · simp [hpending, hstatus]
        · simp [hm, hlt, (hsame m hm hne).1, (hsame m hm hne).2]
      · constructor
        · intro _ hlt hnumerical
          have hfresh : m = s.tree.numNodes ∨ m = s.tree.numNodes + 1 := by omega
          rcases hfresh with rfl | rfl
          · rw [hdown] at hnumerical
            cases hnumerical
          · rw [hup] at hnumerical
            cases hnumerical
        · intro _ hlt
          omega

end WorkerSteps

section Sync

variable (cfg : SolverConfig)

lemma enqueueNode_held (w : BfsWorker) (n : ℕ) : (w.enqueueNode n).held.Perm (n :: w.held) := by
  simp only [BfsWorker.held, enqueueNode, append_assoc]
  exact perm_middle

lemma modify_enqueueNode_held {workers : List BfsWorker} {i : ℕ} (hi : i < workers.length) (n : ℕ) :
    ((workers.modify i (enqueueNode · n)).flatMap BfsWorker.held).Perm
      (n :: workers.flatMap BfsWorker.held) := by
  obtain ⟨l₁, w, l₂, hsplit, -, hmodify⟩ := exists_of_modify (enqueueNode · n) hi
  have hnew := Custody.flatMap_perm_of_split hmodify BfsWorker.held
  have hold := Custody.flatMap_perm_of_split hsplit BfsWorker.held
  have henqueue := (enqueueNode_held w n).append_right ((l₁ ++ l₂).flatMap BfsWorker.held)
  exact hnew.trans (henqueue.trans (hold.symm.cons n))

lemma dealNodes_held {workers : List BfsWorker} (hne : workers ≠ []) (i : ℕ) (nodes : List ℕ) :
    ((dealNodes workers i nodes).flatMap BfsWorker.held).Perm
      (nodes ++ workers.flatMap BfsWorker.held) := by
  induction nodes generalizing workers i with
  | nil => exact .refl _
  | cons n nodes ih =>
    have hlt : i % workers.length < workers.length :=
      Nat.mod_lt i (length_pos_iff.mpr hne)
    have hne' : workers.modify (i % workers.length) (enqueueNode · n) ≠ [] := by
      rw [← length_pos_iff, length_modify]
      exact length_pos_iff.mpr hne
    have hrest := (ih hne' (i + 1)).trans
      (Perm.append_left nodes (modify_enqueueNode_held hlt n))
    exact hrest.trans perm_middle

lemma map_modify_enqueueNode {β : Type} (workers : List BfsWorker) (i n : ℕ) (f : BfsWorker → β)
    (hf : ∀ w : BfsWorker, f (w.enqueueNode n) = f w) :
    (workers.modify i (enqueueNode · n)).map f = workers.map f := by
  rcases Nat.lt_or_ge i workers.length with hi | hi
  · obtain ⟨l₁, w, l₂, hsplit, -, hmodify⟩ := exists_of_modify (enqueueNode · n) hi
    rw [hmodify, hsplit, map_append, map_append, map_cons, map_cons, hf]
  · rw [modify_eq_self hi]

lemma dealNodes_ceiling (workers : List BfsWorker) (i : ℕ) (nodes : List ℕ) :
    (dealNodes workers i nodes).map localLowerBoundCeiling =
      workers.map localLowerBoundCeiling := by
  induction nodes generalizing workers i with
  | nil => rfl
  | cons n nodes ih =>
    rw [dealNodes, ih]
    exact map_modify_enqueueNode workers _ n _ fun _ => rfl

lemma takeBacklogs_held (workers : List BfsWorker) :
    (workers.flatMap BfsWorker.backlog ++
        (workers.map fun w => { w with backlog := [] }).flatMap BfsWorker.held).Perm
      (workers.flatMap BfsWorker.held) := by
  induction workers with
  | nil => exact .refl _
  | cons w workers ih =>
    rw [perm_iff_count] at ih ⊢
    intro n
    have hrest := ih n
    simp only [map_cons, flatMap_cons, BfsWorker.held, append_nil, count_append] at hrest ⊢
    omega

lemma balanceWorkerLoads_cases (cfg : SolverConfig) (tree : SearchTree) (workers : List BfsWorker) :
    balanceWorkerLoads cfg tree workers = workers ∨
      1 < workers.length ∧ balanceWorkerLoads cfg tree workers =
        dealNodes (workers.map fun w => { w with backlog := [] }) 0
          (cfg.std.sort (deterministicLess tree) (workers.flatMap BfsWorker.backlog)) := by
  unfold balanceWorkerLoads
  rcases Nat.lt_or_ge 1 workers.length with hlen | hlen
  · rw [if_neg (by omega)]
    simp only
    split_ifs
    · exact .inl rfl
    · exact .inr ⟨hlen, rfl⟩
    · exact .inl rfl
  · exact .inl (if_pos hlen)

lemma balanceWorkerLoads_held (cfg : SolverConfig) (tree : SearchTree) (workers : List BfsWorker) :
    ((balanceWorkerLoads cfg tree workers).flatMap BfsWorker.held).Perm
      (workers.flatMap BfsWorker.held) := by
  rcases balanceWorkerLoads_cases cfg tree workers with heq | ⟨hlen, heq⟩
  · rw [heq]
  · have hne : (workers.map fun w => { w with backlog := [] }) ≠ [] := by
      rw [← length_pos_iff, length_map]
      omega
    rw [heq]
    refine (dealNodes_held hne 0 _).trans ?_
    exact ((cfg.std.perm _ _).append_right _).trans (takeBacklogs_held workers)

lemma balanceWorkerLoads_ceiling (cfg : SolverConfig) (tree : SearchTree)
    (workers : List BfsWorker) :
    (balanceWorkerLoads cfg tree workers).map localLowerBoundCeiling =
      workers.map localLowerBoundCeiling := by
  rcases balanceWorkerLoads_cases cfg tree workers with heq | ⟨-, heq⟩
  · rw [heq]
  · rw [heq, dealNodes_ceiling, map_map]
    rfl

lemma le_foldl_min {α : Type*} (f : α → WithTop ℚ) (l : List α) (acc b : WithTop ℚ) :
    b ≤ l.foldl (fun acc x => min (f x) acc) acc ↔ b ≤ acc ∧ ∀ x ∈ l, b ≤ f x := by
  induction l generalizing acc with
  | nil => simp
  | cons x l ih =>
    rw [foldl_cons, ih, le_min_iff, forall_mem_cons]
    tauto

lemma syncCallback_workers (s : SolverState) :
    (syncCallback cfg s).state.workers = (balanceWorkerLoads cfg s.tree
      ((s.workers.map fun w => { w with events := [] }).map fun w =>
        { w with integerSolutions := [] })).map fun w =>
          { w with localUpperBound := (syncCallback cfg s).state.upperBound } := rfl

lemma syncCallback_held (s : SolverState) : (syncCallback cfg s).state.held.Perm s.held := by
  rw [SolverState.held, syncCallback_workers, flatMap_map]
  refine (balanceWorkerLoads_held cfg s.tree _).trans ?_
  rw [flatMap_map, flatMap_map]
  exact .refl _

lemma syncCallback_ceiling (s : SolverState) :
    (syncCallback cfg s).state.workers.map localLowerBoundCeiling =
      s.workers.map localLowerBoundCeiling := by
  rw [syncCallback_workers, map_map]
  refine (balanceWorkerLoads_ceiling cfg s.tree _).trans ?_
  rw [map_map, map_map]
  rfl

lemma syncCallback_lowerBoundNumerical (s : SolverState) (b : WithTop ℚ) :
    b ≤ (syncCallback cfg s).state.lowerBoundNumerical ↔
      b ≤ s.lowerBoundNumerical ∧ ∀ w ∈ s.workers, b ≤ w.localLowerBoundCeiling := by
  have hmerge : (syncCallback cfg s).state.lowerBoundNumerical =
      s.workers.foldl (fun acc w => min w.localLowerBoundCeiling acc) s.lowerBoundNumerical := by
    simp only [min_comm]
    change (s.workers.map _).foldl _ _ = _
    rw [foldl_map]
  rw [hmerge, le_foldl_min]

/-- A sync moves nodes between containers and leaves the tree and the worker ceilings alone. -/
lemma Inv.sync {s : SolverState} (h : Inv s) : Inv (syncCallback cfg s).state := by
  refine ⟨h.custody.perm (syncCallback_held cfg s), fun b => ?_⟩
  have hworkers : (∀ w ∈ (syncCallback cfg s).state.workers, b ≤ w.localLowerBoundCeiling) ↔
      ∀ w ∈ s.workers, b ≤ w.localLowerBoundCeiling := by
    have hmap := congrArg (fun l => ∀ c ∈ l, b ≤ c) (syncCallback_ceiling cfg s)
    simpa only [forall_mem_map, eq_iff_iff] using hmap
  rw [hworkers, syncCallback_lowerBoundNumerical, and_assoc, and_self]
  exact h.ceiling b

end Sync

lemma initialState_inv {numWorkers : ℕ} (hpos : 0 < numWorkers) (numDiving : ℕ)
    (rootBound upperBound : WithTop ℚ) (incumbent : Option Incumbent) :
    Inv (initialState numWorkers numDiving rootBound upperBound incumbent) := by
  set workers := (range numWorkers).map fun i =>
    (⟨i, 0, upperBound, [], 0, [], [], none, false, [], 0, 0, ⊤⟩ : BfsWorker) with hworkers
  have hlen : workers.length = numWorkers := by rw [hworkers, length_map, length_range]
  have hempty : workers.flatMap BfsWorker.held = [] := by
    rw [flatMap_eq_nil_iff]
    intro w hw
    obtain ⟨i, -, rfl⟩ := mem_map.mp hw
    rfl
  have hheld : (initialState numWorkers numDiving rootBound upperBound incumbent).held.Perm [2, 1] := by
    have hfirst := modify_enqueueNode_held (hlen.symm ▸ hpos) 1
    have hsecond := modify_enqueueNode_held
      (show 1 % numWorkers < (workers.modify 0 (enqueueNode · 1)).length by
        rw [length_modify, hlen]
        exact Nat.mod_lt 1 hpos) 2
    rw [hempty] at hfirst
    exact hsecond.trans (hfirst.cons 2)
  constructor
  · refine ⟨hheld.nodup_iff.mpr (by decide), fun n => ?_⟩
    rw [hheld.mem_iff]
    change n ∈ [2, 1] ↔ n < 3 ∧ (if n = 0 then NodeStatus.hasChildren else .pending) = .pending
    rw [mem_cons, mem_singleton]
    split_ifs with hn
    · simp [hn]
    · simp only [and_true]
      omega
  · -- no node has been given up, and no ceiling has come down
    intro b
    have hceilings : ∀ w ∈ (initialState numWorkers numDiving rootBound upperBound incumbent).workers,
        w.localLowerBoundCeiling = ⊤ := by
      have hmap : (initialState numWorkers numDiving rootBound upperBound incumbent).workers.map
          localLowerBoundCeiling = workers.map localLowerBoundCeiling := by
        refine (map_modify_enqueueNode _ _ 2 _ fun _ => rfl).trans ?_
        exact map_modify_enqueueNode workers 0 1 _ fun _ => rfl
      intro w hw
      have hmem := mem_map_of_mem (f := localLowerBoundCeiling) hw
      rw [hmap, hworkers, map_map] at hmem
      obtain ⟨i, -, hi⟩ := mem_map.mp hmem
      exact hi.symm
    constructor
    · intro _ n _ hnumerical
      change (if n = 0 then NodeStatus.hasChildren else .pending) = .numerical at hnumerical
      split_ifs at hnumerical
    · exact fun _ => ⟨le_top, fun w hw => (hceilings w hw).symm ▸ le_top⟩

variable {s : SolverState}

lemma Inv.held_lt (h : Inv s) {w : BfsWorker} (hw : w ∈ s.workers) :
    ∀ n ∈ w.held, n < s.tree.numNodes := by
  intro n hn
  have hmem : n ∈ s.held := mem_flatMap.mpr ⟨w, hw, hn⟩
  exact ((h.custody.mem_iff n).mp hmem).1

lemma workerStep_inv {s' : SolverState} {i : ℕ}
    {f : SearchTree → BfsWorker → Option (SearchTree × BfsWorker)} (h : Inv s)
    (hf : ∀ w ∈ s.workers, ∀ tree' w', f s.tree w = some (tree', w') →
      WorkerEffect s.tree w tree' w') (hstep : workerStep s i f = some s') : Inv s' := by
  unfold workerStep at hstep
  cases hw : s.workers[i]? with
  | none =>
    rw [hw] at hstep
    cases hstep
  | some w =>
    rw [hw] at hstep
    obtain ⟨⟨tree', w'⟩, heq, rfl⟩ := Option.map_eq_some_iff.mp hstep
    exact h.workerEffect hw (hf w (mem_of_getElem? hw) tree' w' heq)

variable {cfg : SolverConfig}

lemma Reachable.inv (h : Reachable cfg s) : Inv s := by
  induction h with
  | initial numWorkers numDiving hpos rootBound upperBound incumbent =>
    exact initialState_inv hpos numDiving rootBound upperBound incumbent
  | step action _ hstep ih =>
    cases action with
    | beginNode i => exact workerStep_inv ih (fun _ _ _ _ => beginNode_effect) hstep
    | finishNode i result =>
      refine workerStep_inv (f := fun tree w => finishNode cfg tree w result) ih ?_ hstep
      exact fun _ hw _ _ heq => finishNode_effect (ih.held_lt hw) heq
    | arrive objective solution workTimestamp =>
      cases hstep
      exact ⟨ih.custody, ih.ceiling⟩
    | dive i sol =>
      cases hstep
      exact ⟨ih.custody, ih.ceiling⟩
    | sync =>
      cases hstep
      exact ih.sync cfg

def SearchTree.boundOf (tree : SearchTree) (status : NodeStatus) : WithTop ℚ :=
  ((Finset.range tree.numNodes).filter fun n => (tree.node n).status = status).inf fun n =>
    (tree.node n).lowerBound

lemma le_boundOf_iff (tree : SearchTree) (status : NodeStatus) (b : WithTop ℚ) :
    b ≤ tree.boundOf status ↔
      ∀ n < tree.numNodes, (tree.node n).status = status → b ≤ (tree.node n).lowerBound := by
  simp only [SearchTree.boundOf, Finset.le_inf_iff, Finset.mem_filter, Finset.mem_range, and_imp]

def heldBound (s : SolverState) : WithTop ℚ :=
  let bound := fun (acc : WithTop ℚ) n => min (s.tree.node n).lowerBound acc
  s.workers.foldl
    (fun acc w => w.backlog.foldl bound (w.plungeStack.foldl bound (w.currentNode.elim acc (bound acc))))
    s.lowerBoundNumerical

lemma computeLowerBound_eq (s : SolverState) :
    computeLowerBound s =
      if heldBound s = ⊤ ∧ s.incumbent.isSome then s.upperBound else heldBound s := rfl

lemma le_heldBound_iff (s : SolverState) (b : WithTop ℚ) :
    b ≤ heldBound s ↔ b ≤ s.lowerBoundNumerical ∧ ∀ n ∈ s.held, b ≤ (s.tree.node n).lowerBound := by
  have hworker : ∀ (w : BfsWorker) (acc : WithTop ℚ),
      (let bound := fun (acc : WithTop ℚ) n => min (s.tree.node n).lowerBound acc
      w.backlog.foldl bound (w.plungeStack.foldl bound (w.currentNode.elim acc (bound acc)))) =
        w.held.foldl (fun acc n => min (s.tree.node n).lowerBound acc) acc := by
    intro w acc
    rw [BfsWorker.held, foldl_append, foldl_append]
    cases w.currentNode <;> rfl
  have hheld : heldBound s =
      s.held.foldl (fun acc n => min (s.tree.node n).lowerBound acc) s.lowerBoundNumerical := by
    rw [SolverState.held, foldl_flatMap]
    exact congrArg (fun f => s.workers.foldl f s.lowerBoundNumerical)
      (funext fun acc => funext fun w => hworker w acc)
  rw [hheld, le_foldl_min]

lemma syncCallback_heldBound (h : Inv s) :
    heldBound (syncCallback cfg s).state =
      min ((syncCallback cfg s).state.tree.boundOf .pending)
        ((syncCallback cfg s).state.tree.boundOf .numerical) := by
  have hsync := h.sync cfg
  refine eq_of_forall_le_iff fun b => ?_
  rw [le_heldBound_iff, le_min_iff, le_boundOf_iff, le_boundOf_iff,
    syncCallback_lowerBoundNumerical, and_comm]
  refine and_congr ?_ (h.ceiling b)
  constructor
  · intro hb n hn hpending
    exact hb n ((hsync.custody.mem_iff n).mpr ⟨hn, hpending⟩)
  · intro hb n hn
    obtain ⟨hlt, hpending⟩ := (hsync.custody.mem_iff n).mp hn
    exact hb n hlt hpending

def places (s : SolverState) : List (ℕ × Slot) :=
  (range s.workers.length).flatMap fun i =>
    [(i, .currentNode), (i, .plungeStack), (i, .backlog)]

lemma flatMap_places (s : SolverState) : (places s).flatMap s.container = s.held := by
  have hworker : ∀ i < s.workers.length,
      [(i, Slot.currentNode), (i, .plungeStack), (i, .backlog)].flatMap s.container =
        (s.workers[i]?.map BfsWorker.held).getD [] := by
    intro i hi
    simp [SolverState.container, getElem?_eq_getElem hi, BfsWorker.slot, BfsWorker.held]
  have hmap : (range s.workers.length).map
      (fun i => (s.workers[i]?.map BfsWorker.held).getD []) = s.workers.map BfsWorker.held := by
    refine ext_getElem (by simp) fun i hi hi' => ?_
    have hlt : i < s.workers.length := by simpa using hi
    simp [getElem?_eq_getElem hlt]
  rw [places, flatMap_assoc, SolverState.held, flatMap_def, flatMap_def, ← hmap]
  congr 1
  exact map_congr_left fun i hi => hworker i (mem_range.mp hi)

lemma container_ne_nil {place : ℕ × Slot} {n : ℕ} (hn : n ∈ s.container place) :
    place ∈ places s := by
  obtain ⟨i, slot⟩ := place
  rcases Nat.lt_or_ge i s.workers.length with hi | hi
  · refine mem_flatMap.mpr ⟨i, mem_range.mpr hi, ?_⟩
    cases slot <;> simp
  · rw [SolverState.container, getElem?_eq_none hi] at hn
    cases hn

lemma existsUnique_container (h : Inv s) {n : ℕ} (hn : s.tree.IsOpen n) :
    ∃ place, (s.container place).count n = 1 ∧ ∀ other ≠ place, n ∉ s.container other := by
  have hnodup : ((places s).flatMap s.container).Nodup := (flatMap_places s).symm ▸ h.custody.nodup
  have hmem : n ∈ (places s).flatMap s.container :=
    (flatMap_places s).symm ▸ (h.custody.mem_iff n).mpr hn
  obtain ⟨place, ⟨hplace, hin⟩, hunique⟩ := Custody.existsUnique_place hnodup hmem
  refine ⟨place, ?_, fun other hne hother => ?_⟩
  · exact count_eq_one_of_mem ((nodup_flatMap.mp hnodup).1 place hplace) hin
  · exact hne (hunique other ⟨container_ne_nil hother, hother⟩)

def run (cfg : SolverConfig) (s : SolverState) : List Action → Option SolverState
  | [] => some s
  | action :: actions => (step cfg s action).bind fun s' => run cfg s' actions

lemma Reachable.run {s' : SolverState} {actions : List Action} (h : Reachable cfg s)
    (hrun : run cfg s actions = some s') : Reachable cfg s' := by
  induction actions generalizing s with
  | nil => exact Option.some.inj hrun ▸ h
  | cons action actions ih =>
    obtain ⟨s₁, hstep, hrest⟩ := Option.bind_eq_some_iff.mp hrun
    exact ih (h.step action hstep) hrest

/-- In every reachable state each open node is in one container of one worker, and the containers
hold no other node. The bound computed at a sync is the smallest bound of the open nodes and of the
given up nodes, except that of an exhausted tree with an incumbent, which is the upper bound. -/
theorem reachable_custody_lowerBound (cfg : SolverConfig) (s : SolverState) (h : Reachable cfg s) :
    (∀ n, s.tree.IsOpen n →
      ∃ place, (s.container place).count n = 1 ∧ ∀ other ≠ place, n ∉ s.container other) ∧
    (∀ place, ∀ n ∈ s.container place, s.tree.IsOpen n) ∧
    (let r := syncCallback cfg s
      let least := min (r.state.tree.boundOf .pending) (r.state.tree.boundOf .numerical)
      r.lowerBound = if least = ⊤ ∧ r.state.incumbent.isSome then r.state.upperBound else least) := by
  refine ⟨fun n hn => existsUnique_container h.inv hn, fun place n hn => ?_, ?_⟩
  · refine (h.inv.custody.mem_iff n).mp ?_
    rw [← flatMap_places]
    exact List.mem_flatMap.mpr ⟨place, container_ne_nil hn, hn⟩
  · change computeLowerBound (syncCallback cfg s).state = _
    rw [computeLowerBound_eq, syncCallback_heldBound h.inv]

lemma hasWork_iff (w : BfsWorker) : w.hasWork = true ↔ w.held ≠ [] := by
  simp [BfsWorker.hasWork, BfsWorker.held, Option.isSome_iff_ne_none, or_iff_not_imp_left]

def anyHasWork (workers : List BfsWorker) : Bool := workers.any BfsWorker.hasWork

/-- The search is given up as exhausted just when no node is open. -/
theorem anyHasWork_iff_open (h : Reachable cfg s) :
    anyHasWork s.workers = true ↔ ∃ n, s.tree.IsOpen n := by
  simp only [anyHasWork, any_eq_true, hasWork_iff, ← h.inv.custody.mem_iff, SolverState.held,
    mem_flatMap, ne_eq, eq_nil_iff_forall_not_mem, not_forall, not_not]
  exact ⟨fun ⟨w, hw, n, hn⟩ => ⟨n, w, hw, hn⟩, fun ⟨n, w, hw, hn⟩ => ⟨w, hw, n, hn⟩⟩

def plainConfig : SolverConfig := ⟨⟨{}, false, 0, 0, 0⟩, 0, 1, insertionSorter⟩

/-- Two workers; worker `0` branches its node and pauses in a child, worker `1` runs out of time, and
a sync balances the load. -/
def branchingRun : Option SolverState :=
  run plainConfig (initialState 2 0 0 ⊤ none)
    [.beginNode 0, .finishNode 0 (.relaxation 1 (.optimal 3 [1 / 2] (some (0, 1 / 2, .up)))),
      .beginNode 0, .beginNode 1, .finishNode 1 .outOfTime, .sync]

theorem branchingRun_custody_lowerBound :
    ∃ s, branchingRun = some s ∧
      (∀ n, s.tree.IsOpen n →
        ∃ place, (s.container place).count n = 1 ∧ ∀ other ≠ place, n ∉ s.container other) ∧
      (∀ place, ∀ n ∈ s.container place, s.tree.IsOpen n) ∧
      (let r := syncCallback plainConfig s
        let least := min (r.state.tree.boundOf .pending) (r.state.tree.boundOf .numerical)
        r.lowerBound =
          if least = ⊤ ∧ r.state.incumbent.isSome then r.state.upperBound else least) := by
  have hsome : branchingRun.isSome = true := by decide +kernel
  obtain ⟨s, hs⟩ := Option.isSome_iff_exists.mp hsome
  refine ⟨s, hs, reachable_custody_lowerBound plainConfig s ?_⟩
  exact (Reachable.initial 2 0 (by decide) 0 ⊤ none).run hs

theorem branchingRun_anyHasWork : ∃ s, branchingRun = some s ∧
    (anyHasWork s.workers = true ↔ ∃ n, s.tree.IsOpen n) := by
  have hsome : branchingRun.isSome = true := by decide +kernel
  obtain ⟨s, hs⟩ := Option.isSome_iff_exists.mp hsome
  exact ⟨s, hs, anyHasWork_iff_open ((Reachable.initial 2 0 (by decide) 0 ⊤ none).run hs)⟩

/-- One worker that finds both children of the root infeasible, with an incumbent of value `5`. -/
def exhaustedRun : Option SolverState :=
  run plainConfig (initialState 1 0 0 5 (some ⟨5, []⟩))
    [.beginNode 0, .finishNode 0 .boundsInfeasible, .beginNode 0, .finishNode 0 .boundsInfeasible]

/-- With no node left the computed bound is the incumbent's, below the infinite minimum. -/
theorem exhaustedRun_lowerBound :
    ∃ s, Reachable plainConfig s ∧ (syncCallback plainConfig s).lowerBound ≠
      min ((syncCallback plainConfig s).state.tree.boundOf .pending)
        ((syncCallback plainConfig s).state.tree.boundOf .numerical) := by
  have hany : exhaustedRun.any (fun s => decide ((syncCallback plainConfig s).lowerBound ≠
      min ((syncCallback plainConfig s).state.tree.boundOf .pending)
        ((syncCallback plainConfig s).state.tree.boundOf .numerical))) = true := by
    decide +kernel
  obtain ⟨s, hs, hne⟩ := (Option.any_eq_true _ _).mp hany
  exact ⟨s, (Reachable.initial 1 0 (by decide) 0 5 (some ⟨5, []⟩)).run hs, of_decide_eq_true hne⟩

end CuOpt.BranchAndBound
