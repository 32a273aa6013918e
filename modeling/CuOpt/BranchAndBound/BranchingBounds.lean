import CuOpt.BranchAndBound.SearchTree
import CuOpt.Library.Runs
import CuOpt.Simplex.BoundsStrengtheningSound

/-! The bounds of the nodes of a search tree: what a branching stores in its two children, how the
bounds of a node are read off its path to the root, and how a worker goes on from its last leaf. -/

namespace CuOpt.BranchAndBound.BranchingBounds

open CuOpt.Simplex
open CuOpt.Cuts (VariableType)
open Activities Activities.Extended
open Function (update)

inductive MipNode
  | root (nodeId : ℕ)
  | child (parent : MipNode) (nodeId branchVar : ℕ) (branchDir : BranchDirection)
      (fractionalVal : ℚ) (branchVarLower branchVarUpper : Extended ℚ)
  deriving DecidableEq

structure MarkedBounds where
  box : Box
  boundsChanged : ℕ → Bool

def overwrite (box : Box) (j : ℕ) (lower upper : Extended ℚ) : Box :=
  ⟨box.lower.set j lower, box.upper.set j upper⟩

def OnSide (dir : BranchDirection) (v z : ℚ) : Prop :=
  match dir with
  | .down => z ≤ ⌊v⌋
  | .up => ⌈v⌉ ≤ z

namespace MipNode

def nodeId : MipNode → ℕ
  | root nodeId => nodeId
  | child _ nodeId .. => nodeId

def parent? : MipNode → Option MipNode
  | root _ => none
  | child parent .. => some parent

def ofBranch (leaf : Box) (parentNode : MipNode) (nodeNum branchVariable : ℕ)
    (branchDirection : BranchDirection) (branchVarValue : ℚ) : MipNode :=
  child parentNode nodeNum branchVariable branchDirection branchVarValue
    (match branchDirection with
      | .down => leaf.lb branchVariable
      | .up => finite ⌈branchVarValue⌉)
    (match branchDirection with
      | .down => finite ⌊branchVarValue⌋
      | .up => leaf.ub branchVariable)

def updateBranchedVariableBounds : MipNode → MarkedBounds → MarkedBounds
  | root _, bounds => bounds
  | child _ _ branchVar _ _ branchVarLower branchVarUpper, bounds =>
    -- a node further down the path has set tighter bounds already
    if bounds.boundsChanged branchVar then bounds
    else ⟨overwrite bounds.box branchVar branchVarLower branchVarUpper,
      update bounds.boundsChanged branchVar true⟩

/-- The loop over the ancestors, from `node` on up to a node numbered zero. -/
def updateFromAncestors : MipNode → MarkedBounds → MarkedBounds
  | root nodeId, bounds =>
    if nodeId ≠ 0 then (root nodeId).updateBranchedVariableBounds bounds else bounds
  | child parent nodeId branchVar branchDir fractionalVal lower upper, bounds =>
    if nodeId ≠ 0 then
      parent.updateFromAncestors ((child parent nodeId branchVar branchDir fractionalVal lower
        upper).updateBranchedVariableBounds bounds)
    else bounds

def getVariableBounds (node : MipNode) (bounds : MarkedBounds) : MarkedBounds :=
  let bounds := node.updateBranchedVariableBounds bounds
  match node with
  | root _ => bounds
  | child parent .. => parent.updateFromAncestors bounds

def pathBox (start : Box) (node : MipNode) : Box :=
  (node.getVariableBounds ⟨start, fun _ => false⟩).box

/-- The branching decisions of the path: what the bounds of a node are for. -/
def Decisions : MipNode → (ℕ → ℚ) → Prop
  | root _, _ => True
  | child parent _ branchVar branchDir fractionalVal _ _, x =>
    OnSide branchDir fractionalVal (x branchVar) ∧ parent.Decisions x

end MipNode

/-- The node whose relaxation a worker solves, or the one it has branched last. -/
inductive Stage
  | idle
  | solving (node : MipNode)
  | branched (node : MipNode)
  deriving DecidableEq

structure Worker where
  leaf : Box
  recomputeBounds : Bool
  stage : Stage

structure Tree where
  nodes : List MipNode
  numNodes : ℕ
  worker : ℕ → Worker

structure Relaxation where
  lp : LpProblem
  varTypes : ℕ → VariableType
  settings : StrengtheningSettings
  start : Box

namespace Relaxation

variable (r : Relaxation)

def nodePresolver : BoundsStrengthening :=
  BoundsStrengthening.make r.lp r.lp.A.toCompressedRow none (some r.varTypes)

def leafBounds (worker : Worker) (node : MipNode) : MarkedBounds :=
  if worker.recomputeBounds then node.getVariableBounds ⟨r.start, fun _ => false⟩
  else node.updateBranchedVariableBounds ⟨worker.leaf, fun _ => false⟩

def setLpVariableBounds (worker : Worker) (node : MipNode) : Bool × Box :=
  let bounds := r.leafBounds worker node
  match r.nodePresolver.boundsStrengthening r.settings (some bounds.boundsChanged) bounds.box with
  | some box => (true, box)
  | none => (false, bounds.box)

def Admitted (result : Bool × Box) (x : ℕ → ℚ) : Prop :=
  result.1 = true ∧ result.2.Contains r.lp.numCols x

instance (result : Bool × Box) (x : ℕ → ℚ) : Decidable (r.Admitted result x) :=
  inferInstanceAs (Decidable (_ ∧ _))

inductive Action
  | solve (w : ℕ) (node : MipNode)
  | reduce (w : ℕ) (box : Box)
  | branch (w branchVar : ℕ) (fractionalVal : ℚ)
  | close (w : ℕ)

def initial (rootId : ℕ) : Tree where
  nodes := [.root rootId]
  numNodes := 0
  worker := fun _ => ⟨r.start, true, .idle⟩

/-- A worker takes any node; the one it takes next to a branching without recomputing the bounds is a
child of the node it branched. -/
def MayTake (worker : Worker) (node : MipNode) : Prop :=
  worker.stage = .idle ∨ ∃ parent ∈ node.parent?, worker.stage = .branched parent

instance (worker : Worker) (node : MipNode) : Decidable (MayTake worker node) :=
  inferInstanceAs (Decidable (_ ∨ ∃ parent ∈ node.parent?, worker.stage = .branched parent))

def Fractional (leaf : Box) (branchVar : ℕ) (fractionalVal : ℚ) : Prop :=
  branchVar < r.lp.numCols ∧ r.varTypes branchVar ≠ .continuous ∧ ¬ fractionalVal.isInt ∧
    AtMost (leaf.lb branchVar) fractionalVal ∧ AtLeast (leaf.ub branchVar) fractionalVal

instance (leaf : Box) (branchVar : ℕ) (fractionalVal : ℚ) :
    Decidable (r.Fractional leaf branchVar fractionalVal) :=
  inferInstanceAs (Decidable (_ ∧ _ ∧ _ ∧ _ ∧ _))

def step (tree : Tree) : Action → Option Tree
  | .solve w node =>
    let worker := tree.worker w
    if node ∈ tree.nodes ∧ MayTake worker node then
      let (feasible, leaf) := r.setLpVariableBounds worker node
      let worker :=
        if feasible then { worker with leaf := leaf, stage := .solving node }
        else ⟨leaf, true, .idle⟩
      some { tree with worker := update tree.worker w worker }
    else none
  | .reduce w box =>
    match (tree.worker w).stage with
    | .solving _ =>
      some { tree with worker := update tree.worker w { tree.worker w with leaf := box } }
    | _ => none
  | .branch w branchVar fractionalVal =>
    let worker := tree.worker w
    match worker.stage with
    | .solving node =>
      if r.Fractional worker.leaf branchVar fractionalVal then
        let child := fun id dir =>
          MipNode.ofBranch worker.leaf node id branchVar dir fractionalVal
        some {
          nodes := tree.nodes ++ [child (tree.numNodes + 1) .down, child (tree.numNodes + 2) .up]
          numNodes := tree.numNodes + 2
          worker := update tree.worker w ⟨worker.leaf, false, .branched node⟩ }
      else none
    | _ => none
  | .close w =>
    some { tree with
      worker := update tree.worker w { tree.worker w with
        recomputeBounds := true, stage := .idle } }

end Relaxation

end CuOpt.BranchAndBound.BranchingBounds
