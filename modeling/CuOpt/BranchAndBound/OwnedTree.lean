import CuOpt.BranchAndBound.SearchTree

/-! The search tree as nodes that own their children: branching a leaf, closing a leaf with the walk
up that collapses its ancestors, and the deletion of a subtree. -/

namespace CuOpt.BranchAndBound

structure NodeData where
  nodeId : ℕ
  status : NodeStatus
  lowerBound : WithTop ℚ
  numChildren : ℤ
  deriving DecidableEq

/-- `nil` is a null pointer. -/
inductive OwnedTree
  | nil
  | node (data : NodeData) (down up : OwnedTree)

def inactiveStatus : NodeStatus → Bool
  | .fathomed | .integerFeasible | .infeasible | .numerical => true
  | .pending | .hasChildren => false

namespace OwnedTree

def nodes : OwnedTree → List NodeData
  | .nil => []
  | .node data down up => down.nodes ++ data :: up.nodes

def size : OwnedTree → ℕ
  | .nil => 0
  | .node _ down up => down.size + up.size + 1

def deleteChain : ℕ → OwnedTree → List ℕ
  | 0, _ => []
  | _ + 1, .nil => []
  | fuel + 1, .node data (.node left down up) right =>
    deleteChain fuel (.node left down (.node data up right))
  | fuel + 1, .node data .nil right => data.nodeId :: deleteChain fuel right

/-- `reset` of the pointer that owns the tree: the subtrees of the node go first. -/
def reset : OwnedTree → List ℕ
  | .nil => []
  | .node data down up =>
    deleteChain (2 * down.size) down ++ deleteChain (2 * up.size) up ++ [data.nodeId]

/-- What a walk up sees of a parent: its data, the side of the child it comes from, and the other
child. -/
structure Frame where
  data : NodeData
  side : BranchDirection
  sibling : OwnedTree

def Frame.down (f : Frame) (child : OwnedTree) : OwnedTree :=
  match f.side with
  | .down => child
  | .up => f.sibling

def Frame.up (f : Frame) (child : OwnedTree) : OwnedTree :=
  match f.side with
  | .down => f.sibling
  | .up => child

def plug (t : OwnedTree) : List Frame → OwnedTree
  | [] => t
  | f :: fs => plug (.node f.data (f.down t) (f.up t)) fs

def descend : OwnedTree → List BranchDirection → List Frame → Option (OwnedTree × List Frame)
  | t, [], fs => some (t, fs)
  | .nil, _ :: _, _ => none
  | .node data down up, .down :: path, fs => down.descend path (⟨data, .down, up⟩ :: fs)
  | .node data down up, .up :: path, fs => up.descend path (⟨data, .up, down⟩ :: fs)

structure Closed where
  tree : OwnedTree
  collapsed : List ℕ
  freed : List ℕ

def walkUp (t : OwnedTree) : List Frame → Option Closed
  | [] => some ⟨t, [], []⟩
  | f :: fs =>
    let old := f.data.numChildren
    let data := { f.data with numChildren := old - 1 }
    -- the sibling is still active
    if old ≠ 1 then some ⟨plug (.node data (f.down t) (f.up t)) fs, [], []⟩
    else
      match f.down t, f.up t with
      | .node down d₁ d₂, .node up u₁ u₂ =>
        let data := { data with
          status := .fathomed
          lowerBound := min down.lowerBound up.lowerBound }
        let freed := (OwnedTree.node down d₁ d₂).reset ++ (OwnedTree.node up u₁ u₂).reset
        match walkUp (.node data .nil .nil) fs with
        | none => none
        | some r => some ⟨r.tree, data.nodeId :: r.collapsed, freed ++ r.freed⟩
      | _, _ => none

def setStatus (t : OwnedTree) (path : List BranchDirection) (status : NodeStatus) : Option Closed :=
  match t.descend path [] with
  | some (.node data down up, frames) =>
    let node := OwnedTree.node { data with status := status } down up
    if inactiveStatus status then walkUp node frames else some ⟨plug node frames, [], []⟩
  | _ => none

end OwnedTree

/-- A solved leaf is branched or closed with a status; `bound` is the lower bound that the solver
writes to it before. -/
inductive TreeOp
  | branch (path : List BranchDirection) (bound : WithTop ℚ)
  | close (path : List BranchDirection) (status : NodeStatus) (bound : WithTop ℚ)

/-- `search_tree_t::branch` of the leaf with data `data`, when `numNodes` nodes were numbered. -/
def branchLeaf (data : NodeData) (numNodes : ℕ) : OwnedTree :=
  let child (id : ℕ) := OwnedTree.node ⟨id, .pending, data.lowerBound, 0⟩ .nil .nil
  .node { data with numChildren := 2 } (child (numNodes + 1)) (child (numNodes + 2))

/-- The leaves and the branched nodes of a tree without its collapses. -/
inductive History
  | leaf (id : ℕ) (bound : WithTop ℚ) (status : NodeStatus)
  | branched (id : ℕ) (bound : WithTop ℚ) (down up : History)

namespace History

def atLeaf (f : ℕ → History) : History → List BranchDirection → History
  | .leaf id _ _, _ => f id
  | .branched id bound down up, .down :: path => .branched id bound (down.atLeaf f path) up
  | .branched id bound down up, .up :: path => .branched id bound down (up.atLeaf f path)
  | .branched id bound down up, [] => .branched id bound down up

end History

structure ClosingState where
  root : OwnedTree
  numNodes : ℕ
  collapsed : List ℕ
  freed : List ℕ
  history : History

def ClosingState.step (s : ClosingState) : TreeOp → Option ClosingState
  | .branch path bound =>
    match s.root.descend path [] with
    | some (.node data .nil .nil, frames) =>
      if data.status = .pending then
        let root := (branchLeaf { data with lowerBound := bound } s.numNodes).plug frames
        match root.setStatus path .hasChildren with
        | none => none
        | some r => some { s with
            root := r.tree
            numNodes := s.numNodes + 2
            history := s.history.atLeaf (fun id => .branched id bound
              (.leaf (s.numNodes + 1) bound .pending) (.leaf (s.numNodes + 2) bound .pending)) path }
      else none
    | _ => none
  | .close path status bound =>
    match s.root.descend path [] with
    | some (.node data .nil .nil, frames) =>
      if data.status = .pending ∧ inactiveStatus status then
        let root := (OwnedTree.node { data with lowerBound := bound } .nil .nil).plug frames
        match root.setStatus path status with
        | none => none
        | some r => some { s with
            root := r.tree
            collapsed := s.collapsed ++ r.collapsed
            freed := s.freed ++ r.freed
            history := s.history.atLeaf (fun id => .leaf id bound status) path }
      else none
    | _ => none

def ClosingState.initial (rootBound : WithTop ℚ) : ClosingState :=
  ⟨.node ⟨0, .pending, rootBound, 0⟩ .nil .nil, 0, [], [], .leaf 0 rootBound .pending⟩

def ClosingState.run (s : ClosingState) : List TreeOp → Option ClosingState
  | [] => some s
  | op :: ops => (s.step op).bind fun s' => s'.run ops

end CuOpt.BranchAndBound
