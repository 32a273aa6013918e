import CuOpt.Library.Custody

/-! The search tree of branch and bound: the status and the bound of its nodes, and what closing a
node or branching it does to the open nodes. -/

namespace CuOpt.BranchAndBound

open Function (update)
open Custody (Exact)

inductive NodeStatus
  | pending
  | integerFeasible
  | infeasible
  | fathomed
  | hasChildren
  | numerical
  deriving DecidableEq

inductive BranchDirection
  | down
  | up
  deriving DecidableEq

/-- A node of the tree; `⊤` is an infinite bound. -/
structure MipNode where
  lowerBound : WithTop ℚ
  status : NodeStatus
  depth : ℕ
  originWorkerId : ℤ
  creationSeq : ℕ

/-- Nodes are numbered in the order of their creation; the root is node `0`. -/
structure SearchTree where
  node : ℕ → MipNode
  numNodes : ℕ

namespace SearchTree

def modify (tree : SearchTree) (n : ℕ) (f : MipNode → MipNode) : SearchTree :=
  { tree with node := update tree.node n (f (tree.node n)) }

def setStatus (tree : SearchTree) (n : ℕ) (status : NodeStatus) : SearchTree :=
  tree.modify n fun node => { node with status := status }

def setLowerBound (tree : SearchTree) (n : ℕ) (bound : WithTop ℚ) : SearchTree :=
  tree.modify n fun node => { node with lowerBound := bound }

def branch (tree : SearchTree) (n : ℕ) : SearchTree :=
  let child : MipNode := ⟨(tree.node n).lowerBound, .pending, (tree.node n).depth + 1, -1, 0⟩
  { node := update (update tree.node tree.numNodes child)
      (tree.numNodes + 1) child
    numNodes := tree.numNodes + 2 }

def IsOpen (tree : SearchTree) (n : ℕ) : Prop :=
  n < tree.numNodes ∧ (tree.node n).status = .pending

end SearchTree

def SameExcept (tree tree' : SearchTree) (n : ℕ) : Prop :=
  ∀ m < tree.numNodes, m ≠ n → (tree'.node m).status = (tree.node m).status ∧
    (tree'.node m).lowerBound = (tree.node m).lowerBound

section

variable {tree tree' : SearchTree} {n : ℕ}

lemma modify_node_self (tree : SearchTree) (n : ℕ) (f : MipNode → MipNode) :
    (tree.modify n f).node n = f (tree.node n) := Function.update_self ..

lemma modify_node_of_ne {m : ℕ} (hm : m ≠ n) (f : MipNode → MipNode) :
    (tree.modify n f).node m = tree.node m := Function.update_of_ne hm ..

lemma sameExcept_setStatus (status : NodeStatus) : SameExcept tree (tree.setStatus n status) n := by
  intro m _ hm
  rw [SearchTree.setStatus, modify_node_of_ne hm]
  exact ⟨rfl, rfl⟩

lemma sameExcept_close (bound : WithTop ℚ) (status : NodeStatus) :
    SameExcept tree ((tree.setLowerBound n bound).setStatus n status) n := by
  intro m _ hm
  rw [SearchTree.setStatus, modify_node_of_ne hm, SearchTree.setLowerBound, modify_node_of_ne hm]
  exact ⟨rfl, rfl⟩

lemma setStatus_status (status : NodeStatus) :
    ((tree.setStatus n status).node n).status = status := by
  rw [SearchTree.setStatus, modify_node_self]

lemma isOpen_close (hnum : tree'.numNodes = tree.numNodes)
    (hsame : SameExcept tree tree' n) (hopen : (tree'.node n).status ≠ .pending) (m : ℕ) :
    tree'.IsOpen m ↔ tree.IsOpen m ∧ m ≠ n := by
  unfold SearchTree.IsOpen
  rw [hnum]
  constructor
  · rintro ⟨hm, hpending⟩
    have hne : m ≠ n := fun he => hopen (he ▸ hpending)
    exact ⟨⟨hm, (hsame m hm hne).1 ▸ hpending⟩, hne⟩
  · rintro ⟨⟨hm, hpending⟩, hne⟩
    exact ⟨hm, (hsame m hm hne).1.trans hpending⟩

/-- The two children are enrolled, then the node is released. -/
lemma custody_branch {held held' : List ℕ} (h : Exact held tree.IsOpen)
    (hn : n < tree.numNodes)
    (hperm : (n :: held').Perm ([tree.numNodes, tree.numNodes + 1] ++ held))
    (hnum : tree'.numNodes = tree.numNodes + 2) (hsame : SameExcept tree tree' n)
    (hstatus : (tree'.node n).status = .hasChildren)
    (hdown : (tree'.node tree.numNodes).status = .pending)
    (hup : (tree'.node (tree.numNodes + 1)).status = .pending) :
    Exact held' tree'.IsOpen := by
  set new := [tree.numNodes, tree.numNodes + 1] with hnew
  have hmemNew : ∀ m, m ∈ new ↔ m = tree.numNodes ∨ m = tree.numNodes + 1 := by
    intro m
    rw [hnew, List.mem_cons, List.mem_singleton]
  have henrolled : Exact (new ++ held) fun m => tree.IsOpen m ∨ m ∈ new := by
    refine h.enroll (.refl _) (by simp [hnew]) (fun m hm hopen => ?_) fun m => .rfl
    have hlt := hopen.1
    rcases (hmemNew m).mp hm with rfl | rfl <;> omega
  refine henrolled.release hperm fun m => ?_
  change m < tree'.numNodes ∧ (tree'.node m).status = .pending ↔ _
  rw [hnum, hmemNew]
  rcases eq_or_ne m n with rfl | hne
  · simp [hstatus]
  · rcases Nat.lt_or_ge m tree.numNodes with hm | hm
    · have hleft : m ≠ tree.numNodes := by omega
      have hright : m ≠ tree.numNodes + 1 := by omega
      have hlt : m < tree.numNodes + 2 := by omega
      simp [SearchTree.IsOpen, (hsame m hm hne).1, hm, hlt, hne, hleft, hright]
    · constructor
      · rintro ⟨hlt, -⟩
        exact ⟨.inr (by omega), hne⟩
      · rintro ⟨⟨hlt, -⟩ | rfl | rfl, -⟩
        · omega
        · exact ⟨by omega, hdown⟩
        · exact ⟨by omega, hup⟩

end

end CuOpt.BranchAndBound
