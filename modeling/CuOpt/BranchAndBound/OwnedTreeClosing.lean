import CuOpt.BranchAndBound.OwnedTree

/-! Closing leaves in any order: the tree in memory is a function of which leaves are closed, so each
branched node is collapsed once, at the moment when both of its subtrees are closed. -/

namespace CuOpt.BranchAndBound

open List
open Bool (false_eq_true)

namespace OwnedTree

def chainLength : OwnedTree → ℕ
  | .nil => 0
  | .node _ _ up => up.chainLength + 1

def ids (t : OwnedTree) : List ℕ := t.nodes.map NodeData.nodeId

lemma chainLength_le_size (t : OwnedTree) : t.chainLength ≤ t.size := by
  induction t with
  | nil => exact le_rfl
  | node data down up ihdown ihup =>
    simp only [chainLength, size]
    omega

/-- Each round rotates or deletes, and either one brings the end nearer by one. -/
theorem deleteChain_eq {fuel : ℕ} {t : OwnedTree} (hfuel : 2 * t.size ≤ fuel + t.chainLength) :
    deleteChain fuel t = t.ids := by
  induction fuel generalizing t with
  | zero =>
    cases t with
    | nil => rfl
    | node data down up =>
      have hle := chainLength_le_size (.node data down up)
      simp only [size] at hfuel hle
      omega
  | succ fuel ih =>
    cases t with
    | nil => rfl
    | node data down right =>
      cases down with
      | nil =>
        rw [deleteChain, ih]
        · rfl
        · simp only [size, chainLength] at hfuel
          omega
      | node left down up =>
        rw [deleteChain, ih]
        · simp only [ids, nodes, append_assoc, cons_append]
        · simp only [size, chainLength] at hfuel ⊢
          omega

/-- The destructor deletes the nodes of a subtree, each once. -/
theorem reset_perm (t : OwnedTree) : t.reset.Perm t.ids := by
  cases t with
  | nil => exact .refl _
  | node data down up =>
    have hdown : deleteChain (2 * down.size) down = down.ids := deleteChain_eq (by omega)
    have hup : deleteChain (2 * up.size) up = up.ids := deleteChain_eq (by omega)
    rw [reset, hdown, hup, append_assoc]
    simp only [ids, nodes, map_append, map_cons]
    exact List.Perm.append_left _ (perm_append_singleton _ _)

end OwnedTree

namespace History

def id : History → ℕ
  | .leaf id _ _ => id
  | .branched id _ _ _ => id

def closed : History → Bool
  | .leaf _ _ status => inactiveStatus status
  | .branched _ _ down up => down.closed && up.closed

def openCount (h : History) : ℤ := if h.closed then 0 else 1

def data : History → NodeData
  | .leaf id bound status => ⟨id, status, bound, 0⟩
  | .branched id bound down up =>
    if down.closed && up.closed then
      ⟨id, .fathomed, min down.data.lowerBound up.data.lowerBound, 0⟩
    else ⟨id, .hasChildren, bound, down.openCount + up.openCount⟩

def present : History → OwnedTree
  | .leaf id bound status => .node (History.leaf id bound status).data .nil .nil
  | .branched id bound down up =>
    let data := (History.branched id bound down up).data
    if down.closed && up.closed then .node data .nil .nil else .node data down.present up.present

def ids : History → List ℕ
  | .leaf id _ _ => [id]
  | .branched id _ down up => down.ids ++ id :: up.ids

def subtrees : History → List History
  | .leaf id bound status => [.leaf id bound status]
  | .branched id bound down up =>
    down.subtrees ++ .branched id bound down up :: up.subtrees

def leaves : History → List (WithTop ℚ × NodeStatus)
  | .leaf _ bound status => [(bound, status)]
  | .branched _ _ down up => down.leaves ++ up.leaves

def closedBranches : History → List ℕ
  | .leaf _ _ _ => []
  | .branched id _ down up =>
    down.closedBranches ++ (if down.closed && up.closed then [id] else []) ++ up.closedBranches

def bound : History → WithTop ℚ
  | .leaf _ bound _ => bound
  | .branched _ bound _ _ => bound

def Monotone : History → Prop
  | .leaf _ _ _ => True
  | .branched _ bound down up =>
    bound ≤ down.bound ∧ bound ≤ up.bound ∧ down.Monotone ∧ up.Monotone

instance Monotone.decidable : (h : History) → Decidable h.Monotone
  | .leaf _ _ _ => isTrue trivial
  | .branched _ bound down up =>
    haveI := Monotone.decidable down
    haveI := Monotone.decidable up
    inferInstanceAs
      (Decidable (bound ≤ down.bound ∧ bound ≤ up.bound ∧ down.Monotone ∧ up.Monotone))

structure Frame where
  id : ℕ
  bound : WithTop ℚ
  side : BranchDirection
  sibling : History

def Frame.join (f : Frame) (t : History) : History :=
  match f.side with
  | .down => .branched f.id f.bound t f.sibling
  | .up => .branched f.id f.bound f.sibling t

def plug (t : History) : List Frame → History
  | [] => t
  | f :: fs => plug (f.join t) fs

def Frame.present (f : Frame) : OwnedTree.Frame :=
  ⟨⟨f.id, .hasChildren, f.bound, 1 + f.sibling.openCount⟩, f.side, f.sibling.present⟩

lemma plug_append' (t : OwnedTree) (fs gs : List OwnedTree.Frame) :
    t.plug (fs ++ gs) = (t.plug fs).plug gs := by
  induction fs generalizing t with
  | nil => rfl
  | cons f fs ih => exact ih _

lemma plug_append (t : History) (fs gs : List Frame) : plug t (fs ++ gs) = plug (plug t fs) gs := by
  induction fs generalizing t with
  | nil => rfl
  | cons f fs ih => exact ih (f.join t)

lemma join_closed (f : Frame) (t : History) :
    (f.join t).closed = (t.closed && f.sibling.closed) := by
  cases hside : f.side with
  | down => simp only [Frame.join, hside, closed]
  | up => simp only [Frame.join, hside, closed, Bool.and_comm]

variable {t h t' : History}

lemma plug_open (ht : t.closed = false) (fs : List Frame) : (plug t fs).closed = false := by
  induction fs generalizing t with
  | nil => exact ht
  | cons f fs ih =>
    apply ih
    rw [join_closed, ht, Bool.false_and]

lemma present_of_closed (hclosed : h.closed = true) : h.present = .node h.data .nil .nil := by
  cases h with
  | leaf id bound status => rfl
  | branched id bound down up =>
    have hboth : (down.closed && up.closed) = true := hclosed
    simp only [present, hboth, if_true]

lemma present_join_open (f : Frame) (ht : t.closed = false) :
    (f.join t).present =
      .node f.present.data (f.present.down t.present) (f.present.up t.present) := by
  cases hside : f.side with
  | down =>
    simp [Frame.join, hside, present, data, Frame.present, OwnedTree.Frame.down,
      OwnedTree.Frame.up, ht, openCount]
  | up =>
    simp [Frame.join, hside, present, data, Frame.present, OwnedTree.Frame.down,
      OwnedTree.Frame.up, ht, openCount, add_comm]

lemma present_plug_open (ht : t.closed = false) (fs : List Frame) :
    t.present.plug (fs.map Frame.present) = (plug t fs).present := by
  induction fs generalizing t with
  | nil => rfl
  | cons f fs ih =>
    have hjoin : (f.join t).closed = false := by rw [join_closed, ht, Bool.false_and]
    rw [map_cons, OwnedTree.plug, ← present_join_open f ht, ih hjoin]
    rfl

def collapsing : List Frame → List ℕ
  | [] => []
  | f :: fs => if f.sibling.closed then f.id :: collapsing fs else []

def freeing (t : History) : List Frame → List ℕ
  | [] => []
  | f :: fs =>
    if f.sibling.closed then
      (match f.side with
        | .down => [t.id, f.sibling.id]
        | .up => [f.sibling.id, t.id]) ++ freeing (f.join t) fs
    else []

lemma data_nodeId (h : History) : h.data.nodeId = h.id := by
  cases h with
  | leaf id bound status => rfl
  | branched id bound down up =>
    unfold data
    split_ifs <;> rfl

lemma reset_of_closed (hclosed : h.closed = true) : h.present.reset = [h.id] := by
  rw [present_of_closed hclosed, ← data_nodeId]
  rfl

/-- The walk up from a closed node collapses the ancestors whose other child is closed. -/
lemma walkUp_present (ht : t.closed = true) (fs : List Frame) :
    OwnedTree.walkUp t.present (fs.map Frame.present) =
      some ⟨(plug t fs).present, collapsing fs, freeing t fs⟩ := by
  induction fs generalizing t with
  | nil => rfl
  | cons f fs ih =>
    cases hsibling : f.sibling.closed with
    | false =>
      have hold : f.present.data.numChildren = 2 := by
        simp [Frame.present, openCount, hsibling]
      have hjoin : (f.join t).closed = false := by rw [join_closed, ht, hsibling]; rfl
      have hnode : (f.join t).present = .node { f.present.data with numChildren := 2 - 1 }
          (f.present.down t.present) (f.present.up t.present) := by
        cases hside : f.side with
        | down => simp [Frame.join, hside, present, data, Frame.present, OwnedTree.Frame.down,
            OwnedTree.Frame.up, ht, hsibling, openCount]
        | up => simp [Frame.join, hside, present, data, Frame.present, OwnedTree.Frame.down,
            OwnedTree.Frame.up, ht, hsibling, openCount]
      rw [map_cons, OwnedTree.walkUp, hold, if_pos (by decide), ← hnode,
        present_plug_open hjoin, collapsing, freeing, hsibling]
      rfl
    | true =>
      have hold : f.present.data.numChildren = 1 := by
        simp [Frame.present, openCount, hsibling]
      have hjoin : (f.join t).closed = true := by rw [join_closed, ht, hsibling]; rfl
      have hrest := ih hjoin
      rw [present_of_closed hjoin] at hrest
      have hpresent := present_of_closed ht
      have hpresent' := present_of_closed hsibling
      have hreset := reset_of_closed ht
      have hreset' := reset_of_closed hsibling
      rw [hpresent] at hreset
      rw [hpresent'] at hreset'
      rw [map_cons, OwnedTree.walkUp, hold, if_neg (by decide), collapsing, freeing,
        if_pos hsibling, if_pos hsibling]
      cases hside : f.side with
      | down =>
        have hdata : (f.join t).data = ⟨f.id, .fathomed,
            min t.data.lowerBound f.sibling.data.lowerBound, 0⟩ := by
          simp [Frame.join, hside, data, ht, hsibling]
        rw [hdata] at hrest
        simp only [OwnedTree.Frame.down, OwnedTree.Frame.up, Frame.present, hside, hpresent,
          hpresent', hreset, hreset', sub_self]
        rw [hrest]
        rfl
      | up =>
        have hdata : (f.join t).data = ⟨f.id, .fathomed,
            min f.sibling.data.lowerBound t.data.lowerBound, 0⟩ := by
          simp [Frame.join, hside, data, ht, hsibling]
        rw [hdata] at hrest
        simp only [OwnedTree.Frame.down, OwnedTree.Frame.up, Frame.present, hside, hpresent,
          hpresent', hreset, hreset', sub_self]
        rw [hrest]
        rfl

variable {path : List BranchDirection} {fs₀ frames : List OwnedTree.Frame}

lemma descend_plug {t₀ t : OwnedTree} (h : t₀.descend path fs₀ = some (t, frames)) :
    ∃ fs, frames = fs ++ fs₀ ∧
      ∀ t' : OwnedTree, (t'.plug fs).descend path fs₀ = some (t', frames) := by
  induction path generalizing t₀ fs₀ with
  | nil =>
    rw [OwnedTree.descend] at h
    cases h
    exact ⟨[], rfl, fun t' => by rw [OwnedTree.descend]; rfl⟩
  | cons side path ih =>
    cases t₀ with
    | nil => cases h
    | node data down up =>
      cases side with
      | down =>
        obtain ⟨fs, hframes, hplug⟩ := ih h
        refine ⟨fs ++ [⟨data, .down, up⟩], by rw [hframes, append_assoc]; rfl, ?_⟩
        intro t'
        rw [plug_append']
        exact hplug t'
      | up =>
        obtain ⟨fs, hframes, hplug⟩ := ih h
        refine ⟨fs ++ [⟨data, .up, down⟩], by rw [hframes, append_assoc]; rfl, ?_⟩
        intro t'
        rw [plug_append']
        exact hplug t'

lemma descend_childless {data : NodeData} {data' : NodeData} {down up : OwnedTree}
    (h : (OwnedTree.node data .nil .nil).descend path fs₀ = some (.node data' down up, frames)) :
    path = [] ∧ data' = data ∧ frames = fs₀ := by
  match path with
  | [] =>
    cases h
    exact ⟨rfl, rfl, rfl⟩
  | [.down] => cases h
  | [.up] => cases h
  | .down :: _ :: _ => cases h
  | .up :: _ :: _ => cases h

lemma data_of_closed {id : ℕ} {b : WithTop ℚ} {down up : History}
    (hboth : (down.closed && up.closed) = true) :
    (History.branched id b down up).data =
      ⟨id, .fathomed, min down.data.lowerBound up.data.lowerBound, 0⟩ := by
  rw [data, if_pos hboth]

lemma data_of_open {id : ℕ} {b : WithTop ℚ} {down up : History}
    (hboth : (down.closed && up.closed) = false) :
    (History.branched id b down up).data =
      ⟨id, .hasChildren, b, down.openCount + up.openCount⟩ := by
  rw [data, hboth]
  rfl

lemma descend_present {leaf : NodeData}
    (hleaf : h.present.descend path fs₀ = some (.node leaf .nil .nil, frames))
    (hpending : leaf.status = .pending) :
    ∃ fs id b, frames = fs.map Frame.present ++ fs₀ ∧ leaf = ⟨id, .pending, b, 0⟩ ∧
      h = plug (.leaf id b .pending) fs ∧ ∀ f, h.atLeaf f path = plug (f id) fs := by
  induction h generalizing path fs₀ with
  | leaf id b status =>
    obtain ⟨rfl, rfl, rfl⟩ := descend_childless hleaf
    have hstatus : status = .pending := hpending
    subst hstatus
    exact ⟨[], id, b, rfl, rfl, rfl, fun f => rfl⟩
  | branched id b down up ihdown ihup =>
    cases hboth : (down.closed && up.closed) with
    | true =>
      have hclosed : (History.branched id b down up).closed = true := hboth
      rw [present_of_closed hclosed] at hleaf
      obtain ⟨-, rfl, -⟩ := descend_childless hleaf
      rw [data_of_closed hboth] at hpending
      cases hpending
    | false =>
      rw [present, hboth, data_of_open hboth] at hleaf
      simp only [false_eq_true, if_false] at hleaf
      match path with
      | [] =>
        rw [OwnedTree.descend] at hleaf
        injection hleaf with hpair
        injection hpair with hnode
        injection hnode with hdata
        rw [← hdata] at hpending
        cases hpending
      | .down :: path =>
        obtain ⟨fs, id', b', hframes, hdata, hdown, hat⟩ := ihdown hleaf
        have hopen : down.openCount = 1 := by
          rw [openCount, hdown, plug_open rfl]
          rfl
        refine ⟨fs ++ [⟨id, b, .down, up⟩], id', b', ?_, hdata, ?_, ?_⟩
        · rw [hframes, hopen, map_append, append_assoc]
          rfl
        · rw [plug_append, ← hdown]
          rfl
        · intro f
          rw [plug_append, ← hat f]
          rfl
      | .up :: path =>
        obtain ⟨fs, id', b', hframes, hdata, hup, hat⟩ := ihup hleaf
        have hopen : up.openCount = 1 := by
          rw [openCount, hup, plug_open rfl]
          rfl
        refine ⟨fs ++ [⟨id, b, .up, down⟩], id', b', ?_, hdata, ?_, ?_⟩
        · rw [hframes, hopen, add_comm, map_append, append_assoc]
          rfl
        · rw [plug_append, ← hup]
          rfl
        · intro f
          rw [plug_append, ← hat f]
          rfl

lemma ids_plug (new : List ℕ) (h : t'.ids.Perm (new ++ t.ids)) (fs : List Frame) :
    (plug t' fs).ids.Perm (new ++ (plug t fs).ids) := by
  induction fs generalizing t t' with
  | nil => exact h
  | cons f fs ih =>
    apply ih
    rw [perm_iff_count] at h ⊢
    intro a
    have hcount := h a
    simp only [count_append] at hcount
    cases hside : f.side with
    | down =>
      simp only [Frame.join, hside, ids, count_append]
      omega
    | up =>
      simp only [Frame.join, hside, ids, count_append, count_cons]
      omega

lemma closedBranches_plug_open (new : List ℕ) (ht : t.closed = false) (ht' : t'.closed = false)
    (h : t'.closedBranches.Perm (new ++ t.closedBranches)) (fs : List Frame) :
    (plug t' fs).closedBranches.Perm (new ++ (plug t fs).closedBranches) := by
  induction fs generalizing t t' with
  | nil => exact h
  | cons f fs ih =>
    apply ih
    · rw [join_closed, ht, Bool.false_and]
    · rw [join_closed, ht', Bool.false_and]
    · rw [perm_iff_count] at h ⊢
      intro a
      have hcount := h a
      simp only [count_append] at hcount
      cases hside : f.side with
      | down =>
        simp only [Frame.join, hside, closedBranches, ht, ht', Bool.false_and, count_append]
        omega
      | up =>
        simp only [Frame.join, hside, closedBranches, ht, ht', Bool.and_false, count_append]
        omega

lemma closedBranches_plug_close (new : List ℕ) (ht : t.closed = false) (ht' : t'.closed = true)
    (h : t'.closedBranches.Perm (new ++ t.closedBranches)) (fs : List Frame) :
    (plug t' fs).closedBranches.Perm (new ++ collapsing fs ++ (plug t fs).closedBranches) := by
  induction fs generalizing t t' new with
  | nil =>
    rw [collapsing, append_nil]
    exact h
  | cons f fs ih =>
    have hopen : (f.join t).closed = false := by rw [join_closed, ht, Bool.false_and]
    rw [perm_iff_count] at h
    cases hsibling : f.sibling.closed with
    | false =>
      have hopen' : (f.join t').closed = false := by rw [join_closed, ht', hsibling]; rfl
      rw [collapsing, if_neg (by simp [hsibling]), append_nil]
      apply closedBranches_plug_open new hopen hopen'
      rw [perm_iff_count]
      intro a
      have hcount := h a
      simp only [count_append] at hcount
      cases hside : f.side with
      | down =>
        simp only [Frame.join, hside, closedBranches, ht, hsibling, Bool.and_false, count_append]
        omega
      | up =>
        simp only [Frame.join, hside, closedBranches, ht, hsibling, Bool.false_and, count_append]
        omega
    | true =>
      have hclosed' : (f.join t').closed = true := by rw [join_closed, ht', hsibling]; rfl
      have hjoin : (f.join t').closedBranches.Perm
          (new ++ [f.id] ++ (f.join t).closedBranches) := by
        rw [perm_iff_count]
        intro a
        have hcount := h a
        simp only [count_append] at hcount
        cases hside : f.side with
        | down =>
          simp only [Frame.join, hside, closedBranches, ht, ht', hsibling, Bool.false_and,
            Bool.true_and, if_true, false_eq_true, if_false, count_append, count_nil]
          omega
        | up =>
          simp only [Frame.join, hside, closedBranches, ht, ht', hsibling, Bool.and_false,
            Bool.true_and, if_true, false_eq_true, if_false, count_append, count_nil]
          omega
      have hrest := ih _ hopen hclosed' hjoin
      rw [collapsing, if_pos hsibling]
      rw [append_assoc new, singleton_append] at hrest
      exact hrest

lemma present_ids_join_open (f : Frame) (ht : t.closed = false) :
    (f.join t).present.ids.Perm (f.id :: (t.present.ids ++ f.sibling.present.ids)) := by
  rw [present_join_open f ht, perm_iff_count]
  intro a
  cases hside : f.side with
  | down | up =>
    simp only [OwnedTree.ids, OwnedTree.nodes, OwnedTree.Frame.down, OwnedTree.Frame.up,
      Frame.present, hside, map_append, map_cons, count_append, count_cons]
    omega

lemma present_ids_of_closed (ht : t.closed = true) : t.present.ids = [t.id] := by
  rw [present_of_closed ht, ← data_nodeId]
  rfl

lemma join_id (f : Frame) (t : History) : (f.join t).id = f.id := by
  cases hside : f.side with
  | down | up => simp only [Frame.join, hside, id]

lemma present_ids_plug_open (new : List ℕ) (ht : t.closed = false) (ht' : t'.closed = false)
    (h : t'.present.ids.Perm (new ++ t.present.ids)) (fs : List Frame) :
    (plug t' fs).present.ids.Perm (new ++ (plug t fs).present.ids) := by
  induction fs generalizing t t' with
  | nil => exact h
  | cons f fs ih =>
    apply ih
    · rw [join_closed, ht, Bool.false_and]
    · rw [join_closed, ht', Bool.false_and]
    · have hjoin := present_ids_join_open f ht
      have hjoin' := present_ids_join_open f ht'
      rw [perm_iff_count] at h hjoin hjoin' ⊢
      intro a
      have hcount := h a
      simp only [count_append] at hcount
      rw [count_append, hjoin a, hjoin' a]
      simp only [count_append, count_cons]
      omega

/-- A parent that is still open has the closed child below it in memory. -/
lemma present_ids_join_sibling (f : Frame) (t : History) (hsibling : f.sibling.closed = false) :
    (f.join t).present.ids.Perm (f.id :: (t.present.ids ++ f.sibling.present.ids)) := by
  rw [perm_iff_count]
  intro a
  cases hside : f.side with
  | down =>
    simp only [Frame.join, hside, present, data, hsibling, Bool.and_false, false_eq_true,
      if_false, OwnedTree.ids, OwnedTree.nodes, map_append, map_cons, count_append, count_cons]
    omega
  | up =>
    simp only [Frame.join, hside, present, data, hsibling, Bool.false_and, false_eq_true,
      if_false, OwnedTree.ids, OwnedTree.nodes, map_append, map_cons, count_append, count_cons]
    omega

lemma present_ids_plug_close (gone : List ℕ) (ht : t.closed = false) (ht' : t'.closed = true)
    (h : (t'.present.ids ++ gone).Perm t.present.ids) (fs : List Frame) :
    ((plug t' fs).present.ids ++ (gone ++ freeing t' fs)).Perm (plug t fs).present.ids := by
  induction fs generalizing t t' gone with
  | nil =>
    rw [freeing, append_nil]
    exact h
  | cons f fs ih =>
    have hopen : (f.join t).closed = false := by rw [join_closed, ht, Bool.false_and]
    have hjoin := present_ids_join_open f ht
    rw [perm_iff_count] at h hjoin
    cases hsibling : f.sibling.closed with
    | false =>
      have hopen' : (f.join t').closed = false := by rw [join_closed, ht', hsibling]; rfl
      have hjoin' := present_ids_join_sibling f t' hsibling
      rw [perm_iff_count] at hjoin'
      rw [freeing, if_neg (by simp [hsibling]), append_nil]
      have hnode : (f.join t).present.ids.Perm (gone ++ (f.join t').present.ids) := by
        rw [perm_iff_count]
        intro a
        have hcount := h a
        rw [count_append] at hcount ⊢
        rw [hjoin a, hjoin' a]
        simp only [count_append, count_cons]
        omega
      have hplug := present_ids_plug_open gone hopen' hopen hnode fs
      exact (perm_append_comm.trans hplug.symm)
    | true =>
      have hclosed' : (f.join t').closed = true := by rw [join_closed, ht', hsibling]; rfl
      have hsib := present_ids_of_closed hsibling
      have hself := present_ids_of_closed ht'
      have hparent := present_ids_of_closed hclosed'
      rw [join_id] at hparent
      have hnode : ((f.join t').present.ids ++ (gone ++ [t'.id, f.sibling.id])).Perm
          (f.join t).present.ids := by
        rw [perm_iff_count]
        intro a
        have hcount := h a
        rw [hself] at hcount
        rw [hjoin a, hparent, hsib]
        simp only [count_append, count_cons, count_nil] at hcount ⊢
        omega
      have hrest := ih _ hopen hclosed' hnode
      rw [perm_iff_count] at hrest ⊢
      intro a
      rw [plug, plug, ← hrest a, freeing, if_pos hsibling]
      cases f.side with
      | down =>
        simp only [count_append, count_cons, count_nil]
        omega
      | up =>
        simp only [count_append, count_cons, count_nil]
        omega

lemma closed_iff : h.closed = true ↔ ∀ l ∈ h.leaves, inactiveStatus l.2 = true := by
  induction h with
  | leaf id b status => simp only [closed, leaves, mem_singleton, forall_eq]
  | branched id b down up ihdown ihup =>
    simp only [closed, leaves, Bool.and_eq_true, ihdown, ihup, mem_append, or_imp, forall_and]

lemma inactive_data (h : History) : inactiveStatus h.data.status = h.closed := by
  cases h with
  | leaf id b status => rfl
  | branched id b down up =>
    cases hboth : (down.closed && up.closed) with
    | true =>
      rw [data_of_closed hboth, closed, hboth]
      rfl
    | false =>
      rw [data_of_open hboth, closed, hboth]
      rfl

lemma closedBranches_sublist (h : History) : h.closedBranches.Sublist h.ids := by
  induction h with
  | leaf id b status => exact nil_sublist _
  | branched id b down up ihdown ihup =>
    rw [closedBranches, ids, append_assoc]
    apply ihdown.append
    split_ifs
    · exact ihup.cons_cons id
    · exact ihup.cons id

lemma mem_closedBranches {i : ℕ} : i ∈ h.closedBranches ↔
    ∃ b down up, History.branched i b down up ∈ h.subtrees ∧
      down.closed = true ∧ up.closed = true := by
  induction h with
  | leaf id b status => simp [closedBranches, subtrees]
  | branched id b down up ihdown ihup =>
    simp only [closedBranches, subtrees, mem_append, mem_cons, ihdown, ihup]
    constructor
    · rintro ((⟨b', d, u, hmem, hclosed⟩ | hself) | ⟨b', d, u, hmem, hclosed⟩)
      · exact ⟨b', d, u, .inl hmem, hclosed⟩
      · split_ifs at hself with hboth
        · obtain rfl : i = id := by simpa using hself
          exact ⟨b, down, up, .inr (.inl rfl), by simpa using hboth⟩
        · cases hself
      · exact ⟨b', d, u, .inr (.inr hmem), hclosed⟩
    · rintro ⟨b', d, u, hmem | hself | hmem, hclosed⟩
      · exact .inl (.inl ⟨b', d, u, hmem, hclosed⟩)
      · cases hself
        exact .inl (.inr (by simp [hclosed.1, hclosed.2]))
      · exact .inr ⟨b', d, u, hmem, hclosed⟩

lemma subtrees_ids (h : History) : h.subtrees.map History.id = h.ids := by
  induction h with
  | leaf id b status => rfl
  | branched id b down up ihdown ihup =>
    simp only [subtrees, ids, map_append, map_cons, ihdown, ihup, History.id]

lemma eq_of_id (hnodup : h.ids.Nodup) (ht : t ∈ h.subtrees) (ht' : t' ∈ h.subtrees)
    (hid : t.id = t'.id) : t = t' := by
  rw [← subtrees_ids] at hnodup
  exact inj_on_of_nodup_map hnodup ht ht' hid

lemma present_nodes {n : NodeData} (hn : n ∈ h.present.nodes) : ∃ t ∈ h.subtrees, t.data = n := by
  induction h with
  | leaf id b status =>
    exact ⟨.leaf id b status, mem_singleton_self _, (mem_singleton.mp hn).symm⟩
  | branched id b down up ihdown ihup =>
    have hself : History.branched id b down up ∈ (History.branched id b down up).subtrees := by
      simp only [subtrees, mem_append, mem_cons, true_or, or_true]
    cases hboth : (down.closed && up.closed) with
    | true =>
      have hclosed : (History.branched id b down up).closed = true := hboth
      rw [present_of_closed hclosed] at hn
      exact ⟨_, hself, (mem_singleton.mp hn).symm⟩
    | false =>
      rw [present, hboth] at hn
      simp only [false_eq_true, if_false, OwnedTree.nodes, mem_append, mem_cons] at hn
      rcases hn with hdown | rfl | hup
      · obtain ⟨t, ht, hdata⟩ := ihdown hdown
        exact ⟨t, mem_append_left _ ht, hdata⟩
      · exact ⟨_, hself, rfl⟩
      · obtain ⟨t, ht, hdata⟩ := ihup hup
        exact ⟨t, mem_append_right _ (mem_cons_of_mem _ ht), hdata⟩

lemma Monotone.subtree (hmono : h.Monotone) (ht : t ∈ h.subtrees) : t.Monotone := by
  induction h with
  | leaf id b status =>
    rw [mem_singleton.mp ht]
    exact hmono
  | branched id b down up ihdown ihup =>
    obtain ⟨hbdown, hbup, hdown, hup⟩ := hmono
    rcases mem_append.mp ht with hmem | hmem
    · exact ihdown hdown hmem
    · rcases mem_cons.mp hmem with rfl | hmem
      · exact ⟨hbdown, hbup, hdown, hup⟩
      · exact ihup hup hmem

lemma Monotone.bound_le (hmono : h.Monotone) : ∀ l ∈ h.leaves, h.bound ≤ l.1 := by
  induction h with
  | leaf id b status =>
    intro l hl
    rw [mem_singleton.mp hl]
    exact le_rfl
  | branched id b down up ihdown ihup =>
    obtain ⟨hbdown, hbup, hdown, hup⟩ := hmono
    intro l hl
    rcases mem_append.mp hl with hl | hl
    · exact hbdown.trans (ihdown hdown l hl)
    · exact hbup.trans (ihup hup l hl)

lemma Monotone.lowerBound_le (hmono : h.Monotone) : ∀ l ∈ h.leaves, h.data.lowerBound ≤ l.1 := by
  induction h with
  | leaf id b status => exact hmono.bound_le
  | branched id b down up ihdown ihup =>
    cases hboth : (down.closed && up.closed) with
    | true =>
      rw [data_of_closed hboth]
      intro l hl
      rcases mem_append.mp hl with hl | hl
      · exact (min_le_left _ _).trans (ihdown hmono.2.2.1 l hl)
      · exact (min_le_right _ _).trans (ihup hmono.2.2.2 l hl)
    | false =>
      rw [data_of_open hboth]
      exact hmono.bound_le

end History

structure ClosingState.Inv (s : ClosingState) : Prop where
  root : s.root = s.history.present
  collapsed : s.collapsed.Perm s.history.closedBranches
  freed : (s.root.ids ++ s.freed).Perm s.history.ids
  nodup : s.history.ids.Nodup
  numbered : ∀ id ∈ s.history.ids, id ≤ s.numNodes

namespace ClosingState

open History

variable {s s' : ClosingState} {path : List BranchDirection}

lemma close_eq (hinv : s.Inv) {leaf : NodeData} {frames : List OwnedTree.Frame}
    (hleaf : s.root.descend path [] = some (.node leaf .nil .nil, frames))
    (hpending : leaf.status = .pending) {status : NodeStatus}
    (hstatus : inactiveStatus status = true) (bound : WithTop ℚ) :
    ∃ fs id b, s.history = plug (.leaf id b .pending) fs ∧
      s.step (.close path status bound) = some { s with
        root := (plug (.leaf id bound status) fs).present
        collapsed := s.collapsed ++ collapsing fs
        freed := s.freed ++ freeing (.leaf id bound status) fs
        history := plug (.leaf id bound status) fs } := by
  have hpresent := hleaf
  rw [hinv.root] at hpresent
  obtain ⟨fs, id, b, hframes, hdata, hhistory, hat⟩ := descend_present hpresent hpending
  rw [append_nil] at hframes
  obtain ⟨fs', hfs', hplug⟩ := descend_plug hleaf
  rw [append_nil] at hfs'
  subst hfs'
  refine ⟨fs, id, b, hhistory, ?_⟩
  have hclosed : (History.leaf id bound status).closed = true := hstatus
  have hwalk := walkUp_present hclosed fs
  rw [← hframes] at hwalk
  simp only [step, hleaf, hpending, hstatus, true_and, if_true, OwnedTree.setStatus, hplug]
  rw [hdata]
  have hnode : OwnedTree.node ⟨id, status, bound, 0⟩ .nil .nil =
      (History.leaf id bound status).present := rfl
  rw [hnode, hwalk, hat]

lemma branch_eq (hinv : s.Inv) {leaf : NodeData} {frames : List OwnedTree.Frame}
    (hleaf : s.root.descend path [] = some (.node leaf .nil .nil, frames))
    (hpending : leaf.status = .pending) (bound : WithTop ℚ) :
    ∃ fs id b, s.history = plug (.leaf id b .pending) fs ∧
      ∀ t, t = History.branched id bound (.leaf (s.numNodes + 1) bound .pending)
          (.leaf (s.numNodes + 2) bound .pending) →
        s.step (.branch path bound) = some { s with
          root := (plug t fs).present
          numNodes := s.numNodes + 2
          history := plug t fs } := by
  have hpresent := hleaf
  rw [hinv.root] at hpresent
  obtain ⟨fs, id, b, hframes, hdata, hhistory, hat⟩ := descend_present hpresent hpending
  rw [append_nil] at hframes
  obtain ⟨fs', hfs', hplug⟩ := descend_plug hleaf
  rw [append_nil] at hfs'
  subst hfs'
  refine ⟨fs, id, b, hhistory, ?_⟩
  intro t ht
  have hopen : t.closed = false := by
    rw [ht]
    rfl
  have hnode : t.present = .node ⟨id, .hasChildren, bound, 2⟩
      (.node ⟨s.numNodes + 1, .pending, bound, 0⟩ .nil .nil)
      (.node ⟨s.numNodes + 2, .pending, bound, 0⟩ .nil .nil) := by
    rw [ht]
    rfl
  have hplugged := present_plug_open hopen fs
  rw [← hframes, hnode] at hplugged
  simp only [step, hleaf, hpending, if_true, OwnedTree.setStatus, branchLeaf, hplug]
  rw [hdata, hat, ← ht, ← hplugged]
  rfl

lemma step_branch_open {bound : WithTop ℚ} (hstep : s.step (.branch path bound) = some s') :
    ∃ leaf frames, s.root.descend path [] = some (.node leaf .nil .nil, frames) ∧
      leaf.status = .pending := by
  rw [step] at hstep
  split at hstep
  · rename_i leaf frames hleaf
    by_cases hpending : leaf.status = .pending
    · exact ⟨leaf, frames, hleaf, hpending⟩
    · rw [if_neg hpending] at hstep
      cases hstep
  · cases hstep

lemma step_close_open {status : NodeStatus} {bound : WithTop ℚ}
    (hstep : s.step (.close path status bound) = some s') :
    ∃ leaf frames, s.root.descend path [] = some (.node leaf .nil .nil, frames) ∧
      leaf.status = .pending ∧ inactiveStatus status = true := by
  rw [step] at hstep
  split at hstep
  · rename_i leaf frames hleaf
    by_cases hpending : leaf.status = .pending ∧ inactiveStatus status = true
    · exact ⟨leaf, frames, hleaf, hpending⟩
    · rw [if_neg hpending] at hstep
      cases hstep
  · cases hstep

lemma step_inv {op : TreeOp} (hstep : s.step op = some s') (hinv : s.Inv) : s'.Inv := by
  cases op with
  | branch path bound =>
    obtain ⟨leaf, frames, hleaf, hpending⟩ := step_branch_open hstep
    obtain ⟨fs, id, b, hhistory, heq⟩ := branch_eq hinv hleaf hpending bound
    set t := History.branched id bound (.leaf (s.numNodes + 1) bound .pending)
      (.leaf (s.numNodes + 2) bound .pending) with ht
    rw [heq t ht] at hstep
    cases hstep
    have hopen : (History.leaf id b .pending).closed = false := rfl
    have hopen' : t.closed = false := rfl
    have hnew : t.ids.Perm ([s.numNodes + 1, s.numNodes + 2] ++ [id]) := by
      rw [ht]
      exact List.Perm.cons _ (List.Perm.swap _ _ _)
    have hids := ids_plug (t := .leaf id b .pending) _ hnew fs
    have hpresent := present_ids_plug_open (t := .leaf id b .pending) _ hopen hopen' hnew fs
    have hbranches := closedBranches_plug_open [] hopen hopen' (.refl _) fs
    rw [← hhistory] at hids hpresent hbranches
    constructor
    · rfl
    · exact hinv.collapsed.trans hbranches.symm
    · have hfreed := hinv.freed
      rw [hinv.root] at hfreed
      have happend := (hpresent.append_right s.freed).trans (List.Perm.of_eq (append_assoc _ _ _))
      exact happend.trans ((hfreed.append_left _).trans hids.symm)
    · rw [hids.nodup_iff, nodup_append]
      refine ⟨by simp, hinv.nodup, ?_⟩
      intro i hi j hj
      have hle := hinv.numbered j hj
      simp only [mem_cons, not_mem_nil, or_false] at hi
      omega
    · intro i hi
      rcases mem_append.mp (hids.mem_iff.mp hi) with hi | hi
      · simp only [mem_cons, not_mem_nil, or_false] at hi
        change i ≤ s.numNodes + 2
        omega
      · have hle := hinv.numbered i hi
        change i ≤ s.numNodes + 2
        omega
  | close path status bound =>
    obtain ⟨leaf, frames, hleaf, hpending, hstatus⟩ := step_close_open hstep
    obtain ⟨fs, id, b, hhistory, heq⟩ := close_eq hinv hleaf hpending hstatus bound
    rw [heq] at hstep
    cases hstep
    have hopen : (History.leaf id b .pending).closed = false := rfl
    have hclosed : (History.leaf id bound status).closed = true := hstatus
    have hleafIds : (History.leaf id bound status).ids.Perm
        ([] ++ (History.leaf id b .pending).ids) := .refl _
    have hids := ids_plug [] hleafIds fs
    have hpresent := present_ids_plug_close [] hopen hclosed (.refl _) fs
    have hbranches := closedBranches_plug_close [] hopen hclosed (.refl _) fs
    rw [← hhistory] at hids hpresent hbranches
    constructor
    · rfl
    · exact (hinv.collapsed.append_right _).trans (perm_append_comm.trans hbranches.symm)
    · have hfreed := hinv.freed
      rw [hinv.root] at hfreed
      rw [perm_iff_count] at hpresent hfreed hids ⊢
      intro a
      have h₁ := hpresent a
      have h₂ := hfreed a
      have h₃ := hids a
      simp only [count_append, nil_append] at h₁ h₂ h₃ ⊢
      omega
    · exact hids.nodup_iff.mpr hinv.nodup
    · intro i hi
      exact hinv.numbered i (hids.mem_iff.mp hi)

lemma initial_inv (bound : WithTop ℚ) : (initial bound).Inv := by
  constructor
  · rfl
  · exact .refl _
  · exact .refl _
  · exact nodup_singleton 0
  · intro id hid
    rw [mem_singleton.mp hid]
    exact Nat.zero_le _

lemma run_inv {ops : List TreeOp} (hrun : s.run ops = some s') (hinv : s.Inv) : s'.Inv := by
  induction ops generalizing s with
  | nil =>
    cases hrun
    exact hinv
  | cons op ops ih =>
    obtain ⟨mid, hstep, hrest⟩ := Option.bind_eq_some_iff.mp hrun
    exact ih hrest (step_inv hstep hinv)

/-- In any order of branching and closing: a branched node is collapsed once, when all leaves of both
of its subtrees are closed; with bounds that do not fall from parent to child, a node in memory is
bounded by the leaves below it; the root is closed when all leaves are. A closing never meets a
missing child. -/
theorem closing_any_order {bound : WithTop ℚ} {ops : List TreeOp} {s : ClosingState}
    (hrun : (initial bound).run ops = some s) : s.collapsed.Nodup ∧
    (∀ i, i ∈ s.collapsed → ∃ b down up, History.branched i b down up ∈ s.history.subtrees) ∧
    (∀ i b down up, History.branched i b down up ∈ s.history.subtrees →
      (i ∈ s.collapsed ↔ (∀ l ∈ down.leaves, inactiveStatus l.2 = true) ∧
        ∀ l ∈ up.leaves, inactiveStatus l.2 = true)) ∧
    (s.history.Monotone → ∀ n ∈ s.root.nodes, ∃ t ∈ s.history.subtrees, t.id = n.nodeId ∧
      ∀ l ∈ t.leaves, n.lowerBound ≤ l.1) ∧
    (∃ data down up, s.root = .node data down up ∧
      (inactiveStatus data.status = true ↔ ∀ l ∈ s.history.leaves, inactiveStatus l.2 = true)) ∧
    (∀ path leaf frames status b, s.root.descend path [] = some (.node leaf .nil .nil, frames) →
      leaf.status = .pending → inactiveStatus status = true →
        (s.step (.close path status b)).isSome) := by
  have hinv := run_inv hrun (initial_inv bound)
  refine ⟨?_, ?_, ?_, ?_, ?_, ?_⟩
  · apply hinv.collapsed.nodup_iff.mpr
    exact (closedBranches_sublist s.history).nodup hinv.nodup
  · intro i hi
    obtain ⟨b, down, up, hmem, -⟩ := mem_closedBranches.mp (hinv.collapsed.mem_iff.mp hi)
    exact ⟨b, down, up, hmem⟩
  · intro i b down up hmem
    rw [hinv.collapsed.mem_iff, mem_closedBranches, ← closed_iff, ← closed_iff]
    constructor
    · rintro ⟨b', d, u, hmem', hclosed⟩
      cases eq_of_id hinv.nodup hmem hmem' rfl
      exact hclosed
    · intro hclosed
      exact ⟨b, down, up, hmem, hclosed⟩
  · intro hmono n hn
    rw [hinv.root] at hn
    obtain ⟨t, ht, rfl⟩ := present_nodes hn
    exact ⟨t, ht, (data_nodeId t).symm, (hmono.subtree ht).lowerBound_le⟩
  · rw [← closed_iff, ← inactive_data, hinv.root]
    cases hhistory : s.history with
    | leaf id b status => exact ⟨_, _, _, rfl, .rfl⟩
    | branched id b down up =>
      rw [present]
      split_ifs
      · exact ⟨_, _, _, rfl, .rfl⟩
      · exact ⟨_, _, _, rfl, .rfl⟩
  · intro path leaf frames status b hleaf hpending hstatus
    obtain ⟨fs, id, b', -, heq⟩ := close_eq hinv hleaf hpending hstatus b
    rw [heq]
    rfl

/-- The root with bound 5 is branched and its children are closed, the second one first. -/
theorem closing_any_order_two : ∃ s, (initial 5).run
      [.branch [] 5, .close [.up] .infeasible ⊤, .close [.down] .integerFeasible 7] = some s ∧
    s.collapsed.Nodup ∧ ∀ n ∈ s.root.nodes, ∃ t ∈ s.history.subtrees, t.id = n.nodeId ∧
      ∀ l ∈ t.leaves, n.lowerBound ≤ l.1 := by
  have hsome : ((initial 5).run [.branch [] 5, .close [.up] .infeasible ⊤,
      .close [.down] .integerFeasible 7]).any (fun s => decide s.history.Monotone) = true := by
    decide +kernel
  obtain ⟨s, hrun, hmono⟩ := (Option.any_eq_true _ _).mp hsome
  have hmain := closing_any_order hrun
  exact ⟨s, hrun, hmain.1, hmain.2.2.2.1 (of_decide_eq_true hmono)⟩

/-- A node that was created is deleted once, by a collapse or by the destructor of the root. -/
theorem reset_deletes_once {bound : WithTop ℚ} {ops : List TreeOp}
    (hrun : (initial bound).run ops = some s) :
    (s.root.reset ++ s.freed).Perm s.history.ids ∧ (s.root.reset ++ s.freed).Nodup := by
  have hinv := run_inv hrun (initial_inv bound)
  have hperm := ((OwnedTree.reset_perm s.root).append_right s.freed).trans hinv.freed
  exact ⟨hperm, hperm.nodup_iff.mpr hinv.nodup⟩

theorem reset_deletes_once_two : ∃ s, (initial 5).run [.branch [] 5, .close [.up] .infeasible ⊤,
    .branch [.down] 6] = some s ∧ (s.root.reset ++ s.freed).Nodup := by
  have hsome : ((initial 5).run [.branch [] 5, .close [.up] .infeasible ⊤,
      .branch [.down] 6]).isSome = true := by
    decide +kernel
  obtain ⟨s, hrun⟩ := Option.isSome_iff_exists.mp hsome
  exact ⟨s, hrun, (reset_deletes_once hrun).2⟩

/-- A leaf that was cut off keeps the incumbent's value as its bound, and the incumbent may have come
below the bound of the parent while the leaf was solved. -/
theorem cutoff_below_parent : ∃ s, (initial 5).run [.branch [] 5, .close [.down] .fathomed 4] =
      some s ∧ ∃ data down up, s.root = .node data down up ∧
        ∃ l ∈ s.history.leaves, l.1 < data.lowerBound := by
  have hsome : ((initial 5).run [.branch [] 5, .close [.down] .fathomed 4]).any
      (fun s => (match s.root with
        | .node data _ _ => decide (data.lowerBound = 5)
        | .nil => false) && s.history.leaves.any fun l => decide (l.1 = 4)) = true := by
    decide +kernel
  obtain ⟨s, hrun, hs⟩ := (Option.any_eq_true _ _).mp hsome
  rw [Bool.and_eq_true] at hs
  obtain ⟨hroot, hleaf⟩ := hs
  refine ⟨s, hrun, ?_⟩
  cases heq : s.root with
  | nil =>
    rw [heq] at hroot
    cases hroot
  | node data down up =>
    rw [heq] at hroot
    obtain ⟨l, hl, hfour⟩ := List.any_eq_true.mp hleaf
    refine ⟨data, down, up, rfl, l, hl, ?_⟩
    rw [of_decide_eq_true hfour, of_decide_eq_true hroot]
    decide +kernel

end ClosingState

end CuOpt.BranchAndBound
