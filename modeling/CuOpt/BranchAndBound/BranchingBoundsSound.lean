import CuOpt.BranchAndBound.BranchingBounds

/-! However the workers' steps interleave, the bounds of a node contain the feasible points of the root
bounds that satisfy its branching decisions, the children of a node share them out, and a worker that
goes on from its last leaf admits the points that it would admit from the root. -/

namespace CuOpt.BranchAndBound.BranchingBounds

open CuOpt.Simplex Function List
open CuOpt.Cuts (VariableType)
open CuOpt.Simplex.BoundsStrengthening (Whole whole_intCast)
open Activities Activities.Extended
open BufferWrites (getD_set)

section Overwrite

variable {box : Box} {j k : ℕ} {l u l' u' : Extended ℚ}

lemma overwrite_overwrite : overwrite (overwrite box j l' u') j l u = overwrite box j l u := by
  unfold overwrite
  rw [set_set, set_set]

lemma overwrite_comm (h : j ≠ k) :
    overwrite (overwrite box j l u) k l' u' = overwrite (overwrite box k l' u') j l u := by
  unfold overwrite
  rw [set_comm _ _ h, set_comm _ _ h]

lemma overwrite_self (hlower : j < box.lower.length) (hupper : j < box.upper.length) :
    (overwrite box j l u).lb j = l ∧ (overwrite box j l u).ub j = u := by
  unfold overwrite Box.lb Box.ub
  rw [getD_set, if_pos ⟨rfl, hlower⟩, getD_set, if_pos ⟨rfl, hupper⟩]
  exact ⟨rfl, rfl⟩

lemma overwrite_of_ne (h : k ≠ j) :
    (overwrite box j l u).lb k = box.lb k ∧ (overwrite box j l u).ub k = box.ub k := by
  unfold overwrite Box.lb Box.ub
  rw [getD_set, if_neg fun heq => h heq.1.symm, getD_set,
    if_neg fun heq => h heq.1.symm]
  exact ⟨rfl, rfl⟩

end Overwrite

namespace MipNode

variable {start : Box}

variable {parent : MipNode}

lemma update_of_marked {nodeId var : ℕ} {dir : BranchDirection} {v : ℚ} {low up : Extended ℚ}
    (bounds : MarkedBounds) (h : bounds.boundsChanged var = true) :
    (child parent nodeId var dir v low up).updateBranchedVariableBounds bounds = bounds :=
  if_pos h

lemma update_of_unmarked {nodeId var : ℕ} {dir : BranchDirection} {v : ℚ} {low up : Extended ℚ}
    (bounds : MarkedBounds) (h : bounds.boundsChanged var = false) :
    (child parent nodeId var dir v low up).updateBranchedVariableBounds bounds =
      ⟨overwrite bounds.box var low up, update bounds.boundsChanged var true⟩ :=
  if_neg (by rw [h]; exact Bool.false_ne_true)

/-- A column marked by a node below keeps that node's bounds all the way up. -/
lemma updateFromAncestors_overwrite (node : MipNode) (box : Box) (marks : ℕ → Bool) (j : ℕ)
    (l u : Extended ℚ) :
    (node.updateFromAncestors ⟨overwrite box j l u, update marks j true⟩).box =
      overwrite (node.updateFromAncestors ⟨box, marks⟩).box j l u := by
  induction node generalizing box marks l u with
  | root nodeId =>
    rw [updateFromAncestors, updateFromAncestors]
    split_ifs
    · rfl
    · rfl
  | child parent nodeId var dir v low up ih =>
    rw [updateFromAncestors, updateFromAncestors]
    split_ifs with hid
    · by_cases hvar : var = j
      · subst hvar
        rw [update_of_marked ⟨overwrite box var l u, _⟩ (update_self var true marks)]
        cases hmarked : marks var with
        | true =>
          rw [update_of_marked ⟨box, marks⟩ hmarked]
          exact ih box marks l u
        | false =>
          rw [update_of_unmarked ⟨box, marks⟩ hmarked, ih box marks l u,
            ih box marks low up, overwrite_overwrite]
      · have hmark : update marks j true var = marks var := update_of_ne hvar _ _
        cases hmarked : marks var with
        | true =>
          rw [update_of_marked ⟨box, marks⟩ hmarked,
            update_of_marked ⟨overwrite box j l u, _⟩ (hmark.trans hmarked)]
          exact ih box marks l u
        | false =>
          rw [update_of_unmarked ⟨box, marks⟩ hmarked,
            update_of_unmarked ⟨overwrite box j l u, _⟩ (hmark.trans hmarked)]
          dsimp only
          rw [overwrite_comm (Ne.symm hvar), update_comm (Ne.symm hvar)]
          exact ih _ _ l u
    · rfl

def Numbered : MipNode → Prop
  | root _ => True
  | child _ nodeId .. => nodeId ≠ 0

lemma updateFromAncestors_eq {node : MipNode} (h : node.Numbered) (bounds : MarkedBounds) :
    node.updateFromAncestors bounds = node.getVariableBounds bounds := by
  cases node with
  | root nodeId =>
    rw [updateFromAncestors]
    split_ifs
    · rfl
    · rfl
  | child parent nodeId var dir v low up =>
    rw [updateFromAncestors, if_pos (show nodeId ≠ 0 from h)]
    rfl

/-- The frame of the bounds of a child: they are those of its parent but for the branched column. -/
lemma pathBox_child (h : parent.Numbered) (nodeId var : ℕ) (dir : BranchDirection) (v : ℚ)
    (low up : Extended ℚ) :
    (child parent nodeId var dir v low up).pathBox start =
      overwrite (parent.pathBox start) var low up := by
  have hbox := updateFromAncestors_overwrite parent start (fun _ => false) var low up
  rw [updateFromAncestors_eq h ⟨start, fun _ => false⟩] at hbox
  exact hbox

end MipNode

namespace Relaxation

variable (r : Relaxation) (valid : (ℕ → ℚ) → Prop)

/-- A bound for every column, and at the integer columns numbers that no tolerance crosses. -/
structure Proper (box : Box) : Prop where
  lower_length : box.lower.length = r.lp.numCols
  upper_length : box.upper.length = r.lp.numCols
  lower_ne_nan : ∀ k < r.lp.numCols, r.varTypes k ≠ .continuous → box.lb k ≠ nan
  upper_ne_nan : ∀ k < r.lp.numCols, r.varTypes k ≠ .continuous → box.ub k ≠ nan
  sharp : ∀ k < r.lp.numCols, r.varTypes k ≠ .continuous →
    r.nodePresolver.Sharp r.settings k (box.lb k) (box.ub k)

def Inside (box original : Box) : Prop :=
  ∀ k < r.lp.numCols, r.varTypes k ≠ .continuous → ∀ v,
    (AtMost (box.lb k) v → AtMost (original.lb k) v) ∧
      (AtLeast (box.ub k) v → AtLeast (original.ub k) v)

structure LeafOf (node : MipNode) (leaf : Box) : Prop where
  proper : r.Proper leaf
  inside : r.Inside leaf (node.pathBox r.start)
  admits : ∀ x, valid x → r.start.Contains r.lp.numCols x → node.Decisions x →
    leaf.Contains r.lp.numCols x

def Recorded : MipNode → Prop
  | .root _ => True
  | .child parent nodeId var dir v low up => Recorded parent ∧ nodeId ≠ 0 ∧
    ∃ leaf, r.LeafOf valid parent leaf ∧ r.Fractional leaf var v ∧
      MipNode.child parent nodeId var dir v low up = .ofBranch leaf parent nodeId var dir v

/-- A reduction of the leaf problem between its strengthening and its relaxation. -/
def ReductionValid (tree : Tree) : Action → Prop
  | .reduce w box => r.Proper box ∧ r.Inside box (tree.worker w).leaf ∧
    ∀ x, valid x → (tree.worker w).leaf.Contains r.lp.numCols x → box.Contains r.lp.numCols x
  | _ => True

def WorkerInv (worker : Worker) : Prop :=
  match worker.stage with
  | .idle => worker.recomputeBounds = true
  | .solving node => r.Recorded valid node ∧ r.LeafOf valid node worker.leaf
  | .branched node => worker.recomputeBounds = false ∧ r.Recorded valid node ∧
    r.LeafOf valid node worker.leaf

structure Inv (tree : Tree) : Prop where
  nodes : ∀ node ∈ tree.nodes, r.Recorded valid node
  workers : ∀ w, r.WorkerInv valid (tree.worker w)

variable {r valid}

variable {node : MipNode}

lemma Recorded.numbered (h : r.Recorded valid node) : node.Numbered := by
  cases node with
  | root _ => trivial
  | child parent nodeId var dir v low up => exact h.2.1

variable {v : ℚ}

lemma onSide_down_or_up {z : ℚ} (hz : ∃ n : ℤ, z = n) : OnSide .down v z ∨ OnSide .up v z := by
  obtain ⟨n, rfl⟩ := hz
  rcases le_or_gt (n : ℚ) v with hle | hlt
  · exact .inl (Int.cast_le.mpr (Int.le_floor.mpr hle))
  · exact .inr (Int.cast_le.mpr (Int.ceil_le.mpr hlt.le))

lemma not_onSide_both {z : ℚ} (hv : ¬ v.isInt) : ¬ (OnSide .down v z ∧ OnSide .up v z) := by
  rintro ⟨hdown, hup⟩
  have hle : (⌈v⌉ : ℚ) ≤ ⌊v⌋ := le_trans hup hdown
  have hfloor : (⌊v⌋ : ℚ) = v :=
    le_antisymm (Int.floor_le v) ((Int.le_ceil v).trans hle)
  apply hv
  rw [← hfloor]
  exact rfl

variable {leaf : Box}

/-- The bounds stored for a child are those of the leaf on the side of the decision. -/
lemma stored_iff {var : ℕ} (h : r.Fractional leaf var v) {parent : MipNode} {nodeId : ℕ}
    {dir : BranchDirection} {low up : Extended ℚ}
    (hchild : MipNode.child parent nodeId var dir v low up = .ofBranch leaf parent nodeId var dir v)
    (z : ℚ) : (AtMost low z ∧ AtLeast up z) ↔
      (AtMost (leaf.lb var) z ∧ AtLeast (leaf.ub var) z) ∧ OnSide dir v z := by
  obtain ⟨-, -, -, hlower, hupper⟩ := h
  cases dir with
  | down =>
    cases hchild
    constructor
    · rintro ⟨hlow, hup⟩
      exact ⟨⟨hlow, hupper.mono (le_trans hup (Int.floor_le v))⟩, hup⟩
    · rintro ⟨⟨hlow, -⟩, hside⟩
      exact ⟨hlow, hside⟩
  | up =>
    cases hchild
    constructor
    · rintro ⟨hlow, hup⟩
      exact ⟨⟨hlower.mono ((Int.le_ceil v).trans hlow), hup⟩, hlow⟩
    · rintro ⟨⟨-, hup⟩, hside⟩
      exact ⟨hside, hup⟩

lemma stored_proper {var : ℕ} (hleaf : r.Proper leaf) (h : r.Fractional leaf var v)
    {parent : MipNode} {nodeId : ℕ} {dir : BranchDirection} {low up : Extended ℚ}
    (hchild : MipNode.child parent nodeId var dir v low up = .ofBranch leaf parent nodeId var dir v)
    : low ≠ nan ∧ up ≠ nan ∧ r.nodePresolver.Sharp r.settings var low up := by
  obtain ⟨hvar, hint, -, -, -⟩ := h
  have hlow := hleaf.lower_ne_nan var hvar hint
  have hup := hleaf.upper_ne_nan var hvar hint
  have hfinite : ∀ w : ℚ, finite w ≠ nan := nofun
  have hsharp : ∀ e e', (Whole (leaf.lb var) → Whole e) → (Whole (leaf.ub var) → Whole e') →
      r.nodePresolver.Sharp r.settings var e e' := by
    intro e e' he he'
    rcases hleaf.sharp var hvar hint with hzero | ⟨htol, hk, hlower, hupper⟩
    · exact .inl hzero
    · exact .inr ⟨htol, hk, he hlower, he' hupper⟩
  cases dir with
  | down =>
    cases hchild
    exact ⟨hlow, hfinite _, hsharp _ _ id fun _ => whole_intCast _⟩
  | up =>
    cases hchild
    exact ⟨hfinite _, hup, hsharp _ _ (fun _ => whole_intCast _) id⟩

/-- What the analysis assumes of the relaxation: the shape of its matrix, tolerances that are not
negative, and bounds of the root that the tolerances do not cross. -/
structure WellFormed (r : Relaxation) : Prop where
  numRows : r.lp.A.m = r.lp.numRows
  numCols : r.lp.A.n = r.lp.numCols
  primalTol : 0 ≤ r.settings.primalTol
  integerTol : 0 ≤ r.settings.integerTol
  start : r.Proper r.start

section Boxes

variable {box : Box} {var : ℕ} {low up : Extended ℚ}

lemma Proper.overwrite (h : r.Proper box) (hvar : var < r.lp.numCols)
    (hbounds : low ≠ nan ∧ up ≠ nan ∧ r.nodePresolver.Sharp r.settings var low up) :
    r.Proper (overwrite box var low up) := by
  have hself := overwrite_self (l := low) (u := up) (h.lower_length.symm ▸ hvar : var < box.lower.length)
    (h.upper_length.symm ▸ hvar : var < box.upper.length)
  have hne : ∀ k, k ≠ var → (BranchingBounds.overwrite box var low up).lb k = box.lb k ∧
      (BranchingBounds.overwrite box var low up).ub k = box.ub k := fun k hk => overwrite_of_ne hk
  constructor
  · exact length_set.trans h.lower_length
  · exact length_set.trans h.upper_length
  · intro k hk hint
    rcases eq_or_ne k var with rfl | hother
    · rw [hself.1]
      exact hbounds.1
    · rw [(hne k hother).1]
      exact h.lower_ne_nan k hk hint
  · intro k hk hint
    rcases eq_or_ne k var with rfl | hother
    · rw [hself.2]
      exact hbounds.2.1
    · rw [(hne k hother).2]
      exact h.upper_ne_nan k hk hint
  · intro k hk hint
    rcases eq_or_ne k var with rfl | hother
    · rw [hself.1, hself.2]
      exact hbounds.2.2
    · rw [(hne k hother).1, (hne k hother).2]
      exact h.sharp k hk hint

lemma contains_overwrite (h : r.Proper box) (hvar : var < r.lp.numCols) (x : ℕ → ℚ) :
    (overwrite box var low up).Contains r.lp.numCols x ↔
      (AtMost low (x var) ∧ AtLeast up (x var)) ∧
        ∀ k < r.lp.numCols, k ≠ var → AtMost (box.lb k) (x k) ∧ AtLeast (box.ub k) (x k) := by
  have hself := overwrite_self (l := low) (u := up) (h.lower_length.symm ▸ hvar : var < box.lower.length)
    (h.upper_length.symm ▸ hvar : var < box.upper.length)
  constructor
  · intro hx
    refine ⟨?_, fun k hk hne => ?_⟩
    · have hcolumn := hx var hvar
      rwa [hself.1, hself.2] at hcolumn
    · have hcolumn := hx k hk
      rwa [(overwrite_of_ne hne).1, (overwrite_of_ne hne).2] at hcolumn
  · rintro ⟨hown, hothers⟩ k hk
    rcases eq_or_ne k var with rfl | hne
    · rw [hself.1, hself.2]
      exact hown
    · rw [(overwrite_of_ne hne).1, (overwrite_of_ne hne).2]
      exact hothers k hk hne

end Boxes

/-- The box of a node: the part of the root bounds on the sides of its decisions, but for points that
are not valid. -/
structure PathExact (r : Relaxation) (valid : (ℕ → ℚ) → Prop) (node : MipNode) : Prop where
  proper : r.Proper (node.pathBox r.start)
  continuous : ∀ k, r.varTypes k = .continuous →
    (node.pathBox r.start).lb k = r.start.lb k ∧ (node.pathBox r.start).ub k = r.start.ub k
  sound : ∀ x, (node.pathBox r.start).Contains r.lp.numCols x →
    r.start.Contains r.lp.numCols x ∧ node.Decisions x
  complete : ∀ x, valid x → r.start.Contains r.lp.numCols x → node.Decisions x →
    (node.pathBox r.start).Contains r.lp.numCols x

lemma Recorded.pathExact (hr : r.WellFormed) (h : r.Recorded valid node) :
    r.PathExact valid node := by
  induction node with
  | root nodeId =>
    exact ⟨hr.start, fun k _ => ⟨rfl, rfl⟩, fun x hx => ⟨hx, trivial⟩, fun x _ hx _ => hx⟩
  | child parent nodeId var dir v low up ih =>
    obtain ⟨hparent, -, leaf, hleaf, hfractional, hchild⟩ := h
    have hp := ih hparent
    have hvar := hfractional.1
    have hint := hfractional.2.1
    have hstored := stored_iff hfractional hchild
    have hframe : (MipNode.child _ nodeId var dir v low up).pathBox r.start =
        overwrite _ var low up := MipNode.pathBox_child hparent.numbered nodeId var dir v low up
    constructor
    case proper =>
      rw [hframe]
      exact hp.proper.overwrite hvar (stored_proper hleaf.proper hfractional hchild)
    case continuous =>
      intro k hk
      have hne : k ≠ var := by
        rintro rfl
        exact hint hk
      rw [hframe, (overwrite_of_ne hne).1, (overwrite_of_ne hne).2]
      exact hp.continuous k hk
    case sound =>
      intro x hx
      rw [hframe, contains_overwrite hp.proper hvar, hstored] at hx
      obtain ⟨⟨⟨hlow, hup⟩, hside⟩, hothers⟩ := hx
      have hbox : (parent.pathBox r.start).Contains r.lp.numCols x := by
        intro k hk
        rcases eq_or_ne k var with rfl | hne
        · exact ⟨(hleaf.inside k hk hint _).1 hlow, (hleaf.inside k hk hint _).2 hup⟩
        · exact hothers k hk hne
      obtain ⟨hstart, hdecisions⟩ := hp.sound x hbox
      exact ⟨hstart, hside, hdecisions⟩
    case complete =>
      rintro x hx hstart ⟨hside, hdecisions⟩
      have hbox := hp.complete x hx hstart hdecisions
      rw [hframe, contains_overwrite hp.proper hvar, hstored]
      exact ⟨⟨hleaf.admits x hx hstart hdecisions var hvar, hside⟩, fun k hk _ => hbox k hk⟩

/-- At the valid points of the root bounds a leaf has what its decisions say. -/
lemma LeafOf.contains_iff (h : r.LeafOf valid node leaf) (hpath : r.PathExact valid node)
    {x : ℕ → ℚ} (hx : valid x) (hstart : r.start.Contains r.lp.numCols x) :
    leaf.Contains r.lp.numCols x ↔ node.Decisions x := by
  constructor
  · intro hleaf
    have hbox : (node.pathBox r.start).Contains r.lp.numCols x := by
      intro k hk
      by_cases hcontinuous : r.varTypes k = .continuous
      · rw [(hpath.continuous k hcontinuous).1, (hpath.continuous k hcontinuous).2]
        exact hstart k hk
      · exact ⟨(h.inside k hk hcontinuous _).1 (hleaf k hk).1,
          (h.inside k hk hcontinuous _).2 (hleaf k hk).2⟩
    exact (hpath.sound x hbox).2
  · exact h.admits x hx hstart

section Leaf

variable (hr : r.WellFormed) (hvalid : ∀ x, valid x → MixedFeasible r.lp none (some r.varTypes) x)
include hr hvalid

variable {node : MipNode}

lemma LeafOf.feasible {box : Box} (h : r.LeafOf valid node box) (marks : ℕ → Bool) {x : ℕ → ℚ}
    (hx : valid x) (hstart : r.start.Contains r.lp.numCols x) (hdecisions : node.Decisions x) :
    ∃ box', r.nodePresolver.boundsStrengthening r.settings (some marks) box = some box' ∧
      box'.Contains r.lp.numCols x := by
  have hkeeps := (hvalid x hx).keeps hr.numRows hr.numCols hr.primalTol hr.integerTol
  obtain ⟨box', hrun, hcontains⟩ := hkeeps.boundsWithin_keeps BoundsStrengthening.iterLimit
    (some marks) ⟨hr.numCols.symm ▸ h.admits x hx hstart hdecisions, fun k hU => hU.elim⟩
  exact ⟨box', hrun, hr.numCols ▸ hcontains⟩

lemma LeafOf.strengthened {box box' : Box} (h : r.LeafOf valid node box) {marks : ℕ → Bool}
    (hrun : r.nodePresolver.boundsStrengthening r.settings (some marks) box = some box') :
    r.LeafOf valid node box' := by
  have hn : r.nodePresolver.A.n = r.lp.numCols := hr.numCols
  have hnarrowed : ∀ k < r.lp.numCols, r.varTypes k ≠ .continuous →
      r.nodePresolver.Narrowed r.settings k (box.lb k) (box.ub k) (box'.lb k) (box'.ub k) := by
    intro k hk hint
    exact BoundsStrengthening.boundsWithin_narrowed (hn.symm ▸ hk) (h.proper.sharp k hk hint)
      ⟨h.proper.lower_ne_nan k hk hint, h.proper.upper_ne_nan k hk hint⟩ hrun
  have hlength := BoundsStrengthening.boundsWithin_length
    ⟨h.proper.lower_length.trans hn.symm, h.proper.upper_length.trans hn.symm⟩ hrun
  constructor
  case proper =>
    exact ⟨hlength.1.trans hn, hlength.2.trans hn, fun k hk hint => (hnarrowed k hk hint).lower_ne_nan,
      fun k hk hint => (hnarrowed k hk hint).upper_ne_nan,
      fun k hk hint => (hnarrowed k hk hint).sharp⟩
  case inside =>
    intro k hk hint v
    constructor
    · exact fun hv => (h.inside k hk hint v).1 ((hnarrowed k hk hint).lower_le v hv)
    · exact fun hv => (h.inside k hk hint v).2 ((hnarrowed k hk hint).le_upper v hv)
  case admits =>
    intro x hx hstart hdecisions
    obtain ⟨box'', hrun', hcontains⟩ := h.feasible hr hvalid marks hx hstart hdecisions
    rw [hrun] at hrun'
    cases hrun'
    exact hcontains

variable {worker : Worker}

omit hvalid in
/-- The bounds before they are strengthened, from the root or from the leaf of the parent. -/
theorem leafBounds_leafOf (hworker : r.WorkerInv valid worker) (htake : MayTake worker node)
    (hnode : r.Recorded valid node) : r.LeafOf valid node (r.leafBounds worker node).box := by
  have hpath := hnode.pathExact hr
  rw [leafBounds]
  cases hrecompute : worker.recomputeBounds with
  | true =>
    rw [if_pos rfl]
    exact ⟨hpath.proper, fun k _ _ v => ⟨id, id⟩, hpath.complete⟩
  | false =>
    rw [if_neg Bool.false_ne_true]
    rw [WorkerInv] at hworker
    rcases htake with hidle | ⟨parent, hparent, hbranched⟩
    · rw [hidle] at hworker
      exact absurd (hrecompute.symm.trans hworker) Bool.false_ne_true
    · rw [hbranched] at hworker
      obtain ⟨-, -, hleaf⟩ := hworker
      cases node with
      | root nodeId => cases hparent
      | child parent' nodeId var dir v low up =>
        cases hparent
        obtain ⟨hrecorded, -, leaf, hleaf', hfractional, hchild⟩ := hnode
        have hvar := hfractional.1
        rw [MipNode.update_of_unmarked ⟨worker.leaf, _⟩ rfl]
        have hframe : (MipNode.child _ nodeId var dir v low up).pathBox r.start =
            overwrite _ var low up :=
          MipNode.pathBox_child hrecorded.numbered nodeId var dir v low up
        have hparentPath := hrecorded.pathExact hr
        have hself := overwrite_self (l := low) (u := up)
          (hleaf.proper.lower_length.symm ▸ hvar : var < worker.leaf.lower.length)
          (hleaf.proper.upper_length.symm ▸ hvar : var < worker.leaf.upper.length)
        have hselfPath := overwrite_self (l := low) (u := up)
          (hparentPath.proper.lower_length.symm ▸ hvar)
          (hparentPath.proper.upper_length.symm ▸ hvar)
        constructor
        case proper =>
          exact hleaf.proper.overwrite hvar (stored_proper hleaf'.proper hfractional hchild)
        case inside =>
          intro k hk hint w
          rw [hframe]
          rcases eq_or_ne k var with rfl | hne
          · rw [hself.1, hself.2, hselfPath.1, hselfPath.2]
            exact ⟨id, id⟩
          · rw [(overwrite_of_ne hne).1, (overwrite_of_ne hne).2, (overwrite_of_ne hne).1,
              (overwrite_of_ne hne).2]
            exact hleaf.inside k hk hint w
        case admits =>
          intro x hx hstart hdecisions
          have hbox := hpath.complete x hx hstart hdecisions
          rw [hframe, contains_overwrite hparentPath.proper hvar] at hbox
          rw [contains_overwrite hleaf.proper hvar]
          exact ⟨hbox.1, fun k hk _ => hleaf.admits x hx hstart hdecisions.2 k hk⟩

lemma setLpVariableBounds_leafOf (hworker : r.WorkerInv valid worker)
    (htake : MayTake worker node) (hnode : r.Recorded valid node)
    (hfeasible : (r.setLpVariableBounds worker node).1 = true) :
    r.LeafOf valid node (r.setLpVariableBounds worker node).2 := by
  have hleaf := leafBounds_leafOf hr hworker htake hnode
  rw [setLpVariableBounds.eq_def] at hfeasible ⊢
  dsimp only at hfeasible ⊢
  cases hrun : r.nodePresolver.boundsStrengthening r.settings
      (some (r.leafBounds worker node).boundsChanged) (r.leafBounds worker node).box with
  | none =>
    rw [hrun] at hfeasible
    cases hfeasible
  | some box => exact hleaf.strengthened hr hvalid hrun

/-- A worker admits, from the root or from its last leaf, the valid points that satisfy the decisions. -/
lemma admitted_iff (hworker : r.WorkerInv valid worker) (htake : MayTake worker node)
    (hnode : r.Recorded valid node) {x : ℕ → ℚ} (hx : valid x)
    (hstart : r.start.Contains r.lp.numCols x) :
    r.Admitted (r.setLpVariableBounds worker node) x ↔ node.Decisions x := by
  constructor
  · rintro ⟨hfeasible, hcontains⟩
    exact ((setLpVariableBounds_leafOf hr hvalid hworker htake hnode hfeasible).contains_iff
      (hnode.pathExact hr) hx hstart).mp hcontains
  · intro hdecisions
    have hleaf := leafBounds_leafOf hr hworker htake hnode
    obtain ⟨box', hrun, hcontains⟩ := hleaf.feasible hr hvalid
      (r.leafBounds worker node).boundsChanged hx hstart hdecisions
    rw [Admitted, setLpVariableBounds.eq_def]
    dsimp only
    rw [hrun]
    exact ⟨rfl, hcontains⟩

end Leaf

section Runs

variable {tree tree' : Tree}

lemma initial_inv (rootId : ℕ) : r.Inv valid (r.initial rootId) where
  nodes := by
    intro node hnode
    obtain rfl := mem_singleton.mp hnode
    trivial
  workers := fun _ => rfl

lemma Inv.setWorker (h : r.Inv valid tree) (w : ℕ) {worker : Worker}
    (hworker : r.WorkerInv valid worker) :
    r.Inv valid { tree with worker := update tree.worker w worker } where
  nodes := h.nodes
  workers := by
    intro w'
    dsimp only
    rcases eq_or_ne w' w with rfl | hne
    · rw [update_self]
      exact hworker
    · rw [update_of_ne hne]
      exact h.workers w'

variable {var : ℕ} {v : ℚ}

/-- What a branching does: it adds the two children of the node that the worker solves. -/
lemma step_branch {w : ℕ} (hstep : r.step tree (.branch w var v) = some tree') :
    ∃ node, (tree.worker w).stage = .solving node ∧ r.Fractional (tree.worker w).leaf var v ∧
      tree' = { nodes := tree.nodes ++
          [.ofBranch (tree.worker w).leaf node (tree.numNodes + 1) var .down v,
            .ofBranch (tree.worker w).leaf node (tree.numNodes + 2) var .up v]
                numNodes := tree.numNodes + 2
                worker := update tree.worker w
                  ⟨(tree.worker w).leaf, false, .branched node⟩ } := by
  rw [step.eq_def] at hstep
  dsimp only at hstep
  cases hstage : (tree.worker w).stage with
  | solving node =>
    rw [hstage] at hstep
    dsimp only at hstep
    split_ifs at hstep with hfractional
    exact ⟨node, rfl, hfractional, (Option.some.inj hstep).symm⟩
  | idle | branched node =>
    rw [hstage] at hstep
    cases hstep

lemma recorded_ofBranch {node : MipNode} {leaf : Box} (hnode : r.Recorded valid node)
    (hleaf : r.LeafOf valid node leaf) (hfractional : r.Fractional leaf var v) (id : ℕ)
    (dir : BranchDirection) : r.Recorded valid (.ofBranch leaf node (id + 1) var dir v) :=
  ⟨hnode, Nat.succ_ne_zero id, leaf, hleaf, hfractional, rfl⟩

lemma step_inv (hr : r.WellFormed)
    (hvalid : ∀ x, valid x → MixedFeasible r.lp none (some r.varTypes) x) (h : r.Inv valid tree)
    {action : Action} (hreduction : r.ReductionValid valid tree action)
    (hstep : r.step tree action = some tree') : r.Inv valid tree' := by
  cases action with
  | solve w node =>
    rw [step.eq_def] at hstep
    dsimp only at hstep
    split_ifs at hstep with htake hfeasible
    · cases hstep
      have hnode := h.nodes node htake.1
      exact h.setWorker w ⟨hnode, setLpVariableBounds_leafOf hr hvalid (h.workers w) htake.2 hnode
        hfeasible⟩
    · cases hstep
      exact h.setWorker w rfl
  | reduce w box =>
    obtain ⟨hproper, hinside, hkeeps⟩ := hreduction
    have hworker := h.workers w
    rw [step.eq_def] at hstep
    rw [WorkerInv] at hworker
    dsimp only at hstep
    cases hstage : (tree.worker w).stage with
    | solving node =>
      rw [hstage] at hstep hworker
      cases hstep
      obtain ⟨hnode, hleaf⟩ := hworker
      apply h.setWorker w
      rw [WorkerInv]
      dsimp only
      refine ⟨hnode, hproper, fun k hk hint v => ?_, fun x hx hstart hdecisions =>
        hkeeps x hx (hleaf.admits x hx hstart hdecisions)⟩
      exact ⟨fun hv => (hleaf.inside k hk hint v).1 ((hinside k hk hint v).1 hv),
        fun hv => (hleaf.inside k hk hint v).2 ((hinside k hk hint v).2 hv)⟩
    | idle =>
      rw [hstage] at hstep
      cases hstep
    | branched node =>
      rw [hstage] at hstep
      cases hstep
  | branch w var v =>
    obtain ⟨node, hstage, hfractional, rfl⟩ := step_branch hstep
    have hworker := h.workers w
    rw [WorkerInv, hstage] at hworker
    obtain ⟨hnode, hleaf⟩ := hworker
    have hbranched : r.WorkerInv valid ⟨(tree.worker w).leaf, false, .branched node⟩ :=
      ⟨rfl, hnode, hleaf⟩
    have hworkers := (h.setWorker w hbranched).workers
    refine ⟨fun n hn => ?_, hworkers⟩
    rcases mem_append.mp hn with hold | hnew
    · exact h.nodes n hold
    · rw [mem_cons, mem_singleton] at hnew
      rcases hnew with rfl | rfl
      · exact recorded_ofBranch hnode hleaf hfractional _ _
      · exact recorded_ofBranch hnode hleaf hfractional _ _
  | close w =>
    cases hstep
    exact h.setWorker w rfl

lemma children_partition (hr : r.WellFormed)
    (hvalid : ∀ x, valid x → MixedFeasible r.lp none (some r.varTypes) x) {node : MipNode}
    {leaf : Box} (hnode : r.Recorded valid node) (hleaf : r.LeafOf valid node leaf)
    (hfractional : r.Fractional leaf var v) (id id' : ℕ) :
    (∀ x, valid x → (node.pathBox r.start).Contains r.lp.numCols x →
      ((MipNode.ofBranch leaf node (id + 1) var .down v).pathBox r.start).Contains r.lp.numCols x ∨
        ((MipNode.ofBranch leaf node (id' + 1) var .up v).pathBox r.start).Contains r.lp.numCols
          x) ∧
    ∀ x, ¬ (((MipNode.ofBranch leaf node (id + 1) var .down v).pathBox r.start).Contains
        r.lp.numCols x ∧
      ((MipNode.ofBranch leaf node (id' + 1) var .up v).pathBox r.start).Contains r.lp.numCols x) := by
  have hdown := (recorded_ofBranch hnode hleaf hfractional id .down).pathExact hr
  have hup := (recorded_ofBranch hnode hleaf hfractional id' .up).pathExact hr
  constructor
  · intro x hx hbox
    obtain ⟨hstart, hdecisions⟩ := (hnode.pathExact hr).sound x hbox
    have hint : ∃ z : ℤ, x var = z :=
      (hvalid x hx).integral r.varTypes rfl var hfractional.1 hfractional.2.1
    rcases onSide_down_or_up (v := v) hint with hside | hside
    · exact .inl (hdown.complete x hx hstart ⟨hside, hdecisions⟩)
    · exact .inr (hup.complete x hx hstart ⟨hside, hdecisions⟩)
  · rintro x ⟨hxdown, hxup⟩
    obtain ⟨-, hsideDown, -⟩ := hdown.sound x hxdown
    obtain ⟨-, hsideUp, -⟩ := hup.sound x hxup
    exact not_onSide_both hfractional.2.2.1 ⟨hsideDown, hsideUp⟩

end Runs

/-- In every run of the workers, with `valid` a set of feasible mixed-integer points that the
reductions keep: the bounds of a node contain the valid points of the root bounds that satisfy the
decisions of its path, and no other points of any kind; the children that a branching adds share the
valid points of the node out; and the bounds that a worker computes next admit the valid points of the
root bounds that recomputing them from the root admits. -/
theorem nodeBounds_exact (r : Relaxation) (hr : r.WellFormed) (valid : (ℕ → ℚ) → Prop)
    (hvalid : ∀ x, valid x → MixedFeasible r.lp none (some r.varTypes) x) (rootId : ℕ)
    (actions : List Action) (tree : Tree)
    (halong : Along r.step (r.ReductionValid valid) (r.initial rootId) actions)
    (hrun : runFrom r.step (r.initial rootId) actions = some tree) :
    (∀ node ∈ tree.nodes,
      (∀ x, (node.pathBox r.start).Contains r.lp.numCols x →
        r.start.Contains r.lp.numCols x ∧ node.Decisions x) ∧
      ∀ x, valid x → r.start.Contains r.lp.numCols x → node.Decisions x →
        (node.pathBox r.start).Contains r.lp.numCols x) ∧
    (∀ w var v tree', r.step tree (.branch w var v) = some tree' →
      ∃ node down up, (tree.worker w).stage = .solving node ∧ tree'.nodes = tree.nodes ++ [down, up] ∧
        down.parent? = some node ∧ up.parent? = some node ∧
        (∀ x, valid x → (node.pathBox r.start).Contains r.lp.numCols x →
          (down.pathBox r.start).Contains r.lp.numCols x ∨
            (up.pathBox r.start).Contains r.lp.numCols x) ∧
        ∀ x, ¬ ((down.pathBox r.start).Contains r.lp.numCols x ∧
          (up.pathBox r.start).Contains r.lp.numCols x)) ∧
    ∀ w, ∀ node ∈ tree.nodes, MayTake (tree.worker w) node →
      ∀ x, valid x → r.start.Contains r.lp.numCols x →
        (r.Admitted (r.setLpVariableBounds (tree.worker w) node) x ↔ node.Decisions x) ∧
        (r.Admitted (r.setLpVariableBounds (tree.worker w) node) x ↔
          r.Admitted (r.setLpVariableBounds
            { tree.worker w with recomputeBounds := true } node) x) := by
  have hinv : r.Inv valid tree := invariant_of_along
    (fun s a s' hs ha hstep => step_inv hr hvalid hs ha hstep) (initial_inv rootId) halong hrun
  refine ⟨fun node hnode => ?_, fun w var v tree' hstep => ?_, fun w node hnode htake x hx hstart =>
    ?_⟩
  · have hpath := (hinv.nodes node hnode).pathExact hr
    exact ⟨hpath.sound, hpath.complete⟩
  · obtain ⟨node, hstage, hfractional, rfl⟩ := step_branch hstep
    have hworker := hinv.workers w
    rw [WorkerInv, hstage] at hworker
    obtain ⟨hnode, hleaf⟩ := hworker
    have hpartition := children_partition hr hvalid hnode hleaf hfractional tree.numNodes
      (tree.numNodes + 1)
    exact ⟨node, _, _, hstage, rfl, rfl, rfl, hpartition.1, hpartition.2⟩
  · have hown := admitted_iff hr hvalid (hinv.workers w) htake (hinv.nodes node hnode) hx hstart
    have hidle : r.WorkerInv valid ⟨(tree.worker w).leaf, true, .idle⟩ := rfl
    have hroot := admitted_iff hr hvalid hidle (.inl rfl) (hinv.nodes node hnode) hx hstart
    exact ⟨hown, hown.trans hroot.symm⟩

section Halving

/-- `x ≤ 2048 + 2048 w`, `x ≤ y / 2 + z` and `y ≤ x`, with a slack in each row. -/
def halvingLp : LpProblem where
  numRows := 3
  numCols := 7
  objective := fun _ => 0
  Q := ⟨0, 0, fun _ => []⟩
  A := ⟨3, 7, fun j =>
    [[(0, 1), (1, 1), (2, -1)], [(1, -1 / 2), (2, 1)], [(1, -1)], [(0, -2048)], [(0, 1)], [(1, 1)],
      [(2, 1)]].getD j []⟩
  rhs := fun i => [2048, 0, 0].getD i 0
  lower := fun _ => some 0
  upper := fun j => [some 4096, some 4096, some 1, some 1].getD j none
  objConstant := 0
  coneVarStart := 0
  secondOrderConeDims := []

def halving : Relaxation where
  lp := halvingLp
  varTypes := fun j => if j < 4 then .integer else .continuous
  settings := ⟨0, 0⟩
  start := ⟨replicate 7 (finite 0),
    [finite 4096, finite 4096, finite 1, finite 1, posInf, posInf, posInf]⟩

def fixedW : MipNode := .child (.root 0) 1 3 .down (1 / 2) (finite 0) (finite 0)

def fixedZ : MipNode := .child fixedW 3 2 .down (1 / 2) (finite 0) (finite 0)

def halvingActions : List Action :=
  [.solve 0 (.root 0), .branch 0 3 (1 / 2), .solve 0 fixedW, .branch 0 2 (1 / 2)]

lemma halving_wellFormed : halving.WellFormed where
  numRows := rfl
  numCols := rfl
  primalTol := le_rfl
  integerTol := le_rfl
  start := by
    refine ⟨rfl, rfl, fun k hk hint => ?_, fun k hk hint => ?_, fun k hk hint => .inl rfl⟩
    · have hlt : k < 7 := hk
      interval_cases k <;> decide
    · have hlt : k < 7 := hk
      interval_cases k <;> decide

lemma halving_along (valid : (ℕ → ℚ) → Prop) :
    Along halving.step (halving.ReductionValid valid) (halving.initial 0) halvingActions :=
  ⟨trivial, fun _ _ => ⟨trivial, fun _ _ => ⟨trivial, fun _ _ => ⟨trivial, fun _ _ => trivial⟩⟩⟩⟩

lemma halving_run : ∃ tree, runFrom halving.step (halving.initial 0) halvingActions = some tree ∧
    fixedZ ∈ tree.nodes ∧ MayTake (tree.worker 0) fixedZ ∧ (tree.worker 0).recomputeBounds = false ∧
    ¬ halving.Admitted (halving.setLpVariableBounds (tree.worker 0) fixedZ)
      (fun j => [100, 100, 0, 0, 1948].getD j 0) ∧
    halving.Admitted (halving.setLpVariableBounds
      { tree.worker 0 with recomputeBounds := true } fixedZ)
      fun j => [100, 100, 0, 0, 1948].getD j 0 := by
  have hrun : (runFrom halving.step (halving.initial 0) halvingActions).any (fun tree => decide (
      fixedZ ∈ tree.nodes ∧ MayTake (tree.worker 0) fixedZ ∧
      (tree.worker 0).recomputeBounds = false ∧
      ¬ halving.Admitted (halving.setLpVariableBounds (tree.worker 0) fixedZ)
        (fun j => [100, 100, 0, 0, 1948].getD j 0) ∧
      halving.Admitted (halving.setLpVariableBounds
        { tree.worker 0 with recomputeBounds := true } fixedZ)
        fun j => [100, 100, 0, 0, 1948].getD j 0)) = true := by
    decide +kernel
  cases htree : runFrom halving.step (halving.initial 0) halvingActions with
  | none =>
    rw [htree] at hrun
    cases hrun
  | some tree =>
    rw [htree] at hrun
    exact ⟨tree, rfl, of_decide_eq_true hrun⟩

/-- With the feasible mixed-integer points, in the child for `w ≤ 0` and `z ≤ 0`. -/
theorem nodeBounds_exact_halving :
    ∃ tree, runFrom halving.step (halving.initial 0) halvingActions = some tree ∧
      (tree.worker 0).recomputeBounds = false ∧
      ∀ x, MixedFeasible halvingLp none (some halving.varTypes) x → halving.start.Contains 7 x →
        (halving.Admitted (halving.setLpVariableBounds (tree.worker 0) fixedZ) x ↔
          halving.Admitted (halving.setLpVariableBounds
            { tree.worker 0 with recomputeBounds := true } fixedZ) x) := by
  obtain ⟨tree, hrun, hmem, htake, hrecompute, -⟩ := halving_run
  refine ⟨tree, hrun, hrecompute, fun x hx hstart => ?_⟩
  exact ((nodeBounds_exact halving halving_wellFormed
    (fun x => MixedFeasible halvingLp none (some halving.varTypes) x) (fun x hx => hx) 0
    halvingActions tree (halving_along _) hrun).2.2 0 fixedZ hmem htake x hx hstart).2

/-- Ten rounds from the root do not reach the bounds that ten more rounds reach from the leaf of the
parent: an integer point of the root bounds, on the sides of both decisions, is admitted from the root
only. It is not feasible. -/
theorem leaf_admits_fewer_points :
    ∃ tree, runFrom halving.step (halving.initial 0) halvingActions = some tree ∧
      fixedZ ∈ tree.nodes ∧ MayTake (tree.worker 0) fixedZ ∧
      ¬ ∀ x : ℕ → ℚ, (∀ j, ∃ z : ℤ, x j = z) → halving.start.Contains 7 x → fixedZ.Decisions x →
        (halving.Admitted (halving.setLpVariableBounds (tree.worker 0) fixedZ) x ↔
          halving.Admitted (halving.setLpVariableBounds
            { tree.worker 0 with recomputeBounds := true } fixedZ) x) := by
  obtain ⟨tree, hrun, hmem, htake, -, hleaf, hroot⟩ := halving_run
  refine ⟨tree, hrun, hmem, htake, fun hall => hleaf ((hall _ ?_ ?_ ?_).mpr hroot)⟩
  · intro j
    rcases lt_or_ge j 5 with hlt | hge
    · interval_cases j
      · exact ⟨100, rfl⟩
      · exact ⟨100, rfl⟩
      · exact ⟨0, rfl⟩
      · exact ⟨0, rfl⟩
      · exact ⟨1948, rfl⟩
    · exact ⟨0, by rw [getD_eq_default _ _ hge, Int.cast_zero]⟩
  · decide +kernel
  · have hfloor : (0 : ℚ) ≤ ⌊(1 / 2 : ℚ)⌋ :=
      Int.cast_nonneg (Int.floor_nonneg.mpr (by norm_num))
    exact ⟨hfloor, hfloor, trivial⟩

end Halving

end Relaxation

end CuOpt.BranchAndBound.BranchingBounds
