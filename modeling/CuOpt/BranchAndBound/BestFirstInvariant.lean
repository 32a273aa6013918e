import CuOpt.BranchAndBound.BestFirstWorkers

/-! What a step of a best-first worker does to the nodes that the workers hold, and what holds in
every reachable state: each open node is held once, and what a worker publishes is not above the
bounds of the nodes in its hands. -/

namespace CuOpt.BranchAndBound.BestFirst

open List
open Function (update_of_ne)
open NodeQueue (Stolen)

def PlungePhase.nodes : PlungePhase → List ℕ
  | .taken n | .published n | .solving n => [n]
  | .branched preferred sibling | .evicted preferred sibling | .placing preferred sibling _ =>
    [preferred, sibling]
  | _ => []

def Phase.nodes : Phase → List ℕ
  | .popped n | .started n => [n]
  | .plunge stack point => point.nodes ++ stack
  | _ => []

def Phase.running : Phase → Bool
  | .idle | .reserved _ | .retired => false
  | _ => true

def Phase.resting : Phase → Bool
  | .idle | .retired => true
  | _ => false

namespace BfsWorker

def held (w : BfsWorker) : List ℕ := w.phase.nodes ++ w.nodeQueue.nodes

end BfsWorker

def SolverState.held (s : SolverState) : List ℕ := s.workers.flatMap BfsWorker.held

section Held

variable {ws : List BfsWorker} {i t : ℕ} {w v : BfsWorker}

lemma held_set (hw : ws[i]? = some w) :
    ∃ rest : List ℕ, (ws.flatMap BfsWorker.held).Perm (w.held ++ rest) ∧
      (∀ w', ((ws.set i w').flatMap BfsWorker.held).Perm (w'.held ++ rest)) ∧
      ∀ j v, j ≠ i → ws[j]? = some v → ∀ n ∈ v.held, n ∈ rest := by
  obtain ⟨hi, rfl⟩ := List.getElem?_eq_some_iff.mp hw
  have hset : ∀ w', ws.set i w' = ws.take i ++ w' :: ws.drop (i + 1) := fun w' =>
    set_eq_take_append_cons_drop.trans (if_pos hi)
  have hself : ws = ws.take i ++ ws[i] :: ws.drop (i + 1) := by
    rw [← hset, set_getElem_self]
  refine ⟨(ws.take i ++ ws.drop (i + 1)).flatMap BfsWorker.held,
    Custody.flatMap_perm_of_split hself _, fun w' => Custody.flatMap_perm_of_split (hset w') _, ?_⟩
  intro j v hj hv n hn
  refine mem_flatMap.mpr ⟨v, ?_, hn⟩
  rcases lt_or_gt_of_ne hj with hlt | hgt
  · exact mem_append_left _ (mem_of_getElem? ((getElem?_take_of_lt hlt).trans hv))
  · refine mem_append_right _ (mem_of_getElem? (i := j - (i + 1)) ?_)
    rw [getElem?_drop, ← hv]
    congr 1
    omega

lemma held_set_set (hne : t ≠ i) (hw : ws[i]? = some w) (hv : ws[t]? = some v) {w' v' : BfsWorker}
    (hheld : (w'.held ++ v'.held).Perm (w.held ++ v.held)) :
    (((ws.set t v').set i w').flatMap BfsWorker.held).Perm (ws.flatMap BfsWorker.held) := by
  have hw' : (ws.set t v')[i]? = some w := by rwa [getElem?_set_ne hne]
  obtain ⟨rest, hbefore, hafter, -⟩ := held_set hw'
  obtain ⟨rest', hbefore', hafter', -⟩ := held_set hv
  rw [perm_iff_count] at *
  intro n
  have h₁ := hheld n
  have h₂ := hbefore n
  have h₃ := perm_iff_count.mp (hafter w') n
  have h₄ := hbefore' n
  have h₅ := perm_iff_count.mp (hafter' v') n
  rw [count_append] at h₁ h₂ h₃ h₄ h₅
  rw [count_append] at h₁
  omega

end Held

def SameBound (lowerBound : ℕ → WithTop ℚ) (l : List ℕ) : Prop :=
  ∀ a ∈ l, ∀ b ∈ l, lowerBound a = lowerBound b

/-- The stack holds a node and its sibling at most, which have the bound of their parent. -/
def PlungePhase.StackOk (lowerBound : ℕ → WithTop ℚ) (stack : List ℕ) : PlungePhase → Prop
  | .loopHead | .launching _ _ | .launched => stack.length ≤ 2 ∧ SameBound lowerBound stack
  | .taken n | .published n | .solving n => stack.length ≤ 1 ∧ SameBound lowerBound (n :: stack)
  | .branched preferred sibling => stack.length ≤ 1 ∧ lowerBound preferred = lowerBound sibling
  | .evicted preferred sibling | .placing preferred sibling _ =>
    stack = [] ∧ lowerBound preferred = lowerBound sibling
  | .draining => True

def Phase.Ok (lowerBound : ℕ → WithTop ℚ) (published : WithTop ℚ) (queue : NodeQueue) : Phase → Prop
  | .preset => ∀ n ∈ queue.nodes, published ≤ lowerBound n
  | .plunge stack point => point.StackOk lowerBound stack
  | _ => True

namespace BfsWorker

structure Ok (lowerBound : ℕ → WithTop ℚ) (w : BfsWorker) : Prop where
  queue : w.nodeQueue.Ok lowerBound
  published : ∀ n ∈ w.phase.nodes, w.lowerBound ≤ lowerBound n
  active : w.phase.running = true ∨ w.nodeQueue.nodes ≠ [] → w.isActive = true
  resting : w.phase.resting = true → w.nodeQueue.nodes = []
  phase : w.phase.Ok lowerBound w.lowerBound w.nodeQueue

def Ready (v : BfsWorker) : LaunchStage → Prop
  | .preset | .activate => v.nodeQueue.nodes = []
  | .steal => v.isActive = true ∧ v.nodeQueue.nodes = []
  | .publish success | .conclude success =>
    v.isActive = true ∧ (success = false → v.nodeQueue.nodes = [])

end BfsWorker

def Linked (ws : List BfsWorker) : Prop :=
  ∀ (i : ℕ) (w : BfsWorker) (stack : List ℕ) (target : ℕ) (stage : LaunchStage), ws[i]? = some w →
    w.phase = .plunge stack (.launching target stage) →
    ∃ v, ws[target]? = some v ∧ v.phase = .reserved i ∧ v.Ready stage

structure Inv (s : SolverState) : Prop where
  custody : Custody.Exact s.held s.tree.IsOpen
  worker : ∀ (i : ℕ) (w : BfsWorker), s.workers[i]? = some w → w.Ok s.lowerBound
  linked : Linked s.workers

def Phase.Unlinked : Phase → Prop
  | .reserved _ | .plunge _ (.launching _ _) => False
  | _ => True

inductive Effect (s : SolverState) (a : Action) : SolverState → Prop
  | keep {s' : SolverState} (htree : s'.tree = s.tree) (hworkers : s'.workers = s.workers) :
      Effect s a s'
  | rearrange {i : ℕ} {w w' : BfsWorker} (hw : s.workers[i]? = some w)
      (hheld : w'.held.Perm w.held) (hok : w.Ok s.lowerBound → w'.Ok s.lowerBound)
      (hbefore : w.phase.Unlinked) (hafter : w'.phase.Unlinked)
      (hmove : (∃ k, a = .search i (.pop k)) ∨ ∀ n ∈ w.nodeQueue.nodes, n ∈ w'.nodeQueue.nodes) :
      Effect s a (s.put i w')
  | steal {i t k left left' : ℕ} {success success' : Bool} {w v : BfsWorker}
      {queue victimQueue : NodeQueue} (hw : s.workers[i]? = some w) (hv : s.workers[t]? = some v)
      (hphase : w.phase = .stealing t (left + 1) success) (hne : t ≠ i)
      (ha : a = .search i (.steal k))
      (hstolen : Stolen s.lowerBound w.nodeQueue v.nodeQueue queue victimQueue) :
      Effect s a ((s.put t { v with nodeQueue := victimQueue }).put i
        { w with nodeQueue := queue, phase := .stealing t left' success' })
  | reserve {i t : ℕ} {w v : BfsWorker} {stack : List ℕ} (hw : s.workers[i]? = some w)
      (hv : s.workers[t]? = some v) (hphase : w.phase = .plunge stack .loopHead)
      (hidle : v.phase = .idle) :
      Effect s a ((s.put t { v with phase := .reserved i }).put i
        { w with phase := .plunge stack (.launching t .preset) })
  | launch {i t k : ℕ} {w v v' : BfsWorker} {stack : List ℕ} {queue : NodeQueue}
      {stage stage' : LaunchStage} (hw : s.workers[i]? = some w) (hv : s.workers[t]? = some v)
      (hphase : w.phase = .plunge stack (.launching t stage))
      (ha : a = .plunge i (.advanceLaunch k)) (hkeep : v'.phase = v.phase)
      (hready : v.Ready stage → v'.Ready stage')
      (hstolen : Stolen s.lowerBound v.nodeQueue w.nodeQueue v'.nodeQueue queue)
      (hquiet : stage = .steal ∨ queue = w.nodeQueue) :
      Effect s a ((s.put t v').put i
        { w with nodeQueue := queue, phase := .plunge stack (.launching t stage') })
  | conclude {i t : ℕ} {w v : BfsWorker} {stack : List ℕ} {success : Bool}
      (hw : s.workers[i]? = some w) (hv : s.workers[t]? = some v)
      (hphase : w.phase = .plunge stack (.launching t (.conclude success))) :
      Effect s a ((s.put t (if success then { v with phase := .loopHead }
        else { v with isActive := false, phase := .retired })).put i
        { w with phase := .plunge stack .launched })
  | close {s' : SolverState} {i n : ℕ} {w : BfsWorker} {phase : Phase}
      (hw : s.workers[i]? = some w)
      (hworkers : s'.workers = s.workers.set i { w with phase := phase })
      (hheld : w.phase.nodes = n :: phase.nodes) (hnum : s'.tree.numNodes = s.tree.numNodes)
      (hsame : SameExcept s.tree s'.tree n) (hopen : (s'.tree.node n).status ≠ .pending)
      (hbefore : w.phase.Unlinked) (hafter : phase.Unlinked)
      (hrun : w.phase.running = true ∧ phase.resting = false)
      (hok : w.phase.Ok s.lowerBound w.lowerBound w.nodeQueue →
        phase.Ok s.lowerBound w.lowerBound w.nodeQueue) : Effect s a s'
  | branch {s' : SolverState} {i n preferred sibling : ℕ} {w : BfsWorker} {stack : List ℕ}
      (hw : s.workers[i]? = some w) (hphase : w.phase = .plunge stack (.solving n))
      (hworkers : s'.workers = s.workers.set i
        { w with phase := .plunge stack (.branched preferred sibling) })
      (hchildren : [preferred, sibling].Perm [s.tree.numNodes, s.tree.numNodes + 1])
      (hnum : s'.tree.numNodes = s.tree.numNodes + 2) (hsame : SameExcept s.tree s'.tree n)
      (hstatus : (s'.tree.node n).status = .hasChildren)
      (hchild : ∃ bound, s.lowerBound n ≤ bound ∧
        ∀ m ∈ [preferred, sibling], (s'.tree.node m).status = .pending ∧ s'.lowerBound m = bound) :
      Effect s a s'

section Linked

variable {ws : List BfsWorker} {i t : ℕ} {w w' v v' : BfsWorker}

lemma Phase.Unlinked.ne_reserved {phase : Phase} (h : phase.Unlinked) (j : ℕ) :
    phase ≠ .reserved j := by
  rintro rfl
  exact h

lemma Linked.set (h : Linked ws) (hw : ws[i]? = some w) (hbefore : w.phase.Unlinked)
    (hafter : w'.phase.Unlinked) : Linked (ws.set i w') := by
  intro j x stack target stage hx hphase
  have hlt : i < ws.length := (List.getElem?_eq_some_iff.mp hw).1
  have hj : j ≠ i := by
    rintro rfl
    rw [getElem?_set_self hlt] at hx
    cases hx
    rw [hphase] at hafter
    exact hafter
  rw [getElem?_set_ne hj.symm] at hx
  obtain ⟨v, hv, hreserved, hready⟩ := h j x stack target stage hx hphase
  have htarget : target ≠ i := by
    rintro rfl
    rw [hw] at hv
    cases hv
    exact hbefore.ne_reserved _ hreserved
  exact ⟨v, (getElem?_set_ne htarget.symm).trans hv, hreserved, hready⟩

lemma Linked.shrink (h : Linked ws) (hv : ws[t]? = some v) (hphase : v'.phase = v.phase)
    (hready : ∀ stage, v.Ready stage → v'.Ready stage) : Linked (ws.set t v') := by
  intro j x stack target stage hx hx'
  have hlt : t < ws.length := (List.getElem?_eq_some_iff.mp hv).1
  obtain ⟨y, hy, hyphase⟩ : ∃ y, ws[j]? = some y ∧ y.phase = .plunge stack (.launching target stage) := by
    rcases eq_or_ne j t with rfl | hj
    · rw [getElem?_set_self hlt] at hx
      cases hx
      exact ⟨v, hv, hphase ▸ hx'⟩
    · exact ⟨x, by rwa [getElem?_set_ne hj.symm] at hx, hx'⟩
  obtain ⟨z, hz, hreserved, hzready⟩ := h j y stack target stage hy hyphase
  rcases eq_or_ne target t with rfl | htarget
  · rw [hv] at hz
    cases hz
    exact ⟨v', getElem?_set_self hlt, hphase.trans hreserved, hready stage hzready⟩
  · exact ⟨z, (getElem?_set_ne htarget.symm).trans hz, hreserved, hzready⟩

lemma Linked.set_set (h : Linked ws) (hw : ws[i]? = some w) (hv : ws[t]? = some v) (hne : t ≠ i)
    (hlauncher : ∀ j, w.phase ≠ .reserved j) (htarget : ∀ j, v.phase = .reserved j → j = i)
    (hbefore : ∀ stack x stage, v'.phase ≠ .plunge stack (.launching x stage))
    (hafter : ∀ stack x stage, w'.phase = .plunge stack (.launching x stage) →
      x = t ∧ v'.phase = .reserved i ∧ v'.Ready stage) : Linked ((ws.set t v').set i w') := by
  have hti : t < ws.length := (List.getElem?_eq_some_iff.mp hv).1
  have hii : i < (ws.set t v').length := by
    rw [length_set]
    exact (List.getElem?_eq_some_iff.mp hw).1
  have hget : ∀ j, j ≠ i → j ≠ t → ((ws.set t v').set i w')[j]? = ws[j]? := by
    intro j hji hjt
    rw [getElem?_set_ne hji.symm, getElem?_set_ne hjt.symm]
  have hgett : ((ws.set t v').set i w')[t]? = some v' := by
    rw [getElem?_set_ne hne.symm, getElem?_set_self hti]
  intro j x stack target stage hx hphase
  rcases eq_or_ne j i with rfl | hji
  · rw [getElem?_set_self hii] at hx
    cases hx
    obtain ⟨rfl, hreserved, hready⟩ := hafter stack target stage hphase
    exact ⟨v', hgett, hreserved, hready⟩
  · have hjt : j ≠ t := by
      rintro rfl
      rw [hgett] at hx
      cases hx
      exact hbefore _ _ _ hphase
    rw [hget j hji hjt] at hx
    obtain ⟨z, hz, hreserved, hready⟩ := h j x stack target stage hx hphase
    have htargeti : target ≠ i := by
      rintro rfl
      rw [hw] at hz
      cases hz
      exact hlauncher _ hreserved
    have htargett : target ≠ t := by
      rintro rfl
      rw [hv] at hz
      cases hz
      exact hji (htarget j hreserved)
    exact ⟨z, (hget target htargeti htargett).trans hz, hreserved, hready⟩

end Linked

section Ok

variable {lowerBound lowerBound' : ℕ → WithTop ℚ}

lemma SameBound.congr {l : List ℕ} (h : SameBound lowerBound l)
    (heq : ∀ n ∈ l, lowerBound' n = lowerBound n) : SameBound lowerBound' l := by
  intro a ha b hb
  rw [heq a ha, heq b hb]
  exact h a ha b hb

lemma PlungePhase.StackOk.congr {stack : List ℕ} {point : PlungePhase}
    (h : point.StackOk lowerBound stack)
    (heq : ∀ n ∈ point.nodes ++ stack, lowerBound' n = lowerBound n) :
    point.StackOk lowerBound' stack := by
  cases point with
  | loopHead | launching | launched
  | taken n | published n | solving n => exact ⟨h.1, h.2.congr heq⟩
  | branched preferred sibling | evicted preferred sibling | placing preferred sibling =>
    refine ⟨h.1, ?_⟩
    rw [heq preferred (by simp [PlungePhase.nodes]), heq sibling (by simp [PlungePhase.nodes])]
    exact h.2
  | draining => trivial

variable {queue : NodeQueue}

lemma Phase.Ok.congr {phase : Phase} {published : WithTop ℚ}
    (h : phase.Ok lowerBound published queue)
    (heq : ∀ n ∈ phase.nodes ++ queue.nodes, lowerBound' n = lowerBound n) :
    phase.Ok lowerBound' published queue := by
  cases phase with
  | preset =>
    intro n hn
    rw [heq n (mem_append_right _ hn)]
    exact h n hn
  | plunge stack point =>
    exact PlungePhase.StackOk.congr h fun n hn => heq n (mem_append_left _ hn)
  | idle | reserved | loopHead | popped | started | plunged | stealing | leaving | retired | finished =>
    trivial

lemma BfsWorker.Ok.congr {w : BfsWorker} (h : w.Ok lowerBound)
    (heq : ∀ n ∈ w.held, lowerBound' n = lowerBound n) : w.Ok lowerBound' where
  __ := h
  queue := h.queue.congr fun n hn => heq n (mem_append_right _ hn)
  published := by
    intro n hn
    rw [heq n (mem_append_left _ hn)]
    exact h.published n hn
  phase := h.phase.congr heq

variable {v : BfsWorker}

lemma BfsWorker.Ok.shrink (h : v.Ok lowerBound) (hqueue : queue.Ok lowerBound)
    (hsub : ∀ n ∈ queue.nodes, n ∈ v.nodeQueue.nodes) :
    ({ v with nodeQueue := queue } : BfsWorker).Ok lowerBound where
  queue := hqueue
  published := h.published
  active := by
    rintro (hrun | hne)
    · exact h.active (.inl hrun)
    · obtain ⟨n, hn⟩ := exists_mem_of_ne_nil _ hne
      exact h.active (.inr (ne_nil_of_mem (hsub n hn)))
  resting := by
    intro hrest
    rw [eq_nil_iff_forall_not_mem]
    intro n hn
    have hnil := h.resting hrest
    exact not_mem_nil (hnil ▸ hsub n hn)
  phase := by
    have hphase := h.phase
    cases hp : v.phase with
    | preset =>
      rw [hp] at hphase
      exact fun n hn => hphase n (hsub n hn)
    | plunge stack point =>
      rw [hp] at hphase
      exact hphase
    | idle | reserved | loopHead | popped | started | plunged | stealing | leaving | retired
    | finished => trivial

lemma BfsWorker.Ready.shrink {stage : LaunchStage} (h : v.Ready stage)
    (hsub : ∀ n ∈ queue.nodes, n ∈ v.nodeQueue.nodes) :
    ({ v with nodeQueue := queue } : BfsWorker).Ready stage := by
  have hnil : v.nodeQueue.nodes = [] → queue.nodes = [] := by
    intro hnil
    rw [eq_nil_iff_forall_not_mem]
    exact fun n hn => not_mem_nil (hnil ▸ hsub n hn)
  cases stage with
  | preset | activate => exact hnil h
  | steal => exact ⟨h.1, hnil h.2⟩
  | publish | conclude => exact ⟨h.1, fun hfalse => hnil (h.2 hfalse)⟩

lemma BfsWorker.Ready.active {stage : LaunchStage} (h : v.Ready stage)
    (hne : v.nodeQueue.nodes ≠ []) : v.isActive = true := by
  cases stage with
  | preset | activate => exact absurd h hne
  | steal | publish | conclude => exact h.1

lemma stolen_subset {q victim q' victim' : NodeQueue}
    (h : Stolen lowerBound q victim q' victim') :
    ∀ n ∈ victim'.nodes, n ∈ victim.nodes := by
  intro n hn
  obtain ⟨e, he, rfl⟩ := mem_map.mp hn
  exact mem_map_of_mem (h.shrunk e he)

end Ok

section Preserved

variable {s s' : SolverState} {a : Action} {i t : ℕ} {w w' v v' : BfsWorker}

lemma forall_set {p : ℕ → BfsWorker → Prop} {ws : List BfsWorker} (hself : p i w')
    (hother : ∀ j x, j ≠ i → ws[j]? = some x → p j x) :
    ∀ j x, (ws.set i w')[j]? = some x → p j x := by
  intro j x hx
  rcases eq_or_ne j i with rfl | hj
  · have hlt := (List.getElem?_eq_some_iff.mp hx).1
    rw [length_set] at hlt
    rw [getElem?_set_self hlt] at hx
    exact Option.some.inj hx ▸ hself
  · rw [getElem?_set_ne hj.symm] at hx
    exact hother j x hj hx

lemma Inv.put (h : Inv s) (hw : s.workers[i]? = some w) (hheld : w'.held.Perm w.held)
    (hok : w'.Ok s.lowerBound) (hlinked : Linked (s.workers.set i w')) : Inv (s.put i w') where
  custody := by
    obtain ⟨rest, hbefore, hafter, -⟩ := held_set hw
    exact h.custody.perm ((hafter w').trans ((hheld.append_right rest).trans hbefore.symm))
  worker := forall_set hok fun j x _ hx => h.worker j x hx
  linked := hlinked

lemma Inv.put_put (h : Inv s) (hw : s.workers[i]? = some w) (hv : s.workers[t]? = some v)
    (hne : t ≠ i) (hheld : (w'.held ++ v'.held).Perm (w.held ++ v.held))
    (hokw : w'.Ok s.lowerBound) (hokv : v'.Ok s.lowerBound)
    (hlinked : Linked ((s.workers.set t v').set i w')) : Inv ((s.put t v').put i w') where
  custody := h.custody.perm (held_set_set hne hw hv hheld)
  worker := forall_set hokw fun j x _ hx =>
    forall_set (p := fun _ x => x.Ok s.lowerBound) hokv (fun k y _ hy => h.worker k y hy) j x hx
  linked := hlinked

variable {n : ℕ}

/-- A node in the hands of worker `i` is closed or branched: the bounds of all other held nodes stay. -/
lemma Inv.others (h : Inv s) (hw : s.workers[i]? = some w) (hn : n ∈ w.phase.nodes)
    (hsame : SameExcept s.tree s'.tree n) :
    (∀ m ∈ w.held, m ≠ n → s'.lowerBound m = s.lowerBound m) ∧
      ∀ j x, j ≠ i → s.workers[j]? = some x → ∀ m ∈ x.held, s'.lowerBound m = s.lowerBound m := by
  obtain ⟨rest, hbefore, -, hrest⟩ := held_set hw
  have hnodup : (w.held ++ rest).Nodup := hbefore.nodup_iff.mp h.custody.nodup
  have hopen : ∀ m ∈ w.held ++ rest, s.tree.IsOpen m := fun m hm =>
    (h.custody.mem_iff m).mp (hbefore.mem_iff.mpr hm)
  constructor
  · intro m hm hne
    exact (hsame m (hopen m (mem_append_left _ hm)).1 hne).2
  · intro j x hj hx m hm
    have hin := hrest j x hj hx m hm
    refine (hsame m (hopen m (mem_append_right _ hin)).1 ?_).2
    rintro rfl
    exact (nodup_append.mp hnodup).2.2 m (mem_append_left _ hn) m hin rfl

lemma Inv.steal (h : Inv s) (hw : s.workers[i]? = some w) (hv : s.workers[t]? = some v)
    {left left' : ℕ} {success success' : Bool} (hphase : w.phase = .stealing t left success)
    (hne : t ≠ i) {queue victimQueue : NodeQueue}
    (hstolen : Stolen s.lowerBound w.nodeQueue v.nodeQueue queue victimQueue) :
    Inv ((s.put t { v with nodeQueue := victimQueue }).put i
      { w with nodeQueue := queue, phase := .stealing t left' success' }) := by
  have hokw := h.worker i w hw
  have hokv := h.worker t v hv
  have hsub := stolen_subset hstolen
  apply h.put_put hw hv hne
  · simp only [BfsWorker.held, hphase]
    have hmove := hstolen.nodes
    rw [perm_iff_count] at hmove ⊢
    intro n
    have hcount := hmove n
    simp only [count_append, Phase.nodes, count_nil] at hcount ⊢
    omega
  · refine ⟨hstolen.thief hokw.queue, nofun, fun _ => hokw.active (.inl ?_), nofun, trivial⟩
    rw [hphase]
    rfl
  · exact hokv.shrink (hstolen.victim hokv.queue) hsub
  · have hshrunk : Linked (s.workers.set t { v with nodeQueue := victimQueue }) :=
      h.linked.shrink hv rfl fun stage hready => hready.shrink hsub
    have hw' : (s.workers.set t { v with nodeQueue := victimQueue })[i]? = some w := by
      rwa [getElem?_set_ne hne]
    refine hshrunk.set hw' ?_ trivial
    rw [hphase]
    trivial

variable {stack : List ℕ}

section

variable (h : Inv s) (hw : s.workers[i]? = some w) (hv : s.workers[t]? = some v)
include h hw hv

lemma Inv.reserve (hphase : w.phase = .plunge stack .loopHead) (hidle : v.phase = .idle) :
    Inv ((s.put t { v with phase := .reserved i }).put i
      { w with phase := .plunge stack (.launching t .preset) }) := by
  have hokw := h.worker i w hw
  have hokv := h.worker t v hv
  have hempty : v.nodeQueue.nodes = [] := hokv.resting (by rw [hidle]; rfl)
  have hne : t ≠ i := by
    rintro rfl
    rw [hv] at hw
    cases hw
    rw [hidle] at hphase
    cases hphase
  apply h.put_put hw hv hne
  · simp only [BfsWorker.held, hphase, hidle]
    exact .refl _
  · refine ⟨hokw.queue, ?_, fun _ => hokw.active (.inl ?_), fun hrest => ?_, ?_⟩
    · have hpub := hokw.published
      rw [hphase] at hpub
      exact hpub
    · rw [hphase]
      rfl
    · cases hrest
    · have hstack := hokw.phase
      rw [hphase] at hstack
      exact hstack
  · refine ⟨hokv.queue, nofun, ?_, fun _ => hempty, trivial⟩
    rintro (hrun | hnodes)
    · cases hrun
    · exact absurd hempty hnodes
  · apply h.linked.set_set hw hv hne
    · intro j
      rw [hphase]
      exact nofun
    · intro j
      rw [hidle]
      exact nofun
    · exact nofun
    · intro stack' x stage he
      obtain ⟨rfl, hlaunch⟩ := Phase.plunge.inj he
      obtain ⟨rfl, rfl⟩ := PlungePhase.launching.inj hlaunch
      exact ⟨rfl, rfl, hempty⟩

/-- A launch leaves the hands of both workers as they are. -/
lemma Inv.launching {stage : LaunchStage}
    (hphase : w.phase = .plunge stack (.launching t stage)) :
    t ≠ i ∧ v.phase = .reserved i ∧ v.Ready stage := by
  obtain ⟨x, hx, hreserved, hready⟩ := h.linked i w stack t stage hw hphase
  rw [hv] at hx
  cases hx
  refine ⟨?_, hreserved, hready⟩
  rintro rfl
  rw [hv] at hw
  cases hw
  rw [hreserved] at hphase
  cases hphase

lemma Inv.launch {queue : NodeQueue} {stage stage' : LaunchStage}
    (hphase : w.phase = .plunge stack (.launching t stage)) (hkeep : v'.phase = v.phase)
    (hnext : v.Ready stage → v'.Ready stage')
    (hstolen : Stolen s.lowerBound v.nodeQueue w.nodeQueue v'.nodeQueue queue) :
    Inv ((s.put t v').put i
      { w with nodeQueue := queue, phase := .plunge stack (.launching t stage') }) := by
  have hokw := h.worker i w hw
  have hokv := h.worker t v hv
  obtain ⟨hne, hreserved, hready⟩ := h.launching hw hv hphase
  have hready' := hnext hready
  apply h.put_put hw hv hne
  · simp only [BfsWorker.held, hphase, hkeep, hreserved]
    have hmove := hstolen.nodes
    rw [perm_iff_count] at hmove ⊢
    intro n
    have hcount := hmove n
    simp only [count_append, Phase.nodes, PlungePhase.nodes, count_nil] at hcount ⊢
    omega
  · have hshrunk := hokw.shrink (hstolen.victim hokw.queue) (stolen_subset hstolen)
    refine ⟨hshrunk.queue, ?_, fun _ => hokw.active (.inl ?_), fun hrest => ?_, ?_⟩
    · have hpub := hokw.published
      rw [hphase] at hpub
      exact hpub
    · rw [hphase]
      rfl
    · cases hrest
    · have hstack := hokw.phase
      rw [hphase] at hstack
      exact hstack
  · refine ⟨hstolen.thief hokv.queue, ?_, ?_, ?_, ?_⟩
    · rw [hkeep, hreserved]
      exact nofun
    · rw [hkeep, hreserved]
      rintro (hrun | hnodes)
      · cases hrun
      · exact hready'.active hnodes
    · rw [hkeep, hreserved]
      exact nofun
    · rw [hkeep, hreserved]
      trivial
  · apply h.linked.set_set hw hv hne
    · intro j
      rw [hphase]
      exact nofun
    · intro j he
      rw [hreserved] at he
      exact (Phase.reserved.inj he).symm
    · intro stack' x stage''
      rw [hkeep, hreserved]
      exact nofun
    · intro stack' x stage'' he
      obtain ⟨rfl, hlaunch⟩ := Phase.plunge.inj he
      obtain ⟨rfl, rfl⟩ := PlungePhase.launching.inj hlaunch
      exact ⟨rfl, hkeep.trans hreserved, hready'⟩

lemma Inv.conclude {success : Bool}
    (hphase : w.phase = .plunge stack (.launching t (.conclude success))) :
    Inv ((s.put t (if success then { v with phase := .loopHead }
      else { v with isActive := false, phase := .retired })).put i
      { w with phase := .plunge stack .launched }) := by
  have hokw := h.worker i w hw
  have hokv := h.worker t v hv
  obtain ⟨hne, hreserved, hactive, hempty⟩ := h.launching hw hv hphase
  apply h.put_put hw hv hne
  · cases success <;> simp only [BfsWorker.held, hphase, hreserved] <;> exact .refl _
  · refine ⟨hokw.queue, ?_, fun _ => hokw.active (.inl ?_), fun hrest => ?_, ?_⟩
    · have hpub := hokw.published
      rw [hphase] at hpub
      exact hpub
    · rw [hphase]
      rfl
    · cases hrest
    · have hstack := hokw.phase
      rw [hphase] at hstack
      exact hstack
  · cases success with
    | true =>
      refine ⟨hokv.queue, nofun, fun _ => hactive, ?_, trivial⟩
      exact nofun
    | false =>
      have hnil := hempty rfl
      refine ⟨hokv.queue, nofun, ?_, fun _ => hnil, trivial⟩
      rintro (hrun | hnodes)
      · cases hrun
      · exact absurd hnil hnodes
  · apply h.linked.set_set hw hv hne
    · intro j
      rw [hphase]
      exact nofun
    · intro j he
      rw [hreserved] at he
      exact (Phase.reserved.inj he).symm
    · intro stack' x stage
      cases success <;> exact nofun
    · exact nofun

end

lemma Inv.close (h : Inv s) {phase : Phase} (hw : s.workers[i]? = some w)
    (hworkers : s'.workers = s.workers.set i { w with phase := phase })
    (hheld : w.phase.nodes = n :: phase.nodes) (hnum : s'.tree.numNodes = s.tree.numNodes)
    (hsame : SameExcept s.tree s'.tree n) (hopen : (s'.tree.node n).status ≠ .pending)
    (hbefore : w.phase.Unlinked) (hafter : phase.Unlinked)
    (hrun : w.phase.running = true ∧ phase.resting = false)
    (hok : w.phase.Ok s.lowerBound w.lowerBound w.nodeQueue →
      phase.Ok s.lowerBound w.lowerBound w.nodeQueue) : Inv s' := by
  have hokw := h.worker i w hw
  have hn : n ∈ w.phase.nodes := hheld ▸ mem_cons_self
  obtain ⟨rest, hperm, hset, -⟩ := held_set hw
  obtain ⟨hself, hothers⟩ := h.others hw hn hsame
  set w' : BfsWorker := { w with phase := phase } with hw'
  have hcons : w.held = n :: w'.held := by
    rw [BfsWorker.held, hheld]
    rfl
  have hnodup : w.held.Nodup := (hperm.nodup_iff.mp h.custody.nodup).of_append_left
  have hkeep : ∀ m ∈ w'.held, s'.lowerBound m = s.lowerBound m := by
    intro m hm
    refine hself m (hcons ▸ mem_cons_of_mem n hm) ?_
    rintro rfl
    rw [hcons] at hnodup
    exact (nodup_cons.mp hnodup).1 hm
  refine ⟨?_, ?_, ?_⟩
  · refine h.custody.release ?_ fun m => isOpen_close hnum hsame hopen m
    have hrelease := ((hset w').cons n).trans (hcons ▸ hperm.symm)
    rwa [SolverState.held, hworkers]
  · rw [hworkers]
    refine forall_set ?_ fun j x hj hx => (h.worker j x hx).congr (hothers j x hj hx)
    have hokw' : w'.Ok s.lowerBound := by
      refine ⟨hokw.queue, fun m hm => ?_, fun _ => hokw.active (.inl hrun.1), ?_, hok hokw.phase⟩
      · exact hokw.published m (hheld ▸ mem_cons_of_mem n hm)
      · exact fun hrest => absurd (hrest.symm.trans hrun.2) Bool.false_ne_true.symm
    exact hokw'.congr hkeep
  · rw [hworkers]
    exact h.linked.set hw hbefore hafter

lemma Inv.branch (h : Inv s) {preferred sibling : ℕ} (hw : s.workers[i]? = some w)
    (hphase : w.phase = .plunge stack (.solving n)) (hworkers : s'.workers = s.workers.set i
      { w with phase := .plunge stack (.branched preferred sibling) })
    (hchildren : [preferred, sibling].Perm [s.tree.numNodes, s.tree.numNodes + 1])
    (hnum : s'.tree.numNodes = s.tree.numNodes + 2) (hsame : SameExcept s.tree s'.tree n)
    (hstatus : (s'.tree.node n).status = .hasChildren) (hchild : ∃ bound, s.lowerBound n ≤ bound ∧
      ∀ m ∈ [preferred, sibling], (s'.tree.node m).status = .pending ∧ s'.lowerBound m = bound) :
    Inv s' := by
  have hokw := h.worker i w hw
  have hnodes : w.phase.nodes = n :: stack := by
    rw [hphase]
    rfl
  have hn : n ∈ w.phase.nodes := hnodes ▸ mem_cons_self
  obtain ⟨rest, hperm, hset, -⟩ := held_set hw
  obtain ⟨hself, hothers⟩ := h.others hw hn hsame
  obtain ⟨bound, hbound, hnew⟩ := hchild
  set w' : BfsWorker := { w with phase := .plunge stack (.branched preferred sibling) } with hw'
  have hcons : w.held = n :: (stack ++ w.nodeQueue.nodes) := by
    rw [BfsWorker.held, hnodes]
    rfl
  have hnodup : w.held.Nodup := (hperm.nodup_iff.mp h.custody.nodup).of_append_left
  have hkeep : ∀ m ∈ stack ++ w.nodeQueue.nodes, s'.lowerBound m = s.lowerBound m := by
    intro m hm
    refine hself m (hcons ▸ mem_cons_of_mem n hm) ?_
    rintro rfl
    rw [hcons] at hnodup
    exact (nodup_cons.mp hnodup).1 hm
  have hpub := hokw.published
  rw [hnodes] at hpub
  have hstack : stack.length ≤ 1 := by
    have hphaseok := hokw.phase
    rw [hphase] at hphaseok
    exact hphaseok.1
  have hmem : ∀ m ∈ [s.tree.numNodes, s.tree.numNodes + 1], (s'.tree.node m).status = .pending :=
    fun m hm => (hnew m (hchildren.mem_iff.mpr hm)).1
  refine ⟨?_, ?_, ?_⟩
  · refine custody_branch h.custody ?_ ?_ hnum hsame hstatus (hmem _ (by simp)) (hmem _ (by simp))
    · exact ((h.custody.mem_iff n).mp
        (hperm.mem_iff.mpr (mem_append_left _ (mem_append_left _ hn)))).1
    · rw [SolverState.held, hworkers]
      have hafter := (hset w').cons n
      refine hafter.trans ?_
      have hheld' : w'.held = [preferred, sibling] ++ (stack ++ w.nodeQueue.nodes) := rfl
      rw [hheld', append_assoc]
      have hswap : (n :: ([preferred, sibling] ++ (stack ++ w.nodeQueue.nodes ++ rest))).Perm
          ([preferred, sibling] ++ (n :: (stack ++ w.nodeQueue.nodes ++ rest))) :=
        perm_middle.symm
      refine hswap.trans (hchildren.append ?_)
      exact (hcons ▸ hperm).symm
  · rw [hworkers]
    refine forall_set ?_ fun j x hj hx => (h.worker j x hx).congr (hothers j x hj hx)
    refine ⟨hokw.queue.congr fun m hm => hkeep m (mem_append_right _ hm), ?_, ?_, ?_, hstack, ?_⟩
    · intro m hm
      rcases mem_append.mp hm with hin | hin
      · rw [(hnew m hin).2]
        exact (hpub n mem_cons_self).trans hbound
      · rw [hkeep m (mem_append_left _ hin)]
        exact hpub m (mem_cons_of_mem n hin)
    · exact fun _ => hokw.active (.inl (by rw [hphase]; rfl))
    · exact nofun
    · rw [(hnew preferred (by simp)).2, (hnew sibling (by simp)).2]
  · rw [hworkers]
    apply h.linked.set hw
    · rw [hphase]
      trivial
    · trivial

lemma Inv.effect (h : Inv s) (heffect : Effect s a s') : Inv s' := by
  cases heffect with
  | keep htree hworkers =>
    refine ⟨?_, ?_, ?_⟩
    · rw [SolverState.held, hworkers, htree]
      exact h.custody
    · intro i w hw
      rw [hworkers] at hw
      have hbound : s'.lowerBound = s.lowerBound := by
        funext n
        rw [SolverState.lowerBound, htree]
        rfl
      rw [hbound]
      exact h.worker i w hw
    · rw [hworkers]
      exact h.linked
  | rearrange hw hheld hok hbefore hafter hmove =>
    exact h.put hw hheld (hok (h.worker _ _ hw)) (h.linked.set hw hbefore hafter)
  | steal hw hv hphase hne ha hstolen => exact h.steal hw hv hphase hne hstolen
  | reserve hw hv hphase hidle => exact h.reserve hw hv hphase hidle
  | launch hw hv hphase ha hkeep hready hstolen hquiet =>
    exact h.launch hw hv hphase hkeep hready hstolen
  | conclude hw hv hphase => exact h.conclude hw hv hphase
  | close hw hworkers hheld hnum hsame hopen hbefore hafter hrun hok =>
    exact h.close hw hworkers hheld hnum hsame hopen hbefore hafter hrun hok
  | branch hw hphase hworkers hchildren hnum hsame hstatus hchild =>
    exact h.branch hw hphase hworkers hchildren hnum hsame hstatus hchild

end Preserved

/-- The relaxation of a branched node is not below the bound that the node took over from its
parent. -/
def relaxationMonotone (cfg : SolverConfig) (s : SolverState) : Action → Bool
  | .plunge i (.finish (.optimal leafObj (some _))) =>
    match s.workers[i]?.map BfsWorker.phase with
    | some (.plunge _ (.solving n)) => s.lowerBound n ≤ (cfg.lattice.snapToLattice leafObj : ℚ)
    | _ => true
  | _ => true

section Effects

variable {cfg : SolverConfig} {s s' : SolverState} {i : ℕ} {w : BfsWorker}

lemma nodes_eq_nil_of_size {q : NodeQueue} (h : q.bestFirstQueueSize = 0) : q.nodes = [] := by
  rw [NodeQueue.nodes, length_eq_zero_iff.mp h]
  rfl

variable {a : Action} {old phase : Phase}

lemma Effect.goto (hw : s.workers[i]? = some w) (hphase : w.phase = old)
    (hnodes : phase.nodes.Perm old.nodes)
    (hok : ∀ published queue, old.Ok s.lowerBound published queue →
      phase.Ok s.lowerBound published queue)
    (hbefore : old.Unlinked := by trivial) (hafter : phase.Unlinked := by trivial)
    (hrun : old.running = true := by rfl) (hrest : phase.resting = false := by rfl) :
    Effect s a (s.put i { w with phase := phase }) := by
  subst hphase
  refine .rearrange hw (hnodes.append_right _) (fun h => ?_) hbefore hafter (.inr fun n hn => hn)
  refine ⟨h.queue, fun n hn => ?_, fun _ => h.active (.inl hrun), fun he => ?_, hok _ _ h.phase⟩
  · exact h.published n (hnodes.mem_iff.mp hn)
  · exact absurd (he.symm.trans hrest) Bool.false_ne_true.symm

lemma Effect.publish {bound : WithTop ℚ} (hw : s.workers[i]? = some w) (hphase : w.phase = old)
    (hnodes : phase.nodes = old.nodes)
    (hbound : w.Ok s.lowerBound → ∀ n ∈ phase.nodes, bound ≤ s.lowerBound n)
    (hok : w.Ok s.lowerBound → phase.Ok s.lowerBound bound w.nodeQueue)
    (hbefore : old.Unlinked := by trivial) (hafter : phase.Unlinked := by trivial)
    (hrun : old.running = true := by rfl) (hrest : phase.resting = false := by rfl) :
    Effect s a (s.put i { w with lowerBound := bound, phase := phase }) := by
  subst hphase
  refine .rearrange hw ?_ (fun h => ?_) hbefore hafter (.inr fun n hn => hn)
  · rw [BfsWorker.held, BfsWorker.held, ← hnodes]
  · refine ⟨h.queue, hbound h, fun _ => h.active (.inl hrun), fun he => ?_, hok h⟩
    exact absurd (he.symm.trans hrest) Bool.false_ne_true.symm

variable {n : ℕ}

lemma Effect.push (hw : s.workers[i]? = some w) (hphase : w.phase = old)
    (hnodes : (n :: phase.nodes).Perm old.nodes)
    (hok : ∀ published queue queue', old.Ok s.lowerBound published queue →
      phase.Ok s.lowerBound published queue')
    (hbefore : old.Unlinked := by trivial) (hafter : phase.Unlinked := by trivial)
    (hrun : old.running = true := by rfl) (hrest : phase.resting = false := by rfl) :
    Effect s a (s.put i
      { w with nodeQueue := w.nodeQueue.push n (s.lowerBound n), phase := phase }) := by
  subst hphase
  refine .rearrange hw ?_ (fun h => ?_) hbefore hafter (.inr fun m hm => ?_)
  · simp only [BfsWorker.held, NodeQueue.push_nodes]
    have hmiddle : (phase.nodes ++ (w.nodeQueue.nodes ++ [n])).Perm
        (n :: (phase.nodes ++ w.nodeQueue.nodes)) := by
      rw [← append_assoc]
      exact perm_append_singleton n _
    exact hmiddle.trans (hnodes.append_right _)
  · refine ⟨h.queue.push n, fun m hm => ?_, fun _ => h.active (.inl hrun), fun he => ?_, ?_⟩
    · exact h.published m (hnodes.mem_iff.mp (mem_cons_of_mem n hm))
    · exact absurd (he.symm.trans hrest) Bool.false_ne_true.symm
    · exact hok _ _ _ h.phase
  · rw [NodeQueue.push_nodes]
    exact mem_append_left _ hm

lemma Effect.fathom (hw : s.workers[i]? = some w) (hphase : w.phase = old)
    (hnodes : old.nodes = n :: phase.nodes)
    (hok : ∀ published queue, old.Ok s.lowerBound published queue →
      phase.Ok s.lowerBound published queue)
    (hbefore : old.Unlinked := by trivial) (hafter : phase.Unlinked := by trivial)
    (hrun : old.running = true := by rfl) (hrest : phase.resting = false := by rfl) :
    Effect s a ({ s with tree := s.tree.setStatus n .fathomed }.put i { w with phase := phase }) := by
  subst hphase
  refine .close hw rfl hnodes rfl (sameExcept_setStatus _) ?_ hbefore hafter ⟨hrun, hrest⟩ (hok _ _)
  change ((s.tree.setStatus n .fathomed).node n).status ≠ .pending
  rw [setStatus_status]
  decide

lemma SameBound.singleton (lowerBound : ℕ → WithTop ℚ) (n : ℕ) : SameBound lowerBound [n] := by
  intro a ha b hb
  rw [mem_singleton.mp ha, mem_singleton.mp hb]

lemma searchStep_effect {a : SearchAction} (hw : s.workers[i]? = some w)
    (h : searchStep cfg s i w a = some s') : Effect s (.search i a) s' := by
  unfold searchStep at h
  split at h
  next hphase =>
    -- preset
    split_ifs at h with hsize
    cases h
    refine Effect.publish hw hphase rfl ?_ ?_
    · exact nofun
    · exact fun hok n hn => hok.queue.getLowerBound_le hn
  next k hphase =>
    -- pop
    split_ifs at h with hsize
    · cases h
      exact Effect.goto hw hphase (.refl _) fun _ _ _ => trivial
    · cases hpop : w.nodeQueue.popAt k with
      | none =>
        rw [hpop] at h
        cases h
      | some p =>
        obtain ⟨entry, queue⟩ := p
        rw [hpop] at h
        cases h
        have hnodes := NodeQueue.popAt_nodes hpop
        refine .rearrange hw ?_ (fun hok => ?_) ?_ ?_ (.inl ⟨k, rfl⟩)
        · simp only [BfsWorker.held, hphase]
          exact hnodes.symm
        · obtain ⟨hqueue, -⟩ := hok.queue.popAt hpop
          have hpreset := hok.phase
          rw [hphase] at hpreset
          refine ⟨hqueue, fun n hn => ?_, fun _ => hok.active (.inl ?_), fun hrest => ?_, trivial⟩
          · obtain rfl := mem_singleton.mp hn
            exact hpreset _ (hnodes.mem_iff.mpr mem_cons_self)
          · rw [hphase]
            rfl
          · cases hrest
        · rw [hphase]
          trivial
        · trivial
  next n hphase =>
    -- publish
    cases h
    refine Effect.publish hw hphase rfl ?_ fun _ => trivial
    intro _ m hm
    exact (mem_singleton.mp hm) ▸ le_rfl
  next n hphase =>
    -- start
    split_ifs at h with hcut
    · cases h
      exact Effect.fathom hw hphase rfl fun _ _ _ => trivial
    · cases h
      refine Effect.goto hw hphase (.refl _) fun _ _ _ => ?_
      exact ⟨by simp, SameBound.singleton _ n⟩
  next hphase =>
    -- nextRound
    cases h
    exact Effect.goto hw hphase (.refl _) fun _ _ _ => trivial
  next victim hphase =>
    -- checkVictim
    cases hv : s.workers[victim]? with
    | none =>
      rw [hv] at h
      cases h
    | some v =>
      rw [hv] at h
      simp only at h
      split_ifs at h
      cases h
      exact Effect.goto hw hphase (.refl _) fun _ _ _ => trivial
  next k victim left success hphase =>
    -- steal
    cases hv : s.workers[victim]? with
    | none =>
      rw [hv] at h
      cases h
    | some v =>
      rw [hv] at h
      simp only at h
      split_ifs at h with hguard
      cases hsteal : w.nodeQueue.stealRound s.lowerBound cfg.nodesPerSteal v.nodeQueue k with
      | none =>
        rw [hsteal] at h
        cases h
      | some p =>
        rw [hsteal] at h
        cases h
        exact .steal hw hv hphase hguard rfl (NodeQueue.stealRound_spec hsteal).1
  next success hphase =>
    cases h
    cases success <;> exact Effect.goto hw hphase (.refl _) fun _ _ _ => trivial
  next hphase =>
    -- leave
    cases h
    exact Effect.goto hw hphase (.refl _) fun _ _ _ => trivial
  next hphase =>
    cases h
    exact Effect.goto hw hphase (.refl _) fun _ _ _ => trivial
  next hphase =>
    -- retire
    split_ifs at h with hsize
    · cases h
      have hnil := nodes_eq_nil_of_size hsize
      refine .rearrange hw ?_ (fun hok => ?_) ?_ trivial (.inr fun n hn => hn)
      · simp only [BfsWorker.held, hphase]
        exact .refl _
      · refine ⟨hok.queue, nofun, ?_, fun _ => hnil, trivial⟩
        rintro (hrun | hne)
        · cases hrun
        · exact absurd hnil hne
      · rw [hphase]
        trivial
    · cases h
      exact Effect.goto hw hphase (.refl _) fun _ _ _ => trivial
  next hphase =>
    -- rejoin
    cases h
    refine .rearrange hw ?_ (fun hok => ?_) ?_ trivial (.inr fun n hn => hn)
    · simp only [BfsWorker.held, hphase]
      exact .refl _
    · have hnil : w.nodeQueue.nodes = [] := hok.resting (by rw [hphase]; rfl)
      refine ⟨hok.queue, nofun, ?_, fun _ => hnil, trivial⟩
      rintro (hrun | hne)
      · cases hrun
      · exact absurd hnil hne
    · rw [hphase]
      trivial
  next => cases h

variable {stack : List ℕ}

lemma launchStep_effect {target k : ℕ} {v : BfsWorker} {stage : LaunchStage}
    (hw : s.workers[i]? = some w) (hv : s.workers[target]? = some v)
    (hphase : w.phase = .plunge stack (.launching target stage))
    (h : launchStep s i w stack target v k stage = some s') :
    Effect s (.plunge i (.advanceLaunch k)) s' := by
  cases stage with
  | preset | publish success =>
    cases h
    exact .launch hw hv hphase rfl rfl id .refl (.inr rfl)
  | activate =>
    cases h
    exact .launch hw hv hphase rfl rfl (fun hready => ⟨rfl, hready⟩) .refl (.inr rfl)
  | steal =>
    unfold launchStep at h
    cases hsteal : v.nodeQueue.stealRound s.lowerBound 1 w.nodeQueue k with
    | none =>
      rw [hsteal] at h
      cases h
    | some p =>
      obtain ⟨queue, victimQueue, success⟩ := p
      rw [hsteal] at h
      cases h
      obtain ⟨hstolen, hsame⟩ := NodeQueue.stealRound_spec hsteal
      set v' : BfsWorker := { v with nodeQueue := queue } with hv'
      have hready : v.Ready .steal → v'.Ready (.publish success) := by
        rintro ⟨hactive, hnil⟩
        refine ⟨hactive, fun hfalse => ?_⟩
        change queue.nodes = []
        rw [hsame hfalse, hnil]
      exact .launch hw hv hphase rfl rfl hready hstolen (.inl rfl)
  | conclude success =>
    cases h
    exact .conclude hw hv hphase

lemma Effect.closeSolved {status : NodeStatus} (hw : s.workers[i]? = some w)
    (hphase : w.phase = .plunge stack (.solving n))
    (hworkers : s'.workers = s.workers.set i { w with phase := .plunge stack .loopHead })
    (hnum : s'.tree.numNodes = s.tree.numNodes) (hsame : SameExcept s.tree s'.tree n)
    (hstatus : (s'.tree.node n).status = status) (hne : status ≠ .pending) : Effect s a s' := by
  refine .close hw hworkers ?_ hnum hsame ?_ ?_ trivial ?_ ?_
  · rw [hphase]
    rfl
  · rwa [hstatus]
  · rw [hphase]
    trivial
  · rw [hphase]
    exact ⟨rfl, rfl⟩
  · rw [hphase]
    rintro ⟨hlength, hsame⟩
    exact ⟨by omega, fun a ha b hb =>
      hsame a (mem_cons_of_mem n ha) b (mem_cons_of_mem n hb)⟩

lemma branch_node {tree : SearchTree} (bound : WithTop ℚ) (hn : n < tree.numNodes) :
    let tree' := ((tree.setLowerBound n bound).branch n).setStatus n .hasChildren
    SameExcept tree tree' n ∧ ∀ m ∈ [tree.numNodes, tree.numNodes + 1],
      (tree'.node m).status = .pending ∧ (tree'.node m).lowerBound = bound := by
  intro tree'
  refine ⟨fun m hm hne => ?_, fun m hm => ?_⟩
  · have hdown : m ≠ tree.numNodes := by omega
    have hup : m ≠ tree.numNodes + 1 := by omega
    simp only [tree', SearchTree.setStatus, SearchTree.branch, SearchTree.setLowerBound,
      SearchTree.modify, update_of_ne hne, update_of_ne hup,
      update_of_ne hdown, and_self]
  · have hne : m ≠ n := by
      simp only [mem_cons, not_mem_nil, or_false] at hm
      omega
    simp only [tree', SearchTree.setStatus, modify_node_of_ne hne, SearchTree.branch,
      SearchTree.setLowerBound, modify_node_self]
    simp only [mem_cons, not_mem_nil, or_false] at hm
    rcases hm with rfl | rfl
    · rw [update_of_ne (by simp [SearchTree.modify])]
      simp [SearchTree.modify]
    · simp [SearchTree.modify]

lemma plungeStep_finish_effect {result : NodeLpResult} (hw : s.workers[i]? = some w)
    (hphase : w.phase = .plunge stack (.solving n)) (hn : n < s.tree.numNodes)
    (hlp : relaxationMonotone cfg s (.plunge i (.finish result)) = true)
    (h : plungeStep cfg s i w stack (.finish result) (.solving n) = some s') :
    Effect s (.plunge i (.finish result)) s' := by
  cases result with
  | interrupted =>
    cases h
    exact Effect.goto hw hphase (.refl _) fun _ _ _ => trivial
  | dualUnbounded =>
    cases h
    exact Effect.closeSolved hw hphase rfl rfl (sameExcept_close ⊤ .infeasible)
      (setStatus_status .infeasible) (by decide)
  | cutoff =>
    cases h
    exact Effect.closeSolved hw hphase rfl rfl (sameExcept_close s.upperBound .fathomed)
      (setStatus_status .fathomed) (by decide)
  | numerical =>
    cases h
    exact Effect.closeSolved hw hphase rfl rfl (sameExcept_setStatus .numerical)
      (setStatus_status .numerical) (by decide)
  | optimal leafObj fractional =>
    set bound : WithTop ℚ := ((cfg.lattice.snapToLattice leafObj : ℚ) : WithTop ℚ) with hbound
    cases fractional with
    | none =>
      cases h
      exact Effect.closeSolved hw hphase rfl rfl (sameExcept_close bound .integerFeasible)
        (setStatus_status .integerFeasible) (by decide)
    | some dir =>
      by_cases hle : bound ≤ s.upperBound + ((cfg.absoluteMipGapTol / 10 : ℚ) : WithTop ℚ)
      · obtain ⟨hsame, hchild⟩ := branch_node bound hn
        have hmono : s.lowerBound n ≤ bound := by
          simp only [relaxationMonotone, hw, Option.map_some, hphase, decide_eq_true_eq] at hlp
          exact hlp
        set tree' := ((s.tree.setLowerBound n bound).branch n).setStatus n .hasChildren
        have hstatus : (tree'.node n).status = .hasChildren := setStatus_status .hasChildren
        simp only [plungeStep, updateTree, ← hbound, if_pos hle] at h
        cases h
        cases dir with
        | up =>
          refine .branch hw hphase rfl (List.Perm.swap _ _ _) rfl hsame hstatus ⟨bound, hmono, ?_⟩
          intro m hm
          refine hchild m ?_
          rwa [(List.Perm.swap (s.tree.numNodes + 1) s.tree.numNodes []).mem_iff]
        | down =>
          exact .branch hw hphase rfl (.refl _) rfl hsame hstatus ⟨bound, hmono, hchild⟩
      · simp only [plungeStep, updateTree, ← hbound, if_neg hle] at h
        cases h
        exact Effect.closeSolved hw hphase rfl rfl (sameExcept_close bound .fathomed)
          (setStatus_status .fathomed) (by decide)

lemma plungeStep_effect {point : PlungePhase} {a : PlungeAction} (hinv : Inv s)
    (hw : s.workers[i]? = some w) (hphase : w.phase = .plunge stack point)
    (hlp : relaxationMonotone cfg s (.plunge i a) = true)
    (h : plungeStep cfg s i w stack a point = some s') : Effect s (.plunge i a) s' := by
  have hheld : ∀ n ∈ w.phase.nodes, n < s.tree.numNodes := by
    intro n hn
    obtain ⟨rest, hperm, -⟩ := held_set hw
    exact ((hinv.custody.mem_iff n).mp (hperm.mem_iff.mpr
      (mem_append_left _ (mem_append_left _ hn)))).1
  cases a with
  | finish result =>
    cases point with
    | solving n =>
      refine plungeStep_finish_effect hw hphase (hheld n ?_) hlp h
      rw [hphase]
      exact mem_cons_self
    | _ => cases result <;> cases h
  | launch target =>
    cases point with
    | loopHead =>
      cases hv : s.workers[target]? with
      | none =>
        simp only [plungeStep, hv] at h
        cases h
      | some v =>
        simp only [plungeStep, hv] at h
        split_ifs at h with hguard
        cases h
        refine .reserve hw hv hphase ?_
        have hidle := hguard.1
        unfold BfsWorker.isIdle at hidle
        split at hidle
        · assumption
        · cases hidle
    | _ => cases h
  | advanceLaunch k =>
    cases point with
    | launching target stage =>
      cases hv : s.workers[target]? with
      | none =>
        simp only [plungeStep, hv] at h
        cases h
      | some v =>
        simp only [plungeStep, hv] at h
        exact launchStep_effect hw hv hphase h
    | _ => cases h
  | take =>
    cases point with
    | loopHead | launched =>
      cases stack with
      | nil => cases h
      | cons n rest =>
        cases h
        refine Effect.goto hw hphase (.refl _) ?_
        rintro _ _ ⟨hlength, hsame⟩
        exact ⟨by simpa using hlength, hsame⟩
    | _ => cases h
  | publish =>
    cases point with
    | taken n =>
      cases h
      have hstack : w.Ok s.lowerBound → PlungePhase.StackOk s.lowerBound stack (.taken n) := by
        intro hok
        have hokphase := hok.phase
        rw [hphase] at hokphase
        exact hokphase
      refine Effect.publish hw hphase rfl (fun hok m hm => ?_) hstack
      exact ((hstack hok).2 n mem_cons_self m hm).le
    | _ => cases h
  | examine =>
    cases point with
    | published n =>
      simp only [plungeStep] at h
      split_ifs at h with hcut
      · cases h
        refine Effect.fathom hw hphase rfl ?_
        rintro _ _ ⟨hlength, hsame⟩
        exact ⟨by omega, fun a ha b hb =>
          hsame a (mem_cons_of_mem n ha) b (mem_cons_of_mem n hb)⟩
      · cases h
        exact Effect.goto hw hphase (.refl _) fun _ _ hok => hok
    | _ => cases h
  | halt =>
    cases point with
    | solving n =>
      cases h
      exact Effect.goto hw hphase (.refl _) fun _ _ _ => trivial
    | _ => cases h
  | evict =>
    cases point with
    | branched preferred sibling =>
      rcases eq_nil_or_concat stack with rfl | ⟨init, oldest, rfl⟩
      · cases h
        exact Effect.goto hw hphase (.refl _)
          fun _ _ hok => ⟨rfl, hok.2⟩
      · simp only [plungeStep, concat_eq_append, getLast?_append,
          getLast?_singleton, Option.some_or, dropLast_concat] at h
        cases h
        refine Effect.push hw hphase ?_ ?_
        · rw [concat_eq_append]
          have hmiddle : (oldest :: ([preferred, sibling] ++ init)).Perm
              ([preferred, sibling] ++ init ++ [oldest]) := (perm_append_singleton _ _).symm
          rwa [append_assoc] at hmiddle
        · rintro _ _ _ ⟨hlength, hsame⟩
          have hinit : init = [] := by
            rw [concat_eq_append, length_append, length_singleton] at hlength
            exact length_eq_zero_iff.mp (by omega)
          exact ⟨hinit, hsame⟩
    | _ => cases h
  | measure =>
    cases point with
    | evicted preferred sibling =>
      cases h
      exact Effect.goto hw hphase (.refl _) fun _ _ hok => hok
    | _ => cases h
  | place =>
    cases point with
    | placing preferred sibling toQueue =>
      cases toQueue with
      | true =>
        cases h
        refine Effect.push hw hphase (List.Perm.swap _ _ _) ?_
        rintro _ _ _ ⟨rfl, hsame⟩
        exact ⟨by simp, SameBound.singleton _ preferred⟩
      | false =>
        cases h
        refine Effect.goto hw hphase (.refl _) ?_
        rintro _ _ ⟨rfl, hsame⟩
        refine ⟨by simp, fun a ha b hb => ?_⟩
        simp only [mem_cons, not_mem_nil, or_false] at ha hb
        rcases ha with rfl | rfl <;> rcases hb with rfl | rfl
        · rfl
        · exact hsame
        · exact hsame.symm
        · rfl
    | _ => cases h
  | stop =>
    cases point with
    | loopHead =>
      cases h
      exact Effect.goto hw hphase (.refl _) fun _ _ _ => trivial
    | _ => cases h
  | drain =>
    cases point with
    | draining =>
      cases stack with
      | nil =>
        cases h
        exact Effect.publish hw hphase rfl (by simp [Phase.nodes]) fun _ => trivial
      | cons n rest =>
        cases h
        exact Effect.push hw hphase (.refl _) fun _ _ _ _ => trivial
    | _ => cases h

lemma step_effect (hinv : Inv s) (hlp : relaxationMonotone cfg s a = true)
    (h : step cfg s a = some s') : Effect s a s' := by
  cases a with
  | search i a =>
    cases hw : s.workers[i]? with
    | none =>
      simp only [step, hw] at h
      cases h
    | some w =>
      simp only [step, hw] at h
      exact searchStep_effect hw h
  | plunge i a =>
    cases hw : s.workers[i]? with
    | none =>
      simp only [step, hw] at h
      cases h
    | some w =>
      simp only [step, hw] at h
      split at h
      next stack point hphase => exact plungeStep_effect hinv hw hphase hlp h
      next => cases h
  | incumbent objective =>
    cases h
    exact .keep rfl rfl

end Effects

/-- Runs in which no relaxation of a branched node falls below the bound of its parent. -/
inductive Reachable (cfg : SolverConfig) : SolverState → Prop
  | initial (numWorkers : ℕ) (rootBound upperBound : WithTop ℚ) :
      Reachable cfg (initialState numWorkers rootBound upperBound)
  | step {s s' : SolverState} (a : Action) (hs : Reachable cfg s)
      (hlp : relaxationMonotone cfg s a = true) (hstep : step cfg s a = some s') : Reachable cfg s'

lemma initialState_inv (numWorkers : ℕ) (rootBound upperBound : WithTop ℚ) :
    Inv (initialState numWorkers rootBound upperBound) := by
  set queue := (NodeQueue.empty.push 1 rootBound).push 2 rootBound with hqueue
  have hempty : NodeQueue.empty.Ok fun _ => rootBound := NodeQueue.empty_ok
  have hok : queue.Ok fun _ => rootBound := (hempty.push 1).push 2
  have hidle : ∀ (j : ℕ) (x : BfsWorker),
      (replicate (numWorkers - 1) (⟨false, ⊤, .empty, .idle⟩ : BfsWorker))[j]? = some x →
      x = ⟨false, ⊤, .empty, .idle⟩ := fun j x hx =>
    eq_of_mem_replicate (mem_of_getElem? hx)
  refine ⟨?_, ?_, ?_⟩
  · have hrest : (replicate (numWorkers - 1) (⟨false, ⊤, .empty, .idle⟩ : BfsWorker)).flatMap
        BfsWorker.held = [] := by
      rw [flatMap_eq_nil_iff]
      intro x hx
      obtain rfl := eq_of_mem_replicate hx
      rfl
    have hheld : (initialState numWorkers rootBound upperBound).held = [1, 2] := by
      rw [SolverState.held, initialState, flatMap_cons, hrest]
      rfl
    rw [hheld]
    refine ⟨by decide, fun n => ?_⟩
    simp only [mem_cons, not_mem_nil, or_false, SearchTree.IsOpen, initialState]
    constructor
    · rintro (rfl | rfl) <;> simp
    · rintro ⟨hlt, hpending⟩
      have hne : n ≠ 0 := by
        rintro rfl
        cases hpending
      omega
  · rintro (_ | i) w hw
    · cases hw
      refine ⟨hok, by rintro _ ⟨⟩, fun _ => rfl, fun hrest => ?_, trivial⟩
      cases hrest
    · obtain rfl := hidle i w hw
      refine ⟨NodeQueue.empty_ok, by rintro _ ⟨⟩, ?_, fun _ => rfl, trivial⟩
      rintro (hrun | hne)
      · cases hrun
      · exact absurd rfl hne
  · rintro (_ | i) w stack target stage hw hphase
    · cases hw
      cases hphase
    · obtain rfl := hidle i w hw
      cases hphase

lemma Reachable.inv {cfg : SolverConfig} {s : SolverState} (h : Reachable cfg s) : Inv s := by
  induction h with
  | initial numWorkers rootBound upperBound => exact initialState_inv numWorkers rootBound upperBound
  | step a _ hlp hstep ih => exact ih.effect (step_effect ih hlp hstep)

end CuOpt.BranchAndBound.BestFirst
