import CuOpt.BranchAndBound.BestFirstInvariant
import CuOpt.Library.Sweep

/-! The global lower bound, read one location at a time while the workers act. It is not above the
bound of a node that stays open as long as no node moves from an unread location to a read one. -/

namespace CuOpt.BranchAndBound.BestFirst

open List
open Option (any_eq_true)

/-- What is read next. With `preset`, the published bound was read when it was set for a pop from the
queue that is still to come. -/
inductive ScanStage
  | isActive
  | published
  | queue (preset : Bool)
  deriving DecidableEq

structure Scan where
  value : WithTop ℚ
  index : ℕ
  stage : ScanStage

def Scan.start (s : SolverState) : Scan := ⟨s.lowerBoundNumerical, 0, .isActive⟩

def BfsWorker.isPreset (w : BfsWorker) : Bool :=
  match w.phase with
  | .preset => true
  | _ => false

def Scan.read (scan : Scan) (s : SolverState) : Option Scan :=
  match s.workers[scan.index]? with
  | none => none
  | some w =>
    match scan.stage with
    | .isActive =>
      if w.isActive then some { scan with stage := .published }
      else some { scan with index := scan.index + 1 }
    | .published =>
      some { scan with value := min scan.value w.lowerBound, stage := .queue w.isPreset }
    | .queue _ =>
      some ⟨min scan.value w.nodeQueue.getLowerBound, scan.index + 1, .isActive⟩

/-- The scan after a worker made the step to the state. -/
def Scan.follow (scan : Scan) (s : SolverState) : Scan :=
  match scan.stage with
  | .queue true => { scan with stage := .queue (s.workers[scan.index]?.any BfsWorker.isPreset) }
  | _ => scan

/-- The value that `get_lower_bound` returns for the minimum `value`. -/
def reportedBound (cfg : SolverConfig) (value : WithTop ℚ) : WithBot (WithTop ℚ) :=
  if value ≠ ⊤ then value
  else
    match cfg.rootObjective with
    | some obj => ((obj : WithTop ℚ) : WithBot (WithTop ℚ))
    | none => ⊥

def getLowerBound (cfg : SolverConfig) (c : SolverState × Scan) : Option (WithBot (WithTop ℚ)) :=
  if c.2.index = c.1.workers.length then some (reportedBound cfg c.2.value) else none

def computeUserObjective (cfg : SolverConfig) (obj : ℚ) : ℚ := cfg.objScale * (obj + cfg.objConstant)

def computeUserAbsGap (cfg : SolverConfig) (objValue lowerBound : ℚ) : ℚ :=
  |cfg.objScale| * (objValue - lowerBound)

def userRelativeGap (userObj userLowerBound : ℚ) : WithTop ℚ :=
  if userObj = 0 then if userLowerBound = 0 then 0 else ⊤
  else (|userObj - userLowerBound| / |userObj| : ℚ)

def GapClosed (cfg : SolverConfig) (obj lower : ℚ) : Prop :=
  userRelativeGap (computeUserObjective cfg obj) (computeUserObjective cfg lower) ≤
      (cfg.relativeMipGapTol : ℚ) ∨ computeUserAbsGap cfg obj lower ≤ cfg.absoluteMipGapTol

/-- The status is set to `OPTIMAL` after a scan that returned `lower`; both gaps to an infinite value
are infinite. -/
def DeclaresOptimal (cfg : SolverConfig) (obj : ℚ) (lower : WithBot (WithTop ℚ)) : Prop :=
  ∃ bound : ℚ, lower = ((bound : WithTop ℚ) : WithBot (WithTop ℚ)) ∧ GapClosed cfg obj bound

lemma GapClosed.mono {cfg : SolverConfig} {obj lower lower' : ℚ} (h : GapClosed cfg obj lower)
    (hle : lower ≤ lower') (hobj : lower' ≤ obj) : GapClosed cfg obj lower' := by
  have hdiff : ∀ x, computeUserObjective cfg obj - computeUserObjective cfg x =
      cfg.objScale * (obj - x) := by
    intro x
    unfold computeUserObjective
    ring
  have habs : ∀ x ≤ obj, |computeUserObjective cfg obj - computeUserObjective cfg x| =
      |cfg.objScale| * (obj - x) := by
    intro x hx
    rw [hdiff, abs_mul, abs_of_nonneg (sub_nonneg.mpr hx)]
  have hshrink : |cfg.objScale| * (obj - lower') ≤ |cfg.objScale| * (obj - lower) :=
    mul_le_mul_of_nonneg_left (by linarith) (abs_nonneg _)
  rcases h with hrel | hgap
  · left
    refine le_trans ?_ hrel
    unfold userRelativeGap
    split_ifs with hzero hlower' hlower hlower
    · exact le_rfl
    · exact le_top
    · -- the bound and the objective agree already
      have hnone := habs lower (hle.trans hobj)
      rw [hzero, hlower, sub_zero, abs_zero] at hnone
      have hnone' := habs lower' hobj
      rw [← hnone] at hshrink
      have hnonneg : 0 ≤ |cfg.objScale| * (obj - lower') :=
        mul_nonneg (abs_nonneg _) (sub_nonneg.mpr hobj)
      rw [le_antisymm hshrink hnonneg, hzero, abs_eq_zero, zero_sub, neg_eq_zero] at hnone'
      exact absurd hnone' hlower'
    · exact le_rfl
    · rw [WithTop.coe_le_coe, habs lower' hobj, habs lower (hle.trans hobj)]
      exact div_le_div_of_nonneg_right hshrink (abs_nonneg _)
  · exact .inr (hshrink.trans hgap)

/-- The step takes a node out of a queue that the scan has not read into a place it has read: a pop
for which the bound was not set before it was read, or a steal by a worker that the scan has passed. -/
def Escapes (s : SolverState) (scan : Scan) : Action → Prop
  | .search i (.pop _) => scan.index = i ∧ scan.stage = .queue false
  | .search i (.steal _) => i < scan.index ∧
    ∃ w t left success, s.workers[i]? = some w ∧ w.phase = .stealing t (left + 1) success ∧
      scan.index ≤ t
  | .plunge i (.advanceLaunch _) => scan.index ≤ i ∧
    ∃ w stack t, s.workers[i]? = some w ∧ w.phase = .plunge stack (.launching t .steal) ∧
      t < scan.index
  | _ => False

def scanStep (cfg : SolverConfig) (c : SolverState × Scan) : Option Action →
    Option (SolverState × Scan)
  | none => (c.2.read c.1).map fun scan => (c.1, scan)
  | some a => (step cfg c.1 a).map fun s => (s, c.2.follow s)

def ScanStep (cfg : SolverConfig) (guard : SolverState → Scan → Action → Prop)
    (c c' : SolverState × Scan) : Prop :=
  ∃ e, scanStep cfg c e = some c' ∧
    ∀ a, e = some a → relaxationMonotone cfg c.1 a = true ∧ guard c.1 c.2 a

inductive Slot
  | hands
  | queue

namespace BfsWorker

def slot (w : BfsWorker) : Slot → List ℕ
  | .hands => w.phase.nodes
  | .queue => w.nodeQueue.nodes

end BfsWorker

def SolverState.At (s : SolverState) (place : ℕ × Slot) (n : ℕ) : Prop :=
  ∃ w, s.workers[place.1]? = some w ∧ n ∈ w.slot place.2

inductive Moves (s : SolverState) : Action → ℕ × Slot → ℕ × Slot → Prop
  | push (a : Action) (i : ℕ) : Moves s a (i, .hands) (i, .queue)
  | pop (i k : ℕ) : Moves s (.search i (.pop k)) (i, .queue) (i, .hands)
  | steal {i t k left : ℕ} {success : Bool} {w : BfsWorker} (hw : s.workers[i]? = some w)
      (hphase : w.phase = .stealing t (left + 1) success) :
      Moves s (.search i (.steal k)) (t, .queue) (i, .queue)
  | launch {i t k : ℕ} {w : BfsWorker} {stack : List ℕ} (hw : s.workers[i]? = some w)
      (hphase : w.phase = .plunge stack (.launching t .steal)) :
      Moves s (.plunge i (.advanceLaunch k)) (i, .queue) (t, .queue)

def Scan.unread (scan : Scan) : Set (ℕ × Slot) :=
  {place | scan.index < place.1 ∨
    place.1 = scan.index ∧
      ∀ preset, scan.stage = .queue preset → place.2 = .queue ∧ preset = false}

lemma Scan.follow_value (scan : Scan) (s : SolverState) : (scan.follow s).value = scan.value := by
  unfold follow
  split <;> rfl

lemma Scan.unread_follow {scan : Scan} {s : SolverState} {place : ℕ × Slot}
    (h : place ∈ scan.unread) : place ∈ (scan.follow s).unread := by
  unfold follow
  split
  · next hstage =>
    exact h.imp id fun h => nomatch (h.2 true hstage).2
  · exact h

/-- While the scan counts on a bound that was set for a pop, the worker has not popped. -/
def Scan.Follows (scan : Scan) (s : SolverState) : Prop :=
  scan.stage = .queue true → ∃ w, s.workers[scan.index]? = some w ∧ w.phase = .preset

lemma Moves.unread {s : SolverState} {scan : Scan} {a : Action} {place place' : ℕ × Slot}
    (hinv : Inv s) (hfollows : scan.Follows s) (h : Moves s a place place')
    (hsafe : ¬ Escapes s scan a) (hunread : place ∈ scan.unread) : place' ∈ scan.unread := by
  -- a worker that takes nodes into its queue is not about to pop
  have hqueue : ∀ {w : BfsWorker}, s.workers[scan.index]? = some w → w.phase ≠ .preset →
      (scan.index, Slot.queue) ∈ scan.unread := by
    intro w hw hphase
    refine .inr ⟨rfl, fun preset hstage => ⟨rfl, ?_⟩⟩
    cases preset with
    | false => rfl
    | true =>
      obtain ⟨x, hx, hpreset⟩ := hfollows hstage
      rw [hw] at hx
      cases hx
      exact absurd hpreset hphase
  cases h with
  | push i =>
    rcases hunread with hlt | ⟨rfl, hslot⟩
    · exact .inl hlt
    · exact .inr ⟨rfl, fun preset hstage => nomatch (hslot preset hstage).1⟩
  | pop i k =>
    rcases hunread with hlt | ⟨rfl, hslot⟩
    · exact .inl hlt
    · refine .inr ⟨rfl, fun preset hstage => ?_⟩
      rw [(hslot preset hstage).2] at hstage
      exact absurd ⟨rfl, hstage⟩ hsafe
  | @steal i t k left success w hw hphase =>
    have hle : scan.index ≤ t := by
      rcases hunread with hlt | ⟨rfl, -⟩
      · exact hlt.le
      · exact le_rfl
    have hthief : scan.index ≤ i := not_lt.mp fun hlt => hsafe ⟨hlt, w, t, left, success, hw, hphase, hle⟩
    rcases hthief.lt_or_eq with hlt | rfl
    · exact .inl hlt
    · exact hqueue hw (by rw [hphase]; exact nofun)
  | @launch i t k w stack hw hphase =>
    obtain ⟨v, hv, hreserved, -⟩ := hinv.linked i w stack t .steal hw hphase
    have hle : scan.index ≤ i := by
      rcases hunread with hlt | ⟨rfl, -⟩
      · exact hlt.le
      · exact le_rfl
    have htarget : scan.index ≤ t := not_lt.mp fun hlt => hsafe ⟨hle, w, stack, t, hw, hphase, hlt⟩
    rcases htarget.lt_or_eq with hlt | rfl
    · exact .inl hlt
    · exact hqueue hv (by rw [hreserved]; exact nofun)

section Places

variable {s s' : SolverState} {a : Action} {n i t : ℕ} {w w' v v' : BfsWorker} {place : ℕ × Slot}

lemma SolverState.At.set_of_ne (hat : s.At place n) (hworkers : s'.workers = s.workers.set i w')
    (hne : place.1 ≠ i) : s'.At place n := by
  obtain ⟨x, hx, hn⟩ := hat
  refine ⟨x, ?_, hn⟩
  rwa [hworkers, getElem?_set_ne hne.symm]

lemma at_set_self (hw : s.workers[i]? = some w) (hworkers : s'.workers = s.workers.set i w')
    {slot : Slot} (hn : n ∈ w'.slot slot) : s'.At (i, slot) n := by
  refine ⟨w', ?_, hn⟩
  rw [hworkers, getElem?_set_self (List.getElem?_eq_some_iff.mp hw).1]

lemma SolverState.At.mem (hat : s.At place n) (hw : s.workers[place.1]? = some w) : n ∈ w.slot place.2 := by
  obtain ⟨x, hx, hn⟩ := hat
  rw [hw] at hx
  exact Option.some.inj hx ▸ hn

lemma SolverState.At.put_put_of_ne (hat : s.At place n) (hi : place.1 ≠ i) (ht : place.1 ≠ t) :
    ((s.put t v').put i w').At place n := by
  have hfirst : (s.put t v').At place n := hat.set_of_ne rfl ht
  exact hfirst.set_of_ne rfl hi

lemma at_put_put_left (hw : s.workers[i]? = some w) {slot : Slot} (hn : n ∈ w'.slot slot)
    (hne : t ≠ i) : ((s.put t v').put i w').At (i, slot) n := by
  have hw' : (s.put t v').workers[i]? = some w := (getElem?_set_ne hne).trans hw
  exact at_set_self hw' rfl hn

lemma at_put_put_right (hv : s.workers[t]? = some v) {slot : Slot} (hn : n ∈ v'.slot slot)
    (hne : t ≠ i) : ((s.put t v').put i w').At (t, slot) n := by
  have hfirst : (s.put t v').At (t, slot) n := at_set_self hv rfl hn
  exact hfirst.set_of_ne rfl hne

lemma moves_put_put (hw : s.workers[i]? = some w) (hv : s.workers[t]? = some v) (hne : t ≠ i)
    (hhands : ∀ m ∈ w.phase.nodes, m ∈ w'.phase.nodes)
    (htarget : ∀ m ∈ v.phase.nodes, m ∈ v'.phase.nodes)
    (hqueue : ∀ m ∈ w.nodeQueue.nodes, m ∈ w'.nodeQueue.nodes ∨
      m ∈ v'.nodeQueue.nodes ∧ Moves s a (i, .queue) (t, .queue))
    (hvictim : ∀ m ∈ v.nodeQueue.nodes, m ∈ v'.nodeQueue.nodes ∨
      m ∈ w'.nodeQueue.nodes ∧ Moves s a (t, .queue) (i, .queue)) (hat : s.At place n) :
    ∃ place', ((s.put t v').put i w').At place' n ∧ (place' = place ∨ Moves s a place place') := by
  obtain ⟨j, slot⟩ := place
  rcases eq_or_ne j i with rfl | hji
  · have hn := hat.mem hw
    cases slot with
    | hands => exact ⟨(j, .hands), at_put_put_left hw (hhands n hn) hne, .inl rfl⟩
    | queue =>
      rcases hqueue n hn with hin | ⟨hin, hmove⟩
      · exact ⟨(j, .queue), at_put_put_left hw hin hne, .inl rfl⟩
      · exact ⟨(t, .queue), at_put_put_right hv hin hne, .inr hmove⟩
  · rcases eq_or_ne j t with rfl | hjt
    · have hn := hat.mem hv
      cases slot with
      | hands => exact ⟨(j, .hands), at_put_put_right hv (htarget n hn) hne, .inl rfl⟩
      | queue =>
        rcases hvictim n hn with hin | ⟨hin, hmove⟩
        · exact ⟨(j, .queue), at_put_put_right hv hin hne, .inl rfl⟩
        · exact ⟨(i, .queue), at_put_put_left hw hin hne, .inr hmove⟩
    · exact ⟨_, hat.put_put_of_ne hji hjt, .inl rfl⟩

lemma moves_close (hw : s.workers[i]? = some w) (hworkers : s'.workers = s.workers.set i w')
    (hhands : ∀ m ∈ w.phase.nodes, s'.tree.IsOpen m → m ∈ w'.phase.nodes)
    (hqueue : w'.nodeQueue = w.nodeQueue) (hat : s.At place n) (hopen : s'.tree.IsOpen n) :
    s'.At place n := by
  obtain ⟨j, slot⟩ := place
  rcases eq_or_ne j i with rfl | hji
  · have hn := hat.mem hw
    cases slot with
    | hands => exact at_set_self hw hworkers (hhands n hn hopen)
    | queue => exact at_set_self hw hworkers (by rw [BfsWorker.slot, hqueue]; exact hn)
  · exact hat.set_of_ne hworkers hji

lemma mem_stolen {lowerBound : ℕ → WithTop ℚ} {q victim q' victim' : NodeQueue}
    (h : NodeQueue.Stolen lowerBound q victim q' victim') {m : ℕ} (hm : m ∈ victim.nodes) :
    m ∈ victim'.nodes ∨ m ∈ q'.nodes := by
  have hmem := h.nodes.mem_iff.mpr (mem_append_right _ hm)
  exact (mem_append.mp hmem).symm

lemma Effect.moves (hinv : Inv s) (h : Effect s a s') (hat : s.At place n)
    (hopen : s'.tree.IsOpen n) :
    ∃ place', s'.At place' n ∧ (place' = place ∨ Moves s a place place') := by
  cases h with
  | keep htree hworkers =>
    obtain ⟨x, hx, hn⟩ := hat
    exact ⟨place, ⟨x, by rwa [hworkers], hn⟩, .inl rfl⟩
  | @rearrange i w w' hw hheld hok hbefore hafter hmove =>
    obtain ⟨j, slot⟩ := place
    rcases eq_or_ne j i with rfl | hji
    · have hn := hat.mem hw
      cases slot with
      | hands =>
        have hin : n ∈ w'.held := hheld.mem_iff.mpr (mem_append_left _ hn)
        rcases mem_append.mp hin with hhands | hqueue
        · exact ⟨(j, .hands), at_set_self hw rfl hhands, .inl rfl⟩
        · exact ⟨(j, .queue), at_set_self hw rfl hqueue, .inr (.push a j)⟩
      | queue =>
        have hin : n ∈ w'.held := hheld.mem_iff.mpr (mem_append_right _ hn)
        rcases mem_append.mp hin with hhands | hqueue
        · rcases hmove with ⟨k, rfl⟩ | hkeep
          · exact ⟨(j, .hands), at_set_self hw rfl hhands, .inr (.pop j k)⟩
          · exact ⟨(j, .queue), at_set_self hw rfl (hkeep n hn), .inl rfl⟩
        · exact ⟨(j, .queue), at_set_self hw rfl hqueue, .inl rfl⟩
    · exact ⟨_, hat.set_of_ne rfl hji, .inl rfl⟩
  | steal hw hv hphase hne ha hstolen =>
    refine moves_put_put hw hv hne ?_ (fun m hm => hm) (fun m hm => .inl (hstolen.kept m hm)) ?_ hat
    · rw [hphase]
      exact nofun
    · intro m hm
      rcases mem_stolen hstolen hm with hin | hin
      · exact .inl hin
      · exact .inr ⟨hin, ha ▸ .steal hw hphase⟩
  | @reserve i t w v stack hw hv hphase hidle =>
    have hne : t ≠ i := by
      rintro rfl
      rw [hv] at hw
      cases hw
      rw [hidle] at hphase
      cases hphase
    refine moves_put_put hw hv hne ?_ ?_ (fun m hm => .inl hm) (fun m hm => .inl hm) hat
    · rw [hphase]
      exact fun m hm => hm
    · rw [hidle]
      exact nofun
  | @launch i t k w v v' stack queue stage stage' hw hv hphase ha hkeep hready hstolen hquiet =>
    obtain ⟨hne, hreserved, -⟩ := hinv.launching hw hv hphase
    refine moves_put_put hw hv hne ?_ ?_ ?_ (fun m hm => .inl (hstolen.kept m hm)) hat
    · rw [hphase]
      exact fun m hm => hm
    · rw [hkeep]
      exact fun m hm => hm
    · intro m hm
      rcases hquiet with rfl | rfl
      · rcases mem_stolen hstolen hm with hin | hin
        · exact .inl hin
        · exact .inr ⟨hin, ha ▸ .launch hw hphase⟩
      · exact .inl hm
  | @conclude i t w v stack success hw hv hphase =>
    obtain ⟨hne, hreserved, -⟩ := hinv.launching hw hv hphase
    refine moves_put_put hw hv hne ?_ ?_ (fun m hm => .inl hm) ?_ hat
    · rw [hphase]
      exact fun m hm => hm
    · rw [hreserved]
      exact nofun
    · intro m hm
      cases success <;> exact .inl hm
  | @close _ i m w phase hw hworkers hheld hnum hsame hclosed hbefore hafter hrun hok =>
    refine ⟨place, moves_close hw hworkers (fun x hx hxopen => ?_) rfl hat hopen, .inl rfl⟩
    rw [hheld] at hx
    rcases mem_cons.mp hx with rfl | hin
    · exact absurd hxopen.2 hclosed
    · exact hin
  | @branch _ i m preferred sibling w stack hw hphase hworkers hchildren hnum hsame hstatus hchild =>
    refine ⟨place, moves_close hw hworkers (fun x hx hxopen => ?_) rfl hat hopen, .inl rfl⟩
    rw [hphase] at hx
    rcases mem_cons.mp hx with rfl | hin
    · have hpending := hxopen.2
      rw [hstatus] at hpending
      cases hpending
    · exact mem_append_right _ hin

end Places

section Scanning

variable {cfg : SolverConfig} {s s' : SolverState} {scan scan' : Scan} {n : ℕ}

lemma BfsWorker.Ok.active_of_mem {lowerBound : ℕ → WithTop ℚ} {w : BfsWorker}
    (h : w.Ok lowerBound) {slot : Slot} (hn : n ∈ w.slot slot) : w.isActive = true := by
  cases slot with
  | hands =>
    refine h.active (.inl ?_)
    change n ∈ w.phase.nodes at hn
    cases hphase : w.phase with
    | idle | reserved | retired =>
      rw [hphase] at hn
      cases hn
    | _ => rfl
  | queue => exact h.active (.inr (ne_nil_of_mem hn))

lemma unread_next {index j : ℕ} (slot : Slot) (value : WithTop ℚ) (h : index < j) :
    (j, slot) ∈ Scan.unread ⟨value, index + 1, .isActive⟩ := by
  rcases Nat.lt_or_ge (index + 1) j with hlt | hge
  · exact .inl hlt
  · exact .inr ⟨le_antisymm hge h, nofun⟩

lemma BfsWorker.phase_of_isPreset {w : BfsWorker} (h : w.isPreset = true) : w.phase = .preset := by
  unfold isPreset at h
  split at h
  · assumption
  · cases h

lemma Scan.read_follows (hread : scan.read s = some scan') : scan'.Follows s := by
  intro hstage
  unfold Scan.read at hread
  split at hread
  · cases hread
  · next w hw =>
    split at hread
    · next hisActive =>
      split_ifs at hread
      · cases hread
        cases hstage
      · cases hread
        cases hisActive.symm.trans hstage
    · cases hread
      exact ⟨w, hw, BfsWorker.phase_of_isPreset (ScanStage.queue.inj hstage)⟩
    · cases hread
      cases hstage

lemma Scan.follow_follows (scan : Scan) (s : SolverState) : (scan.follow s).Follows s := by
  intro hstage
  unfold Scan.follow at hstage ⊢
  split at hstage
  · obtain ⟨w, hw, hset⟩ := (any_eq_true _ _).mp (ScanStage.queue.inj hstage)
    exact ⟨w, hw, BfsWorker.phase_of_isPreset hset⟩
  · next hnot => exact absurd hstage hnot

lemma Scan.read_accounted (hinv : Inv s) (hread : scan.read s = some scan')
    (h : Sweep.Accounted s.At s.lowerBound scan.unread scan.value n) :
    Sweep.Accounted s.At s.lowerBound scan'.unread scan'.value n := by
  obtain ⟨value, index, stage⟩ := scan
  cases hw : s.workers[index]? with
  | none =>
    simp only [Scan.read, hw] at hread
    cases hread
  | some w =>
    have hok := hinv.worker _ w hw
    cases stage with
    | isActive =>
      simp only [Scan.read, hw] at hread
      split_ifs at hread with hactive
      · cases hread
        refine h.read le_rfl ?_
        rintro place (hlt | ⟨heq, -⟩) hnot hat
        · exact absurd (.inl hlt) hnot
        · exact absurd (.inr ⟨heq, nofun⟩) hnot
      · cases hread
        refine h.read le_rfl ?_
        rintro ⟨j, slot⟩ (hlt | ⟨heq, -⟩) hnot hat
        · exact absurd (unread_next slot value hlt) hnot
        · obtain rfl : j = index := heq
          exact absurd (hok.active_of_mem (hat.mem hw)) hactive
    | published =>
      simp only [Scan.read, hw] at hread
      cases hread
      refine h.read (min_le_left _ _) ?_
      rintro ⟨j, slot⟩ (hlt | ⟨heq, -⟩) hnot hat
      · exact absurd (.inl hlt) hnot
      · obtain rfl : j = index := heq
        cases slot with
        | hands => exact (min_le_right _ _).trans (hok.published n (hat.mem hw))
        | queue =>
          cases hpreset : w.isPreset with
          | false =>
            refine absurd (.inr ⟨rfl, fun preset hstage => ⟨rfl, ?_⟩⟩) hnot
            exact (ScanStage.queue.inj hstage).symm.trans hpreset
          | true =>
            have hphase := hok.phase
            rw [BfsWorker.phase_of_isPreset hpreset] at hphase
            exact (min_le_right _ _).trans (hphase n (hat.mem hw))
    | queue =>
      simp only [Scan.read, hw] at hread
      cases hread
      refine h.read (min_le_left _ _) ?_
      rintro ⟨j, slot⟩ (hlt | ⟨heq, hslot⟩) hnot hat
      · exact absurd (unread_next slot _ hlt) hnot
      · obtain rfl : j = index := heq
        obtain rfl : slot = .queue := (hslot _ rfl).1
        exact (min_le_right _ _).trans (hok.queue.getLowerBound_le (hat.mem hw))

lemma Effect.accounted {a : Action} (hinv : Inv s) (heffect : Effect s a s')
    (hfollows : scan.Follows s) (hsafe : ¬ Escapes s scan a) (hbound : s'.lowerBound n = s.lowerBound n)
    (hopen : s'.tree.IsOpen n) (h : Sweep.Accounted s.At s.lowerBound scan.unread scan.value n) :
    Sweep.Accounted s'.At s'.lowerBound (scan.follow s').unread scan.value n := by
  refine h.move hbound fun place hplace hat => ?_
  obtain ⟨place', hat', rfl | hmove⟩ := heffect.moves hinv hat hopen
  · exact ⟨place', Scan.unread_follow hplace, hat'⟩
  · exact ⟨place', Scan.unread_follow (hmove.unread hinv hfollows hsafe hplace), hat'⟩

lemma Effect.lowerBound_eq {a : Action} (heffect : Effect s a s') (hopen : s.tree.IsOpen n)
    (hopen' : s'.tree.IsOpen n) : s'.lowerBound n = s.lowerBound n := by
  cases heffect with
  | keep htree hworkers => rw [SolverState.lowerBound, htree, SolverState.lowerBound]
  | rearrange | steal | reserve | launch | conclude => rfl
  | @close _ i m w phase hw hworkers hheld hnum hsame hclosed =>
    refine (hsame n hopen.1 ?_).2
    rintro rfl
    exact hclosed hopen'.2
  | @branch _ i m preferred sibling w stack hw hphase hworkers hchildren hnum hsame hstatus =>
    refine (hsame n hopen.1 ?_).2
    rintro rfl
    rw [hopen'.2] at hstatus
    cases hstatus

end Scanning

section Whole

variable {cfg : SolverConfig}

structure Watched (n : ℕ) (c : SolverState × Scan) : Prop where
  inv : Inv c.1
  follows : c.2.Follows c.1
  accounted : Sweep.Accounted c.1.At c.1.lowerBound c.2.unread c.2.value n

lemma ScanStep.watched {n : ℕ} {c c' : SolverState × Scan}
    (hstep : ScanStep cfg (fun s scan a => ¬ Escapes s scan a) c c') (hopen : c.1.tree.IsOpen n)
    (hopen' : c'.1.tree.IsOpen n) (h : Watched n c) : Watched n c' := by
  obtain ⟨s, scan⟩ := c
  obtain ⟨e, he, hguard⟩ := hstep
  cases e with
  | none =>
    obtain ⟨scan', hread, rfl⟩ := Option.map_eq_some_iff.mp he
    exact ⟨h.inv, Scan.read_follows hread, Scan.read_accounted h.inv hread h.accounted⟩
  | some a =>
    obtain ⟨s', hact, rfl⟩ := Option.map_eq_some_iff.mp he
    obtain ⟨hlp, hsafe⟩ := hguard a rfl
    have heffect := step_effect h.inv hlp hact
    refine ⟨h.inv.effect heffect, Scan.follow_follows scan s', ?_⟩
    rw [scan.follow_value]
    exact heffect.accounted h.inv h.follows hsafe (heffect.lowerBound_eq hopen hopen') hopen'
      h.accounted

lemma Inv.exists_at {s : SolverState} (h : Inv s) {n : ℕ} (hopen : s.tree.IsOpen n) :
    ∃ place ∈ (Scan.start s).unread, s.At place n := by
  obtain ⟨w, hw, hn⟩ := mem_flatMap.mp ((h.custody.mem_iff n).mpr hopen)
  obtain ⟨i, hi⟩ := mem_iff_getElem?.mp hw
  have hunread : ∀ slot, (i, slot) ∈ (Scan.start s).unread := by
    intro slot
    rcases Nat.eq_zero_or_pos i with rfl | hpos
    · exact .inr ⟨rfl, nofun⟩
    · exact .inl hpos
  rcases mem_append.mp hn with hhands | hqueue
  · exact ⟨(i, .hands), hunread _, w, hi, hhands⟩
  · exact ⟨(i, .queue), hunread _, w, hi, hqueue⟩

lemma reportedBound_le {value bound : WithTop ℚ} (h : value ≤ bound) :
    reportedBound cfg value ≤ (bound : WithBot (WithTop ℚ)) := by
  unfold reportedBound
  split_ifs with htop
  · exact WithBot.coe_le_coe.mpr h
  · rw [not_not] at htop
    obtain rfl : bound = ⊤ := top_le_iff.mp (htop ▸ h)
    exact le_top

lemma DeclaresOptimal.le_or_closed {obj : ℚ} {lower : WithBot (WithTop ℚ)} {bound : WithTop ℚ}
    (h : DeclaresOptimal cfg obj lower) (hle : lower ≤ (bound : WithBot (WithTop ℚ))) :
    (obj : WithTop ℚ) ≤ bound ∨ ∃ b : ℚ, bound = b ∧ GapClosed cfg obj b := by
  obtain ⟨l, rfl, hclosed⟩ := h
  rcases le_or_gt (obj : WithTop ℚ) bound with hobj | hlt
  · exact .inl hobj
  · obtain ⟨b, rfl⟩ := WithTop.ne_top_iff_exists.mp (ne_top_of_lt hlt)
    refine .inr ⟨b, rfl, hclosed.mono ?_ (WithTop.coe_lt_coe.mp hlt).le⟩
    exact WithTop.coe_le_coe.mp (WithBot.coe_le_coe.mp hle)

/-- In a run whose steps never take a node from an unread queue into a place that the scan has read,
the bound returned is not above that of a node that is open during the whole scan; and when it closes
the gap of an objective value, so does the bound of that node, or it is not below the value. -/
theorem getLowerBound_le_open (cfg : SolverConfig) (s : SolverState) (hs : Reachable cfg s)
    (trace : List (SolverState × Scan))
    (hsteps : ((s, Scan.start s) :: trace).IsChain
      (ScanStep cfg fun s scan a => ¬ Escapes s scan a))
    (last : SolverState × Scan) (hlast : ((s, Scan.start s) :: trace).getLast? = some last)
    (bound : WithBot (WithTop ℚ)) (hreturn : getLowerBound cfg last = some bound) (n : ℕ)
    (hopen : ∀ c ∈ (s, Scan.start s) :: trace, c.1.tree.IsOpen n) :
    bound ≤ (last.1.lowerBound n : WithBot (WithTop ℚ)) ∧
      ∀ obj : ℚ, DeclaresOptimal cfg obj bound → (obj : WithTop ℚ) ≤ last.1.lowerBound n ∨
        ∃ b : ℚ, last.1.lowerBound n = b ∧ GapClosed cfg obj b := by
  have hstart : Watched n (s, Scan.start s) :=
    ⟨hs.inv, nofun, .inr (hs.inv.exists_at (hopen _ mem_cons_self))⟩
  have hend : Watched n last := by
    refine Sweep.run_induction ?_ hsteps hopen hstart hlast
    exact fun c c' hstep hc hc' hwatched => hstep.watched hc hc' hwatched
  unfold getLowerBound at hreturn
  split_ifs at hreturn with hdone
  cases hreturn
  have hvalue : last.2.value ≤ last.1.lowerBound n := by
    refine hend.accounted.le_key ?_
    rintro ⟨j, slot⟩ hunread ⟨w, hw, -⟩
    have hlt : j < last.1.workers.length := (List.getElem?_eq_some_iff.mp hw).1
    rcases hunread with hgt | ⟨heq, -⟩
    · exact absurd hlt (by rw [← hdone]; exact not_lt.mpr (le_of_lt hgt))
    · exact absurd hlt (by rw [← hdone]; exact not_lt.mpr (ge_of_eq heq))
  have hbound : reportedBound cfg last.2.value ≤ (last.1.lowerBound n : WithBot (WithTop ℚ)) :=
    reportedBound_le hvalue
  exact ⟨hbound, fun obj hoptimal => hoptimal.le_or_closed hbound⟩

def run (cfg : SolverConfig) (s : SolverState) : List Action → Option SolverState
  | [] => some s
  | a :: actions =>
    if relaxationMonotone cfg s a then (step cfg s a).bind fun s' => run cfg s' actions else none

lemma Reachable.run {s s' : SolverState} {actions : List Action} (h : Reachable cfg s)
    (hrun : run cfg s actions = some s') : Reachable cfg s' := by
  induction actions generalizing s with
  | nil => exact Option.some.inj hrun ▸ h
  | cons a actions ih =>
    unfold BestFirst.run at hrun
    split_ifs at hrun with hlp
    obtain ⟨s₁, hstep, hrest⟩ := Option.bind_eq_some_iff.mp hrun
    exact ih (h.step a hlp hstep) hrest

def scanTrace (cfg : SolverConfig) (allowed : Scan → Action → Bool) (c : SolverState × Scan) :
    List (Option Action) → Option (List (SolverState × Scan))
  | [] => some []
  | e :: events =>
    if e.all fun a => relaxationMonotone cfg c.1 a && allowed c.2 a then
      (scanStep cfg c e).bind fun c' => (scanTrace cfg allowed c' events).map (c' :: ·)
    else none

lemma scanTrace_isChain {guard : SolverState → Scan → Action → Prop}
    {allowed : Scan → Action → Bool} {c : SolverState × Scan} {events : List (Option Action)}
    {trace : List (SolverState × Scan)} (h : scanTrace cfg allowed c events = some trace)
    (hguard : ∀ s scan a, allowed scan a = true → guard s scan a) :
    (c :: trace).IsChain (ScanStep cfg guard) := by
  induction events generalizing c trace with
  | nil =>
    cases h
    exact isChain_singleton c
  | cons e events ih =>
    unfold scanTrace at h
    split_ifs at h with hall
    obtain ⟨c', hstep, hrest⟩ := Option.bind_eq_some_iff.mp h
    obtain ⟨rest, htail, rfl⟩ := Option.map_eq_some_iff.mp hrest
    refine isChain_cons_cons.mpr ⟨⟨e, hstep, ?_⟩, ih htail⟩
    rintro a rfl
    obtain ⟨hlp, hallowed⟩ := (Bool.and_eq_true _ _).mp hall
    exact ⟨hlp, hguard c.1 c.2 a hallowed⟩

end Whole

instance (tree : SearchTree) (n : ℕ) : Decidable (tree.IsOpen n) :=
  inferInstanceAs (Decidable (_ ∧ _))

def plainConfig : SolverConfig := ⟨⟨{}, false, 0, 0, 0⟩, 0, 0, 1, 0, some 0, 20, 1⟩

/-- Worker `0` launches worker `1`, whose node is branched with the bound `10`; its own node is
branched with the bound `1`, and one child waits in the queue when the plunge ends. -/
def twoWorkersRun : Option SolverState :=
  run plainConfig (initialState 2 0 (10 : ℚ))
    [.search 0 .preset, .search 0 (.pop 0), .search 0 .publish, .search 0 .start,
      .plunge 0 (.launch 1), .plunge 0 (.advanceLaunch 0), .plunge 0 (.advanceLaunch 0),
      .plunge 0 (.advanceLaunch 0), .plunge 0 (.advanceLaunch 0), .plunge 0 (.advanceLaunch 0),
      .search 1 .preset, .search 1 (.pop 0), .search 1 .publish, .search 1 .start,
      .plunge 1 .take, .plunge 1 .publish, .plunge 1 .examine,
      .plunge 1 (.finish (.optimal 10 (some .up))), .plunge 1 .evict, .plunge 1 .measure,
      .plunge 1 .place, .plunge 1 .take, .plunge 1 .publish,
      .plunge 0 .take, .plunge 0 .publish, .plunge 0 .examine,
      .plunge 0 (.finish (.optimal 1 (some .up))), .plunge 0 .evict, .plunge 0 .measure,
      .plunge 0 .place, .plunge 0 .take, .plunge 0 .publish, .plunge 0 .examine,
      .plunge 0 (.finish .dualUnbounded), .plunge 0 .stop, .plunge 0 .drain, .search 0 .nextRound]

/-- In any order of the steps of the workers, each open node is with one worker or in one queue. -/
theorem reachable_custody {cfg : SolverConfig} {s : SolverState} (h : Reachable cfg s) :
    s.held.Nodup ∧ ∀ n, n ∈ s.held ↔ s.tree.IsOpen n :=
  ⟨h.inv.custody.nodup, h.inv.custody.mem_iff⟩

theorem twoWorkersRun_custody : ∃ s, twoWorkersRun = some s ∧
    s.held.Nodup ∧ ∀ n, n ∈ s.held ↔ s.tree.IsOpen n := by
  have hsome : twoWorkersRun.isSome = true := by decide +kernel
  obtain ⟨s, hs⟩ := Option.isSome_iff_exists.mp hsome
  exact ⟨s, hs, reachable_custody ((Reachable.initial 2 0 10).run hs)⟩

/-- The scan reads the bound that worker `0` has set for its pop, and the worker pops its node. -/
def presetScan : List (Option Action) :=
  [none, some (.search 0 .preset), none, some (.search 0 (.pop 0)), none, none, none, none]

def popsPreset (scan : Scan) : Action → Bool
  | .search _ .preset => true
  | .search _ (.pop _) => decide (scan.stage = .queue true)
  | _ => false

lemma not_escapes_of_popsPreset (s : SolverState) (scan : Scan) (a : Action)
    (h : popsPreset scan a = true) : ¬ Escapes s scan a := by
  unfold popsPreset at h
  split at h
  · exact id
  · rintro ⟨-, hstage⟩
    rw [hstage] at h
    cases h
  · cases h

theorem presetScan_le_node :
    ∃ s trace last bound, twoWorkersRun = some s ∧
      scanTrace plainConfig popsPreset (s, Scan.start s) presetScan = some trace ∧
      ((s, Scan.start s) :: trace).getLast? = some last ∧
      getLowerBound plainConfig last = some bound ∧
      bound ≤ (last.1.lowerBound 5 : WithBot (WithTop ℚ)) ∧
      ∀ obj : ℚ, DeclaresOptimal plainConfig obj bound → (obj : WithTop ℚ) ≤ last.1.lowerBound 5 ∨
        ∃ b : ℚ, last.1.lowerBound 5 = b ∧ GapClosed plainConfig obj b := by
  have hany : twoWorkersRun.any (fun s =>
      (scanTrace plainConfig popsPreset (s, Scan.start s) presetScan).any fun trace =>
        ((s, Scan.start s) :: trace).getLast?.any fun last =>
          (getLowerBound plainConfig last).isSome &&
          decide (∀ c ∈ (s, Scan.start s) :: trace, c.1.tree.IsOpen 5)) = true := by
    decide +kernel
  obtain ⟨s, hrun, hs⟩ := (any_eq_true _ _).mp hany
  obtain ⟨trace, htrace, hs⟩ := (any_eq_true _ _).mp hs
  obtain ⟨last, hlast, hs⟩ := (any_eq_true _ _).mp hs
  obtain ⟨hbound, hopen⟩ := (Bool.and_eq_true _ _).mp hs
  obtain ⟨bound, hbound⟩ := Option.isSome_iff_exists.mp hbound
  refine ⟨s, trace, last, bound, hrun, htrace, hlast, hbound, ?_⟩
  exact getLowerBound_le_open plainConfig s ((Reachable.initial 2 0 10).run hrun) trace
    (scanTrace_isChain htrace not_escapes_of_popsPreset) last hlast bound hbound 5
    (of_decide_eq_true hopen)

/-- The scan reads the bound that worker `0` published, the worker pops its node, and the scan reads
the empty queue. -/
def poppedScan : List (Option Action) :=
  [none, none, some (.search 0 .preset), some (.search 0 (.pop 0)), none, none, none, none]

/-- The scan reports `10` and optimality is declared for the objective value `10`, while node `5`
with the bound `1` is open all the time. -/
theorem poppedScan_misses_node :
    ∃ s trace last, Reachable plainConfig s ∧
      ((s, Scan.start s) :: trace).IsChain (ScanStep plainConfig fun _ _ _ => True) ∧
      ((s, Scan.start s) :: trace).getLast? = some last ∧
      getLowerBound plainConfig last = some ((10 : ℚ) : WithTop ℚ) ∧
      (∀ c ∈ (s, Scan.start s) :: trace, c.1.tree.IsOpen 5) ∧
      last.1.lowerBound 5 = (1 : ℚ) ∧ DeclaresOptimal plainConfig 10 ((10 : ℚ) : WithTop ℚ) := by
  have hany : twoWorkersRun.any (fun s =>
      (scanTrace plainConfig (fun _ _ => true) (s, Scan.start s) poppedScan).any fun trace =>
        ((s, Scan.start s) :: trace).getLast?.any fun last =>
          decide (getLowerBound plainConfig last = some ((10 : ℚ) : WithTop ℚ)) &&
          (decide (∀ c ∈ (s, Scan.start s) :: trace, c.1.tree.IsOpen 5) &&
          decide (last.1.lowerBound 5 = (1 : ℚ)))) = true := by
    decide +kernel
  obtain ⟨s, hrun, hs⟩ := (any_eq_true _ _).mp hany
  obtain ⟨trace, htrace, hs⟩ := (any_eq_true _ _).mp hs
  obtain ⟨last, hlast, hs⟩ := (any_eq_true _ _).mp hs
  obtain ⟨hbound, hs⟩ := (Bool.and_eq_true _ _).mp hs
  obtain ⟨hopen, hnode⟩ := (Bool.and_eq_true _ _).mp hs
  refine ⟨s, trace, last, (Reachable.initial 2 0 10).run hrun, ?_, hlast, of_decide_eq_true hbound,
    of_decide_eq_true hopen, of_decide_eq_true hnode, 10, rfl, .inr ?_⟩
  · exact scanTrace_isChain htrace fun _ _ _ _ => trivial
  · decide +kernel

end CuOpt.BranchAndBound.BestFirst
