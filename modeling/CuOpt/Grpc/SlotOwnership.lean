import CuOpt.Grpc.StepEffects

/-! Who holds a slot: the party whose compare-exchange on `claimed` succeeded, until it stores `false`
there. This holds whatever the parties find in the slot. -/

namespace CuOpt.Grpc

open List Function
open Bool (not_eq_true)

def stillHeld : List Store → Bool
  | [] => false
  | [.cancelled false] => false
  | _ => true

def SubmitPc.holds : SubmitPc → Option ℕ
  | .fill i _ => some i
  | .track i | .enqueue i => some i
  | .publish i todo => if todo = [] then none else some i
  | .scan _ | .reserve _ | .done _ => none

def SubmitPc.past : SubmitPc → Bool
  | .publish _ todo => decide (Store.ready true ∉ todo)
  | .done published => published
  | .scan _ | .reserve _ | .fill _ _ | .track _ | .enqueue _ => false

def WorkerPc.holds : WorkerPc → Option ℕ
  | .checkReady slot _ | .checkSeq slot _ | .release slot | .storePid slot | .storeIndex slot
  | .copyId slot | .checkCancelled slot _ | .read slot _ | .solve slot _ _ => some slot
  | .reset slot todo => if stillHeld todo then some slot else none
  | .exited | .scan _ _ | .scanClaimed _ _ | .scanSeq _ _ | .claim _ _ => none

def WorkerPc.hasClaimed : WorkerPc → Bool
  | .storePid _ | .storeIndex _ | .copyId _ | .checkCancelled _ _ | .read _ _ | .solve _ _ _ => true
  | .reset _ todo => stillHeld todo
  | .exited | .scan _ _ | .scanClaimed _ _ | .scanSeq _ _ | .claim _ _ | .checkReady _ _
  | .checkSeq _ _ | .release _ => false

def MonitorPc.holds : MonitorPc → Option ℕ
  | .reset _ i todo => if stillHeld todo then some i else none
  | .idle | .loadReady _ _ | .loadClaimed _ _ | .loadPid _ _ => none

def MonitorPc.pid : MonitorPc → Option ℕ
  | .idle => none
  | .loadReady pid _ | .loadClaimed pid _ | .loadPid pid _ | .reset pid _ _ => some pid

/-- What a party that holds a slot knows of its `worker_pid` and of what is published in it. -/
def SubmitPc.Ok (jobId : ℕ) (r : Request) (workerPid : ℕ) : SubmitPc → Prop
  | .fill _ todo => workerPid = 0 ∧ todo <:+ fillStores jobId r
  | .track _ | .enqueue _ => workerPid = 0
  | .publish _ todo => workerPid = 0 ∧ ∃ seq, todo <:+ publishStores seq
  | .scan _ | .reserve _ | .done _ => True

def ResetOk (pid workerPid : ℕ) (published : Option ℕ) (todo : List Store) : Prop :=
  todo <:+ resetStores ∧ workerPid = (if Store.workerPid 0 ∈ todo then pid else 0) ∧
    (Store.ready false ∉ todo → published = none)

def WorkerPc.Ok (pid workerPid : ℕ) (published : Option ℕ) : WorkerPc → Prop
  | .checkReady _ _ | .release _ => workerPid = 0
  | .checkSeq _ _ | .storePid _ => workerPid = 0 ∧ published.isSome = true
  | .storeIndex _ | .copyId _ | .checkCancelled _ _ | .read _ _ | .solve _ _ _ =>
    workerPid = pid ∧ published.isSome = true
  | .reset _ todo => ResetOk pid workerPid published todo
  | .exited | .scan _ _ | .scanClaimed _ _ | .scanSeq _ _ | .claim _ _ => True

def MonitorPc.Ok (workerPid : ℕ) (published : Option ℕ) : MonitorPc → Prop
  | .reset pid _ todo => ResetOk pid workerPid published todo
  | .idle | .loadReady _ _ | .loadClaimed _ _ | .loadPid _ _ => True

namespace Server

variable (c : ServerConfig)

def holds (s : Server) : Party → Option ℕ
  | .submitter jobId => (s.submitter jobId).holds
  | .worker pid => (s.worker pid).holds
  | .monitor => s.monitor.holds

def claimant (s : Server) : Party → Option ℕ
  | .submitter _ => none
  | .worker pid => if (s.worker pid).hasClaimed then some pid else none
  | .monitor =>
    match s.monitor with
    | .reset pid _ todo => if stillHeld todo then some pid else none
    | _ => none

def localOk (s : Server) (workerPid : ℕ) (published : Option ℕ) : Party → Prop
  | .submitter jobId => (s.submitter jobId).Ok jobId (c.request jobId) workerPid
  | .worker pid => (s.worker pid).Ok pid workerPid published
  | .monitor => s.monitor.Ok workerPid published

structure Inv (s : Server) : Prop where
  own : ∀ x i, s.holds x = some i ↔ s.holder i = some x
  claimed : ∀ i, (s.slot i).claimed = (s.holder i).isSome
  free : ∀ i, s.holder i = none → (s.slot i).workerPid = 0
  ready : ∀ i, (s.slot i).ready = (s.published i).isSome
  known : ∀ x i, s.holds x = some i → s.localOk c (s.slot i).workerPid (s.published i) x
  past : ∀ i j, s.published i = some j → (s.submitter j).past = true
  once : ∀ i i' j, s.published i = some j → s.published i' = some j → i = i'
  claimsPast : ∀ p ∈ s.claims, (s.submitter p.1).past = true
  claimsHeld : ∀ p ∈ s.claims, ∀ i, s.published i = some p.1 →
    ∃ x, s.holder i = some x ∧ (s.claimant x).isSome = true
  claimsNodup : (s.claims.map Prod.fst).Nodup
  claimedBy : ∀ x i, s.holds x = some i → ∀ pid, s.claimant x = some pid →
    ∀ j, s.published i = some j → (j, pid) ∈ s.claims
  monitorPid : ∀ pid, s.monitor.pid = some pid → 0 < pid

structure Frame (s s' : Server) (y : Party) : Prop where
  holds : s'.holds y = s.holds y
  claimant : s'.claimant y = s.claimant y
  known : ∀ workerPid published, s.localOk c workerPid published y →
    s'.localOk c workerPid published y

variable {c} {s s' : Server}

variable {x : Party} {i pid : ℕ}

lemma Inv.eq_of_holds (h : s.Inv c) {y : Party} (hx : s.holds x = some i)
    (hy : s.holds y = some i) : x = y := by
  have hholder := (h.own x i).mp hx
  rw [(h.own y i).mp hy] at hholder
  exact (Option.some.inj hholder).symm

lemma initial_inv : initial.Inv c := by
  constructor
  · intro x i
    cases x <;> simp [holds, initial, SubmitPc.holds, WorkerPc.holds, MonitorPc.holds]
  · intro i
    rfl
  · intro i _
    rfl
  · intro i
    rfl
  · intro x i hx
    cases x <;> simp [holds, initial, SubmitPc.holds, WorkerPc.holds, MonitorPc.holds] at hx
  · intro i j hj
    cases hj
  · intro i i' j hj
    cases hj
  · intro p hp
    cases hp
  · intro p hp
    cases hp
  · exact nodup_nil
  · intro x i hx
    cases x <;> simp [holds, initial, SubmitPc.holds, WorkerPc.holds, MonitorPc.holds] at hx
  · intro pid hmonitor
    cases hmonitor

lemma frame_of_same {y : Party}
    (hsubmitter : ∀ j, y = .submitter j → s'.submitter j = s.submitter j)
    (hworker : ∀ p, y = .worker p → s'.worker p = s.worker p)
    (hmonitor : y = .monitor → s'.monitor = s.monitor) : Frame c s s' y := by
  cases y with
  | submitter j =>
    have hsame := hsubmitter j rfl
    constructor
    · simp only [holds, hsame]
    · rfl
    · intro workerPid published hok
      simpa only [localOk, hsame] using hok
  | worker p =>
    have hsame := hworker p rfl
    constructor
    · simp only [holds, hsame]
    · simp only [claimant, hsame]
    · intro workerPid published hok
      simpa only [localOk, hsame] using hok
  | monitor =>
    have hsame := hmonitor rfl
    constructor
    · simp only [holds, hsame]
    · simp only [claimant, hsame]
    · intro workerPid published hok
      simpa only [localOk, hsame] using hok

lemma frame_submitter {jobId : ℕ} {pc : SubmitPc}
    (hsubmitter : s'.submitter = update s.submitter jobId pc)
    (hworker : s'.worker = s.worker) (hmonitor : s'.monitor = s.monitor) :
    ∀ y, y ≠ Party.submitter jobId → Frame c s s' y := by
  intro y hy
  refine frame_of_same ?_ (fun p _ => congrFun hworker p) fun _ => hmonitor
  rintro j rfl
  rw [hsubmitter, update_of_ne fun heq => hy (congrArg Party.submitter heq)]

lemma frame_worker {pc : WorkerPc} (hsubmitter : s'.submitter = s.submitter)
    (hworker : s'.worker = update s.worker pid pc) (hmonitor : s'.monitor = s.monitor) :
    ∀ y, y ≠ Party.worker pid → Frame c s s' y := by
  intro y hy
  refine frame_of_same (fun j _ => congrFun hsubmitter j) ?_ fun _ => hmonitor
  rintro p rfl
  rw [hworker, update_of_ne fun heq => hy (congrArg Party.worker heq)]

lemma frame_monitor (hsubmitter : s'.submitter = s.submitter) (hworker : s'.worker = s.worker) :
    ∀ y, y ≠ Party.monitor → Frame c s s' y := fun _ hy =>
  frame_of_same (fun j _ => congrFun hsubmitter j) (fun p _ => congrFun hworker p)
    fun heq => absurd heq hy

/-- A load, or a store that the invariant does not see: the party goes on with what it holds. -/
lemma Inv.of_local (h : s.Inv c) (x : Party) (hmem : SameFlags s s')
    (hframe : ∀ y, y ≠ x → Frame c s s' y) (hholds : s'.holds x = s.holds x)
    (hclaimant : s'.claimant x = s.claimant x)
    (hknown : ∀ i, s.holds x = some i → s.localOk c (s.slot i).workerPid (s.published i) x →
      s'.localOk c (s.slot i).workerPid (s.published i) x)
    (hpast : ∀ j, (s'.submitter j).past = (s.submitter j).past)
    (hmonitor : ∀ pid, s'.monitor.pid = some pid → 0 < pid) : s'.Inv c := by
  have hall : ∀ y, s'.holds y = s.holds y := by
    intro y
    by_cases hy : y = x
    · rw [hy, hholds]
    · exact (hframe y hy).holds
  have hallc : ∀ y, s'.claimant y = s.claimant y := by
    intro y
    by_cases hy : y = x
    · rw [hy, hclaimant]
    · exact (hframe y hy).claimant
  constructor
  · intro y i
    rw [hall, hmem.holder]
    exact h.own y i
  · intro i
    rw [hmem.claimed, hmem.holder]
    exact h.claimed i
  · intro i
    rw [hmem.workerPid, hmem.holder]
    exact h.free i
  · intro i
    rw [hmem.ready, hmem.published]
    exact h.ready i
  · intro y i hy
    rw [hall] at hy
    rw [hmem.workerPid, hmem.published]
    have hold := h.known y i hy
    by_cases hyx : y = x
    · subst hyx
      exact hknown i hy hold
    · exact (hframe y hyx).known _ _ hold
  · intro i j
    rw [hmem.published, hpast]
    exact h.past i j
  · rw [hmem.published]
    exact h.once
  · intro p
    rw [hmem.claims, hpast]
    exact h.claimsPast p
  · intro p hp i hi
    rw [hmem.claims] at hp
    rw [hmem.published] at hi
    obtain ⟨y, hy, hclaim⟩ := h.claimsHeld p hp i hi
    exact ⟨y, by rw [hmem.holder, hy], by rw [hallc, hclaim]⟩
  · rw [hmem.claims]
    exact h.claimsNodup
  · intro y i hy pid hpid j hj
    rw [hall] at hy
    rw [hallc] at hpid
    rw [hmem.published] at hj
    rw [hmem.claims]
    exact h.claimedBy y i hy pid hpid j hj
  · exact hmonitor

/-- A step at one slot: it changes that slot and the parties of `X`, which hold no other slot. -/
structure AtSlot (c : ServerConfig) (s s' : Server) (X : Party → Prop) (i : ℕ) : Prop where
  frame : ∀ y, ¬ X y → Frame c s s' y
  before : ∀ y j, s.holds y = some j → (X y ↔ j = i)
  after : ∀ y, X y → ∀ j, s'.holds y = some j → j = i
  slot : ∀ j, j ≠ i → s'.slot j = s.slot j
  holder : ∀ j, j ≠ i → s'.holder j = s.holder j
  published : ∀ j, j ≠ i → s'.published j = s.published j

/-- What the step has to keep, at its slot and for its parties. -/
structure KeepsAt (c : ServerConfig) (s s' : Server) (X : Party → Prop) (i : ℕ) : Prop where
  own : ∀ y, s'.holder i = some y ↔ X y ∧ s'.holds y = some i
  claimed : (s'.slot i).claimed = (s'.holder i).isSome
  free : s'.holder i = none → (s'.slot i).workerPid = 0
  ready : (s'.slot i).ready = (s'.published i).isSome
  known : ∀ y, X y → s'.holds y = some i → s'.localOk c (s'.slot i).workerPid (s'.published i) y
  past : ∀ j, (s.submitter j).past = true → (s'.submitter j).past = true
  publishes : ∀ j, s'.published i = some j → s.published i = some j ∨
    (s.submitter j).past = false ∧ (s'.submitter j).past = true
  claims : s.claims ⊆ s'.claims
  newClaims : ∀ p ∈ s'.claims, p ∈ s.claims ∨ s.published i = some p.1
  claimsNodup : (s'.claims.map Prod.fst).Nodup
  claimsHeld : ∀ p ∈ s'.claims, s'.published i = some p.1 →
    ∃ x, s'.holder i = some x ∧ (s'.claimant x).isSome = true
  claimedBy : ∀ y, X y → s'.holds y = some i → ∀ pid, s'.claimant y = some pid →
    ∀ j, s'.published i = some j → (j, pid) ∈ s'.claims
  monitorPid : ∀ pid, s'.monitor.pid = some pid → 0 < pid

section AtSlot

variable {X : Party → Prop}

lemma AtSlot.other (hat : AtSlot c s s' X i) {y : Party} {j : ℕ} (hy : ¬ X y)
    (hj : s'.holds y = some j) : s.holds y = some j ∧ j ≠ i := by
  rw [(hat.frame y hy).holds] at hj
  exact ⟨hj, fun hi => hy ((hat.before y j hj).mpr hi)⟩

lemma AtSlot.own (hat : AtSlot c s s' X i) (hkeep : KeepsAt c s s' X i) (h : s.Inv c) (y : Party)
    (j : ℕ) : s'.holds y = some j ↔ s'.holder j = some y := by
  by_cases hj : j = i
  · subst hj
    rw [hkeep.own, iff_and_self]
    intro hholds
    by_contra hy
    exact (hat.other hy hholds).2 rfl
  · rw [hat.holder j hj, ← h.own]
    by_cases hy : X y
    · exact iff_of_false (fun hholds => hj (hat.after y hy j hholds)) fun hholds =>
        hj ((hat.before y j hholds).mp hy)
    · rw [(hat.frame y hy).holds]

/-- A job that is published afterwards was published there before, or is published now. -/
lemma AtSlot.back (hat : AtSlot c s s' X i) (hkeep : KeepsAt c s s' X i) {j id : ℕ}
    (hid : s'.published j = some id) : s.published j = some id ∨
      (j = i ∧ (s.submitter id).past = false ∧ (s'.submitter id).past = true) := by
  by_cases hj : j = i
  · subst hj
    exact (hkeep.publishes id hid).imp_right fun hnew => ⟨rfl, hnew⟩
  · exact .inl (hat.published j hj ▸ hid)

lemma AtSlot.held (hat : AtSlot c s s' X i) (hkeep : KeepsAt c s s' X i) (h : s.Inv c) {p : ℕ × ℕ}
    (hp : p ∈ s'.claims) {j : ℕ} (hj : s'.published j = some p.1) :
    ∃ x, s'.holder j = some x ∧ (s'.claimant x).isSome = true := by
  by_cases hji : j = i
  · subst hji
    exact hkeep.claimsHeld p hp hj
  · have hold := hat.published j hji ▸ hj
    rcases hkeep.newClaims p hp with hclaims | hnew
    · obtain ⟨y, hy, hclaim⟩ := h.claimsHeld p hclaims j hold
      have hyX : ¬ X y := fun hX => hji ((hat.before y j ((h.own y j).mpr hy)).mp hX)
      exact ⟨y, by rw [hat.holder j hji, hy], by rw [(hat.frame y hyX).claimant, hclaim]⟩
    · exact absurd (h.once j i p.1 hold hnew) hji

lemma Inv.of_atSlot (h : s.Inv c) (hat : AtSlot c s s' X i) (hkeep : KeepsAt c s s' X i) :
    s'.Inv c := by
  refine ⟨hat.own hkeep h, ?_, ?_, ?_, ?_, ?_, ?_, ?_, fun p hp j => hat.held hkeep h hp,
    hkeep.claimsNodup, ?_, hkeep.monitorPid⟩
  · intro j
    by_cases hj : j = i
    · exact hj ▸ hkeep.claimed
    · rw [hat.slot j hj, hat.holder j hj, h.claimed]
  · intro j
    by_cases hj : j = i
    · exact hj ▸ hkeep.free
    · rw [hat.slot j hj, hat.holder j hj]
      exact h.free j
  · intro j
    by_cases hj : j = i
    · exact hj ▸ hkeep.ready
    · rw [hat.slot j hj, hat.published j hj, h.ready]
  · intro y j hy
    by_cases hyX : X y
    · obtain rfl := hat.after y hyX j hy
      exact hkeep.known y hyX hy
    · obtain ⟨hold, hj⟩ := hat.other hyX hy
      rw [hat.slot j hj, hat.published j hj]
      exact (hat.frame y hyX).known _ _ (h.known y j hold)
  · intro j id hid
    rcases hat.back hkeep hid with hold | ⟨-, -, hnow⟩
    · exact hkeep.past id (h.past j id hold)
    · exact hnow
  · intro j j' id hj hj'
    rcases hat.back hkeep hj with hold | ⟨rfl, hnot, -⟩ <;>
      rcases hat.back hkeep hj' with hold' | ⟨rfl, hnot', -⟩
    · exact h.once j j' id hold hold'
    · exact absurd (h.past j id hold) (by simp [hnot'])
    · exact absurd (h.past j' id hold') (by simp [hnot])
    · rfl
  · intro p hp
    rcases hkeep.newClaims p hp with hold | hnew
    · exact hkeep.past p.1 (h.claimsPast p hold)
    · exact hkeep.past p.1 (h.past i p.1 hnew)
  · intro y j hy pid hpid id hid
    by_cases hyX : X y
    · obtain rfl := hat.after y hyX j hy
      exact hkeep.claimedBy y hyX hy pid hpid id hid
    · obtain ⟨hold, hj⟩ := hat.other hyX hy
      rw [(hat.frame y hyX).claimant] at hpid
      rw [hat.published j hj] at hid
      exact hkeep.claims (h.claimedBy y j hold pid hpid id hid)

end AtSlot

lemma Inv.of_take (h : s.Inv c) (x : Party) (i : ℕ) (hfree : (s.slot i).claimed = false)
    (hmem : SameMemory (s.take x i) s') (hframe : ∀ y, y ≠ x → Frame c s s' y)
    (hbefore : s.holds x = none) (hafter : s'.holds x = some i) (hclaimant : s'.claimant x = none)
    (hknown : s'.localOk c 0 (s.published i) x)
    (hpast : ∀ j, (s'.submitter j).past = (s.submitter j).past)
    (hmonitor : s'.monitor = s.monitor) : s'.Inv c := by
  have hnone : s.holder i = none := by
    have hclaimed := h.claimed i
    rw [hfree] at hclaimed
    exact Option.isSome_eq_false_iff.mp hclaimed.symm |> Option.isNone_iff_eq_none.mp
  have hholder : s'.holder i = some x := by
    rw [hmem.holder]
    exact update_self _ _ _
  have hself : s'.slot i = (s.slot i).store (.claimed true) := by
    rw [hmem.slot]
    exact update_self _ _ _
  have hpublished : s'.published = s.published := hmem.published
  have hclaims : s'.claims = s.claims := hmem.claims
  have hpid : (s'.slot i).workerPid = 0 := by
    rw [hself]
    exact h.free i hnone
  refine h.of_atSlot (X := (· = x)) (i := i) ⟨hframe, ?_, ?_, ?_, ?_, ?_⟩ ⟨?_, ?_, ?_, ?_, ?_, ?_, ?_,
    hclaims ▸ List.Subset.refl _, fun p hp => .inl (hclaims ▸ hp), hclaims ▸ h.claimsNodup, ?_, ?_,
    hmonitor ▸ h.monitorPid⟩
  · intro y j hy
    refine iff_of_false ?_ ?_
    · rintro rfl
      rw [hbefore] at hy
      cases hy
    · rintro rfl
      rw [(h.own y j).mp hy] at hnone
      cases hnone
  · rintro y rfl j hj
    rw [hafter] at hj
    exact (Option.some.inj hj).symm
  · intro j hj
    rw [hmem.slot]
    exact update_of_ne hj _ _
  · intro j hj
    rw [hmem.holder]
    exact update_of_ne hj _ _
  · intro j _
    rw [hpublished]
  · intro y
    rw [hholder, Option.some.injEq]
    exact ⟨fun hy => ⟨hy.symm, hy ▸ hafter⟩, fun hy => hy.1.symm⟩
  · rw [hself, hholder]
    rfl
  · intro _
    exact hpid
  · rw [hself, hpublished]
    exact h.ready i
  · rintro y rfl -
    rw [hpid, hpublished]
    exact hknown
  · intro j hj
    rw [hpast, hj]
  · intro j hj
    exact .inl (hpublished ▸ hj)
  · intro p hp hi
    rw [hclaims] at hp
    rw [hpublished] at hi
    obtain ⟨y, hy, -⟩ := h.claimsHeld p hp i hi
    rw [hnone] at hy
    cases hy
  · rintro y rfl - pid hpid
    rw [hclaimant] at hpid
    cases hpid

variable {st : Store}

/-- What a store of the holder must respect: it does not set `claimed`, only a submitter publishes, and
it publishes once; a slot is given back with its `worker_pid` cleared and, by a party that claimed it,
unpublished. -/
structure Lawful (s : Server) (x : Party) (i : ℕ) (st : Store) : Prop where
  held : s.holds x = some i
  notTaken : st ≠ .claimed true
  publishes : st = .ready true → ∃ j, x = .submitter j ∧ (s.submitter j).past = false
  cleared : st = .claimed false → (s.slot i).workerPid = 0
  unpublished : st = .claimed false → (s.claimant x).isSome = true → s.published i = none

lemma Lawful.claimed_store (hlaw : s.Lawful x i st) : ((s.slot i).store st).claimed =
    if st = .claimed false then false else (s.slot i).claimed := by
  cases st with
  | claimed v =>
    cases v with
    | true => exact absurd rfl hlaw.notTaken
    | false => rfl
  | _ => rfl

lemma Lawful.ready_store (hlaw : s.Lawful x i st) (hready : (s.slot i).ready = (s.published i).isSome) :
    ((s.slot i).store st).ready = (publishedAfter x (s.published i) st).isSome := by
  cases st with
  | ready v =>
    cases v with
    | true =>
      obtain ⟨id, rfl, -⟩ := hlaw.publishes rfl
      rfl
    | false => rfl
  | _ => exact hready

/-- What is published after the store was published before, or is published by the store. -/
lemma Lawful.publishes_cases (hlaw : s.Lawful x i st)
    (hpast : ∀ j, (s'.submitter j).past = true ↔
      (s.submitter j).past = true ∨ (st = .ready true ∧ x = .submitter j)) {j : ℕ}
    (hj : publishedAfter x (s.published i) st = some j) : s.published i = some j ∨
      (s.submitter j).past = false ∧ (s'.submitter j).past = true := by
  by_cases ht : st = .ready true
  · obtain ⟨id, rfl, hnot⟩ := hlaw.publishes ht
    subst ht
    cases hj
    exact .inr ⟨hnot, (hpast _).mpr (.inr ⟨rfl, rfl⟩)⟩
  · by_cases hf : st = .ready false
    · subst hf
      cases hj
    · rw [publishedAfter_of_ne ht hf] at hj
      exact .inl hj

lemma Inv.of_put (h : s.Inv c) (hlaw : s.Lawful x i st) (hmem : SameMemory (s.put x i st) s')
    (hframe : ∀ y, y ≠ x → Frame c s s' y)
    (hafter : s'.holds x = if st = .claimed false then none else some i)
    (hclaimant : st ≠ .claimed false → s'.claimant x = s.claimant x)
    (hknown : st ≠ .claimed false →
      s'.localOk c ((s.slot i).store st).workerPid (publishedAfter x (s.published i) st) x)
    (hpast : ∀ j, (s'.submitter j).past = true ↔
      (s.submitter j).past = true ∨ (st = .ready true ∧ x = .submitter j))
    (hmonitor : ∀ pid, s'.monitor.pid = some pid → 0 < pid) : s'.Inv c := by
  have hholdi : s.holder i = some x := (h.own x i).mp hlaw.held
  have hholder : s'.holder i = if st = .claimed false then none else some x := by
    rw [hmem.holder]
    simp only [put]
    split_ifs
    · exact update_self _ _ _
    · exact hholdi
  have hself : s'.slot i = (s.slot i).store st := by
    rw [hmem.slot]
    exact update_self _ _ _
  have hpub : s'.published i = publishedAfter x (s.published i) st := by
    rw [hmem.published]
    exact update_self _ _ _
  have hclaims : s'.claims = s.claims := hmem.claims
  refine h.of_atSlot (X := (· = x)) (i := i) ⟨hframe, ?_, ?_, ?_, ?_, ?_⟩ ⟨?_, ?_, ?_, ?_, ?_, ?_,
    fun j hj => hlaw.publishes_cases hpast (hpub ▸ hj), hclaims ▸ List.Subset.refl _,
    fun p hp => .inl (hclaims ▸ hp), hclaims ▸ h.claimsNodup, ?_, ?_, hmonitor⟩
  · intro y j hy
    constructor
    · rintro rfl
      rw [hlaw.held] at hy
      exact (Option.some.inj hy).symm
    · rintro rfl
      exact h.eq_of_holds hy hlaw.held
  · rintro y rfl j hj
    rw [hafter] at hj
    split_ifs at hj
    exact (Option.some.inj hj).symm
  · intro j hj
    rw [hmem.slot]
    exact update_of_ne hj _ _
  · intro j hj
    rw [hmem.holder]
    simp only [put]
    split_ifs
    · exact update_of_ne hj _ _
    · rfl
  · intro j hj
    rw [hmem.published]
    exact update_of_ne hj _ _
  · intro y
    rw [hholder]
    by_cases hst : st = .claimed false
    · rw [if_pos hst]
      refine iff_of_false (by simp) ?_
      rintro ⟨rfl, hy⟩
      rw [hafter, if_pos hst] at hy
      cases hy
    · rw [if_neg hst, Option.some.injEq]
      rw [if_neg hst] at hafter
      exact ⟨fun hy => ⟨hy.symm, hy ▸ hafter⟩, fun hy => hy.1.symm⟩
  · rw [hself, hholder, hlaw.claimed_store, h.claimed, hholdi]
    split_ifs <;> rfl
  · intro hnone
    rw [hholder] at hnone
    split_ifs at hnone with hst
    rw [hself, hst]
    exact hlaw.cleared hst
  · rw [hself, hpub]
    exact hlaw.ready_store (h.ready i)
  · rintro y rfl hy
    rw [hafter] at hy
    split_ifs at hy with hst
    rw [hself, hpub]
    exact hknown hst
  · intro j hj
    exact (hpast j).mpr (.inl hj)
  · intro p hp hj
    rw [hclaims] at hp
    rcases hlaw.publishes_cases hpast (hpub ▸ hj) with hold | ⟨hnot, -⟩
    · obtain ⟨y, hy, hclaim⟩ := h.claimsHeld p hp i hold
      rw [hholdi] at hy
      cases hy
      have hst : st ≠ .claimed false := by
        intro hst
        rw [hlaw.unpublished hst hclaim] at hold
        cases hold
      exact ⟨x, by rw [hholder, if_neg hst], by rw [hclaimant hst, hclaim]⟩
    · rw [h.claimsPast p hp] at hnot
      cases hnot
  · rintro y rfl hy pid hpid id hid
    rw [hafter] at hy
    split_ifs at hy with hst
    rw [hclaimant hst] at hpid
    rw [hclaims]
    refine h.claimedBy y i hlaw.held pid hpid id ?_
    -- a party that has claimed a job is not a submission
    refine (hlaw.publishes_cases hpast (hpub ▸ hid)).resolve_right fun hnew => ?_
    rcases (hpast id).mp hnew.2 with hold | ⟨-, rfl⟩
    · rw [hold] at hnew
      cases hnew.1
    · cases hpid

variable {todo : List Store}

lemma mem_of_suffix_cons {l : List Store} (h : st :: todo <:+ l) : st ∈ l :=
  h.subset mem_cons_self

lemma suffix_tail {l : List Store} (h : st :: todo <:+ l) : todo <:+ l :=
  (suffix_cons st todo).trans h

/-- No store of a submission's fill is to a flag of the protocol. -/
lemma fillStores_plain {jobId : ℕ} {r : Request} (h : st ∈ fillStores jobId r) :
    (∀ v, st ≠ .ready v) ∧ (∀ v, st ≠ .claimed v) ∧ ∀ v, st = .workerPid v → v = 0 := by
  simp only [fillStores, mem_cons, not_mem_nil, or_false] at h
  rcases h with rfl | rfl | rfl | rfl | rfl | rfl | rfl | rfl | rfl <;> simp

lemma publishStores_shape {seq : ℕ} (h : st :: todo <:+ publishStores seq) :
    (st = .enqueueSeq seq ∧ todo = [.ready true, .claimed false]) ∨
      (st = .ready true ∧ todo = [.claimed false]) ∨ (st = .claimed false ∧ todo = []) := by
  simpa [publishStores, suffix_cons_iff] using h

section Submit

variable {jobId : ℕ} {pc' : SubmitPc}

lemma Inv.submitter_local (h : s.Inv c) (hmem : SameMemory s s')
    (hsubmitter : s'.submitter = update s.submitter jobId pc')
    (hworker : s'.worker = s.worker) (hmonitor : s'.monitor = s.monitor)
    (hholds : pc'.holds = (s.submitter jobId).holds) (hpast : pc'.past = (s.submitter jobId).past)
    (hok : ∀ i w, (s.submitter jobId).holds = some i →
      (s.submitter jobId).Ok jobId (c.request jobId) w → pc'.Ok jobId (c.request jobId) w) :
    s'.Inv c := by
  have hself : s'.submitter jobId = pc' := by rw [hsubmitter, update_self]
  refine h.of_local (.submitter jobId) hmem.flags (frame_submitter hsubmitter hworker hmonitor)
    ?_ rfl ?_ ?_ ?_
  · simp only [holds, hself, hholds]
  · intro i hi hold
    simp only [localOk, hself]
    exact hok i _ hi hold
  · intro j
    by_cases hj : j = jobId
    · rw [hj, hself, hpast]
    · rw [hsubmitter, update_of_ne hj]
  · rw [hmonitor]
    exact h.monitorPid

lemma Inv.submitter_put (h : s.Inv c) {i : ℕ} {st : Store}
    (hmem : SameMemory (s.put (.submitter jobId) i st) s')
    (hsubmitter : s'.submitter = update s.submitter jobId pc')
    (hworker : s'.worker = s.worker) (hmonitor : s'.monitor = s.monitor)
    (hold : (s.submitter jobId).holds = some i) (hnot : st ≠ .claimed true)
    (hready : st = .ready true → (s.submitter jobId).past = false)
    (hholds : pc'.holds = if st = .claimed false then none else some i)
    (hpast : pc'.past = true ↔ (s.submitter jobId).past = true ∨ st = .ready true)
    (hcleared : st = .claimed false → (s.slot i).workerPid = 0)
    (hok : st ≠ .claimed false →
      pc'.Ok jobId (c.request jobId) ((s.slot i).store st).workerPid) : s'.Inv c := by
  have hself : s'.submitter jobId = pc' := by rw [hsubmitter, update_self]
  have hlaw : s.Lawful (.submitter jobId) i st := by
    refine ⟨hold, hnot, fun ht => ⟨jobId, rfl, hready ht⟩, hcleared, ?_⟩
    intro _ hclaim
    cases hclaim
  refine h.of_put hlaw hmem (frame_submitter hsubmitter hworker hmonitor) ?_ (fun _ => rfl) ?_ ?_ ?_
  · simp only [holds, hself, hholds]
  · intro hst
    simp only [localOk, hself]
    exact hok hst
  · intro j
    by_cases hj : j = jobId
    · subst hj
      rw [hself, hpast]
      simp
    · have hne : ¬ (Party.submitter jobId = Party.submitter j) := by
        intro heq
        exact hj (Party.submitter.inj heq).symm
      rw [hsubmitter, update_of_ne hj]
      simp [hne]
  · rw [hmonitor]
    exact h.monitorPid

lemma submitStep_inv (h : s.Inv c) (hstep : s.submitStep c jobId = some s') : s'.Inv c := by
  -- a load while no slot is held
  have hload : ∀ pc : SubmitPc, (s.submitter jobId).holds = none → pc.holds = none →
      pc.past = (s.submitter jobId).past → (s.setSubmitter jobId pc).Inv c := by
    intro pc hnone hholds hpast
    refine h.submitter_local rfl rfl rfl rfl (hholds.trans hnone.symm) hpast ?_
    intro i w hi
    rw [hnone] at hi
    cases hi
  unfold submitStep at hstep
  cases hpc : s.submitter jobId with
  | scan i =>
    simp only [hpc] at hstep
    rw [hpc] at hload
    split_ifs at hstep <;> (cases hstep; exact hload _ rfl rfl rfl)
  | reserve i =>
    simp only [hpc] at hstep
    split_ifs at hstep with hclaimed
    · cases hstep
      rw [hpc] at hload
      exact hload _ rfl rfl rfl
    · cases hstep
      refine h.of_take (.submitter jobId) i (not_eq_true _ ▸ hclaimed) rfl
        (frame_submitter rfl rfl rfl) ?_ ?_ rfl ?_ ?_ rfl
      · simp only [holds, hpc, SubmitPc.holds]
      · simp only [holds, setSubmitter, update_self, SubmitPc.holds]
      · simp only [localOk, setSubmitter, update_self, SubmitPc.Ok]
        exact ⟨trivial, suffix_refl _⟩
      · intro j
        by_cases hj : j = jobId
        · subst hj
          simp only [setSubmitter, update_self, SubmitPc.past, hpc]
        · simp only [setSubmitter, update_of_ne hj, take]
  | fill i todo =>
    have hholds : (s.submitter jobId).holds = some i := by rw [hpc, SubmitPc.holds]
    have hknown := h.known (.submitter jobId) i hholds
    simp only [localOk, hpc, SubmitPc.Ok] at hknown
    cases todo with
    | nil =>
      simp only [hpc] at hstep
      cases hstep
      refine h.submitter_local rfl rfl rfl rfl ?_ ?_ ?_
      · rw [hholds, SubmitPc.holds]
      · rw [hpc, SubmitPc.past, SubmitPc.past]
      · intro i' w _ hw
        rw [hpc] at hw
        exact hw.1
    | cons st todo =>
      simp only [hpc] at hstep
      cases hstep
      obtain ⟨hready, hclaimed, hpid⟩ := fillStores_plain (mem_of_suffix_cons hknown.2)
      refine h.submitter_put rfl rfl rfl rfl hholds (hclaimed true) ?_ ?_ ?_ ?_ ?_
      · exact fun ht => absurd ht (hready true)
      · rw [if_neg (hclaimed false), SubmitPc.holds]
      · rw [hpc, SubmitPc.past, SubmitPc.past]
        simp [hready true]
      · exact fun hf => absurd hf (hclaimed false)
      · intro _
        refine ⟨?_, suffix_tail hknown.2⟩
        cases st with
        | workerPid v => exact hpid v rfl
        | _ => exact hknown.1
  | track i =>
    simp only [hpc] at hstep
    split_ifs at hstep
    cases hstep
    refine h.submitter_local rfl rfl rfl rfl ?_ ?_ ?_
    · rw [hpc, SubmitPc.holds, SubmitPc.holds]
    · rw [hpc, SubmitPc.past, SubmitPc.past]
    · intro i' w _ hw
      rwa [hpc] at hw
  | enqueue i =>
    have hholds : (s.submitter jobId).holds = some i := by rw [hpc, SubmitPc.holds]
    simp only [hpc] at hstep
    cases hmutex : s.enqueueMutex with
    | some _ =>
      simp only [hmutex] at hstep
      cases hstep
    | none =>
      simp only [hmutex] at hstep
      cases hstep
      refine h.submitter_local rfl rfl rfl rfl ?_ ?_ ?_
      · rw [hholds]
        simp [SubmitPc.holds, publishStores]
      · rw [hpc]
        simp [SubmitPc.past, publishStores]
      · intro i' w _ hw
        rw [hpc] at hw
        exact ⟨hw, _, suffix_refl _⟩
  | publish i todo =>
    cases todo with
    | nil =>
      simp only [hpc] at hstep
      cases hstep
      refine h.submitter_local rfl rfl rfl rfl ?_ ?_ ?_
      · rw [hpc]
        rfl
      · simp [hpc, SubmitPc.past]
      · intro i' w hi
        rw [hpc] at hi
        cases hi
    | cons st todo =>
      simp only [hpc] at hstep
      cases hstep
      have hholds : (s.submitter jobId).holds = some i := by simp [hpc, SubmitPc.holds]
      have hknown := h.known (.submitter jobId) i hholds
      simp only [localOk, hpc, SubmitPc.Ok] at hknown
      obtain ⟨hpid, seq, hsuffix⟩ := hknown
      have hshape := publishStores_shape hsuffix
      refine h.submitter_put rfl rfl rfl rfl hholds ?_ ?_ ?_ ?_ (fun _ => hpid) ?_
      · rintro rfl
        simp at hshape
      · rintro rfl
        simp [hpc, SubmitPc.past]
      · rcases hshape with ⟨rfl, rfl⟩ | ⟨rfl, rfl⟩ | ⟨rfl, rfl⟩ <;> simp [SubmitPc.holds]
      · rcases hshape with ⟨rfl, rfl⟩ | ⟨rfl, rfl⟩ | ⟨rfl, rfl⟩ <;> simp [hpc, SubmitPc.past]
      · intro _
        refine ⟨?_, seq, suffix_tail hsuffix⟩
        rcases hshape with ⟨rfl, -⟩ | ⟨rfl, -⟩ | ⟨rfl, -⟩ <;> exact hpid
  | done ok =>
    simp only [hpc] at hstep
    cases hstep

end Submit

variable {published : Option ℕ}

lemma resetStores_shape {w : ℕ} (h : ResetOk pid w published (st :: todo))
    (hheld : stillHeld (st :: todo) = true) :
    stillHeld todo = decide (st ≠ .claimed false) ∧ st ≠ .claimed true ∧ st ≠ .ready true ∧
      (st = .claimed false → w = 0 ∧ published = none) := by
  obtain ⟨hsuffix, hpid, hready⟩ := h
  simp only [resetStores, suffix_cons_iff, List.cons.injEq] at hsuffix
  rcases hsuffix with ⟨rfl, rfl⟩ | ⟨rfl, rfl⟩ | ⟨rfl, rfl⟩ | ⟨rfl, rfl⟩ | ⟨rfl, rfl⟩ | ⟨rfl, rfl⟩ |
    ⟨rfl, rfl⟩ | ⟨rfl, rfl⟩ | ⟨rfl, rfl⟩ | hnil
  all_goals simp_all [stillHeld]

lemma resetOk_start {w : ℕ} (h : w = pid) : ResetOk pid w published resetStores := by
  refine ⟨suffix_refl _, ?_, ?_⟩
  · rw [if_pos (by simp [resetStores]), h]
  · intro hno
    exact absurd (by simp [resetStores]) hno

lemma resetOk_tail {e : JobQueueEntry} (h : ResetOk pid e.workerPid published (st :: todo))
    (hready : st ≠ .ready true) :
    ResetOk pid (e.store st).workerPid (publishedAfter x published st) todo := by
  obtain ⟨hsuffix, hpid, hpublished⟩ := h
  refine ⟨suffix_tail hsuffix, ?_, ?_⟩
  · simp only [resetStores, suffix_cons_iff, List.cons.injEq] at hsuffix
    rcases hsuffix with ⟨rfl, rfl⟩ | ⟨rfl, rfl⟩ | ⟨rfl, rfl⟩ | ⟨rfl, rfl⟩ | ⟨rfl, rfl⟩ | ⟨rfl, rfl⟩ |
      ⟨rfl, rfl⟩ | ⟨rfl, rfl⟩ | ⟨rfl, rfl⟩ | hnil
    all_goals simp_all [JobQueueEntry.store]
  · intro hno
    by_cases hst : st = .ready false
    · rw [hst]
      rfl
    · rw [publishedAfter_of_ne hready hst]
      apply hpublished
      simp [hno, Ne.symm hst]

lemma eq_of_not_stillHeld (h : stillHeld (st :: todo) = false) :
    todo = [] ∧ st = .cancelled false := by
  cases st with
  | cancelled v =>
    cases todo with
    | nil =>
      cases v with
      | false => exact ⟨rfl, rfl⟩
      | true => cases h
    | cons st' todo' => simp [stillHeld] at h
  | _ => cases h

lemma sameFlags_cancelled {v : Bool} (hslot : s'.slot = (s.put x i (.cancelled v)).slot)
    (hholder : s'.holder = (s.put x i (.cancelled v)).holder)
    (hpublished : s'.published = (s.put x i (.cancelled v)).published)
    (hclaims : s'.claims = s.claims) : SameFlags s s' := by
  refine sameFlags_of_update hslot (by simp) (by simp) (by simp) hholder ?_ hclaims
  rw [hpublished]
  funext j
  by_cases hj : j = i
  · subst hj
    simp [put, publishedAfter]
  · simp [put, hj]

section Work

variable {pid : ℕ} {pc' : WorkerPc}

lemma Inv.worker_local (h : s.Inv c) (hmem : SameFlags s s')
    (hworker : s'.worker = update s.worker pid pc')
    (hsubmitter : s'.submitter = s.submitter) (hmonitor : s'.monitor = s.monitor)
    (hholds : pc'.holds = (s.worker pid).holds)
    (hclaimed : pc'.hasClaimed = (s.worker pid).hasClaimed)
    (hok : ∀ i, (s.worker pid).holds = some i →
      (s.worker pid).Ok pid (s.slot i).workerPid (s.published i) →
      pc'.Ok pid (s.slot i).workerPid (s.published i)) : s'.Inv c := by
  have hself : s'.worker pid = pc' := by rw [hworker, update_self]
  refine h.of_local (.worker pid) hmem (frame_worker hsubmitter hworker hmonitor) ?_ ?_ ?_ ?_ ?_
  · simp only [holds, hself, hholds]
  · simp only [claimant, hself, hclaimed]
  · intro i hi hold
    simp only [localOk, hself]
    exact hok i hi hold
  · intro j
    rw [hsubmitter]
  · rw [hmonitor]
    exact h.monitorPid

lemma Inv.worker_put (h : s.Inv c) {i : ℕ} {st : Store}
    (hmem : SameMemory (s.put (.worker pid) i st) s')
    (hworker : s'.worker = update s.worker pid pc')
    (hsubmitter : s'.submitter = s.submitter) (hmonitor : s'.monitor = s.monitor)
    (hold : (s.worker pid).holds = some i) (hnot : st ≠ .claimed true) (hready : st ≠ .ready true)
    (hholds : pc'.holds = if st = .claimed false then none else some i)
    (hclaimed : st ≠ .claimed false → pc'.hasClaimed = (s.worker pid).hasClaimed)
    (hcleared : st = .claimed false → (s.slot i).workerPid = 0 ∧
      ((s.worker pid).hasClaimed = true → s.published i = none))
    (hok : st ≠ .claimed false → pc'.Ok pid ((s.slot i).store st).workerPid
      (publishedAfter (.worker pid) (s.published i) st)) : s'.Inv c := by
  have hself : s'.worker pid = pc' := by rw [hworker, update_self]
  have hlaw : s.Lawful (.worker pid) i st := by
    refine ⟨hold, hnot, fun ht => absurd ht hready, fun hf => (hcleared hf).1, ?_⟩
    intro hf hclaim
    apply (hcleared hf).2
    by_contra hno
    simp [claimant, hno] at hclaim
  refine h.of_put hlaw hmem (frame_worker hsubmitter hworker hmonitor) ?_ ?_ ?_ ?_ ?_
  · simp only [holds, hself, hholds]
  · intro hst
    simp only [claimant, hself, hclaimed hst]
  · intro hst
    simp only [localOk, hself]
    exact hok hst
  · intro j
    rw [hsubmitter]
    simp
  · rw [hmonitor]
    exact h.monitorPid

/-- The second look at the slot succeeds: the worker has claimed what is published there. -/
lemma Inv.worker_claim (h : s.Inv c) {slot : ℕ}
    (hslot : s'.slot = s.slot) (hholder : s'.holder = s.holder)
    (hpublished : s'.published = s.published)
    (hclaims : s'.claims = (s.published slot).toList.map (fun jobId => (jobId, pid)) ++ s.claims)
    (hworker : s'.worker = update s.worker pid (.storePid slot))
    (hsubmitter : s'.submitter = s.submitter) (hmonitor : s'.monitor = s.monitor)
    {seq : ℕ} (hpc : s.worker pid = .checkSeq slot seq) : s'.Inv c := by
  have hself : s'.worker pid = .storePid slot := by rw [hworker, update_self]
  have hholds : s.holds (.worker pid) = some slot := by simp only [holds, hpc, WorkerPc.holds]
  have hholdi := (h.own _ _).mp hholds
  have hnotyet : s.claimant (.worker pid) = none := by simp [claimant, hpc, WorkerPc.hasClaimed]
  have hknown := h.known _ _ hholds
  simp only [localOk, hpc, WorkerPc.Ok] at hknown
  obtain ⟨hpid, hsome⟩ := hknown
  obtain ⟨j, hj⟩ := Option.isSome_iff_exists.mp hsome
  rw [hj] at hclaims
  simp only [Option.toList_some, map_cons, map_nil, singleton_append] at hclaims
  have hframe := frame_worker (c := c) hsubmitter hworker hmonitor
  have hnew : ∀ p ∈ s.claims, p.1 ≠ j := by
    rintro p hp rfl
    obtain ⟨y, hy, hclaim⟩ := h.claimsHeld p hp slot hj
    rw [hholdi] at hy
    cases hy
    rw [hnotyet] at hclaim
    cases hclaim
  have hafter : s'.holds (.worker pid) = some slot := by simp only [holds, hself, WorkerPc.holds]
  have hclaimant : s'.claimant (.worker pid) = some pid := by
    simp [claimant, hself, WorkerPc.hasClaimed]
  refine h.of_atSlot (X := (· = .worker pid)) (i := slot) ⟨hframe, ?_, ?_, fun k _ => by rw [hslot],
    fun k _ => by rw [hholder], fun k _ => by rw [hpublished]⟩
    ⟨?_, ?_, ?_, ?_, ?_, ?_, fun id hid => .inl (hpublished ▸ hid), ?_, ?_, ?_, ?_, ?_,
      hmonitor ▸ h.monitorPid⟩
  · intro y k hy
    constructor
    · rintro rfl
      rw [hholds] at hy
      exact (Option.some.inj hy).symm
    · rintro rfl
      exact h.eq_of_holds hy hholds
  · rintro y rfl k hk
    rw [hafter] at hk
    exact (Option.some.inj hk).symm
  · intro y
    rw [hholder, hholdi, Option.some.injEq]
    exact ⟨fun hy => ⟨hy.symm, hy ▸ hafter⟩, fun hy => hy.1.symm⟩
  · rw [hslot, hholder]
    exact h.claimed slot
  · rw [hslot, hholder]
    exact h.free slot
  · rw [hslot, hpublished]
    exact h.ready slot
  · rintro y rfl -
    rw [hslot, hpublished]
    simp only [localOk, hself, WorkerPc.Ok]
    exact ⟨hpid, hsome⟩
  · intro k hk
    rw [hsubmitter, hk]
  · rw [hclaims]
    exact List.subset_cons_self _ _
  · intro p hp
    rw [hclaims] at hp
    rcases mem_cons.mp hp with rfl | hp
    · exact .inr hj
    · exact .inl hp
  · rw [hclaims, map_cons, nodup_cons]
    refine ⟨?_, h.claimsNodup⟩
    intro hmem
    obtain ⟨p, hp, heq⟩ := mem_map.mp hmem
    exact hnew p hp heq
  · intro p _ _
    exact ⟨_, hholder ▸ hholdi, by rw [hclaimant]; rfl⟩
  · rintro y rfl - p hp k hk
    rw [hclaimant] at hp
    cases hp
    rw [hpublished, hj] at hk
    cases hk
    rw [hclaims]
    exact mem_cons_self

lemma Inv.worker_reset (h : s.Inv c) {slot : ℕ} {st : Store} {todo : List Store}
    (hpc : s.worker pid = .reset slot (st :: todo)) :
    ((s.put (.worker pid) slot st).setWorker pid (.reset slot todo)).Inv c := by
  by_cases hheld : stillHeld (st :: todo) = true
  · have hholds : (s.worker pid).holds = some slot := by
      rw [hpc, WorkerPc.holds, if_pos hheld]
    have hknown := h.known (.worker pid) slot hholds
    simp only [localOk, hpc, WorkerPc.Ok] at hknown
    obtain ⟨hleft, hnot, hready, hcleared⟩ := resetStores_shape hknown hheld
    refine h.worker_put rfl rfl rfl rfl hholds hnot hready ?_ ?_ ?_ ?_
    · rw [WorkerPc.holds, hleft]
      by_cases hst : st = .claimed false
      · simp [hst]
      · simp [hst]
    · intro hst
      rw [hpc, WorkerPc.hasClaimed, WorkerPc.hasClaimed, hleft, hheld]
      simp [hst]
    · intro hst
      exact ⟨(hcleared hst).1, fun _ => (hcleared hst).2⟩
    · intro _
      exact resetOk_tail hknown hready
  · -- only the flag `cancelled` is left, which the next submission may overwrite
    rw [not_eq_true] at hheld
    obtain ⟨rfl, rfl⟩ := eq_of_not_stillHeld hheld
    refine h.worker_local (sameFlags_cancelled rfl rfl rfl rfl) rfl rfl rfl ?_ ?_ ?_
    · rw [hpc]
      rfl
    · rw [hpc]
      rfl
    · intro i hi
      rw [hpc] at hi
      cases hi

lemma workStep_inv (h : s.Inv c) (hstep : s.workStep c pid = some s') : s'.Inv c := by
  unfold workStep at hstep
  by_cases halive : s.alive pid = false
  · rw [if_pos halive] at hstep
    cases hstep
  rw [if_neg halive] at hstep
  -- a load while no slot is held
  have hscan : ∀ pc : WorkerPc, pc.holds = none → pc.hasClaimed = false →
      (s.worker pid).holds = none → (s.worker pid).hasClaimed = false →
      (s.setWorker pid pc).Inv c := by
    intro pc hholds hclaimed hbefore hclaimed'
    refine h.worker_local (SameMemory.flags rfl) rfl rfl rfl ?_ ?_ ?_
    · rw [hholds, hbefore]
    · rw [hclaimed, hclaimed']
    · intro i hi
      rw [hbefore] at hi
      cases hi
  -- a load while the slot is held
  have hload : ∀ pc : WorkerPc, pc.holds = (s.worker pid).holds →
      pc.hasClaimed = (s.worker pid).hasClaimed →
      (∀ w published, (s.worker pid).Ok pid w published → pc.Ok pid w published) →
      (s.setWorker pid pc).Inv c := by
    intro pc hholds hclaimed hok
    exact h.worker_local (SameMemory.flags rfl) rfl rfl rfl hholds hclaimed
      fun i _ => hok (s.slot i).workerPid (s.published i)
  cases hpc : s.worker pid <;> simp only [hpc] at hstep <;> rw [hpc] at hscan hload
  case exited => cases hstep
  case scan i best =>
    split_ifs at hstep
    · cases best <;> (cases hstep; exact hscan _ rfl rfl rfl rfl)
    · cases hstep
      exact hscan _ rfl rfl rfl rfl
    · cases hstep
      exact hscan _ rfl rfl rfl rfl
  case scanClaimed | scanSeq =>
    split_ifs at hstep <;> (cases hstep; exact hscan _ rfl rfl rfl rfl)
  case claim slot seq =>
    split_ifs at hstep with hclaimed
    · cases hstep
      exact hscan _ rfl rfl rfl rfl
    · cases hstep
      refine h.of_take (.worker pid) slot (not_eq_true _ ▸ hclaimed) rfl
        (frame_worker rfl rfl rfl) ?_ ?_ ?_ ?_ (fun _ => rfl) rfl
      · simp only [holds, hpc, WorkerPc.holds]
      · simp only [holds, setWorker, update_self, WorkerPc.holds]
      · simp [claimant, setWorker, WorkerPc.hasClaimed]
      · simp only [localOk, setWorker, update_self, WorkerPc.Ok]
  case checkReady slot seq =>
    split_ifs at hstep with hready
    · cases hstep
      have hholds : (s.worker pid).holds = some slot := by rw [hpc, WorkerPc.holds]
      refine h.worker_local (SameMemory.flags rfl) rfl rfl rfl ?_ ?_ ?_
      · rw [hholds, WorkerPc.holds]
      · rw [hpc, WorkerPc.hasClaimed, WorkerPc.hasClaimed]
      · intro i hi hok
        rw [hpc] at hok
        rw [hholds] at hi
        cases hi
        exact ⟨hok, by rw [← h.ready, hready]⟩
    · cases hstep
      exact hload _ rfl rfl fun _ _ hok => hok
  case checkSeq slot seq =>
    split_ifs at hstep
    · cases hstep
      exact h.worker_claim rfl rfl rfl rfl rfl rfl rfl hpc
    · cases hstep
      exact hload _ rfl rfl fun _ _ hok => hok.1
  case release slot =>
    have hholds : (s.worker pid).holds = some slot := by rw [hpc, WorkerPc.holds]
    have hknown := h.known (.worker pid) slot hholds
    simp only [localOk, hpc, WorkerPc.Ok] at hknown
    cases hstep
    refine h.worker_put rfl rfl rfl rfl hholds (by simp) (by simp) ?_ ?_ ?_ ?_
    · rw [if_pos rfl, WorkerPc.holds]
    · exact fun hst => absurd rfl hst
    · intro _
      refine ⟨hknown, ?_⟩
      rw [hpc]
      intro hclaim
      cases hclaim
    · exact fun hst => absurd rfl hst
  case storePid slot | storeIndex slot =>
    have hholds : (s.worker pid).holds = some slot := by rw [hpc, WorkerPc.holds]
    have hknown := h.known (.worker pid) slot hholds
    simp only [localOk, hpc, WorkerPc.Ok] at hknown
    cases hstep
    refine h.worker_put rfl rfl rfl rfl hholds (by simp) (by simp) ?_ ?_ ?_ ?_
    · rw [if_neg (by simp), WorkerPc.holds]
    · rw [hpc]
      exact fun _ => rfl
    · exact fun hst => absurd hst (by simp)
    · first
        | exact fun _ => hknown
        | exact fun _ => ⟨rfl, hknown.2⟩
  case copyId =>
    cases hstep
    exact hload _ rfl rfl fun _ _ hok => hok
  case checkCancelled =>
    split_ifs at hstep
    · cases hstep
      exact hload _ rfl rfl fun _ _ hok => resetOk_start hok.1
    · cases hstep
      exact hload _ rfl rfl fun _ _ hok => hok
  case read slot jobId =>
    split_ifs at hstep
    · cases hstep
      exact hload _ rfl rfl fun _ _ hok => resetOk_start hok.1
    · cases hpipe : s.pipe (c.workerId pid) <;> (simp only [hpipe] at hstep; cases hstep)
      refine h.worker_local (SameMemory.flags rfl) rfl rfl rfl ?_ ?_ ?_
      · rw [hpc, WorkerPc.holds, WorkerPc.holds]
      · rw [hpc, WorkerPc.hasClaimed, WorkerPc.hasClaimed]
      · intro _ _ hok
        rw [hpc] at hok
        exact hok
  case solve =>
    cases hstep
    exact hload _ rfl rfl fun _ _ hok => resetOk_start hok.1
  case reset slot todo =>
    cases todo with
    | nil =>
      cases hstep
      exact hscan _ rfl rfl rfl rfl
    | cons st todo =>
      cases hstep
      exact h.worker_reset hpc

end Work

section Monitor

variable {pid : ℕ}

/-- Only a worker itself has its id in a slot that it holds. -/
lemma Inv.worker_of_pid (h : s.Inv c) {i : ℕ} (hmonitor : s.holds .monitor = none)
    (hpid : (s.slot i).workerPid = pid) (hpos : 0 < pid) :
    s.holder i = some (.worker pid) ∧ s.claimant (.worker pid) = some pid := by
  cases hx : s.holder i with
  | none =>
    have hzero := h.free i hx
    omega
  | some x =>
    have hholds := (h.own x i).mpr hx
    have hknown := h.known x i hholds
    cases x with
    | submitter j =>
      exfalso
      simp only [localOk] at hknown
      simp only [holds] at hholds
      cases hj : s.submitter j <;> rw [hj] at hholds hknown <;>
        simp only [SubmitPc.holds, reduceCtorEq, SubmitPc.Ok] at hholds hknown <;> omega
    | worker p =>
      simp only [localOk] at hknown
      simp only [holds] at hholds
      have hp : p = pid ∧ (s.worker p).hasClaimed = true := by
        cases hpc' : s.worker p <;> rw [hpc'] at hholds hknown <;>
          simp only [WorkerPc.holds, reduceCtorEq, WorkerPc.Ok] at hholds hknown <;>
          simp only [WorkerPc.hasClaimed, and_true] <;> try omega
        case reset slot todo =>
          obtain ⟨-, hw, -⟩ := hknown
          split_ifs at hw hholds <;> first | omega | (refine ⟨by omega, ?_⟩; assumption)
      obtain ⟨rfl, hc⟩ := hp
      exact ⟨rfl, by simp [claimant, hc]⟩
    | monitor =>
      rw [hmonitor] at hholds
      cases hholds

lemma Inv.takeover (h : s.Inv c) {i : ℕ} (hpc : s.monitor = .loadPid pid i)
    (hpid : (s.slot i).workerPid = pid) (hslot : s'.slot = s.slot)
    (hholder : s'.holder = update s.holder i (some .monitor))
    (hpublished : s'.published = s.published) (hclaims : s'.claims = s.claims)
    (hsubmitter : s'.submitter = s.submitter)
    (hworker : s'.worker = update s.worker pid .exited)
    (hmonitor : s'.monitor = .reset pid i resetStores) : s'.Inv c := by
  have hpos : 0 < pid := h.monitorPid pid (by rw [hpc]; rfl)
  have hnever : s.holds .monitor = none := by simp only [holds, hpc, MonitorPc.holds]
  obtain ⟨hheld, hclaimant⟩ := h.worker_of_pid hnever hpid hpos
  have hownpid : s.holds (.worker pid) = some i := (h.own _ _).mpr hheld
  have hholdi : s'.holder i = some .monitor := by rw [hholder, update_self]
  have hmonitorHolds : s'.holds .monitor = some i := by
    simp only [holds, hmonitor]
    rfl
  have hmonitorClaimant : s'.claimant .monitor = some pid := by
    simp only [claimant, hmonitor]
    rfl
  have hexited : s'.holds (.worker pid) = none := by
    simp only [holds, hworker, update_self, WorkerPc.holds]
  refine h.of_atSlot (X := fun y => y = .monitor ∨ y = .worker pid) (i := i)
    ⟨?_, ?_, ?_, fun j _ => by rw [hslot], fun j hj => by rw [hholder, update_of_ne hj],
      fun j _ => by rw [hpublished]⟩
    ⟨?_, ?_, ?_, ?_, ?_, ?_, fun j hj => .inl (hpublished ▸ hj), hclaims ▸ List.Subset.refl _,
      fun p hp => .inl (hclaims ▸ hp), hclaims ▸ h.claimsNodup, ?_, ?_, ?_⟩
  · intro y hy
    refine frame_of_same (fun j _ => congrFun hsubmitter j) ?_ fun heq => absurd (.inl heq) hy
    rintro p rfl
    rw [hworker, update_of_ne fun heq => hy (.inr (congrArg Party.worker heq))]
  · intro y j hy
    constructor
    · rintro (rfl | rfl)
      · rw [hnever] at hy
        cases hy
      · rw [hownpid] at hy
        exact (Option.some.inj hy).symm
    · rintro rfl
      exact .inr (h.eq_of_holds hy hownpid)
  · rintro y (rfl | rfl) j hj
    · rw [hmonitorHolds] at hj
      exact (Option.some.inj hj).symm
    · rw [hexited] at hj
      cases hj
  · intro y
    rw [hholdi, Option.some.injEq]
    constructor
    · rintro rfl
      exact ⟨.inl rfl, hmonitorHolds⟩
    · rintro ⟨rfl | rfl, hy⟩
      · rfl
      · rw [hexited] at hy
        cases hy
  · rw [hslot, hholdi, h.claimed, hheld]
    rfl
  · intro hnone
    rw [hholdi] at hnone
    cases hnone
  · rw [hslot, hpublished]
    exact h.ready i
  · rintro y (rfl | rfl) hy
    · rw [hslot, hpublished]
      simp only [localOk, hmonitor, MonitorPc.Ok]
      exact resetOk_start hpid
    · rw [hexited] at hy
      cases hy
  · intro j hj
    rw [hsubmitter, hj]
  · intro p _ _
    exact ⟨_, hholdi, by rw [hmonitorClaimant]; rfl⟩
  · rintro y (rfl | rfl) hy p hp id hid
    · rw [hmonitorClaimant] at hp
      cases hp
      rw [hclaims]
      exact h.claimedBy _ _ hownpid _ hclaimant id (hpublished ▸ hid)
    · rw [hexited] at hy
      cases hy
  · intro p hp
    rw [hmonitor] at hp
    cases hp
    exact hpos

lemma Inv.monitor_reset (h : s.Inv c) {i : ℕ} {st : Store} {todo : List Store}
    (hpc : s.monitor = .reset pid i (st :: todo)) :
    ({ s.put .monitor i st with monitor := .reset pid i todo } : Server).Inv c := by
  have hpos : 0 < pid := h.monitorPid pid (by rw [hpc]; rfl)
  have hpos' : ∀ p, (MonitorPc.reset pid i todo).pid = some p → 0 < p := by
    intro p hp
    cases hp
    exact hpos
  by_cases hheld : stillHeld (st :: todo) = true
  · have hholds : s.holds .monitor = some i := by
      simp only [holds, hpc, MonitorPc.holds, if_pos hheld]
    have hknown := h.known .monitor i hholds
    simp only [localOk, hpc, MonitorPc.Ok] at hknown
    obtain ⟨hleft, hnot, hready, hcleared⟩ := resetStores_shape hknown hheld
    have hlaw : s.Lawful .monitor i st :=
      ⟨hholds, hnot, fun ht => absurd ht hready, fun hf => (hcleared hf).1,
        fun hf _ => (hcleared hf).2⟩
    refine h.of_put hlaw rfl (frame_monitor rfl rfl) ?_ ?_ ?_ ?_ hpos'
    · simp only [holds, MonitorPc.holds, hleft]
      by_cases hst : st = .claimed false
      · simp [hst]
      · simp [hst]
    · intro hst
      simp only [claimant, hpc, hleft, hheld]
      simp [hst]
    · intro _
      simp only [localOk, MonitorPc.Ok]
      exact resetOk_tail hknown hready
    · intro j
      simp [put]
  · rw [not_eq_true] at hheld
    obtain ⟨rfl, rfl⟩ := eq_of_not_stillHeld hheld
    have hbefore : s.holds .monitor = none := by
      simp only [holds, hpc, MonitorPc.holds]
      rfl
    refine h.of_local .monitor (sameFlags_cancelled rfl rfl rfl rfl) (frame_monitor rfl rfl) ?_ ?_ ?_
      (fun _ => rfl) hpos'
    · rw [hbefore]
      rfl
    · simp only [claimant, hpc]
      rfl
    · intro j hj
      rw [hbefore] at hj
      cases hj

lemma Inv.monitor_local (h : s.Inv c) {pc' : MonitorPc} (hmem : SameMemory s s')
    (hsubmitter : s'.submitter = s.submitter) (hworker : s'.worker = s.worker)
    (hmonitor : s'.monitor = pc') (hbefore : s.monitor.holds = none) (hafter : pc'.holds = none)
    (hclaimant : s'.claimant .monitor = s.claimant .monitor)
    (hpos : ∀ p, pc'.pid = some p → 0 < p) : s'.Inv c := by
  refine h.of_local .monitor hmem.flags (frame_monitor hsubmitter hworker) ?_ hclaimant ?_ ?_ ?_
  · simp only [holds, hmonitor, hbefore, hafter]
  · intro i hi
    simp only [holds, hbefore] at hi
    cases hi
  · intro j
    rw [hsubmitter]
  · rw [hmonitor]
    exact hpos

lemma monitorStep_inv (h : s.Inv c) (hstep : s.monitorStep c = some s') : s'.Inv c := by
  unfold monitorStep at hstep
  have hpos := h.monitorPid
  have hload : ∀ pc : MonitorPc, s.monitor.holds = none → s.claimant .monitor = none →
      pc.holds = none → ({ s with monitor := pc } : Server).claimant .monitor = none →
      (∀ p, pc.pid = some p → 0 < p) → ({ s with monitor := pc } : Server).Inv c := by
    intro pc hbefore hnone hafter hnone' hpos
    exact h.monitor_local rfl rfl rfl rfl hbefore hafter (hnone'.trans hnone.symm) hpos
  cases hpc : s.monitor <;> simp only [hpc] at hstep <;> rw [hpc] at hpos hload
  case idle => cases hstep
  case loadReady =>
    have hclaimant : s.claimant .monitor = none := by simp only [claimant, hpc]
    split_ifs at hstep
    · cases hstep
      refine h.monitor_local rfl rfl rfl rfl ?_ rfl hclaimant.symm ?_
      · rw [hpc, MonitorPc.holds]
      · intro p hp
        cases hp
    · cases hstep
      exact hload _ rfl hclaimant rfl rfl hpos
    · cases hstep
      exact hload _ rfl hclaimant rfl rfl hpos
  case loadClaimed =>
    have hclaimant : s.claimant .monitor = none := by simp only [claimant, hpc]
    split_ifs at hstep <;> (cases hstep; exact hload _ rfl hclaimant rfl rfl hpos)
  case loadPid =>
    split_ifs at hstep with hpid
    · cases hstep
      exact h.takeover hpc hpid rfl rfl rfl rfl rfl rfl rfl
    · cases hstep
      exact h.takeover hpc hpid rfl rfl rfl rfl rfl rfl rfl
    · cases hstep
      exact hload _ rfl (by simp only [claimant, hpc]) rfl rfl hpos
  case reset todo =>
    cases todo with
    | nil =>
      split_ifs at hstep
      cases hstep
      exact hload _ rfl (by simp only [claimant, hpc]; rfl) rfl rfl hpos
    | cons st todo =>
      cases hstep
      exact h.monitor_reset hpc

lemma startRecovery_inv (h : s.Inv c) (hstep : s.startRecovery c pid = some s') : s'.Inv c := by
  unfold startRecovery at hstep
  split_ifs at hstep with hguard
  obtain ⟨hidle, -, -, hpos, -⟩ := hguard
  cases hstep
  refine h.monitor_local rfl rfl rfl rfl ?_ rfl ?_ ?_
  · rw [hidle]
    rfl
  · simp only [claimant, hidle]
  · intro p hp
    cases hp
    exact hpos

end Monitor

lemma Inv.of_flags (h : s.Inv c) (hmem : SameFlags s s') (hsubmitter : s'.submitter = s.submitter)
    (hworker : s'.worker = s.worker) (hmonitor : s'.monitor = s.monitor) : s'.Inv c := by
  refine h.of_local .monitor hmem (frame_monitor hsubmitter hworker) ?_ ?_ ?_ ?_ ?_
  · simp only [holds, hmonitor]
  · simp only [claimant, hmonitor]
  · intro i _ hok
    simpa only [localOk, hmonitor] using hok
  · intro j
    rw [hsubmitter]
  · rw [hmonitor]
    exact h.monitorPid

lemma spawn_inv (h : s.Inv c) (hstep : s.spawn c pid = some s') : s'.Inv c := by
  obtain ⟨⟨hexited, -⟩, rfl⟩ := spawn_cases hstep
  refine h.worker_local (SameMemory.flags rfl) rfl rfl rfl ?_ ?_ ?_
  · rw [hexited]
    rfl
  · rw [hexited]
    rfl
  · intro i hi
    rw [hexited] at hi
    cases hi

lemma step_inv (h : s.Inv c) {a : Action} (hstep : s.step c a = some s') : s'.Inv c := by
  cases a with
  | submit jobId => exact submitStep_inv h hstep
  | work pid => exact workStep_inv h hstep
  | monitor => exact monitorStep_inv h hstep
  | startRecovery pid => exact startRecovery_inv h hstep
  | cancel =>
    have hframe := cancelStep_frame hstep
    exact h.of_flags hframe.flags hframe.submitter hframe.worker hframe.monitor
  | dispatch status =>
    have hframe := dispatchStep_frame hstep
    exact h.of_flags hframe.flags hframe.submitter hframe.worker hframe.monitor
  | startCancel jobId =>
    have hframe := startCancel_frame hstep
    exact h.of_flags hframe.flags hframe.submitter hframe.worker hframe.monitor
  | erasePending jobId | crash pid =>
    cases hstep
    exact h.of_flags (SameMemory.flags rfl) rfl rfl rfl
  | spawn pid => exact spawn_inv h hstep

lemma Inv.fill_mem (h : s.Inv c) (hpc : s.submitter jobId = .fill i (st :: todo)) :
    st ∈ fillStores jobId (c.request jobId) := by
  have hknown := h.known (.submitter jobId) i (by simp only [holds, hpc, SubmitPc.holds])
  simp only [localOk, hpc, SubmitPc.Ok] at hknown
  exact mem_of_suffix_cons hknown.2

lemma Inv.publish_shape (h : s.Inv c) (hpc : s.submitter jobId = .publish i (st :: todo)) :
    ∃ seq, (st = .enqueueSeq seq ∧ todo = [.ready true, .claimed false]) ∨
      (st = .ready true ∧ todo = [.claimed false]) ∨ (st = .claimed false ∧ todo = []) := by
  have hknown := h.known (.submitter jobId) i (by simp [holds, hpc, SubmitPc.holds])
  simp only [localOk, hpc, SubmitPc.Ok] at hknown
  obtain ⟨-, seq, hsuffix⟩ := hknown
  exact ⟨seq, publishStores_shape hsuffix⟩

lemma Inv.reset_ok (h : s.Inv c) (hpc : s.worker pid = .reset i (st :: todo))
    (hstill : stillHeld (st :: todo) = true) :
    ResetOk pid (s.slot i).workerPid (s.published i) (st :: todo) := by
  have hknown := h.known (.worker pid) i (by simp only [holds, hpc, WorkerPc.holds, if_pos hstill])
  simpa only [localOk, hpc, WorkerPc.Ok] using hknown

lemma Inv.recover_ok (h : s.Inv c) (hpc : s.monitor = .reset pid i (st :: todo))
    (hstill : stillHeld (st :: todo) = true) :
    ResetOk pid (s.slot i).workerPid (s.published i) (st :: todo) := by
  have hknown := h.known .monitor i (by simp only [holds, hpc, MonitorPc.holds, if_pos hstill])
  simpa only [localOk, hpc, MonitorPc.Ok] using hknown

/-- The last store of a reset comes when the slot is given up. -/
lemma mem_resetStores {w : ℕ} {published : Option ℕ}
    (h : stillHeld (st :: todo) = true → ResetOk pid w published (st :: todo)) :
    st ∈ resetStores := by
  by_cases hstill : stillHeld (st :: todo) = true
  · exact mem_of_suffix_cons (h hstill).1
  · rw [not_eq_true] at hstill
    obtain ⟨-, rfl⟩ := eq_of_not_stillHeld hstill
    simp [resetStores]

lemma run_inv {as : List Action} (hrun : initial.run c as = some s) : s.Inv c :=
  invariant_of_run (fun _ _ _ h hstep => step_inv h hstep) initial_inv hrun

end Server

end CuOpt.Grpc
