import CuOpt.Grpc.JobSlots

/-! What one step can do to a slot and to the rest of the server. -/

namespace CuOpt.Grpc

open Function

namespace Server

inductive Touch (c : ServerConfig) (s : Server) (i : ℕ) : Action → Store → Prop
  | reserve {jobId : ℕ} (h : s.submitter jobId = .reserve i) (hfree : (s.slot i).claimed = false) :
    Touch c s i (.submit jobId) (.claimed true)
  | fill {jobId : ℕ} {st : Store} {todo : List Store}
    (h : s.submitter jobId = .fill i (st :: todo)) : Touch c s i (.submit jobId) st
  | publish {jobId : ℕ} {st : Store} {todo : List Store}
    (h : s.submitter jobId = .publish i (st :: todo)) : Touch c s i (.submit jobId) st
  | claim {pid seq : ℕ} (h : s.worker pid = .claim i seq) (hfree : (s.slot i).claimed = false) :
    Touch c s i (.work pid) (.claimed true)
  | release {pid : ℕ} (h : s.worker pid = .release i) : Touch c s i (.work pid) (.claimed false)
  | storePid {pid : ℕ} (h : s.worker pid = .storePid i) : Touch c s i (.work pid) (.workerPid pid)
  | storeIndex {pid : ℕ} (h : s.worker pid = .storeIndex i) :
    Touch c s i (.work pid) (.workerIndex (c.workerId pid))
  | reset {pid : ℕ} {st : Store} {todo : List Store} (h : s.worker pid = .reset i (st :: todo)) :
    Touch c s i (.work pid) st
  | recover {pid : ℕ} {st : Store} {todo : List Store} (h : s.monitor = .reset pid i (st :: todo)) :
    Touch c s i .monitor st
  | cancel {jobId pid : ℕ} (h : s.canceller = .setCancelled jobId i pid) :
    Touch c s i .cancel (.cancelled true)
  | sent {jobId : ℕ} {status : PipeWriteStatus} (h : s.dispatcher = .mark i jobId true) :
    Touch c s i (.dispatch status) (.dataSent true)
  | failed {jobId : ℕ} {status : PipeWriteStatus} (h : s.dispatcher = .mark i jobId false) :
    Touch c s i (.dispatch status) (.cancelled true)

def actor : Action → Party
  | .submit jobId => .submitter jobId
  | .work pid => .worker pid
  | _ => .monitor

/-- The slot and what is published in it are the same, or the step stores to the slot. -/
def SlotStep (c : ServerConfig) (s s' : Server) (a : Action) (i : ℕ) : Prop :=
  (s'.slot i = s.slot i ∧ s'.published i = s.published i) ∨
    ∃ st, Touch c s i a st ∧ s'.slot i = (s.slot i).store st ∧
      s'.published i = publishedAfter (actor a) (s.published i) st

variable {c : ServerConfig} {s s' : Server} {a : Action} {i : ℕ}

lemma publishedAfter_of_ne {x : Party} {st : Store} {old : Option ℕ} (ht : st ≠ .ready true)
    (hf : st ≠ .ready false) : publishedAfter x old st = old := by
  cases st with
  | ready v =>
    cases v with
    | true => exact absurd rfl ht
    | false => exact absurd rfl hf
  | _ => rfl

structure SameFlags (s s' : Server) : Prop where
  claimed : ∀ i, (s'.slot i).claimed = (s.slot i).claimed
  ready : ∀ i, (s'.slot i).ready = (s.slot i).ready
  workerPid : ∀ i, (s'.slot i).workerPid = (s.slot i).workerPid
  holder : s'.holder = s.holder
  published : s'.published = s.published
  claims : s'.claims = s.claims

def SameMemory (s s' : Server) : Prop :=
  (s'.slot, s'.holder, s'.published, s'.claims) = (s.slot, s.holder, s.published, s.claims)

lemma SameMemory.slot (h : SameMemory s s') : s'.slot = s.slot := congrArg (·.1) h

lemma SameMemory.holder (h : SameMemory s s') : s'.holder = s.holder := congrArg (·.2.1) h

lemma SameMemory.published (h : SameMemory s s') : s'.published = s.published :=
  congrArg (·.2.2.1) h

lemma SameMemory.claims (h : SameMemory s s') : s'.claims = s.claims := congrArg (·.2.2.2) h

lemma SameMemory.flags (h : SameMemory s s') : SameFlags s s' := by
  refine ⟨?_, ?_, ?_, h.holder, h.published, h.claims⟩
  · intro i
    rw [h.slot]
  · intro i
    rw [h.slot]
  · intro i
    rw [h.slot]

lemma update_slot_eq {α : Type} {f : JobQueueEntry → α} {e : JobQueueEntry} (j : ℕ)
    (h : f e = f (s.slot i)) : f (update s.slot i e j) = f (s.slot j) := by
  by_cases hj : j = i
  · subst hj
    rw [update_self, h]
  · rw [update_of_ne hj]

/-- A store that is to none of `claimed`, `ready` and `worker_pid`. -/
lemma sameFlags_of_update {st : Store} (hslot : s'.slot = update s.slot i ((s.slot i).store st))
    (hclaimed : ∀ v, st ≠ .claimed v) (hready : ∀ v, st ≠ .ready v) (hpid : ∀ v, st ≠ .workerPid v)
    (hholder : s'.holder = s.holder) (hpublished : s'.published = s.published)
    (hclaims : s'.claims = s.claims) : SameFlags s s' := by
  refine ⟨?_, ?_, ?_, hholder, hpublished, hclaims⟩
  · intro j
    rw [hslot]
    refine update_slot_eq j ?_
    cases st with
    | claimed v => exact absurd rfl (hclaimed v)
    | _ => rfl
  · intro j
    rw [hslot]
    refine update_slot_eq j ?_
    cases st with
    | ready v => exact absurd rfl (hready v)
    | _ => rfl
  · intro j
    rw [hslot]
    refine update_slot_eq j ?_
    cases st with
    | workerPid v => exact absurd rfl (hpid v)
    | _ => rfl

lemma slotStep_of_same (hslot : s'.slot = s.slot)
    (hpublished : s'.published = s.published) : SlotStep c s s' a i := by
  apply Or.inl
  rw [hslot, hpublished]
  exact ⟨rfl, rfl⟩

lemma slotStep_of_put {k : ℕ} {st : Store} (htouch : Touch c s k a st)
    (hslot : s'.slot = (s.put (actor a) k st).slot := by rfl)
    (hpublished : s'.published = (s.put (actor a) k st).published := by rfl) : SlotStep c s s' a i := by
  by_cases hi : i = k
  · subst hi
    refine .inr ⟨st, htouch, ?_, ?_⟩
    · rw [hslot]
      simp only [put, update_self]
    · rw [hpublished]
      simp only [put, update_self]
  · apply Or.inl
    rw [hslot, hpublished]
    simp only [put, update_of_ne hi, and_self]

lemma slotStep_of_flag {k : ℕ} {st : Store} (htouch : Touch c s k a st)
    (hready : ∀ v, st ≠ .ready v) (hslot : s'.slot = update s.slot k ((s.slot k).store st) := by rfl)
    (hpublished : s'.published = s.published := by rfl) : SlotStep c s s' a i := by
  refine slotStep_of_put htouch hslot ?_
  rw [hpublished]
  funext k'
  by_cases hk : k' = k
  · subst hk
    simp only [put, update_self]
    rw [publishedAfter_of_ne (hready true) (hready false)]
  · simp only [put, update_of_ne hk]

inductive Moves (c : ServerConfig) (s : Server) (pid : ℕ) : WorkerPc → Prop
  | copy {i : ℕ} (hpc : s.worker pid = .copyId i) :
      Moves c s pid (.checkCancelled i (s.slot i).jobId)
  | proceed {i id : ℕ} (hpc : s.worker pid = .checkCancelled i id) : Moves c s pid (.read i id)
  | read {i id data : ℕ} (hpc : s.worker pid = .read i id) : Moves c s pid (.solve i id data)
  | cancelled {i id : ℕ} (hpc : s.worker pid = .checkCancelled i id)
      (hflag : (s.slot i).cancelled = true) : Moves c s pid (.reset i resetStores)
  | refused {i id : ℕ} (hpc : s.worker pid = .read i id) : Moves c s pid (.reset i resetStores)
  | solved {i id data : ℕ} (hpc : s.worker pid = .solve i id data) :
      Moves c s pid (.reset i resetStores)
  | store {i : ℕ} {st : Store} {todo : List Store} (hpc : s.worker pid = .reset i (st :: todo)) :
      Moves c s pid (.reset i todo)
  | before {pc : WorkerPc} (h : (∀ i id, pc ≠ .checkCancelled i id ∧ pc ≠ .read i id) ∧
      (∀ i id data, pc ≠ .solve i id data) ∧ ∀ i todo, pc ≠ .reset i todo) : Moves c s pid pc

inductive Reads (c : ServerConfig) (s : Server) (pid : ℕ) : Server → Prop
  | same {s' : Server} (hpipe : s'.pipe = s.pipe)
      (hsolve : ∀ i id data, s'.worker pid ≠ .solve i id data) : Reads c s pid s'
  | read {i id data : ℕ} {rest : List ℕ} (hpc : s.worker pid = .read i id)
      (hpipe : s.pipe (c.workerId pid) = data :: rest) :
      Reads c s pid { s.setWorker pid (.solve i id data) with
        pipe := update s.pipe (c.workerId pid) rest }

inductive Sends (s : Server) : Server → Prop
  | same {s' : Server} (hpipe : s'.pipe = s.pipe) (hpending : s'.pending = s.pending)
      (hsend : ∀ i j index, s'.dispatcher ≠ .send i j index) : Sends s s'
  | take {i j index : ℕ} (hj : s.pending j = true) :
      Sends s { s with
        pending := update s.pending j false
        dispatcher := .send i j index }
  | send {i j index : ℕ} (hpc : s.dispatcher = .send i j index) :
      Sends s { s with
        pipe := update s.pipe index (s.pipe index ++ [j])
        dispatcher := .mark i j true }

structure SubmitFrame (c : ServerConfig) (s s' : Server) (jobId : ℕ) : Prop where
  slot : ∀ i, SlotStep c s s' (.submit jobId) i := by exact fun _ => slotStep_of_same rfl rfl
  others : ∀ j, j ≠ jobId → s'.submitter j = s.submitter j := by exact fun _ hj => update_of_ne hj ..
  pending : ∀ j, s'.pending j = true →
    s.pending j = true ∨ j = jobId ∧ ∃ k, s.submitter j = .fill k [] := by exact fun _ => .inl
  worker : s'.worker = s.worker := by rfl
  forked : s'.forked = s.forked := by rfl
  alive : s'.alive = s.alive := by rfl
  recovered : s'.recovered = s.recovered := by rfl
  current : s'.current = s.current := by rfl
  monitor : s'.monitor = s.monitor := by rfl
  canceller : s'.canceller = s.canceller := by rfl
  dispatcher : s'.dispatcher = s.dispatcher := by rfl
  pipe : s'.pipe = s.pipe := by rfl
  flagged : s'.flagged = s.flagged := by rfl

structure WorkFrame (c : ServerConfig) (s s' : Server) (pid : ℕ) : Prop where
  alive : s.alive pid = true
  moves : Moves c s pid (s'.worker pid)
  reads : Reads c s pid s' := by exact .same rfl (by simp [setWorker])
  slot : ∀ i, SlotStep c s s' (.work pid) i := by exact fun _ => slotStep_of_same rfl rfl
  others : ∀ q, q ≠ pid → s'.worker q = s.worker q := by exact fun _ hq => update_of_ne hq ..
  submitter : s'.submitter = s.submitter := by rfl
  forked : s'.forked = s.forked := by rfl
  stillAlive : s'.alive = s.alive := by rfl
  recovered : s'.recovered = s.recovered := by rfl
  current : s'.current = s.current := by rfl
  monitor : s'.monitor = s.monitor := by rfl
  canceller : s'.canceller = s.canceller := by rfl
  dispatcher : s'.dispatcher = s.dispatcher := by rfl
  pending : s'.pending = s.pending := by rfl
  flagged : s'.flagged = s.flagged := by rfl

structure MonitorFrame (c : ServerConfig) (s s' : Server) (a : Action) : Prop where
  slot : ∀ i, SlotStep c s s' a i
  worker : ∀ pid, s'.worker pid = s.worker pid ∨ s'.worker pid = .exited
  pending : ∀ j, s'.pending j = true → s.pending j = true
  submitter : s'.submitter = s.submitter
  forked : s'.forked = s.forked
  alive : s'.alive = s.alive
  current : s'.current = s.current
  canceller : s'.canceller = s.canceller
  dispatcher : s'.dispatcher = s.dispatcher
  pipe : s'.pipe = s.pipe
  flagged : s'.flagged = s.flagged

structure CancelFrame (c : ServerConfig) (s s' : Server) (a : Action) : Prop where
  slot : ∀ i, SlotStep c s s' a i
  submitter : s'.submitter = s.submitter
  worker : s'.worker = s.worker
  forked : s'.forked = s.forked
  recovered : s'.recovered = s.recovered
  current : s'.current = s.current
  monitor : s'.monitor = s.monitor
  dispatcher : s'.dispatcher = s.dispatcher
  pending : s'.pending = s.pending
  pipe : s'.pipe = s.pipe
  dead : ∀ pid, s.alive pid = false → s'.alive pid = false
  flags : SameFlags s s'
  flagged : ∀ i, s'.flagged i = s.flagged i ∨
    ∃ j pid, s'.flagged i = some j ∧ s.canceller = .setCancelled j i pid

structure DispatchFrame (c : ServerConfig) (s s' : Server) (a : Action) : Prop where
  slot : ∀ i, SlotStep c s s' a i := by exact fun _ => slotStep_of_same rfl rfl
  submitter : s'.submitter = s.submitter := by rfl
  worker : s'.worker = s.worker := by rfl
  forked : s'.forked = s.forked := by rfl
  recovered : s'.recovered = s.recovered := by rfl
  current : s'.current = s.current := by rfl
  monitor : s'.monitor = s.monitor := by rfl
  canceller : s'.canceller = s.canceller := by rfl
  dead : ∀ pid, s.alive pid = false → s'.alive pid = false := by exact fun _ => id
  flags : SameFlags s s' := by exact SameMemory.flags rfl
  sends : Sends s s' := by exact .same rfl rfl (by simp)
  flagged : ∀ i, s'.flagged i = s.flagged i ∨
    ∃ j, s'.flagged i = some j ∧ s.dispatcher = .mark i j false := by exact fun _ => .inl rfl

lemma dead_update {pid q : ℕ} (h : s.alive q = false) :
    update s.alive pid false q = false := by
  by_cases hq : q = pid
  · rw [hq, update_self]
  · rw [update_of_ne hq, h]

lemma submitStep_frame {jobId : ℕ} (hstep : s.submitStep c jobId = some s') :
    SubmitFrame c s s' jobId := by
  unfold submitStep at hstep
  cases hpc : s.submitter jobId <;> simp only [hpc] at hstep
  case reserve =>
    split_ifs at hstep with hclaimed
    · cases hstep
      exact {}
    · cases hstep
      rw [Bool.not_eq_true] at hclaimed
      exact { slot := fun _ => slotStep_of_flag (.reserve hpc hclaimed) (by simp) }
  case fill k todo =>
    cases todo with
    | nil =>
      cases hstep
      refine { pending := fun j hj => ?_ }
      by_cases heq : j = jobId
      · exact .inr ⟨heq, k, heq ▸ hpc⟩
      · exact .inl (by simpa only [update_of_ne heq] using hj)
    | cons st todo =>
      cases hstep
      exact { slot := fun _ => slotStep_of_put (.fill hpc) }
  case enqueue =>
    cases hmutex : s.enqueueMutex <;> (simp only [hmutex] at hstep; cases hstep)
    exact {}
  case publish todo =>
    cases todo with
    | nil =>
      cases hstep
      exact {}
    | cons st todo =>
      cases hstep
      exact { slot := fun _ => slotStep_of_put (.publish hpc) }
  case done => cases hstep
  all_goals split_ifs at hstep <;> (cases hstep; exact {})

lemma setWorker_worker (s : Server) (pid : ℕ) (pc : WorkerPc) :
    (s.setWorker pid pc).worker pid = pc := update_self _ _ _

lemma workStep_frame {pid : ℕ} (hstep : s.workStep c pid = some s') : WorkFrame c s s' pid := by
  have hset : ∀ {s₀ : Server} {pc}, Moves c s pid pc →
      Moves c s pid ((s₀.setWorker pid pc).worker pid) := by
    intro s₀ pc hpc
    rwa [setWorker_worker]
  unfold workStep at hstep
  split_ifs at hstep with halive
  rw [Bool.not_eq_false] at halive
  cases hpc : s.worker pid <;> simp only [hpc] at hstep
  case exited => cases hstep
  case scan best =>
    split_ifs at hstep
    on_goal 1 => cases best
    all_goals
      cases hstep
      exact { alive := halive, moves := hset (.before (by simp)) }
  case claim =>
    split_ifs at hstep with hclaimed
    · cases hstep
      exact { alive := halive, moves := hset (.before (by simp)) }
    · cases hstep
      rw [Bool.not_eq_true] at hclaimed
      exact {
        alive := halive
        moves := hset (.before (by simp))
        slot := fun _ => slotStep_of_flag (.claim hpc hclaimed) (by simp) }
  case release =>
    cases hstep
    exact {
      alive := halive
      moves := hset (.before (by simp))
      slot := fun _ => slotStep_of_put (.release hpc) }
  case storePid =>
    cases hstep
    exact {
      alive := halive
      moves := hset (.before (by simp))
      slot := fun _ => slotStep_of_put (.storePid hpc) }
  case storeIndex =>
    cases hstep
    exact {
      alive := halive
      moves := hset (.before (by simp))
      slot := fun _ => slotStep_of_put (.storeIndex hpc) }
  case copyId =>
    cases hstep
    exact { alive := halive, moves := hset (.copy hpc) }
  case checkCancelled =>
    split_ifs at hstep with hflag
    · cases hstep
      exact { alive := halive, moves := hset (.cancelled hpc hflag) }
    · cases hstep
      exact { alive := halive, moves := hset (.proceed hpc) }
  case read =>
    split_ifs at hstep
    · cases hstep
      exact { alive := halive, moves := hset (.refused hpc) }
    · cases hpipe : s.pipe (c.workerId pid) <;> (simp only [hpipe] at hstep; cases hstep)
      exact { alive := halive, moves := hset (.read hpc), reads := .read hpc hpipe }
  case solve =>
    cases hstep
    exact { alive := halive, moves := hset (.solved hpc) }
  case reset todo =>
    cases todo with
    | nil =>
      cases hstep
      exact { alive := halive, moves := hset (.before (by simp)) }
    | cons st todo =>
      cases hstep
      exact {
        alive := halive
        moves := hset (.store hpc)
        slot := fun _ => slotStep_of_put (.reset hpc) }
  all_goals
    split_ifs at hstep <;>
      (cases hstep; exact { alive := halive, moves := hset (.before (by simp)) })

lemma monitorFrame_still {pc : MonitorPc} {recovered : ℕ → Bool} :
    MonitorFrame c s { s with monitor := pc, recovered := recovered } a :=
  ⟨fun _ => slotStep_of_same rfl rfl, fun _ => .inl rfl, fun _ => id, rfl, rfl, rfl, rfl, rfl, rfl,
    rfl, rfl⟩

lemma monitorStep_frame (hstep : s.monitorStep c = some s') : MonitorFrame c s s' .monitor := by
  unfold monitorStep at hstep
  cases hpc : s.monitor <;> simp only [hpc] at hstep
  case idle => cases hstep
  case loadPid pid k =>
    have hexited : ∀ q, update s.worker pid .exited q = s.worker q ∨
        update s.worker pid .exited q = .exited := by
      intro q
      by_cases hq : q = pid
      · exact .inr (hq ▸ update_self ..)
      · exact .inl (update_of_ne hq ..)
    have hsame : ∀ i, SlotStep c s s' .monitor i := by
      intro i
      split_ifs at hstep <;> (cases hstep; exact slotStep_of_same rfl rfl)
    split_ifs at hstep
    · cases hstep
      exact ⟨hsame, hexited, fun _ => id, rfl, rfl, rfl, rfl, rfl, rfl, rfl, rfl⟩
    · cases hstep
      refine ⟨hsame, hexited, fun j hj => ?_, rfl, rfl, rfl, rfl, rfl, rfl, rfl, rfl⟩
      by_cases heq : j = (s.slot k).jobId
      · simp [heq] at hj
      · simpa [update_of_ne heq] using hj
    · cases hstep
      exact monitorFrame_still
  case reset todo =>
    cases todo with
    | nil =>
      split_ifs at hstep
      cases hstep
      exact monitorFrame_still
    | cons st todo =>
      cases hstep
      exact ⟨fun _ => slotStep_of_put (.recover hpc) rfl rfl, fun _ => .inl rfl, fun _ => id, rfl,
        rfl, rfl, rfl, rfl, rfl, rfl, rfl⟩
  all_goals split_ifs at hstep <;> (cases hstep; exact monitorFrame_still)

lemma startRecovery_frame {pid : ℕ} (hstep : s.startRecovery c pid = some s') :
    MonitorFrame c s s' (.startRecovery pid) := by
  unfold startRecovery at hstep
  split_ifs at hstep
  cases hstep
  exact monitorFrame_still

lemma flagged_update {k j : ℕ} (i : ℕ) : update s.flagged k (some j) i = s.flagged i ∨
    i = k ∧ update s.flagged k (some j) i = some j := by
  by_cases hk : i = k
  · exact .inr ⟨hk, by rw [hk, update_self]⟩
  · exact .inl (by rw [update_of_ne hk])

lemma cancelFrame_still {pc : CancelPc} {alive : ℕ → Bool}
    (hdead : ∀ pid, s.alive pid = false → alive pid = false) :
    CancelFrame c s { s with canceller := pc, alive := alive } a :=
  ⟨fun _ => slotStep_of_same rfl rfl, rfl, rfl, rfl, rfl, rfl, rfl, rfl, rfl, rfl, hdead,
    SameMemory.flags rfl, fun _ => .inl rfl⟩

lemma cancelStep_frame (hstep : s.cancelStep c = some s') : CancelFrame c s s' .cancel := by
  unfold cancelStep at hstep
  cases hpc : s.canceller <;> simp only [hpc] at hstep
  case idle => cases hstep
  case setCancelled jobId k pid =>
    cases hstep
    exact ⟨fun _ => slotStep_of_flag (.cancel hpc) (by simp) rfl rfl, rfl, rfl, rfl, rfl, rfl, rfl,
      rfl, rfl, rfl, fun _ => id,
      sameFlags_of_update rfl (by simp) (by simp) (by simp) rfl rfl rfl,
      fun i => (flagged_update i).imp_right fun ⟨hi, hnew⟩ => ⟨jobId, pid, hnew, hi ▸ hpc⟩⟩
  case kill =>
    cases hstep
    exact cancelFrame_still fun _ => dead_update
  all_goals split_ifs at hstep <;> (cases hstep; exact cancelFrame_still fun _ => id)

lemma startCancel_frame {jobId : ℕ} (hstep : s.step c (.startCancel jobId) = some s') :
    CancelFrame c s s' (.startCancel jobId) := by
  change s.startCancel jobId = some s' at hstep
  unfold startCancel at hstep
  split_ifs at hstep
  cases hstep
  exact cancelFrame_still fun _ => id

lemma crash_frame {pid : ℕ} (hstep : s.step c (.crash pid) = some s') :
    CancelFrame c s s' (.crash pid) := by
  cases hstep
  exact cancelFrame_still fun _ => dead_update

lemma dispatchStep_frame {status : PipeWriteStatus} (hstep : s.dispatchStep c status = some s') :
    DispatchFrame c s s' (.dispatch status) := by
  unfold dispatchStep at hstep
  cases hpc : s.dispatcher <;> simp only [hpc] at hstep
  case loadIndex k jobId =>
    cases hindex : (s.slot k).workerIndex <;> (simp only [hindex] at hstep; cases hstep; exact {})
  case take =>
    split_ifs at hstep with htake
    · cases hstep
      exact { sends := .take htake.1 }
    · cases hstep
      exact {}
  case send =>
    cases status with
    | success =>
      cases hstep
      exact { sends := .send hpc }
    | validationFailed =>
      cases hstep
      exact {}
    | pipeFailed => split_ifs at hstep <;> (cases hstep; exact {})
  case kill k jobId pid =>
    cases hstep
    refine { dead := fun q hq => ?_ }
    by_cases hpos : 0 < pid
    · simp only [if_pos hpos]
      exact dead_update hq
    · simp only [if_neg hpos, hq]
  case mark k jobId ok =>
    cases ok with
    | true =>
      cases hstep
      exact {
        slot := fun _ => slotStep_of_flag (.sent hpc) (by simp)
        flags := sameFlags_of_update rfl (by simp) (by simp) (by simp) rfl rfl rfl }
    | false =>
      cases hstep
      exact {
        slot := fun _ => slotStep_of_flag (.failed hpc) (by simp)
        flags := sameFlags_of_update rfl (by simp) (by simp) (by simp) rfl rfl rfl
        flagged := fun i => (flagged_update i).imp_right fun ⟨hi, hnew⟩ => ⟨jobId, hnew, hi ▸ hpc⟩ }
  case copyId | loadChunked | loadPid =>
    cases hstep
    exact {}
  all_goals split_ifs at hstep <;> (cases hstep; exact {})

lemma spawn_cases {pid : ℕ} (hstep : s.spawn c pid = some s') :
    (s.worker pid = .exited ∧ s.forked pid = false ∧ 0 < pid ∧
      (s.current (c.workerId pid) = 0 ∨ s.recovered (s.current (c.workerId pid)) = true)) ∧
    s' = { s.setWorker pid (.scan 0 none) with
      forked := update s.forked pid true
      alive := update s.alive pid true
      current := update s.current (c.workerId pid) pid
      pipe := update s.pipe (c.workerId pid) [] } := by
  simp only [spawn] at hstep
  split_ifs at hstep with hguard
  cases hstep
  exact ⟨hguard, rfl⟩

lemma step_slot (hstep : s.step c a = some s') (i : ℕ) : SlotStep c s s' a i := by
  cases a with
  | submit jobId => exact (submitStep_frame hstep).slot i
  | work pid => exact (workStep_frame hstep).slot i
  | monitor => exact (monitorStep_frame hstep).slot i
  | startRecovery pid => exact (startRecovery_frame hstep).slot i
  | cancel => exact (cancelStep_frame hstep).slot i
  | startCancel jobId => exact (startCancel_frame hstep).slot i
  | crash pid => exact (crash_frame hstep).slot i
  | erasePending jobId =>
    cases hstep
    exact slotStep_of_same rfl rfl
  | dispatch status => exact (dispatchStep_frame hstep).slot i
  | spawn pid =>
    obtain ⟨-, rfl⟩ := spawn_cases hstep
    exact slotStep_of_same rfl rfl

/-- A submission, the dispatch loop and the cancel call are moved by their own steps alone. -/
lemma step_threads (hstep : s.step c a = some s') :
    ((∀ j, a ≠ .submit j) → s'.submitter = s.submitter) ∧
      ((∀ status, a ≠ .dispatch status) → s'.dispatcher = s.dispatcher) ∧
      (a ≠ .cancel → (∀ j, a ≠ .startCancel j) → s'.canceller = s.canceller) := by
  cases a with
  | submit jobId =>
    have h := submitStep_frame hstep
    exact ⟨fun ha => absurd rfl (ha jobId), fun _ => h.dispatcher, fun _ _ => h.canceller⟩
  | work pid =>
    have h := workStep_frame hstep
    exact ⟨fun _ => h.submitter, fun _ => h.dispatcher, fun _ _ => h.canceller⟩
  | monitor =>
    have h := monitorStep_frame hstep
    exact ⟨fun _ => h.submitter, fun _ => h.dispatcher, fun _ _ => h.canceller⟩
  | startRecovery pid =>
    have h := startRecovery_frame hstep
    exact ⟨fun _ => h.submitter, fun _ => h.dispatcher, fun _ _ => h.canceller⟩
  | cancel =>
    have h := cancelStep_frame hstep
    exact ⟨fun _ => h.submitter, fun _ => h.dispatcher, fun ha => absurd rfl ha⟩
  | startCancel jobId =>
    have h := startCancel_frame hstep
    exact ⟨fun _ => h.submitter, fun _ => h.dispatcher, fun _ ha => absurd rfl (ha jobId)⟩
  | erasePending jobId | crash pid =>
    cases hstep
    exact ⟨fun _ => rfl, fun _ => rfl, fun _ _ => rfl⟩
  | dispatch status =>
    have h := dispatchStep_frame hstep
    exact ⟨fun _ => h.submitter, fun ha => absurd rfl (ha status), fun _ _ => h.canceller⟩
  | spawn pid =>
    obtain ⟨-, rfl⟩ := spawn_cases hstep
    exact ⟨fun _ => rfl, fun _ => rfl, fun _ _ => rfl⟩

/-- The other steps leave a worker alone, or end it, or start it. -/
lemma step_worker {pid : ℕ} (hstep : s.step c a = some s') (ha : a ≠ .work pid) :
    s'.worker pid = s.worker pid ∨ s'.worker pid = .exited ∨ s'.worker pid = .scan 0 none := by
  cases a with
  | submit jobId => exact .inl (congrFun (submitStep_frame hstep).worker pid)
  | work q => exact .inl ((workStep_frame hstep).others pid fun hq => ha (hq ▸ rfl))
  | monitor => exact ((monitorStep_frame hstep).worker pid).imp_right .inl
  | startRecovery q => exact ((startRecovery_frame hstep).worker pid).imp_right .inl
  | cancel => exact .inl (congrFun (cancelStep_frame hstep).worker pid)
  | startCancel jobId => exact .inl (congrFun (startCancel_frame hstep).worker pid)
  | erasePending jobId | crash q =>
    cases hstep
    exact .inl rfl
  | dispatch status => exact .inl (congrFun (dispatchStep_frame hstep).worker pid)
  | spawn q =>
    obtain ⟨-, rfl⟩ := spawn_cases hstep
    by_cases hq : pid = q
    · exact .inr (.inr (hq ▸ update_self ..))
    · exact .inl (update_of_ne hq ..)

lemma submitter_stays {j : ℕ} (hstep : s.step c a = some s') (ha : a ≠ .submit j) :
    s'.submitter j = s.submitter j := by
  by_cases hsubmit : ∃ k, a = .submit k
  · obtain ⟨k, rfl⟩ := hsubmit
    exact (submitStep_frame hstep).others j fun hk => ha (hk ▸ rfl)
  · exact congrFun ((step_threads hstep).1 fun k hk => hsubmit ⟨k, hk⟩) j

end Server

end CuOpt.Grpc
