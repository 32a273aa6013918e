import CuOpt.Grpc.ResultEntries

/-! The jobs of the workers: in orderly runs a job that was claimed is named in the slot of its process
until the slot is reset, and by then exactly one result was placed for it. -/

namespace CuOpt.Grpc.Results

open Function

def WorkerPc.job : WorkerPc → Option ℕ
  | .holding jobId => some jobId
  | .write r _ | .stream r _ _ | .fail r _ _ | .reset r => some r.jobId
  | _ => none

lemma WorkerPc.busy_of_job {pc : WorkerPc} {j : ℕ} (h : pc.job = some j) :
    pc ≠ .exited ∧ pc ≠ .idle ∧ pc.claimsJob = false := by
  refine ⟨?_, ?_, ?_⟩
  · rintro rfl
    cases h
  · rintro rfl
    cases h
  · cases pc <;> first | rfl | cases h

def WorkerPc.stage : WorkerPc → Option Result
  | .write r pc => if pc.placed then some r else none
  | .stream r _ _ | .fail r _ _ | .reset r => some r
  | _ => none

def MonitorPc.pid : MonitorPc → Option ℕ
  | .idle => none
  | .scan pid | .write pid _ _ | .reset pid _ => some pid

def MonitorPc.job : MonitorPc → Option ℕ
  | .write _ r _ | .reset _ r => some r.jobId
  | _ => none

def MonitorPc.stage (pid : ℕ) : MonitorPc → Option Result
  | .write pid' r pc => if pid' = pid ∧ pc.placed = true then some r else none
  | .reset pid' r => if pid' = pid then some r else none
  | _ => none

def Party.pid : Party → ℕ
  | .worker pid | .monitor pid => pid

lemma MonitorPc.stage_eq_none {pid : ℕ} {pc : MonitorPc} (h : pc.pid ≠ some pid) :
    pc.stage pid = none := by
  cases pc with
  | idle | scan pid' => rfl
  | write pid' r wpc =>
    have hne : pid' ≠ pid := fun heq => h (congrArg some heq)
    exact if_neg fun hand => hne hand.1
  | reset pid' r =>
    have hne : pid' ≠ pid := fun heq => h (congrArg some heq)
    exact if_neg hne

lemma MonitorPc.writing_eq_none {pid : ℕ} {pc : MonitorPc} (h : pc.pid ≠ some pid) :
    pc.writing pid = none := by
  cases pc with
  | write pid' r wpc => exact if_neg fun heq => h (congrArg some heq)
  | idle | scan | reset => rfl

namespace State

variable {c : Config} {s s' : State} {a : Action} {x y : Party} {r : Result} {pc : WritePc}
  {i j pid : ℕ}

def stage (s : State) (pid : ℕ) : Option Result :=
  (s.worker pid).stage.or (s.monitor.stage pid)

structure Jobs (s : State) : Prop where
  noFail : ∀ pid r i todo, s.worker pid ≠ .fail r i todo
  claimed : ∀ pid j, s.worker pid = .claimed j →
    s.owner j = some pid ∧ s.finished j = false ∧ s.placed j = []
  working : ∀ pid j, s.working pid = some j →
    s.owner j = some pid ∧ s.finished j = false ∧ s.placed j = (s.stage pid).toList
  workerJob : ∀ pid j, (s.worker pid).job = some j → s.working pid = some j
  workerFree : ∀ pid, s.worker pid = .idle ∨ (s.worker pid).claimsJob = true → s.working pid = none
  monitorJob : ∀ pid j, s.monitor.pid = some pid → s.monitor.job = some j → s.working pid = some j
  monitorDead : ∀ pid, s.monitor.pid = some pid → s.worker pid = .exited ∧ s.forked pid = true
  unforked : ∀ pid, s.forked pid = false → s.worker pid = .exited ∧ s.working pid = none
  current : ∀ w, s.current w ≠ 0 → s.forked (s.current w) = true
  unowned : ∀ j, s.owner j = none → s.placed j = [] ∧ s.finished j = false
  finished : ∀ j, s.finished j = true → ∃ r, s.placed j = [r]
  covered : ∀ j pid, s.owner j = some pid →
    s.finished j = true ∨ s.working pid = some j ∨ s.worker pid = .claimed j
  placed : ∀ j r, r ∈ s.placed j → r.jobId = j ∧ s.outcome j = some r
  outcome : ∀ x r pc, s.writing x = some (r, pc) → s.outcome r.jobId = some r

lemma initial_jobs : initial.Jobs := by
  constructor
  case noFail => exact nofun
  case claimed | working | workerJob | monitorJob => exact nofun
  case workerFree => exact fun pid _ => rfl
  case monitorDead => exact nofun
  case unforked => exact fun pid _ => ⟨rfl, rfl⟩
  case current => exact fun w h => absurd rfl h
  case unowned => exact fun j _ => ⟨rfl, rfl⟩
  case finished => exact nofun
  case covered => exact nofun
  case placed => exact fun j r h => absurd h List.not_mem_nil
  case outcome =>
    intro x r pc h
    cases x <;> cases h

lemma Jobs.not_recovering (h : s.Jobs) (hpid : s.worker pid ≠ .exited) :
    s.monitor.pid ≠ some pid :=
  fun hmonitor => hpid (h.monitorDead pid hmonitor).1

lemma worker_of_writing (h : s.writing (.worker pid) = some (r, pc)) :
    s.worker pid = .write r pc := by
  cases hpc : s.worker pid <;>
    simp only [writing, hpc, WorkerPc.writing, reduceCtorEq, Option.some.injEq, Prod.mk.injEq] at h
  rw [h.1, h.2]

lemma monitor_of_writing (h : s.writing (.monitor pid) = some (r, pc)) :
    s.monitor = .write pid r pc := by
  cases hpc : s.monitor <;> simp only [writing, hpc, MonitorPc.writing, reduceCtorEq] at h
  split_ifs at h with heq
  cases h
  rw [heq]

lemma stage_of_exited (hpid : s.worker pid = .exited) : s.stage pid = s.monitor.stage pid := by
  rw [stage, hpid]
  rfl

structure JobsOf (s : State) (pid : ℕ) : Prop where
  noFail : ∀ r i todo, s.worker pid ≠ .fail r i todo
  claimed : ∀ j, s.worker pid = .claimed j →
    s.owner j = some pid ∧ s.finished j = false ∧ s.placed j = []
  working : ∀ j, s.working pid = some j →
    s.owner j = some pid ∧ s.finished j = false ∧ s.placed j = (s.stage pid).toList
  workerJob : ∀ j, (s.worker pid).job = some j → s.working pid = some j
  workerFree : s.worker pid = .idle ∨ (s.worker pid).claimsJob = true → s.working pid = none
  monitorJob : ∀ j, s.monitor.pid = some pid → s.monitor.job = some j → s.working pid = some j
  monitorDead : s.monitor.pid = some pid → s.worker pid = .exited ∧ s.forked pid = true
  unforked : s.forked pid = false → s.worker pid = .exited ∧ s.working pid = none
  covered : ∀ j, s.owner j = some pid →
    s.finished j = true ∨ s.working pid = some j ∨ s.worker pid = .claimed j
  outcome : ∀ x r pc, x.pid = pid → s.writing x = some (r, pc) → s.outcome r.jobId = some r

structure RecordOf (s : State) (j : ℕ) : Prop where
  unowned : s.owner j = none → s.placed j = [] ∧ s.finished j = false
  finished : s.finished j = true → ∃ r, s.placed j = [r]
  placed : ∀ r, r ∈ s.placed j → r.jobId = j ∧ s.outcome j = some r

lemma Jobs.of (h : s.Jobs) (pid : ℕ) : s.JobsOf pid where
  noFail := h.noFail pid
  claimed := h.claimed pid
  working := h.working pid
  workerJob := h.workerJob pid
  workerFree := h.workerFree pid
  monitorJob := h.monitorJob pid
  monitorDead := h.monitorDead pid
  unforked := h.unforked pid
  covered := fun j => h.covered j pid
  outcome := fun x r pc _ => h.outcome x r pc

lemma JobsOf.working_of_writing (h : s.JobsOf x.pid) (hx : s.writing x = some (r, pc)) :
    s.working x.pid = some r.jobId := by
  cases x with
  | worker pid =>
    apply h.workerJob
    show (s.worker pid).job = _
    rw [worker_of_writing hx]
    rfl
  | monitor pid =>
    apply h.monitorJob
    · rw [monitor_of_writing hx]
      rfl
    · rw [monitor_of_writing hx]
      rfl

structure SameFor (s s' : State) (pid : ℕ) : Prop where
  worker : s'.worker pid = s.worker pid
  working : s'.working pid = s.working pid
  forked : s'.forked pid = s.forked pid
  monitor : s'.monitor = s.monitor ∨ (s.monitor.pid ≠ some pid ∧ s'.monitor.pid ≠ some pid)
  owner : ∀ j, s'.owner j = some pid ↔ s.owner j = some pid
  jobs : ∀ j, s.owner j = some pid →
    s'.finished j = s.finished j ∧ s'.placed j = s.placed j ∧ s'.outcome j = s.outcome j

lemma SameFor.stage (hsame : SameFor s s' pid) : s'.stage pid = s.stage pid := by
  rw [State.stage, State.stage, hsame.worker]
  rcases hsame.monitor with hmonitor | ⟨hbefore, hafter⟩
  · rw [hmonitor]
  · rw [MonitorPc.stage_eq_none hbefore, MonitorPc.stage_eq_none hafter]

lemma SameFor.writing (hsame : SameFor s s' x.pid) : s'.writing x = s.writing x := by
  cases x with
  | worker pid => exact congrArg WorkerPc.writing hsame.worker
  | monitor pid =>
    rcases hsame.monitor with hmonitor | ⟨hbefore, hafter⟩
    · exact congrArg (MonitorPc.writing pid) hmonitor
    · exact (MonitorPc.writing_eq_none hafter).trans (MonitorPc.writing_eq_none hbefore).symm

lemma JobsOf.of_same (h : s.JobsOf pid) (hsame : SameFor s s' pid) : s'.JobsOf pid := by
  have hmonitor : s'.monitor.pid = some pid → s'.monitor = s.monitor := by
    intro hpid
    rcases hsame.monitor with heq | ⟨_, hafter⟩
    · exact heq
    · exact absurd hpid hafter
  constructor
  case noFail =>
    rw [hsame.worker]
    exact h.noFail
  case claimed =>
    intro j hj
    rw [hsame.worker] at hj
    obtain ⟨hown, hopen, hnone⟩ := h.claimed j hj
    rw [hsame.owner, (hsame.jobs j hown).1, (hsame.jobs j hown).2.1]
    exact ⟨hown, hopen, hnone⟩
  case working =>
    intro j hj
    rw [hsame.working] at hj
    obtain ⟨hown, hopen, hlist⟩ := h.working j hj
    rw [hsame.owner, (hsame.jobs j hown).1, (hsame.jobs j hown).2.1, hsame.stage]
    exact ⟨hown, hopen, hlist⟩
  case workerJob =>
    rw [hsame.worker, hsame.working]
    exact h.workerJob
  case workerFree =>
    rw [hsame.worker, hsame.working]
    exact h.workerFree
  case monitorJob =>
    intro j hpid hj
    rw [hmonitor hpid] at hj
    rw [hsame.working]
    exact h.monitorJob j (hmonitor hpid ▸ hpid) hj
  case monitorDead =>
    intro hpid
    rw [hsame.worker, hsame.forked]
    exact h.monitorDead (hmonitor hpid ▸ hpid)
  case unforked =>
    rw [hsame.forked, hsame.worker, hsame.working]
    exact h.unforked
  case covered =>
    intro j hj
    have hown := (hsame.owner j).mp hj
    rw [(hsame.jobs j hown).1, hsame.working, hsame.worker]
    exact h.covered j hown
  case outcome =>
    rintro x r pc rfl hx
    rw [hsame.writing] at hx
    have hown := (h.working r.jobId (h.working_of_writing hx)).1
    rw [(hsame.jobs r.jobId hown).2.2]
    exact h.outcome x r pc rfl hx

lemma Jobs.of_process (h : s.Jobs) (pid : ℕ) (hothers : ∀ q, q ≠ pid → SameFor s s' q)
    (hself : s'.JobsOf pid) (hjobs : ∀ j, s'.RecordOf j)
    (hcurrent : ∀ w, s'.current w ≠ 0 → s'.forked (s'.current w) = true) : s'.Jobs := by
  have hall : ∀ q, s'.JobsOf q := by
    intro q
    by_cases hq : q = pid
    · exact hq ▸ hself
    · exact (h.of q).of_same (hothers q hq)
  exact {
    noFail := fun q => (hall q).noFail
    claimed := fun q => (hall q).claimed
    working := fun q => (hall q).working
    workerJob := fun q => (hall q).workerJob
    workerFree := fun q => (hall q).workerFree
    monitorJob := fun q => (hall q).monitorJob
    monitorDead := fun q => (hall q).monitorDead
    unforked := fun q => (hall q).unforked
    current := hcurrent
    unowned := fun j => (hjobs j).unowned
    finished := fun j => (hjobs j).finished
    covered := fun j q => (hall q).covered j
    placed := fun j => (hjobs j).placed
    outcome := fun x r pc => (hall x.pid).outcome x r pc rfl }

lemma JobsOf.idle (hpc : s.worker pid = .idle) (hworking : s.working pid = none)
    (hmonitor : s.monitor.pid ≠ some pid) (hforked : s.forked pid = true)
    (hcovered : ∀ j, s.owner j = some pid → s.finished j = true) : s.JobsOf pid := by
  constructor
  case noFail | claimed => simp [hpc]
  case working => simp [hworking]
  case workerJob => simp [hpc, WorkerPc.job]
  case workerFree => exact fun _ => hworking
  case monitorJob => exact fun j hpid => absurd hpid hmonitor
  case monitorDead => exact fun hpid => absurd hpid hmonitor
  case unforked => simp [hforked]
  case covered => exact fun j hj => .inl (hcovered j hj)
  case outcome =>
    rintro x r pc rfl hx
    cases x with
    | worker pid => cases hpc.symm.trans (worker_of_writing hx)
    | monitor pid => exact absurd (by rw [monitor_of_writing hx]; rfl) hmonitor

lemma JobsOf.busy (hjob : (s.worker pid).job = some j)
    (hfail : ∀ r i todo, s.worker pid ≠ .fail r i todo) (hworking : s.working pid = some j)
    (howner : s.owner j = some pid) (hopen : s.finished j = false)
    (hplaced : s.placed j = (s.worker pid).stage.toList)
    (hmonitor : s.monitor.pid ≠ some pid) (hforked : s.forked pid = true)
    (hcovered : ∀ j', s.owner j' = some pid → s.finished j' = true ∨ j' = j)
    (houtcome : ∀ r pc, s.worker pid = .write r pc → s.outcome j = some r) : s.JobsOf pid := by
  have hbusy := WorkerPc.busy_of_job hjob
  have hstage : s.stage pid = (s.worker pid).stage := by
    rw [stage, MonitorPc.stage_eq_none hmonitor, Option.or_none]
  constructor
  case noFail => exact hfail
  case claimed =>
    intro j' hj'
    rw [hj'] at hjob
    cases hjob
  case working =>
    intro j' hj'
    obtain rfl : j = j' := Option.some.inj (hworking.symm.trans hj')
    rw [hstage]
    exact ⟨howner, hopen, hplaced⟩
  case workerJob =>
    intro j' hj'
    rw [hworking, ← hjob, hj']
  case workerFree =>
    rintro (hidle | hclaims)
    · exact absurd hidle hbusy.2.1
    · cases hbusy.2.2.symm.trans hclaims
  case monitorJob => exact fun j' hpid => absurd hpid hmonitor
  case monitorDead => exact fun hpid => absurd hpid hmonitor
  case unforked => simp [hforked]
  case covered =>
    intro j' hj'
    rcases hcovered j' hj' with hdone | rfl
    · exact .inl hdone
    · exact .inr (.inl hworking)
  case outcome =>
    rintro x r pc rfl hx
    cases x with
    | worker pid =>
      have hpc : s.worker pid = .write r pc := worker_of_writing hx
      have hid : r.jobId = j := by
        rw [show (Party.worker pid).pid = pid from rfl, hpc] at hjob
        exact Option.some.inj hjob
      rw [hid]
      exact houtcome r pc hpc
    | monitor pid => exact absurd (by rw [monitor_of_writing hx]; rfl) hmonitor

lemma JobsOf.dead (hpc : s.worker pid = .exited) (hforked : s.forked pid = true)
    (hworking : ∀ j, s.working pid = some j →
      s.owner j = some pid ∧ s.finished j = false ∧ s.placed j = (s.monitor.stage pid).toList)
    (hjob : ∀ j, s.monitor.pid = some pid → s.monitor.job = some j → s.working pid = some j)
    (hcovered : ∀ j, s.owner j = some pid → s.finished j = true ∨ s.working pid = some j)
    (houtcome : ∀ r pc, s.monitor = .write pid r pc → s.outcome r.jobId = some r) :
    s.JobsOf pid := by
  constructor
  case noFail | claimed => simp [hpc]
  case working =>
    rw [stage_of_exited hpc]
    exact hworking
  case workerJob => simp [hpc, WorkerPc.job]
  case workerFree => simp [hpc, WorkerPc.claimsJob]
  case monitorJob => exact hjob
  case monitorDead => exact fun _ => ⟨hpc, hforked⟩
  case unforked => simp [hforked]
  case covered => exact fun j hj => (hcovered j hj).imp_right Or.inl
  case outcome =>
    rintro x r pc rfl hx
    cases x with
    | worker pid => cases hpc.symm.trans (worker_of_writing hx)
    | monitor pid => exact houtcome r pc (monitor_of_writing hx)

lemma Jobs.working_of_writing (h : s.Jobs) (hx : s.writing x = some (r, pc)) :
    s.working x.pid = some r.jobId :=
  (h.of x.pid).working_of_writing hx

lemma Jobs.stage_of_worker (h : s.Jobs) (hpid : s.worker pid ≠ .exited) :
    s.stage pid = (s.worker pid).stage := by
  rw [stage, MonitorPc.stage_eq_none (h.not_recovering hpid), Option.or_none]

lemma Jobs.forked_of_worker (h : s.Jobs) (hpid : s.worker pid ≠ .exited) :
    s.forked pid = true := by
  by_contra hno
  rw [Bool.not_eq_true] at hno
  exact hpid (h.unforked pid hno).1

lemma Jobs.stage_of_writing (h : s.Jobs) (hx : s.writing x = some (r, pc)) :
    s.stage x.pid = if pc.placed then some r else none := by
  cases x with
  | worker pid =>
    have hpc := worker_of_writing hx
    have hpid : s.worker pid ≠ .exited := by simp [hpc]
    show s.stage pid = _
    rw [h.stage_of_worker hpid, hpc]
    rfl
  | monitor pid =>
    have hpc := monitor_of_writing hx
    have hdead := (h.monitorDead pid (by rw [hpc]; rfl)).1
    show s.stage pid = _
    rw [stage_of_exited hdead, hpc]
    simp [MonitorPc.stage]

lemma Jobs.job_ne (h : s.Jobs) (hworks : s.working pid = some j) {q j' : ℕ} (hq : q ≠ pid)
    (hj' : s.owner j' = some q) : j' ≠ j := by
  rintro rfl
  rw [(h.working pid j' hworks).1] at hj'
  exact hq (Option.some.inj hj').symm

/-- A worker with a job has no other job that is open. -/
lemma Jobs.covered_of_working (h : s.Jobs) (hworks : s.working pid = some j)
    (hclaims : (s.worker pid).claimsJob = false) {j' : ℕ} (hj' : s.owner j' = some pid) :
    s.finished j' = true ∨ j' = j := by
  rcases h.covered j' pid hj' with hdone | hwork | hclaim
  · exact .inl hdone
  · exact .inr (Option.some.inj (hwork.symm.trans hworks))
  · rw [hclaim] at hclaims
    cases hclaims

/-- A worker goes on with its job, and what it has placed stays. -/
lemma Jobs.of_worker (h : s.Jobs) {pc' : WorkerPc} {outcome : ℕ → Option Result}
    {pipe : ℕ → List Piece} (hjob : (s.worker pid).job = some j) (hjob' : pc'.job = some j)
    (hstage : pc'.stage = (s.worker pid).stage) (hfail : ∀ r i todo, pc' ≠ .fail r i todo)
    (houtcome : ∀ j', j' ≠ j ∨ (s.worker pid).stage ≠ none → outcome j' = s.outcome j')
    (hwriting : ∀ r wpc, pc' = .write r wpc → outcome j = some r) :
    Jobs { s.setWorker pid pc' with outcome := outcome, pipe := pipe } := by
  have hworks := h.workerJob pid j hjob
  have hbusy := WorkerPc.busy_of_job hjob
  obtain ⟨howns, hopen, hplaced⟩ := h.working pid j hworks
  rw [h.stage_of_worker hbusy.1] at hplaced
  have hself : update s.worker pid pc' pid = pc' := update_self pid _ s.worker
  apply h.of_process pid
  · intro q hq
    refine ⟨update_of_ne hq _ s.worker, rfl, rfl, .inl rfl, fun _ => .rfl, ?_⟩
    exact fun j' hj' => ⟨rfl, rfl, houtcome j' (.inl (h.job_ne hworks hq hj'))⟩
  · apply JobsOf.busy (j := j)
    · exact (congrArg WorkerPc.job hself).trans hjob'
    · exact fun r i todo heq => hfail r i todo (hself.symm.trans heq)
    · exact hworks
    · exact howns
    · exact hopen
    · rw [← hstage] at hplaced
      exact hplaced.trans (congrArg (fun pc => pc.stage.toList) hself).symm
    · exact h.not_recovering hbusy.1
    · exact h.forked_of_worker hbusy.1
    · exact fun j' => h.covered_of_working hworks hbusy.2.2
    · exact fun r wpc heq => hwriting r wpc (hself.symm.trans heq)
  · intro j'
    refine ⟨h.unowned j', h.finished j', fun r hr => ?_⟩
    have hsame : outcome j' = s.outcome j' := by
      apply houtcome
      by_cases hj' : j' = j
      · subst hj'
        refine .inr fun hnone => ?_
        have hr' : r ∈ s.placed j' := hr
        rw [hplaced, hnone] at hr'
        cases hr'
      · exact .inl hj'
    obtain ⟨hid, hout⟩ := h.placed j' r hr
    exact ⟨hid, hsame.trans hout⟩
  · exact h.current

/-- The slot of a job is reset after a result was placed for it. -/
lemma Jobs.record_reset (h : s.Jobs) (hworks : s.working pid = some r.jobId)
    (hone : s.placed r.jobId = [r]) (howner : s'.owner = s.owner) (hplaced : s'.placed = s.placed)
    (houtcome : s'.outcome = s.outcome)
    (hfinished : s'.finished = update s.finished r.jobId true) (j : ℕ) :
    s'.RecordOf j := by
  constructor
  case unowned =>
    intro hnone
    rw [howner] at hnone
    have hne : j ≠ r.jobId := by
      rintro rfl
      cases (h.working pid _ hworks).1.symm.trans hnone
    rw [hplaced, hfinished, update_of_ne hne]
    exact h.unowned j hnone
  case finished =>
    intro hdone
    rw [hplaced]
    by_cases hj : j = r.jobId
    · rw [hj]
      exact ⟨r, hone⟩
    · rw [hfinished, update_of_ne hj] at hdone
      exact h.finished j hdone
  case placed =>
    rw [hplaced, houtcome]
    exact h.placed j

lemma Jobs.reset_others (h : s.Jobs) (hworks : s.working pid = some r.jobId) {q : ℕ}
    (hq : q ≠ pid) : (s.resetJobSlot pid r.jobId).working q = s.working q ∧
      ∀ j, s.owner j = some q → (s.resetJobSlot pid r.jobId).finished j = s.finished j :=
  ⟨update_of_ne hq _ s.working, fun _ hj => update_of_ne (h.job_ne hworks hq hj) _ s.finished⟩

/-- Once the slot is reset, the process has no open job. -/
lemma Jobs.reset_covered (h : s.Jobs) (hworks : s.working pid = some r.jobId)
    (hclaims : (s.worker pid).claimsJob = false) (hj : s.owner j = some pid) :
    (s.resetJobSlot pid r.jobId).finished j = true := by
  show update s.finished r.jobId true j = true
  rcases h.covered_of_working hworks hclaims hj with hdone | rfl
  · by_cases heq : j = r.jobId
    · rw [heq, update_self]
    · rw [update_of_ne heq, hdone]
  · exact update_self _ _ _

section WriteFrame

variable (s : State) (r : Result) (pc : WritePc) (x : Party) (i : ℕ) (st : Store)

structure SameJobs (s s' : State) : Prop where
  working : s'.working = s.working
  owner : s'.owner = s.owner
  finished : s'.finished = s.finished
  outcome : s'.outcome = s.outcome
  forked : s'.forked = s.forked
  recovered : s'.recovered = s.recovered
  current : s'.current = s.current
  pipe : s'.pipe = s.pipe
  reader : s'.reader = s.reader
  records : s'.records = s.records

lemma setWrite_sameJobs : SameJobs s (s.setWrite r pc x) := by
  cases x <;> constructor <;> rfl

lemma note_sameJobs : SameJobs s (s.note r i st) := by
  unfold note
  split <;> constructor <;> rfl

lemma SameJobs.trans {s t u : State} (h : SameJobs s t) (h' : SameJobs t u) : SameJobs s u := by
  constructor
  · exact h'.working.trans h.working
  · exact h'.owner.trans h.owner
  · exact h'.finished.trans h.finished
  · exact h'.outcome.trans h.outcome
  · exact h'.forked.trans h.forked
  · exact h'.recovered.trans h.recovered
  · exact h'.current.trans h.current
  · exact h'.pipe.trans h.pipe
  · exact h'.reader.trans h.reader
  · exact h'.records.trans h.records

@[simp] lemma setWrite_placed : (s.setWrite r pc x).placed = s.placed := by cases x <;> rfl

@[simp] lemma setWrite_awaiting : (s.setWrite r pc x).awaiting = s.awaiting := by
  cases x <;> rfl

end WriteFrame

/-- What one step of the loop over the entries does: the writer goes on, and it places its result when
it makes the entry ready. -/
structure Writes (s s' : State) (x : Party) (r : Result) (pc pc' : WritePc) : Prop where
  same : SameJobs s s'
  writing : ∀ y, s'.writing y = if y = x then some (r, pc') else s.writing y
  worker : ∀ pid, x ≠ .worker pid → s'.worker pid = s.worker pid
  workerSelf : ∀ pid, x = .worker pid → s'.worker pid = .write r pc'
  monitor : (∀ pid, x ≠ .monitor pid) → s'.monitor = s.monitor
  monitorSelf : ∀ pid, x = .monitor pid → s'.monitor = .write pid r pc'
  placed : (pc'.placed = pc.placed ∧ s'.placed = s.placed ∧ s'.awaiting = s.awaiting ∧
      s'.unretrieved = s.unretrieved) ∨
    (pc.placed = false ∧ pc'.placed = true ∧ ∃ i, s.Reserved i ∧
      s'.placed = (s.place r i).placed ∧ s'.awaiting = (s.place r i).awaiting ∧
      s'.unretrieved = (s.place r i).unretrieved)

lemma setWrite_writes (hx : s.writing x = some (r, pc)) {t : State} {pc' : WritePc}
    (hsame : SameJobs s t) (hworker : t.worker = s.worker) (hmonitor : t.monitor = s.monitor)
    (hplaced : (pc'.placed = pc.placed ∧ t.placed = s.placed ∧ t.awaiting = s.awaiting ∧
        t.unretrieved = s.unretrieved) ∨
      (pc.placed = false ∧ pc'.placed = true ∧ ∃ i, s.Reserved i ∧
        t.placed = (s.place r i).placed ∧ t.awaiting = (s.place r i).awaiting ∧
        t.unretrieved = (s.place r i).unretrieved)) : Writes s (t.setWrite r pc' x) x r pc pc' := by
  have hwriting : ∀ y, t.writing y = s.writing y := by
    intro y
    cases y with
    | worker pid => exact congrArg WorkerPc.writing (congrFun hworker pid)
    | monitor pid => exact congrArg (MonitorPc.writing pid) hmonitor
  constructor
  case same => exact hsame.trans (setWrite_sameJobs t r pc' x)
  case writing =>
    intro y
    rw [writing_setWrite ((hwriting x).trans hx), hwriting]
  case worker =>
    intro pid hne
    cases x with
    | worker pid' =>
      have hpid : pid ≠ pid' := fun heq => hne (congrArg Party.worker heq.symm)
      exact (update_of_ne hpid _ t.worker).trans (congrFun hworker pid)
    | monitor pid' => exact congrFun hworker pid
  case workerSelf =>
    rintro pid rfl
    exact update_self pid _ t.worker
  case monitor =>
    intro hne
    cases x with
    | worker pid' => exact hmonitor
    | monitor pid' => exact absurd rfl (hne pid')
  case monitorSelf =>
    rintro pid rfl
    rfl
  case placed =>
    rw [setWrite_placed, setWrite_awaiting, setWrite_unretrieved]
    exact hplaced

lemma Entries.writes (h : s.Entries) (hx : s.writing x = some (r, pc)) :
    ∃ pc', Writes s (s.writeStep c x r pc) x r pc pc' := by
  have hrefl : SameJobs s s := by
    constructor <;> rfl
  have hput : ∀ i st, SameJobs s (s.put i st) := by
    intro i st
    constructor <;> rfl
  have hstay : ∀ pc' : WritePc, pc'.placed = pc.placed →
      Writes s (s.setWrite r pc' x) x r pc pc' := fun pc' hplaced =>
    setWrite_writes hx hrefl rfl rfl (.inl ⟨hplaced, rfl, rfl, rfl⟩)
  cases pc with
  | scan i =>
    simp only [State.writeStep]
    split_ifs
    · exact ⟨.full, hstay .full rfl⟩
    · exact ⟨.scan (i + 1), hstay _ rfl⟩
    · exact ⟨.claim i, hstay _ rfl⟩
  | claim i =>
    simp only [State.writeStep]
    split_ifs
    · exact ⟨.scan (i + 1), hstay _ rfl⟩
    · have htake : ({ (s.put i (.claimed true)).setWrite r (.recheck i) x with
          holder := update s.holder i (some x) } : State) =
          State.setWrite { s.put i (.claimed true) with
            holder := update s.holder i (some x) } r (.recheck i) x := by
        cases x <;> rfl
      refine ⟨.recheck i, ?_⟩
      rw [htake]
      refine setWrite_writes hx ?_ rfl rfl (.inl ⟨rfl, rfl, rfl, rfl⟩)
      constructor <;> rfl
  | recheck i =>
    simp only [State.writeStep]
    split_ifs
    · exact ⟨.release i, hstay _ rfl⟩
    · exact ⟨.fill i r.stores, hstay _ (decide_eq_false (not_not.mpr r.ready_mem_stores))⟩
  | release i =>
    refine ⟨.scan (i + 1), setWrite_writes hx ?_ rfl rfl (.inl ⟨rfl, rfl, rfl, rfl⟩)⟩
    exact (hput i _).trans (note_sameJobs _ r i (.claimed false))
  | fill i todo =>
    cases todo with
    | nil => exact ⟨.fill i [], hstay _ rfl⟩
    | cons st todo =>
      obtain ⟨done, hdone, _⟩ := h.written x r i _ hx
      refine ⟨.fill i todo, ?_⟩
      apply setWrite_writes hx
      · exact (hput i st).trans (note_sameJobs _ r i st)
      · unfold note
        split <;> rfl
      · unfold note
        split <;> rfl
      · rcases Result.stores_cases hdone with ⟨hcontent, hready, _⟩ | ⟨rfl, rfl, _⟩ | ⟨rfl, rfl⟩
        · rw [note_of_isContent hcontent]
          refine .inl ⟨?_, rfl, rfl, rfl⟩
          have hmem : Store.ready true ∈ st :: todo := List.mem_cons_of_mem st hready
          simp only [WritePc.placed, hready, hmem]
        · have hreserved := h.reserved x r i _ hx List.mem_cons_self
          exact .inr ⟨rfl, rfl, i, hreserved, rfl, rfl, rfl⟩
        · exact .inl ⟨rfl, rfl, rfl, rfl⟩
  | full => exact absurd hx (h.noFull x r)

section Writes

variable {pc' : WritePc}

section

variable (hw : Writes s s' x r pc pc')
include hw

lemma Writes.worker_eq (hx : s.writing x = some (r, pc)) (pid : ℕ) :
    s'.worker pid = s.worker pid ∨
      x = .worker pid ∧ s.worker pid = .write r pc ∧ s'.worker pid = .write r pc' := by
  by_cases heq : x = .worker pid
  · subst heq
    exact .inr ⟨rfl, worker_of_writing hx, hw.workerSelf pid rfl⟩
  · exact .inl (hw.worker pid heq)

lemma Writes.monitor_eq (hx : s.writing x = some (r, pc)) :
    s'.monitor = s.monitor ∨
      ∃ pid, x = .monitor pid ∧ s.monitor = .write pid r pc ∧ s'.monitor = .write pid r pc' := by
  cases x with
  | worker pid => exact .inl (hw.monitor nofun)
  | monitor pid => exact .inr ⟨pid, rfl, monitor_of_writing hx, hw.monitorSelf pid rfl⟩

lemma Writes.placed_of_ne (hj : j ≠ r.jobId) :
    s'.placed j = s.placed j := by
  rcases hw.placed with ⟨_, hsame, _⟩ | ⟨_, _, i, _, hplace, _⟩
  · rw [hsame]
  · rw [hplace]
    exact update_of_ne hj _ s.placed

/-- A writer keeps the job of its process, and whether the worker has exited. -/
lemma Writes.worker_facts (hx : s.writing x = some (r, pc)) (pid : ℕ) :
    (s'.worker pid).job = (s.worker pid).job ∧
      (s'.worker pid = .exited ↔ s.worker pid = .exited) ∧
      (s'.worker pid = .idle ↔ s.worker pid = .idle) ∧
      (s'.worker pid).claimsJob = (s.worker pid).claimsJob ∧
      (∀ j, s'.worker pid = .claimed j ↔ s.worker pid = .claimed j) := by
  rcases hw.worker_eq hx pid with hsame | ⟨_, hbefore, hafter⟩
  · rw [hsame]
    exact ⟨rfl, .rfl, .rfl, rfl, fun j => .rfl⟩
  · rw [hbefore, hafter]
    exact ⟨rfl, by simp, by simp, rfl, by simp⟩

end

lemma Jobs.of_writes (h : s.Jobs) (hw : Writes s s' x r pc pc')
    (hx : s.writing x = some (r, pc)) : s'.Jobs := by
  have hworks := h.working_of_writing hx
  obtain ⟨howns, hopen, hstaged⟩ := h.working x.pid r.jobId hworks
  have hself : s'.placed r.jobId = (if pc'.placed then some r else none).toList := by
    rw [h.stage_of_writing hx] at hstaged
    rcases hw.placed with ⟨hsame, hplaced, _⟩ | ⟨hbefore, hafter, i, _, hplace, _⟩
    · rw [hplaced, hstaged, hsame]
    · rw [hplace, hafter]
      rw [hbefore] at hstaged
      show update s.placed r.jobId (r :: s.placed r.jobId) r.jobId = _
      rw [update_self, hstaged]
      rfl
  apply h.of_process x.pid
  · intro q hq
    constructor
    case worker =>
      apply hw.worker
      rintro rfl
      exact hq rfl
    case working => rw [hw.same.working]
    case forked => rw [hw.same.forked]
    case monitor =>
      rcases hw.monitor_eq hx with hsame | ⟨pid', rfl, hbefore, hafter⟩
      · exact .inl hsame
      · have hne : some pid' ≠ some q := fun heq => hq (Option.some.inj heq).symm
        rw [hbefore, hafter]
        exact .inr ⟨hne, hne⟩
    case owner => simp [hw.same.owner]
    case jobs =>
      intro j hj
      rw [hw.same.finished, hw.same.outcome, hw.placed_of_ne (h.job_ne hworks hq hj)]
      exact ⟨rfl, rfl, rfl⟩
  · have hout := h.outcome x r pc hx
    cases x with
    | worker pid =>
      have hpc := worker_of_writing hx
      have hexited : s.worker pid ≠ .exited := by simp [hpc]
      have hpc' : s'.worker pid = .write r pc' := hw.workerSelf pid rfl
      have hmonitor : s'.monitor = s.monitor := hw.monitor nofun
      apply JobsOf.busy (j := r.jobId)
      · simp [Party.pid, hpc', WorkerPc.job]
      · simp [Party.pid, hpc']
      · rw [hw.same.working]
        exact hworks
      · rw [hw.same.owner]
        exact howns
      · rw [hw.same.finished]
        exact hopen
      · simp [Party.pid, hself, hpc', WorkerPc.stage]
      · rw [hmonitor]
        exact h.not_recovering hexited
      · rw [hw.same.forked]
        exact h.forked_of_worker hexited
      · rw [hw.same.owner, hw.same.finished]
        exact fun j => h.covered_of_working hworks (by simp [Party.pid, hpc, WorkerPc.claimsJob])
      · intro r' wpc heq
        cases hpc'.symm.trans heq
        rw [hw.same.outcome]
        exact hout
    | monitor pid =>
      have hpc := monitor_of_writing hx
      have hpc' : s'.monitor = .write pid r pc' := hw.monitorSelf pid rfl
      obtain ⟨hdead, hforked⟩ := h.monitorDead pid (by rw [hpc]; rfl)
      have hworker : s'.worker pid = s.worker pid := hw.worker pid nofun
      apply JobsOf.dead
      · exact hworker.trans hdead
      · rw [hw.same.forked]
        exact hforked
      · intro j hj
        rw [hw.same.working] at hj
        obtain rfl : r.jobId = j := Option.some.inj (hworks.symm.trans hj)
        rw [hw.same.owner, hw.same.finished, hself, hpc']
        exact ⟨howns, hopen, by simp [MonitorPc.stage, Party.pid]⟩
      · intro j _ hj
        rw [hpc'] at hj
        rw [hw.same.working, hworks]
        exact hj
      · rw [hw.same.owner, hw.same.finished, hw.same.working]
        intro j hj
        rcases h.covered_of_working hworks (by simp [Party.pid, hdead, WorkerPc.claimsJob]) hj with
          hdone | rfl
        · exact .inl hdone
        · exact .inr hworks
      · intro r' wpc heq
        cases hpc'.symm.trans heq
        rw [hw.same.outcome]
        exact hout
  · intro j
    by_cases hj : j = r.jobId
    · subst hj
      constructor
      case unowned =>
        rw [hw.same.owner, howns]
        exact nofun
      case finished =>
        rw [hw.same.finished, hopen]
        exact nofun
      case placed =>
        intro r' hr'
        rw [hself] at hr'
        rw [hw.same.outcome]
        split_ifs at hr'
        · rw [List.mem_singleton.mp hr']
          exact ⟨rfl, h.outcome x r pc hx⟩
        · cases hr'
    · have hplaced := hw.placed_of_ne hj
      constructor
      case unowned =>
        rw [hw.same.owner, hplaced, hw.same.finished]
        exact h.unowned j
      case finished =>
        rw [hw.same.finished, hplaced]
        exact h.finished j
      case placed =>
        rw [hplaced, hw.same.outcome]
        exact h.placed j
  · rw [hw.same.current, hw.same.forked]
    exact h.current

end Writes

lemma spawn_jobs (h : s.Jobs) (hstep : s.spawn c pid = some s') : s'.Jobs := by
  unfold spawn at hstep
  dsimp only at hstep
  split_ifs at hstep with hguard
  obtain ⟨hfresh, _, _⟩ := hguard
  cases hstep
  obtain ⟨hexited, hnone⟩ := h.unforked pid hfresh
  apply h.of_process pid
  · intro q hq
    exact ⟨update_of_ne hq _ s.worker, rfl, update_of_ne hq _ s.forked,
      .inl rfl, fun _ => .rfl, fun _ _ => ⟨rfl, rfl, rfl⟩⟩
  · apply JobsOf.idle
    · exact update_self pid _ s.worker
    · exact hnone
    · exact fun hmonitor => nomatch hfresh.symm.trans (h.monitorDead pid hmonitor).2
    · exact update_self pid _ s.forked
    · intro j hj
      rcases h.covered j pid hj with hdone | hwork | hclaim
      · exact hdone
      · cases hnone.symm.trans hwork
      · cases hexited.symm.trans hclaim
  · exact fun j => ⟨h.unowned j, h.finished j, h.placed j⟩
  · intro w hw
    show update s.forked pid true (update s.current (c.workerId pid) pid w) = true
    have hw' : update s.current (c.workerId pid) pid w ≠ 0 := hw
    by_cases heq : w = c.workerId pid
    · rw [heq, update_self, update_self]
    · rw [update_of_ne heq] at hw' ⊢
      by_cases hpid : s.current w = pid
      · rw [hpid, update_self]
      · rw [update_of_ne hpid]
        exact h.current w hw'

lemma claimJob_jobs (h : s.Jobs) (hstep : s.claimJob pid j = some s') : s'.Jobs := by
  unfold claimJob at hstep
  split_ifs at hstep with hguard
  obtain ⟨hidle, hfree⟩ := hguard
  cases hstep
  have hnone := h.workerFree pid (.inl hidle)
  have hexited : s.worker pid ≠ .exited := by simp [hidle]
  have hmonitor := h.not_recovering hexited
  obtain ⟨hplaced, hopen⟩ := h.unowned j hfree
  have hself : update s.worker pid (.claimed j) pid = .claimed j :=
    update_self pid _ s.worker
  apply h.of_process pid
  · intro q hq
    refine ⟨update_of_ne hq _ s.worker, rfl, rfl, .inl rfl, fun j' => ?_,
      fun _ _ => ⟨rfl, rfl, rfl⟩⟩
    show update s.owner j (some pid) j' = some q ↔ s.owner j' = some q
    by_cases hj' : j' = j
    · rw [hj', update_self, hfree]
      simp [hq.symm]
    · rw [update_of_ne hj']
  · constructor
    case noFail => exact fun r i todo hpc => nomatch hself.symm.trans hpc
    case claimed =>
      intro j' hpc
      cases hself.symm.trans hpc
      exact ⟨update_self j _ s.owner, hopen, hplaced⟩
    case working => exact fun j' hj' => nomatch hnone.symm.trans hj'
    case workerJob => exact fun j' hj' => nomatch (congrArg WorkerPc.job hself).symm.trans hj'
    case workerFree => exact fun _ => hnone
    case monitorJob => exact fun j' hpid => absurd hpid hmonitor
    case monitorDead => exact fun hpid => absurd hpid hmonitor
    case unforked => exact fun hno => absurd (h.unforked pid hno).1 hexited
    case covered =>
      intro j' hj'
      by_cases heq : j' = j
      · rw [heq]
        exact .inr (.inr hself)
      · rcases h.covered j' pid ((update_of_ne heq _ s.owner).symm.trans hj') with
          hdone | hwork | hclaim
        · exact .inl hdone
        · cases hnone.symm.trans hwork
        · cases hidle.symm.trans hclaim
    case outcome =>
      rintro x r pc rfl hx
      cases x with
      | worker pid => cases hself.symm.trans (worker_of_writing hx)
      | monitor pid => exact h.outcome (.monitor pid) r pc hx
  · intro j'
    refine ⟨fun hj' => ?_, h.finished j', h.placed j'⟩
    by_cases heq : j' = j
    · rw [heq]
      exact ⟨hplaced, hopen⟩
    · exact h.unowned j' ((update_of_ne heq _ s.owner).symm.trans hj')
  · exact h.current

lemma crash_jobs (h : s.Jobs) (horderly : s.Orderly c (.crash pid)) :
    (s.setWorker pid .exited).Jobs := by
  obtain ⟨hclaims, hnothing⟩ := horderly
  by_cases hexited : s.worker pid = .exited
  · have hsame : s.setWorker pid .exited = s := by
      rw [setWorker, ← hexited, update_eq_self]
    rw [hsame]
    exact h
  have hmonitor := h.not_recovering hexited
  apply h.of_process pid
  · intro q hq
    exact ⟨update_of_ne hq _ s.worker, rfl, rfl, .inl rfl, fun _ => .rfl,
      fun _ _ => ⟨rfl, rfl, rfl⟩⟩
  · apply JobsOf.dead
    · exact update_self pid _ s.worker
    · exact h.forked_of_worker hexited
    · intro j hj
      obtain ⟨hown, hopen, _⟩ := h.working pid j hj
      refine ⟨hown, hopen, ?_⟩
      show s.placed j = (s.monitor.stage pid).toList
      rw [MonitorPc.stage_eq_none hmonitor]
      exact hnothing j hj
    · exact fun j hpid => absurd hpid hmonitor
    · intro j hj
      rcases h.covered j pid hj with hdone | hwork | hclaim
      · exact .inl hdone
      · exact .inr hwork
      · rw [hclaim] at hclaims
        cases hclaims
    · intro r wpc hpc
      exact absurd (congrArg MonitorPc.pid hpc) hmonitor
  · exact fun j' => ⟨h.unowned j', h.finished j', h.placed j'⟩
  · exact h.current

lemma storePid_jobs (h : s.Jobs) (hpc : s.worker pid = .claimed j) :
    Jobs { s.setWorker pid (.holding j) with working := update s.working pid (some j) } := by
  obtain ⟨howns, hopen, hnothing⟩ := h.claimed pid j hpc
  have hexited : s.worker pid ≠ .exited := by simp [hpc]
  have hnone := h.workerFree pid (.inr (by rw [hpc]; rfl))
  have hself : update s.worker pid (.holding j) pid = .holding j :=
    update_self pid _ s.worker
  apply h.of_process pid
  · intro q hq
    exact ⟨update_of_ne hq _ s.worker, update_of_ne hq _ s.working, rfl,
      .inl rfl, fun _ => .rfl, fun _ _ => ⟨rfl, rfl, rfl⟩⟩
  · apply JobsOf.busy (j := j)
    · exact congrArg WorkerPc.job hself
    · exact fun r i todo heq => nomatch hself.symm.trans heq
    · exact update_self pid _ s.working
    · exact howns
    · exact hopen
    · exact hnothing.trans (congrArg (fun pc => pc.stage.toList) hself).symm
    · exact h.not_recovering hexited
    · exact h.forked_of_worker hexited
    · intro j' hj'
      rcases h.covered j' pid hj' with hdone | hwork | hclaim
      · exact .inl hdone
      · cases hnone.symm.trans hwork
      · cases hpc.symm.trans hclaim
        exact .inr rfl
    · exact fun r wpc heq => nomatch hself.symm.trans heq
  · exact fun j' => ⟨h.unowned j', h.finished j', h.placed j'⟩
  · exact h.current

lemma resultOf_jobId (c : Config) (pid j : ℕ) (outcome : Outcome) :
    (resultOf c pid j outcome).jobId = j := by
  cases outcome <;> rfl

lemma finish_jobs {outcome : Outcome} (h : s.Jobs) (hstep : s.finish c pid outcome = some s') :
    s'.Jobs := by
  unfold finish at hstep
  split at hstep
  case h_2 => cases hstep
  case h_1 j hpc =>
  dsimp only at hstep
  cases hstep
  have hid := resultOf_jobId c pid j outcome
  apply h.of_worker (j := j)
  · rw [hpc]
    rfl
  · exact congrArg some hid
  · rw [hpc]
    rfl
  · simp
  · rintro j' (hne | hstage)
    · exact update_of_ne hne _ s.outcome
    · exact absurd (by rw [hpc]; rfl) hstage
  · intro r wpc heq
    cases heq
    exact update_self j _ s.outcome

lemma Jobs.goto (h : s.Jobs) (pc' : WorkerPc) (hjob : (s.worker pid).job = some r.jobId)
    (hstage : (s.worker pid).stage = some r) (hjob' : pc'.job = some r.jobId)
    (hstage' : pc'.stage = some r) (hfail : ∀ r i todo, pc' ≠ .fail r i todo)
    (hwriting : ∀ r wpc, pc' ≠ .write r wpc) (pipe : ℕ → List Piece) :
    Jobs { s.setWorker pid pc' with pipe := pipe } :=
  h.of_worker hjob hjob' (hstage'.trans hstage.symm) hfail (fun _ _ => rfl)
    fun r wpc heq => absurd heq (hwriting r wpc)

lemma workStep_jobs {writeOk : Bool} (he : s.Entries) (h : s.Jobs)
    (horderly : s.WorkOrderly c writeOk (s.worker pid))
    (hstep : s.workStep c pid writeOk = some s') : s'.Jobs := by
  unfold workStep at hstep
  split at hstep
  case h_1 | h_2 | h_3 => cases hstep
  case h_4 j hpc =>
    cases hstep
    exact storePid_jobs h hpc
  case h_5 r hpc =>
    have hx : s.writing (.worker pid) = some (r, .full) := congrArg WorkerPc.writing hpc
    exact absurd hx (he.noFull _ r)
  case h_6 r i hpc =>
    have hjob : (s.worker pid).job = some r.jobId := by rw [hpc]; rfl
    have hstage : (s.worker pid).stage = some r := by rw [hpc]; rfl
    split_ifs at hstep
    · cases hstep
      exact h.goto (.stream r i r.payload) hjob hstage rfl rfl (by simp) (by simp) s.pipe
    · cases hstep
      exact h.goto (.reset r) hjob hstage rfl rfl (by simp) (by simp) s.pipe
  case h_7 r wpc hnotFull hnotDone hpc =>
    cases hstep
    have hx : s.writing (.worker pid) = some (r, wpc) := congrArg WorkerPc.writing hpc
    obtain ⟨pc', hw⟩ := he.writes (c := c) hx
    exact h.of_writes hw hx
  case h_8 r i piece todo hpc =>
    have hok : writeOk = true := by
      rw [hpc] at horderly
      exact horderly
    have hjob : (s.worker pid).job = some r.jobId := by rw [hpc]; rfl
    have hstage : (s.worker pid).stage = some r := by rw [hpc]; rfl
    dsimp only at hstep
    rw [if_pos hok] at hstep
    cases hstep
    exact h.goto (.stream r i todo) hjob hstage rfl rfl (by simp) (by simp) _
  case h_9 r i hpc =>
    cases hstep
    have hjob : (s.worker pid).job = some r.jobId := by rw [hpc]; rfl
    have hstage : (s.worker pid).stage = some r := by rw [hpc]; rfl
    exact h.goto (.reset r) hjob hstage rfl rfl (by simp) (by simp) s.pipe
  case h_10 r i st todo hpc | h_11 r i hpc => exact absurd hpc (h.noFail pid r i _)
  case h_12 r hpc =>
    cases hstep
    have hexited : s.worker pid ≠ .exited := by simp [hpc]
    have hworks := h.workerJob pid r.jobId (by rw [hpc]; rfl)
    have hone : s.placed r.jobId = [r] := by
      rw [(h.working pid r.jobId hworks).2.2, h.stage_of_worker hexited, hpc]
      rfl
    have hclaims : (s.worker pid).claimsJob = false := by rw [hpc]; rfl
    apply h.of_process pid
    · intro q hq
      obtain ⟨hworking, hfinished⟩ := h.reset_others hworks hq
      exact ⟨update_of_ne hq _ s.worker, hworking, rfl, .inl rfl, fun _ => .rfl,
        fun j hj => ⟨hfinished j hj, rfl, rfl⟩⟩
    · apply JobsOf.idle
      · exact update_self pid _ s.worker
      · exact update_self pid _ s.working
      · exact h.not_recovering hexited
      · exact h.forked_of_worker hexited
      · exact fun j hj => h.reset_covered hworks hclaims hj
    · exact h.record_reset hworks hone rfl rfl rfl rfl
    · exact h.current

/-- The monitor goes on with the dead worker, and with its job if it has one. -/
lemma Jobs.of_monitor (h : s.Jobs) {mpc : MonitorPc} {outcome : ℕ → Option Result}
    {recovered : ℕ → Bool} (hdead : s.worker pid = .exited) (hforked : s.forked pid = true)
    (hbefore : ∀ q, s.monitor.pid = some q → q = pid) (hafter : ∀ q, mpc.pid = some q → q = pid)
    (hstage : mpc.stage pid = s.monitor.stage pid)
    (hjob : ∀ j, mpc.pid = some pid → mpc.job = some j → s.working pid = some j)
    (houtcome : ∀ j, s.working pid ≠ some j ∨ s.monitor.stage pid ≠ none → outcome j = s.outcome j)
    (hwriting : ∀ r wpc, mpc = .write pid r wpc → outcome r.jobId = some r) :
    Jobs { s with monitor := mpc, outcome := outcome, recovered := recovered } := by
  apply h.of_process pid
  · intro q hq
    refine ⟨rfl, rfl, rfl, .inr ⟨fun heq => hq (hbefore q heq), fun heq => hq (hafter q heq)⟩,
      fun _ => .rfl, fun j hj => ⟨rfl, rfl, houtcome j (.inl fun hworks => ?_)⟩⟩
    exact h.job_ne hworks hq hj rfl
  · apply JobsOf.dead
    · exact hdead
    · exact hforked
    · intro j hj
      obtain ⟨hown, hopen, hplaced⟩ := h.working pid j hj
      rw [stage_of_exited hdead, ← hstage] at hplaced
      exact ⟨hown, hopen, hplaced⟩
    · exact hjob
    · intro j hj
      rcases h.covered j pid hj with hdone | hwork | hclaim
      · exact .inl hdone
      · exact .inr hwork
      · cases hdead.symm.trans hclaim
    · exact hwriting
  · intro j
    refine ⟨h.unowned j, h.finished j, fun r hr => ?_⟩
    have hsame : outcome j = s.outcome j := by
      apply houtcome
      by_cases hworks : s.working pid = some j
      · refine .inr fun hnone => ?_
        have hr' : r ∈ s.placed j := hr
        rw [(h.working pid j hworks).2.2, stage_of_exited hdead, hnone] at hr'
        cases hr'
      · exact .inl hworks
    obtain ⟨hid, hout⟩ := h.placed j r hr
    exact ⟨hid, hsame.trans hout⟩
  · exact h.current

lemma startRecovery_jobs (h : s.Jobs) (hstep : s.startRecovery c pid = some s') : s'.Jobs := by
  unfold startRecovery at hstep
  split_ifs at hstep with hguard
  obtain ⟨hidle, hexited, _, hpos, hcurrent⟩ := hguard
  cases hstep
  have hforked : s.forked pid = true := by
    rw [← hcurrent]
    apply h.current
    rw [hcurrent]
    exact hpos.ne'
  refine h.of_monitor hexited hforked (by simp [hidle, MonitorPc.pid]) (by simp [MonitorPc.pid]) ?_ ?_
    (fun _ _ => rfl) ?_
  · rw [hidle]
    rfl
  · exact nofun
  · exact nofun

lemma monitorStep_jobs {wasCancelled : Bool} (he : s.Entries) (h : s.Jobs)
    (hstep : s.monitorStep c wasCancelled = some s') : s'.Jobs := by
  have hbefore : ∀ pid, s.monitor.pid = some pid → ∀ q, s.monitor.pid = some q → q = pid :=
    fun pid hpid q hq => Option.some.inj (hq.symm.trans hpid)
  unfold monitorStep at hstep
  split at hstep
  case h_1 => cases hstep
  case h_2 pid hpc =>
    have hpid : s.monitor.pid = some pid := by rw [hpc]; rfl
    obtain ⟨hexited, hforked⟩ := h.monitorDead pid hpid
    split at hstep
    case h_1 hnone =>
      cases hstep
      refine h.of_monitor hexited hforked (hbefore pid hpid) (nofun) ?_
        (nofun) (fun _ _ => rfl) (nofun)
      rw [hpc]
      rfl
    case h_2 j hworks =>
      dsimp only at hstep
      cases hstep
      refine h.of_monitor hexited hforked (hbefore pid hpid) (by simp [MonitorPc.pid]) ?_ ?_ ?_ ?_
      · simp [hpc, MonitorPc.stage, WritePc.placed]
      · intro j' _ hj'
        cases hj'
        exact hworks
      · rintro j' (hne | hstage)
        · have hj' : j' ≠ j := by
            rintro rfl
            exact hne hworks
          exact update_of_ne hj' _ s.outcome
        · exact absurd (by rw [hpc]; rfl) hstage
      · intro r wpc heq
        cases heq
        exact update_self j _ s.outcome
  case h_3 pid r hpc =>
    have hx : s.writing (.monitor pid) = some (r, .full) := writing_of_monitor hpc
    exact absurd hx (he.noFull _ r)
  case h_4 pid r i hpc =>
    have hpid : s.monitor.pid = some pid := by rw [hpc]; rfl
    obtain ⟨hexited, hforked⟩ := h.monitorDead pid hpid
    cases hstep
    refine h.of_monitor hexited hforked (hbefore pid hpid) (by simp [MonitorPc.pid]) ?_ ?_
      (fun _ _ => rfl) (nofun)
    · simp [hpc, MonitorPc.stage, WritePc.placed]
    · intro j _ hj
      cases hj
      exact h.monitorJob pid r.jobId hpid (by rw [hpc]; rfl)
  case h_5 pid r wpc hnotFull hnotDone hpc =>
    cases hstep
    have hx : s.writing (.monitor pid) = some (r, wpc) := writing_of_monitor hpc
    obtain ⟨pc', hw⟩ := he.writes (c := c) hx
    exact h.of_writes hw hx
  case h_6 pid r hpc =>
    cases hstep
    have hpid : s.monitor.pid = some pid := by rw [hpc]; rfl
    obtain ⟨hexited, hforked⟩ := h.monitorDead pid hpid
    have hworks := h.monitorJob pid r.jobId hpid (by rw [hpc]; rfl)
    have hclaims : (s.worker pid).claimsJob = false := by rw [hexited]; rfl
    have hone : s.placed r.jobId = [r] := by
      rw [(h.working pid r.jobId hworks).2.2, stage_of_exited hexited, hpc]
      simp [MonitorPc.stage]
    apply h.of_process pid
    · intro q hq
      obtain ⟨hworking, hfinished⟩ := h.reset_others hworks hq
      have hne : some pid ≠ some q := fun heq => hq (Option.some.inj heq).symm
      refine ⟨rfl, hworking, rfl, .inr ⟨?_, hne⟩, fun _ => .rfl,
        fun j hj => ⟨hfinished j hj, rfl, rfl⟩⟩
      rw [hpid]
      exact hne
    · apply JobsOf.dead
      · exact hexited
      · exact hforked
      · intro j hj
        have hnone : update s.working pid none pid = some j := hj
        rw [update_self] at hnone
        cases hnone
      · exact nofun
      · exact fun j hj => .inl (h.reset_covered hworks hclaims hj)
      · exact nofun
    · exact h.record_reset hworks hone rfl rfl rfl rfl
    · exact h.current

lemma Jobs.of_retrieval (h : s.Jobs) {entry : ℕ → ResultQueueEntry} {reader : ReaderPc}
    {pipe : ℕ → List Piece} {records : List Record} {unretrieved : ℕ → Option Result}
    {awaiting : ℕ → List Result} :
    Jobs { s with
      entry := entry
      reader := reader
      pipe := pipe
      records := records
      unretrieved := unretrieved
      awaiting := awaiting } where
  __ := h
  outcome x r pc hx := by
    apply h.outcome x r pc
    cases x <;> exact hx

lemma retrieveStep_jobs {readOk : Bool} (h : s.Jobs)
    (hstep : s.retrieveStep c readOk = some s') : s'.Jobs := by
  unfold retrieveStep at hstep
  split at hstep
  case h_10 i st todo _ =>
    cases hstep
    unfold noteRetrieved
    split
    · exact h.of_retrieval
    · exact h.of_retrieval
  all_goals
    repeat' split at hstep
    all_goals
      first
      | (cases hstep; done)
      | (cases hstep; exact h.of_retrieval)

end State

end CuOpt.Grpc.Results
