import CuOpt.Grpc.SlotContents

/-! The worker processes and their recovery: a process index passes to a new process only after no
published slot carries the id of the old one. -/

namespace CuOpt.Grpc

open Function
open Bool (not_eq_true)

def MonitorPc.scanned : MonitorPc → Option (ℕ × ℕ)
  | .idle => none
  | .loadReady pid i | .loadClaimed pid i | .loadPid pid i => some (pid, i)
  | .reset pid i todo => some (pid, if Store.ready false ∈ todo then i else i + 1)

lemma MonitorPc.pid_of_scanned {pc : MonitorPc} {pid k : ℕ} (h : pc.scanned = some (pid, k)) :
    pc.pid = some pid := by
  cases pc <;> simp_all [scanned, MonitorPc.pid]

def SubmitPc.slot : SubmitPc → Option ℕ
  | .reserve i | .fill i _ | .track i | .enqueue i | .publish i _ => some i
  | .scan _ | .done _ => none

namespace Server

variable (c : ServerConfig)

def Clean (s : Server) (pid i : ℕ) : Prop := ∀ j, s.published i = some j → (s.slot i).workerPid ≠ pid

structure Processes (s : Server) : Prop where
  unforked : ∀ pid, s.forked pid = false →
    s.worker pid = .exited ∧ s.alive pid = false ∧ s.recovered pid = false
  positive : ∀ pid, s.forked pid = true → 0 < pid
  current : ∀ pid, s.forked pid = true → s.recovered pid = true ∨ s.current (c.workerId pid) = pid
  currentForked : ∀ idx, 0 < s.current idx →
    s.forked (s.current idx) = true ∧ c.workerId (s.current idx) = idx
  dead : ∀ pid, s.recovered pid = true → s.alive pid = false
  monitored : ∀ pid, s.monitor.pid = some pid → s.forked pid = true ∧ s.alive pid = false ∧
    s.recovered pid = false
  taken : ∀ pid i todo, s.monitor = .reset pid i todo → s.worker pid = .exited
  bounded : ∀ j i, (s.submitter j).slot = some i → i < c.maxJobs
  publishedBounded : ∀ i j, s.published i = some j → i < c.maxJobs
  scanned : ∀ pid k, s.monitor.scanned = some (pid, k) → ∀ i, i < k → s.Clean pid i
  recovered : ∀ pid, s.recovered pid = true → ∀ i, s.Clean pid i

variable {c} {s s' : Server} {a : Action}

lemma initial_processes : initial.Processes c := by
  constructor
  · intro pid _
    exact ⟨rfl, rfl, rfl⟩
  · intro pid h
    cases h
  · intro pid h
    cases h
  · intro idx h
    cases h
  · intro pid h
    cases h
  · intro pid h
    cases h
  · intro pid i todo h
    cases h
  · intro j i h
    cases h
  · intro i j h
    cases h
  · intro pid k h
    cases h
  · intro pid h
    cases h

lemma Inv.submitter_workerPid (hinv : s.Inv c) {j i : ℕ} (h : (s.submitter j).holds = some i) :
    (s.slot i).workerPid = 0 := by
  have hknown := hinv.known (.submitter j) i h
  simp only [localOk] at hknown
  cases hpc : s.submitter j <;> rw [hpc] at h hknown
  case fill | publish => exact hknown.1
  case track | enqueue => exact hknown
  case scan | reserve | done => cases h

lemma published_back (hinv : s.Inv c) (hstep : s.step c a = some s') {i j : ℕ}
    (h : s'.published i = some j) :
    s.published i = some j ∨
      (a = .submit j ∧ (s.slot i).workerPid = 0 ∧
        ∃ todo, s.submitter j = .publish i (.ready true :: todo)) := by
  rcases step_slot hstep i with ⟨-, hpublished⟩ | ⟨st, htouch, -, hpublished⟩
  · exact .inl (by rw [← hpublished, h])
  rw [hpublished] at h
  by_cases ht : st = .ready true
  · subst ht
    by_cases ha : ∃ jobId, a = .submit jobId
    · obtain ⟨jobId, rfl⟩ := ha
      cases h
      cases htouch with
      | fill hpc =>
        exact absurd rfl ((fillStores_plain (hinv.fill_mem hpc)).1 true)
      | publish hpc =>
        have hheld : (s.submitter j).holds = some i := by simp [hpc, SubmitPc.holds]
        exact .inr ⟨rfl, hinv.submitter_workerPid hheld, _, hpc⟩
    · rcases htouch.cases_other hinv (fun k hk => ha ⟨k, hk⟩) with ⟨-, hready⟩ | ⟨x, pid, hreset⟩
      · exact absurd rfl (hready true)
      · obtain ⟨todo, hok⟩ := hreset.ok
        have hfirst := eq_resetStores hok
        simp [resetStores] at hfirst
  · by_cases hf : st = .ready false
    · subst hf
      cases h
    · rw [publishedAfter_of_ne ht hf] at h
      exact .inl h

/-- The process id in a slot is kept, cleared, or set by the worker that holds the slot. -/
lemma workerPid_step (hinv : s.Inv c) (hstep : s.step c a = some s') (i : ℕ) :
    (s'.slot i).workerPid = (s.slot i).workerPid ∨
      ((s'.slot i).workerPid = 0 ∧
        (s.published i = none ∨ ∃ j todo, s.submitter j = .fill i todo)) ∨
      ∃ q, a = .work q ∧ s.worker q = .storePid i ∧ (s'.slot i).workerPid = q := by
  rcases step_slot hstep i with ⟨hslot, -⟩ | ⟨st, htouch, hslot, -⟩
  · exact .inl (by rw [hslot])
  rw [hslot]
  by_cases hst : ∃ v, st = .workerPid v
  · obtain ⟨v, rfl⟩ := hst
    have hzero : ∀ todo pid w published, ResetOk pid w published (.workerPid v :: todo) →
        v = 0 ∧ published = none := by
      intro todo pid w published hok
      obtain ⟨hsuffix, -, hnone⟩ := hok
      simp only [resetStores, List.suffix_cons_iff, List.cons.injEq] at hsuffix
      simp at hsuffix
      obtain ⟨rfl, rfl⟩ := hsuffix
      exact ⟨rfl, hnone (by simp)⟩
    cases htouch with
    | @fill jobId _ todo hpc =>
      have hv := (fillStores_plain (hinv.fill_mem hpc)).2.2 v rfl
      exact .inr (.inl ⟨hv, .inr ⟨jobId, _, hpc⟩⟩)
    | publish hpc =>
      obtain ⟨seq, ⟨hst, -⟩ | ⟨hst, -⟩ | ⟨hst, -⟩⟩ := hinv.publish_shape hpc <;> cases hst
    | storePid hpc => exact .inr (.inr ⟨v, rfl, hpc, rfl⟩)
    | reset hpc =>
      obtain ⟨hv, hnone⟩ := hzero _ _ _ _ (hinv.reset_ok hpc rfl)
      exact .inr (.inl ⟨hv, .inl hnone⟩)
    | recover hpc =>
      obtain ⟨hv, hnone⟩ := hzero _ _ _ _ (hinv.recover_ok hpc rfl)
      exact .inr (.inl ⟨hv, .inl hnone⟩)
  · apply Or.inl
    cases st with
    | workerPid v => exact absurd ⟨v, rfl⟩ hst
    | _ => rfl

/-- A dead process never appears in a published slot again. -/
lemma Clean.step (hinv : s.Inv c) (hstep : s.step c a = some s') {pid i : ℕ} (hpos : 0 < pid)
    (hdead : s.alive pid = false) (h : s.Clean pid i) : s'.Clean pid i := by
  intro j hj
  rcases workerPid_step hinv hstep i with hsame | ⟨hzero, -⟩ | ⟨q, rfl, -, hq⟩
  · rw [hsame]
    rcases published_back hinv hstep hj with hold | ⟨-, hzero, -⟩
    · exact h j hold
    · omega
  · omega
  · rw [hq]
    rintro rfl
    have halive := (workStep_frame hstep).alive
    rw [hdead] at halive
    cases halive

lemma Processes.recovered_pos (h : s.Processes c) {pid : ℕ} (hpid : s.recovered pid = true) :
    0 < pid := by
  apply h.positive pid
  by_contra hno
  rw [not_eq_true] at hno
  rw [(h.unforked pid hno).2.2] at hpid
  cases hpid

lemma Processes.of_same (h : s.Processes c) (hinv : s.Inv c) (hstep : s.step c a = some s')
    (hworker : ∀ pid, s.worker pid = .exited → s'.worker pid = .exited)
    (hforked : s'.forked = s.forked) (halive : ∀ pid, s.alive pid = false → s'.alive pid = false)
    (hrecovered : s'.recovered = s.recovered) (hcurrent : s'.current = s.current)
    (hmonitor : s'.monitor = s.monitor)
    (hsubmitter : ∀ j i, (s'.submitter j).slot = some i → i < c.maxJobs) : s'.Processes c := by
  constructor
  · intro pid hpid
    rw [hforked] at hpid
    obtain ⟨hexited, hdead, hnot⟩ := h.unforked pid hpid
    exact ⟨hworker pid hexited, halive pid hdead, by rw [hrecovered, hnot]⟩
  · rw [hforked]
    exact h.positive
  · rw [hforked, hrecovered, hcurrent]
    exact h.current
  · rw [hforked, hcurrent]
    exact h.currentForked
  · intro pid hpid
    rw [hrecovered] at hpid
    exact halive pid (h.dead pid hpid)
  · intro pid hpid
    rw [hmonitor] at hpid
    obtain ⟨hf, hdead, hnot⟩ := h.monitored pid hpid
    exact ⟨by rw [hforked, hf], halive pid hdead, by rw [hrecovered, hnot]⟩
  · intro pid i todo hpid
    rw [hmonitor] at hpid
    exact hworker pid (h.taken pid i todo hpid)
  · exact hsubmitter
  · intro i j hj
    rcases published_back hinv hstep hj with hold | ⟨-, -, todo, hpc⟩
    · exact h.publishedBounded i j hold
    · exact h.bounded j i (by rw [hpc, SubmitPc.slot])
  · intro pid k hk i hi
    rw [hmonitor] at hk
    have hpid : s.monitor.pid = some pid := by
      cases hpc : s.monitor <;> rw [hpc] at hk <;> simp_all [MonitorPc.scanned, MonitorPc.pid]
    obtain ⟨hf, hdead, -⟩ := h.monitored pid hpid
    exact (h.scanned pid k hk i hi).step hinv hstep (h.positive pid hf) hdead
  · intro pid hpid i
    rw [hrecovered] at hpid
    have hdead := h.dead pid hpid
    exact (h.recovered pid hpid i).step hinv hstep (h.recovered_pos hpid) hdead

lemma submitStep_bounded {jobId : ℕ} (hstep : s.submitStep c jobId = some s')
    (h : ∀ j i, (s.submitter j).slot = some i → i < c.maxJobs) :
    ∀ j i, (s'.submitter j).slot = some i → i < c.maxJobs := by
  intro j i hi
  by_cases hj : j ≠ jobId
  · rw [(submitStep_frame hstep).others j hj] at hi
    exact h j i hi
  rw [not_not] at hj
  subst hj
  have hold := h j i
  unfold submitStep at hstep
  cases hpc : s.submitter j <;> simp only [hpc] at hstep <;> rw [hpc] at hold
  case scan k =>
    split_ifs at hstep with hk
    · cases hstep
      simp [setSubmitter, SubmitPc.slot] at hi
    · cases hstep
      simp [setSubmitter, SubmitPc.slot] at hi
    · cases hstep
      simp only [setSubmitter, update_self, SubmitPc.slot, Option.some.injEq] at hi
      omega
  case reserve k =>
    split_ifs at hstep
    · cases hstep
      simp [setSubmitter, SubmitPc.slot] at hi
    · cases hstep
      simp only [setSubmitter, update_self] at hi
      exact hold hi
  case fill k todo =>
    cases todo <;> (cases hstep; simp only [setSubmitter, update_self] at hi; exact hold hi)
  case track k =>
    split_ifs at hstep
    cases hstep
    simp only [setSubmitter, update_self] at hi
    exact hold hi
  case enqueue k =>
    cases hmutex : s.enqueueMutex <;> simp only [hmutex] at hstep
    · cases hstep
      simp only [setSubmitter, update_self] at hi
      exact hold hi
    · cases hstep
  case publish k todo =>
    cases todo with
    | nil =>
      cases hstep
      simp [setSubmitter, SubmitPc.slot] at hi
    | cons st todo =>
      cases hstep
      simp only [setSubmitter, update_self] at hi
      exact hold hi
  case done => cases hstep

lemma workStep_exited {pid q : ℕ} (hstep : s.workStep c pid = some s')
    (h : s.worker q = .exited) : s'.worker q = .exited := by
  by_cases hq : q = pid
  · subst hq
    simp only [workStep, h] at hstep
    split_ifs at hstep
  · rw [(workStep_frame hstep).others q hq, h]

lemma monitorStep_exited {q : ℕ} (hstep : s.monitorStep c = some s')
    (h : s.worker q = .exited) : s'.worker q = .exited :=
  ((monitorStep_frame hstep).worker q).elim (·.trans h) id

section

variable (h : s.Processes c)
include h

/-- A step of the monitor that does not end a recovery: the slots that it has scanned stay clean. -/
lemma Processes.advance (hinv : s.Inv c) (hstep : s.monitorStep c = some s')
    (hrecovered : s'.recovered = s.recovered) {pid k : ℕ} (hk : s.monitor.scanned = some (pid, k))
    (hnext : s'.monitor.scanned = some (pid, k) ∨
      s'.monitor.scanned = some (pid, k + 1) ∧ s'.Clean pid k)
    (htaken : ∀ pid i todo, s'.monitor = .reset pid i todo → s'.worker pid = .exited) :
    s'.Processes c := by
  have hframe := monitorStep_frame hstep
  have hstep' : s.step c .monitor = some s' := hstep
  have hpid := MonitorPc.pid_of_scanned hk
  obtain ⟨hforked, hdead, hnot⟩ := h.monitored pid hpid
  have hkeep : ∀ i, i < k → s'.Clean pid i := fun i hi =>
    (h.scanned pid k hk i hi).step hinv hstep' (h.positive pid hforked) hdead
  constructor
  · intro pid hpid
    rw [hframe.forked] at hpid
    obtain ⟨hexited, hdead, hnot⟩ := h.unforked pid hpid
    exact ⟨monitorStep_exited hstep hexited, by rw [hframe.alive, hdead], by rw [hrecovered, hnot]⟩
  · rw [hframe.forked]
    exact h.positive
  · rw [hframe.forked, hrecovered, hframe.current]
    exact h.current
  · rw [hframe.forked, hframe.current]
    exact h.currentForked
  · rw [hrecovered, hframe.alive]
    exact h.dead
  · intro q hq
    have hsame : s'.monitor.pid = some pid :=
      hnext.elim MonitorPc.pid_of_scanned fun hmore => MonitorPc.pid_of_scanned hmore.1
    cases hsame.symm.trans hq
    rw [hframe.forked, hframe.alive, hrecovered]
    exact ⟨hforked, hdead, hnot⟩
  · exact htaken
  · rw [hframe.submitter]
    exact h.bounded
  · intro i j hj
    rcases published_back hinv hstep' hj with hold | ⟨ha, -⟩
    · exact h.publishedBounded i j hold
    · cases ha
  · intro q k' hk' i hi
    rcases hnext with hsame | ⟨hmore, hclean⟩
    · cases hsame.symm.trans hk'
      exact hkeep i hi
    · cases hmore.symm.trans hk'
      rcases (Nat.lt_succ_iff_lt_or_eq).mp hi with hlt | rfl
      · exact hkeep i hlt
      · exact hclean
  · intro pid hrec i
    rw [hrecovered] at hrec
    exact (h.recovered pid hrec i).step hinv hstep' (h.recovered_pos hrec) (h.dead pid hrec)

/-- The end of a recovery: no slot is left with the id of the dead worker. -/
lemma Processes.of_recovered {pid : ℕ} (hpid : s.monitor.pid = some pid)
    (hclean : ∀ i, s.Clean pid i) :
    ({ s with monitor := .idle, recovered := update s.recovered pid true } : Server).Processes c := by
  obtain ⟨hforked, hdead, -⟩ := h.monitored pid hpid
  have hset : ∀ q, q ≠ pid → update s.recovered pid true q = s.recovered q := by
    intro q hq
    rw [update_of_ne hq]
  constructor
  · intro q hq
    have hne : q ≠ pid := by
      rintro rfl
      rw [hforked] at hq
      cases hq
    obtain ⟨hexited, halive, hrec⟩ := h.unforked q hq
    exact ⟨hexited, halive, (hset q hne).trans hrec⟩
  · exact h.positive
  · intro q hq
    show update s.recovered pid true q = true ∨ s.current (c.workerId q) = q
    by_cases hne : q = pid
    · exact .inl (by rw [hne, update_self])
    · rw [hset q hne]
      exact h.current q hq
  · exact h.currentForked
  · intro q hq
    by_cases hne : q = pid
    · rw [hne]
      exact hdead
    · exact h.dead q ((hset q hne).symm.trans hq)
  · intro q hq
    cases hq
  · intro q i' todo hq
    cases hq
  · exact h.bounded
  · exact h.publishedBounded
  · intro q k hk
    cases hk
  · intro q hq k
    by_cases hne : q = pid
    · rw [hne]
      exact hclean k
    · exact h.recovered q ((hset q hne).symm.trans hq) k

lemma monitorStep_processes (hinv : s.Inv c) (hstep : s.monitorStep c = some s') :
    s'.Processes c := by
  have hcopy := hstep
  unfold monitorStep at hstep
  cases hpc : s.monitor with
  | idle =>
    simp only [hpc] at hstep
    cases hstep
  | loadReady pid i =>
    have hk : s.monitor.scanned = some (pid, i) := by rw [hpc]; rfl
    simp only [hpc] at hstep
    split_ifs at hstep with hend hready
    · -- every slot was scanned
      cases hstep
      refine h.of_recovered (MonitorPc.pid_of_scanned hk) fun k j hj => ?_
      have hbound := h.publishedBounded k j hj
      exact h.scanned pid i hk k (by omega) j hj
    · cases hstep
      exact h.advance hinv hcopy rfl hk (.inl rfl) nofun
    · cases hstep
      refine h.advance hinv hcopy rfl hk (.inr ⟨rfl, fun j hj => ?_⟩) nofun
      have hj' : s.published i = some j := hj
      rw [not_eq_true, hinv.ready, hj'] at hready
      cases hready
  | loadClaimed pid i =>
    have hk : s.monitor.scanned = some (pid, i) := by rw [hpc]; rfl
    simp only [hpc] at hstep
    split_ifs at hstep with hclaimed
    · cases hstep
      exact h.advance hinv hcopy rfl hk (.inl rfl) nofun
    · cases hstep
      refine h.advance hinv hcopy rfl hk (.inr ⟨rfl, fun j hj => ?_⟩) nofun
      have hnone : s.holder i = none := by
        rw [not_eq_true, hinv.claimed] at hclaimed
        exact Option.isNone_iff_eq_none.mp (Option.isSome_eq_false_iff.mp hclaimed)
      have hpos := h.positive pid (h.monitored pid (MonitorPc.pid_of_scanned hk)).1
      show (s.slot i).workerPid ≠ pid
      rw [hinv.free i hnone]
      omega
  | loadPid pid i =>
    have hk : s.monitor.scanned = some (pid, i) := by rw [hpc]; rfl
    simp only [hpc] at hstep
    split_ifs at hstep with heq
    · cases hstep
      refine h.advance hinv hcopy rfl hk (.inl rfl) fun q i' todo hq => ?_
      cases hq
      exact update_self ..
    · cases hstep
      refine h.advance hinv hcopy rfl hk (.inl rfl) fun q i' todo hq => ?_
      cases hq
      exact update_self ..
    · cases hstep
      exact h.advance hinv hcopy rfl hk (.inr ⟨rfl, fun j _ => heq⟩) nofun
  | reset pid i todo =>
    cases todo with
    | nil =>
      simp only [hpc] at hstep
      split_ifs at hstep
      cases hstep
      exact h.advance hinv hcopy rfl (by rw [hpc]; rfl) (.inl rfl) nofun
    | cons st todo =>
      simp only [hpc] at hstep
      cases hstep
      have htaken : ∀ q i' todo', MonitorPc.reset pid i todo = .reset q i' todo' →
          s.worker q = .exited := fun q i' todo' hq => by
        cases hq
        exact h.taken _ _ _ hpc
      by_cases hlater : Store.ready false ∈ todo
      · have hk : s.monitor.scanned = some (pid, i) := by simp [hpc, MonitorPc.scanned, hlater]
        refine h.advance hinv hcopy rfl hk (.inl ?_) htaken
        · simp [MonitorPc.scanned, hlater]
      by_cases hst : st = .ready false
      · subst hst
        have hk : s.monitor.scanned = some (pid, i) := by simp [hpc, MonitorPc.scanned]
        refine h.advance hinv hcopy rfl hk (.inr ⟨?_, ?_⟩) htaken
        · simp [MonitorPc.scanned, hlater]
        · intro j hj
          simp [put, publishedAfter] at hj
      · have hk : s.monitor.scanned = some (pid, i + 1) := by
          simp [hpc, MonitorPc.scanned, hlater, Ne.symm hst]
        refine h.advance hinv hcopy rfl hk (.inl ?_) htaken
        · simp [MonitorPc.scanned, hlater]

lemma spawn_processes {pid : ℕ} (hstep : s.spawn c pid = some s') :
    s'.Processes c := by
  obtain ⟨⟨hexited, hnew, hpos, hold⟩, rfl⟩ := spawn_cases hstep
  obtain ⟨-, hdead, hnot⟩ := h.unforked pid hnew
  have hforked : ∀ q, update s.forked pid true q = true ↔ q = pid ∨ s.forked q = true := by
    intro q
    by_cases hq : q = pid
    · simp [hq]
    · simp [hq]
  have hothers : ∀ q, s.forked q = true → q ≠ pid := by
    rintro q hq rfl
    rw [hnew] at hq
    cases hq
  constructor
  · intro q hq
    have hq' : ¬ (q = pid ∨ s.forked q = true) := by
      intro hor
      have hnow := (hforked q).mpr hor
      exact Bool.false_ne_true (hq.symm.trans hnow)
    rw [not_or, not_eq_true] at hq'
    obtain ⟨h1, h2, h3⟩ := h.unforked q hq'.2
    refine ⟨?_, ?_, h3⟩
    · simp only [setWorker, update_of_ne hq'.1, h1]
    · simp only [update_of_ne hq'.1, h2]
  · intro q hq
    rcases (hforked q).mp hq with rfl | hq
    · exact hpos
    · exact h.positive q hq
  · intro q hq
    rcases (hforked q).mp hq with rfl | hq
    · exact .inr (by simp only [update_self])
    · rcases h.current q hq with hrec | hcurrent
      · exact .inl hrec
      · by_cases hidx : c.workerId q = c.workerId pid
        · -- the new process replaces this one, which was recovered
          have hqold : s.current (c.workerId pid) = q := by rw [← hidx, hcurrent]
          rw [hqold] at hold
          rcases hold with hzero | hrec
          · have hqpos := h.positive q hq
            omega
          · exact .inl hrec
        · exact .inr (by simp only [update_of_ne hidx, hcurrent])
  · intro idx hidx
    by_cases heq : idx = c.workerId pid
    · subst heq
      simp only [update_self, and_self]
    · simp only [update_of_ne heq] at hidx ⊢
      obtain ⟨h1, h2⟩ := h.currentForked idx hidx
      exact ⟨(hforked _).mpr (.inr h1), h2⟩
  · intro q hq
    have hq' : s.recovered q = true := hq
    have hne : q ≠ pid := by
      rintro rfl
      rw [hnot] at hq'
      cases hq'
    simp only [update_of_ne hne, h.dead q hq']
  · intro q hq
    obtain ⟨h1, h2, h3⟩ := h.monitored q hq
    refine ⟨(hforked q).mpr (.inr h1), ?_, h3⟩
    simp only [update_of_ne (hothers q h1), h2]
  · intro q i todo hq
    have hq' : s.monitor = .reset q i todo := hq
    have hmon : s.monitor.pid = some q := by rw [hq', MonitorPc.pid]
    obtain ⟨h1, -⟩ := h.monitored q hmon
    simp only [setWorker, update_of_ne (hothers q h1)]
    exact h.taken q i todo hq'
  · exact h.bounded
  · exact h.publishedBounded
  · exact h.scanned
  · exact h.recovered

lemma startRecovery_processes {pid : ℕ} (hstep : s.startRecovery c pid = some s') :
    s'.Processes c := by
  simp only [startRecovery] at hstep
  split_ifs at hstep with hguard
  obtain ⟨-, hdead, hnot, hpos, hcurrent⟩ := hguard
  cases hstep
  have hforked : s.forked pid = true := by
    have hidx := h.currentForked (c.workerId pid)
    rw [hcurrent] at hidx
    exact (hidx hpos).1
  refine ⟨h.unforked, h.positive, h.current, h.currentForked, h.dead, ?_, ?_, h.bounded,
    h.publishedBounded, ?_, h.recovered⟩
  · intro q hq
    cases hq
    exact ⟨hforked, hdead, hnot⟩
  · intro q i todo hq
    cases hq
  · intro q k hk i hi
    cases hk
    omega

lemma Processes.of_cancel (hinv : s.Inv c) (hstep : s.step c a = some s')
    (hframe : CancelFrame c s s' a) : s'.Processes c := by
  refine h.of_same hinv hstep ?_ hframe.forked hframe.dead hframe.recovered hframe.current
    hframe.monitor ?_
  · rw [hframe.worker]
    exact fun _ => id
  · rw [hframe.submitter]
    exact h.bounded

lemma step_processes (hinv : s.Inv c) (hstep : s.step c a = some s') :
    s'.Processes c := by
  cases a with
  | submit jobId =>
    have hframe := submitStep_frame hstep
    refine h.of_same hinv hstep ?_ hframe.forked ?_ hframe.recovered hframe.current hframe.monitor
      (submitStep_bounded hstep h.bounded)
    · rw [hframe.worker]
      exact fun _ hexited => hexited
    · rw [hframe.alive]
      exact fun _ hdead => hdead
  | work pid =>
    have hframe := workStep_frame hstep
    refine h.of_same hinv hstep (fun q => workStep_exited hstep) hframe.forked ?_ hframe.recovered
      hframe.current hframe.monitor ?_
    · rw [hframe.stillAlive]
      exact fun _ hdead => hdead
    · rw [hframe.submitter]
      exact h.bounded
  | monitor => exact monitorStep_processes h hinv hstep
  | startRecovery pid => exact startRecovery_processes h hstep
  | cancel => exact h.of_cancel hinv hstep (cancelStep_frame hstep)
  | startCancel jobId => exact h.of_cancel hinv hstep (startCancel_frame hstep)
  | crash pid => exact h.of_cancel hinv hstep (crash_frame hstep)
  | dispatch status =>
    have hframe := dispatchStep_frame hstep
    refine h.of_same hinv hstep ?_ hframe.forked hframe.dead hframe.recovered hframe.current
      hframe.monitor ?_
    · rw [hframe.worker]
      exact fun _ => id
    · rw [hframe.submitter]
      exact h.bounded
  | erasePending jobId =>
    have hcopy := hstep
    cases hstep
    exact h.of_same hinv hcopy (fun _ he => he) rfl (fun _ hd => hd) rfl rfl rfl h.bounded
  | spawn pid => exact spawn_processes h hstep

end

lemma run_processes {as : List Action} (hrun : initial.run c as = some s) :
    s.Inv c ∧ s.Processes c := by
  refine invariant_of_run (I := fun s => s.Inv c ∧ s.Processes c) ?_
    ⟨initial_inv, initial_processes⟩ hrun
  rintro s a s' ⟨hinv, hproc⟩ hstep
  exact ⟨step_inv hinv hstep, step_processes hproc hinv hstep⟩

end Server

end CuOpt.Grpc
