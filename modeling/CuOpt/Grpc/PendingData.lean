import CuOpt.Grpc.JobIsolation

/-! The request data that waits to be sent: an entry of the two maps is there only as long as its job
has a slot, unless the slot is given up before the data was taken. -/

namespace CuOpt.Grpc

open Function
open List (replicate)
open Option (any_eq_true)

def SubmitPc.storing : SubmitPc → Bool
  | .track _ | .enqueue _ => true
  | .publish _ todo => decide (Store.ready true ∈ todo)
  | .scan _ | .reserve _ | .fill _ _ | .done _ => false

def SubmitPc.stored : SubmitPc → Bool
  | .scan _ | .reserve _ | .fill _ _ => false
  | .track _ | .enqueue _ | .publish _ _ | .done _ => true

namespace Server

variable (c : ServerConfig)

/-- No worker gives up a cancelled job, or goes on from the read, before the data was taken, and no
chunked job is taken from a dead worker before that. -/
def TakesData (s : Server) : Action → Bool
  | .work pid =>
    match s.worker pid with
    | .checkCancelled i jobId => !((s.slot i).cancelled && s.pending jobId)
    | .read _ jobId => !s.pending jobId
    | _ => true
  | .monitor =>
    match s.monitor with
    | .loadPid pid i => !(decide ((s.slot i).workerPid = pid) &&
        (c.request (s.slot i).jobId).isChunked && s.pending (s.slot i).jobId)
    | _ => true
  | _ => true

/-- The data of a job is taken before its slot is given up, and no submission reserves a published
slot. -/
def TakesInTurn (s : Server) (a : Action) : Prop :=
  s.ReservesUnpublished a ∧ s.TakesData c a = true

instance (s : Server) (a : Action) : Decidable (s.TakesInTurn c a) :=
  inferInstanceAs (Decidable (_ ∧ _))

structure Sent (s : Server) : Prop where
  waiting : ∀ j, s.pending j = true → (s.submitter j).stored = true ∧ ∀ index, j ∉ s.pipe index
  piped : ∀ index, ∀ d ∈ s.pipe index, (s.submitter d).stored = true
  hand : ∀ i j index, s.dispatcher = .send i j index →
    s.pending j = false ∧ (s.submitter j).stored = true ∧ ∀ index', j ∉ s.pipe index'

/-- A job with an entry has its slot, and the job of a slot that is solved or about to be reset has
none. -/
structure Released (s : Server) : Prop where
  entries : ∀ j, s.pending j = true → (s.submitter j).storing = true ∨ ∃ i, s.published i = some j
  copied : ∀ pid i id, (s.worker pid = .checkCancelled i id ∨ s.worker pid = .read i id) →
    s.published i = some id
  solving : ∀ pid i id data, s.worker pid = .solve i id data →
    s.published i = some id ∧ s.pending id = false
  dropped : ∀ pid i j, s.worker pid = .reset i resetStores → s.published i = some j →
    s.pending j = false
  recovered : ∀ pid i j, s.monitor = .reset pid i resetStores → s.published i = some j →
    s.pending j = false

variable {c} {s s' : Server} {a : Action} {i j : ℕ}

lemma initial_sent : initial.Sent := by
  constructor
  case waiting => exact nofun
  case piped => exact nofun
  case hand => exact nofun

lemma initial_released : initial.Released := by
  constructor
  case entries => exact nofun
  case copied => exact fun pid i id h => h.elim nofun nofun
  case solving => exact nofun
  case dropped | recovered => exact nofun

lemma step_pending (hstep : s.step c a = some s') (h : s'.pending j = true) :
    s.pending j = true ∨ (a = .submit j ∧ ∃ k, s.submitter j = .fill k []) := by
  cases a with
  | submit jobId =>
    rcases (submitStep_frame hstep).pending j h with hold | ⟨rfl, hfill⟩
    · exact .inl hold
    · exact .inr ⟨rfl, hfill⟩
  | work pid => exact .inl (by rw [← (workStep_frame hstep).pending, h])
  | monitor => exact .inl ((monitorStep_frame hstep).pending j h)
  | cancel => exact .inl (by rw [← (cancelStep_frame hstep).pending, h])
  | dispatch status =>
    apply Or.inl
    cases (dispatchStep_frame hstep).sends with
    | same _ hpending _ => rwa [← hpending]
    | @take _ jobId _ hj =>
      by_cases heq : j = jobId
      · rwa [heq]
      · simpa [update_of_ne heq] using h
    | send => exact h
  | erasePending jobId =>
    cases hstep
    by_cases hj : j = jobId
    · simp [hj] at h
    · apply Or.inl
      simpa [update_of_ne hj] using h
  | crash pid =>
    cases hstep
    exact .inl h
  | startRecovery pid => exact .inl ((startRecovery_frame hstep).pending j h)
  | startCancel jobId => exact .inl ((startCancel_frame hstep).pending ▸ h)
  | spawn pid =>
    obtain ⟨-, rfl⟩ := spawn_cases hstep
    exact .inl h

lemma stored_step (hstep : s.step c a = some s') (h : (s.submitter j).stored = true) :
    (s'.submitter j).stored = true := by
  by_cases ha : a = .submit j
  · subst ha
    simp only [step, submitStep] at hstep
    cases hpc : s.submitter j <;> rw [hpc] at h <;> simp only [hpc] at hstep
    case track k =>
      split_ifs at hstep
      cases hstep
      simp [setSubmitter, SubmitPc.stored]
    case enqueue k =>
      cases hmutex : s.enqueueMutex <;> simp only [hmutex] at hstep <;> cases hstep
      simp [setSubmitter, SubmitPc.stored]
    case publish k todo => cases todo <;> (cases hstep; simp [setSubmitter, SubmitPc.stored])
    case done => cases hstep
    all_goals cases h
  · rw [submitter_stays hstep ha, h]

lemma not_pending_stays (hstep : s.step c a = some s') (hj : (s.submitter j).stored = true)
    (h : s.pending j = false) : s'.pending j = false := by
  by_contra htrue
  rw [Bool.not_eq_false] at htrue
  rcases step_pending hstep htrue with hold | ⟨-, k, hpc⟩
  · rw [h] at hold
    cases hold
  · rw [hpc] at hj
    cases hj

lemma stored_of_past {pc : SubmitPc} (h : pc.past = true) : pc.stored = true := by
  cases pc with
  | scan | reserve | fill => cases h
  | track | enqueue | publish | done => rfl

/-- Bytes come to a pipe from the hand of the dispatch loop. -/
lemma step_pipe (hstep : s.step c a = some s') {index d : ℕ} (h : d ∈ s'.pipe index) :
    d ∈ s.pipe index ∨
      ((∃ i, s.dispatcher = .send i d index) ∧ ∀ i j index', s'.dispatcher ≠ .send i j index') := by
  cases a with
  | submit jobId => exact .inl ((submitStep_frame hstep).pipe ▸ h)
  | monitor => exact .inl ((monitorStep_frame hstep).pipe ▸ h)
  | cancel => exact .inl ((cancelStep_frame hstep).pipe ▸ h)
  | work pid =>
    apply Or.inl
    cases (workStep_frame hstep).reads with
    | same hpipe _ => rwa [← hpipe]
    | read _ hpipe =>
      by_cases hindex : index = c.workerId pid
      · subst hindex
        simp only [update_self] at h
        rw [hpipe]
        exact List.mem_cons_of_mem _ h
      · simpa only [update_of_ne hindex] using h
  | dispatch status =>
    cases (dispatchStep_frame hstep).sends with
    | same hpipe => exact .inl (hpipe ▸ h)
    | take => exact .inl h
    | @send k jobId index' hpc =>
      by_cases hindex : index = index'
      · subst hindex
        simp only [update_self, List.mem_append, List.mem_singleton] at h
        rcases h with hold | rfl
        · exact .inl hold
        · exact .inr ⟨⟨k, hpc⟩, by simp⟩
      · simp only [update_of_ne hindex] at h
        exact .inl h
  | startRecovery pid => exact .inl ((startRecovery_frame hstep).pipe ▸ h)
  | startCancel jobId => exact .inl ((startCancel_frame hstep).pipe ▸ h)
  | erasePending jobId | crash pid =>
    cases hstep
    exact .inl h
  | spawn pid =>
    obtain ⟨-, rfl⟩ := spawn_cases hstep
    apply Or.inl
    by_cases hindex : index = c.workerId pid
    · simp [hindex] at h
    · simpa only [update_of_ne hindex] using h

/-- The dispatch loop has in its hand what it took from the entries. -/
lemma step_hand (hstep : s.step c a = some s') {index : ℕ} (h : s'.dispatcher = .send i j index) :
    s.dispatcher = .send i j index ∨
      (s.pending j = true ∧ s'.pending j = false ∧ s'.pipe = s.pipe ∧ s'.submitter = s.submitter) := by
  by_cases ha : ∃ status, a = .dispatch status
  · obtain ⟨status, rfl⟩ := ha
    cases (dispatchStep_frame hstep).sends with
    | same _ _ hsend => exact absurd h (hsend i j index)
    | take hj =>
      obtain ⟨rfl, rfl, rfl⟩ := DispatchPc.send.inj h
      exact .inr ⟨hj, by simp, rfl, rfl⟩
    | send => cases h
  · exact .inl (((step_threads hstep).2.1 fun status hs => ha ⟨status, hs⟩) ▸ h)

lemma step_sent (h : s.Sent) (hstep : s.step c a = some s') : s'.Sent := by
  constructor
  case waiting =>
    intro j hj
    rcases step_pending hstep hj with hold | ⟨rfl, k, hpc⟩
    · obtain ⟨hstored, hnone⟩ := h.waiting j hold
      refine ⟨stored_step hstep hstored, ?_⟩
      intro index hmem
      rcases step_pipe hstep hmem with hbefore | ⟨⟨i, hsend⟩, -⟩
      · exact hnone index hbefore
      · rw [(h.hand i j index hsend).1] at hold
        cases hold
    · refine ⟨?_, ?_⟩
      · simp only [step, submitStep, hpc] at hstep
        cases hstep
        simp [setSubmitter, SubmitPc.stored]
      · intro index hmem
        rw [(submitStep_frame hstep).pipe] at hmem
        have hstored := h.piped index j hmem
        rw [hpc] at hstored
        cases hstored
  case piped =>
    intro index d hd
    rcases step_pipe hstep hd with hbefore | ⟨⟨i, hsend⟩, -⟩
    · exact stored_step hstep (h.piped index d hbefore)
    · exact stored_step hstep (h.hand i d index hsend).2.1
  case hand =>
    intro i j index hsend
    rcases step_hand hstep hsend with hold | ⟨hpending, hnot, hpipe, hsubmitter⟩
    · obtain ⟨hnot, hstored, hnone⟩ := h.hand i j index hold
      refine ⟨not_pending_stays hstep hstored hnot, stored_step hstep hstored, ?_⟩
      intro index' hmem
      rcases step_pipe hstep hmem with hbefore | ⟨-, hgone⟩
      · exact hnone index' hbefore
      · exact hgone i j index hsend
    · obtain ⟨hstored, hnone⟩ := h.waiting j hpending
      rw [hsubmitter, hpipe]
      exact ⟨hnot, hstored, hnone⟩

lemma stillHeld_resetStores (st : Store) : stillHeld (st :: resetStores) = true := by
  simp [stillHeld, resetStores]

lemma not_resetOk_cons {pid w : ℕ} {published : Option ℕ} {st : Store} :
    ¬ResetOk pid w published (st :: resetStores) := by
  intro hok
  have hlength := hok.1.length_le
  simp [resetStores] at hlength

/-- What a slot has published while a party held it was published before. -/
lemma published_before (hinv : s.Inv c) (hstep : s.step c a = some s') {x : Party}
    (hx : s.holds x = some i) (hne : ∀ k, x ≠ .submitter k) (hj : s'.published i = some j) :
    s.published i = some j := by
  rcases published_back hinv hstep hj with hold | ⟨-, -, todo, hpc⟩
  · exact hold
  · have hholds : s.holds (.submitter j) = some i := by simp [holds, hpc, SubmitPc.holds]
    exact absurd (hinv.eq_of_holds hx hholds) (hne j)

lemma step_solving (h : s.Released) (hinv : s.Inv c) (hfits : s.Fits c)
    (ha : s.TakesInTurn c a) (hstep : s.step c a = some s') {pid id data : ℕ}
    (hpc : s'.worker pid = .solve i id data) :
    s'.published i = some id ∧ s'.pending id = false := by
  have hkeep : s.holds (.worker pid) = some i → s.worker pid ≠ .reset i resetStores →
      s.published i = some id → s.pending id = false →
      s'.published i = some id ∧ s'.pending id = false := by
    intro hheld hne hj hnot
    exact ⟨published_held hinv hfits hstep hheld hne hj,
      not_pending_stays hstep (stored_of_past (hinv.past i id hj)) hnot⟩
  by_cases hown : a = .work pid
  · subst hown
    have hmoves := (workStep_frame hstep).moves
    rw [hpc] at hmoves
    cases hmoves with
    | read hold =>
      have htakes := ha.2
      simp only [TakesData, hold, Bool.not_eq_true'] at htakes
      have hheld : s.holds (.worker pid) = some i := by simp only [holds, hold, WorkerPc.holds]
      exact hkeep hheld (by simp [hold]) (h.copied pid i id (.inr hold)) htakes
    | before hbefore => exact absurd rfl (hbefore.2.1 i id data)
  · rcases step_worker hstep hown with heq | heq | heq
    · rw [heq] at hpc
      obtain ⟨hj, hnot⟩ := h.solving pid i id data hpc
      have hheld : s.holds (.worker pid) = some i := by simp only [holds, hpc, WorkerPc.holds]
      exact hkeep hheld (by simp [hpc]) hj hnot
    · rw [heq] at hpc
      cases hpc
    · rw [heq] at hpc
      cases hpc

/-- The data of the job whose slot a worker starts to reset was taken. -/
lemma work_dropped (h : s.Released) (hinv : s.Inv c) {pid : ℕ}
    (ha : s.TakesInTurn c (.work pid)) (hstep : s.workStep c pid = some s')
    (hpc : s'.worker pid = .reset i resetStores) (hj : s.published i = some j) :
    s.pending j = false := by
  have htakes := ha.2
  have hmoves := (workStep_frame hstep).moves
  rw [hpc] at hmoves
  cases hmoves with
  | @cancelled _ id hold hflag =>
    obtain rfl : id = j := Option.some.inj ((h.copied pid i id (.inl hold)).symm.trans hj)
    simpa [TakesData, hold, hflag] using htakes
  | @refused _ id hold =>
    obtain rfl : id = j := Option.some.inj ((h.copied pid i id (.inr hold)).symm.trans hj)
    simpa [TakesData, hold] using htakes
  | @solved _ id data hold =>
    obtain ⟨hid, hnot⟩ := h.solving pid i id data hold
    obtain rfl : id = j := Option.some.inj (hid.symm.trans hj)
    exact hnot
  | @store _ st _ hold =>
    have hheld : s.holds (.worker pid) = some i := by
      simp [holds, hold, WorkerPc.holds, stillHeld_resetStores st]
    have hknown := hinv.known _ _ hheld
    simp only [localOk, hold, WorkerPc.Ok] at hknown
    exact absurd hknown not_resetOk_cons
  | before hbefore => exact absurd rfl (hbefore.2.2 i resetStores)

lemma step_dropped (h : s.Released) (hinv : s.Inv c) (ha : s.TakesInTurn c a)
    (hstep : s.step c a = some s') {pid : ℕ} (hpc : s'.worker pid = .reset i resetStores)
    (hj : s'.published i = some j) : s'.pending j = false := by
  have hkeep : s.published i = some j → s.pending j = false → s'.pending j = false := by
    intro hold hnot
    exact not_pending_stays hstep (stored_of_past (hinv.past i j hold)) hnot
  by_cases hown : a = .work pid
  · subst hown
    have hold : s.published i = some j := by
      rcases published_back hinv hstep hj with hold | ⟨hne, -⟩
      · exact hold
      · cases hne
    exact hkeep hold (work_dropped h hinv ha hstep hpc hold)
  · have hworker : s.worker pid = .reset i resetStores := by
      rcases step_worker hstep hown with heq | heq | heq
      · rw [← heq, hpc]
      · rw [heq] at hpc
        cases hpc
      · rw [heq] at hpc
        cases hpc
    have hheld : s.holds (.worker pid) = some i := by
      simp only [holds, hworker, WorkerPc.holds]
      rfl
    have hold := published_before hinv hstep hheld (by simp) hj
    exact hkeep hold (h.dropped pid i j hworker hold)

lemma step_monitor (hstep : s.step c a = some s') (ha : a ≠ .monitor) :
    s'.monitor = s.monitor ∨ ∃ pid, s'.monitor = .loadReady pid 0 := by
  cases a with
  | submit jobId => exact .inl (submitStep_frame hstep).monitor
  | work pid => exact .inl (workStep_frame hstep).monitor
  | monitor => exact absurd rfl ha
  | cancel => exact .inl (cancelStep_frame hstep).monitor
  | dispatch status => exact .inl (dispatchStep_frame hstep).monitor
  | startRecovery pid =>
    simp only [step, startRecovery] at hstep
    split_ifs at hstep
    cases hstep
    exact .inr ⟨pid, rfl⟩
  | startCancel jobId => exact .inl (startCancel_frame hstep).monitor
  | spawn pid =>
    obtain ⟨-, rfl⟩ := spawn_cases hstep
    exact .inl rfl
  | erasePending jobId | crash pid =>
    cases hstep
    exact .inl rfl

/-- The data of the job whose slot the monitor starts to reset is erased, or was taken. -/
lemma monitor_recovered (hinv : s.Inv c) (hfits : s.Fits c) (ha : s.TakesInTurn c .monitor)
    {pid : ℕ} (hstep : s.monitorStep c = some s') (hpc : s'.monitor = .reset pid i resetStores)
    (hj : s.published i = some j) : s'.pending j = false := by
  have htakes := ha.2
  have hid : (s.slot i).jobId = j := congrArg Prod.fst (hfits.published i j hj)
  unfold monitorStep at hstep
  cases hold : s.monitor <;> simp only [hold] at hstep
  case idle => cases hstep
  case loadPid q k =>
    split_ifs at hstep with hq hchunked
    · cases hstep
      obtain ⟨rfl, rfl, -⟩ := MonitorPc.reset.inj hpc
      rw [hid] at hchunked
      simpa [TakesData, hold, hq, hid, hchunked] using htakes
    · cases hstep
      obtain ⟨rfl, rfl, -⟩ := MonitorPc.reset.inj hpc
      simp only [hid, update_self]
    · cases hstep
      cases hpc
  case reset q k todo =>
    cases todo with
    | nil =>
      split_ifs at hstep
      cases hstep
      cases hpc
    | cons st todo =>
      cases hstep
      obtain ⟨rfl, rfl, rfl⟩ := MonitorPc.reset.inj hpc
      have hheld : s.holds .monitor = some k := by
        simp [holds, hold, MonitorPc.holds, stillHeld_resetStores st]
      have hknown := hinv.known _ _ hheld
      simp only [localOk, hold, MonitorPc.Ok] at hknown
      exact absurd hknown not_resetOk_cons
  all_goals split_ifs at hstep <;> (cases hstep; cases hpc)

lemma step_recovered (h : s.Released) (hinv : s.Inv c) (hfits : s.Fits c)
    (ha : s.TakesInTurn c a) (hstep : s.step c a = some s') {pid : ℕ}
    (hpc : s'.monitor = .reset pid i resetStores) (hj : s'.published i = some j) :
    s'.pending j = false := by
  by_cases hown : a = .monitor
  · subst hown
    have hold : s.published i = some j := by
      rcases published_back hinv hstep hj with hold | ⟨hne, -⟩
      · exact hold
      · cases hne
    exact monitor_recovered hinv hfits ha hstep hpc hold
  · have hmonitor : s.monitor = .reset pid i resetStores := by
      rcases step_monitor hstep hown with heq | ⟨q, heq⟩
      · rw [← heq, hpc]
      · rw [heq] at hpc
        cases hpc
    have hheld : s.holds .monitor = some i := by
      simp only [holds, hmonitor, MonitorPc.holds]
      rfl
    have hold := published_before hinv hstep hheld (by simp) hj
    exact not_pending_stays hstep (stored_of_past (hinv.past i j hold))
      (h.recovered pid i j hmonitor hold)

lemma storing_step (hstep : s.step c a = some s') (h : (s.submitter j).storing = true) :
    (s'.submitter j).storing = true ∨ ∃ i, s'.published i = some j := by
  by_cases ha : a = .submit j
  · subst ha
    simp only [step, submitStep] at hstep
    cases hpc : s.submitter j <;> rw [hpc] at h <;> simp only [hpc] at hstep
    case track k =>
      split_ifs at hstep
      cases hstep
      exact .inl (by simp [setSubmitter, SubmitPc.storing])
    case enqueue k =>
      cases hmutex : s.enqueueMutex <;> simp only [hmutex] at hstep
      · cases hstep
        apply Or.inl
        simp [setSubmitter, SubmitPc.storing, publishStores]
      · cases hstep
    case publish k todo =>
      cases todo with
      | nil => cases h
      | cons st todo =>
        cases hstep
        by_cases hst : st = .ready true
        · subst hst
          refine .inr ⟨k, ?_⟩
          simp [setSubmitter, put, publishedAfter]
        · apply Or.inl
          simp only [SubmitPc.storing, List.mem_cons, decide_eq_true_iff] at h
          simpa [setSubmitter, SubmitPc.storing] using h.resolve_left (Ne.symm hst)
    all_goals cases h
  · exact .inl (by rw [submitter_stays hstep ha, h])

lemma step_entries (h : s.Released) (hinv : s.Inv c) (hfits : s.Fits c)
    (hstep : s.step c a = some s') (hj : s'.pending j = true) :
    (s'.submitter j).storing = true ∨ ∃ i, s'.published i = some j := by
  rcases step_pending hstep hj with hold | ⟨rfl, k, hpc⟩
  · rcases h.entries j hold with hstoring | ⟨i, hi⟩
    · exact storing_step hstep hstoring
    · rcases step_published hinv hfits hstep hi with hsame | ⟨pid, hstarts, -⟩
      · exact .inr ⟨i, hsame⟩
      · -- the slot is reset only once the entry is gone
        have hnot : s.pending j = false := by
          rcases freedSlot_cases (freedSlot_of_startsReset hstarts) with ⟨q, -, hq⟩ | ⟨-, q, hq⟩
          · exact h.dropped q i j hq hi
          · exact h.recovered q i j hq hi
        rw [hnot] at hold
        cases hold
  · simp only [step, submitStep, hpc] at hstep
    cases hstep
    apply Or.inl
    simp [setSubmitter, SubmitPc.storing]

lemma step_released (h : s.Released) (hinv : s.Inv c) (hfits : s.Fits c)
    (ha : s.TakesInTurn c a) (hstep : s.step c a = some s') : s'.Released where
  entries _ := step_entries h hinv hfits hstep
  copied _ _ _ := step_copied hinv hfits hstep h.copied
  solving _ _ _ _ := step_solving h hinv hfits ha hstep
  dropped _ _ _ := step_dropped h hinv ha hstep
  recovered _ _ _ := step_recovered h hinv hfits ha hstep

/-- Where the data of a job is taken before its slot is given up, an entry is of a job that is about to
be published or has its slot, whose bytes are in no pipe and which no worker solves. -/
theorem request_data_released (c : ServerConfig) (as : List Action) (s : Server)
    (hrun : initial.run c as = some s) (hcond : Along (step c) (TakesInTurn c) initial as) (j : ℕ)
    (hj : s.pending j = true) : ((s.submitter j).storing = true ∨ ∃ i, s.published i = some j) ∧
    (∀ index, j ∉ s.pipe index) ∧ ∀ pid i data, s.worker pid ≠ .solve i j data := by
  have h : s.Inv c ∧ s.Fits c ∧ s.Sent ∧ s.Released := by
    refine invariant_of_along (I := fun s => s.Inv c ∧ s.Fits c ∧ s.Sent ∧ s.Released) ?_
      ⟨initial_inv, initial_fits, initial_sent, initial_released⟩ hcond hrun
    rintro s a s' ⟨hinv, hfits, hsent, hreleased⟩ ha hstep
    exact ⟨step_inv hinv hstep, step_fits hfits hinv ha.1 hstep, step_sent hsent hstep,
      step_released hreleased hinv hfits ha hstep⟩
  obtain ⟨-, -, hsent, hreleased⟩ := h
  refine ⟨hreleased.entries j hj, (hsent.waiting j hj).2, ?_⟩
  intro pid i data hpc
  rw [(hreleased.solving pid i j data hpc).2] at hj
  cases hj

/-- Job 1 is submitted and claimed, and its data waits to be sent. -/
theorem request_data_released_one : ∃ s, initial.run oneSlot (replicate 18 (.submit 1) ++
      .spawn 7 :: replicate 11 (.work 7)) = some s ∧ s.pending 1 = true ∧
    ∀ index, 1 ∉ s.pipe index := by
  have hany : (initial.run oneSlot (replicate 18 (.submit 1) ++
      .spawn 7 :: replicate 11 (.work 7))).any (fun s => s.pending 1) = true := by
    decide +kernel
  obtain ⟨s, hrun, hs⟩ := (any_eq_true _ _).mp hany
  have hcond : Along (step oneSlot) (TakesInTurn oneSlot) initial (replicate 18 (.submit 1) ++
      .spawn 7 :: replicate 11 (.work 7)) := by
    decide +kernel
  exact ⟨s, hrun, hs, (request_data_released oneSlot _ s hrun hcond 1 hs).2.1⟩

/-- A worker that was recovered is dead, and no published job has its process. -/
theorem recovered_clean {as : List Action} (hrun : initial.run c as = some s) {pid : ℕ}
    (hrecovered : s.recovered pid = true) :
    s.alive pid = false ∧ ∀ i j, s.published i = some j → (s.slot i).workerPid ≠ pid := by
  have h := run_processes hrun
  exact ⟨h.2.dead pid hrecovered, h.2.recovered pid hrecovered⟩

theorem recovered_clean_one : ∃ s, initial.run oneSlot (replicate 18 (.submit 1) ++
      .spawn 7 :: replicate 11 (.work 7) ++ .crash 7 :: .startRecovery 7 :: replicate 14 .monitor) =
      some s ∧ s.alive 7 = false := by
  have hany : (initial.run oneSlot (replicate 18 (.submit 1) ++ .spawn 7 :: replicate 11 (.work 7) ++
      .crash 7 :: .startRecovery 7 :: replicate 14 .monitor)).any (fun s => s.recovered 7) = true := by
    decide +kernel
  obtain ⟨s, hrun, hs⟩ := (any_eq_true _ _).mp hany
  exact ⟨s, hrun, (recovered_clean hrun hs).1⟩

/-- The job is out of the one slot, and its entry is still there. -/
lemma no_slot_of_reset {as : List Action} (hmax : c.maxJobs = 1) (hrun : initial.run c as = some s)
    (hsubmit : s.submitter j = .done true) (hreset : s.published 0 = none) :
    ¬((s.submitter j).storing = true ∨ ∃ i, s.published i = some j) := by
  have h := run_processes hrun
  rintro (hstoring | ⟨i, hi⟩)
  · rw [hsubmit] at hstoring
    cases hstoring
  · have hbound := h.2.publishedBounded i j hi
    obtain rfl : i = 0 := by omega
    rw [hreset] at hi
    cases hi

def chunkedSlot : ServerConfig := ⟨1, fun j => ⟨0, j, true, true⟩, fun _ => 0⟩

/-- Job 1 is cancelled before a worker claims it, and the worker that sees the flag resets the slot;
or the job is chunked, and the worker that claimed it dies before its data is sent. -/
theorem request_data_left :
    (∃ s, initial.run oneSlot (replicate 18 (.submit 1) ++ .startCancel 1 ::
        replicate 6 .cancel ++ .spawn 7 :: replicate 21 (.work 7)) = some s ∧
      s.canceller = .idle ∧ s.flagged 0 = some 1 ∧ s.pending 1 = true ∧
      ¬((s.submitter 1).storing = true ∨ ∃ i, s.published i = some 1)) ∧
    ∃ s, initial.run chunkedSlot (replicate 18 (.submit 1) ++ .spawn 7 ::
        replicate 11 (.work 7) ++ .crash 7 :: .startRecovery 7 ::
        replicate 14 .monitor) = some s ∧ s.recovered 7 = true ∧ s.pending 1 = true ∧
      ¬((s.submitter 1).storing = true ∨ ∃ i, s.published i = some 1) := by
  constructor
  · have hany : (initial.run oneSlot (replicate 18 (.submit 1) ++ .startCancel 1 ::
        replicate 6 .cancel ++ .spawn 7 :: replicate 21 (.work 7))).any
        (fun s => decide (s.canceller = .idle ∧ s.flagged 0 = some 1 ∧ s.pending 1 = true ∧
          s.submitter 1 = .done true ∧ s.published 0 = none)) = true := by
      decide +kernel
    obtain ⟨s, hrun, hs⟩ := (any_eq_true _ _).mp hany
    rw [decide_eq_true_iff] at hs
    obtain ⟨hidle, hflagged, hpending, hsubmit, hreset⟩ := hs
    exact ⟨s, hrun, hidle, hflagged, hpending, no_slot_of_reset rfl hrun hsubmit hreset⟩
  · have hany : (initial.run chunkedSlot (replicate 18 (.submit 1) ++ .spawn 7 ::
        replicate 11 (.work 7) ++ .crash 7 :: .startRecovery 7 ::
        replicate 14 .monitor)).any
        (fun s => decide (s.recovered 7 = true ∧ s.pending 1 = true ∧
          s.submitter 1 = .done true ∧ s.published 0 = none)) = true := by
      decide +kernel
    obtain ⟨s, hrun, hs⟩ := (any_eq_true _ _).mp hany
    rw [decide_eq_true_iff] at hs
    obtain ⟨hrecovered, hpending, hsubmit, hreset⟩ := hs
    exact ⟨s, hrun, hrecovered, hpending, no_slot_of_reset rfl hrun hsubmit hreset⟩

end Server

end CuOpt.Grpc
