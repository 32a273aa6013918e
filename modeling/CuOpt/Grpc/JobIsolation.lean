import CuOpt.Grpc.SlotViews

/-! The bytes in the pipes: in the runs where no slot is recycled under the hands of the cancel call or
the dispatch loop, a worker reads the bytes of the job it has claimed, and only a worker on the
cancelled job is killed. -/

namespace CuOpt.Grpc

open Function
open List (replicate)

namespace Server

variable (c : ServerConfig)

structure Pipes (s : Server) : Prop where
  pending : ∀ j, s.pending j = true → ∀ index, j ∉ s.pipe index
  past : ∀ index, ∀ d ∈ s.pipe index, (s.submitter d).past = true
  hand : ∀ i j index, s.dispatcher = .send i j index →
    s.pending j = false ∧ ∀ index', j ∉ s.pipe index'
  pipe : ∀ index, s.worker (s.current index) = .exited ∨ s.pipe index = [] ∨
    ∃ d i, s.pipe index = [d] ∧ s.published i = some d ∧
      (s.slot i).workerPid = s.current index ∧ 0 < s.current index ∧
      ∀ k id data, s.worker (s.current index) ≠ .solve k id data
  copied : ∀ pid i id, (s.worker pid = .checkCancelled i id ∨ s.worker pid = .read i id) →
    s.published i = some id
  solving : ∀ pid i id data, s.worker pid = .solve i id data →
    data = id ∧ s.published i = some id ∧ s.pending id = false ∧
      ∀ k j index, s.dispatcher = .send k j index → j ≠ id

variable {c} {s s' : Server} {a : Action}

lemma initial_pipes : initial.Pipes := by
  constructor
  · intro j h
    cases h
  · intro index d h
    cases h
  · intro i j index h
    cases h
  · intro index
    exact .inl rfl
  · intro pid i id h
    rcases h with h | h <;> cases h
  · intro pid i id data h
    cases h

variable {i pid index jobId j : ℕ}

lemma freedSlot_cases (h : s.freedSlot a = some i) :
    (∃ q, a = .work q ∧ s.worker q = .reset i resetStores) ∨
      (a = .monitor ∧ ∃ q, s.monitor = .reset q i resetStores) := by
  cases a with
  | work q =>
    cases hpc : s.worker q with
    | reset k todo =>
      simp only [freedSlot, hpc] at h
      split_ifs at h with htodo
      cases h
      exact .inl ⟨q, rfl, by rw [hpc, htodo]⟩
    | _ => simp [freedSlot, hpc] at h
  | monitor =>
    cases hpc : s.monitor with
    | reset q k todo =>
      simp only [freedSlot, hpc] at h
      split_ifs at h with htodo
      cases h
      exact .inr ⟨rfl, q, by rw [htodo]⟩
    | _ => simp [freedSlot, hpc] at h
  | _ => cases h

/-- What is published in a slot that a worker holds stays until the worker resets it. -/
lemma published_held (hinv : s.Inv c) (hfits : s.Fits c) (hstep : s.step c a = some s') {id : ℕ}
    (hheld : s.holds (.worker pid) = some i) (hpc : s.worker pid ≠ .reset i resetStores)
    (h : s.published i = some id) : s'.published i = some id := by
  apply published_stays hinv hfits hstep h
  intro hfreed
  rcases freedSlot_cases hfreed with ⟨q, -, hq⟩ | ⟨-, q, hq⟩
  · have hholds : s.holds (.worker q) = some i := by
      simp only [holds, hq, WorkerPc.holds]
      rfl
    cases hinv.eq_of_holds hheld hholds
    exact hpc hq
  · have hholds : s.holds .monitor = some i := by
      simp only [holds, hq, MonitorPc.holds]
      rfl
    cases hinv.eq_of_holds hheld hholds

/-- Where a worker has copied a job id, it is of the job that its slot publishes. -/
lemma step_copied (hinv : s.Inv c) (hfits : s.Fits c) (hstep : s.step c a = some s')
    (h : ∀ pid i id, (s.worker pid = .checkCancelled i id ∨ s.worker pid = .read i id) →
      s.published i = some id) {id : ℕ}
    (hpc : s'.worker pid = .checkCancelled i id ∨ s'.worker pid = .read i id) :
    s'.published i = some id := by
  have hkeep : (s.worker pid = .checkCancelled i id ∨ s.worker pid = .read i id) →
      s'.published i = some id := by
    intro hold
    have hheld : s.holds (.worker pid) = some i := by
      rcases hold with hold | hold <;> simp only [holds, hold, WorkerPc.holds]
    refine published_held hinv hfits hstep hheld ?_ (h pid i id hold)
    rcases hold with hold | hold <;> simp [hold]
  by_cases hown : a = .work pid
  · subst hown
    have hmoves := (workStep_frame hstep).moves
    rcases hpc with hpc | hpc <;> (rw [hpc] at hmoves; cases hmoves)
    case inl.copy hold =>
      have hheld : s.holds (.worker pid) = some i := by simp only [holds, hold, WorkerPc.holds]
      have hknown := hinv.known _ _ hheld
      simp only [localOk, hold, WorkerPc.Ok] at hknown
      obtain ⟨j, hj⟩ := Option.isSome_iff_exists.mp hknown.2
      have hid : (s.slot i).jobId = j := congrArg Prod.fst (hfits.published i j hj)
      rw [hid]
      exact published_held hinv hfits hstep hheld (by simp [hold]) hj
    case inl.before hbefore => exact absurd rfl (hbefore.1 i id).1
    case inr.proceed hold => exact hkeep (.inl hold)
    case inr.before hbefore => exact absurd rfl (hbefore.1 i id).2
  · rcases step_worker hstep hown with heq | heq | heq
    · rw [heq] at hpc
      exact hkeep hpc
    · simp [heq] at hpc
    · simp [heq] at hpc

/-- The slot whose bytes are in a pipe stays published and claimed, or its worker is gone. -/
lemma pipe_stays (hinv : s.Inv c) (hfits : s.Fits c) (hproc : s.Processes c)
    (hcond : s.Undisturbed c a) (hstep : s.step c a = some s') {d : ℕ} (hpipe : s.pipe index = [d])
    (h : s.published i = some d) (hpid : (s.slot i).workerPid = s.current index)
    (hpos : 0 < s.current index) :
    s.worker (s.current index) = .exited ∨
      (s'.published i = some d ∧ (s'.slot i).workerPid = s.current index) := by
  by_cases hfreed : s.freedSlot a = some i
  · apply Or.inl
    rcases freedSlot_cases hfreed with ⟨q, rfl, hq⟩ | ⟨rfl, q, hq⟩
    · -- the worker that resets the slot has read its pipe
      obtain ⟨-, hw, -⟩ := hinv.reset_ok hq rfl
      rw [if_pos (by simp)] at hw
      have hcurrent : c.workerId q = index := by
        rw [← hw, hpid]
        exact (hproc.currentForked index hpos).2
      have hempty := (hcond.views hfreed).2.2
      simp only [unread, hcurrent, hpipe] at hempty
      cases hempty
    · obtain ⟨-, hw, -⟩ := hinv.recover_ok hq rfl
      rw [if_pos (by simp)] at hw
      rw [← hpid, hw]
      exact hproc.taken q i _ hq
  · apply Or.inr
    refine ⟨published_stays hinv hfits hstep h hfreed, ?_⟩
    rw [workerPid_stays hinv hstep h (by omega), hpid]

/-- A step by which no worker moves except to be taken over, and no bytes move. -/
lemma Pipes.of_step (h : s.Pipes) (hviews : s.Views c) (hinv : s.Inv c) (hfits : s.Fits c)
    (hproc : s.Processes c) (hcond : s.Undisturbed c a) (hstep : s.step c a = some s')
    (hworker : ∀ pid, s'.worker pid = s.worker pid ∨ s'.worker pid = .exited)
    (hpipe : s'.pipe = s.pipe) (hcurrent : s'.current = s.current)
    (hdispatcher : ∀ i j index, s'.dispatcher = .send i j index → s.dispatcher = .send i j index)
    (hpending : ∀ j, s'.pending j = true → s.pending j = true ∨ (s.submitter j).past = false)
    (hpast : ∀ d, (s.submitter d).past = true → (s'.submitter d).past = true) : s'.Pipes := by
  -- a published job is pending only if it was before
  have hkeep : ∀ i j, s.published i = some j → s.pending j = false → s'.pending j = false := by
    intro i j hj hnot
    by_contra htrue
    rw [Bool.not_eq_false] at htrue
    rcases hpending j htrue with hold | hpre
    · rw [hnot] at hold
      cases hold
    · rw [hinv.past i j hj] at hpre
      cases hpre
  have hsame : ∀ pid pc, pc ≠ .exited → s'.worker pid = pc → s.worker pid = pc := by
    intro pid pc hne hpc
    rcases hworker pid with hsame | hexited
    · rw [← hsame, hpc]
    · rw [hexited] at hpc
      exact absurd hpc.symm hne
  constructor
  · intro j hj index hmem
    rw [hpipe] at hmem
    rcases hpending j hj with hold | hpre
    · exact h.pending j hold index hmem
    · rw [h.past index j hmem] at hpre
      cases hpre
  · intro index d hd
    rw [hpipe] at hd
    exact hpast d (h.past index d hd)
  · intro i j index hsend
    have hold := hdispatcher i j index hsend
    obtain ⟨hnot, hmem⟩ := h.hand i j index hold
    have hj : s.published i = some j := hviews.dispatched i j (by rw [hold, DispatchPc.job])
    rw [hpipe]
    exact ⟨hkeep i j hj hnot, hmem⟩
  · intro index
    rw [hcurrent, hpipe]
    rcases h.pipe index with hexited | hempty | ⟨d, i, hd, hi, hpid, hpos, hnot⟩
    · apply Or.inl
      rcases hworker (s.current index) with hsame | hexited'
      · rw [hsame, hexited]
      · exact hexited'
    · exact .inr (.inl hempty)
    · rcases pipe_stays hinv hfits hproc hcond hstep hd hi hpid hpos with hexited | ⟨hi', hpid'⟩
      · apply Or.inl
        rcases hworker (s.current index) with hsame | hexited'
        · rw [hsame, hexited]
        · exact hexited'
      · refine .inr (.inr ⟨d, i, hd, hi', hpid', hpos, ?_⟩)
        intro k id data hsolve
        exact hnot k id data (hsame _ _ (by simp) hsolve)
  · exact fun _ _ _ => step_copied hinv hfits hstep h.copied
  · intro pid i id data hpc
    have hold := hsame _ _ (by simp) hpc
    obtain ⟨hdata, hi, hnot, hsend⟩ := h.solving pid i id data hold
    have hheld : s.holds (.worker pid) = some i := by simp only [holds, hold, WorkerPc.holds]
    refine ⟨hdata, ?_, hkeep i id hi hnot, ?_⟩
    · exact published_held hinv hfits hstep hheld (by simp [hold]) hi
    · intro k j index hsend'
      exact hsend k j index (hdispatcher k j index hsend')

lemma submitStep_past (hstep : s.submitStep c jobId = some s') (h : (s.submitter j).past = true) :
    (s'.submitter j).past = true := by
  by_cases hj : j ≠ jobId
  · rw [(submitStep_frame hstep).others j hj, h]
  rw [not_not] at hj
  subst hj
  unfold submitStep at hstep
  cases hpc : s.submitter j <;> simp only [hpc] at hstep <;> rw [hpc] at h
  case publish k todo =>
    cases todo with
    | nil =>
      cases hstep
      simp only [setSubmitter, update_self, SubmitPc.past]
    | cons st todo =>
      cases hstep
      simp only [SubmitPc.past, List.mem_cons, not_or, decide_eq_true_eq] at h
      simp only [setSubmitter, update_self, SubmitPc.past, decide_eq_true_eq]
      exact h.2
  case done => cases hstep
  all_goals cases h

lemma submitStep_pipes (h : s.Pipes) (hviews : s.Views c) (hinv : s.Inv c) (hfits : s.Fits c)
    (hproc : s.Processes c) (hcond : s.Undisturbed c (.submit jobId))
    (hstep : s.submitStep c jobId = some s') : s'.Pipes := by
  have hframe := submitStep_frame hstep
  refine h.of_step hviews hinv hfits hproc hcond hstep ?_ hframe.pipe hframe.current ?_ ?_
    (fun d => submitStep_past hstep)
  · intro pid
    exact .inl (by rw [hframe.worker])
  · intro i j index
    rw [hframe.dispatcher]
    exact id
  · intro j hj
    rcases hframe.pending j hj with hold | ⟨-, k, hpc⟩
    · exact .inl hold
    · exact .inr (by rw [hpc, SubmitPc.past])

lemma mem_pipe_of_empty {k d : ℕ} (h : d ∈ update s.pipe k [] index) : d ∈ s.pipe index := by
  by_cases hindex : index = k
  · rw [hindex, update_self] at h
    cases h
  · rwa [update_of_ne hindex] at h

/-- The step of a worker, but for the read of its pipe. -/
lemma Pipes.of_work (h : s.Pipes) (hinv : s.Inv c) (hfits : s.Fits c) (hproc : s.Processes c)
    (hcond : s.Undisturbed c (.work pid)) (hstep : s.workStep c pid = some s')
    (hpipe : s'.pipe = s.pipe) (hsolve : ∀ i id data, s'.worker pid ≠ .solve i id data) :
    s'.Pipes := by
  have hframe := workStep_frame hstep
  have hstep' : s.step c (.work pid) = some s' := hstep
  constructor
  · rw [hframe.pending, hpipe]
    exact h.pending
  · rw [hpipe, hframe.submitter]
    exact h.past
  · rw [hframe.dispatcher, hframe.pending, hpipe]
    exact h.hand
  · intro index
    rw [hframe.current, hpipe]
    rcases h.pipe index with hexited | hempty | ⟨d, i, hd, hi, hpid, hpos, hnot⟩
    · exact .inl (workStep_exited hstep hexited)
    · exact .inr (.inl hempty)
    · rcases pipe_stays hinv hfits hproc hcond hstep' hd hi hpid hpos with hexited | ⟨hi', hpid'⟩
      · exact .inl (workStep_exited hstep hexited)
      · refine .inr (.inr ⟨d, i, hd, hi', hpid', hpos, ?_⟩)
        intro k id data
        by_cases hq : s.current index = pid
        · rw [hq]
          exact hsolve k id data
        · rw [hframe.others _ hq]
          exact hnot k id data
  · exact fun _ _ _ => step_copied hinv hfits hstep' h.copied
  · intro q i id data hpc
    by_cases hq : q = pid
    · subst hq
      exact absurd hpc (hsolve i id data)
    · rw [hframe.others q hq] at hpc
      obtain ⟨hdata, hi, hnot, hsend⟩ := h.solving q i id data hpc
      have hheld : s.holds (.worker q) = some i := by simp only [holds, hpc, WorkerPc.holds]
      rw [hframe.pending, hframe.dispatcher]
      exact ⟨hdata, published_held hinv hfits hstep' hheld (by simp [hpc]) hi, hnot, hsend⟩

/-- A worker reads the bytes of the job whose id it copied. -/
lemma Pipes.of_read (h : s.Pipes) (hinv : s.Inv c) (hproc : s.Processes c) {slot data : ℕ}
    {rest : List ℕ} (halive : s.alive pid = true) (hpc : s.worker pid = .read slot jobId)
    (hpipe : s.pipe (c.workerId pid) = data :: rest) :
    ({ s.setWorker pid (.solve slot jobId data) with
      pipe := update s.pipe (c.workerId pid) rest } : Server).Pipes := by
  -- the worker is the current one of its index
  have hforked : s.forked pid = true := by
    by_contra hno
    rw [Bool.not_eq_true] at hno
    rw [(hproc.unforked pid hno).2.1] at halive
    cases halive
  have hcurrent : s.current (c.workerId pid) = pid := by
    rcases hproc.current pid hforked with hrec | hcurrent
    · rw [hproc.dead pid hrec] at halive
      cases halive
    · exact hcurrent
  have hslot : s.published slot = some jobId := h.copied pid slot jobId (.inr hpc)
  have hheld : s.holds (.worker pid) = some slot := by simp only [holds, hpc, WorkerPc.holds]
  -- the one entry of its pipe is the job of the slot it holds
  obtain ⟨hrest, hdata⟩ : rest = [] ∧ data = jobId := by
    rcases h.pipe (c.workerId pid) with hexited | hempty | ⟨d, i, hd, hi, hpid, hpos, -⟩
    · rw [hcurrent, hpc] at hexited
      cases hexited
    · rw [hpipe] at hempty
      cases hempty
    · rw [hpipe] at hd
      obtain ⟨rfl, rfl⟩ : data = d ∧ rest = [] := by simpa using hd
      rw [hcurrent] at hpid hpos
      rcases owner_of_workerPid hinv hproc hi hpid hpos with hown | ⟨hexited, -⟩
      · rw [hheld] at hown
        obtain rfl : slot = i := Option.some.inj hown
        rw [hslot] at hi
        exact ⟨rfl, (Option.some.inj hi).symm⟩
      · rw [hpc] at hexited
        cases hexited
  subst hrest
  have hmem : jobId ∈ s.pipe (c.workerId pid) := by
    rw [hpipe, hdata]
    exact List.mem_cons_self
  have hset : ∀ q, q ≠ pid →
      update s.worker pid (.solve slot jobId data) q = s.worker q := by
    intro q hq
    rw [update_of_ne hq]
  constructor
  · intro j hj index hd
    exact h.pending j hj index (mem_pipe_of_empty hd)
  · intro index d hd
    exact h.past index d (mem_pipe_of_empty hd)
  · intro i j index hsend
    obtain ⟨hnot, hnone⟩ := h.hand i j index hsend
    exact ⟨hnot, fun index' hd => hnone index' (mem_pipe_of_empty hd)⟩
  · intro index
    by_cases hindex : index = c.workerId pid
    · exact .inr (.inl (by simp only [hindex, update_self]))
    · have hne : s.current index ≠ pid ∨ s.pipe index = [] := by
        by_cases hq : s.current index = pid
        · have hpos : 0 < s.current index := by
            rw [hq]
            exact hproc.positive pid hforked
          have hid := (hproc.currentForked index hpos).2
          rw [hq] at hid
          exact absurd hid.symm hindex
        · exact .inl hq
      rcases hne with hq | hempty
      · have hold := h.pipe index
        simp only [setWorker, update_of_ne hindex]
        rw [hset _ hq]
        exact hold
      · exact .inr (.inl (by simp only [update_of_ne hindex, hempty]))
  · intro q i id hq
    by_cases heq : q = pid
    · subst heq
      simp only [setWorker, update_self, reduceCtorEq, or_self] at hq
    · simp only [setWorker, hset q heq] at hq
      exact h.copied q i id hq
  · intro q i id data' hq
    by_cases heq : q = pid
    · subst heq
      simp only [setWorker, update_self, WorkerPc.solve.injEq] at hq
      obtain ⟨rfl, rfl, rfl⟩ := hq
      refine ⟨hdata, hslot, ?_, ?_⟩
      · by_contra hpending
        rw [Bool.not_eq_false] at hpending
        exact h.pending jobId hpending _ hmem
      · rintro k j index hsend rfl
        exact (h.hand k j index hsend).2 _ hmem
    · simp only [setWorker, hset q heq] at hq
      exact h.solving q i id data' hq

lemma workStep_pipes (h : s.Pipes) (hinv : s.Inv c) (hfits : s.Fits c) (hproc : s.Processes c)
    (hcond : s.Undisturbed c (.work pid)) (hstep : s.workStep c pid = some s') : s'.Pipes := by
  have hframe := workStep_frame hstep
  cases hframe.reads with
  | same hpipe hsolve => exact h.of_work hinv hfits hproc hcond hstep hpipe hsolve
  | read hpc hpipe => exact h.of_read hinv hproc hframe.alive hpc hpipe

lemma Pipes.of_take_request (h : s.Pipes) (hj : s.pending j = true) :
    ({ s with
      pending := update s.pending j false
      dispatcher := .send i j index } : Server).Pipes := by
  have hshrink : ∀ k, update s.pending j false k = true → s.pending k = true := by
    intro k hk
    by_cases hkj : k = j
    · rw [hkj, update_self] at hk
      cases hk
    · rwa [update_of_ne hkj] at hk
  constructor
  · intro k hk
    exact h.pending k (hshrink k hk)
  · exact h.past
  · intro k j' index' hsend
    cases hsend
    exact ⟨update_self .., h.pending j hj⟩
  · exact h.pipe
  · exact h.copied
  · intro pid k id data hpc
    obtain ⟨hdata, hk, hnot, -⟩ := h.solving pid k id data hpc
    have hne : id ≠ j := by
      rintro rfl
      rw [hj] at hnot
      cases hnot
    refine ⟨hdata, hk, ?_, ?_⟩
    · simp only [update_of_ne hne, hnot]
    · intro k' j' index' hsend
      cases hsend
      exact hne.symm

/-- The process whose id is in a published slot is the current one of its index. -/
lemma current_of_workerPid (hinv : s.Inv c) (hproc : s.Processes c) (hj : s.published i = some j)
    (hpos : 0 < (s.slot i).workerPid) (hindex : c.workerId (s.slot i).workerPid = index) :
    s.current index = (s.slot i).workerPid := by
  have hforked : s.forked (s.slot i).workerPid = true := by
    rcases owner_of_workerPid hinv hproc hj rfl hpos with hown | ⟨-, hmonitor⟩
    · by_contra hno
      rw [Bool.not_eq_true] at hno
      simp only [holds, (hproc.unforked _ hno).1, WorkerPc.holds] at hown
      cases hown
    · exact (hproc.monitored _ (by rw [hmonitor, MonitorPc.pid])).1
  rcases hproc.current _ hforked with hrec | hcurrent
  · exact absurd rfl (hproc.recovered _ hrec i j hj)
  · rw [← hindex, hcurrent]

/-- The dispatch loop writes the request to the pipe of the worker that claimed the job. -/
lemma Pipes.of_send (h : s.Pipes) (hviews : s.Views c) (hinv : s.Inv c) (hproc : s.Processes c)
    (hpc : s.dispatcher = .send i j index) :
    ({ s with
      pipe := update s.pipe index (s.pipe index ++ [j])
      dispatcher := .mark i j true } : Server).Pipes := by
  have hj : s.published i = some j := hviews.dispatched i j (by rw [hpc, DispatchPc.job])
  obtain ⟨hnot, hnone⟩ := h.hand i j index hpc
  obtain ⟨hpos, hindex⟩ := hviews.routed i index (by rw [hpc, DispatchPc.route])
  -- the worker whose id is in the slot is the current one of the index
  have hcurrent := current_of_workerPid hinv hproc hj hpos hindex
  have hgrow : ∀ index' d, d ∈ update s.pipe index (s.pipe index ++ [j]) index' →
      d ∈ s.pipe index' ∨ d = j := by
    intro index' d hd
    by_cases heq : index' = index
    · subst heq
      rw [update_self, List.mem_append, List.mem_singleton] at hd
      exact hd
    · rw [update_of_ne heq] at hd
      exact .inl hd
  constructor
  · intro k hk index' hd
    rcases hgrow index' k hd with hold | rfl
    · exact h.pending k hk index' hold
    · have hk' : s.pending k = true := hk
      rw [hnot] at hk'
      cases hk'
  · intro index' d hd
    rcases hgrow index' d hd with hold | rfl
    · exact h.past index' d hold
    · exact hinv.past i d hj
  · intro k j' index' hsend
    cases hsend
  · intro index'
    by_cases heq : index' = index
    · subst heq
      simp only [update_self]
      rcases owner_of_workerPid hinv hproc hj hcurrent.symm (by omega) with hown | ⟨hexited, -⟩
      · apply Or.inr
        apply Or.inr
        refine ⟨j, i, ?_, hj, hcurrent.symm, by omega, ?_⟩
        · -- other bytes in the pipe would be of the same job
          rcases h.pipe index' with hexited | hempty | ⟨d, k, hd, hk, hpid, hpos', -⟩
          · simp only [holds, hexited, WorkerPc.holds] at hown
            cases hown
          · rw [hempty, List.nil_append]
          · rcases owner_of_workerPid hinv hproc hk hpid hpos' with hown' | ⟨hexited, -⟩
            · rw [hown] at hown'
              obtain rfl : i = k := Option.some.inj hown'
              rw [hj] at hk
              have hmem : j ∈ s.pipe index' := by
                rw [hd, Option.some.inj hk]
                exact List.mem_singleton_self d
              exact absurd hmem (hnone index')
            · simp only [holds, hexited, WorkerPc.holds] at hown
              cases hown
        · intro k id data hsolve
          obtain ⟨-, hk, -, hsend⟩ := h.solving _ k id data hsolve
          simp only [holds, hsolve, WorkerPc.holds] at hown
          obtain rfl : k = i := Option.some.inj hown
          rw [hj] at hk
          exact hsend k j index' hpc (Option.some.inj hk)
      · exact .inl hexited
    · simp only [update_of_ne heq]
      exact h.pipe index'
  · exact h.copied
  · intro pid k id data hsolve
    obtain ⟨hdata, hk, hnot', -⟩ := h.solving pid k id data hsolve
    refine ⟨hdata, hk, hnot', ?_⟩
    intro k' j' index' hsend
    cases hsend

lemma dispatchStep_pipes (h : s.Pipes) (hviews : s.Views c) (hinv : s.Inv c) (hfits : s.Fits c)
    (hproc : s.Processes c) {status : PipeWriteStatus} (hcond : s.Undisturbed c (.dispatch status))
    (hstep : s.dispatchStep c status = some s') : s'.Pipes := by
  have hframe := dispatchStep_frame hstep
  cases hframe.sends with
  | same hpipe hpending hsend =>
    have hcopy : s.step c (.dispatch status) = some s' := hstep
    refine h.of_step hviews hinv hfits hproc hcond hcopy ?_ hpipe hframe.current ?_ ?_ ?_
    · intro pid
      exact .inl (by rw [hframe.worker])
    · intro i j index heq
      exact absurd heq (hsend i j index)
    · intro j hj
      exact .inl (by rw [← hpending, hj])
    · intro d hd
      rw [hframe.submitter, hd]
  | take hj => exact h.of_take_request hj
  | send hpc => exact h.of_send hviews hinv hproc hpc

lemma spawn_pipes (h : s.Pipes) (hproc : s.Processes c) (hstep : s.spawn c pid = some s') :
    s'.Pipes := by
  obtain ⟨⟨hexited, hnew, hpos, -⟩, rfl⟩ := spawn_cases hstep
  constructor
  · intro j hj index hd
    exact h.pending j hj index (mem_pipe_of_empty hd)
  · intro index d hd
    exact h.past index d (mem_pipe_of_empty hd)
  · intro i j index hsend
    obtain ⟨hnot, hnone⟩ := h.hand i j index hsend
    exact ⟨hnot, fun index' hd => hnone index' (mem_pipe_of_empty hd)⟩
  · intro index
    by_cases hindex : index = c.workerId pid
    · exact .inr (.inl (by simp only [hindex, update_self]))
    · have hne : s.current index ≠ pid := by
        intro heq
        have hforked := (hproc.currentForked index (by omega)).1
        rw [heq, hnew] at hforked
        cases hforked
      simp only [setWorker, update_of_ne hindex, update_of_ne hne]
      exact h.pipe index
  · intro q i id hq
    by_cases heq : q = pid
    · subst heq
      simp only [setWorker, update_self, reduceCtorEq, or_self] at hq
    · simp only [setWorker, update_of_ne heq] at hq
      exact h.copied q i id hq
  · intro q i id data hq
    by_cases heq : q = pid
    · subst heq
      simp only [setWorker, update_self, reduceCtorEq] at hq
    · simp only [setWorker, update_of_ne heq] at hq
      exact h.solving q i id data hq

lemma Pipes.of_monitor (h : s.Pipes) (hviews : s.Views c) (hinv : s.Inv c) (hfits : s.Fits c)
    (hproc : s.Processes c) (hcond : s.Undisturbed c a) (hstep : s.step c a = some s')
    (hframe : MonitorFrame c s s' a) : s'.Pipes := by
  refine h.of_step hviews hinv hfits hproc hcond hstep hframe.worker hframe.pipe hframe.current ?_
    (fun j hj => .inl (hframe.pending j hj)) ?_
  · intro i j index
    rw [hframe.dispatcher]
    exact id
  · intro d hd
    rw [hframe.submitter, hd]

lemma Pipes.of_cancel (h : s.Pipes) (hviews : s.Views c) (hinv : s.Inv c) (hfits : s.Fits c)
    (hproc : s.Processes c) (hcond : s.Undisturbed c a) (hstep : s.step c a = some s')
    (hframe : CancelFrame c s s' a) : s'.Pipes := by
  refine h.of_step hviews hinv hfits hproc hcond hstep ?_ hframe.pipe hframe.current ?_ ?_ ?_
  · intro pid
    exact .inl (by rw [hframe.worker])
  · intro i j index
    rw [hframe.dispatcher]
    exact id
  · intro j hj
    exact .inl (by rw [← hframe.pending, hj])
  · intro d hd
    rw [hframe.submitter, hd]

lemma step_pipes (h : s.Pipes) (hviews : s.Views c) (hinv : s.Inv c) (hfits : s.Fits c)
    (hproc : s.Processes c) (hcond : s.Undisturbed c a) (hstep : s.step c a = some s') :
    s'.Pipes := by
  cases a with
  | submit jobId => exact submitStep_pipes h hviews hinv hfits hproc hcond hstep
  | work pid => exact workStep_pipes h hinv hfits hproc hcond hstep
  | monitor => exact h.of_monitor hviews hinv hfits hproc hcond hstep (monitorStep_frame hstep)
  | startRecovery pid =>
    exact h.of_monitor hviews hinv hfits hproc hcond hstep (startRecovery_frame hstep)
  | cancel => exact h.of_cancel hviews hinv hfits hproc hcond hstep (cancelStep_frame hstep)
  | startCancel jobId =>
    exact h.of_cancel hviews hinv hfits hproc hcond hstep (startCancel_frame hstep)
  | crash pid => exact h.of_cancel hviews hinv hfits hproc hcond hstep (crash_frame hstep)
  | dispatch status => exact dispatchStep_pipes h hviews hinv hfits hproc hcond hstep
  | spawn pid => exact spawn_pipes h hproc hstep
  | erasePending jobId =>
    have hcopy := hstep
    cases hstep
    refine h.of_step hviews hinv hfits hproc hcond hcopy (fun _ => .inl rfl) rfl rfl
      (fun _ _ _ => id) ?_ (fun _ => id)
    intro j hj
    apply Or.inl
    by_cases heq : j = jobId
    · simp [heq] at hj
    · simpa [update_of_ne heq] using hj

structure Isolated (c : ServerConfig) (s : Server) : Prop where
  inv : s.Inv c
  fits : s.Fits c
  processes : s.Processes c
  views : s.Views c
  pipes : s.Pipes

lemma initial_isolated : initial.Isolated c :=
  ⟨initial_inv, initial_fits, initial_processes, initial_views, initial_pipes⟩

lemma step_isolated (h : s.Isolated c) (hcond : s.Undisturbed c a)
    (hstep : s.step c a = some s') : s'.Isolated c where
  inv := step_inv h.inv hstep
  fits := step_fits h.fits h.inv hcond.1 hstep
  processes := step_processes h.processes h.inv hstep
  views := step_views h.views h.inv h.fits h.processes hcond hstep
  pipes := step_pipes h.pipes h.views h.inv h.fits h.processes hcond hstep

def WorksOn (s : Server) (pid i jobId : ℕ) : Prop :=
  s.worker pid = .exited ∨ (s.holds (.worker pid) = some i ∧ s.published i = some jobId)

lemma worksOn_of_workerPid (h : s.Isolated c) (hj : s.published i = some j)
    (hpid : (s.slot i).workerPid = pid) (hpos : 0 < pid) : s.WorksOn pid i j := by
  rcases owner_of_workerPid h.inv h.processes hj hpid hpos with hown | ⟨hexited, -⟩
  · exact .inr ⟨hown, hj⟩
  · exact .inl hexited

/-- In a run whose steps are undisturbed, a kill on behalf of a job hits the worker on that job, a
cancelled slot was cancelled for the job it holds, bytes are sent to the worker that claimed their
job, and a worker solves what belongs to the job it claimed. -/
theorem jobs_isolated (c : ServerConfig) (as : List Action) (s : Server)
    (hrun : initial.run c as = some s) (hcond : Along (step c) (Undisturbed c) initial as) :
    (∀ j i pid, s.canceller = .kill j i pid → 0 < pid → s.WorksOn pid i j) ∧
    (∀ i j pid, s.dispatcher = .kill i j pid → 0 < pid → s.WorksOn pid i j) ∧
    (∀ i j, s.published i = some j → (s.slot i).cancelled = true → s.flagged i = some j) ∧
    (∀ i j index, s.dispatcher = .send i j index → s.WorksOn (s.current index) i j) ∧
    (∀ pid i id data, s.worker pid = .solve i id data →
      data = id ∧ s.published i = some id ∧ (id, pid) ∈ s.claims) := by
  have h : s.Isolated c := by
    refine invariant_of_along (I := Isolated c) ?_ initial_isolated hcond hrun
    intro s a s' hs ha hstep
    exact step_isolated hs ha hstep
  refine ⟨?_, ?_, h.views.flagged, ?_, ?_⟩
  · intro j i pid hpc hpos
    have hj := h.views.cancelling i j (by rw [hpc, CancelPc.job])
    have hpid := h.views.cancelTarget i pid (by rw [hpc, CancelPc.target]) hpos
    exact worksOn_of_workerPid h hj hpid hpos
  · intro i j pid hpc hpos
    have hj := h.views.dispatched i j (by rw [hpc, DispatchPc.job])
    have hpid := h.views.dispatchTarget i pid (by rw [hpc, DispatchPc.target]) hpos
    exact worksOn_of_workerPid h hj hpid hpos
  · intro i j index hpc
    have hj := h.views.dispatched i j (by rw [hpc, DispatchPc.job])
    obtain ⟨hpos, hindex⟩ := h.views.routed i index (by rw [hpc, DispatchPc.route])
    rw [current_of_workerPid h.inv h.processes hj hpos hindex]
    exact worksOn_of_workerPid h hj rfl hpos
  · intro pid i id data hpc
    obtain ⟨hdata, hid, -⟩ := h.pipes.solving pid i id data hpc
    have hholds : s.holds (.worker pid) = some i := by simp only [holds, hpc, WorkerPc.holds]
    have hclaimant : s.claimant (.worker pid) = some pid := by
      simp only [claimant, hpc, WorkerPc.hasClaimed, if_true]
    exact ⟨hdata, hid, h.inv.claimedBy _ i hholds pid hclaimant id hid⟩

/-- Jobs 1 and 2 are submitted, process 7 claims job 1 and its bytes are sent, and a cancel call for
job 1 reads the slot up to its last load. -/
def cancelHalfway : List Action :=
  replicate 18 (.submit 1) ++ replicate 19 (.submit 2) ++ .spawn 7 :: replicate 14 (.work 7) ++
    replicate 10 (.dispatch .success) ++ .startCancel 1 :: replicate 6 .cancel

/-- The worker waits for the cancel call. -/
theorem jobs_isolated_one : ∃ s, initial.run twoSlots (cancelHalfway ++ [.cancel]) = some s ∧
    s.canceller = .kill 1 0 7 ∧ s.WorksOn 7 0 1 := by
  have hany : (initial.run twoSlots (cancelHalfway ++ [.cancel])).any
      (fun s => decide (s.canceller = .kill 1 0 7)) = true := by
    decide +kernel
  obtain ⟨s, hrun, hs⟩ := (Option.any_eq_true _ _).mp hany
  rw [decide_eq_true_iff] at hs
  have hcond : Along (step twoSlots) (Undisturbed twoSlots) initial (cancelHalfway ++ [.cancel]) := by
    decide +kernel
  exact ⟨s, hrun, hs, (jobs_isolated twoSlots _ s hrun hcond).1 1 0 7 hs (by decide)⟩

/-- The worker solves job 1, resets the slot and claims job 2 in the other one, and job 3 is filled in
the slot of job 1 before the cancel call stores its flag there. -/
def nextJobs : List Action :=
  cancelHalfway ++ replicate 12 (.work 7) ++ replicate 12 (.work 7) ++ replicate 12 (.submit 3) ++
    [.cancel]

/-- The worker of job 2 is killed for job 1, and job 3 is published with the flag of job 1. -/
theorem cancel_hits_next_job :
    (¬ ∀ c as s, initial.run c as = some s →
      ∀ j i pid, s.canceller = .kill j i pid → 0 < pid → s.WorksOn pid i j) ∧
    ¬ ∀ c as s, initial.run c as = some s →
      ∀ i j, s.published i = some j → (s.slot i).cancelled = true → s.flagged i = some j := by
  constructor
  · intro hall
    have hany : (initial.run twoSlots nextJobs).any (fun s => decide (s.canceller = .kill 1 0 7 ∧
        s.worker 7 = .read 1 2 ∧ s.published 0 = none)) = true := by
      decide +kernel
    obtain ⟨s, hrun, hs⟩ := (Option.any_eq_true _ _).mp hany
    rw [decide_eq_true_iff] at hs
    obtain ⟨hkill, hworker, hpublished⟩ := hs
    rcases hall twoSlots _ s hrun 1 0 7 hkill (by decide) with hexited | ⟨-, hone⟩
    · rw [hworker] at hexited
      cases hexited
    · rw [hpublished] at hone
      cases hone
  · intro hall
    have hany : (initial.run twoSlots (nextJobs ++ .cancel :: replicate 6 (.submit 3))).any
        (fun s => decide (s.published 0 = some 3 ∧ (s.slot 0).cancelled = true ∧
          s.flagged 0 = some 1)) = true := by
      decide +kernel
    obtain ⟨s, hrun, hs⟩ := (Option.any_eq_true _ _).mp hany
    rw [decide_eq_true_iff] at hs
    obtain ⟨hpublished, hcancelled, hflagged⟩ := hs
    have hthree := hall twoSlots _ s hrun 0 3 hpublished hcancelled
    rw [hflagged] at hthree
    cases hthree

end Server

end CuOpt.Grpc
