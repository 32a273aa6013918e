import CuOpt.Grpc.WorkerProcesses

/-! What the cancel call and the dispatch loop know of the slot they work on, in the runs where no slot
is recycled under their hands. -/

namespace CuOpt.Grpc

open Function

/-- The slot that the cancel call acts on: it saw `ready` again and still has to compare the id, or is
past that. -/
def CancelPc.slot : CancelPc → Option ℕ
  | .recompareId _ i | .loadPid _ i | .loadClaimed _ i _ | .setCancelled _ i _ | .kill _ i _ => some i
  | .idle | .loadReady _ _ | .compareId _ _ | .reloadReady _ _ => none

def CancelPc.job : CancelPc → Option (ℕ × ℕ)
  | .loadPid jobId i | .loadClaimed jobId i _ | .setCancelled jobId i _ | .kill jobId i _ =>
    some (i, jobId)
  | .idle | .loadReady _ _ | .compareId _ _ | .reloadReady _ _ | .recompareId _ _ => none

def CancelPc.target : CancelPc → Option (ℕ × ℕ)
  | .loadClaimed _ i pid | .setCancelled _ i pid | .kill _ i pid => some (i, pid)
  | .idle | .loadReady _ _ | .compareId _ _ | .reloadReady _ _ | .recompareId _ _
  | .loadPid _ _ => none

def DispatchPc.slot : DispatchPc → Option ℕ
  | .loadReady _ => none
  | .loadClaimed i | .loadSent i | .loadCancelled i | .copyId i | .loadIndex i _
  | .loadChunked i _ _ | .take i _ _ _ | .send i _ _ | .loadPid i _ | .kill i _ _
  | .mark i _ _ => some i

def DispatchPc.job : DispatchPc → Option (ℕ × ℕ)
  | .loadIndex i jobId | .loadChunked i jobId _ | .take i jobId _ _ | .send i jobId _
  | .loadPid i jobId | .kill i jobId _ | .mark i jobId _ => some (i, jobId)
  | .loadReady _ | .loadClaimed _ | .loadSent _ | .loadCancelled _ | .copyId _ => none

def DispatchPc.route : DispatchPc → Option (ℕ × ℕ)
  | .loadChunked i _ index | .take i _ index _ | .send i _ index => some (i, index)
  | .loadReady _ | .loadClaimed _ | .loadSent _ | .loadCancelled _ | .copyId _ | .loadIndex _ _
  | .loadPid _ _ | .kill _ _ _ | .mark _ _ _ => none

def DispatchPc.target : DispatchPc → Option (ℕ × ℕ)
  | .kill i _ pid => some (i, pid)
  | .loadReady _ | .loadClaimed _ | .loadSent _ | .loadCancelled _ | .copyId _ | .loadIndex _ _
  | .loadChunked _ _ _ | .take _ _ _ _ | .send _ _ _ | .loadPid _ _ | .mark _ _ _ => none

/-- A slot that is being filled loses what the last job left in `worker_index` and `cancelled`. -/
def SubmitPc.Fresh (e : JobQueueEntry) : SubmitPc → Prop
  | .fill _ todo => (Store.workerIndex (-1) ∈ todo ∨ e.workerIndex = -1) ∧
    (Store.cancelled false ∈ todo ∨ e.cancelled = false)
  | .track _ | .enqueue _ => e.workerIndex = -1 ∧ e.cancelled = false
  | .publish _ todo => Store.ready true ∈ todo → e.workerIndex = -1 ∧ e.cancelled = false
  | .scan _ | .reserve _ | .done _ => True

namespace Server

variable (c : ServerConfig)

def freedSlot (s : Server) : Action → Option ℕ
  | .work pid =>
    match s.worker pid with
    | .reset i todo => if todo = resetStores then some i else none
    | _ => none
  | .monitor =>
    match s.monitor with
    | .reset _ i todo => if todo = resetStores then some i else none
    | _ => none
  | _ => none

def unread (s : Server) : Action → List ℕ
  | .work pid => s.pipe (c.workerId pid)
  | _ => []

/-- No slot is recycled while the cancel call or the dispatch loop acts on it, no worker drops a job
whose bytes are in its pipe, and no submission reserves a published slot. -/
def Undisturbed (s : Server) (a : Action) : Prop :=
  s.ReservesUnpublished a ∧ (match s.freedSlot a with
    | none => true
    | some i => decide (s.canceller.slot ≠ some i ∧ s.dispatcher.slot ≠ some i ∧
        s.unread c a = [])) = true

instance (s : Server) (a : Action) : Decidable (s.Undisturbed c a) :=
  inferInstanceAs (Decidable (_ ∧ _ = true))

structure Views (s : Server) : Prop where
  recompared : ∀ i, s.canceller.slot = some i → ∃ k, s.published i = some k
  cancelling : ∀ i j, s.canceller.job = some (i, j) → s.published i = some j
  cancelTarget : ∀ i pid, s.canceller.target = some (i, pid) → 0 < pid → (s.slot i).workerPid = pid
  dispatching : ∀ i, s.dispatcher.slot = some i → ∃ k, s.published i = some k
  dispatched : ∀ i j, s.dispatcher.job = some (i, j) → s.published i = some j
  routed : ∀ i index, s.dispatcher.route = some (i, index) →
    0 < (s.slot i).workerPid ∧ c.workerId (s.slot i).workerPid = index
  dispatchTarget : ∀ i pid, s.dispatcher.target = some (i, pid) → 0 < pid →
    (s.slot i).workerPid = pid
  index : ∀ i j (n : ℕ), s.published i = some j → (s.slot i).workerIndex = n →
    0 < (s.slot i).workerPid ∧ c.workerId (s.slot i).workerPid = n
  flagged : ∀ i j, s.published i = some j → (s.slot i).cancelled = true → s.flagged i = some j
  fresh : ∀ j i, (s.submitter j).holds = some i → (s.submitter j).Fresh (s.slot i)

variable {c} {s s' : Server} {a : Action}

lemma initial_views : initial.Views c := by
  constructor
  · intro i h
    cases h
  · intro i j h
    cases h
  · intro i pid h
    cases h
  · intro i h
    cases h
  · intro i j h
    cases h
  · intro i index h
    cases h
  · intro i pid h
    cases h
  · intro i j n h
    cases h
  · intro i j h
    cases h
  · intro j i h
    cases h

variable {i pid j : ℕ}

lemma freedSlot_of_startsReset (h : s.startsReset i a = some pid) : s.freedSlot a = some i := by
  cases a with
  | work q =>
    simp only [startsReset] at h
    split_ifs at h with hpc
    simp only [freedSlot, hpc, if_true]
  | monitor =>
    simp only [startsReset] at h
    cases hpc : s.monitor with
    | reset q k todo =>
      simp only [hpc] at h
      split_ifs at h with hk
      obtain ⟨rfl, rfl⟩ := hk
      simp only [freedSlot, hpc, if_true]
    | _ => simp [hpc] at h
  | _ => cases h

lemma published_stays (hinv : s.Inv c) (hfits : s.Fits c) (hstep : s.step c a = some s')
    (h : s.published i = some j) (hfreed : s.freedSlot a ≠ some i) : s'.published i = some j := by
  rcases step_published hinv hfits hstep h with hsame | ⟨pid, hstarts, -⟩
  · exact hsame
  · exact absurd (freedSlot_of_startsReset hstarts) hfreed

lemma workerPid_stays (hinv : s.Inv c) (hstep : s.step c a = some s')
    (h : s.published i = some j) (hpos : 0 < (s.slot i).workerPid) :
    (s'.slot i).workerPid = (s.slot i).workerPid := by
  rcases workerPid_step hinv hstep i with hsame | ⟨-, hnone | ⟨jobId, todo, hpc⟩⟩ | ⟨q, rfl, hpc, -⟩
  · exact hsame
  · rw [h] at hnone
    cases hnone
  · have hheld : (s.submitter jobId).holds = some i := by rw [hpc, SubmitPc.holds]
    rw [hinv.submitter_workerPid hheld] at hpos
    omega
  · have hheld : s.holds (.worker q) = some i := by simp only [holds, hpc, WorkerPc.holds]
    have hknown := hinv.known _ _ hheld
    simp only [localOk, hpc, WorkerPc.Ok] at hknown
    omega

/-- The process whose id is in a published slot holds it, or was taken over by the monitor. -/
lemma owner_of_workerPid (hinv : s.Inv c) (hproc : s.Processes c) (h : s.published i = some j)
    (hpid : (s.slot i).workerPid = pid) (hpos : 0 < pid) :
    s.holds (.worker pid) = some i ∨
      (s.worker pid = .exited ∧ s.monitor = .reset pid i resetStores) := by
  cases hx : s.holder i with
  | none =>
    have hzero := hinv.free i hx
    omega
  | some x =>
    have hholds := (hinv.own x i).mpr hx
    have hknown := hinv.known x i hholds
    cases x with
    | submitter k =>
      have hzero := hinv.submitter_workerPid hholds
      omega
    | worker p =>
      apply Or.inl
      simp only [localOk] at hknown
      have hholds' := hholds
      simp only [holds] at hholds
      have hp : p = pid := by
        cases hpc : s.worker p <;> rw [hpc] at hholds hknown <;>
          simp only [WorkerPc.holds, reduceCtorEq, WorkerPc.Ok] at hholds hknown <;> try omega
        case reset slot todo =>
          obtain ⟨-, hw, -⟩ := hknown
          split_ifs at hw hholds <;> omega
      rw [← hp, hholds']
    | monitor =>
      apply Or.inr
      simp only [localOk] at hknown
      simp only [holds] at hholds
      cases hpc : s.monitor <;> rw [hpc] at hholds hknown
      case reset q k todo =>
        obtain ⟨hsuffix, hw, hnone⟩ := hknown
        simp only [MonitorPc.holds] at hholds
        split_ifs at hholds with hstill
        obtain rfl : k = i := Option.some.inj hholds
        have hready : Store.ready false ∈ todo := by
          by_contra hno
          rw [hnone hno] at h
          cases h
        have htodo := eq_resetStores_of_mem hsuffix hready
        subst htodo
        rw [if_pos (by simp [resetStores])] at hw
        obtain rfl : q = pid := by omega
        exact ⟨hproc.taken q k _ hpc, rfl⟩
      all_goals cases hholds

lemma workerIndex_step (hinv : s.Inv c) (hstep : s.step c a = some s') (i : ℕ) :
    (s'.slot i).workerIndex = (s.slot i).workerIndex ∨ (s'.slot i).workerIndex = -1 ∨
      ∃ q, s.worker q = .storeIndex i ∧ (s'.slot i).workerIndex = c.workerId q ∧
        (s'.slot i).workerPid = q := by
  rcases step_slot hstep i with ⟨hslot, -⟩ | ⟨st, htouch, hslot, -⟩
  · exact .inl (by rw [hslot])
  rw [hslot]
  by_cases hst : ∃ v, st = .workerIndex v
  · obtain ⟨v, rfl⟩ := hst
    have hminus : Store.workerIndex v ∈ resetStores → v = -1 := by
      intro hmem
      simpa [resetStores] using hmem
    cases htouch with
    | fill hpc =>
      have hv : v = -1 := by simpa [fillStores] using hinv.fill_mem hpc
      exact .inr (.inl hv)
    | publish hpc =>
      obtain ⟨seq, ⟨hst, -⟩ | ⟨hst, -⟩ | ⟨hst, -⟩⟩ := hinv.publish_shape hpc <;> cases hst
    | @storeIndex pid hpc =>
      have hheld : s.holds (.worker pid) = some i := by simp only [holds, hpc, WorkerPc.holds]
      have hknown := hinv.known _ _ hheld
      simp only [localOk, hpc, WorkerPc.Ok] at hknown
      exact .inr (.inr ⟨pid, hpc, rfl, hknown.1⟩)
    | reset hpc => exact .inr (.inl (hminus (mem_resetStores (hinv.reset_ok hpc))))
    | recover hpc => exact .inr (.inl (hminus (mem_resetStores (hinv.recover_ok hpc))))
  · apply Or.inl
    cases st with
    | workerIndex v => exact absurd ⟨v, rfl⟩ hst
    | _ => rfl

/-- The flag is set by the cancel call and by the dispatch loop, for the job they copied. -/
lemma cancelled_step (hinv : s.Inv c) (hstep : s.step c a = some s') (i : ℕ) :
    (s'.slot i).cancelled = (s.slot i).cancelled ∨ (s'.slot i).cancelled = false ∨
      ∃ k, s'.flagged i = some k ∧ s.freedSlot a = none ∧
        (s.canceller.job = some (i, k) ∨ s.dispatcher.job = some (i, k)) := by
  rcases step_slot hstep i with ⟨hslot, -⟩ | ⟨st, htouch, hslot, -⟩
  · exact .inl (by rw [hslot])
  rw [hslot]
  by_cases hst : ∃ v, st = .cancelled v
  · obtain ⟨v, rfl⟩ := hst
    have hfalse : Store.cancelled v ∈ resetStores → v = false := by
      intro hmem
      simpa [resetStores] using hmem
    cases htouch with
    | fill hpc =>
      have hv : v = false := by simpa [fillStores] using hinv.fill_mem hpc
      exact .inr (.inl hv)
    | publish hpc =>
      obtain ⟨seq, ⟨hst, -⟩ | ⟨hst, -⟩ | ⟨hst, -⟩⟩ := hinv.publish_shape hpc <;> cases hst
    | reset hpc => exact .inr (.inl (hfalse (mem_resetStores (hinv.reset_ok hpc))))
    | recover hpc => exact .inr (.inl (hfalse (mem_resetStores (hinv.recover_ok hpc))))
    | @cancel jobId pid hpc =>
      refine .inr (.inr ⟨jobId, ?_, rfl, .inl ?_⟩)
      · simp only [step, cancelStep, hpc, Option.some.injEq] at hstep
        rw [← hstep]
        simp only [update_self]
      · rw [hpc, CancelPc.job]
    | @failed jobId status hpc =>
      refine .inr (.inr ⟨jobId, ?_, rfl, .inr ?_⟩)
      · simp only [step, dispatchStep, hpc, Bool.false_eq_true, if_false, Option.some.injEq] at hstep
        rw [← hstep]
        simp only [update_self]
      · rw [hpc, DispatchPc.job]
  · apply Or.inl
    cases st with
    | cancelled v => exact absurd ⟨v, rfl⟩ hst
    | _ => rfl

lemma flagged_step (hstep : s.step c a = some s') (i : ℕ) :
    s'.flagged i = s.flagged i ∨ ∃ k, s'.flagged i = some k ∧ s.freedSlot a = none ∧
      (s.canceller.job = some (i, k) ∨ s.dispatcher.job = some (i, k)) := by
  cases a with
  | submit jobId => exact .inl (by rw [(submitStep_frame hstep).flagged])
  | work pid => exact .inl (by rw [(workStep_frame hstep).flagged])
  | monitor => exact .inl (by rw [(monitorStep_frame hstep).flagged])
  | startRecovery pid => exact .inl (by rw [(startRecovery_frame hstep).flagged])
  | cancel =>
    rcases (cancelStep_frame hstep).flagged i with hsame | ⟨j, pid, hnew, hpc⟩
    · exact .inl hsame
    · exact .inr ⟨j, hnew, rfl, .inl (hpc ▸ rfl)⟩
  | dispatch status =>
    rcases (dispatchStep_frame hstep).flagged i with hsame | ⟨j, hnew, hpc⟩
    · exact .inl hsame
    · exact .inr ⟨j, hnew, rfl, .inr (hpc ▸ rfl)⟩
  | startCancel jobId =>
    simp only [step, startCancel] at hstep
    split_ifs at hstep
    cases hstep
    exact .inl rfl
  | spawn pid =>
    obtain ⟨-, rfl⟩ := spawn_cases hstep
    exact .inl rfl
  | erasePending jobId | crash pid =>
    cases hstep
    exact .inl rfl

lemma fresh_mono {e e' : JobQueueEntry} {pc : SubmitPc} (h : pc.Fresh e)
    (hindex : e'.workerIndex = e.workerIndex ∨ e'.workerIndex = -1)
    (hcancelled : e'.cancelled = e.cancelled ∨ e'.cancelled = false) : pc.Fresh e' := by
  have hindex' : e.workerIndex = -1 → e'.workerIndex = -1 := by
    intro he
    rcases hindex with hsame | hminus
    · rw [hsame, he]
    · exact hminus
  have hcancelled' : e.cancelled = false → e'.cancelled = false := by
    intro he
    rcases hcancelled with hsame | hfalse
    · rw [hsame, he]
    · exact hfalse
  cases pc with
  | fill i todo => exact ⟨h.1.imp_right hindex', h.2.imp_right hcancelled'⟩
  | track i | enqueue i => exact ⟨hindex' h.1, hcancelled' h.2⟩
  | publish i todo => exact fun hmem => ⟨hindex' (h hmem).1, hcancelled' (h hmem).2⟩
  | _ => trivial

lemma submitStep_fresh (hviews : s.Views c) (hinv : s.Inv c) (hstep : s.submitStep c j = some s')
    (hi : (s'.submitter j).holds = some i) : (s'.submitter j).Fresh (s'.slot i) := by
  have hold : ∀ k, (s.submitter j).holds = some k → (s.submitter j).Fresh (s.slot k) :=
    fun k hk => hviews.fresh j k hk
  unfold submitStep at hstep
  cases hpc : s.submitter j <;> simp only [hpc] at hstep <;> rw [hpc] at hold
  case scan k =>
    split_ifs at hstep <;> (cases hstep; simp [setSubmitter, SubmitPc.holds] at hi)
  case reserve k =>
    split_ifs at hstep
    · cases hstep
      simp [setSubmitter, SubmitPc.holds] at hi
    · cases hstep
      simp only [setSubmitter, update_self, SubmitPc.Fresh]
      exact ⟨.inl (by simp [fillStores]), .inl (by simp [fillStores])⟩
  case fill k todo =>
    have hfresh := hold k rfl
    cases todo with
    | nil =>
      cases hstep
      simp only [setSubmitter, update_self, SubmitPc.holds, Option.some.injEq] at hi ⊢
      subst hi
      simpa [SubmitPc.Fresh] using hfresh
    | cons st todo =>
      cases hstep
      simp only [setSubmitter, update_self, SubmitPc.holds, Option.some.injEq] at hi ⊢
      subst hi
      have hmem := hinv.fill_mem hpc
      simp only [fillStores, List.mem_cons, List.not_mem_nil, or_false] at hmem
      obtain ⟨hindex, hcancelled⟩ := hfresh
      simp only [List.mem_cons] at hindex hcancelled
      simp only [put, update_self, SubmitPc.Fresh]
      rcases hmem with rfl | rfl | rfl | rfl | rfl | rfl | rfl | rfl | rfl
      all_goals simp_all [JobQueueEntry.store]
  case track k =>
    split_ifs at hstep
    cases hstep
    simp only [setSubmitter, update_self, SubmitPc.holds, Option.some.injEq] at hi ⊢
    subst hi
    exact hold k rfl
  case enqueue k =>
    cases hmutex : s.enqueueMutex <;> simp only [hmutex] at hstep
    · cases hstep
      have hfresh := hold k rfl
      simp only [setSubmitter, update_self, SubmitPc.holds, publishStores] at hi ⊢
      obtain rfl : k = i := by simpa using hi
      exact fun _ => hfresh
    · cases hstep
  case publish k todo =>
    cases todo with
    | nil =>
      cases hstep
      simp [setSubmitter, SubmitPc.holds] at hi
    | cons st todo =>
      cases hstep
      have hfresh := hold k (by simp [SubmitPc.holds])
      simp only [setSubmitter, update_self, SubmitPc.holds] at hi ⊢
      split_ifs at hi
      obtain rfl : k = i := Option.some.inj hi
      simp only [put, update_self]
      intro hmem
      have hall := hfresh (List.mem_cons_of_mem _ hmem)
      obtain ⟨seq, ⟨rfl, -⟩ | ⟨rfl, -⟩ | ⟨rfl, -⟩⟩ := hinv.publish_shape hpc <;> exact hall
  case done => cases hstep

lemma step_slots (h : s.Views c) (hinv : s.Inv c) (hfits : s.Fits c) (hproc : s.Processes c)
    (hstep : s.step c a = some s') :
    (∀ i j (n : ℕ), s'.published i = some j → (s'.slot i).workerIndex = n →
      0 < (s'.slot i).workerPid ∧ c.workerId (s'.slot i).workerPid = n) ∧
    (∀ i j, s'.published i = some j → (s'.slot i).cancelled = true → s'.flagged i = some j) ∧
    ∀ j i, (s'.submitter j).holds = some i → (s'.submitter j).Fresh (s'.slot i) := by
  -- a job that is published now comes with a fresh slot
  have hnew : ∀ i j todo, s.submitter j = .publish i (.ready true :: todo) →
      (s.slot i).workerIndex = -1 ∧ (s.slot i).cancelled = false := by
    intro i j todo hpc
    have hfresh := h.fresh j i (by simp [hpc, SubmitPc.holds])
    rw [hpc] at hfresh
    exact hfresh List.mem_cons_self
  -- the job that a flag was set for is the one that is published
  have hjob : ∀ i k j, s.freedSlot a = none →
      (s.canceller.job = some (i, k) ∨ s.dispatcher.job = some (i, k)) →
      s'.published i = some j → k = j := by
    intro i k j hfreed hviews hj
    have hold : s.published i = some k := by
      rcases hviews with hcancel | hdispatch
      · exact h.cancelling i k hcancel
      · exact h.dispatched i k hdispatch
    have hstays := published_stays hinv hfits hstep hold (by rw [hfreed]; simp)
    rw [hj] at hstays
    exact (Option.some.inj hstays).symm
  refine ⟨?_, ?_, ?_⟩
  · intro i j n hj hn
    rcases workerIndex_step hinv hstep i with hsame | hminus | ⟨q, hpc, hindex, hpid⟩
    · rw [hsame] at hn
      rcases published_back hinv hstep hj with hold | ⟨-, -, todo, hpc⟩
      · obtain ⟨hpos, hid⟩ := h.index i j n hold hn
        rw [workerPid_stays hinv hstep hold hpos]
        exact ⟨hpos, hid⟩
      · rw [(hnew i j todo hpc).1] at hn
        omega
    · rw [hminus] at hn
      omega
    · rw [hindex] at hn
      rw [hpid]
      have hpos : 0 < q := by
        apply hproc.positive q
        by_contra hno
        rw [Bool.not_eq_true] at hno
        rw [(hproc.unforked q hno).1] at hpc
        cases hpc
      exact ⟨hpos, by exact_mod_cast hn⟩
  · intro i j hj hcancelled
    rcases flagged_step hstep i with hflag | ⟨k, hflag, hfreed, hviews⟩
    · rcases cancelled_step hinv hstep i with hsame | hfalse | ⟨k, hk, hfreed, hviews⟩
      · rw [hsame] at hcancelled
        rcases published_back hinv hstep hj with hold | ⟨-, -, todo, hpc⟩
        · rw [hflag, h.flagged i j hold hcancelled]
        · rw [(hnew i j todo hpc).2] at hcancelled
          cases hcancelled
      · rw [hfalse] at hcancelled
        cases hcancelled
      · rw [hk, hjob i k j hfreed hviews hj]
    · rw [hflag, hjob i k j hfreed hviews hj]
  · intro j i hi
    by_cases ha : a = .submit j
    · subst ha
      exact submitStep_fresh h hinv hstep hi
    · have hsame : s'.submitter j = s.submitter j := by
        by_cases ha' : ∃ k, a = .submit k
        · obtain ⟨k, rfl⟩ := ha'
          exact (submitStep_frame hstep).others j (fun heq => ha (by rw [heq]))
        · rw [(step_threads hstep).1 fun k hk => ha' ⟨k, hk⟩]
      rw [hsame] at hi ⊢
      have hfresh := h.fresh j i hi
      have hcontent := hfits.submitter j i hi
      -- after the publication nothing is claimed of the slot
      by_cases hpublished : ∃ k, s.published i = some k
      · obtain ⟨k, hk⟩ := hpublished
        cases hpc : s.submitter j <;> rw [hpc] at hcontent
        case fill | track | enqueue =>
          rw [hcontent.1] at hk
          cases hk
        case publish =>
          intro hmem
          rw [hcontent.2 hmem] at hk
          cases hk
        all_goals trivial
      · refine fresh_mono hfresh ?_ ?_
        · rcases workerIndex_step hinv hstep i with hsame | hminus | ⟨q, hpc, -, -⟩
          · exact .inl hsame
          · exact .inr hminus
          · have hworker : s.holds (.worker q) = some i := by
              simp only [holds, hpc, WorkerPc.holds]
            have hsub : s.holds (.submitter j) = some i := hi
            cases hinv.eq_of_holds hworker hsub
        · rcases cancelled_step hinv hstep i with hsame | hfalse | ⟨k, -, -, hviews⟩
          · exact .inl hsame
          · exact .inr hfalse
          · rcases hviews with hcancel | hdispatch
            · exact absurd ⟨k, h.cancelling i k hcancel⟩ hpublished
            · exact absurd ⟨k, h.dispatched i k hdispatch⟩ hpublished

structure CancelOk (s : Server) (pc : CancelPc) : Prop where
  slot : ∀ i, pc.slot = some i → ∃ k, s.published i = some k
  job : ∀ i j, pc.job = some (i, j) → s.published i = some j
  target : ∀ i pid, pc.target = some (i, pid) → 0 < pid → (s.slot i).workerPid = pid

lemma cancelOk_of_none {pc : CancelPc} (hslot : pc.slot = none) (hjob : pc.job = none)
    (htarget : pc.target = none) : CancelOk s pc := by
  constructor
  · intro i h
    rw [hslot] at h
    cases h
  · intro i j h
    rw [hjob] at h
    cases h
  · intro i pid h
    rw [htarget] at h
    cases h

lemma CancelPc.slot_of_job {pc : CancelPc} (h : pc.job = some (i, j)) : pc.slot = some i := by
  cases pc <;> cases h <;> rfl

lemma CancelPc.job_of_target {pc : CancelPc} (h : pc.target = some (i, pid)) :
    ∃ j, pc.job = some (i, j) := by
  cases pc <;> cases h <;> exact ⟨_, rfl⟩

/-- While the slot is not recycled the cancel call stays right about it. -/
lemma CancelOk.stays {pc : CancelPc} (h : CancelOk s pc) (hinv : s.Inv c) (hfits : s.Fits c)
    (hstep : s.step c a = some s') (hfreed : ∀ i, s.freedSlot a = some i → pc.slot ≠ some i) :
    CancelOk s' pc := by
  have hne : ∀ i, pc.slot = some i → s.freedSlot a ≠ some i :=
    fun i hi heq => hfreed i heq hi
  constructor
  · intro i hi
    obtain ⟨k, hk⟩ := h.slot i hi
    exact ⟨k, published_stays hinv hfits hstep hk (hne i hi)⟩
  · intro i j hj
    exact published_stays hinv hfits hstep (h.job i j hj) (hne i (CancelPc.slot_of_job hj))
  · intro i pid hpid hpos
    obtain ⟨j, hj⟩ := CancelPc.job_of_target hpid
    have hold := h.target i pid hpid hpos
    rw [workerPid_stays hinv hstep (h.job i j hj) (by omega), hold]

lemma cancelStep_ok (h : CancelOk s s.canceller) (hinv : s.Inv c) (hfits : s.Fits c)
    (hstep : s.cancelStep c = some s') : CancelOk s s'.canceller := by
  have hidle : ∀ pc : CancelPc, pc.slot = none → pc.job = none → pc.target = none → CancelOk s pc :=
    fun pc h1 h2 h3 => cancelOk_of_none h1 h2 h3
  unfold cancelStep at hstep
  cases hpc : s.canceller <;> simp only [hpc] at hstep <;> rw [hpc] at h
  case idle => cases hstep
  case loadReady jobId k | compareId jobId k =>
    split_ifs at hstep <;> (cases hstep; exact hidle _ rfl rfl rfl)
  case reloadReady jobId k =>
    split_ifs at hstep with hready
    · cases hstep
      refine ⟨?_, ?_, ?_⟩
      · intro i hi
        cases hi
        rw [hinv.ready] at hready
        exact Option.isSome_iff_exists.mp hready
      · intro i j hj
        cases hj
      · intro i pid hpid
        cases hpid
    · cases hstep
      exact hidle _ rfl rfl rfl
  case recompareId jobId k =>
    split_ifs at hstep with hid
    · cases hstep
      refine ⟨h.slot, ?_, ?_⟩
      · intro i j hj
        cases hj
        obtain ⟨k', hk⟩ := h.slot k rfl
        have hpayload := hfits.published k k' hk
        have hsame : (s.slot k).jobId = k' := congrArg Prod.fst hpayload
        rw [hk, ← hsame, hid]
      · intro i pid hpid
        cases hpid
    · cases hstep
      exact hidle _ rfl rfl rfl
  case loadPid jobId k =>
    split_ifs at hstep with hpos
    · cases hstep
      refine ⟨h.slot, h.job, ?_⟩
      intro i pid hpid _
      cases hpid
      rfl
    · cases hstep
      refine ⟨h.slot, h.job, ?_⟩
      intro i pid hpid hpid'
      cases hpid
      omega
  case loadClaimed jobId k pid =>
    split_ifs at hstep
    · cases hstep
      exact ⟨h.slot, h.job, h.target⟩
    · cases hstep
      refine ⟨h.slot, h.job, ?_⟩
      intro i pid hpid hpos
      cases hpid
      omega
  case setCancelled jobId k pid =>
    cases hstep
    by_cases hpos : 0 < pid
    · simp only [if_pos hpos]
      exact ⟨h.slot, h.job, h.target⟩
    · simp only [if_neg hpos]
      exact hidle _ rfl rfl rfl
  case kill jobId k pid =>
    cases hstep
    exact hidle _ rfl rfl rfl

structure DispatchOk (c : ServerConfig) (s : Server) (pc : DispatchPc) : Prop where
  slot : ∀ i, pc.slot = some i → ∃ k, s.published i = some k
  job : ∀ i j, pc.job = some (i, j) → s.published i = some j
  route : ∀ i index, pc.route = some (i, index) →
    0 < (s.slot i).workerPid ∧ c.workerId (s.slot i).workerPid = index
  target : ∀ i pid, pc.target = some (i, pid) → 0 < pid → (s.slot i).workerPid = pid

variable {pc : DispatchPc}

lemma DispatchPc.slot_of_job (h : pc.job = some (i, j)) : pc.slot = some i := by
  cases pc <;> cases h <;> rfl

lemma DispatchPc.job_of_route {index : ℕ} (h : pc.route = some (i, index)) :
    ∃ j, pc.job = some (i, j) := by
  cases pc <;> cases h <;> exact ⟨_, rfl⟩

lemma DispatchPc.job_of_target (h : pc.target = some (i, pid)) : ∃ j, pc.job = some (i, j) := by
  cases pc <;> cases h
  exact ⟨_, rfl⟩

lemma DispatchOk.stays (h : DispatchOk c s pc) (hinv : s.Inv c) (hfits : s.Fits c)
    (hstep : s.step c a = some s') (hfreed : ∀ i, s.freedSlot a = some i → pc.slot ≠ some i) :
    DispatchOk c s' pc := by
  have hne : ∀ i, pc.slot = some i → s.freedSlot a ≠ some i :=
    fun i hi heq => hfreed i heq hi
  constructor
  · intro i hi
    obtain ⟨k, hk⟩ := h.slot i hi
    exact ⟨k, published_stays hinv hfits hstep hk (hne i hi)⟩
  · intro i j hj
    exact published_stays hinv hfits hstep (h.job i j hj) (hne i (DispatchPc.slot_of_job hj))
  · intro i index hindex
    obtain ⟨j, hj⟩ := DispatchPc.job_of_route hindex
    obtain ⟨hpos, hid⟩ := h.route i index hindex
    rw [workerPid_stays hinv hstep (h.job i j hj) hpos]
    exact ⟨hpos, hid⟩
  · intro i pid hpid hpos
    obtain ⟨j, hj⟩ := DispatchPc.job_of_target hpid
    have hold := h.target i pid hpid hpos
    rw [workerPid_stays hinv hstep (h.job i j hj) (by omega), hold]

/-- A step of the dispatch loop that learns nothing new. -/
lemma DispatchOk.weaken {pc' : DispatchPc} (h : DispatchOk c s pc)
    (hslot : pc'.slot = pc.slot ∨ pc'.slot = none) (hjob : pc'.job = pc.job ∨ pc'.job = none)
    (hroute : pc'.route = pc.route ∨ pc'.route = none) (htarget : pc'.target = none) :
    DispatchOk c s pc' := by
  constructor
  · intro i hi
    rcases hslot with hsame | hnone
    · exact h.slot i (by rw [← hsame, hi])
    · rw [hnone] at hi
      cases hi
  · intro i j hj
    rcases hjob with hsame | hnone
    · exact h.job i j (by rw [← hsame, hj])
    · rw [hnone] at hj
      cases hj
  · intro i index hindex
    rcases hroute with hsame | hnone
    · exact h.route i index (by rw [← hsame, hindex])
    · rw [hnone] at hindex
      cases hindex
  · intro i pid hpid
    rw [htarget] at hpid
    cases hpid

lemma dispatchStep_ok (h : DispatchOk c s s.dispatcher) (hviews : s.Views c) (hinv : s.Inv c)
    (hfits : s.Fits c) {status : PipeWriteStatus} (hstep : s.dispatchStep c status = some s') :
    DispatchOk c s s'.dispatcher := by
  unfold dispatchStep at hstep
  cases hpc : s.dispatcher <;> simp only [hpc] at hstep <;> rw [hpc] at h
  case loadReady k =>
    split_ifs at hstep with hend hready
    · cases hstep
      exact h.weaken (.inr rfl) (.inr rfl) (.inr rfl) rfl
    · cases hstep
      refine ⟨?_, ?_, ?_, ?_⟩
      · intro i hi
        cases hi
        rw [hinv.ready] at hready
        exact Option.isSome_iff_exists.mp hready
      · intro i j hj
        cases hj
      · intro i index hindex
        cases hindex
      · intro i pid hpid
        cases hpid
    · cases hstep
      exact h.weaken (.inr rfl) (.inr rfl) (.inr rfl) rfl
  case loadClaimed k =>
    split_ifs at hstep
    · cases hstep
      exact h.weaken (.inl rfl) (.inr rfl) (.inr rfl) rfl
    · cases hstep
      exact h.weaken (.inr rfl) (.inr rfl) (.inr rfl) rfl
  case loadSent k | loadCancelled k =>
    split_ifs at hstep
    · cases hstep
      exact h.weaken (.inr rfl) (.inr rfl) (.inr rfl) rfl
    · cases hstep
      exact h.weaken (.inl rfl) (.inr rfl) (.inr rfl) rfl
  case copyId k =>
    cases hstep
    refine ⟨h.slot, ?_, ?_, ?_⟩
    · intro i j hj
      cases hj
      obtain ⟨k', hk⟩ := h.slot k rfl
      have hpayload := hfits.published k k' hk
      have hsame : (s.slot k).jobId = k' := congrArg Prod.fst hpayload
      rw [hk, hsame]
    · intro i index hindex
      cases hindex
    · intro i pid hpid
      cases hpid
  case loadIndex k jobId =>
    cases hindex : (s.slot k).workerIndex with
    | ofNat n =>
      simp only [hindex] at hstep
      cases hstep
      refine ⟨h.slot, h.job, ?_, ?_⟩
      · intro i index hroute
        cases hroute
        exact hviews.index k jobId n (h.job k jobId rfl) hindex
      · intro i pid hpid
        cases hpid
    | negSucc n =>
      simp only [hindex] at hstep
      cases hstep
      exact h.weaken (.inr rfl) (.inr rfl) (.inr rfl) rfl
  case loadChunked k jobId index =>
    cases hstep
    exact h.weaken (.inl rfl) (.inl rfl) (.inl rfl) rfl
  case take k jobId index chunked =>
    split_ifs at hstep
    · cases hstep
      exact h.weaken (.inl rfl) (.inl rfl) (.inl rfl) rfl
    · cases hstep
      exact h.weaken (.inr rfl) (.inr rfl) (.inr rfl) rfl
  case send k jobId index =>
    cases status with
    | pipeFailed =>
      split_ifs at hstep <;>
        (cases hstep; exact h.weaken (.inl rfl) (.inl rfl) (.inr rfl) rfl)
    | _ =>
      cases hstep
      exact h.weaken (.inl rfl) (.inl rfl) (.inr rfl) rfl
  case loadPid k jobId =>
    cases hstep
    refine ⟨h.slot, h.job, ?_, ?_⟩
    · intro i index hindex
      cases hindex
    · intro i pid hpid _
      cases hpid
      rfl
  case kill k jobId pid =>
    cases hstep
    exact h.weaken (.inl rfl) (.inl rfl) (.inr rfl) rfl
  case mark k jobId ok =>
    split_ifs at hstep <;> (cases hstep; exact h.weaken (.inr rfl) (.inr rfl) (.inr rfl) rfl)

lemma Undisturbed.views (h : s.Undisturbed c a) (hfreed : s.freedSlot a = some i) :
    s.canceller.slot ≠ some i ∧ s.dispatcher.slot ≠ some i ∧ s.unread c a = [] := by
  have hall := h.2
  simp only [hfreed, decide_eq_true_eq] at hall
  exact hall

lemma step_views (h : s.Views c) (hinv : s.Inv c) (hfits : s.Fits c) (hproc : s.Processes c)
    (hcond : s.Undisturbed c a) (hstep : s.step c a = some s') : s'.Views c := by
  have hcancel : CancelOk s s.canceller := ⟨h.recompared, h.cancelling, h.cancelTarget⟩
  have hdispatch : DispatchOk c s s.dispatcher :=
    ⟨h.dispatching, h.dispatched, h.routed, h.dispatchTarget⟩
  have hcancel' : CancelOk s' s'.canceller := by
    by_cases ha : a = .cancel
    · subst ha
      have hnow : CancelOk s s'.canceller := cancelStep_ok hcancel hinv hfits hstep
      exact hnow.stays hinv hfits hstep (by simp [freedSlot])
    · by_cases ha' : ∃ j, a = .startCancel j
      · obtain ⟨j, rfl⟩ := ha'
        simp only [step, startCancel] at hstep
        split_ifs at hstep
        cases hstep
        exact cancelOk_of_none rfl rfl rfl
      · rw [(step_threads hstep).2.2 ha fun j hj => ha' ⟨j, hj⟩]
        exact hcancel.stays hinv hfits hstep fun i hi => (hcond.views hi).1
  have hdispatch' : DispatchOk c s' s'.dispatcher := by
    by_cases ha : ∃ status, a = .dispatch status
    · obtain ⟨status, rfl⟩ := ha
      have hnow : DispatchOk c s s'.dispatcher := dispatchStep_ok hdispatch h hinv hfits hstep
      exact hnow.stays hinv hfits hstep (by simp [freedSlot])
    · rw [(step_threads hstep).2.1 fun status hs => ha ⟨status, hs⟩]
      exact hdispatch.stays hinv hfits hstep fun i hi => (hcond.views hi).2.1
  obtain ⟨hindex, hflagged, hfresh⟩ := step_slots h hinv hfits hproc hstep
  exact ⟨hcancel'.slot, hcancel'.job, hcancel'.target, hdispatch'.slot, hdispatch'.job,
    hdispatch'.route, hdispatch'.target, hindex, hflagged, hfresh⟩

end Server

end CuOpt.Grpc
