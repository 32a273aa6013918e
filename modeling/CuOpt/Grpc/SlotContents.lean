import CuOpt.Grpc.SlotOwnership

/-! What a published slot carries, in the runs where every submission reserves a slot that is still
unpublished. -/

namespace CuOpt.Grpc

open Function
open List (replicate)

def JobQueueEntry.payload (e : JobQueueEntry) : ℕ × Request :=
  (e.jobId, ⟨e.problemCategory, e.dataSize, e.isChunked, e.unifiedHeader⟩)

variable {e e' : JobQueueEntry}

lemma JobQueueEntry.payload_store (h : e.payload = e'.payload) (st : Store) :
    (e.store st).payload = (e'.store st).payload := by
  cases st <;> simp_all [JobQueueEntry.payload, JobQueueEntry.store]

lemma JobQueueEntry.payload_stores (h : e.payload = e'.payload) (todo : List Store) :
    (todo.foldl JobQueueEntry.store e).payload = (todo.foldl JobQueueEntry.store e').payload := by
  induction todo generalizing e e' with
  | nil => exact h
  | cons st todo ih => exact ih (payload_store h st)

/-- Filling a slot leaves the job in it, whatever was there. -/
def SubmitPc.Fits (job : ℕ × Request) (e : JobQueueEntry) (published : Option ℕ) : SubmitPc → Prop
  | .fill _ todo => published = none ∧ (todo.foldl JobQueueEntry.store e).payload = job
  | .track _ | .enqueue _ => published = none ∧ e.payload = job
  | .publish _ todo => e.payload = job ∧ (Store.ready true ∈ todo → published = none)
  | .scan _ | .reserve _ | .done _ => True

lemma SubmitPc.Fits.congr {job : ℕ × Request} {published : Option ℕ} {pc : SubmitPc}
    (h : pc.Fits job e published) (heq : e'.payload = e.payload) : pc.Fits job e' published := by
  cases pc with
  | fill i todo => exact ⟨h.1, (JobQueueEntry.payload_stores heq todo).trans h.2⟩
  | track i | enqueue i => exact ⟨h.1, heq.trans h.2⟩
  | publish i todo => exact ⟨heq.trans h.1, h.2⟩
  | _ => trivial

namespace Server

variable (c : ServerConfig)

def ReservesUnpublished (s : Server) (a : Action) : Prop :=
  (match a with
  | .submit jobId =>
    match s.submitter jobId with
    | .reserve i => (s.slot i).claimed || !(s.slot i).ready
    | _ => true
  | _ => true) = true

instance (s : Server) (a : Action) : Decidable (s.ReservesUnpublished a) :=
  inferInstanceAs (Decidable (_ = true))

/-- The reset of the slot that the action starts, on behalf of the worker process that is returned. -/
def startsReset (s : Server) (i : ℕ) : Action → Option ℕ
  | .work pid => if s.worker pid = .reset i resetStores then some pid else none
  | .monitor =>
    match s.monitor with
    | .reset pid i' todo => if i' = i ∧ todo = resetStores then some pid else none
    | _ => none
  | _ => none

structure Fits (s : Server) : Prop where
  published : ∀ i j, s.published i = some j → (s.slot i).payload = (j, c.request j)
  submitter : ∀ j i, (s.submitter j).holds = some i →
    (s.submitter j).Fits (j, c.request j) (s.slot i) (s.published i)

variable {c} {s s' : Server}

lemma initial_fits : initial.Fits c := by
  constructor
  · intro i j hj
    cases hj
  · intro j i hi
    cases hi

lemma Fits.of_same (h : s.Fits c) (hpayload : ∀ i, (s'.slot i).payload = (s.slot i).payload)
    (hpublished : s'.published = s.published)
    (hsubmitter : ∀ j i, (s'.submitter j).holds = some i →
      (s'.submitter j).Fits (j, c.request j) (s.slot i) (s.published i)) : s'.Fits c := by
  constructor
  · intro i j hj
    rw [hpublished] at hj
    rw [hpayload, h.published i j hj]
  · intro j i hi
    rw [hpublished]
    exact (hsubmitter j i hi).congr (hpayload i)

variable {x : Party} {i pid : ℕ}

lemma Fits.of_held (h : s.Fits c) (hinv : s.Inv c) (hheld : s.holds x = some i)
    (hslot : ∀ k, k ≠ i → s'.slot k = s.slot k) (hpub : ∀ k, k ≠ i → s'.published k = s.published k)
    (hother : ∀ j, x ≠ .submitter j → s'.submitter j = s.submitter j)
    (hself : ∀ j, x = .submitter j → ∀ k, (s'.submitter j).holds = some k →
      k = i ∧ (s'.submitter j).Fits (j, c.request j) (s'.slot i) (s'.published i))
    (hpublished : ∀ j, s'.published i = some j → (s'.slot i).payload = (j, c.request j)) :
    s'.Fits c := by
  constructor
  · intro k j hj
    by_cases hk : k = i
    · subst hk
      exact hpublished j hj
    · rw [hpub k hk] at hj
      rw [hslot k hk, h.published k j hj]
  · intro j k hk
    by_cases hx : x = .submitter j
    · obtain ⟨rfl, hfits⟩ := hself j hx k hk
      exact hfits
    · rw [hother j hx] at hk ⊢
      have hne : k ≠ i := by
        rintro rfl
        have hsame : s.holds (.submitter j) = some k := hk
        exact hx (hinv.eq_of_holds hheld hsame)
      rw [hslot k hne, hpub k hne]
      exact h.submitter j k hk

lemma put_slot_of_ne (x : Party) (st : Store) {k : ℕ} (hk : k ≠ i) :
    (s.put x i st).slot k = s.slot k := by
  simp only [put, update_of_ne hk]

lemma put_published_of_ne (x : Party) (st : Store) {k : ℕ} (hk : k ≠ i) :
    (s.put x i st).published k = s.published k := by
  simp only [put, update_of_ne hk]

variable {st : Store}

lemma flag_payload (hst : ((s.slot i).store st).payload = (s.slot i).payload) (k : ℕ) :
    (update s.slot i ((s.slot i).store st) k).payload = (s.slot k).payload := by
  by_cases hk : k = i
  · rw [hk, update_self, hst]
  · rw [update_of_ne hk]

section Submit

variable {jobId : ℕ}

lemma Fits.submitter_local (h : s.Fits c) {pc' : SubmitPc} (hslot : s'.slot = s.slot)
    (hpublished : s'.published = s.published)
    (hsubmitter : s'.submitter = update s.submitter jobId pc')
    (hfits : ∀ i, pc'.holds = some i →
      pc'.Fits (jobId, c.request jobId) (s.slot i) (s.published i)) : s'.Fits c := by
  refine h.of_same (fun i => by rw [hslot]) hpublished ?_
  intro j i hi
  by_cases hj : j = jobId
  · subst hj
    rw [hsubmitter, update_self] at hi ⊢
    exact hfits i hi
  · rw [hsubmitter, update_of_ne hj] at hi ⊢
    exact h.submitter j i hi

lemma Fits.submitter_put (h : s.Fits c) (hinv : s.Inv c) {i : ℕ} {st : Store} {pc' : SubmitPc}
    (hheld : (s.submitter jobId).holds = some i) (hholds : ∀ k, pc'.holds = some k → k = i)
    (hfits : pc'.Fits (jobId, c.request jobId) ((s.slot i).store st)
      (publishedAfter (.submitter jobId) (s.published i) st))
    (hpublished : ∀ j, publishedAfter (.submitter jobId) (s.published i) st = some j →
      ((s.slot i).store st).payload = (j, c.request j)) :
    ((s.put (.submitter jobId) i st).setSubmitter jobId pc').Fits c := by
  have hheld' : s.holds (.submitter jobId) = some i := hheld
  refine h.of_held hinv hheld' (fun k hk => put_slot_of_ne (.submitter jobId) st hk)
    (fun k hk => put_published_of_ne (.submitter jobId) st hk) ?_ ?_ ?_
  · intro j hj
    have hne : j ≠ jobId := fun heq => hj (by rw [heq])
    simp only [setSubmitter, put, update_of_ne hne]
  · intro j hj k hk
    cases hj
    simp only [setSubmitter, update_self, put] at hk ⊢
    exact ⟨hholds k hk, hfits⟩
  · intro j hj
    simp only [setSubmitter, put, update_self] at hj ⊢
    exact hpublished j hj

lemma submitStep_fits (h : s.Fits c) (hinv : s.Inv c)
    (hcond : s.ReservesUnpublished (.submit jobId)) (hstep : s.submitStep c jobId = some s') :
    s'.Fits c := by
  unfold submitStep at hstep
  have hscan : ∀ pc : SubmitPc, pc.holds = none → (s.setSubmitter jobId pc).Fits c := by
    intro pc hnone
    refine h.submitter_local rfl rfl rfl ?_
    intro i hi
    rw [hnone] at hi
    cases hi
  cases hpc : s.submitter jobId with
  | scan i =>
    simp only [hpc] at hstep
    split_ifs at hstep <;> (cases hstep; exact hscan _ rfl)
  | reserve i =>
    simp only [hpc] at hstep
    split_ifs at hstep with hclaimed
    · cases hstep
      exact hscan _ rfl
    · cases hstep
      rw [Bool.not_eq_true] at hclaimed
      -- the condition: nothing is published in the slot that is reserved
      have hready : (s.slot i).ready = false := by
        simp only [ReservesUnpublished, hpc, hclaimed, Bool.false_or, Bool.not_eq_true'] at hcond
        exact hcond
      have hnone : s.published i = none := by
        rw [hinv.ready i] at hready
        exact Option.isNone_iff_eq_none.mp (Option.isSome_eq_false_iff.mp hready)
      refine h.of_same (flag_payload rfl) rfl ?_
      intro j k hk
      by_cases hj : j = jobId
      · subst hj
        simp only [setSubmitter, update_self, SubmitPc.holds, Option.some.injEq] at hk ⊢
        subst hk
        exact ⟨hnone, rfl⟩
      · simp only [setSubmitter, update_of_ne hj, take] at hk ⊢
        exact h.submitter j k hk
  | fill i todo =>
    have hheld : (s.submitter jobId).holds = some i := by rw [hpc, SubmitPc.holds]
    have hfits := h.submitter jobId i hheld
    rw [hpc] at hfits
    obtain ⟨hnone, hpayload⟩ := hfits
    cases todo with
    | nil =>
      simp only [hpc] at hstep
      cases hstep
      refine h.submitter_local rfl rfl rfl ?_
      intro k hk
      cases hk
      exact ⟨hnone, hpayload⟩
    | cons st todo =>
      simp only [hpc] at hstep
      cases hstep
      obtain ⟨hready, -, -⟩ := fillStores_plain (hinv.fill_mem hpc)
      have hafter : publishedAfter (.submitter jobId) (s.published i) st = none := by
        rw [publishedAfter_of_ne (hready true) (hready false), hnone]
      refine h.submitter_put hinv hheld ?_ ⟨hafter, hpayload⟩ ?_
      · intro k hk
        cases hk
        rfl
      · intro j hj
        rw [hafter] at hj
        cases hj
  | track i =>
    have hfits := h.submitter jobId i (by rw [hpc, SubmitPc.holds])
    rw [hpc] at hfits
    simp only [hpc] at hstep
    split_ifs at hstep
    cases hstep
    refine h.submitter_local rfl rfl rfl ?_
    intro k hk
    cases hk
    exact hfits
  | enqueue i =>
    have hheld : (s.submitter jobId).holds = some i := by rw [hpc, SubmitPc.holds]
    have hfits := h.submitter jobId i hheld
    rw [hpc] at hfits
    obtain ⟨hnone, hpayload⟩ := hfits
    simp only [hpc] at hstep
    cases hmutex : s.enqueueMutex with
    | some j =>
      simp only [hmutex] at hstep
      cases hstep
    | none =>
      simp only [hmutex] at hstep
      cases hstep
      refine h.submitter_local rfl rfl rfl ?_
      intro k hk
      cases hk
      exact ⟨hpayload, fun _ => hnone⟩
  | publish i todo =>
    cases todo with
    | nil =>
      simp only [hpc] at hstep
      cases hstep
      exact h.submitter_local rfl rfl rfl (by simp [SubmitPc.holds])
    | cons st todo =>
      simp only [hpc] at hstep
      cases hstep
      have hheld : (s.submitter jobId).holds = some i := by simp [hpc, SubmitPc.holds]
      have hfits := h.submitter jobId i hheld
      rw [hpc] at hfits
      obtain ⟨hpayload, hnone⟩ := hfits
      obtain ⟨seq, hshape⟩ := hinv.publish_shape hpc
      have hsame : ((s.slot i).store st).payload = (s.slot i).payload := by
        rcases hshape with ⟨rfl, -⟩ | ⟨rfl, -⟩ | ⟨rfl, -⟩ <;> rfl
      refine h.submitter_put hinv hheld ?_ ⟨hsame.trans hpayload, ?_⟩ ?_
      · intro k hk
        simp only [SubmitPc.holds] at hk
        split_ifs at hk
        exact (Option.some.inj hk).symm
      · intro hmem
        rcases hshape with ⟨rfl, rfl⟩ | ⟨rfl, rfl⟩ | ⟨rfl, rfl⟩
        · rw [publishedAfter_of_ne (by simp) (by simp)]
          exact hnone (by simp)
        · simp at hmem
        · simp at hmem
      · intro j hj
        rw [hsame]
        rcases hshape with ⟨rfl, rfl⟩ | ⟨rfl, rfl⟩ | ⟨rfl, rfl⟩
        · exact h.published i j hj
        · cases hj
          exact hpayload
        · exact h.published i j hj
  | done ok =>
    simp only [hpc] at hstep
    cases hstep

end Submit

variable {todo : List Store}

/-- The store `ready = false` comes before any store to the request. -/
lemma resetOk_payload {w : ℕ} {e : JobQueueEntry} {published : Option ℕ} {j : ℕ}
    (h : ResetOk pid w published (st :: todo)) (hj : publishedAfter x published st = some j) :
    published = some j ∧ (e.store st).payload = e.payload := by
  obtain ⟨hsuffix, -, hnone⟩ := h
  simp only [resetStores, List.suffix_cons_iff, List.cons.injEq] at hsuffix
  rcases hsuffix with ⟨rfl, rfl⟩ | ⟨rfl, rfl⟩ | ⟨rfl, rfl⟩ | ⟨rfl, rfl⟩ | ⟨rfl, rfl⟩ | ⟨rfl, rfl⟩ |
    ⟨rfl, rfl⟩ | ⟨rfl, rfl⟩ | ⟨rfl, rfl⟩ | hnil
  all_goals simp_all [publishedAfter]

/-- The store neither touches the request nor publishes or unpublishes. -/
def Quiet (st : Store) : Prop :=
  (∀ e : JobQueueEntry, (e.store st).payload = e.payload) ∧ ∀ v, st ≠ .ready v

/-- The store is one of a reset by its holder, on behalf of process `pid`. -/
structure ResetBy (s : Server) (i : ℕ) (a : Action) (st : Store) (x : Party) (pid : ℕ) : Prop where
  holds : s.holds x = some i
  claimant : s.claimant x = some pid
  starts : st = .ready false → s.startsReset i a = some pid
  ok : ∃ todo, ResetOk pid (s.slot i).workerPid (s.published i) (st :: todo)
  notSubmitter : ∀ j, x ≠ .submitter j

lemma eq_resetStores {w : ℕ} {published : Option ℕ} {v : Bool}
    (h : ResetOk pid w published (.ready v :: todo)) : Store.ready v :: todo = resetStores := by
  obtain ⟨hsuffix, -, -⟩ := h
  simp only [resetStores, List.suffix_cons_iff, List.cons.injEq] at hsuffix
  simpa [resetStores] using hsuffix

lemma eq_resetStores_of_mem (h : todo <:+ resetStores) (hready : Store.ready false ∈ todo) :
    todo = resetStores := by
  simp only [resetStores, List.suffix_cons_iff] at h
  rcases h with rfl | rfl | rfl | rfl | rfl | rfl | rfl | rfl | rfl | hnil
  · rfl
  all_goals simp_all

variable {a : Action}

lemma reset_cases (todo : List Store) (hx : ∀ j, x ≠ .submitter j)
    (hstill : stillHeld (st :: todo) = true → s.holds x = some i ∧ s.claimant x = some pid)
    (hok : s.holds x = some i → ResetOk pid (s.slot i).workerPid (s.published i) (st :: todo))
    (hstarts : st :: todo = resetStores → s.startsReset i a = some pid) :
    Quiet st ∨ ResetBy s i a st x pid := by
  by_cases hheld : stillHeld (st :: todo) = true
  · obtain ⟨hholds, hclaimant⟩ := hstill hheld
    apply Or.inr
    refine ⟨hholds, hclaimant, ?_, ⟨todo, hok hholds⟩, hx⟩
    rintro rfl
    exact hstarts (eq_resetStores (hok hholds))
  · rw [Bool.not_eq_true] at hheld
    obtain ⟨-, rfl⟩ := eq_of_not_stillHeld hheld
    exact .inl ⟨fun _ => rfl, by simp⟩

lemma Touch.cases_other (hinv : s.Inv c) (h : Touch c s i a st) (ha : ∀ j, a ≠ .submit j) :
    Quiet st ∨ ∃ x pid, ResetBy s i a st x pid := by
  cases h with
  | reserve h hfree | fill h | publish h => exact absurd rfl (ha _)
  | @reset pid st todo h =>
    have hcases : Quiet st ∨ ResetBy s i (.work pid) st (.worker pid) pid := by
      refine reset_cases todo (by simp) ?_ ?_ ?_
      · intro hstill
        simp only [holds, claimant, h, WorkerPc.holds, WorkerPc.hasClaimed, if_pos hstill, and_self]
      · intro hholds
        have hknown := hinv.known _ _ hholds
        simpa only [localOk, h, WorkerPc.Ok] using hknown
      · intro hfirst
        simp only [startsReset, h, hfirst, if_true]
    exact hcases.imp_right fun hreset => ⟨_, _, hreset⟩
  | @recover pid st todo h =>
    have hcases : Quiet st ∨ ResetBy s i .monitor st .monitor pid := by
      refine reset_cases todo (by simp) ?_ ?_ ?_
      · intro hstill
        simp only [holds, claimant, h, MonitorPc.holds, if_pos hstill, and_self]
      · intro hholds
        have hknown := hinv.known _ _ hholds
        simpa only [localOk, h, MonitorPc.Ok] using hknown
      · intro hfirst
        simp only [startsReset, h, hfirst, and_self, if_true]
    exact hcases.imp_right fun hreset => ⟨_, _, hreset⟩
  | _ => exact .inl ⟨fun _ => rfl, by simp⟩

lemma step_fits (h : s.Fits c) (hinv : s.Inv c) (hcond : s.ReservesUnpublished a)
    (hstep : s.step c a = some s') : s'.Fits c := by
  by_cases ha : ∃ j, a = .submit j
  · obtain ⟨j, rfl⟩ := ha
    exact submitStep_fits h hinv hcond hstep
  have ha' : ∀ j, a ≠ .submit j := fun j hj => ha ⟨j, hj⟩
  have hsubmitter := (step_threads hstep).1 ha'
  constructor
  · intro i j hj
    rcases step_slot hstep i with ⟨hslot, hpublished⟩ | ⟨st, htouch, hslot, hpublished⟩
    · rw [hpublished] at hj
      rw [hslot, h.published i j hj]
    · rw [hpublished] at hj
      rw [hslot]
      rcases htouch.cases_other hinv ha' with ⟨hsame, hready⟩ | ⟨x, pid, hreset⟩
      · rw [publishedAfter_of_ne (hready true) (hready false)] at hj
        rw [hsame, h.published i j hj]
      · obtain ⟨todo, hok⟩ := hreset.ok
        obtain ⟨hold, hsame⟩ := resetOk_payload hok hj
        rw [hsame, h.published i j hold]
  · intro j i hi
    rw [hsubmitter] at hi ⊢
    have hfits := h.submitter j i hi
    rcases step_slot hstep i with ⟨hslot, hpublished⟩ | ⟨st, htouch, hslot, hpublished⟩
    · rw [hslot, hpublished]
      exact hfits
    · rcases htouch.cases_other hinv ha' with ⟨hsame, hready⟩ | ⟨x, pid, hreset⟩
      · rw [hslot, hpublished, publishedAfter_of_ne (hready true) (hready false)]
        exact hfits.congr (hsame _)
      · -- the slot is held by the submission, not by the party that resets it
        have hsub : s.holds (.submitter j) = some i := hi
        exact absurd (hinv.eq_of_holds hreset.holds hsub) (hreset.notSubmitter j)

lemma run_fits {as : List Action} (hrun : initial.run c as = some s)
    (hcond : Along (step c) ReservesUnpublished initial as) : s.Inv c ∧ s.Fits c := by
  refine invariant_of_along (I := fun s => s.Inv c ∧ s.Fits c) ?_ ⟨initial_inv, initial_fits⟩ hcond
    hrun
  intro s a s' h ha hstep
  exact ⟨step_inv h.1 hstep, step_fits h.2 h.1 ha hstep⟩

/-- A published job stays published until its claimant, or the monitor for it, resets the slot. -/
lemma step_published (hinv : s.Inv c) (hfits : s.Fits c) {j : ℕ} (hstep : s.step c a = some s')
    (h : s.published i = some j) :
    s'.published i = some j ∨ ∃ pid, s.startsReset i a = some pid ∧ (j, pid) ∈ s.claims := by
  rcases step_slot hstep i with ⟨-, hpublished⟩ | ⟨st, htouch, -, hpublished⟩
  · exact .inl (by rw [hpublished, h])
  rw [hpublished]
  have hquiet : (∀ v, st ≠ .ready v) → publishedAfter (actor a) (s.published i) st = some j := by
    intro hready
    rw [publishedAfter_of_ne (hready true) (hready false), h]
  by_cases ha : ∃ jobId, a = .submit jobId
  · obtain ⟨jobId, rfl⟩ := ha
    apply Or.inl
    apply hquiet
    intro v hv
    subst hv
    cases htouch with
    | fill hpc => exact (fillStores_plain (hinv.fill_mem hpc)).1 v rfl
    | @publish _ _ todo hpc =>
      -- nothing is published in a slot that a submission is about to publish
      have hheld : (s.submitter jobId).holds = some i := by simp [hpc, SubmitPc.holds]
      have hcontent := hfits.submitter jobId i hheld
      rw [hpc] at hcontent
      obtain ⟨seq, ⟨hst, -⟩ | ⟨hst, -⟩ | ⟨hst, -⟩⟩ := hinv.publish_shape hpc
      · cases hst
      · cases hst
        rw [hcontent.2 List.mem_cons_self] at h
        cases h
      · cases hst
  · rcases htouch.cases_other hinv (fun k hk => ha ⟨k, hk⟩) with ⟨-, hready⟩ | ⟨x, pid, hreset⟩
    · exact .inl (hquiet hready)
    · by_cases hst : st = .ready false
      · exact .inr ⟨pid, hreset.starts hst,
          hinv.claimedBy x i hreset.holds pid hreset.claimant j h⟩
      · apply Or.inl
        apply hquiet
        rintro v rfl
        obtain ⟨todo, hok⟩ := hreset.ok
        have hfirst := eq_resetStores hok
        simp only [resetStores, List.cons.injEq] at hfirst
        exact hst hfirst.1

/-- In every run a slot has one holder and a job is claimed once. In a run whose submissions reserve
unpublished slots only, a published job keeps its id and its request until the process that claimed
it, or the recovery of that process, starts to reset the slot. -/
theorem slots_owned (c : ServerConfig) (as : List Action) (s : Server)
    (hrun : initial.run c as = some s) :
    (∀ x y i, s.holds x = some i → s.holds y = some i → x = y) ∧ (s.claims.map Prod.fst).Nodup ∧
    (Along (step c) ReservesUnpublished initial as →
      (∀ i, (s.slot i).ready = (s.published i).isSome) ∧
      (∀ i j, s.published i = some j → (s.slot i).payload = (j, c.request j)) ∧
      ∀ a s' i j, s.step c a = some s' → s.published i = some j →
        s'.published i = some j ∨ ∃ pid, s.startsReset i a = some pid ∧ (j, pid) ∈ s.claims) := by
  have hinv : s.Inv c := run_inv hrun
  refine ⟨?_, hinv.claimsNodup, ?_⟩
  · intro x y i hx hy
    exact hinv.eq_of_holds hx hy
  · intro hcond
    have hfits : s.Fits c := (run_fits hrun hcond).2
    refine ⟨hinv.ready, hfits.published, ?_⟩
    intro a s' i j hstep hj
    exact step_published hinv hfits hstep hj

def oneSlot : ServerConfig := ⟨1, fun j => ⟨0, j, false, false⟩, fun _ => 0⟩

def twoSlots : ServerConfig := ⟨2, fun j => ⟨0, j, false, false⟩, fun _ => 0⟩

/-- A job is published and claimed, and its worker starts to reset the slot. -/
theorem slots_owned_one : ∃ s, initial.run oneSlot (replicate 18 (.submit 2) ++
      .spawn 7 :: replicate 11 (.work 7)) = some s ∧
    s.published 0 = some 2 ∧ s.claims = [(2, 7)] ∧
    (∀ x y i, s.holds x = some i → s.holds y = some i → x = y) ∧
    (s.slot 0).payload = (2, oneSlot.request 2) := by
  have hany : (initial.run oneSlot (replicate 18 (.submit 2) ++
      .spawn 7 :: replicate 11 (.work 7))).any
      (fun s => decide (s.published 0 = some 2 ∧ s.claims = [(2, 7)])) = true := by
    decide +kernel
  obtain ⟨s, hrun, hs⟩ := (Option.any_eq_true _ _).mp hany
  rw [decide_eq_true_iff] at hs
  have howned := slots_owned oneSlot _ s hrun
  have hcond : Along (step oneSlot) ReservesUnpublished initial
      (replicate 18 (.submit 2) ++ .spawn 7 :: replicate 11 (.work 7)) := by
    decide +kernel
  exact ⟨s, hrun, hs.1, hs.2, howned.1, (howned.2.2 hcond).2.1 0 2 hs.1⟩

/-- Whatever the parties find in a slot: its flags tell whether it is held and whether a job is
published there, it has no process while nobody holds it, and no job is published twice. -/
theorem slot_flags {as : List Action} (hrun : initial.run c as = some s) (i : ℕ) :
    ((s.slot i).claimed = true ↔ ∃ x, s.holds x = some i) ∧
    (s.slot i).ready = (s.published i).isSome ∧
    ((s.slot i).claimed = false → (s.slot i).workerPid = 0) ∧
    ∀ i' j, s.published i = some j → s.published i' = some j → i = i' := by
  have hinv := run_inv hrun
  refine ⟨?_, hinv.ready i, fun hfree => hinv.free i ?_, fun i' j => hinv.once i i' j⟩
  · rw [hinv.claimed, Option.isSome_iff_exists]
    exact exists_congr fun x => (hinv.own x i).symm
  · rwa [hinv.claimed, Option.isSome_eq_false_iff, Option.isNone_iff_eq_none] at hfree

theorem slot_flags_one : ∃ s, initial.run oneSlot (replicate 18 (.submit 2)) = some s ∧
    (s.slot 0).ready = (s.published 0).isSome := by
  have hsome : (initial.run oneSlot (replicate 18 (.submit 2))).isSome = true := by decide +kernel
  obtain ⟨s, hrun⟩ := Option.isSome_iff_exists.mp hsome
  exact ⟨s, hrun, (slot_flags hrun 0).2.1⟩

/-- A submission loads `ready`, another one fills and publishes the slot, and then the first one
reserves it and stores its own id over the published job. -/
theorem published_job_overwritten : ¬ ∀ (c : ServerConfig) (as : List Action) (s : Server),
    initial.run c as = some s →
      ∀ i j, s.published i = some j → (s.slot i).payload = (j, c.request j) := by
  intro hkeeps
  have hany : (initial.run oneSlot (.submit 1 :: replicate 18 (.submit 2) ++
      replicate 2 (.submit 1))).any
      (fun s => decide (s.published 0 = some 2 ∧ (s.slot 0).jobId = 1)) = true := by
    decide +kernel
  obtain ⟨s, hrun, hs⟩ := (Option.any_eq_true _ _).mp hany
  rw [decide_eq_true_iff] at hs
  have hpayload := hkeeps oneSlot _ s hrun 0 2 hs.1
  have hid : (s.slot 0).jobId = 2 := congrArg Prod.fst hpayload
  rw [hs.2] at hid
  cases hid

end Server

end CuOpt.Grpc
