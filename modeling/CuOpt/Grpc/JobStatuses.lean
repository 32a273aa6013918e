import CuOpt.Grpc.JobTracker
import CuOpt.Grpc.ResultRuns

/-! The statuses in the job tracker. Submissions, status checks, cancellations and deletions come in
any order with the steps of the workers, of the monitor and of the retrieval thread; the last two
write the status that a result leads to. -/

namespace CuOpt.Grpc.Results

open Function
open Tracker (JobStatus)

def ResultStatus.verdict : ResultStatus → JobStatus
  | .success => .completed
  | .error => .failed
  | .cancelled => .cancelled

/-- The status that the retrieval thread writes in this step. -/
def State.recorded (s : State) : Action → Option (ℕ × JobStatus)
  | .retrieve _ =>
    match s.reader with
    | .update _ jobId status _ => some (jobId, status.verdict)
    | _ => none
  | _ => none

/-- The status that `mark_worker_jobs_failed` writes after the slot that it resets in this step. -/
def State.marks (s : State) : Action → Option (ℕ × JobStatus)
  | .monitor _ =>
    match s.monitor with
    | .reset _ r => some (r.jobId, r.status.verdict)
    | _ => none
  | _ => none

/-- What the tracker has for a job id. An id is used once. -/
inductive TrackerEntry
  | unused
  | tracked (status : JobStatus)
  | deleted
  deriving DecidableEq

def TrackerEntry.map (f : JobStatus → JobStatus) : TrackerEntry → TrackerEntry
  | .tracked status => .tracked (f status)
  | entry => entry

/-- What is done to a job in the tracker: the two writers are the retrieval thread and the monitor. -/
inductive Event
  | submit
  | cancel
  | erase
  | write (status : JobStatus)
  deriving DecidableEq

def Event.verdict : Event → Option JobStatus
  | .cancel => some .cancelled
  | .write status => some status
  | .submit | .erase => none

def TrackerEntry.after (entry : TrackerEntry) : Event → TrackerEntry
  | .submit => .tracked .queued
  | .cancel => entry.map fun st => if st.terminal then st else .cancelled
  | .erase => .deleted
  | .write status => entry.map fun _ => status

def eventsOf (jobId : ℕ) (events : List (ℕ × Event)) : List Event :=
  events.filterMap fun e => if e.1 = jobId then some e.2 else none

/-- From the submission of a job to its deletion. -/
def life (events : List Event) : List Event :=
  ((events.dropWhile (· ≠ .submit)).drop 1).takeWhile (· ≠ .erase)

def Follows (first : Option JobStatus) (events : List Event) : Prop :=
  ∀ status, .write status ∈ events → first.or (events.filterMap Event.verdict).head? = some status

/-- Every status that is written while the job is in the tracker is the verdict of what comes first, a
call of `cancel_job` or another such write. -/
def OneVerdict (events : List Event) : Prop := Follows none (life events)

/-- What is written is the status that the job has, if that is terminal. -/
def TrackerEntry.Accepts (entry : TrackerEntry) (e : Event) : Prop :=
  ∀ status st, e = .write status → entry = .tracked st → st.terminal = true → st = status

/-- Each step but `results` is one holding of the lock of the tracker. The flag and the kill of a
`cancelJob` reach the worker as a `crash`, an outcome or a recovery of the results, in any order.
`delete_job` is a `cancelJob` and later an `eraseJob`. -/
inductive TrackerAction
  | submitJob (jobId : ℕ)
  | checkJobStatus (jobId : ℕ) (found : Bool)
  | cancelJob (jobId : ℕ)
  | eraseJob (jobId : ℕ)
  | results (a : Action)
  | mark
  deriving DecidableEq

/-- The tracker with the results, and what the monitor has still to write. -/
structure Tracked where
  results : State
  entry : ℕ → TrackerEntry
  marking : Option (ℕ × JobStatus)

namespace Tracked

def set (s : Tracked) (jobId : ℕ) (entry : TrackerEntry) : Tracked :=
  { s with entry := update s.entry jobId entry }

def alter (s : Tracked) (jobId : ℕ) (f : JobStatus → JobStatus) : Tracked :=
  s.set jobId ((s.entry jobId).map f)

/-- The two writers do not look at the status that a job has. -/
def write (s : Tracked) : Option (ℕ × JobStatus) → Tracked
  | none => s
  | some (jobId, status) => s.alter jobId fun _ => status

def step (c : Config) (s : Tracked) : TrackerAction → Option Tracked
  | .submitJob jobId =>
    if s.entry jobId = .unused then some (s.set jobId (.tracked .queued)) else none
  | .checkJobStatus jobId found =>
    some (s.alter jobId fun st => if st = .queued ∧ found = true then .processing else st)
  | .cancelJob jobId => some (s.alter jobId fun st => if st.terminal then st else .cancelled)
  | .eraseJob jobId => if s.entry jobId = .unused then none else some (s.set jobId .deleted)
  | .results a =>
    match a, s.marking with
    | .monitor _, some _ => none
    | a, marking => (s.results.step c a).map fun t => { s.write (s.results.recorded a) with
        results := t
        marking := (s.results.marks a).or marking }
  | .mark => s.marking.map fun v => { s.write (some v) with marking := none }

def run (c : Config) (s : Tracked) (as : List TrackerAction) : Option Tracked := runFrom (step c) s as

def initial : Tracked := ⟨.initial, fun _ => .unused, none⟩

def event (s : Tracked) : TrackerAction → Option (ℕ × Event)
  | .submitJob jobId => some (jobId, .submit)
  | .checkJobStatus _ _ => none
  | .cancelJob jobId => some (jobId, .cancel)
  | .eraseJob jobId => some (jobId, .erase)
  | .results a => (s.results.recorded a).map fun v => (v.1, .write v.2)
  | .mark => s.marking.map fun v => (v.1, .write v.2)

def trace (c : Config) (s : Tracked) : List TrackerAction → List (ℕ × Event)
  | [] => []
  | a :: as => (s.event a).toList ++ (((s.step c a).map fun t => trace c t as).getD [])

/-- A terminal status stays until the job is deleted, and after a successful cancellation the job is
not completed. -/
structure Final (c : Config) (as : List TrackerAction) : Prop where
  stays : ∀ before between after s t jobId st, as = before ++ (between ++ after) →
    run c initial before = some s → run c s between = some t → s.entry jobId = .tracked st →
    st.terminal = true → .eraseJob jobId ∉ between → t.entry jobId = .tracked st
  cancelled : ∀ before between after s t jobId st,
    as = before ++ (.cancelJob jobId :: between ++ after) → run c initial before = some s →
    s.entry jobId = .tracked st → st.terminal = false →
    run c s (.cancelJob jobId :: between) = some t → t.entry jobId ≠ .tracked .completed

variable {c : Config} {s s' t : Tracked} {a : TrackerAction} {jobId j : ℕ} {st : JobStatus}
  {v : Option (ℕ × JobStatus)} {as : List TrackerAction} {e : Event} {entry : TrackerEntry}

/-- How a step changes what the tracker has for a job: only a status check is no event. -/
def Changes (event : Option (ℕ × Event)) (jobId : ℕ) (old new : TrackerEntry) : Prop :=
  (∃ e, event = some (jobId, e) ∧ new = old.after e ∧ (e = .submit → old = .unused) ∧
    (e = .erase → old ≠ .unused)) ∨
  (∀ e, event ≠ some (jobId, e)) ∧
    (new = old ∨ old = .tracked .queued ∧ new = .tracked .processing)

lemma alter_changes {f : JobStatus → JobStatus} (he : ∀ entry : TrackerEntry, entry.map f = entry.after e)
    (hsubmit : e ≠ .submit) (herase : e ≠ .erase) :
    Changes (some (jobId, e)) j (s.entry j) ((s.alter jobId f).entry j) := by
  by_cases heq : j = jobId
  · subst heq
    refine .inl ⟨e, rfl, ?_, fun h => absurd h hsubmit, fun h => absurd h herase⟩
    exact (update_self ..).trans (he _)
  · refine .inr ⟨fun e' h => heq (congrArg Prod.fst (Option.some.inj h)).symm, .inl ?_⟩
    exact update_of_ne heq _ _

lemma write_changes : Changes (v.map fun v => (v.1, Event.write v.2)) j (s.entry j)
    ((s.write v).entry j) := by
  cases v with
  | none => exact .inr ⟨nofun, .inl rfl⟩
  | some v => exact alter_changes (fun _ => rfl) nofun nofun

lemma set_changes {new : TrackerEntry} (hnew : new = (s.entry jobId).after e)
    (hsubmit : e = .submit → s.entry jobId = .unused) (herase : e = .erase → s.entry jobId ≠ .unused) :
    Changes (some (jobId, e)) j (s.entry j) ((s.set jobId new).entry j) := by
  by_cases heq : j = jobId
  · subst heq
    exact .inl ⟨e, rfl, (update_self ..).trans hnew, hsubmit, herase⟩
  · refine .inr ⟨fun e' h => heq (congrArg Prod.fst (Option.some.inj h)).symm, .inl ?_⟩
    exact update_of_ne heq _ _

lemma step_changes (hstep : s.step c a = some s') (j : ℕ) :
    Changes (s.event a) j (s.entry j) (s'.entry j) := by
  cases a with
  | submitJob jobId =>
    simp only [step] at hstep
    split_ifs at hstep with hunused
    cases hstep
    exact set_changes rfl (fun _ => hunused) nofun
  | checkJobStatus jobId found =>
    cases hstep
    refine .inr ⟨nofun, ?_⟩
    by_cases heq : j = jobId
    · subst heq
      show update s.entry j _ j = _ ∨ _ ∧ update s.entry j _ j = _
      rw [update_self]
      cases s.entry j with
      | unused | deleted => exact .inl rfl
      | tracked st =>
        rw [TrackerEntry.map]
        split_ifs with hqueued
        · exact .inr ⟨congrArg _ hqueued.1, rfl⟩
        · exact .inl rfl
    · exact .inl (update_of_ne heq _ _)
  | cancelJob jobId =>
    cases hstep
    exact alter_changes (fun _ => rfl) nofun nofun
  | eraseJob jobId =>
    simp only [step] at hstep
    split_ifs at hstep with hunused
    cases hstep
    exact set_changes rfl nofun fun _ => hunused
  | results b =>
    simp only [step] at hstep
    split at hstep
    · cases hstep
    · obtain ⟨u, -, rfl⟩ := Option.map_eq_some_iff.mp hstep
      exact write_changes
  | mark =>
    obtain ⟨v, hv, rfl⟩ := Option.map_eq_some_iff.mp hstep
    rw [event, hv]
    exact write_changes (v := some v)

def Agrees (s : Tracked) (a : TrackerAction) : Prop :=
  ∀ j e, s.event a = some (j, e) → (s.entry j).Accepts e

lemma eraseJob_of_event (h : s.event a = some (j, .erase)) : a = .eraseJob j := by
  cases a <;> simp_all [event]

lemma step_keeps (hagree : s.Agrees a) (hstep : s.step c a = some s')
    (h : s.entry jobId = .tracked st) (hst : st.terminal = true) :
    s'.entry jobId = .tracked st ∨ a = .eraseJob jobId ∧ s'.entry jobId = .deleted := by
  rcases step_changes hstep jobId with ⟨e, hevent, hnew, hsubmit, -⟩ | ⟨-, hsame | ⟨hold, -⟩⟩
  · rw [h] at hnew hsubmit
    cases e with
    | submit => cases hsubmit rfl
    | cancel => exact .inl (hnew.trans (by simp [TrackerEntry.after, TrackerEntry.map, hst]))
    | erase => exact .inr ⟨eraseJob_of_event hevent, hnew⟩
    | write status => exact .inl (hagree _ _ hevent status st rfl h hst ▸ hnew)
  · exact .inl (hsame.trans h)
  · cases h.symm.trans hold
    cases hst

lemma step_deleted (hstep : s.step c a = some s') (h : s.entry jobId = .deleted) :
    s'.entry jobId = .deleted := by
  rcases step_changes hstep jobId with ⟨e, -, hnew, hsubmit, -⟩ | ⟨-, hsame | ⟨hold, -⟩⟩
  · rw [h] at hnew hsubmit
    cases e with
    | submit => cases hsubmit rfl
    | cancel | erase | write _ => exact hnew
  · exact hsame.trans h
  · cases h.symm.trans hold

lemma run_keeps {after : List TrackerAction}
    (halong : Along (step c) Agrees s (as ++ after)) (hrun : run c s as = some t)
    (h : s.entry jobId = .tracked st) (hst : st.terminal = true) :
    t.entry jobId = .tracked st ∨ .eraseJob jobId ∈ as ∧ t.entry jobId = .deleted := by
  induction as generalizing s with
  | nil =>
    cases hrun
    exact Or.inl h
  | cons a as ih =>
    obtain ⟨u, hfirst, hrest⟩ := runFrom_cons hrun
    rcases step_keeps halong.1 hfirst h hst with h | ⟨rfl, h⟩
    · exact (ih (halong.2 u hfirst) hrest h).imp_right fun h => ⟨List.mem_cons_of_mem _ h.1, h.2⟩
    · have hdeleted := invariant_of_run (I := fun s => s.entry jobId = .deleted)
        (fun _ _ _ h hstep => step_deleted hstep h) h hrest
      exact Or.inr ⟨List.mem_cons_self, hdeleted⟩

lemma final_of_along (halong : Along (step c) Agrees initial as) : Final c as := by
  constructor
  case stays =>
    rintro before between after s t jobId st rfl hbefore hbetween h hst hnot
    exact (run_keeps (along_append halong hbefore) hbetween h hst).resolve_right fun h => hnot h.1
  case cancelled =>
    rintro before between after s t jobId st rfl hbefore h hst hbetween
    obtain ⟨u, hfirst, hrest⟩ := runFrom_cons hbetween
    have hcancelled : u.entry jobId = .tracked .cancelled := by
      cases hfirst
      show update s.entry jobId _ jobId = _
      rw [update_self, h, TrackerEntry.map, hst]
      rfl
    have hlater := (along_append halong hbefore).2 u hfirst
    rcases run_keeps hlater hrest hcancelled rfl with h | h
    · simp [h]
    · simp [h.2]

lemma along_of_final (hrun : run c initial as = some t) (hfinal : Final c as) :
    Along (step c) Agrees initial as := by
  by_contra hnot
  obtain ⟨before, a, after, u, u', rfl, -, hbefore, hbad, hstep, -⟩ := exists_of_not_along hnot hrun
  simp only [Agrees, TrackerEntry.Accepts, not_forall] at hbad
  obtain ⟨jobId, e, hevent, status, st, rfl, hold, hterminal, hne⟩ := hbad
  have hnew : u'.entry jobId = .tracked status := by
    rcases step_changes hstep jobId with ⟨e, hsame, hnew, -⟩ | ⟨hother, -⟩
    · cases hevent.symm.trans hsame
      rw [hnew, hold]
      rfl
    · exact absurd hevent (hother _)
  have hstays := hfinal.stays before [a] after u u' jobId st rfl hbefore
    (by rw [run, runFrom, hstep]; rfl) hold hterminal (fun h => by
      rw [← List.mem_singleton.mp h] at hevent
      cases hevent)
  rw [hnew] at hstays
  exact hne (TrackerEntry.tracked.inj hstays).symm

section Verdicts

variable {events : List Event} {first : Option JobStatus} {status : JobStatus}

lemma follows_cancel :
    Follows first (.cancel :: events) ↔ Follows (first.or (some .cancelled)) events := by
  cases first <;> simp [Follows, Event.verdict]

lemma follows_write : Follows first (.write status :: events) ↔
    first.or (some status) = some status ∧ Follows (first.or (some status)) events := by
  cases first <;> simp [Follows, Event.verdict]

/-- What is still to come has to follow the terminal status that the job has. -/
def Expects : TrackerEntry → List Event → Prop
  | .unused, events => OneVerdict events
  | .tracked st, events =>
    Follows (if st.terminal then some st else none) (events.takeWhile (· ≠ .erase))
  | .deleted, _ => True

lemma expects_nil : Expects entry [] := by
  cases entry with
  | unused | tracked _ => exact fun _ h => absurd h List.not_mem_nil
  | deleted => trivial

lemma expects_cons (hsubmit : e = .submit → entry = .unused) (herase : e = .erase → entry ≠ .unused)
    (hterminal : ∀ status, e = .write status → status.terminal = true) :
    Expects entry (e :: events) ↔ entry.Accepts e ∧ Expects (entry.after e) events := by
  cases entry with
  | unused =>
    cases e with
    | erase => exact absurd rfl (herase rfl)
    | submit | cancel | write _ =>
      simp [Expects, OneVerdict, life, TrackerEntry.Accepts, TrackerEntry.after, TrackerEntry.map,
        JobStatus.terminal]
  | deleted =>
    cases e with
    | submit => cases hsubmit rfl
    | cancel | erase | write _ =>
      simp [Expects, TrackerEntry.Accepts, TrackerEntry.after, TrackerEntry.map]
  | tracked st =>
    cases e with
    | submit => cases hsubmit rfl
    | erase => simp [Expects, TrackerEntry.Accepts, TrackerEntry.after, Follows]
    | cancel =>
      have htake : (Event.cancel :: events).takeWhile (· ≠ .erase) =
          .cancel :: events.takeWhile (· ≠ .erase) := rfl
      rw [Expects, htake, follows_cancel]
      cases st <;> simp [Expects, TrackerEntry.Accepts, TrackerEntry.after, TrackerEntry.map,
        JobStatus.terminal]
    | write status =>
      have htake : (Event.write status :: events).takeWhile (· ≠ .erase) =
          .write status :: events.takeWhile (· ≠ .erase) := rfl
      rw [Expects, htake, follows_write, TrackerEntry.after, TrackerEntry.map, Expects,
        if_pos (hterminal status rfl)]
      by_cases hst : st.terminal = true
      · simp only [TrackerEntry.Accepts, hst, if_true, Option.some_or]
        constructor
        · rintro ⟨heq, hrest⟩
          refine ⟨fun _ _ hw ht _ => ?_, heq ▸ hrest⟩
          cases hw
          cases ht
          exact Option.some.inj heq
        · rintro ⟨heq, hrest⟩
          have hsame := heq status st rfl rfl hst
          exact ⟨congrArg some hsame, hsame ▸ hrest⟩
      · simp only [TrackerEntry.Accepts, hst]
        refine ⟨fun h => ⟨fun _ _ _ ht hc => ?_, h.2⟩, fun h => ⟨rfl, h.2⟩⟩
        cases ht
        exact absurd hc hst

end Verdicts

def MarksVerdict (s : Tracked) : Prop := ∀ v ∈ s.marking, v.2.terminal = true

lemma verdict_terminal (status : ResultStatus) : status.verdict.terminal = true := by
  cases status <;> rfl

lemma step_marksVerdict (hs : s.MarksVerdict) (hstep : s.step c a = some s') : s'.MarksVerdict := by
  cases a with
  | submitJob jobId =>
    simp only [step] at hstep
    split_ifs at hstep
    cases hstep
    exact hs
  | checkJobStatus jobId found | cancelJob jobId =>
    cases hstep
    exact hs
  | eraseJob jobId =>
    simp only [step] at hstep
    split_ifs at hstep
    cases hstep
    exact hs
  | mark =>
    obtain ⟨v, -, rfl⟩ := Option.map_eq_some_iff.mp hstep
    exact nofun
  | results b =>
    simp only [step] at hstep
    split at hstep
    · cases hstep
    · obtain ⟨u, -, rfl⟩ := Option.map_eq_some_iff.mp hstep
      intro v hv
      rcases Option.or_eq_some_iff.mp hv with hmarks | ⟨-, hmarking⟩
      · simp only [State.marks] at hmarks
        split at hmarks
        · split at hmarks
          · cases hmarks
            exact verdict_terminal _
          · cases hmarks
        · cases hmarks
      · exact hs v hmarking

lemma terminal_of_write (hs : s.MarksVerdict) {status : JobStatus}
    (hevent : s.event a = some (j, .write status)) : status.terminal = true := by
  cases a with
  | submitJob jobId | checkJobStatus jobId found | cancelJob jobId | eraseJob jobId => cases hevent
  | mark =>
    obtain ⟨v, hv, hsame⟩ := Option.map_eq_some_iff.mp hevent
    cases hsame
    exact hs v hv
  | results b =>
    obtain ⟨v, hv, hsame⟩ := Option.map_eq_some_iff.mp hevent
    cases hsame
    simp only [State.recorded] at hv
    split at hv
    · split at hv
      · cases hv
        exact verdict_terminal _
      · cases hv
    · cases hv

lemma expects_step {events : List (ℕ × Event)} (hs : s.MarksVerdict) (hstep : s.step c a = some s') :
    (∀ j, Expects (s.entry j) (eventsOf j ((s.event a).toList ++ events))) ↔
      s.Agrees a ∧ ∀ j, Expects (s'.entry j) (eventsOf j events) := by
  have hone (j : ℕ) : Expects (s.entry j) (eventsOf j ((s.event a).toList ++ events)) ↔
      (∀ e, s.event a = some (j, e) → (s.entry j).Accepts e) ∧
        Expects (s'.entry j) (eventsOf j events) := by
    rcases step_changes hstep j with ⟨e, hevent, hnew, hsubmit, herase⟩ | ⟨hother, hnew⟩
    · have hlist : eventsOf j ((s.event a).toList ++ events) = e :: eventsOf j events := by
        simp [eventsOf, hevent]
      rw [hlist, expects_cons hsubmit herase fun status h => terminal_of_write hs (h ▸ hevent), hnew]
      simp [hevent]
    · have hlist : eventsOf j ((s.event a).toList ++ events) = eventsOf j events := by
        cases hevent : s.event a with
        | none => rfl
        | some v =>
          have hne : v.1 ≠ j := fun h => hother v.2 (hevent.trans (by rw [← h]))
          simp [eventsOf, hne]
      have hentry : Expects (s.entry j) (eventsOf j events) ↔
          Expects (s'.entry j) (eventsOf j events) := by
        rcases hnew with hsame | ⟨hold, hnew⟩
        · rw [hsame]
        · rw [hold, hnew]
          rfl
      rw [hlist, hentry]
      exact (and_iff_right fun e h => absurd h (hother e)).symm
  simp only [hone, forall_and]
  rfl

/-- Along the run every write agrees with the status exactly if the events to come do. -/
lemma along_agrees_iff (hs : s.MarksVerdict) (hrun : run c s as = some t) :
    Along (step c) Agrees s as ↔ ∀ j, Expects (s.entry j) (eventsOf j (trace c s as)) := by
  induction as generalizing s with
  | nil => exact iff_of_true trivial fun j => expects_nil
  | cons a as ih =>
    obtain ⟨u, hfirst, hrest⟩ := runFrom_cons hrun
    have htrace : trace c s (a :: as) = (s.event a).toList ++ trace c u as := by
      simp [trace, hfirst]
    rw [htrace, expects_step hs hfirst, ← ih (step_marksVerdict hs hfirst) hrest, Along, hfirst]
    simp

theorem final_iff (hrun : run c initial as = some t) :
    Final c as ↔ ∀ j, OneVerdict (eventsOf j (trace c initial as)) := by
  have hsame := along_agrees_iff (s := initial) (fun _ h => absurd h (by simp [initial])) hrun
  exact ⟨fun h => hsame.mp (along_of_final hrun h), fun h => final_of_along (hsame.mpr h)⟩

def retrievedRun : List TrackerAction :=
  .submitJob 7 :: .checkJobStatus 7 true ::
    (State.postingRun ++ List.replicate 6 (Action.work 1 true) ++
      List.replicate 8 (Action.retrieve true)).map .results

theorem retrieved_final : Final State.server (retrievedRun ++ [.results (.retrieve true)]) := by
  have hsome : (run State.server initial (retrievedRun ++ [.results (.retrieve true)])).isSome = true := by
    decide +kernel
  obtain ⟨t, hrun⟩ := Option.isSome_iff_exists.mp hsome
  have htrace : trace State.server initial (retrievedRun ++ [.results (.retrieve true)]) =
      [(7, .submit), (7, .write .completed)] := by
    decide +kernel
  refine (final_iff hrun).mpr fun j => ?_
  rw [htrace]
  by_cases hj : 7 = j
  · subst hj
    simp [eventsOf, OneVerdict, life, Follows, Event.verdict]
  · simp [eventsOf, OneVerdict, life, Follows, hj]

/-- A cancellation succeeds just before the retrieval thread writes the status. -/
theorem cancelled_job_completes : ¬ ∀ c as t, run c initial as = some t → Final c as := by
  intro h
  have hsome : ((run State.server initial retrievedRun).bind fun s =>
      (run State.server s [.cancelJob 7, .results (.retrieve true)]).map fun t =>
        (s.entry 7, t.entry 7)) = some (.tracked .processing, .tracked .completed) := by
    decide +kernel
  obtain ⟨s, hbefore, hsome⟩ := Option.bind_eq_some_iff.mp hsome
  obtain ⟨t, hbetween, hentry⟩ := Option.map_eq_some_iff.mp hsome
  obtain ⟨hold, hnew⟩ := Prod.mk.inj hentry
  have hwhole : (run State.server initial
      (retrievedRun ++ [.cancelJob 7, .results (.retrieve true)])).isSome = true := by
    decide +kernel
  obtain ⟨u, hrun⟩ := Option.isSome_iff_exists.mp hwhole
  exact (h _ _ u hrun).cancelled retrievedRun [.results (.retrieve true)] [] s t 7 .processing rfl
    hbefore hold rfl hbetween hnew

end Tracked

end CuOpt.Grpc.Results
