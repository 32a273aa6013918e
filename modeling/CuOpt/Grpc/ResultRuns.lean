import CuOpt.Grpc.ResultDelivery

/-! Runs of the result queue: when every step is orderly, each claimed job gets exactly one result, which
reaches the tracker with its own payload. -/

namespace CuOpt.Grpc.Results

open Function
open List (replicate)

namespace State

variable {c : Config} {s s' : State} {a : Action} {x y : Party} {r : Result} {pc : WritePc}
  {i j pid w : ℕ}

def filling (s : State) : Party → Option ℕ
  | .worker pid =>
    match s.worker pid with
    | .write _ (.fill i todo) => if .ready true ∈ todo then some i else none
    | .fail _ i (_ :: _) => some i
    | _ => none
  | .monitor pid =>
    match s.monitor with
    | .write pid' _ (.fill i todo) => if pid' = pid ∧ .ready true ∈ todo then some i else none
    | _ => none

/-- A claimed job gets one result before its slot is reset, and until then its process has it or is
still to be recovered. An entry holds the result of its job until it is retrieved, is filled by one party
at a time, and not before then. The next piece on a pipe that is read is the job's own, and the tracker
has recorded results that were placed. -/
structure Delivered (s : State) : Prop where
  unclaimed : ∀ j, s.owner j = none → s.placed j = []
  atMostOnce : ∀ j, (s.placed j).length ≤ 1
  once : ∀ j, s.finished j = true → ∃ r, s.placed j = [r]
  inProgress : ∀ j pid, s.owner j = some pid → s.finished j = true ∨
    s.worker pid = .claimed j ∨ (s.working pid = some j ∧ s.recovered pid = false)
  outcome : ∀ j r, r ∈ s.placed j → r.jobId = j ∧ s.outcome j = some r
  entry : ∀ i r, s.unretrieved i = some r → r.InEntry (s.entry i) ∧ r ∈ s.placed r.jobId
  exclusive : ∀ x y i, s.filling x = some i → s.filling y = some i → x = y
  retrievedFirst : ∀ x i, s.filling x = some i → s.unretrieved i = none
  payload : ∀ i j idx piece rest, s.reader = .read i j idx → s.pipe idx.toNat = piece :: rest →
    piece.jobId = j
  records : ∀ rec ∈ s.records, ∃ r ∈ s.placed rec.jobId,
    r.status = rec.status ∧ ∀ m ∈ r.errorMessage, rec.errorMessage = some m

structure Keeps (s s' : State) : Prop where
  reader : s'.reader = s.reader
  records : s'.records = s.records
  placed : ∀ j r, r ∈ s.placed j → r ∈ s'.placed j
  unretrieved : ∀ i r, s.unretrieved i = some r → s'.unretrieved i = some r
  fresh : ∀ i r, s'.unretrieved i = some r → s.unretrieved i = some r ∨ r ∈ s'.placed r.jobId

lemma Keeps.of_same (hreader : s'.reader = s.reader := by rfl)
    (hrecords : s'.records = s.records := by rfl) (hplaced : s'.placed = s.placed := by rfl)
    (hunretrieved : s'.unretrieved = s.unretrieved := by rfl) : Keeps s s' := by
  constructor
  case reader => exact hreader
  case records => exact hrecords
  case placed =>
    rw [hplaced]
    exact fun j r hr => hr
  case unretrieved =>
    rw [hunretrieved]
    exact fun i r hr => hr
  case fresh =>
    rw [hunretrieved]
    exact fun i r hr => .inl hr

lemma Writes.keeps {pc' : WritePc} (hw : Writes s s' x r pc pc') : Keeps s s' := by
  rcases hw.placed with ⟨_, hplaced, _, hunretrieved⟩ | ⟨_, _, k, hreserved, hplaced, _, hplace⟩
  · exact Keeps.of_same hw.same.reader hw.same.records hplaced hunretrieved
  have hself : s'.placed r.jobId = r :: s.placed r.jobId := by
    rw [hplaced]
    exact update_self r.jobId _ s.placed
  constructor
  case reader => exact hw.same.reader
  case records => exact hw.same.records
  case placed =>
    intro j r' hr'
    by_cases heq : j = r.jobId
    · rw [heq, hself]
      rw [heq] at hr'
      exact List.mem_cons_of_mem r hr'
    · rw [hw.placed_of_ne heq]
      exact hr'
  case unretrieved =>
    intro i r' hr'
    have hne : i ≠ k := by
      rintro rfl
      rw [hreserved.none] at hr'
      cases hr'
    rw [hplace]
    exact (update_of_ne hne _ s.unretrieved).trans hr'
  case fresh =>
    intro i r' hr'
    rw [hplace] at hr'
    by_cases heq : i = k
    · have hplaceSelf : (s.place r k).unretrieved i = some r := by
        rw [heq]
        exact update_self k _ s.unretrieved
      cases hplaceSelf.symm.trans hr'
      rw [hself]
      exact .inr List.mem_cons_self
    · exact .inl ((update_of_ne heq _ s.unretrieved).symm.trans hr')

lemma workStep_keeps {writeOk : Bool} (he : s.Entries)
    (hstep : s.workStep c pid writeOk = some s') : Keeps s s' := by
  unfold workStep at hstep
  split at hstep
  case h_7 r wpc hnotFull hnotDone hpc =>
    cases hstep
    have hx : s.writing (.worker pid) = some (r, wpc) := congrArg WorkerPc.writing hpc
    obtain ⟨pc', hw⟩ := he.writes (c := c) hx
    exact hw.keeps
  case h_6 r i hpc =>
    split_ifs at hstep
    · cases hstep
      exact Keeps.of_same
    · cases hstep
      exact Keeps.of_same
  case h_8 r i piece todo hpc =>
    dsimp only at hstep
    split_ifs at hstep
    · cases hstep
      exact Keeps.of_same
    · cases hstep
      exact Keeps.of_same
  all_goals
    cases hstep
    try exact Keeps.of_same

lemma monitorStep_keeps {wasCancelled : Bool} (he : s.Entries)
    (hstep : s.monitorStep c wasCancelled = some s') : Keeps s s' := by
  unfold monitorStep at hstep
  split at hstep
  case h_5 pid r wpc hnotFull hnotDone hpc =>
    cases hstep
    have hx : s.writing (.monitor pid) = some (r, wpc) := writing_of_monitor hpc
    obtain ⟨pc', hw⟩ := he.writes (c := c) hx
    exact hw.keeps
  case h_2 pid hpc =>
    split at hstep
    case h_1 =>
      cases hstep
      exact Keeps.of_same
    case h_2 =>
      cases hstep
      exact Keeps.of_same
  all_goals
    cases hstep
    try exact Keeps.of_same

lemma step_keeps (he : s.Entries) (ha : ∀ readOk, a ≠ .retrieve readOk)
    (hstep : step c s a = some s') : Keeps s s' := by
  cases a with
  | spawn pid =>
    simp only [step, spawn] at hstep
    split_ifs at hstep
    cases hstep
    exact Keeps.of_same
  | claimJob pid j =>
    simp only [step, claimJob] at hstep
    split_ifs at hstep
    cases hstep
    exact Keeps.of_same
  | finish pid outcome =>
    simp only [step, finish] at hstep
    split at hstep
    · cases hstep
      exact Keeps.of_same
    · cases hstep
  | work pid writeOk => exact workStep_keeps he hstep
  | crash pid =>
    cases hstep
    exact Keeps.of_same
  | startRecovery pid =>
    simp only [step, startRecovery] at hstep
    split_ifs at hstep
    cases hstep
    exact Keeps.of_same
  | monitor wasCancelled => exact monitorStep_keeps he hstep
  | retrieve readOk => exact absurd rfl (ha readOk)

/-- What is in an entry was placed for its job, and so was what the tracker has recorded. -/
structure Reported (s : State) : Prop where
  unretrieved : ∀ i r, s.unretrieved i = some r → r ∈ s.placed r.jobId
  records : ∀ rec ∈ s.records, ∃ r ∈ s.placed rec.jobId,
    r.status = rec.status ∧ ∀ m ∈ r.errorMessage, rec.errorMessage = some m

lemma Reported.of_keeps (h : s.Reported) (hk : Keeps s s') : s'.Reported := by
  constructor
  case unretrieved =>
    intro i r hr
    rcases hk.fresh i r hr with hold | hnew
    · exact hk.placed _ r (h.unretrieved i r hold)
    · exact hnew
  case records =>
    rw [hk.records]
    intro rec hrec
    obtain ⟨r, hr, hmatch⟩ := h.records rec hrec
    exact ⟨r, hk.placed _ r hr, hmatch⟩

lemma retrieveStep_reported {readOk : Bool} (h : s.Reported) (hseen : s.Seen s.reader)
    (hstep : s.retrieveStep c readOk = some s') : s'.Reported := by
  have hsame : ∀ t : State, t.placed = s.placed → t.records = s.records →
      t.unretrieved = s.unretrieved → t.Reported := by
    intro t hplaced hrecords hunretrieved
    constructor
    case unretrieved =>
      rw [hplaced, hunretrieved]
      exact h.unretrieved
    case records =>
      rw [hplaced, hrecords]
      exact h.records
  unfold retrieveStep at hstep
  split at hstep
  case h_9 i jobId status errorMessage hpc =>
    rw [hpc] at hseen
    obtain ⟨r, hr, rfl, hstatus, hmessage⟩ := hseen
    cases hstep
    constructor
    case unretrieved => exact h.unretrieved
    case records =>
      intro rec hrec
      rcases List.mem_cons.mp hrec with rfl | hrec
      · exact ⟨r, h.unretrieved i r hr, hstatus, hmessage⟩
      · exact h.records rec hrec
  case h_10 i st todo hpc =>
    cases hstep
    unfold noteRetrieved
    split
    · constructor
      case unretrieved =>
        intro i' r hr
        have hself : update s.unretrieved i none i = none :=
          update_self i none s.unretrieved
        have hne : i' ≠ i := by
          intro heq
          rw [heq] at hr
          cases hself.symm.trans hr
        exact h.unretrieved i' r ((update_of_ne hne _ s.unretrieved).symm.trans hr)
      case records => exact h.records
    · exact hsame _ rfl rfl rfl
  all_goals
    repeat' split at hstep
    all_goals
      cases hstep
      try exact hsame _ rfl rfl rfl

structure Sound (c : Config) (s : State) : Prop where
  entries : s.Entries
  seen : s.Seen s.reader
  jobs : s.Jobs
  pipes : s.Pipes c
  reported : s.Reported

lemma initial_sound (c : Config) : initial.Sound c where
  entries := initial_entries
  seen := trivial
  jobs := initial_jobs
  pipes := initial_pipes c
  reported := ⟨fun _ _ h => (nomatch h), nofun⟩

lemma Seen.of_keeps (h : s.Seen s.reader) (hk : Keeps s s') : s'.Seen s'.reader := by
  rw [hk.reader]
  exact h.mono hk.unretrieved

lemma step_sound (h : s.Sound c) (horderly : s.Orderly c a) (hstep : step c s a = some s') :
    s'.Sound c := by
  obtain ⟨he, hseen, hj, hp, hr⟩ := h
  -- what was reported and what the retrieval thread has seen stay, as long as it does not go on itself
  have hrest : (∀ readOk, a ≠ .retrieve readOk) → s'.Entries → s'.Jobs → s'.Pipes c → s'.Sound c := by
    intro ha hentries hjobs hpipes
    have hk := step_keeps he ha hstep
    exact ⟨hentries, hseen.of_keeps hk, hjobs, hpipes, hr.of_keeps hk⟩
  cases a with
  | spawn pid =>
    exact hrest (fun _ => Action.noConfusion) (spawn_entries he hstep) (spawn_jobs hj hstep)
      (spawn_pipes hp hj horderly hstep)
  | claimJob pid j =>
    exact hrest (fun _ => Action.noConfusion) (claimJob_entries he hstep) (claimJob_jobs hj hstep)
      (claimJob_pipes hp hstep)
  | finish pid outcome =>
    exact hrest (fun _ => Action.noConfusion) (finish_entries he hstep) (finish_jobs hj hstep)
      (finish_pipes hp hstep)
  | work pid writeOk =>
    exact hrest (fun _ => Action.noConfusion)
      (workStep_entries he (fun r i todo => hj.noFail pid r i todo) horderly hstep)
      (workStep_jobs he hj horderly hstep) (workStep_pipes hp he hj horderly hstep)
  | crash pid =>
    cases hstep
    exact hrest (fun _ => Action.noConfusion) (crash_entries he) (crash_jobs hj horderly)
      (crash_pipes hp hj horderly)
  | startRecovery pid =>
    exact hrest (fun _ => Action.noConfusion) (startRecovery_entries he hstep)
      (startRecovery_jobs hj hstep) (startRecovery_pipes hp hstep)
  | monitor wasCancelled =>
    exact hrest (fun _ => Action.noConfusion) (monitorStep_entries he horderly hstep)
      (monitorStep_jobs he hj hstep) (monitorStep_pipes hp he hj hstep)
  | retrieve readOk =>
    obtain ⟨hentries, hseen'⟩ := retrieveStep_entries he hseen horderly hstep
    exact ⟨hentries, hseen', retrieveStep_jobs hj hstep,
      retrieveStep_pipes hp hseen horderly hstep, retrieveStep_reported hr hseen hstep⟩

lemma writing_of_filling (h : s.Jobs) (hx : s.filling x = some i) :
    ∃ r todo, s.writing x = some (r, .fill i todo) ∧ .ready true ∈ todo := by
  cases x with
  | worker pid =>
    simp only [filling] at hx
    split at hx
    case h_1 r i' todo hpc =>
      split_ifs at hx with hmem
      cases hx
      exact ⟨r, todo, congrArg WorkerPc.writing hpc, hmem⟩
    case h_2 r i' st todo hpc => exact absurd hpc (h.noFail pid r i' _)
    case h_3 => cases hx
  | monitor pid =>
    simp only [filling] at hx
    split at hx
    case h_1 pid' r i' todo hpc =>
      split_ifs at hx with hand
      obtain ⟨rfl, hmem⟩ := hand
      cases hx
      refine ⟨r, todo, ?_, hmem⟩
      show s.monitor.writing pid' = _
      rw [hpc]
      exact if_pos rfl
    case h_2 => cases hx

lemma Jobs.placed_length_le_one (h : s.Jobs) (j : ℕ) : (s.placed j).length ≤ 1 := by
  cases howner : s.owner j with
  | none =>
    rw [(h.unowned j howner).1]
    exact Nat.zero_le 1
  | some pid =>
    rcases h.covered j pid howner with hdone | hworks | hclaims
    · obtain ⟨r, hone⟩ := h.finished j hdone
      rw [hone]
      exact Nat.le_refl 1
    · rw [(h.working pid j hworks).2.2]
      cases s.stage pid with
      | none => exact Nat.zero_le 1
      | some r => exact Nat.le_refl 1
    · rw [(h.claimed pid j hclaims).2.2]
      exact Nat.zero_le 1

lemma Sound.delivered (h : s.Sound c) : s.Delivered := by
  obtain ⟨he, hseen, hj, hp, hr⟩ := h
  constructor
  case unclaimed => exact fun j howner => (hj.unowned j howner).1
  case atMostOnce => exact hj.placed_length_le_one
  case once => exact hj.finished
  case inProgress =>
    intro j pid howner
    rcases hj.covered j pid howner with hdone | hworks | hclaims
    · exact .inl hdone
    · refine .inr (.inr ⟨hworks, ?_⟩)
      by_contra hrecovered
      obtain ⟨-, -, hnone⟩ := hp.recovered pid (Bool.eq_true_of_not_eq_false hrecovered)
      cases hnone.symm.trans hworks
    · exact .inr (.inl hclaims)
  case outcome => exact hj.placed
  case entry => exact fun i r hsome => ⟨(he.kept i r hsome).2, hr.unretrieved i r hsome⟩
  case exclusive =>
    intro x y i hx hy
    obtain ⟨r, todo, hwrite, hmem⟩ := writing_of_filling hj hx
    obtain ⟨r', todo', hwrite', hmem'⟩ := writing_of_filling hj hy
    exact he.eq_of_fills hwrite (fills_of_mem hmem) hwrite' (fills_of_mem hmem')
  case retrievedFirst =>
    intro x i hx
    obtain ⟨r, todo, hwrite, hmem⟩ := writing_of_filling hj hx
    exact (he.reserved x r i todo hwrite hmem).none
  case payload =>
    intro i j idx piece rest hpc hpipe
    obtain ⟨todo, later, hcontent⟩ := hp.content idx.toNat
    obtain ⟨r, todo', _, hsome, hsuffix, _, _⟩ := hcontent.next hpc hpipe
    rw [hpc] at hseen
    obtain ⟨r', hsome', hjob, _⟩ := hseen
    cases hsome.symm.trans hsome'
    rw [← hjob]
    exact Result.jobId_of_mem_payload (hsuffix.subset List.mem_cons_self)
  case records => exact hr.records

/-- Every orderly run delivers the results. -/
theorem orderly_run_delivers (c : Config) (as : List Action) (s : State)
    (horderly : Along (step c) (fun s a => s.Orderly c a) initial as)
    (hrun : run c initial as = some s) : s.Delivered := by
  have hsound : s.Sound c :=
    invariant_of_along (fun s a s' hs ha => step_sound hs ha) (initial_sound c) horderly hrun
  exact hsound.delivered

def server : Config where
  maxResults := 100
  workerId := fun pid => pid - 1

def postingRun : List Action :=
  [.spawn 1, .claimJob 1 7, .work 1 true, .finish 1 (.solved ⟨true, "", 20, 1⟩)] ++
    List.replicate 9 (.work 1 true)

/-- A second worker dies before it posts a result, and the monitor posts one. -/
def deathRun : List Action :=
  postingRun ++ [.spawn 2, .claimJob 2 8, .work 2 true, .crash 2, .startRecovery 2] ++
    replicate 6 (.work 1 true) ++ replicate 16 (.monitor false) ++ replicate 21 (.retrieve true)

theorem orderly_run_delivers_one : ∃ s, run server initial deathRun = some s ∧
    s.records = [⟨8, .error, some "Worker process died unexpectedly"⟩, ⟨7, .success, none⟩] ∧
    s.Delivered := by
  have hsome : (run server initial deathRun).map (fun s => s.records) =
      some [⟨8, .error, some "Worker process died unexpectedly"⟩, ⟨7, .success, none⟩] := by
    decide +kernel
  obtain ⟨s, hrun, hrecords⟩ := Option.map_eq_some_iff.mp hsome
  exact ⟨s, hrun, hrecords, orderly_run_delivers server _ s (by decide +kernel) hrun⟩

/-- The worker dies before it resets the slot of its job, and the monitor posts a second entry. -/
theorem dead_worker_posts_twice : ¬ ∀ c as s, run c initial as = some s → s.Delivered := by
  intro h
  have hsome : (run server initial (postingRun ++ [.crash 1, .startRecovery 1] ++
      replicate 15 (.monitor false))).map
        (fun s => (s.finished 7, (s.placed 7).length)) = some (true, 2) := by
    decide +kernel
  obtain ⟨s, hrun, htwo⟩ := Option.map_eq_some_iff.mp hsome
  obtain ⟨_, hlength⟩ := Prod.mk.inj htwo
  have honce := (h server _ s hrun).atMostOnce 7
  rw [hlength] at honce
  exact absurd honce (by decide)

end State

end CuOpt.Grpc.Results
