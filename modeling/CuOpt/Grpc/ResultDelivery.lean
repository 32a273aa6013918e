import CuOpt.Grpc.ResultJobs

/-! Results on their way: in orderly runs each payload on a pipe is the one that its reader expects,
every record of the tracker is the result that was placed for the job, and each claimed job gets exactly
one result. -/

namespace CuOpt.Grpc.Results

open List Function

def WorkerPc.pending : WorkerPc → List Piece
  | .write r pc => if pc.placed then r.payload else []
  | .stream _ _ todo => todo
  | _ => []

lemma WorkerPc.pending_of_stage {pc : WorkerPc} (h : pc.stage = none) : pc.pending = [] := by
  cases pc with
  | write r wpc =>
    simp only [stage] at h
    split_ifs at h with hplaced
    exact if_neg hplaced
  | stream r i todo => cases h
  | exited | idle | claimed j | holding j | fail r i todo | reset r => rfl

variable {piece : Piece}

lemma mem_payloadOf {jobId left : ℕ} (h : piece ∈ payloadOf jobId left) :
    piece.jobId = jobId := by
  induction left with
  | zero => rw [mem_singleton.mp h]
  | succ left ih =>
    rcases mem_cons.mp h with rfl | h
    · rfl
    · exact ih h

variable {r : Result}

lemma Result.jobId_of_mem_payload (h : piece ∈ r.payload) : piece.jobId = r.jobId := by
  unfold payload at h
  split_ifs at h
  · exact mem_payloadOf h
  · cases h

lemma Result.payload_ne_nil (h : r.status = .success) : r.payload ≠ [] := by
  unfold payload
  rw [if_pos h]
  cases r.left <;> exact cons_ne_nil _ _

lemma suffix_payloadOf {jobId left : ℕ} {todo : List Piece}
    (h : piece :: todo <:+ payloadOf jobId left) : piece.left = 0 ↔ todo = [] := by
  induction left with
  | zero =>
    have hmem := mem_singleton.mp (h.subset mem_cons_self)
    have hlength := h.length_le
    simp only [payloadOf, length_cons, length_nil] at hlength
    rw [hmem]
    constructor
    · intro _
      apply eq_nil_of_length_eq_zero
      omega
    · intro _
      rfl
  | succ left ih =>
    rcases suffix_cons_iff.mp h with heq | hsuffix
    · cases heq
      constructor
      · intro hzero
        cases hzero
      · intro hnil
        cases left <;> cases hnil
    · exact ih hsuffix

lemma Result.suffix_payload {todo : List Piece} (h : piece :: todo <:+ r.payload) :
    piece.left = 0 ↔ todo = [] := by
  unfold payload at h
  split_ifs at h
  · exact suffix_payloadOf h
  · cases suffix_nil.mp h

namespace State

variable {c : Config} {s s' : State} {a : Action} {x y : Party} {r : Result} {pc : WritePc}
  {i j pid w : ℕ}

def pending (s : State) (w : ℕ) : List Piece := (s.worker (s.current w)).pending

/-- What is on the pipe of an index or still to be written is the rest `todo` of the payload that is
read, and the payloads of `rest`. -/
structure Content (s : State) (w : ℕ) (todo : List Piece) (rest : List Result) : Prop where
  pieces : s.pipe w ++ s.pending w = todo ++ rest.flatMap Result.payload
  idle : (∀ i j idx, s.reader = .read i j idx → idx.toNat ≠ w) → todo = [] ∧ s.awaiting w = rest
  reading : ∀ i j idx, s.reader = .read i j idx → idx.toNat = w →
    ∃ r, s.awaiting w = r :: rest ∧ s.unretrieved i = some r ∧ todo <:+ r.payload ∧ todo ≠ []

structure Pipes (c : Config) (s : State) : Prop where
  positive : ∀ pid, s.forked pid = true → 0 < pid
  recovered : ∀ pid, s.recovered pid = true →
    s.worker pid = .exited ∧ s.forked pid = true ∧ s.working pid = none
  current : ∀ pid, s.worker pid ≠ .exited → s.current (c.workerId pid) = pid
  index : ∀ w, s.current w ≠ 0 → c.workerId (s.current w) = w
  worker : ∀ pid r pc, s.worker pid = .write r pc → r.workerIndex = c.workerId pid
  monitor : ∀ pid r pc, s.monitor = .write pid r pc → r.status ≠ .success
  content : ∀ w, ∃ todo rest, s.Content w todo rest

lemma initial_pipes (c : Config) : initial.Pipes c := by
  constructor
  case positive | recovered => exact nofun
  case current => exact fun pid h => absurd rfl h
  case index => exact fun w h => absurd rfl h
  case worker | monitor => exact nofun
  case content =>
    intro w
    refine ⟨[], [], rfl, fun _ => ⟨rfl, rfl⟩, ?_⟩
    intro i j idx h
    cases h

lemma Pipes.current_eq (hp : s.Pipes c) (h : s.Jobs) (hw : s.current w = pid)
    (hpid : s.worker pid ≠ .exited) : w = c.workerId pid := by
  have hforked : s.forked pid = true := by
    by_contra hnot
    exact hpid (h.unforked pid (Bool.eq_false_iff.mpr hnot)).1
  have hne : s.current w ≠ 0 := by
    rw [hw]
    exact (hp.positive pid hforked).ne'
  rw [← hw]
  exact (hp.index w hne).symm

variable {todo : List Piece} {rest : List Result}

lemma Content.of_same (h : s.Content w todo rest)
    (hpieces : s'.pipe w ++ s'.pending w = s.pipe w ++ s.pending w)
    (hreader : s'.reader = s.reader) (hawaiting : s'.awaiting w = s.awaiting w)
    (hmono : ∀ i r, s.unretrieved i = some r → s'.unretrieved i = some r) :
    s'.Content w todo rest := by
  constructor
  case pieces => exact hpieces.trans h.pieces
  case idle =>
    rw [hreader, hawaiting]
    exact h.idle
  case reading =>
    intro i j idx hread hidx
    rw [hreader] at hread
    rw [hawaiting]
    obtain ⟨r, hlist, hentry, hsuffix⟩ := h.reading i j idx hread hidx
    exact ⟨r, hlist, hmono i r hentry, hsuffix⟩

section

variable {working owner : ℕ → Option ℕ} {outcome : ℕ → Option Result} {finished : ℕ → Bool}

/-- A worker goes on, and what is on its pipe or still to be written stays the same. -/
lemma Pipes.of_pieces (hp : s.Pipes c) (pc' : WorkerPc) {pipe : ℕ → List Piece}
    (hpipe : ∀ w, s.current w ≠ pid → pipe w = s.pipe w)
    (halive : s.worker pid = .exited → pc' = .exited)
    (hworking : ∀ q, s.worker q = .exited → s.working q = none → working q = none)
    (hpieces : ∀ w, s.current w = pid → pipe w ++ pc'.pending = s.pipe w ++ (s.worker pid).pending)
    (hindex : ∀ r wpc, pc' = .write r wpc → r.workerIndex = c.workerId pid) :
    Pipes c { s with
      worker := update s.worker pid pc', working := working, owner := owner, outcome := outcome
      finished := finished, pipe := pipe } := by
  have hself : update s.worker pid pc' pid = pc' := update_self pid pc' s.worker
  have hother : ∀ q, q ≠ pid → update s.worker pid pc' q = s.worker q :=
    fun q hne => update_of_ne hne pc' s.worker
  have hexited : ∀ q, s.worker q = .exited → update s.worker pid pc' q = .exited := by
    intro q hq
    by_cases heq : q = pid
    · rw [heq] at hq ⊢
      exact hself.trans (halive hq)
    · exact (hother q heq).trans hq
  constructor
  case positive => exact hp.positive
  case recovered =>
    intro q hq
    obtain ⟨hdead, hwas, hnone⟩ := hp.recovered q hq
    exact ⟨hexited q hdead, hwas, hworking q hdead hnone⟩
  case current => exact fun q hq => hp.current q fun hdead => hq (hexited q hdead)
  case index => exact hp.index
  case worker =>
    intro q r wpc hpc
    by_cases heq : q = pid
    · rw [heq] at hpc ⊢
      exact hindex r wpc (hself.symm.trans hpc)
    · exact hp.worker q r wpc ((hother q heq).symm.trans hpc)
  case monitor => exact hp.monitor
  case content =>
    intro w
    obtain ⟨todo, rest, hcontent⟩ := hp.content w
    refine ⟨todo, rest, hcontent.of_same ?_ rfl rfl fun i r hr => hr⟩
    show pipe w ++ (update s.worker pid pc' (s.current w)).pending = _
    by_cases heq : s.current w = pid
    · rw [pending, heq, hself]
      exact hpieces w heq
    · rw [hother _ heq, hpipe w heq]
      rfl

lemma Pipes.of_worker (hp : s.Pipes c) (pc' : WorkerPc)
    (halive : s.worker pid = .exited → pc' = .exited)
    (hworking : ∀ q, s.worker q = .exited → s.working q = none → working q = none)
    (hpending : pc'.pending = (s.worker pid).pending)
    (hindex : ∀ r wpc, pc' = .write r wpc → r.workerIndex = c.workerId pid) :
    Pipes c { s with
      worker := update s.worker pid pc', working := working, owner := owner, outcome := outcome
      finished := finished } :=
  hp.of_pieces pc' (fun _ _ => rfl) halive hworking (fun _ _ => by rw [hpending]) hindex

lemma Pipes.of_monitor (hp : s.Pipes c) {mpc : MonitorPc} {recovered : ℕ → Bool}
    (hrecovered : ∀ pid, recovered pid = true →
      s.worker pid = .exited ∧ s.forked pid = true ∧ working pid = none)
    (hmonitor : ∀ pid r wpc, mpc = .write pid r wpc → r.status ≠ .success) :
    Pipes c { s with
      monitor := mpc, recovered := recovered, working := working, outcome := outcome
      finished := finished } where
  __ := hp
  recovered := hrecovered
  monitor := hmonitor
  content := by
    intro w
    obtain ⟨todo, rest, hcontent⟩ := hp.content w
    exact ⟨todo, rest, hcontent.of_same rfl rfl rfl fun i r hr => hr⟩

end

lemma Pipes.place_cases {pc' : WritePc} (hp : s.Pipes c) (h : s.Jobs)
    (hw : Writes s s' x r pc pc') (hx : s.writing x = some (r, pc)) (w : ℕ) :
    (s'.pending w = s.pending w ∧ s'.awaiting w = s.awaiting w) ∨
      (s.pending w = [] ∧ s'.pending w = r.payload ∧ s'.awaiting w = s.awaiting w ++ [r]) := by
  have hpending : pc'.placed = pc.placed ∨ r.payload = [] ∨ x ≠ .worker (s.current w) →
      s'.pending w = s.pending w := by
    intro hcase
    rw [pending, pending, hw.same.current]
    rcases hw.worker_eq hx (s.current w) with hsame | ⟨hself, hbefore, hafter⟩
    · rw [hsame]
    · rw [hbefore, hafter]
      rcases hcase with hplaced | hempty | hne
      · simp only [WorkerPc.pending, hplaced]
      · simp only [WorkerPc.pending, hempty, ite_self]
      · exact absurd hself hne
  rcases hw.placed with ⟨hplaced, _, hawaiting, _⟩ | ⟨hbefore, hafter, i, _, _, hawaiting, _⟩
  · exact .inl ⟨hpending (.inl hplaced), congrFun hawaiting w⟩
  by_cases hstatus : r.status = .success
  · cases x with
    | monitor pid => exact absurd hstatus (hp.monitor pid r pc (monitor_of_writing hx))
    | worker pid =>
      have hpc := worker_of_writing hx
      have halive : s.worker pid ≠ .exited := by simp [hpc]
      have hindex : r.workerIndex.toNat = c.workerId pid := by
        rw [hp.worker pid r pc hpc]
        exact Int.toNat_natCast _
      have hplace : s'.awaiting = update s.awaiting (c.workerId pid)
          (s.awaiting (c.workerId pid) ++ [r]) := by
        rw [hawaiting, ← hindex]
        exact if_pos hstatus
      by_cases hself : w = c.workerId pid
      · have hcurrent : s.current w = pid := by
          rw [hself]
          exact hp.current pid halive
        refine .inr ⟨?_, ?_, ?_⟩
        · rw [pending, hcurrent, hpc]
          exact if_neg (by rw [hbefore]; exact Bool.false_ne_true)
        · rw [pending, hw.same.current, hcurrent, hw.workerSelf pid rfl]
          exact if_pos hafter
        · rw [hplace, hself, update_self]
      · refine .inl ⟨hpending (.inr (.inr ?_)), ?_⟩
        · intro heq
          cases heq
          exact hself (hp.current_eq h rfl halive)
        · rw [hplace, update_of_ne hself]
  · refine .inl ⟨hpending (.inr (.inl (if_neg hstatus))), ?_⟩
    rw [hawaiting]
    exact congrFun (if_neg hstatus) w

/-- A result that is placed joins the payloads to be read, and its payload those to be written. -/
lemma Pipes.of_writes {pc' : WritePc} (hp : s.Pipes c) (h : s.Jobs)
    (hw : Writes s s' x r pc pc') (hx : s.writing x = some (r, pc)) : s'.Pipes c := by
  have hmono : ∀ i r', s.unretrieved i = some r' → s'.unretrieved i = some r' := by
    intro i r' hr'
    rcases hw.placed with ⟨_, _, _, hsame⟩ | ⟨_, _, k, hreserved, _, _, hplace⟩
    · rw [hsame]
      exact hr'
    · have hne : i ≠ k := by
        rintro rfl
        rw [hreserved.none] at hr'
        cases hr'
      rw [hplace]
      exact (update_of_ne hne _ s.unretrieved).trans hr'
  constructor
  case positive =>
    rw [hw.same.forked]
    exact hp.positive
  case recovered =>
    intro pid hpid
    rw [hw.same.recovered] at hpid
    rw [(hw.worker_facts hx pid).2.1, hw.same.forked, hw.same.working]
    exact hp.recovered pid hpid
  case current =>
    intro pid hpid
    rw [hw.same.current]
    apply hp.current
    intro hexited
    exact hpid ((hw.worker_facts hx pid).2.1.mpr hexited)
  case index =>
    rw [hw.same.current]
    exact hp.index
  case worker =>
    intro pid r' wpc hpc
    rcases hw.worker_eq hx pid with hsame | ⟨_, hbefore, hafter⟩
    · rw [hsame] at hpc
      exact hp.worker pid r' wpc hpc
    · rw [hafter] at hpc
      cases hpc
      exact hp.worker pid r pc hbefore
  case monitor =>
    intro pid r' wpc hpc
    rcases hw.monitor_eq hx with hsame | ⟨pid', _, hbefore, hafter⟩
    · rw [hsame] at hpc
      exact hp.monitor pid r' wpc hpc
    · rw [hafter] at hpc
      cases hpc
      exact hp.monitor pid r pc hbefore
  case content =>
    intro w
    obtain ⟨todo, rest, hcontent⟩ := hp.content w
    rcases hp.place_cases h hw hx w with ⟨hpending, hawaiting⟩ | ⟨hbefore, hafter, hawaiting⟩
    · refine ⟨todo, rest, hcontent.of_same ?_ hw.same.reader hawaiting hmono⟩
      rw [hw.same.pipe, hpending]
    · refine ⟨todo, rest ++ [r], ?_, ?_, ?_⟩
      · have hpieces := hcontent.pieces
        rw [hbefore, append_nil] at hpieces
        rw [hw.same.pipe, hafter, hpieces, flatMap_append, flatMap_singleton, append_assoc]
      · intro hread
        rw [hw.same.reader] at hread
        obtain ⟨htodo, hrest⟩ := hcontent.idle hread
        exact ⟨htodo, by rw [hawaiting, hrest]⟩
      · intro i j idx hread hidx
        rw [hw.same.reader] at hread
        obtain ⟨r', hlist, hentry, hsuffix⟩ := hcontent.reading i j idx hread hidx
        exact ⟨r', by rw [hawaiting, hlist]; rfl, hmono i r' hentry, hsuffix⟩

lemma spawn_pipes (hp : s.Pipes c) (h : s.Jobs) (horderly : s.Orderly c (.spawn pid))
    (hstep : s.spawn c pid = some s') : s'.Pipes c := by
  have hempty : s.awaiting (c.workerId pid) = [] := horderly
  unfold spawn at hstep
  dsimp only at hstep
  split_ifs at hstep with hguard
  obtain ⟨hfresh, hpos, hold⟩ := hguard
  cases hstep
  have hexited := (h.unforked pid hfresh).1
  have hother : ∀ pid', pid' ≠ pid →
      update s.worker pid WorkerPc.idle pid' = s.worker pid' := fun pid' hne =>
    update_of_ne hne _ s.worker
  have hself : update s.worker pid WorkerPc.idle pid = .idle :=
    update_self pid _ s.worker
  have hforked : ∀ pid', s.forked pid' = true → update s.forked pid true pid' = true := by
    intro pid' hpid'
    by_cases heq : pid' = pid
    · rw [heq, update_self]
    · rw [update_of_ne heq]
      exact hpid'
  have hcurrent : ∀ w, w ≠ c.workerId pid →
      update s.current (c.workerId pid) pid w = s.current w := fun w hne =>
    update_of_ne hne _ s.current
  constructor
  case positive =>
    intro pid' hpid'
    by_cases heq : pid' = pid
    · rw [heq]
      exact hpos
    · exact hp.positive pid' ((update_of_ne heq true s.forked).symm.trans hpid')
  case recovered =>
    intro pid' hpid'
    obtain ⟨hdead, hwas, hnone⟩ := hp.recovered pid' hpid'
    have hne : pid' ≠ pid := by
      rintro rfl
      cases hfresh.symm.trans hwas
    exact ⟨(hother pid' hne).trans hdead, hforked pid' hwas, hnone⟩
  case current =>
    intro pid' hpid'
    by_cases heq : pid' = pid
    · rw [heq]
      exact update_self _ pid s.current
    · have halive : s.worker pid' ≠ .exited := by
        rw [← hother pid' heq]
        exact hpid'
      have hindex : c.workerId pid' ≠ c.workerId pid := by
        intro hsame
        have hwas := hp.current pid' halive
        rw [hsame] at hwas
        rcases hold with hzero | hrecovered
        · rw [hwas] at hzero
          rw [hzero] at halive
          have hunforked : s.forked 0 = false := by
            by_contra hforked
            exact absurd (hp.positive 0 (Bool.eq_true_of_not_eq_false hforked)) (by decide)
          exact halive (h.unforked 0 hunforked).1
        · rw [hwas] at hrecovered
          exact halive (hp.recovered pid' hrecovered).1
      exact (hcurrent _ hindex).trans (hp.current pid' halive)
  case index =>
    intro w hw
    by_cases heq : w = c.workerId pid
    · subst heq
      exact congrArg c.workerId (update_self _ pid s.current)
    · have hw' : s.current w ≠ 0 := by
        rw [← hcurrent w heq]
        exact hw
      exact (congrArg c.workerId (hcurrent w heq)).trans (hp.index w hw')
  case worker =>
    intro pid' r wpc hpc
    by_cases heq : pid' = pid
    · rw [heq] at hpc
      cases hself.symm.trans hpc
    · exact hp.worker pid' r wpc ((hother pid' heq).symm.trans hpc)
  case monitor => exact hp.monitor
  case content =>
    intro w
    obtain ⟨todo, rest, hcontent⟩ := hp.content w
    by_cases heq : w = c.workerId pid
    · subst heq
      have hread : ∀ i j idx, s.reader = .read i j idx → idx.toNat ≠ c.workerId pid := by
        intro i j idx hread hidx
        obtain ⟨r, hlist, _⟩ := hcontent.reading i j idx hread hidx
        rw [hempty] at hlist
        cases hlist
      refine ⟨[], [], ?_, fun _ => ⟨rfl, hempty⟩, ?_⟩
      · show update s.pipe (c.workerId pid) [] (c.workerId pid) ++
          (update s.worker pid WorkerPc.idle
            (update s.current (c.workerId pid) pid (c.workerId pid))).pending = []
        rw [update_self, update_self, update_self]
        rfl
      · intro i j idx hreading hidx
        exact absurd hidx (hread i j idx hreading)
    · have hne : s.current w ≠ pid := by
        intro hpid
        by_cases hzero : s.current w = 0
        · rw [hpid] at hzero
          exact hpos.ne' hzero
        · cases hfresh.symm.trans (hpid ▸ h.current w hzero)
      refine ⟨todo, rest, hcontent.of_same ?_ rfl rfl fun i r hr => hr⟩
      show update s.pipe (c.workerId pid) [] w ++
        (update s.worker pid WorkerPc.idle
          (update s.current (c.workerId pid) pid w)).pending = _
      rw [update_of_ne heq, hcurrent w heq, hother _ hne]
      rfl

lemma working_reset (q : ℕ) (h : s.working q = none) : (s.resetJobSlot pid j).working q = none := by
  by_cases heq : q = pid
  · rw [heq]
    exact update_self pid _ s.working
  · exact (update_of_ne heq _ s.working).trans h

section

variable (hp : s.Pipes c)
include hp

lemma finish_pipes {outcome : Outcome} (hstep : s.finish c pid outcome = some s') :
    s'.Pipes c := by
  unfold finish at hstep
  split at hstep
  case h_2 => cases hstep
  case h_1 j hpc =>
  dsimp only at hstep
  cases hstep
  refine hp.of_worker (.write (resultOf c pid j outcome) (.scan 0)) ?_ (fun _ _ h => h) ?_ ?_
  · intro hexited
    cases hpc.symm.trans hexited
  · rw [hpc]
    rfl
  · intro r wpc heq
    cases heq
    cases outcome <;> rfl

lemma claimJob_pipes (hstep : s.claimJob pid j = some s') : s'.Pipes c := by
  unfold claimJob at hstep
  split_ifs at hstep with hguard
  cases hstep
  refine hp.of_worker (.claimed j) ?_ (fun _ _ h => h) ?_ (nofun)
  · intro hexited
    cases hguard.1.symm.trans hexited
  · rw [hguard.1]
    rfl

lemma crash_pipes (h : s.Jobs) (horderly : s.Orderly c (.crash pid)) :
    (s.setWorker pid .exited).Pipes c := by
  obtain ⟨_, hnothing⟩ := horderly
  refine hp.of_worker .exited (fun _ => rfl) (fun _ _ h => h) ?_ (nofun)
  by_cases hexited : s.worker pid = .exited
  · rw [hexited]
  have hstage : (s.worker pid).stage = none := by
    cases hjob : (s.worker pid).job with
    | none =>
      cases hpc : s.worker pid <;> rw [hpc] at hjob <;> first | rfl | cases hjob
    | some j =>
      have hworks := h.workerJob pid j hjob
      have hlist := (h.working pid j hworks).2.2
      rw [hnothing j hworks, h.stage_of_worker hexited] at hlist
      exact Option.toList_eq_nil_iff.mp hlist.symm
  exact (WorkerPc.pending_of_stage hstage).symm

lemma workStep_pipes {writeOk : Bool} (he : s.Entries) (h : s.Jobs)
    (horderly : s.WorkOrderly c writeOk (s.worker pid))
    (hstep : s.workStep c pid writeOk = some s') : s'.Pipes c := by
  unfold workStep at hstep
  split at hstep
  case h_1 | h_2 | h_3 => cases hstep
  case h_4 j hpc =>
    cases hstep
    refine hp.of_worker (.holding j) ?_ ?_ ?_ (by simp)
    · intro hexited
      cases hpc.symm.trans hexited
    · intro q hdead hnone
      have hne : q ≠ pid := by
        rintro rfl
        cases hpc.symm.trans hdead
      exact (update_of_ne hne _ s.working).trans hnone
    · rw [hpc]
      rfl
  case h_5 r hpc =>
    have hx : s.writing (.worker pid) = some (r, .full) := congrArg WorkerPc.writing hpc
    exact absurd hx (he.noFull _ r)
  case h_6 r i hpc =>
    have halive : ∀ pc', s.worker pid = .exited → pc' = WorkerPc.exited := by
      intro pc' hexited
      cases hpc.symm.trans hexited
    have hpending : (s.worker pid).pending = r.payload := by
      simp only [hpc, WorkerPc.pending, WritePc.placed, not_mem_nil, not_false_eq_true,
        decide_true, if_true]
    split_ifs at hstep with hstatus
    · cases hstep
      exact hp.of_worker (.stream r i r.payload) (halive _) (fun _ _ h => h) hpending.symm
        (by simp)
    · cases hstep
      refine hp.of_worker (.reset r) (halive _) (fun _ _ h => h) ?_ (by simp)
      rw [hpending]
      exact (if_neg hstatus).symm
  case h_7 r wpc hnotFull hnotDone hpc =>
    cases hstep
    have hx : s.writing (.worker pid) = some (r, wpc) := congrArg WorkerPc.writing hpc
    obtain ⟨pc', hw⟩ := he.writes (c := c) hx
    exact hp.of_writes h hw hx
  case h_8 r i piece todo hpc =>
    have hok : writeOk = true := by
      rw [hpc] at horderly
      exact horderly
    dsimp only at hstep
    rw [if_pos hok] at hstep
    cases hstep
    have halive : s.worker pid ≠ .exited := by simp [hpc]
    refine hp.of_pieces (.stream r i todo) ?_ (fun hexited => absurd hexited halive)
      (fun _ _ h => h) ?_ (by simp)
    · intro w hne
      have hother : w ≠ c.workerId pid := by
        intro heq
        rw [heq] at hne
        exact hne (hp.current pid halive)
      exact update_of_ne hother _ s.pipe
    · intro w heq
      rw [hp.current_eq h heq halive, hpc]
      show update s.pipe (c.workerId pid) (s.pipe (c.workerId pid) ++ [piece])
        (c.workerId pid) ++ todo = _
      rw [update_self, append_assoc]
      rfl
  case h_9 r i hpc =>
    cases hstep
    refine hp.of_worker (.reset r) ?_ (fun _ _ h => h) ?_ (by simp)
    · intro hexited
      cases hpc.symm.trans hexited
    · rw [hpc]
      rfl
  case h_10 r i st todo hpc | h_11 r i hpc => exact absurd hpc (h.noFail pid r i _)
  case h_12 r hpc =>
    cases hstep
    refine hp.of_worker .idle ?_ (fun q _ => working_reset (s := s) q) ?_ (by simp)
    · intro hexited
      cases hpc.symm.trans hexited
    · rw [hpc]
      rfl

lemma startRecovery_pipes (hstep : s.startRecovery c pid = some s') :
    s'.Pipes c := by
  unfold startRecovery at hstep
  split_ifs at hstep
  cases hstep
  exact hp.of_monitor hp.recovered nofun

lemma monitorStep_pipes {wasCancelled : Bool} (he : s.Entries) (h : s.Jobs)
    (hstep : s.monitorStep c wasCancelled = some s') : s'.Pipes c := by
  unfold monitorStep at hstep
  split at hstep
  case h_1 => cases hstep
  case h_2 pid hpc =>
    split at hstep
    case h_1 hnone =>
      cases hstep
      refine hp.of_monitor ?_ nofun
      intro pid' hpid'
      by_cases heq : pid' = pid
      · rw [heq]
        obtain ⟨hdead, hforked⟩ := h.monitorDead pid (by rw [hpc]; rfl)
        exact ⟨hdead, hforked, hnone⟩
      · exact hp.recovered pid' ((update_of_ne heq true s.recovered).symm.trans hpid')
    case h_2 j hworks =>
      dsimp only at hstep
      cases hstep
      refine hp.of_monitor hp.recovered fun pid' r wpc heq => ?_
      cases heq
      cases wasCancelled <;> exact nofun
  case h_3 pid r hpc | h_4 pid r i hpc =>
    cases hstep
    exact hp.of_monitor hp.recovered nofun
  case h_6 pid r hpc =>
    cases hstep
    refine hp.of_monitor (fun q hq => ?_) nofun
    obtain ⟨hdead, hforked, hnone⟩ := hp.recovered q hq
    exact ⟨hdead, hforked, working_reset q hnone⟩
  case h_5 pid r wpc hnotFull hnotDone hpc =>
    cases hstep
    have hx : s.writing (.monitor pid) = some (r, wpc) := writing_of_monitor hpc
    obtain ⟨pc', hw⟩ := he.writes (c := c) hx
    exact hp.of_writes h hw hx

end

def Reading (s : State) (w : ℕ) : Prop :=
  ∃ i j idx, s.reader = .read i j idx ∧ idx.toNat = w

lemma not_reading (h : ∀ i j idx, s.reader ≠ .read i j idx) : ¬s.Reading w := by
  rintro ⟨i, j, idx, hread, _⟩
  exact h i j idx hread

/-- A step of the retrieval thread that does not touch the pipe of the index. -/
lemma Content.of_idle (h : s.Content w todo rest) (hread : ¬s.Reading w) (hread' : ¬s'.Reading w)
    (hpipe : s'.pipe w = s.pipe w) (hpending : s'.pending w = s.pending w)
    (hawaiting : s'.awaiting w = s.awaiting w) : s'.Content w todo rest := by
  constructor
  case pieces =>
    rw [hpipe, hpending]
    exact h.pieces
  case idle =>
    intro _
    rw [hawaiting]
    exact h.idle fun i j idx hpc hidx => hread ⟨i, j, idx, hpc, hidx⟩
  case reading =>
    intro i j idx hpc hidx
    exact absurd ⟨i, j, idx, hpc, hidx⟩ hread'

section

variable {reader : ReaderPc} {entry : ℕ → ResultQueueEntry} {unretrieved : ℕ → Option Result}
  {records : List Record}

lemma Pipes.of_reader (hp : s.Pipes c) {pipe : ℕ → List Piece} {awaiting : ℕ → List Result}
    (hcontent : ∀ w, ∃ todo rest, Content { s with
      reader := reader, entry := entry, unretrieved := unretrieved, records := records
      pipe := pipe, awaiting := awaiting } w todo rest) :
    Pipes c { s with
      reader := reader, entry := entry, unretrieved := unretrieved, records := records
      pipe := pipe, awaiting := awaiting } where
  __ := hp
  content := hcontent

/-- A step before and after which no payload is being read. -/
lemma Pipes.of_load (hp : s.Pipes c) (hread : ∀ i j idx, s.reader ≠ .read i j idx)
    (hread' : ∀ i j idx, reader ≠ .read i j idx) :
    Pipes c { s with
      reader := reader, entry := entry, unretrieved := unretrieved, records := records } := by
  refine hp.of_reader fun w => ?_
  obtain ⟨todo, rest, hcontent⟩ := hp.content w
  exact ⟨todo, rest, hcontent.of_idle (not_reading hread) (not_reading hread') rfl rfl rfl⟩

end

/-- The payload at the head of those to be read is the next one on the pipe. -/
lemma Content.start {idx : ℤ} (h : s.Content idx.toNat todo rest) (hread : ¬s.Reading idx.toNat)
    (hr : s.unretrieved i = some r) (hhead : (s.awaiting idx.toNat).head? = some r)
    (hstatus : r.status = .success) :
    ∃ rest', State.Content { s with reader := .read i j idx } idx.toNat r.payload rest' := by
  obtain ⟨rfl, rfl⟩ := h.idle fun i j idx' hpc hidx => hread ⟨i, j, idx', hpc, hidx⟩
  obtain ⟨rest', hrest⟩ : ∃ rest', s.awaiting idx.toNat = r :: rest' :=
    ⟨_, eq_cons_of_mem_head? hhead⟩
  have hpieces := h.pieces
  rw [hrest, flatMap_cons, nil_append] at hpieces
  refine ⟨rest', hpieces, ?_, ?_⟩
  · intro hnone
    exact absurd rfl (hnone i j idx rfl)
  · intro i' j' idx' hpc _
    cases hpc
    exact ⟨r, hrest, hr, suffix_refl _, Result.payload_ne_nil hstatus⟩

/-- The piece that is read is the next one of the payload. -/
lemma Content.next {idx : ℤ} {rest : List Piece} {piece : Piece} {later : List Result}
    (h : s.Content idx.toNat todo later) (hpc : s.reader = .read i j idx)
    (hpipe : s.pipe idx.toNat = piece :: rest) :
    ∃ r todo', todo = piece :: todo' ∧ s.unretrieved i = some r ∧ piece :: todo' <:+ r.payload ∧
      s.awaiting idx.toNat = r :: later ∧
      rest ++ s.pending idx.toNat = todo' ++ later.flatMap Result.payload := by
  obtain ⟨r, hlist, hr, hsuffix, hnonempty⟩ := h.reading i j idx hpc rfl
  have hpieces := h.pieces
  rw [hpipe, cons_append] at hpieces
  cases todo with
  | nil => exact absurd rfl hnonempty
  | cons piece' todo' =>
    obtain ⟨rfl, hrest⟩ := List.cons.inj hpieces
    exact ⟨r, todo', rfl, hr, hsuffix, hlist, hrest⟩

lemma retrieveStep_pipes {readOk : Bool} (hp : s.Pipes c) (hseen : s.Seen s.reader)
    (horderly : s.ReadOrderly readOk s.reader) (hstep : s.retrieveStep c readOk = some s') :
    s'.Pipes c := by
  unfold retrieveStep at hstep
  cases hpc : s.reader with
  | loadSize i j idx =>
    have hnot : ∀ i' j' idx', s.reader ≠ .read i' j' idx' := by simp [hpc]
    rw [hpc] at hstep hseen horderly
    dsimp only at hstep
    split_ifs at hstep with hsize
    · cases hstep
      obtain ⟨r, hr, _, hstatus, _⟩ := hseen
      refine hp.of_reader fun w => ?_
      obtain ⟨todo, rest, hcontent⟩ := hp.content w
      by_cases heq : w = idx.toNat
      · subst heq
        obtain ⟨rest', hstart⟩ := hcontent.start (i := i) (j := j) (not_reading hnot) hr
          ((horderly hsize).trans hr) hstatus
        exact ⟨r.payload, rest', hstart⟩
      · refine ⟨todo, rest, hcontent.of_idle (not_reading hnot) ?_ rfl rfl rfl⟩
        rintro ⟨i', j', idx', hread, hidx⟩
        cases hread
        exact heq hidx.symm
    · cases hstep
      exact hp.of_load hnot (by simp)
  | read i j idx =>
    rw [hpc] at hstep horderly
    have hok : readOk = true := horderly
    dsimp only at hstep
    rw [if_pos hok] at hstep
    split_ifs at hstep
    split at hstep
    case h_1 => cases hstep
    case h_2 piece rest hpipe =>
    have hreading : ∀ w, w ≠ idx.toNat → ¬s.Reading w := by
      rintro w hne ⟨i', j', idx', hread, hidx⟩
      rw [hpc] at hread
      cases hread
      exact hne hidx.symm
    have hother : ∀ w, w ≠ idx.toNat →
        update s.pipe idx.toNat rest w = s.pipe w := fun w hne =>
      update_of_ne hne _ s.pipe
    split_ifs at hstep with hlast
    · cases hstep
      refine hp.of_reader fun w => ?_
      obtain ⟨todo, later, hcontent⟩ := hp.content w
      by_cases heq : w = idx.toNat
      · subst heq
        obtain ⟨r, todo', rfl, _, hsuffix, hlist, hrest⟩ := hcontent.next hpc hpipe
        cases (Result.suffix_payload hsuffix).mp hlast
        refine ⟨[], later, ?_, ?_, ?_⟩
        · rw [← hrest]
          exact congrArg (· ++ s.pending idx.toNat) (update_self idx.toNat rest s.pipe)
        · intro _
          refine ⟨rfl, (update_self _ _ s.awaiting).trans ?_⟩
          rw [hlist]
          rfl
        · intro i' j' idx' hread
          cases hread
      · exact ⟨todo, later, hcontent.of_idle (hreading w heq) (not_reading (by simp)) (hother w heq)
          rfl (update_of_ne heq _ s.awaiting)⟩
    · cases hstep
      refine hp.of_reader fun w => ?_
      obtain ⟨todo, later, hcontent⟩ := hp.content w
      by_cases heq : w = idx.toNat
      · subst heq
        obtain ⟨r, todo', rfl, hr, hsuffix, hlist, hrest⟩ := hcontent.next hpc hpipe
        refine ⟨todo', later, ?_, ?_, ?_⟩
        · rw [← hrest]
          exact congrArg (· ++ s.pending idx.toNat) (update_self idx.toNat rest s.pipe)
        · intro hnone
          exact absurd rfl (hnone i j idx rfl)
        · intro i' j' idx' hread _
          cases hread
          exact ⟨r, hlist, hr, (suffix_cons piece todo').trans hsuffix,
            fun hnil => hlast ((Result.suffix_payload hsuffix).mpr hnil)⟩
      · refine ⟨todo, later, hcontent.of_idle (hreading w heq) ?_ (hother w heq) rfl rfl⟩
        rintro ⟨i', j', idx', hread, hidx⟩
        cases hread
        exact heq hidx.symm
  | loadReady i | loadRetrieved i | loadIndex i j status =>
    have hnot : ∀ i' j' idx', s.reader ≠ .read i' j' idx' := by simp [hpc]
    rw [hpc] at hstep
    dsimp only at hstep
    split_ifs at hstep
    all_goals
      cases hstep
      exact hp.of_load hnot (by simp)
  | copyId i | loadStatus i j | loadMessage i j status | update i j status errorMessage =>
    have hnot : ∀ i' j' idx', s.reader ≠ .read i' j' idx' := by simp [hpc]
    rw [hpc] at hstep
    cases hstep
    exact hp.of_load hnot (by simp)
  | recycle i todo =>
    have hnot : ∀ i' j' idx', s.reader ≠ .read i' j' idx' := by simp [hpc]
    rw [hpc] at hstep
    cases todo with
    | nil =>
      cases hstep
      exact hp.of_load hnot (by simp)
    | cons st todo =>
      cases hstep
      unfold noteRetrieved
      split
      · exact hp.of_load hnot (by simp)
      · exact hp.of_load hnot (by simp)

end State

end CuOpt.Grpc.Results
