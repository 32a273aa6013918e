import CuOpt.Library.Runs

/-! The shared job queue of the server: submitters, workers, the monitor that recovers the slots of a
dead worker, the cancel call and the thread that sends the job data, one load, store or
compare-exchange at a time. -/

namespace CuOpt.Grpc

open Function (update)

structure Request where
  problemCategory : ℕ
  dataSize : ℕ
  isChunked : Bool
  unifiedHeader : Bool
  deriving DecidableEq

def vrp : ℕ := 1000

structure JobQueueEntry where
  jobId : ℕ
  problemCategory : ℕ
  dataSize : ℕ
  ready : Bool
  claimed : Bool
  workerPid : ℕ
  cancelled : Bool
  workerIndex : ℤ
  dataSent : Bool
  isChunked : Bool
  unifiedHeader : Bool
  enqueueSeq : ℕ

inductive Store
  | jobId (v : ℕ)
  | problemCategory (v : ℕ)
  | dataSize (v : ℕ)
  | ready (v : Bool)
  | claimed (v : Bool)
  | workerPid (v : ℕ)
  | cancelled (v : Bool)
  | workerIndex (v : ℤ)
  | dataSent (v : Bool)
  | isChunked (v : Bool)
  | unifiedHeader (v : Bool)
  | enqueueSeq (v : ℕ)
  deriving DecidableEq

namespace JobQueueEntry

def store (e : JobQueueEntry) : Store → JobQueueEntry
  | .jobId v => { e with jobId := v }
  | .problemCategory v => { e with problemCategory := v }
  | .dataSize v => { e with dataSize := v }
  | .ready v => { e with ready := v }
  | .claimed v => { e with claimed := v }
  | .workerPid v => { e with workerPid := v }
  | .cancelled v => { e with cancelled := v }
  | .workerIndex v => { e with workerIndex := v }
  | .dataSent v => { e with dataSent := v }
  | .isChunked v => { e with isChunked := v }
  | .unifiedHeader v => { e with unifiedHeader := v }
  | .enqueueSeq v => { e with enqueueSeq := v }

def free : JobQueueEntry := ⟨0, 0, 0, false, false, 0, false, -1, false, false, false, 0⟩

end JobQueueEntry

/-- `reset_job_slot`. -/
def resetStores : List Store :=
  [.ready false, .enqueueSeq 0, .workerPid 0, .workerIndex (-1), .dataSent false,
    .isChunked false, .unifiedHeader false, .claimed false, .cancelled false]

/-- How `submit_job_async` and `submit_chunked_job_async` populate a slot. -/
def fillStores (jobId : ℕ) (r : Request) : List Store :=
  [.jobId jobId, .problemCategory r.problemCategory, .dataSize r.dataSize, .cancelled false,
    .workerIndex (-1), .dataSent false, .isChunked r.isChunked, .unifiedHeader r.unifiedHeader,
    .workerPid 0]

/-- `publish_ready_job_slot`, after the ticket was taken. -/
def publishStores (seq : ℕ) : List Store := [.enqueueSeq seq, .ready true, .claimed false]

inductive SubmitPc
  | scan (i : ℕ)
  | reserve (i : ℕ)
  | fill (i : ℕ) (todo : List Store)
  | track (i : ℕ)
  | enqueue (i : ℕ)
  | publish (i : ℕ) (todo : List Store)
  | done (published : Bool)
  deriving DecidableEq

/-- A worker process; `best` is the slot and the ticket of the oldest job seen. -/
inductive WorkerPc
  | exited
  | scan (i : ℕ) (best : Option (ℕ × ℕ))
  | scanClaimed (i : ℕ) (best : Option (ℕ × ℕ))
  | scanSeq (i : ℕ) (best : Option (ℕ × ℕ))
  | claim (slot seq : ℕ)
  | checkReady (slot seq : ℕ)
  | checkSeq (slot seq : ℕ)
  | release (slot : ℕ)
  | storePid (slot : ℕ)
  | storeIndex (slot : ℕ)
  | copyId (slot : ℕ)
  | checkCancelled (slot jobId : ℕ)
  | read (slot jobId : ℕ)
  | solve (slot jobId data : ℕ)
  | reset (slot : ℕ) (todo : List Store)
  deriving DecidableEq

/-- `mark_worker_jobs_failed` for the dead worker `pid`. -/
inductive MonitorPc
  | idle
  | loadReady (pid i : ℕ)
  | loadClaimed (pid i : ℕ)
  | loadPid (pid i : ℕ)
  | reset (pid i : ℕ) (todo : List Store)
  deriving DecidableEq

/-- The slot scan of `cancel_job`, which holds `tracker_mutex` from its first line to its return. -/
inductive CancelPc
  | idle
  | loadReady (jobId i : ℕ)
  | compareId (jobId i : ℕ)
  | reloadReady (jobId i : ℕ)
  | recompareId (jobId i : ℕ)
  | loadPid (jobId i : ℕ)
  | loadClaimed (jobId i pid : ℕ)
  | setCancelled (jobId i pid : ℕ)
  | kill (jobId i pid : ℕ)
  deriving DecidableEq

/-- The dispatch loop of `result_retrieval_thread`. -/
inductive DispatchPc
  | loadReady (i : ℕ)
  | loadClaimed (i : ℕ)
  | loadSent (i : ℕ)
  | loadCancelled (i : ℕ)
  | copyId (i : ℕ)
  | loadIndex (i jobId : ℕ)
  | loadChunked (i jobId index : ℕ)
  | take (i jobId index : ℕ) (chunked : Bool)
  | send (i jobId index : ℕ)
  | loadPid (i jobId : ℕ)
  | kill (i jobId pid : ℕ)
  | mark (i jobId : ℕ) (sendOk : Bool)
  deriving DecidableEq

inductive Party
  | submitter (jobId : ℕ)
  | worker (pid : ℕ)
  | monitor
  deriving DecidableEq

inductive PipeWriteStatus
  | success
  | validationFailed
  | pipeFailed
  deriving DecidableEq

/-- What does not change: the number of slots, the requests, and the index of each worker process. -/
structure ServerConfig where
  maxJobs : ℕ
  request : ℕ → Request
  workerId : ℕ → ℕ

/-- The shared memory, the processes and threads, and who holds what: `holder` and `published` follow
the flags `claimed` and `ready`, `flagged` is the job that a slot was last cancelled for, and `claims`
are the jobs that workers claimed. -/
structure Server where
  slot : ℕ → JobQueueEntry
  nextSeq : ℕ
  enqueueMutex : Option ℕ
  submitter : ℕ → SubmitPc
  worker : ℕ → WorkerPc
  forked : ℕ → Bool
  alive : ℕ → Bool
  recovered : ℕ → Bool
  current : ℕ → ℕ
  monitor : MonitorPc
  canceller : CancelPc
  dispatcher : DispatchPc
  pending : ℕ → Bool
  pipe : ℕ → List ℕ
  holder : ℕ → Option Party
  published : ℕ → Option ℕ
  flagged : ℕ → Option ℕ
  claims : List (ℕ × ℕ)

inductive Action
  | submit (jobId : ℕ)
  | work (pid : ℕ)
  | monitor
  | startRecovery (pid : ℕ)
  | cancel
  | startCancel (jobId : ℕ)
  | erasePending (jobId : ℕ)
  | dispatch (status : PipeWriteStatus)
  | crash (pid : ℕ)
  | spawn (pid : ℕ)
  deriving DecidableEq

namespace Server

def take (s : Server) (x : Party) (i : ℕ) : Server :=
  { s with
    slot := update s.slot i ((s.slot i).store (.claimed true))
    holder := update s.holder i (some x) }

def publishedAfter (x : Party) (old : Option ℕ) : Store → Option ℕ
  | .ready true =>
    match x with
    | .submitter jobId => some jobId
    | _ => old
  | .ready false => none
  | _ => old

def put (s : Server) (x : Party) (i : ℕ) (st : Store) : Server :=
  { s with
    slot := update s.slot i ((s.slot i).store st)
    holder := if st = .claimed false then update s.holder i none else s.holder
    published := update s.published i (publishedAfter x (s.published i) st) }

def setSubmitter (s : Server) (jobId : ℕ) (pc : SubmitPc) : Server :=
  { s with submitter := update s.submitter jobId pc }

def setWorker (s : Server) (pid : ℕ) (pc : WorkerPc) : Server :=
  { s with worker := update s.worker pid pc }

def submitStep (c : ServerConfig) (s : Server) (jobId : ℕ) : Option Server :=
  let x := Party.submitter jobId
  match s.submitter jobId with
  | .scan i =>
    if c.maxJobs ≤ i then some (s.setSubmitter jobId (.done false))
    else if (s.slot i).ready then some (s.setSubmitter jobId (.scan (i + 1)))
    else some (s.setSubmitter jobId (.reserve i))
  | .reserve i =>
    if (s.slot i).claimed then some (s.setSubmitter jobId (.scan (i + 1)))
    else some ((s.take x i).setSubmitter jobId (.fill i (fillStores jobId (c.request jobId))))
  | .fill i (st :: todo) => some ((s.put x i st).setSubmitter jobId (.fill i todo))
  | .fill i [] => some { s.setSubmitter jobId (.track i) with
      pending := update s.pending jobId true }
  | .track i => if s.canceller = .idle then some (s.setSubmitter jobId (.enqueue i)) else none
  | .enqueue i =>
    match s.enqueueMutex with
    | some _ => none
    | none => some { s.setSubmitter jobId (.publish i (publishStores s.nextSeq)) with
        enqueueMutex := some jobId
        nextSeq := s.nextSeq + 1 }
  | .publish i (st :: todo) => some ((s.put x i st).setSubmitter jobId (.publish i todo))
  | .publish _ [] => some { s.setSubmitter jobId (.done true) with enqueueMutex := none }
  | .done _ => none

def spawn (c : ServerConfig) (s : Server) (pid : ℕ) : Option Server :=
  let index := c.workerId pid
  let old := s.current index
  -- a process id is used once, and a dead worker is replaced after its slots were recovered
  if s.worker pid = .exited ∧ s.forked pid = false ∧ 0 < pid ∧
      (old = 0 ∨ s.recovered old = true) then
    some { s.setWorker pid (.scan 0 none) with
      forked := update s.forked pid true
      alive := update s.alive pid true
      current := update s.current index pid
      pipe := update s.pipe index [] }
  else none

def workStep (c : ServerConfig) (s : Server) (pid : ℕ) : Option Server :=
  let x := Party.worker pid
  if s.alive pid = false then none
  else
    match s.worker pid with
    | .exited => none
    | .scan i best =>
      if c.maxJobs ≤ i then
        match best with
        | none => some (s.setWorker pid (.scan 0 none))
        | some (slot, seq) => some (s.setWorker pid (.claim slot seq))
      else if (s.slot i).ready then some (s.setWorker pid (.scanClaimed i best))
      else some (s.setWorker pid (.scan (i + 1) best))
    | .scanClaimed i best =>
      if (s.slot i).claimed then some (s.setWorker pid (.scan (i + 1) best))
      else some (s.setWorker pid (.scanSeq i best))
    | .scanSeq i best =>
      let seq := (s.slot i).enqueueSeq
      let better :=
        match best with
        | none => true
        | some (_, bestSeq) => decide (seq < bestSeq)
      if seq = 0 then some (s.setWorker pid (.scan (i + 1) best))
      else if better then some (s.setWorker pid (.scan (i + 1) (some (i, seq))))
      else some (s.setWorker pid (.scan (i + 1) best))
    | .claim slot seq =>
      if (s.slot slot).claimed then some (s.setWorker pid (.scan 0 none))
      else some ((s.take x slot).setWorker pid (.checkReady slot seq))
    | .checkReady slot seq =>
      if (s.slot slot).ready then some (s.setWorker pid (.checkSeq slot seq))
      else some (s.setWorker pid (.release slot))
    | .checkSeq slot seq =>
      if (s.slot slot).enqueueSeq = seq then
        some { s.setWorker pid (.storePid slot) with
          claims := (s.published slot).toList.map (fun jobId => (jobId, pid)) ++ s.claims }
      else some (s.setWorker pid (.release slot))
    | .release slot => some ((s.put x slot (.claimed false)).setWorker pid (.scan 0 none))
    | .storePid slot => some ((s.put x slot (.workerPid pid)).setWorker pid (.storeIndex slot))
    | .storeIndex slot =>
      some ((s.put x slot (.workerIndex (c.workerId pid))).setWorker pid (.copyId slot))
    | .copyId slot => some (s.setWorker pid (.checkCancelled slot (s.slot slot).jobId))
    | .checkCancelled slot jobId =>
      if (s.slot slot).cancelled then some (s.setWorker pid (.reset slot resetStores))
      else some (s.setWorker pid (.read slot jobId))
    | .read slot jobId =>
      let e := s.slot slot
      -- a chunked VRP request without the unified header is refused before anything is read
      if e.isChunked = true ∧ e.unifiedHeader = false ∧ e.problemCategory = vrp then
        some (s.setWorker pid (.reset slot resetStores))
      else
        match s.pipe (c.workerId pid) with
        | [] => none
        | data :: rest => some { s.setWorker pid (.solve slot jobId data) with
            pipe := update s.pipe (c.workerId pid) rest }
    | .solve slot _ _ => some (s.setWorker pid (.reset slot resetStores))
    | .reset slot (st :: todo) => some ((s.put x slot st).setWorker pid (.reset slot todo))
    | .reset _ [] => some (s.setWorker pid (.scan 0 none))

def startRecovery (c : ServerConfig) (s : Server) (pid : ℕ) : Option Server :=
  if s.monitor = .idle ∧ s.alive pid = false ∧ s.recovered pid = false ∧ 0 < pid ∧
      s.current (c.workerId pid) = pid then
    some { s with monitor := .loadReady pid 0 }
  else none

def monitorStep (c : ServerConfig) (s : Server) : Option Server :=
  match s.monitor with
  | .idle => none
  | .loadReady pid i =>
    if c.maxJobs ≤ i then some { s with
      monitor := .idle
      recovered := update s.recovered pid true }
    else if (s.slot i).ready then some { s with monitor := .loadClaimed pid i }
    else some { s with monitor := .loadReady pid (i + 1) }
  | .loadClaimed pid i =>
    if (s.slot i).claimed then some { s with monitor := .loadPid pid i }
    else some { s with monitor := .loadReady pid (i + 1) }
  | .loadPid pid i =>
    if (s.slot i).workerPid = pid then
      -- the slot of the dead worker passes to the monitor
      some { s.setWorker pid .exited with
        monitor := .reset pid i resetStores
        holder := update s.holder i (some .monitor)
        pending := if (c.request (s.slot i).jobId).isChunked then s.pending
          else update s.pending (s.slot i).jobId false }
    else some { s with monitor := .loadReady pid (i + 1) }
  | .reset pid i (st :: todo) => some { s.put .monitor i st with monitor := .reset pid i todo }
  | .reset pid i [] =>
    -- the status of the job is written under the lock of the tracker
    if s.canceller = .idle then some { s with monitor := .loadReady pid (i + 1) } else none

def flag (s : Server) (i : ℕ) (st : Store) : Server :=
  { s with slot := update s.slot i ((s.slot i).store st) }

def startCancel (s : Server) (jobId : ℕ) : Option Server :=
  if s.canceller = .idle then some { s with canceller := .loadReady jobId 0 } else none

def cancelStep (c : ServerConfig) (s : Server) : Option Server :=
  match s.canceller with
  | .idle => none
  | .loadReady jobId i =>
    if c.maxJobs ≤ i then some { s with canceller := .idle }
    else if (s.slot i).ready then some { s with canceller := .compareId jobId i }
    else some { s with canceller := .loadReady jobId (i + 1) }
  | .compareId jobId i =>
    if (s.slot i).jobId = jobId then some { s with canceller := .reloadReady jobId i }
    else some { s with canceller := .loadReady jobId (i + 1) }
  | .reloadReady jobId i =>
    if (s.slot i).ready then some { s with canceller := .recompareId jobId i }
    else some { s with canceller := .loadReady jobId (i + 1) }
  | .recompareId jobId i =>
    if (s.slot i).jobId = jobId then some { s with canceller := .loadPid jobId i }
    else some { s with canceller := .loadReady jobId (i + 1) }
  | .loadPid jobId i =>
    let pid := (s.slot i).workerPid
    if 0 < pid then some { s with canceller := .loadClaimed jobId i pid }
    else some { s with canceller := .setCancelled jobId i 0 }
  | .loadClaimed jobId i pid =>
    if (s.slot i).claimed then some { s with canceller := .setCancelled jobId i pid }
    else some { s with canceller := .setCancelled jobId i 0 }
  | .setCancelled jobId i pid =>
    some { s.flag i (.cancelled true) with
      flagged := update s.flagged i (some jobId)
      canceller := if 0 < pid then .kill jobId i pid else .idle }
  | .kill _ _ pid => some { s with
      alive := update s.alive pid false
      canceller := .idle }

def dispatchStep (c : ServerConfig) (s : Server) (status : PipeWriteStatus) : Option Server :=
  match s.dispatcher with
  | .loadReady i =>
    if c.maxJobs ≤ i then some { s with dispatcher := .loadReady 0 }
    else if (s.slot i).ready then some { s with dispatcher := .loadClaimed i }
    else some { s with dispatcher := .loadReady (i + 1) }
  | .loadClaimed i =>
    if (s.slot i).claimed then some { s with dispatcher := .loadSent i }
    else some { s with dispatcher := .loadReady (i + 1) }
  | .loadSent i =>
    if (s.slot i).dataSent then some { s with dispatcher := .loadReady (i + 1) }
    else some { s with dispatcher := .loadCancelled i }
  | .loadCancelled i =>
    if (s.slot i).cancelled then some { s with dispatcher := .loadReady (i + 1) }
    else some { s with dispatcher := .copyId i }
  | .copyId i => some { s with dispatcher := .loadIndex i (s.slot i).jobId }
  | .loadIndex i jobId =>
    match (s.slot i).workerIndex with
    | .ofNat index => some { s with dispatcher := .loadChunked i jobId index }
    | .negSucc _ => some { s with dispatcher := .loadReady (i + 1) }
  | .loadChunked i jobId index =>
    some { s with dispatcher := .take i jobId index (s.slot i).isChunked }
  | .take i jobId index chunked =>
    -- plain and chunked requests wait in a map each
    if s.pending jobId = true ∧ (c.request jobId).isChunked = chunked then some { s with
      pending := update s.pending jobId false
      dispatcher := .send i jobId index }
    else some { s with dispatcher := .loadReady (i + 1) }
  | .send i jobId index =>
    match status with
    | .success => some { s with
        pipe := update s.pipe index (s.pipe index ++ [jobId])
        dispatcher := .mark i jobId true }
    | .validationFailed => some { s with dispatcher := .mark i jobId false }
    | .pipeFailed =>
      if (c.request jobId).isChunked then some { s with dispatcher := .loadPid i jobId }
      else some { s with dispatcher := .mark i jobId false }
  | .loadPid i jobId => some { s with dispatcher := .kill i jobId (s.slot i).workerPid }
  | .kill i jobId pid =>
    some { s with
      alive := if 0 < pid then update s.alive pid false else s.alive
      dispatcher := .mark i jobId false }
  | .mark i jobId sendOk =>
    if sendOk then
      some { s.flag i (.dataSent true) with dispatcher := .loadReady (i + 1) }
    else some { s.flag i (.cancelled true) with
      flagged := update s.flagged i (some jobId)
      dispatcher := .loadReady (i + 1) }

def step (c : ServerConfig) (s : Server) : Action → Option Server
  | .submit jobId => s.submitStep c jobId
  | .work pid => s.workStep c pid
  | .monitor => s.monitorStep c
  | .startRecovery pid => s.startRecovery c pid
  | .cancel => s.cancelStep c
  | .startCancel jobId => s.startCancel jobId
  | .erasePending jobId => some { s with pending := update s.pending jobId false }
  | .dispatch status => s.dispatchStep c status
  | .crash pid => some { s with alive := update s.alive pid false }
  | .spawn pid => s.spawn c pid

def run (c : ServerConfig) (s : Server) (as : List Action) : Option Server := runFrom (step c) s as

def initial : Server where
  slot := fun _ => JobQueueEntry.free
  nextSeq := 1
  enqueueMutex := none
  submitter := fun _ => .scan 0
  worker := fun _ => .exited
  forked := fun _ => false
  alive := fun _ => false
  recovered := fun _ => false
  current := fun _ => 0
  monitor := .idle
  canceller := .idle
  dispatcher := .loadReady 0
  pending := fun _ => false
  pipe := fun _ => []
  holder := fun _ => none
  published := fun _ => none
  flagged := fun _ => none
  claims := []

end Server

end CuOpt.Grpc
