import CuOpt.Library.Runs

/-! The shared result queue of the server: worker processes and the monitor post results in it, one
load, store or compare-exchange at a time, workers stream payloads through their pipes, and the
retrieval thread reads both. Of the job queue it is kept which job each worker process holds. -/

namespace CuOpt.Grpc.Results

inductive ResultStatus
  | success
  | error
  | cancelled
  deriving DecidableEq

structure ResultQueueEntry where
  jobId : ℕ
  status : ResultStatus
  dataSize : ℕ
  errorMessage : String
  claimed : Bool
  ready : Bool
  retrieved : Bool
  workerIndex : ℤ

inductive Store
  | jobId (v : ℕ)
  | status (v : ResultStatus)
  | dataSize (v : ℕ)
  | errorMessage (v : String)
  | claimed (v : Bool)
  | ready (v : Bool)
  | retrieved (v : Bool)
  | workerIndex (v : ℤ)
  deriving DecidableEq

def ResultQueueEntry.store (e : ResultQueueEntry) : Store → ResultQueueEntry
  | .jobId v => { e with jobId := v }
  | .status v => { e with status := v }
  | .dataSize v => { e with dataSize := v }
  | .errorMessage v => { e with errorMessage := v }
  | .claimed v => { e with claimed := v }
  | .ready v => { e with ready := v }
  | .retrieved v => { e with retrieved := v }
  | .workerIndex v => { e with workerIndex := v }

def ResultQueueEntry.free : ResultQueueEntry := ⟨0, .success, 0, "", false, false, false, 0⟩

/-- A piece of a payload on a pipe. The sizes in front of what follows tell the reader how many pieces
are `left`. -/
structure Piece where
  jobId : ℕ
  left : ℕ
  deriving DecidableEq

def payloadOf (jobId : ℕ) : ℕ → List Piece
  | 0 => [⟨jobId, 0⟩]
  | left + 1 => ⟨jobId, left + 1⟩ :: payloadOf jobId left

/-- What a writer posts for a job: the values of its entry, and how many pieces the payload has after
the first one. Without an `errorMessage`, as for a success, the field of the entry keeps its text. -/
structure Result where
  jobId : ℕ
  status : ResultStatus
  dataSize : ℕ
  workerIndex : ℤ
  errorMessage : Option String
  left : ℕ
  size_pos : status = .success → 0 < dataSize
  silent : status = .success → errorMessage = none
  deriving DecidableEq

def Result.payload (r : Result) : List Piece :=
  if r.status = .success then payloadOf r.jobId r.left else []

def Result.contentStores (r : Result) : List Store :=
  [.jobId r.jobId, .status r.status, .dataSize r.dataSize, .workerIndex r.workerIndex] ++
    r.errorMessage.toList.map .errorMessage ++ [.retrieved false]

def Result.stores (r : Result) : List Store :=
  r.contentStores ++ [.ready true, .claimed false]

/-- What `store_simple_result` posts; a worker calls it with `RESULT_CANCELLED` or `RESULT_ERROR`. -/
def storeSimpleResult (jobId : ℕ) (workerId : ℤ) (cancelled : Bool) (errorMessage : String) :
    Result where
  jobId := jobId
  status := if cancelled then .cancelled else .error
  dataSize := 0
  workerIndex := workerId
  errorMessage := some errorMessage
  left := 0
  size_pos := by
    intro h
    split_ifs at h
  silent := by
    intro h
    split_ifs at h

structure SolveResult where
  success : Bool
  errorMessage : String
  totalBytes : ℕ
  left : ℕ
  deriving DecidableEq

def publishResult (sr : SolveResult) (jobId : ℕ) (workerId : ℤ) : Result where
  jobId := jobId
  status := if sr.success then .success else .error
  dataSize := if sr.success then max sr.totalBytes 1 else 0
  workerIndex := workerId
  errorMessage := if sr.success then none else some sr.errorMessage
  left := sr.left
  size_pos := by
    intro h
    split_ifs at h ⊢
    exact lt_max_of_lt_right Nat.one_pos
  silent := by
    intro h
    split_ifs at h ⊢
    rfl

/-- The entry that `mark_worker_jobs_failed` posts for the job of a dead worker. -/
def syntheticResult (jobId : ℕ) (wasCancelled : Bool) : Result where
  jobId := jobId
  status := if wasCancelled then .cancelled else .error
  dataSize := 0
  workerIndex := -1
  errorMessage :=
    some (if wasCancelled then "Job was cancelled" else "Worker process died unexpectedly")
  left := 0
  size_pos := by
    intro h
    split_ifs at h
  silent := by
    intro h
    split_ifs at h

def failStores : List Store :=
  [.status .error, .errorMessage "Failed to write result to pipe"]

def recycleStores : List Store :=
  [.retrieved true, .workerIndex (-1), .claimed false, .ready false]

/-- A writer on its way through the queue; `full` is the end of a scan that found no free entry. -/
inductive WritePc
  | scan (i : ℕ)
  | claim (i : ℕ)
  | recheck (i : ℕ)
  | release (i : ℕ)
  | fill (i : ℕ) (todo : List Store)
  | full
  deriving DecidableEq

inductive Outcome
  | cancelled
  | unreadable (errorMessage : String)
  | solved (sr : SolveResult)
  deriving DecidableEq

inductive WorkerPc
  | exited
  | idle
  | claimed (jobId : ℕ)
  | holding (jobId : ℕ)
  | write (r : Result) (pc : WritePc)
  | stream (r : Result) (i : ℕ) (todo : List Piece)
  | fail (r : Result) (i : ℕ) (todo : List Store)
  | reset (r : Result)
  deriving DecidableEq

inductive MonitorPc
  | idle
  | scan (pid : ℕ)
  | write (pid : ℕ) (r : Result) (pc : WritePc)
  | reset (pid : ℕ) (r : Result)
  deriving DecidableEq

/-- The results loop of `result_retrieval_thread`. -/
inductive ReaderPc
  | loadReady (i : ℕ)
  | loadRetrieved (i : ℕ)
  | copyId (i : ℕ)
  | loadStatus (i jobId : ℕ)
  | loadIndex (i jobId : ℕ) (status : ResultStatus)
  | loadSize (i jobId : ℕ) (workerIdx : ℤ)
  | read (i jobId : ℕ) (workerIdx : ℤ)
  | loadMessage (i jobId : ℕ) (status : ResultStatus)
  | update (i jobId : ℕ) (status : ResultStatus) (errorMessage : Option String)
  | recycle (i : ℕ) (todo : List Store)
  deriving DecidableEq

inductive Party
  | worker (pid : ℕ)
  | monitor (pid : ℕ)
  deriving DecidableEq

structure Config where
  maxResults : ℕ
  workerId : ℕ → ℕ

structure Record where
  jobId : ℕ
  status : ResultStatus
  errorMessage : Option String
  deriving DecidableEq

/-- The queue, the processes and threads, the pipe of each worker index, and the job that names each
process in its slot of the job queue. What follows `records` is history: the process that claimed a job
and its last result, the results placed in the queue, whether the slot of the job was reset, who has
claimed an entry and not cleared the claim, the result in an entry until it is retrieved, and for each
index the payloads that are still to be read. -/
structure State where
  entry : ℕ → ResultQueueEntry
  worker : ℕ → WorkerPc
  forked : ℕ → Bool
  recovered : ℕ → Bool
  current : ℕ → ℕ
  working : ℕ → Option ℕ
  monitor : MonitorPc
  reader : ReaderPc
  pipe : ℕ → List Piece
  records : List Record
  owner : ℕ → Option ℕ
  outcome : ℕ → Option Result
  placed : ℕ → List Result
  finished : ℕ → Bool
  holder : ℕ → Option Party
  unretrieved : ℕ → Option Result
  awaiting : ℕ → List Result

inductive Action
  | spawn (pid : ℕ)
  | claimJob (pid jobId : ℕ)
  | finish (pid : ℕ) (outcome : Outcome)
  | work (pid : ℕ) (writeOk : Bool)
  | crash (pid : ℕ)
  | startRecovery (pid : ℕ)
  | monitor (wasCancelled : Bool)
  | retrieve (readOk : Bool)
  deriving DecidableEq

namespace State

def setWorker (s : State) (pid : ℕ) (pc : WorkerPc) : State :=
  { s with worker := Function.update s.worker pid pc }

def setWrite (s : State) (r : Result) (pc : WritePc) : Party → State
  | .worker pid => s.setWorker pid (.write r pc)
  | .monitor pid => { s with monitor := .write pid r pc }

def put (s : State) (i : ℕ) (st : Store) : State :=
  { s with entry := Function.update s.entry i ((s.entry i).store st) }

/-- The result is in the queue, and its payload is to be read from the pipe of the worker. -/
def place (s : State) (r : Result) (i : ℕ) : State :=
  { s with
    placed := Function.update s.placed r.jobId (r :: s.placed r.jobId)
    unretrieved := Function.update s.unretrieved i (some r)
    awaiting :=
      if r.status = .success then
        Function.update s.awaiting r.workerIndex.toNat (s.awaiting r.workerIndex.toNat ++ [r])
      else s.awaiting }

def note (s : State) (r : Result) (i : ℕ) : Store → State
  | .ready true => s.place r i
  | .claimed false => { s with holder := Function.update s.holder i none }
  | _ => s

def writeStep (c : Config) (s : State) (x : Party) (r : Result) : WritePc → State
  | .scan i =>
    if c.maxResults ≤ i then s.setWrite r .full x
    else if (s.entry i).ready then s.setWrite r (.scan (i + 1)) x
    else s.setWrite r (.claim i) x
  | .claim i =>
    if (s.entry i).claimed then s.setWrite r (.scan (i + 1)) x
    else { (s.put i (.claimed true)).setWrite r (.recheck i) x with
      holder := Function.update s.holder i (some x) }
  | .recheck i =>
    if (s.entry i).ready then s.setWrite r (.release i) x
    else s.setWrite r (.fill i r.stores) x
  | .release i => ((s.put i (.claimed false)).note r i (.claimed false)).setWrite r (.scan (i + 1)) x
  | .fill i (st :: todo) => ((s.put i st).note r i st).setWrite r (.fill i todo) x
  | .fill i [] => s.setWrite r (.fill i []) x
  | .full => s.setWrite r .full x

/-- The pipe of the next worker with the index starts empty. -/
def spawn (c : Config) (s : State) (pid : ℕ) : Option State :=
  let index := c.workerId pid
  let old := s.current index
  -- a process id is used once, and a dead worker is replaced after its jobs were marked
  if s.forked pid = false ∧ 0 < pid ∧ (old = 0 ∨ s.recovered old = true) then
    some { s.setWorker pid .idle with
      forked := Function.update s.forked pid true
      current := Function.update s.current index pid
      pipe := Function.update s.pipe index [] }
  else none

def claimJob (s : State) (pid jobId : ℕ) : Option State :=
  if s.worker pid = .idle ∧ s.owner jobId = none then
    some { s.setWorker pid (.claimed jobId) with
      owner := Function.update s.owner jobId (some pid) }
  else none

def resultOf (c : Config) (pid jobId : ℕ) : Outcome → Result
  | .cancelled => storeSimpleResult jobId (c.workerId pid) true "Job was cancelled"
  | .unreadable errorMessage =>
    storeSimpleResult jobId (c.workerId pid) false
      (if errorMessage = "" then "Failed to read job data" else errorMessage)
  | .solved sr => publishResult sr jobId (c.workerId pid)

def finish (c : Config) (s : State) (pid : ℕ) (outcome : Outcome) : Option State :=
  match s.worker pid with
  | .holding jobId =>
    let r := resultOf c pid jobId outcome
    some { s.setWorker pid (.write r (.scan 0)) with
      outcome := Function.update s.outcome jobId (some r) }
  | _ => none

/-- `reset_job_slot` for the slot that names the process. -/
def resetJobSlot (s : State) (pid jobId : ℕ) : State :=
  { s with
    working := Function.update s.working pid none
    finished := Function.update s.finished jobId true }

def workStep (c : Config) (s : State) (pid : ℕ) (writeOk : Bool) : Option State :=
  match s.worker pid with
  | .exited | .idle | .holding _ => none
  | .claimed jobId => some { s.setWorker pid (.holding jobId) with
      working := Function.update s.working pid (some jobId) }
  | .write r .full => some (s.setWorker pid (.reset r))
  | .write r (.fill i []) =>
    if r.status = .success then some (s.setWorker pid (.stream r i r.payload))
    else some (s.setWorker pid (.reset r))
  | .write r pc => some (s.writeStep c (.worker pid) r pc)
  | .stream r i (piece :: todo) =>
    let index := c.workerId pid
    if writeOk then some { s.setWorker pid (.stream r i todo) with
      pipe := Function.update s.pipe index (s.pipe index ++ [piece]) }
    else some (s.setWorker pid (.fail r i failStores))
  | .stream r _ [] => some (s.setWorker pid (.reset r))
  | .fail r i (st :: todo) => some ((s.put i st).setWorker pid (.fail r i todo))
  | .fail r _ [] => some (s.setWorker pid (.reset r))
  | .reset r => some ((s.resetJobSlot pid r.jobId).setWorker pid .idle)

def startRecovery (c : Config) (s : State) (pid : ℕ) : Option State :=
  if s.monitor = .idle ∧ s.worker pid = .exited ∧ s.recovered pid = false ∧ 0 < pid ∧
      s.current (c.workerId pid) = pid then
    some { s with monitor := .scan pid }
  else none

def monitorStep (c : Config) (s : State) (wasCancelled : Bool) : Option State :=
  match s.monitor with
  | .idle => none
  | .scan pid =>
    match s.working pid with
    | none => some { s with
        monitor := .idle
        recovered := Function.update s.recovered pid true }
    | some jobId =>
      let r := syntheticResult jobId wasCancelled
      some { s with
        monitor := .write pid r (.scan 0)
        outcome := Function.update s.outcome jobId (some r) }
  | .write pid r .full => some { s with monitor := .reset pid r }
  | .write pid r (.fill _ []) => some { s with monitor := .reset pid r }
  | .write pid r pc => some (s.writeStep c (.monitor pid) r pc)
  | .reset pid r => some { s.resetJobSlot pid r.jobId with monitor := .scan pid }

def noteRetrieved (s : State) (i : ℕ) : Store → State
  | .retrieved true => { s with unretrieved := Function.update s.unretrieved i none }
  | _ => s

def retrieveStep (c : Config) (s : State) (readOk : Bool) : Option State :=
  match s.reader with
  | .loadReady i =>
    if c.maxResults ≤ i then some { s with reader := .loadReady 0 }
    else if (s.entry i).ready then some { s with reader := .loadRetrieved i }
    else some { s with reader := .loadReady (i + 1) }
  | .loadRetrieved i =>
    if (s.entry i).retrieved then some { s with reader := .loadReady (i + 1) }
    else some { s with reader := .copyId i }
  | .copyId i => some { s with reader := .loadStatus i (s.entry i).jobId }
  | .loadStatus i jobId => some { s with reader := .loadIndex i jobId (s.entry i).status }
  | .loadIndex i jobId status =>
    if status = .success then
      some { s with reader := .loadSize i jobId (s.entry i).workerIndex }
    else some { s with reader := .loadMessage i jobId status }
  | .loadSize i jobId workerIdx =>
    if 0 < (s.entry i).dataSize then some { s with reader := .read i jobId workerIdx }
    else some { s with reader := .update i jobId .success none }
  | .read i jobId workerIdx =>
    if readOk then
      -- a negative index would be out of range; an empty pipe keeps the reader waiting
      if workerIdx < 0 then none
      else
        match s.pipe workerIdx.toNat with
        | [] => none
        | piece :: rest =>
          let s := { s with pipe := Function.update s.pipe workerIdx.toNat rest }
          if piece.left = 0 then some { s with
            reader := .update i jobId .success none
            awaiting := Function.update s.awaiting workerIdx.toNat
              (s.awaiting workerIdx.toNat).tail }
          else some s
    else some { s with
      reader := .update i jobId .error (some "Failed to read result data from pipe") }
  | .loadMessage i jobId status =>
    some { s with reader := .update i jobId status (some (s.entry i).errorMessage) }
  | .update i jobId status errorMessage => some { s with
      records := ⟨jobId, status, errorMessage⟩ :: s.records
      reader := .recycle i recycleStores }
  | .recycle i (st :: todo) =>
    some { (s.put i st).noteRetrieved i st with reader := .recycle i todo }
  | .recycle i [] => some { s with reader := .loadReady (i + 1) }

def step (c : Config) (s : State) : Action → Option State
  | .spawn pid => s.spawn c pid
  | .claimJob pid jobId => s.claimJob pid jobId
  | .finish pid outcome => s.finish c pid outcome
  | .work pid writeOk => s.workStep c pid writeOk
  | .crash pid => some (s.setWorker pid .exited)
  | .startRecovery pid => s.startRecovery c pid
  | .monitor wasCancelled => s.monitorStep c wasCancelled
  | .retrieve readOk => s.retrieveStep c readOk

def run (c : Config) (s : State) (as : List Action) : Option State := runFrom (step c) s as

def initial : State where
  entry := fun _ => .free
  worker := fun _ => .exited
  forked := fun _ => false
  recovered := fun _ => false
  current := fun _ => 0
  working := fun _ => none
  monitor := .idle
  reader := .loadReady 0
  pipe := fun _ => []
  records := []
  owner := fun _ => none
  outcome := fun _ => none
  placed := fun _ => []
  finished := fun _ => false
  holder := fun _ => none
  unretrieved := fun _ => none
  awaiting := fun _ => []

end State

end CuOpt.Grpc.Results
