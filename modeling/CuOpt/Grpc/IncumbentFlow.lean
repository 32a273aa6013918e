import CuOpt.Grpc.JobTracker

/-! Incumbents on their way from a worker to the callback of a client: the incumbent pipes and the
thread that reads them, the result queue and its thread, the tracker, and the polling loop of the
client, which asks for incumbents and for the status in separate calls. -/

namespace CuOpt.Grpc.Incumbents

open Tracker (JobStatus ResultStatus)
open Function (update)

variable {V : Type}

structure IncumbentEntry (V : Type) where
  objective : V
  bound : V
  assignment : List V
  deriving DecidableEq

structure JobInfo (V : Type) where
  status : JobStatus
  incumbents : List (IncumbentEntry V)
  errorMessage : String

/-- The largest message that `build_incumbent_proto` serializes. -/
def maxProtobufBytes : ℕ := 2 ^ 31 - 1

def maxIncumbentBytes : ℕ := 256 * 1024 * 1024

structure Incumbent (V : Type) where
  index : ℤ
  objective : V
  bound : V
  assignment : List V
  deriving DecidableEq

structure IncumbentResponse (V : Type) where
  incumbents : List (Incumbent V)
  nextIndex : ℤ
  jobComplete : Bool

def getIncumbents (info : JobInfo V) (fromIndex maxCount : ℤ) : IncumbentResponse V :=
  let fromIndex := if fromIndex < 0 then 0 else fromIndex
  let available : ℤ := info.incumbents.length
  let fromIndex := if available < fromIndex then available else fromIndex
  let count := available - fromIndex
  let count := if 0 < maxCount ∧ maxCount < count then maxCount else count
  { incumbents := ((info.incumbents.drop fromIndex.toNat).take count.toNat).mapIdx fun i inc =>
      ⟨fromIndex + i, inc.objective, inc.bound, inc.assignment⟩
    nextIndex := fromIndex + count
    jobComplete := info.status.terminal }

def statusMessage (info : JobInfo V) : String :=
  match info.status with
  | .queued => "Job is queued"
  | .processing => "Job is being processed"
  | .completed => "Job completed"
  | .failed => "Job failed: " ++ info.errorMessage
  | .cancelled => "Job was cancelled"

structure Call (V : Type) where
  index : ℤ
  objective : V
  assignment : List V
  deriving DecidableEq

def Incumbent.call (inc : Incumbent V) : Call V := ⟨inc.index, inc.objective, inc.assignment⟩

structure PollResult where
  completed : Bool
  cancelledByCallback : Bool
  errorMessage : String
  deriving DecidableEq

/-- `poll_for_completion`. -/
inductive ClientPc (V : Type)
  | poll
  | askIncumbents
  | callbacks (todo : List (Incumbent V)) (next : ℤ)
  | askStatus
  | drain
  | drainCallbacks (todo : List (Incumbent V))
  | returned (result : PollResult)
  deriving DecidableEq

inductive WorkerPc
  | idle
  | solving (jobId : ℕ)
  deriving DecidableEq

/-- `callback` is the answer of the callback to the last of the calls made so far; `size` is the size
of the message for an incumbent. -/
structure Config (V : Type) where
  jobId : ℕ
  hasCallback : Bool
  callback : List (Call V) → Bool
  maxPolls : ℕ
  size : IncumbentEntry V → ℕ

/-- The server and one client. `runner`, `published`, `emitted`, `lost`, `called` and `callFailed`
record what happened: the worker that a job went to, whether its result was published, the incumbents
that the worker emitted, those that will never reach the tracker or left it, the calls of the callback,
and whether a call failed. -/
structure State (V : Type) where
  tracker : ℕ → Option (JobInfo V)
  used : ℕ → Bool
  worker : ℕ → WorkerPc
  pipe : ℕ → List (ℕ × IncumbentEntry V)
  jammed : ℕ → Bool
  incumbentHand : Option (ℕ × IncumbentEntry V)
  results : List (ℕ × ResultStatus)
  resultHand : Option (ℕ × ResultStatus)
  client : ClientPc V
  pollCount : ℕ
  incumbentNextIndex : ℤ
  cancelRequested : Bool
  runner : ℕ → Option ℕ
  published : ℕ → Bool
  emitted : ℕ → List (IncumbentEntry V)
  lost : ℕ → List (IncumbentEntry V)
  called : List (Call V)
  callFailed : Bool

inductive Action (V : Type)
  | submit (jobId : ℕ)
  | claim (w jobId : ℕ)
  | emit (w : ℕ) (inc : IncumbentEntry V)
  | publish (w : ℕ) (st : ResultStatus)
  | respawn (w : ℕ)
  | receive (w : ℕ)
  | storeIncumbent
  | retrieve (k : ℕ)
  | deliver (errorMessage : String)
  | workerFailed (jobId : ℕ) (errorMessage : String)
  | delete (jobId : ℕ)
  | client (due : Bool) (error : Option String)
  deriving DecidableEq

namespace State

def submit (s : State V) (jobId : ℕ) : Option (State V) :=
  if s.used jobId = false then
    some { s with
      tracker := update s.tracker jobId (some ⟨.queued, [], ""⟩)
      used := update s.used jobId true }
  else none

def claim (s : State V) (w jobId : ℕ) : Option (State V) :=
  if s.used jobId = true ∧ s.runner jobId = none ∧ s.worker w = .idle then
    some { s with
      worker := update s.worker w (.solving jobId)
      runner := update s.runner jobId (some w) }
  else none

/-- `get_solution` of the worker's callback: a message that is too large to be serialized is sent
empty, and the reader skips an empty message. -/
def emit (c : Config V) (s : State V) (w : ℕ) (inc : IncumbentEntry V) : Option (State V) :=
  match s.worker w with
  | .solving jobId =>
    if maxProtobufBytes < c.size inc then
      some { s with
        emitted := update s.emitted jobId (s.emitted jobId ++ [inc])
        lost := update s.lost jobId (s.lost jobId ++ [inc]) }
    else some { s with
      emitted := update s.emitted jobId (s.emitted jobId ++ [inc])
      pipe := update s.pipe w (s.pipe w ++ [(jobId, inc)]) }
  | .idle => none

def publish (s : State V) (w : ℕ) (st : ResultStatus) : Option (State V) :=
  match s.worker w with
  | .solving jobId => some { s with
      worker := update s.worker w .idle
      results := s.results ++ [(jobId, st)]
      published := update s.published jobId true }
  | .idle => none

def piped (s : State V) (w jobId : ℕ) : List (IncumbentEntry V) :=
  (s.pipe w).filterMap fun msg => if msg.1 = jobId then some msg.2 else none

def respawn (s : State V) (w : ℕ) : State V :=
  { s with
    worker := update s.worker w .idle
    pipe := update s.pipe w []
    jammed := update s.jammed w false
    lost := fun jobId => s.lost jobId ++ s.piped w jobId }

/-- `recv_incumbent_pipe`, which leaves the payload of too large a message in the pipe. What it reads
there afterwards is left out: a call has failed by then. -/
def receive (c : Config V) (s : State V) (w : ℕ) : Option (State V) :=
  match s.incumbentHand, s.pipe w with
  | none, (jobId, inc) :: rest =>
    if s.jammed w then none
    else if maxIncumbentBytes < c.size inc then
      some { s with jammed := update s.jammed w true, callFailed := true }
    else some { s with
      pipe := update s.pipe w rest
      incumbentHand := some (jobId, inc) }
  | _, _ => none

def storeIncumbent (s : State V) : Option (State V) :=
  match s.incumbentHand with
  | some (jobId, inc) =>
    match s.tracker jobId with
    | some info => some { s with
        tracker := update s.tracker jobId
          (some { info with incumbents := info.incumbents ++ [inc] })
        incumbentHand := none }
    | none => some { s with
        incumbentHand := none
        lost := update s.lost jobId (s.lost jobId ++ [inc]) }
  | none => none

def retrieve (s : State V) (k : ℕ) : Option (State V) :=
  match s.resultHand, s.results[k]? with
  | none, some entry => some { s with
      results := s.results.eraseIdx k
      resultHand := some entry }
  | _, _ => none

def deliver (s : State V) (errorMessage : String) : Option (State V) :=
  match s.resultHand with
  | some (jobId, st) => some { s with
      tracker := update s.tracker jobId ((s.tracker jobId).map fun info =>
        { info with
          status := st.verdict
          errorMessage := if st.verdict = .completed then info.errorMessage else errorMessage })
      resultHand := none }
  | none => none

def workerFailed (s : State V) (jobId : ℕ) (errorMessage : String) : State V :=
  { s with
    tracker := update s.tracker jobId ((s.tracker jobId).map fun info =>
      { info with status := .failed, errorMessage := errorMessage }) }

def stored (s : State V) (jobId : ℕ) : List (IncumbentEntry V) :=
  ((s.tracker jobId).map JobInfo.incumbents).getD []

def delete (s : State V) (jobId : ℕ) : State V :=
  { s with
    tracker := update s.tracker jobId none
    lost := update s.lost jobId (s.stored jobId ++ s.lost jobId) }

/-- `check_job_status`: a queued job that a worker claimed is being processed. -/
def checkedStatus (s : State V) (jobId : ℕ) (info : JobInfo V) : JobInfo V :=
  if info.status = .queued ∧ s.runner jobId ≠ none ∧ s.published jobId = false then
    { info with status := .processing }
  else info

def cancelJob (s : State V) (jobId : ℕ) : State V :=
  { s with
    tracker := update s.tracker jobId ((s.tracker jobId).map fun info =>
      if info.status.terminal then info
      else { info with status := .cancelled, errorMessage := "Job cancelled by user" }) }

def returned (s : State V) (result : PollResult) : State V := { s with client := .returned result }

def invoke (s : State V) (inc : Incumbent V) : State V := { s with called := s.called ++ [inc.call] }

/-- One step of `poll_for_completion`: `due` says that the interval between two calls of
`get_incumbents` has passed, `error` is the error of the step's call, if that does not get through. -/
def clientStep (c : Config V) (s : State V) (due : Bool) (error : Option String) :
    Option (State V) :=
  match s.client with
  | .poll =>
    if s.pollCount < c.maxPolls then
      if s.cancelRequested then
        some ((s.cancelJob c.jobId).returned ⟨false, true, "Cancelled by incumbent callback"⟩)
      else if c.hasCallback ∧ due then some { s with client := .askIncumbents }
      else some { s with client := .askStatus }
    else some (s.returned ⟨false, false, "Timeout waiting for job completion"⟩)
  | .askIncumbents =>
    match error, s.tracker c.jobId with
    | none, some info =>
      let result := getIncumbents info s.incumbentNextIndex 0
      some { s with client := .callbacks result.incumbents result.nextIndex }
    | _, _ => some { s with client := .askStatus, callFailed := true }
  | .callbacks (inc :: todo) next =>
    if c.callback (s.called ++ [inc.call]) then
      some { s.invoke inc with client := .callbacks todo next }
    else some { s.invoke inc with
      client := .askStatus
      cancelRequested := true
      incumbentNextIndex := next }
  | .callbacks [] next => some { s with client := .askStatus, incumbentNextIndex := next }
  | .askStatus =>
    match error, s.tracker c.jobId with
    | none, some info =>
      let info := s.checkedStatus c.jobId info
      let s := { s with tracker := update s.tracker c.jobId (some info) }
      match info.status with
      | .completed =>
        if c.hasCallback then some { s with client := .drain }
        else some (s.returned ⟨true, false, ""⟩)
      | .failed => some (s.returned ⟨false, false, "Job failed: " ++ statusMessage info⟩)
      | .cancelled => some (s.returned ⟨false, false, "Job was cancelled"⟩)
      | _ => some { s with client := .poll, pollCount := s.pollCount + 1 }
    -- an unknown job is an answer, of a status that does not end the loop
    | none, none => some { s with client := .poll, pollCount := s.pollCount + 1 }
    | some message, _ => some { s.returned ⟨false, false, "CheckStatus failed: " ++ message⟩ with
        callFailed := true }
  | .drain =>
    match error, s.tracker c.jobId with
    | none, some info =>
      some { s with
        client := .drainCallbacks (getIncumbents info s.incumbentNextIndex 0).incumbents }
    | _, _ => some { s.returned ⟨true, false, ""⟩ with callFailed := true }
  | .drainCallbacks (inc :: todo) => some { s.invoke inc with client := .drainCallbacks todo }
  | .drainCallbacks [] => some (s.returned ⟨true, false, ""⟩)
  | .returned _ => none

def step (c : Config V) (s : State V) : Action V → Option (State V)
  | .submit jobId => s.submit jobId
  | .claim w jobId => s.claim w jobId
  | .emit w inc => s.emit c w inc
  | .publish w st => s.publish w st
  | .respawn w => some (s.respawn w)
  | .receive w => s.receive c w
  | .storeIncumbent => s.storeIncumbent
  | .retrieve k => s.retrieve k
  | .deliver errorMessage => s.deliver errorMessage
  | .workerFailed jobId errorMessage => some (s.workerFailed jobId errorMessage)
  | .delete jobId => some (s.delete jobId)
  | .client due error => s.clientStep c due error

def run (c : Config V) (s : State V) (as : List (Action V)) : Option (State V) :=
  runFrom (step c) s as

def initial : State V where
  tracker := fun _ => none
  used := fun _ => false
  worker := fun _ => .idle
  pipe := fun _ => []
  jammed := fun _ => false
  incumbentHand := none
  results := []
  resultHand := none
  client := .poll
  pollCount := 0
  incumbentNextIndex := 0
  cancelRequested := false
  runner := fun _ => none
  published := fun _ => false
  emitted := fun _ => []
  lost := fun _ => []
  called := []
  callFailed := false

end State

end CuOpt.Grpc.Incumbents
