import CuOpt.Library.Runs

/-! The status of a job in the tracker, and the one that its result leads to. -/

namespace CuOpt.Grpc.Tracker

inductive JobStatus
  | queued
  | processing
  | completed
  | failed
  | cancelled
  deriving DecidableEq

def JobStatus.terminal : JobStatus → Bool
  | .queued | .processing => false
  | .completed | .failed | .cancelled => true

/-- `broken`: posted as a success, but the payload does not get through the pipe of the worker, so that
the worker fails to write it and the retrieval thread fails to read it. -/
inductive ResultStatus
  | success
  | broken
  | error
  | cancelled
  deriving DecidableEq

def ResultStatus.verdict : ResultStatus → JobStatus
  | .success => .completed
  | .broken | .error => .failed
  | .cancelled => .cancelled

end CuOpt.Grpc.Tracker
