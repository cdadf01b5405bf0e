import Rollout.Plan.Basic

/-! The states of tasks and runs, and what an observer of a run is told. -/

namespace Rollout

inductive TaskState
  | pending
  | ready
  | running
  | done
  | failed
  | skipped
deriving Repr, DecidableEq, Inhabited

namespace TaskState

def all : List TaskState := [pending, ready, running, done, failed, skipped]

def name : TaskState → String
  | pending => "PENDING"
  | ready => "READY"
  | running => "RUNNING"
  | done => "DONE"
  | failed => "FAILED"
  | skipped => "SKIPPED"

def isTerminal : TaskState → Bool
  | done | failed | skipped => true
  | _ => false

end TaskState

inductive Status
  | success
  | failure
  | cancelled
deriving Repr, DecidableEq, Inhabited

namespace Status

def all : List Status := [success, failure, cancelled]

def name : Status → String
  | success => "SUCCESS"
  | failure => "FAILURE"
  | cancelled => "CANCELLED"

end Status

inductive Event
  | runStarted (runId name : String) (tasks : Nat)
  | dispatched (id : TaskId) (kind : Kind)
  | finished (id : TaskId) (state : TaskState) (diagnostic : Option String)
  | skipped (id : TaskId) (reason : String)
  | runFinished (runId : String) (status : Status)
deriving Repr, DecidableEq

/-- Why a run was stopped before all tasks had their turn. -/
inductive Stop
  | cancelled (reason : String)
  | fatal (reason : String)
deriving Repr, DecidableEq

namespace Stop

def byCaller : Stop := cancelled "cancelled by caller"

def byDeadline : Stop := cancelled "plan deadline exceeded"

def reason : Stop → String
  | cancelled reason | fatal reason => reason

def skipReason : Stop → String
  | cancelled reason => reason
  | fatal reason => "run aborted: " ++ reason

end Stop

end Rollout
