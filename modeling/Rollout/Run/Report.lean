import Rollout.Run.Event
import Rollout.Time.Instant
import Rollout.Table

/-! The outcomes of the tasks of a run: gathered while it goes on, and reported at its end by ascending
id with the run's status. -/

namespace Rollout

structure Outcome where
  id : TaskId
  kind : Kind
  state : TaskState
  diagnostic : Option String
  startedAt : Option Instant
  finishedAt : Option Instant
deriving Repr, DecidableEq, Inhabited

def Outcome.start (id : TaskId) (kind : Kind) : Outcome := ⟨id, kind, .pending, none, none, none⟩

def Outcome.duration? (o : Outcome) : Option Int := do
  some ((← o.startedAt).millisUntil (← o.finishedAt))

structure Report where
  runId : String
  name : String
  status : Status
  tasks : List Outcome
  failed : List TaskId
  skipped : List TaskId
  abortReason : Option String
  startedAt : Instant
  finishedAt : Instant
deriving Repr, DecidableEq

namespace Report

def isSuccess (r : Report) : Bool := r.status = .success

/-- The last place of `size` places from `base` on whose id is not above the one looked for, if any. -/
def narrow (tasks : Array Outcome) (id : TaskId) (base size : Nat) : Nat :=
  if 1 < size then
    let middle := base + size / 2
    if id < (tasks[middle]?.map (·.id)).getD 0 then narrow tasks id base (size - size / 2)
    else narrow tasks id middle (size - size / 2)
  else base
termination_by size
decreasing_by all_goals omega

def outcome? (r : Report) (id : TaskId) : Option Outcome :=
  let tasks := r.tasks.toArray
  (tasks[narrow tasks id 0 tasks.size]?).filter (·.id = id)

def stateOf? (r : Report) (id : TaskId) : Option TaskState := (r.outcome? id).map (·.state)

def states (r : Report) : Table TaskId TaskState := .ofList (r.tasks.map fun o => (o.id, o.state))

def idsIn (tasks : List Outcome) (s : TaskState) : List TaskId :=
  (tasks.filter (·.state = s)).map (·.id)

def done (r : Report) : List TaskId := idsIn r.tasks .done

def summary (r : Report) : String :=
  r.status.name ++ " (" ++ toString r.tasks.length ++ " tasks: " ++ toString r.done.length ++
    " done, " ++ toString r.failed.length ++ " failed, " ++ toString r.skipped.length ++ " skipped)"

end Report

structure Tally where
  runId : String
  name : String
  startedAt : Instant
  outcomes : Table TaskId Outcome

namespace Tally

def start (runId name : String) (now : Instant) (tasks : List (TaskId × Kind)) : Tally :=
  ⟨runId, name, now, .ofList (tasks.map fun (id, kind) => (id, .start id kind))⟩

def change (t : Tally) (id : TaskId) (f : Outcome → Outcome) : Tally :=
  { t with outcomes := t.outcomes.modify id f }

def started (t : Tally) (now : Instant) (id : TaskId) : Tally :=
  t.change id fun o => { o with state := .running, startedAt := some now }

def done (t : Tally) (now : Instant) (id : TaskId) : Tally :=
  t.change id fun o => { o with state := .done, diagnostic := none, finishedAt := some now }

def failed (t : Tally) (now : Instant) (id : TaskId) (diagnostic : String) : Tally :=
  t.change id fun o => { o with state := .failed, diagnostic := some diagnostic, finishedAt := some now }

/-- A task that was never started has no times. -/
def skipped (t : Tally) (id : TaskId) (reason : String) : Tally :=
  t.change id fun o => { o with state := .skipped, diagnostic := some reason }

def stateOf? (t : Tally) (id : TaskId) : Option TaskState := (t.outcomes.find? id).map (·.state)

/-- Only a run that was not stopped and whose tasks are all done is a success. -/
def status (tasks : List Outcome) : Option Stop → Status
  | some (.cancelled _) => .cancelled
  | some (.fatal _) => .failure
  | none => if tasks.all (·.state = .done) then .success else .failure

def finish (t : Tally) (now : Instant) (stop : Option Stop) : Report :=
  let tasks := t.outcomes.values
  ⟨t.runId, t.name, status tasks stop, tasks, Report.idsIn tasks .failed, Report.idsIn tasks .skipped,
    stop.map Stop.reason, t.startedAt, now⟩

end Tally

end Rollout
