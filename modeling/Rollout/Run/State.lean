import Rollout.Run.Report
import Rollout.Context.Store
import Rollout.Procedure

/-! One run of a graph, seen from its coordination loop: the state of every task, how many predecessors
each still waits for, the tasks that are ready, those in flight, and what was told to observers. -/

namespace Rollout

inductive Completion
  | succeeded (outputs : Outputs)
  | failed (diagnostic : String) (fatal : Bool)

def Ending.completion : Ending → Completion
  | finished outputs => .succeeded outputs
  | failed f => .failed f.message f.isFatal
  | panicked message => .failed ("handler panicked: " ++ message.getD "unknown panic") false

structure Run where
  graph : Graph
  covered : Kind → Bool
  states : Table TaskId TaskState
  remaining : Table TaskId Nat
  /-- Ascending. -/
  ready : List TaskId
  inFlight : Nat
  stopped : Option Stop
  context : Context
  tally : Tally
  events : List Event

namespace Run

def start (runId : String) (g : Graph) (covered : Kind → Bool) (now : Instant) : Run where
  graph := g
  covered := covered
  states := g.tasks.map fun _ t => if t.isRoot then .ready else .pending
  remaining := g.tasks.map fun _ t => t.predecessors.length
  ready := g.roots
  inFlight := 0
  stopped := none
  context := .empty
  tally := .start runId g.name now (g.tasks.map fun _ t => t.kind).pairs
  events := [.runStarted runId g.name g.size]

def stateOf (r : Run) (id : TaskId) : TaskState := (r.states.find? id).getD .skipped

def setState (r : Run) (id : TaskId) (s : TaskState) : Run :=
  { r with states := r.states.modify id fun _ => s }

def emit (r : Run) (e : Event) : Run := { r with events := r.events ++ [e] }

def skip (reason : String) (r : Run) (id : TaskId) : Run :=
  let r := r.setState id .skipped
  { r with tally := r.tally.skipped id reason }.emit (.skipped id reason)

/-- A task that failed; everything behind it that still waits is skipped. -/
def fail (now : Instant) (r : Run) (id : TaskId) (diagnostic : String) : Run :=
  let r := r.setState id .failed
  let r := { r with tally := r.tally.failed now id diagnostic }.emit
    (.finished id .failed (some diagnostic))
  let reason := "upstream task " ++ toString id.toNat ++ " failed"
  (r.graph.downstream id).foldl
    (fun r d => if r.stateOf d = .pending then skip reason r d else r) r

/-- The first stop counts. Tasks in flight go on, all others that did not start are skipped. -/
def stop (r : Run) (s : Stop) : Run :=
  if r.stopped.isSome then r
  else
    let waiting := r.graph.ids.filter fun id => r.stateOf id = .pending || r.stateOf id = .ready
    { waiting.foldl (skip s.skipReason) r with ready := [], stopped := some s }

/-- Puts an id behind all smaller ones; an id that comes twice is there twice. -/
def enqueue (id : TaskId) : List TaskId → List TaskId
  | [] => [id]
  | j :: rest => if id < j then id :: j :: rest else j :: enqueue id rest

/-- One predecessor less to wait for. -/
def unlock (r : Run) (id : TaskId) : Run :=
  if r.stateOf id ≠ .pending then r
  else
    let left := (r.remaining.find? id).getD 0 - 1
    let r := { r with remaining := r.remaining.modify id fun _ => left }
    if left = 0 then { r.setState id .ready with ready := enqueue id r.ready } else r

/-- Takes in one completion. Outputs under a key that is taken fail the task and stop the run. -/
def complete (now : Instant) (r : Run) (id : TaskId) (c : Completion) : Run :=
  let r := { r with inFlight := r.inFlight - 1 }
  match c with
  | .succeeded outputs =>
    match r.context.writeAll id outputs.pairs with
    | (context, some f) =>
      (fail now { r with context } id f.message).stop (.fatal f.message)
    | (context, none) =>
      let r := { r with context }.setState id .done
      let r := { r with tally := r.tally.done now id }.emit (.finished id .done none)
      (r.graph.successors id).foldl unlock r
  | .failed diagnostic fatal =>
    let r := fail now r id diagnostic
    if fatal then r.stop (.fatal diagnostic) else r

/-- Starts the first ready task, or fails it if its kind has no handler. -/
def dispatch (now : Instant) (r : Run) (id : TaskId) (kind : Kind) : Run × Bool :=
  let r := { r with ready := r.ready.drop 1 }
  if r.covered kind then
    let r := r.setState id .running
    let r := { r with tally := r.tally.started now id, inFlight := r.inFlight + 1 }
    (r.emit (.dispatched id kind), true)
  else (fail now r id ("no handler registered for task kind " ++ kind.name), false)

/-- Starts ready tasks, the least id first, as long as permits are free; returns the tasks started. -/
def fill (now : Instant) : Nat → Nat → Run → Run × List TaskId
  | 0, _, r => (r, [])
  | _, 0, r => (r, [])
  | fuel + 1, free + 1, r =>
    match r.ready with
    | [] => (r, [])
    | id :: rest =>
      match r.graph.task? id with
      | none => fill now fuel (free + 1) { r with ready := rest }
      | some t =>
        let (r, started) := dispatch now r id t.kind
        if started then
          let (r, more) := fill now fuel free r
          (r, id :: more)
        else fill now fuel (free + 1) r

def isOver (r : Run) : Bool := r.inFlight = 0 && (r.ready.isEmpty || r.stopped.isSome)

def finish (now : Instant) (r : Run) : Report × List Event :=
  let report := r.tally.finish now r.stopped
  (report, r.events ++ [.runFinished report.runId report.status])

end Run

end Rollout
