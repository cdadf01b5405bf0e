import Rollout.Client.Call

/-! Collaborators that only write down what they are asked. Services get an address of the cluster,
instances are ready unless said otherwise, and failures can be arranged beforehand. -/

namespace Rollout.Client

structure Rehearsal where
  /-- Operations and targets of the calls so far, the last one first. -/
  reversed : List (String × String)
  /-- What fails, by operation and target. -/
  failures : Table String Fault
  /-- How many of the next calls of an operation fail. -/
  flaky : Table String UInt32
  phases : List (Instance × Phase)

namespace Rehearsal

def start : Rehearsal := ⟨[], .empty, .empty, []⟩

def calls (r : Rehearsal) : List (String × String) := r.reversed.reverse

def callsTo (r : Rehearsal) (operation : String) : List String :=
  (r.calls.filter (·.1 = operation)).map (·.2)

def failureKey (operation target : String) : String := operation ++ ":" ++ target

/-- Lets all calls of an operation on a target fail; a star stands for every target. -/
def fail (r : Rehearsal) (operation target : String) (f : Fault) : Rehearsal :=
  { r with failures := r.failures.insert (failureKey operation target) f }

def setFlaky (r : Rehearsal) (operation : String) (times : UInt32) : Rehearsal :=
  { r with flaky := r.flaky.insert operation times }

def setPhase (r : Rehearsal) (i : Instance) (p : Phase) : Rehearsal :=
  { r with phases := (i, p) :: r.phases }

def phaseOf (r : Rehearsal) (i : Instance) : Phase := (r.phases.lookup i).getD .ready

def serviceAddress (scope name : String) : String := name ++ "." ++ scope ++ ".svc.cluster.local"

def reply (r : Rehearsal) : (c : Call) → c.Reply
  | .createService scope name _ => serviceAddress scope name
  | .ping i => r.phaseOf i
  | .createDeployment .. | .updateDeployment .. | .deleteDeployment .. | .deleteService ..
  | .createNamespace .. | .deleteNamespace .. | .createSecret .. | .deleteSecret ..
  | .setDependencyAddress .. | .initializeInstance .. | .finalizeExecution ..
  | .setStatefulnessParameters .. | .setClientDependency .. | .disconnectApplication ..
  | .shardCollection .. | .moveChunk .. | .dropDatabase .. | .addAppRecord .. | .deleteAppRecord ..
  | .registerApplication .. | .createInstanceRecord .. | .deleteInstanceRecord ..
  | .initializeScheduledJob .. => ()

def noted (r : Rehearsal) (c : Call) : Rehearsal :=
  { r with reversed := (c.operation, c.target) :: r.reversed }

/-- Failures by number come first, then one for the very target, then one for all targets. -/
def answer (r : Rehearsal) (c : Call) : Rehearsal × Except Fault c.Reply :=
  let r := r.noted c
  let left := (r.flaky.find? c.operation).getD 0
  if 0 < left then
    (r.setFlaky c.operation (left - 1),
      .error (.unavailable c.operation "injected transient failure"))
  else
    match (r.failures.find? (failureKey c.operation c.target)).or
        (r.failures.find? (failureKey c.operation "*")) with
    | some f => (r, .error f)
    | none => (r, .ok (r.reply c))

end Rehearsal

end Rollout.Client
