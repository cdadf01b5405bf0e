import Rollout.Run.Timeline
import Rollout.Config

/-! The whole way of a plan: settings are checked once, a plan is indexed and its kinds must have
handlers before anything is started. -/

namespace Rollout

structure Executor where
  handlers : Registry
  config : Config

namespace Executor

inductive Fault
  | graph (f : Graph.Fault)
  | noHandler (kind : Kind) (id : TaskId)
  | duplicateHandler (kind : Kind)
  | invalidConfig (f : Config.Fault)
  | unreadable (path reason : String)
  | malformedConfig

def Fault.message : Fault → String
  | graph f => "Invalid plan: " ++ f.message
  | noHandler kind id =>
    "No handler registered for task kind " ++ kind.name ++ " (task " ++ toString id.toNat ++ ")"
  | duplicateHandler kind => "Handler already registered for task kind " ++ kind.name
  | invalidConfig f => "Configuration invalid: " ++ f.message
  | unreadable path reason => "Failed to read configuration from " ++ path ++ ": " ++ reason
  | malformedConfig => "Failed to parse YAML"

def checked (c : Config) : Except Fault Config :=
  match c.validate with
  | .ok () => .ok c
  | .error f => .error (.invalidConfig f)

def readConfig (yaml : String) : Except Fault Config :=
  match Config.ofYaml yaml with
  | .ok c => checked c
  | .error _ => .error .malformedConfig

/-- Where no files are, a path leads nowhere unless it stays at the directory it starts from. -/
def noFile (path : String) : Fault :=
  let stays := path ≠ "" && (path.splitOn "/").all (fun c => c = "" || c = "." || c = "..")
  .unreadable path (if stays then "Is a directory (os error 21)"
    else "No such file or directory (os error 2)")

def make (handlers : Registry) (config : Config) : Except Fault Executor :=
  (checked config).map fun c => ⟨handlers, c⟩

def settings (c : Config) : Handler.Settings := ⟨c.retry, c.phaseWait⟩

def builtin (config : Config) : Except Fault Executor := make (.builtin (settings config)) config

/-- The graph of a plan whose kinds all have handlers; the first task of a kind without one is named. -/
def prepare (handlers : Registry) (p : Plan) : Except Fault Graph :=
  match Graph.ofPlan p with
  | .error f => .error (.graph f)
  | .ok g =>
    match p.kinds.find? fun (k, _) => !handlers.contains k with
    | some (k, id) => .error (.noHandler k id)
    | none => .ok g

def limits (c : Config) : Run.Limits :=
  ⟨c.concurrencyLimit.toNat, c.deadline.map (·.toNat)⟩

/-- Runs a plan; one that is turned down leaves everything as it was. -/
def execute (x : Executor) (runId : String) (p : Plan) (around : Surroundings)
    (caller : List Worker) : Except Fault Run.Record :=
  match prepare x.handlers p with
  | .error f => .error f
  | .ok g => .ok (Timeline.start runId g x.handlers (limits x.config) around caller).play

/-- What is seen of an execution from outside. -/
structure Answer where
  result : Except Fault Report
  events : List Event
  around : Surroundings

def answer (x : Executor) (runId : String) (p : Plan) (around : Surroundings) (caller : List Worker) :
    Answer :=
  match x.execute runId p around caller with
  | .ok r => ⟨.ok r.report, r.events, r.around⟩
  | .error f => ⟨.error f, [], around⟩

end Executor

end Rollout
