import Rollout.Client.Call
import Rollout.Context.Store

/-! What a task does once it is started, as a tree: it makes calls and goes on with their answers, reads
the context, lets time pass and ends. -/

namespace Rollout

/-- Why a task failed. Only faults between tasks are fatal to the whole run. -/
inductive TaskFault
  | client (f : Client.Fault)
  | context (f : Context.Fault)
  | wrongPayload (expected : String) (actual : Kind)
  | failed (reason : String)
  | other (reason : String)

namespace TaskFault

def message : TaskFault → String
  | client f => f.message
  | context f => f.message
  | wrongPayload expected actual =>
    "Handler for " ++ expected ++ " cannot execute a " ++ actual.name ++ " payload"
  | failed reason | other reason => reason

def isFatal : TaskFault → Bool
  | context _ => true
  | _ => false

def isTransient : TaskFault → Bool
  | client f => f.isTransient
  | _ => false

def category : TaskFault → String
  | client _ => "client"
  | context _ => "context"
  | wrongPayload .. => "payload"
  | failed _ => "failed"
  | other _ => "other"

end TaskFault

/-- What a task may write down about itself while it runs. -/
inductive Note
  | started
  | ended
  | saw (value : Json)

/-- Waiting lets other tasks run, being busy does not. -/
inductive Procedure (α : Type)
  | done (a : α)
  | call (c : Call) (next : Except Client.Fault c.Reply → Procedure α)
  | look (key : String) (next : Except Context.Fault Json → Procedure α)
  | wait (ms : Nat) (next : Procedure α)
  | busy (ms : Nat) (next : Procedure α)
  | cancelRun (next : Procedure α)
  | note (n : Note) (next : Procedure α)

namespace Procedure

def bind (p : Procedure α) (f : α → Procedure β) : Procedure β :=
  match p with
  | done a => f a
  | call c next => call c fun r => (next r).bind f
  | look key next => look key fun r => (next r).bind f
  | wait ms next => wait ms (next.bind f)
  | busy ms next => busy ms (next.bind f)
  | cancelRun next => cancelRun (next.bind f)
  | note n next => note n (next.bind f)

def map (f : α → β) (p : Procedure α) : Procedure β := p.bind fun a => done (f a)

/-- Goes on only after success. -/
def andThen (p : Procedure (Except ε α)) (f : α → Procedure (Except ε β)) : Procedure (Except ε β) :=
  p.bind fun r => match r with
    | .ok a => f a
    | .error e => done (.error e)

end Procedure

/-- How the work of a task ends; a panic may have a message. -/
inductive Ending
  | finished (outputs : Outputs)
  | failed (f : TaskFault)
  | panicked (message : Option String)

end Rollout
