import Rollout.Retry

/-! What the handlers of all collaborators share: how calls are repeated and phases waited for, where
addresses come from, and the answer to a payload of another collaborator. -/

namespace Rollout

structure Handler.Settings where
  retry : RetryPolicy
  wait : PhaseWait

abbrev Handler.Work := Procedure (Except TaskFault Outputs)

namespace Handler

def nothing : Work := .done (.ok .empty)

def wrong (expected : String) (p : Payload) : Work := .done (.error (.wrongPayload expected p.kind))

/-- Makes a call with its repetitions and leaves nothing. -/
def Settings.make (s : Settings) (c : Call) : Work := (s.retry.calling c).andThen fun _ => nothing

def Settings.reach (s : Settings) (i : Instance) (required : Phase) (next : Work) : Work :=
  (s.wait.waitFor i required).andThen fun _ => next

def Settings.provided (s : Settings) (provider : Option Instance) (next : Work) : Work :=
  match provider with
  | none => next
  | some i => s.reach i .ready next

/-- Goes on with an address, which may have to be read first. -/
def resolve (a : Address) (next : String → Work) : Work :=
  match a with
  | .fixed address => next address
  | .fromContext key => .look key fun
    | .error f => .done (.error (.context f))
    | .ok v =>
      match Context.decode key (fun _ => Doc.readString) v with
      | .error f => .done (.error (.context f))
      | .ok address => next address

end Handler

end Rollout
