import Rollout.Handler.Registry

/-! Tasks that follow a script, for trying out how a run behaves. -/

namespace Rollout.Script

inductive Step
  | sleep (ms : Nat)
  | block (ms : Nat)
  | cancel
  | read (key : String)
  | readString (key : String)
  | readWord (key : String)
  | write (key : String) (value : Json)
  | fail (f : TaskFault)
  | panic (message : Option String)

def reading (key : String) (decode : Json → Except Context.Fault Json) (next : Procedure Ending) :
    Procedure Ending :=
  .look key fun r =>
    match r.bind decode with
    | .ok v => .note (.saw v) next
    | .error f => .done (.failed (.context f))

/-- Follows the steps; the values written before a failure are lost. -/
def follow : List Step → Outputs → Procedure Ending
  | [], outputs => .note .ended (.done (.finished outputs))
  | step :: rest, outputs =>
    match step with
    | .sleep ms => .wait ms (follow rest outputs)
    | .block ms => .busy ms (follow rest outputs)
    | .cancel => .cancelRun (follow rest outputs)
    | .read key => reading key .ok (follow rest outputs)
    | .readString key =>
      reading key (fun v => Json.string <$> Context.decode key (fun _ => Doc.readString) v)
        (follow rest outputs)
    | .readWord key =>
      reading key (fun v => Json.id <$> Context.decode key (fun _ => Doc.readWord) v)
        (follow rest outputs)
    | .write key value => follow rest (outputs.insert key value)
    | .fail f => .done (.failed f)
    | .panic message => .done (.panicked message)

def handler (scripts : Table TaskId (List Step)) : Handler := fun id _ =>
  .note .started (follow ((scripts.find? id).getD []) .empty)

/-- The answers in turn, the last one again and again; each time that one is asked for is noted. -/
def answers (first : α) (rest : List α) (attempt : Nat) : Procedure α :=
  .note .started (.done (((first :: rest)[attempt - 1]?).getD (rest.getLastD first)))

end Rollout.Script
