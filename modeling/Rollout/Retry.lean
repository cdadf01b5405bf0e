import Rollout.Procedure
import Rollout.Config

/-! Repeating calls that may succeed later, and waiting until an instance has come far enough. -/

namespace Rollout

/-- The fault of the last of several attempts tells their number. -/
def Client.Fault.afterAttempts (f : Client.Fault) (attempts : Nat) : Client.Fault :=
  if attempts ≤ 1 then f
  else { f with detail := f.detail ++ " (after " ++ toString attempts ++ " attempts)" }

namespace RetryPolicy

/-- The delay after an attempt, jitter aside. -/
def delay (p : RetryPolicy) (attempt : Nat) : Nat := p.backoff.delay attempt

/-- The delay after an attempt. Where there is jitter, a number drawn at random shifts it. -/
def delayDrawn (p : RetryPolicy) (draw : UInt32) (attempt : Nat) : Nat :=
  if p.jitter then Backoff.jittered (p.delay attempt) draw else p.delay attempt

def attempts (p : RetryPolicy) : Nat := max p.maxAttempts.toNat 1

/-- Asks once more after a pause for each fault that may pass, `left` times at most. What is asked and how
long the pauses are may depend on the number of the attempt. -/
def attempting (pause : Nat → Nat) (ask : Nat → Procedure (Except Client.Fault α)) :
    Nat → Nat → Procedure (Except Client.Fault α)
  | left, attempt => (ask attempt).bind fun
    | .ok a => .done (.ok a)
    | .error f =>
      if f.isTransient then
        match left with
        | 0 => .done (.error (f.afterAttempts attempt))
        | left + 1 => .wait (pause attempt) (attempting pause ask left (attempt + 1))
      else .done (.error (f.afterAttempts attempt))

/-- Repeats what is asked, with a number drawn for each delay. -/
def runDrawing (p : RetryPolicy) (draws : Nat → UInt32) (ask : Nat → Procedure (Except Client.Fault α)) :
    Procedure (Except Client.Fault α) :=
  attempting (fun attempt => p.delayDrawn (draws attempt) attempt) ask (p.attempts - 1) 1

/-- Repeats what is asked. Jitter is left out: its mean is zero. -/
def run (p : RetryPolicy) (ask : Nat → Procedure (Except Client.Fault α)) :
    Procedure (Except Client.Fault α) :=
  attempting p.delay ask (p.attempts - 1) 1

def calling (p : RetryPolicy) (c : Call) : Procedure (Except TaskFault c.Reply) :=
  (p.run fun _ => .call c .done).map fun r => r.mapError TaskFault.client

end RetryPolicy

namespace PhaseWait

def polls (w : PhaseWait) : Nat := max w.maxPolls.toNat 1

def timeout (i : Instance) (required : Phase) (polls : Nat) (seen : Option Phase) : Client.Fault :=
  ⟨.timeout, "ping", "instance " ++ i.name ++ " did not reach phase " ++ required.title ++ " after " ++
    toString polls ++ " polls (last seen: " ++ (seen.map Phase.title).getD "no answer" ++ ")"⟩

/-- Polls once and then `left` times at most. A failure that may pass counts as not there yet and
leaves the phase seen last as it was. -/
def polling (w : PhaseWait) (ask : Nat → Procedure (Except Client.Fault Phase)) (i : Instance)
    (required : Phase) : Nat → Nat → Option Phase → Procedure (Except Client.Fault Phase)
  | left, poll, seen => (ask poll).bind fun answer =>
    let again (seen : Option Phase) : Procedure (Except Client.Fault Phase) :=
      match left with
      | 0 => .done (.error (timeout i required w.polls seen))
      | left + 1 => .wait w.pollInterval.toNat (polling w ask i required left (poll + 1) seen)
    match answer with
    | .ok phase => if phase.reaches required then .done (.ok phase) else again (some phase)
    | .error f => if f.isTransient then again seen else .done (.error f)

def run (w : PhaseWait) (ask : Nat → Procedure (Except Client.Fault Phase)) (i : Instance)
    (required : Phase) : Procedure (Except Client.Fault Phase) :=
  w.polling ask i required (w.polls - 1) 1 none

def waitFor (w : PhaseWait) (i : Instance) (required : Phase) : Procedure (Except TaskFault Phase) :=
  (w.run (fun _ => .call (.ping i) .done) i required).map fun r => r.mapError TaskFault.client

end PhaseWait

end Rollout
