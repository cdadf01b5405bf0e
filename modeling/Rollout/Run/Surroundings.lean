import Rollout.Client.Rehearsal
import Rollout.Procedure

/-! What happens around tasks in virtual time: a clock, rehearsed collaborators, a request to cancel and a
log. A task goes on by itself until it ends or has to wait. -/

namespace Rollout

structure Surroundings where
  clock : Nat
  rehearsal : Client.Rehearsal
  /-- Whether cancelling has an effect. -/
  listening : Bool
  cancelled : Bool
  /-- In reverse. -/
  log : List (Nat × TaskId × Note)

namespace Surroundings

def start (rehearsal : Client.Rehearsal) : Surroundings := ⟨0, rehearsal, true, false, []⟩

def pass (s : Surroundings) (ms : Nat) : Surroundings := { s with clock := s.clock + ms }

def cancel (s : Surroundings) : Surroundings := { s with cancelled := s.cancelled || s.listening }

def write (s : Surroundings) (id : TaskId) (n : Note) : Surroundings :=
  { s with log := (s.clock, id, n) :: s.log }

end Surroundings

inductive Pause (α : Type)
  | ended (a : α)
  | until (due : Nat) (next : Procedure α)

namespace Procedure

/-- Lets a task go on until it ends or has to wait. Waiting for no time is no waiting. -/
def advance (context : Context) (g : Graph) (id : TaskId) :
    Procedure α → Surroundings → Surroundings × Pause α
  | done a, s => (s, .ended a)
  | call c next, s =>
    let (rehearsal, r) := s.rehearsal.answer c
    (next r).advance context g id { s with rehearsal }
  | look key next, s => (next (Context.read g id context key)).advance context g id s
  | wait ms next, s =>
    if ms = 0 then next.advance context g id s else (s, .until (s.clock + ms) next)
  | busy ms next, s => next.advance context g id (s.pass ms)
  | cancelRun next, s => next.advance context g id s.cancel
  | note n next, s => next.advance context g id (s.write id n)

/-- Plays a task to its end with nothing beside it; whenever it waits, the clock moves on. -/
def alone (context : Context) (g : Graph) (id : TaskId) : Procedure α → Surroundings → Surroundings × α
  | done a, s => (s, a)
  | call c next, s =>
    let (rehearsal, r) := s.rehearsal.answer c
    (next r).alone context g id { s with rehearsal }
  | look key next, s => (next (Context.read g id context key)).alone context g id s
  | wait ms next, s | busy ms next, s => next.alone context g id (s.pass ms)
  | cancelRun next, s => next.alone context g id s.cancel
  | note n next, s => next.alone context g id (s.write id n)

end Procedure

end Rollout
