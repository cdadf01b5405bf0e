import Rollout.Run.Loop

/-! The coordination loop together with the handlers that it called. Each of them goes on by itself, one act
after the other: collaborators answer in any way, and what is read of the context is what stands there then. -/

namespace Rollout

inductive Procedure.Act
  | asked (c : Call) (answer : Except Client.Fault c.Reply)
  | looked (key : String) (answer : Except Context.Fault Json)
  /-- Anything that has no answer. -/
  | passed

/-- One act of a task that reads the context in this way. -/
inductive Procedure.Move {α : Type} (read : String → Except Context.Fault Json) :
    Procedure α → Procedure.Act → Procedure α → Prop
  | asked (c : Call) (next : Except Client.Fault c.Reply → Procedure α)
      (answer : Except Client.Fault c.Reply) : Move read (.call c next) (.asked c answer) (next answer)
  | looked (key : String) (next : Except Context.Fault Json → Procedure α) :
      Move read (.look key next) (.looked key (read key)) (next (read key))
  | waited (ms : Nat) (next : Procedure α) : Move read (.wait ms next) .passed next
  | worked (ms : Nat) (next : Procedure α) : Move read (.busy ms next) .passed next
  | cancelled (next : Procedure α) : Move read (.cancelRun next) .passed next
  | noted (n : Note) (next : Procedure α) : Move read (.note n next) .passed next

structure Crew where
  loop : Loop
  handlers : Registry
  /-- What the handlers that were called have left to do. -/
  rest : TaskId → Procedure Ending

namespace Crew

inductive Deed
  | loop (a : Loop.Action)
  | act (id : TaskId) (x : Procedure.Act)

def start (runId : String) (g : Graph) (handlers : Registry) (l : Run.Limits) (now : Instant) : Crew where
  loop := .start runId g handlers l now
  handlers := handlers
  rest _ := .done (.finished .empty)

def assign (c : Crew) (id : TaskId) (p : Procedure Ending) : Crew :=
  { c with rest := fun x => if x = id then p else c.rest x }

/-- One step of the loop or one act of a handler. Handlers end as they say, or in a panic at any point. -/
inductive Step : Crew → Deed → Crew → Prop
  | called {c : Crew} {id : TaskId} {l : Loop} {t : Task} {h : Handler}
      (step : Loop.Step c.loop (.dispatch id) l) (task : c.loop.run.graph.task? id = some t)
      (handler : c.handlers.get? t.kind = some h) :
      Step c (.loop (.dispatch id)) (assign { c with loop := l } id (h id t.payload))
  | act {c : Crew} {id : TaskId} {x : Procedure.Act} {p : Procedure Ending} (call : id ∈ c.loop.calls)
      (move : (c.rest id).Move (Context.read c.loop.run.graph id c.loop.run.context) x p) :
      Step c (.act id x) (c.assign id p)
  | ended {c : Crew} {id : TaskId} {e : Ending} {l : Loop} (step : Loop.Step c.loop (.ended id e) l)
      (rest : c.rest id = .done e ∨ ∃ message, e = .panicked message) :
      Step c (.loop (.ended id e)) { c with loop := l }
  | other {c : Crew} {a : Loop.Action} {l : Loop} (step : Loop.Step c.loop a l)
      (calls : ∀ id, a ≠ .dispatch id) (ends : ∀ id e, a ≠ .ended id e) :
      Step c (.loop a) { c with loop := l }

inductive Path : Crew → List Deed → Crew → Prop
  | refl (c : Crew) : Path c [] c
  | snoc {c m n : Crew} {deeds : List Deed} {d : Deed} (path : Path c deeds m) (step : Step m d n) :
      Path c (deeds ++ [d]) n

end Crew

end Rollout
