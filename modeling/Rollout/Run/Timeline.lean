import Rollout.Run.State
import Rollout.Run.Surroundings
import Rollout.Handler.Registry

/-! Runs in virtual time. The clock moves only when nothing can go on. Started tasks wait in a queue
until the coordination loop waits; a task that ends gives its permit back, leaves its completion and
wakes the loop. -/

namespace Rollout

/-- A task under way; the one without id belongs to the caller of the run. -/
structure Worker where
  id : Option TaskId
  procedure : Procedure Ending

structure Run.Limits where
  concurrency : Nat
  deadline : Option Nat

structure Timeline where
  run : Run
  around : Surroundings
  handlers : Registry
  free : Nat
  deadline : Option Nat
  watchCancel : Bool
  watchDeadline : Bool
  woken : Bool
  /-- Completions in the order in which the tasks ended. -/
  arrived : List (TaskId × Completion)
  /-- Workers that can go on, the first one next. -/
  queue : List Worker
  /-- Workers that wait, by the time they are due and then by the order in which they began to wait. -/
  asleep : List (Nat × Worker)

namespace Timeline

def now (t : Timeline) : Instant := .ofMillis t.around.clock

def isLate (t : Timeline) : Bool := t.deadline.any (· ≤ t.around.clock)

def start (runId : String) (g : Graph) (handlers : Registry) (l : Run.Limits) (around : Surroundings)
    (caller : List Worker) : Timeline where
  run := .start runId g handlers.contains (.ofMillis around.clock)
  around := around
  handlers := handlers
  free := max l.concurrency 1
  deadline := l.deadline.map (around.clock + ·)
  watchCancel := true
  watchDeadline := l.deadline.isSome
  woken := true
  arrived := []
  queue := caller
  asleep := []

/-- The checks at the top of the loop: a cancelled or late run is stopped before anything starts. -/
def check (t : Timeline) : Timeline :=
  if t.run.stopped.isSome then t
  else if t.watchCancel && t.around.cancelled then
    { t with watchCancel := false, run := t.run.stop .byCaller }
  else if t.watchDeadline && t.isLate then
    { t with watchDeadline := false, run := t.run.stop .byDeadline }
  else t

def worker (t : Timeline) (id : TaskId) : Option Worker := do
  let task ← t.run.graph.task? id
  let handler ← t.handlers.get? task.kind
  some ⟨some id, handler id task.payload⟩

def launch (t : Timeline) : Timeline :=
  if t.run.stopped.isSome then t
  else
    let (run, started) := t.run.fill t.now t.run.ready.length t.free
    { t with run, free := t.free - started.length, queue := t.queue ++ started.filterMap t.worker }

def top (t : Timeline) : Timeline := t.check.launch

/-- What the waiting loop reacts to, in this order: a completion, a cancellation, the deadline. -/
def react? (t : Timeline) : Option Timeline :=
  match t.arrived with
  | (id, c) :: rest => some { t with arrived := rest, run := t.run.complete t.now id c }
  | [] =>
    if t.watchCancel && t.around.cancelled then
      some { t with watchCancel := false, run := t.run.stop .byCaller }
    else if t.watchDeadline && t.isLate then
      some { t with watchDeadline := false, run := t.run.stop .byDeadline }
    else none

/-- Reacts as long as there is something to react to and the run is not over. -/
def loop : Nat → Timeline → Timeline
  | 0, t => t
  | fuel + 1, t =>
    if t.run.isOver then t
    else match t.react? with
      | some t => loop fuel t.top
      | none => { t with woken := false }

def insertTimer (due : Nat) (w : Worker) : List (Nat × Worker) → List (Nat × Worker)
  | [] => [(due, w)]
  | (d, v) :: rest =>
    if due < d then (due, w) :: (d, v) :: rest else (d, v) :: insertTimer due w rest

def work (t : Timeline) (w : Worker) : Timeline :=
  let (around, pause) := w.procedure.advance t.run.context t.run.graph (w.id.getD 0) t.around
  let t := { t with around, woken := t.woken || (around.cancelled && !t.around.cancelled) }
  match pause with
  | .until due next => { t with asleep := insertTimer due { w with procedure := next } t.asleep }
  | .ended e =>
    match w.id with
    | none => t
    | some id => { t with free := t.free + 1, arrived := t.arrived ++ [(id, e.completion)], woken := true }

def workAll (t : Timeline) : Timeline := t.queue.foldl work { t with queue := [] }

def nextDue? (t : Timeline) : Option Nat :=
  let timers := (t.asleep.head?.map (·.1)).toList
  let deadline := if t.watchDeadline then t.deadline.toList else []
  (timers ++ deadline).min?

/-- Moves the clock if nobody woke the loop, and lets everything that is due go on. -/
def tick (t : Timeline) : Timeline :=
  let clock := if t.woken then t.around.clock else max t.around.clock (t.nextDue?.getD t.around.clock)
  let due : List (Nat × Worker) := t.asleep.takeWhile (·.1 ≤ clock)
  let t := { t with
    around := { t.around with clock }
    queue := t.queue ++ due.map Prod.snd
    asleep := t.asleep.dropWhile (·.1 ≤ clock) }
  { t with woken := t.woken || (t.watchDeadline && t.isLate) }

/-- How many completions and stops the loop can still react to. -/
def reactions (t : Timeline) : Nat := t.arrived.length + 3

def turn (t : Timeline) : Timeline :=
  let t := if t.woken then loop t.reactions t else t
  if t.run.isOver then t else t.workAll.tick

/-- At most so many turns, fewer if the run is over before. -/
def turns : Nat → Timeline → Timeline
  | 0, t => t
  | fuel + 1, t => if t.run.isOver then t else turns fuel t.turn

end Timeline

structure Run.Record where
  report : Report
  events : List Event
  around : Surroundings

/-- More turns than any run takes that a clock of 64 bits can follow. -/
def Timeline.patience : Nat := Nat.pow 2 62

def Timeline.play (t : Timeline) : Run.Record :=
  let t := turns patience t.top
  let (report, events) := t.run.finish t.now
  ⟨report, events, t.around⟩

end Rollout
