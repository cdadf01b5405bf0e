import Rollout.Run.Timeline

/-! The coordination loop with nothing fixed about what goes on around it: handlers end in any order and
in any way, and the run is cancelled or late at any time. -/

namespace Rollout

inductive Loop.Place
  | top
  | filling
  | waiting
  | left
deriving Repr, DecidableEq

structure Loop where
  run : Run
  place : Loop.Place
  free : Nat
  /-- Tasks whose handlers were called and have not ended. -/
  calls : List TaskId
  /-- Completions that the loop has not handled. -/
  arrived : List (TaskId × Completion)
  watchCancel : Bool
  watchDeadline : Bool
  cancelled : Bool
  late : Bool

namespace Loop

inductive Action
  | check
  | dispatch (id : TaskId)
  /-- A ready task whose kind has no handler. -/
  | refuse (id : TaskId)
  | wait
  | leave
  | handle (id : TaskId) (c : Completion)
  | heedCancel
  | heedDeadline
  | ended (id : TaskId) (e : Ending)
  | cancel
  | expire

def start (runId : String) (g : Graph) (handlers : Registry) (l : Run.Limits) (now : Instant) : Loop where
  run := .start runId g handlers.contains now
  place := .top
  free := max l.concurrency 1
  calls := []
  arrived := []
  watchCancel := true
  watchDeadline := l.deadline.isSome
  cancelled := false
  late := false

/-- A run that is cancelled or late is stopped before anything starts. -/
def check (l : Loop) : Loop :=
  if l.run.stopped.isSome then l
  else if l.watchCancel && l.cancelled then
    { l with watchCancel := false, run := l.run.stop .byCaller }
  else if l.watchDeadline && l.late then
    { l with watchDeadline := false, run := l.run.stop .byDeadline }
  else l

/-- Whether no more tasks can be started for now. -/
def isFull (l : Loop) : Bool := l.run.stopped.isSome || l.run.ready.isEmpty || l.free = 0

/-- One step of the loop or of what goes on around it. Completions are handled in any order. -/
inductive Step : Loop → Action → Loop → Prop
  | check {l : Loop} (place : l.place = .top) : Step l .check { l.check with place := .filling }
  | dispatch {l : Loop} {id : TaskId} {rest : List TaskId} {t : Task} (now : Instant)
      (place : l.place = .filling) (notFull : l.isFull = false) (first : l.run.ready = id :: rest)
      (task : l.run.graph.task? id = some t) (covered : l.run.covered t.kind = true) :
      Step l (.dispatch id)
        { l with run := (l.run.dispatch now id t.kind).1, free := l.free - 1, calls := id :: l.calls }
  | refuse {l : Loop} {id : TaskId} {rest : List TaskId} {t : Task} (now : Instant)
      (place : l.place = .filling) (notFull : l.isFull = false) (first : l.run.ready = id :: rest)
      (task : l.run.graph.task? id = some t) (uncovered : l.run.covered t.kind = false) :
      Step l (.refuse id) { l with run := (l.run.dispatch now id t.kind).1 }
  | wait {l : Loop} (place : l.place = .filling) (full : l.isFull = true)
      (notOver : l.run.isOver = false) : Step l .wait { l with place := .waiting }
  | leave {l : Loop} (place : l.place = .filling) (full : l.isFull = true)
      (isOver : l.run.isOver = true) : Step l .leave { l with place := .left }
  | handle {l : Loop} {id : TaskId} {c : Completion} {before after : List (TaskId × Completion)}
      (now : Instant) (place : l.place = .waiting) (split : l.arrived = before ++ (id, c) :: after) :
      Step l (.handle id c)
        { l with run := l.run.complete now id c, arrived := before ++ after, place := .top }
  | heedCancel {l : Loop} (place : l.place = .waiting) (watched : l.watchCancel = true)
      (cancelled : l.cancelled = true) :
      Step l .heedCancel
        { l with watchCancel := false, run := l.run.stop .byCaller, place := .top }
  | heedDeadline {l : Loop} (place : l.place = .waiting) (watched : l.watchDeadline = true)
      (late : l.late = true) :
      Step l .heedDeadline
        { l with watchDeadline := false, run := l.run.stop .byDeadline, place := .top }
  | ended {l : Loop} {id : TaskId} (e : Ending) (call : id ∈ l.calls) :
      Step l (.ended id e)
        { l with
          calls := l.calls.erase id, free := l.free + 1,
          arrived := l.arrived ++ [(id, e.completion)] }
  | cancel {l : Loop} (fresh : l.cancelled = false) : Step l .cancel { l with cancelled := true }
  | expire {l : Loop} (fresh : l.late = false) : Step l .expire { l with late := true }

inductive Path : Loop → List Action → Loop → Prop
  | refl (l : Loop) : Path l [] l
  | snoc {l m n : Loop} {actions : List Action} {a : Action} (path : Path l actions m)
      (step : Step m a n) : Path l (actions ++ [a]) n

end Loop

end Rollout
