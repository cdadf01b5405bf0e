import Rollout.Plan.Basic

/-! Finding a task on a cycle: tasks are ordered by the time at which a search along the edges leaves
them, and then searched against the edges, the last one left first. In the second search two tasks
meet only if each can reach the other, so the first task that meets another lies on a cycle. -/

namespace Rollout.Graph

/-- The edges of tasks by ascending id, the last declared edge of a task first. -/
structure Arrows where
  ids : List TaskId
  forward : TaskId → List TaskId
  backward : TaskId → List TaskId

def Arrows.ofTasks (tasks : List Task) : Arrows where
  ids := tasks.map (·.id)
  forward id := ((tasks.find? (·.id = id)).map (·.successors.reverse)).getD []
  backward id := ((tasks.filter (id ∈ ·.successors)).map (·.id)).reverse

/-- Tasks seen so far and tasks left so far, the last one first. -/
structure Search where
  seen : List TaskId
  finished : List TaskId

/-- The search from a stack of tasks. A task is left when it is met again on top of the stack with all
its successors seen. -/
def search (a : Arrows) : Nat → List TaskId → Search → Search
  | 0, _, s => s
  | _, [], s => s
  | fuel + 1, id :: stack, s =>
    if id ∈ s.seen then
      search a fuel stack (if id ∈ s.finished then s else { s with finished := id :: s.finished })
    else
      let seen := id :: s.seen
      let next := (a.forward id).filter (· ∉ seen)
      search a fuel (next.reverse ++ id :: stack) { s with seen := seen }

/-- More rounds than the searches from all tasks together can take. -/
def rounds (a : Arrows) : Nat :=
  2 * (a.ids.length + (a.ids.flatMap fun id => a.forward id ++ a.backward id).length) + 2

/-- All tasks, the last one left first. -/
def leaving (a : Arrows) : List TaskId :=
  (a.ids.foldl (fun s id => if id ∈ s.seen then s else search a (rounds a) [id] s)
    ⟨[], []⟩).finished

/-- The tasks met from a stack against the edges, in reverse, with all tasks seen. -/
def retrace (a : Arrows) : Nat → List TaskId → List TaskId → List TaskId → List TaskId × List TaskId
  | 0, _, seen, met => (met, seen)
  | _, [], seen, met => (met, seen)
  | fuel + 1, id :: stack, seen, met =>
    if id ∈ seen then retrace a fuel stack seen met
    else
      let seen := id :: seen
      let next := (a.backward id).filter (· ∉ seen)
      retrace a fuel (next.reverse ++ stack) seen (id :: met)

/-- The second task met from the first start that meets one. -/
def meeting? (a : Arrows) : List TaskId → List TaskId → Option TaskId
  | [], _ => none
  | id :: rest, seen =>
    let (met, seen) := retrace a (rounds a) [id] seen []
    match met.reverse with
    | _ :: other :: _ => some other
    | _ => meeting? a rest seen

def cyclic? (tasks : List Task) : Option TaskId :=
  let a := Arrows.ofTasks tasks
  meeting? a (leaving a) []

end Rollout.Graph
