import Rollout.Plan.Payload

/-! Plans: tasks with their edges, declared on both ends. A draft knows only what each task comes
after and fills in the other ends. -/

namespace Rollout

abbrev TaskId := UInt64

structure Task where
  id : TaskId
  payload : Payload
  predecessors : List TaskId
  successors : List TaskId
deriving Inhabited

def Task.kind (t : Task) : Kind := t.payload.kind

def Task.isRoot (t : Task) : Bool := t.predecessors.isEmpty

structure Plan where
  name : String
  tasks : List Task
deriving Inhabited

namespace Plan

/-- The kinds in use by order of appearance, each with the first task of that kind. -/
def kinds (p : Plan) : List (Kind × TaskId) :=
  p.tasks.foldl (fun seen t => if seen.any (·.1 = t.kind) then seen else seen ++ [(t.kind, t.id)]) []

/-- The place of the last task with an id. -/
def lastPosition? (tasks : List Task) (id : TaskId) : Option Nat :=
  (tasks.zipIdx.filter (·.1.id = id)).getLast?.map (·.2)

def edges (tasks : List Task) : List (TaskId × TaskId) :=
  tasks.flatMap fun t => t.predecessors.map (·, t.id)

/-- Declares an edge on its first end; an unknown first end is left to be found missing. -/
def declare (tasks : List Task) (edge : TaskId × TaskId) : List Task :=
  match lastPosition? tasks edge.1 with
  | none => tasks
  | some n => tasks.modify n fun t =>
    if edge.2 ∈ t.successors then t else { t with successors := t.successors ++ [edge.2] }

/-- The plan of tasks given with what they come after. -/
def ofSteps (name : String) (steps : List (TaskId × Payload × List TaskId)) : Plan :=
  let tasks := steps.map fun (id, payload, after) => ⟨id, payload, after, []⟩
  ⟨name, (edges tasks).foldl declare tasks⟩

end Plan

end Rollout
