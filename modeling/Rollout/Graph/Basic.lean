import Rollout.Graph.Fault
import Rollout.Graph.Cycle

/-! Task graphs: plans whose edges are declared on both ends, name tasks of the plan only and make no
cycle. A graph knows the ancestors of each task and the least order that follows the edges. -/

namespace Rollout

structure Graph where
  name : String
  /-- By ascending id. -/
  tasks : Table TaskId Task
  order : List TaskId
  ancestors : Table TaskId (List TaskId)

namespace Graph

def task? (g : Graph) (id : TaskId) : Option Task := g.tasks.find? id

def ids (g : Graph) : List TaskId := g.tasks.keys

def size (g : Graph) : Nat := g.tasks.size

def roots (g : Graph) : List TaskId := (g.tasks.values.filter (·.isRoot)).map (·.id)

def successors (g : Graph) (id : TaskId) : List TaskId :=
  ((g.task? id).map (·.successors)).getD []

def predecessors (g : Graph) (id : TaskId) : List TaskId :=
  ((g.task? id).map (·.predecessors)).getD []

def remaining (g : Graph) (id : TaskId) : Nat := (g.predecessors id).length

/-- Everything that a task comes after, ascending. -/
def upstream (g : Graph) (id : TaskId) : List TaskId := (g.ancestors.find? id).getD []

def isUpstream (g : Graph) (a b : TaskId) : Bool := a ∈ g.upstream b

/-- Follows the edges from some tasks, each task once. -/
def follow (next : TaskId → List TaskId) : Nat → List TaskId → List TaskId → List TaskId
  | 0, _, seen => seen
  | _, [], seen => seen
  | fuel + 1, id :: stack, seen =>
    if id ∈ seen then follow next fuel stack seen
    else follow next fuel (next id ++ stack) (insertId id seen)

/-- Everything that comes after a task, ascending. -/
def downstream (g : Graph) (id : TaskId) : List TaskId :=
  let fuel := g.size + (g.tasks.values.flatMap (·.successors)).length + 1
  (follow g.successors fuel (g.successors id) []).filter (· ≠ id)

/-- The order that takes the smallest id whose predecessors are all taken; `ready` is ascending and
`remaining` counts the predecessors not taken yet. -/
def leastOrder (next : TaskId → List TaskId) :
    Nat → Table TaskId Nat → List TaskId → List TaskId
  | 0, _, _ => []
  | _, _, [] => []
  | fuel + 1, remaining, id :: ready =>
    let counts := (next id).foldl (fun (c : Table TaskId Nat) s => c.modify s (· - 1)) remaining
    let freed := (next id).filter fun s => counts.find? s = some 0
    id :: leastOrder next fuel counts (freed.foldl (fun r s => insertId s r) ready)

/-- The ancestors of each task, from those of its predecessors. -/
def ancestorTable (tasks : Table TaskId Task) (order : List TaskId) : Table TaskId (List TaskId) :=
  order.foldl (fun (t : Table TaskId (List TaskId)) id =>
    let preds := ((tasks.find? id).map (·.predecessors)).getD []
    let above := preds.foldl (fun acc p =>
      ((t.find? p).getD []).foldl (fun acc a => insertId a acc) (insertId p acc)) []
    t.insert id above) .empty

def index (name : String) (tasks : Table TaskId Task) : Graph :=
  let next id := ((tasks.find? id).map (·.successors)).getD []
  let remaining : Table TaskId Nat := tasks.map fun _ t => t.predecessors.length
  let roots := (tasks.values.filter (·.isRoot)).map (·.id)
  let order := leastOrder next tasks.size remaining roots
  ⟨name, tasks, order, ancestorTable tasks order⟩

/-- The first id that stands in front of its second task. -/
def duplicateId? (tasks : List Task) : List TaskId → Option TaskId
  | seen => match tasks with
    | [] => none
    | t :: rest => if t.id ∈ seen then some t.id else duplicateId? rest (t.id :: seen)

/-- The first fault in a list of edges: an entry that was there before or that is no task. -/
def edgeFault? (known : TaskId → Bool) (id : TaskId) : List TaskId → List TaskId → Option Fault
  | [], _ => none
  | other :: rest, seen =>
    if other ∈ seen then some (.duplicateEdge id other)
    else if !known other then some (.dangling id other)
    else edgeFault? known id rest (other :: seen)

def taskFault? (known : TaskId → Bool) (t : Task) : Option Fault :=
  if t.id ∈ t.predecessors ∨ t.id ∈ t.successors then some (.cycle t.id)
  else (edgeFault? known t.id t.predecessors []).or (edgeFault? known t.id t.successors [])

/-- The first edge of a task that its other end does not declare. -/
def oneSided? (tasks : Table TaskId Task) (t : Task) : Option Fault :=
  let declares (id : TaskId) (list : Task → List TaskId) : Bool :=
    ((tasks.find? id).map fun u => decide (t.id ∈ list u)).getD false
  ((t.predecessors.find? fun p => !declares p (·.successors)).map (Fault.inconsistent · t.id)).or
    ((t.successors.find? fun s => !declares s (·.predecessors)).map (Fault.inconsistent t.id ·))

/-- Checks ids first, then each task's own edges, then both ends of the edges, then cycles. -/
def ofPlan (p : Plan) : Except Fault Graph :=
  let tasks : Table TaskId Task := .ofList (p.tasks.map fun t => (t.id, t))
  match duplicateId? p.tasks [] with
  | some id => throw (.duplicateTask id)
  | none =>
    match (p.tasks.findSome? (taskFault? tasks.contains)).or
        (p.tasks.findSome? (oneSided? tasks)) with
    | some f => throw f
    | none =>
      match cyclic? tasks.values with
      | some id => throw (.cycle id)
      | none => pure (index p.name tasks)

end Graph

end Rollout
