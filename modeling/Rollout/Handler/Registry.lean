import Rollout.Handler.Cluster
import Rollout.Handler.Agents
import Rollout.Handler.Records

/-! Which handler a kind of task has. A kind gets one handler at most. -/

namespace Rollout

abbrev Handler := TaskId → Payload → Procedure Ending

/-- The handlers by kind, the last registered first. -/
abbrev Registry := List (Kind × Handler)

namespace Handler

def work (s : Settings) : Collaborator → Payload → Work
  | .cluster => Cluster.execute s
  | .middlewareAgent => Middleware.execute s
  | .clientController => ClientController.execute s
  | .databaseAdmin => Database.execute s
  | .knowledgeStore => Knowledge.execute s

def Work.ending (w : Work) : Procedure Ending :=
  Procedure.map (fun | .ok outputs => .finished outputs | .error f => .failed f) w

def builtin (s : Settings) (c : Collaborator) : Handler := fun _ p => Work.ending (work s c p)

end Handler

namespace Registry

def empty : Registry := []

def get? (r : Registry) (k : Kind) : Option Handler := r.lookup k

def contains (r : Registry) (k : Kind) : Bool := (r.get? k).isSome

/-- Nothing if the kind has a handler. -/
def register (r : Registry) (k : Kind) (h : Handler) : Option Registry :=
  if r.contains k then none else some ((k, h) :: r)

def kinds (r : Registry) : List Kind := Kind.all.filter r.contains

def size (r : Registry) : Nat := List.length r

def builtin (s : Handler.Settings) : Registry :=
  Kind.all.map fun k => (k, Handler.builtin s k.collaborator)

end Registry

end Rollout
