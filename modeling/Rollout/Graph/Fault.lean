import Rollout.Plan.Basic

/-! Why the edges of a plan make no graph. -/

namespace Rollout

inductive Graph.Fault
  | duplicateTask (id : TaskId)
  | dangling (id missing : TaskId)
  | inconsistent (source target : TaskId)
  | duplicateEdge (id other : TaskId)
  | cycle (id : TaskId)
deriving Repr, DecidableEq

namespace Graph.Fault

def message : Graph.Fault → String
  | duplicateTask id => "Duplicate task id: " ++ toString id.toNat
  | dangling id missing =>
    "Task " ++ toString id.toNat ++ " references unknown task " ++ toString missing.toNat
  | inconsistent source target =>
    "Edge " ++ toString source.toNat ++ " -> " ++ toString target.toNat ++
      " is not declared on both tasks"
  | duplicateEdge id other =>
    "Task " ++ toString id.toNat ++ " lists " ++ toString other.toNat ++ " more than once"
  | cycle id => "Dependency cycle detected through task " ++ toString id.toNat

end Graph.Fault

end Rollout
