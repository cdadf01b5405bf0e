import Rollout.Handler.Basic

/-! Namespaces, deployments, services and secrets of the cluster. An instance is a deployment and a
service; the second follows only if the first succeeded. -/

namespace Rollout.Handler.Cluster

/-- The name that a manifest gives its object. -/
def manifestName? (manifest : Json) : Option String := do
  (← (← manifest.member? "metadata").member? "name").string?

def objectName (manifest : Json) (i : Instance) : String :=
  (manifestName? manifest).getD (i.component ++ "-" ++ i.id)

/-- The address of a new service is left under the key that asks for it. -/
def leave (key : Option String) (address : String) : Outputs :=
  match key with
  | none => .empty
  | some key => Table.empty.insert key (.string address)

def service (s : Settings) (scope name : String) (manifest : Json) (key : Option String) : Work :=
  (s.retry.calling (.createService scope name manifest)).andThen fun address =>
    .done (.ok (leave key address))

def execute (s : Settings) : Payload → Work
  | .createNamespace scope => s.make (.createNamespace scope)
  | .deleteNamespace scope => s.make (.deleteNamespace scope)
  | .createDeployment scope name manifest => s.make (.createDeployment scope name manifest)
  | .updateDeployment scope name manifest => s.make (.updateDeployment scope name manifest)
  | .deleteDeployment scope name => s.make (.deleteDeployment scope name)
  | .createService scope name manifest key => service s scope name manifest key
  | .deleteService scope name => s.make (.deleteService scope name)
  | .createSecret scope name data => s.make (.createSecret scope name data)
  | .deleteSecret scope name => s.make (.deleteSecret scope name)
  | .createInstance scope i deployment manifest key =>
    (s.retry.calling (.createDeployment scope (objectName deployment i) deployment)).andThen fun _ =>
      service s scope (objectName manifest i) manifest key
  | .deleteInstance scope _ deployment serviceName =>
    (s.retry.calling (.deleteDeployment scope deployment)).andThen fun _ =>
      s.make (.deleteService scope serviceName)
  | p => wrong "cluster" p

end Rollout.Handler.Cluster
