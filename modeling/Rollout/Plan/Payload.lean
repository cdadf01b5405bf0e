import Rollout.Plan.Kind
import Rollout.Json.Value

/-! What a task is to do. Every payload has one kind. -/

namespace Rollout

/-- One running copy of a component of an application. -/
structure Instance where
  application : String
  component : String
  id : String
deriving Repr, DecidableEq, Inhabited

def Instance.name (i : Instance) : String := i.application ++ "/" ++ i.component ++ "/" ++ i.id

/-- How far an instance has come, as its agent reports it. -/
inductive Phase
  | creating
  | init
  | ready
  | finalizing
  | finished
deriving Repr, DecidableEq, Inhabited

namespace Phase

def all : List Phase := [creating, init, ready, finalizing, finished]

def name : Phase → String
  | creating => "creating"
  | init => "init"
  | ready => "ready"
  | finalizing => "finalizing"
  | finished => "finished"

def title : Phase → String
  | creating => "Creating"
  | init => "Init"
  | ready => "Ready"
  | finalizing => "Finalizing"
  | finished => "Finished"

def rank : Phase → Nat
  | creating => 0
  | init => 1
  | ready => 2
  | finalizing => 3
  | finished => 4

/-- A later phase includes the earlier ones. -/
def reaches (p required : Phase) : Bool := required.rank ≤ p.rank

end Phase

/-- An address that the plan fixes, or the key under which an earlier task leaves it. -/
inductive Address
  | fixed (address : String)
  | fromContext (key : String)
deriving Repr, DecidableEq, Inhabited

def defaultSecretName : String := "dockerhubsecret"

inductive Payload
  | createNamespace («namespace» : String)
  | deleteNamespace («namespace» : String)
  | createDeployment («namespace» name : String) (manifest : Json)
  | updateDeployment («namespace» name : String) (manifest : Json)
  | deleteDeployment («namespace» name : String)
  | createService («namespace» name : String) (manifest : Json) (outputKey : Option String)
  | deleteService («namespace» name : String)
  | createSecret («namespace» name : String) (data : Table String String)
  | deleteSecret («namespace» name : String)
  | createInstance («namespace» : String) (target : Instance) (deployment service : Json)
      (outputKey : Option String)
  | deleteInstance («namespace» : String) (target : Instance) (deployment service : String)
  | setDependencyAddress (target : Instance) (dependency : String) (provider : Option Instance)
      (address : Address)
  | initializeInstance (target : Instance) (runCount : UInt32) (accessToken : String)
      (production : Bool)
  | finalizeInstance (target : Instance)
  | setStatefulnessParameters (target : Instance) (shardKey : Int64) (routerAddress : String)
  | setClientDependency (application clientType clientId dependency : String)
      (provider : Option Instance) (address : Address)
  | disconnectApplicationClients (application : String)
  | shardCollection (database collection : String)
  | moveChunk (database collection : String) (key : Int64) (shard : String)
  | dropDatabase (database : String) (collections : List String)
  | addAppRecord (application : String)
  | deleteAppRecord (application : String)
  | registerApplication (application : String) (descriptor : Json)
  | createInstanceRecord (target : Instance) (node : Option String)
  | deleteInstanceRecord (target : Instance)
  | initializeScheduledJob (application component schedule : String)

namespace Payload

instance : Inhabited Payload := ⟨createNamespace ""⟩

def kind : Payload → Kind
  | createNamespace .. => .createNamespace
  | deleteNamespace .. => .deleteNamespace
  | createDeployment .. => .createDeployment
  | updateDeployment .. => .updateDeployment
  | deleteDeployment .. => .deleteDeployment
  | createService .. => .createService
  | deleteService .. => .deleteService
  | createSecret .. => .createSecret
  | deleteSecret .. => .deleteSecret
  | createInstance .. => .createInstance
  | deleteInstance .. => .deleteInstance
  | setDependencyAddress .. => .setDependencyAddress
  | initializeInstance .. => .initializeInstance
  | finalizeInstance .. => .finalizeInstance
  | setStatefulnessParameters .. => .setStatefulnessParameters
  | setClientDependency .. => .setClientDependency
  | disconnectApplicationClients .. => .disconnectApplicationClients
  | shardCollection .. => .shardCollection
  | moveChunk .. => .moveChunk
  | dropDatabase .. => .dropDatabase
  | addAppRecord .. => .addAppRecord
  | deleteAppRecord .. => .deleteAppRecord
  | registerApplication .. => .registerApplication
  | createInstanceRecord .. => .createInstanceRecord
  | deleteInstanceRecord .. => .deleteInstanceRecord
  | initializeScheduledJob .. => .initializeScheduledJob

def target : Payload → String
  | createNamespace ns | deleteNamespace ns => ns
  | createDeployment ns name _ | updateDeployment ns name _ | deleteDeployment ns name
  | createService ns name _ _ | deleteService ns name | createSecret ns name _
  | deleteSecret ns name => ns ++ "/" ++ name
  | createInstance _ i _ _ _ | deleteInstance _ i _ _ | setDependencyAddress i _ _ _
  | initializeInstance i _ _ _ | finalizeInstance i | setStatefulnessParameters i _ _
  | createInstanceRecord i _ | deleteInstanceRecord i => i.name
  | setClientDependency application _ clientId _ _ _ => application ++ "/" ++ clientId
  | disconnectApplicationClients application | addAppRecord application
  | deleteAppRecord application | registerApplication application _ => application
  | initializeScheduledJob application component _ => application ++ "/" ++ component
  | shardCollection database collection | moveChunk database collection _ _ =>
    database ++ "." ++ collection
  | dropDatabase database _ => database

end Payload

end Rollout
