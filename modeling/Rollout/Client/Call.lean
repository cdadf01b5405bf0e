import Rollout.Client.Fault
import Rollout.Plan.Payload

/-! The calls that tasks make on collaborators, and what a successful one answers. -/

namespace Rollout

/-- What an agent is told about the instance that it starts with. -/
structure Client.InstanceConfig where
  id : String
  runCount : UInt32
  accessToken : String
  production : Bool
deriving Repr, DecidableEq

/-- Where a client finds one of its dependencies. -/
structure Client.Dependency where
  application : String
  clientType : String
  clientId : String
  dependency : String
  address : String
deriving Repr, DecidableEq

inductive Call
  | createDeployment (scope name : String) (manifest : Json)
  | updateDeployment (scope name : String) (manifest : Json)
  | deleteDeployment (scope name : String)
  | createService (scope name : String) (manifest : Json)
  | deleteService (scope name : String)
  | createNamespace (scope : String)
  | deleteNamespace (scope : String)
  | createSecret (scope name : String) (data : Table String String)
  | deleteSecret (scope name : String)
  | ping (target : Instance)
  | setDependencyAddress (target : Instance) (dependency address : String)
  | initializeInstance (target : Instance) (config : Client.InstanceConfig)
  | finalizeExecution (target : Instance)
  | setStatefulnessParameters (target : Instance) (shardKey : Int64) (routerAddress : String)
  | setClientDependency (dependency : Client.Dependency)
  | disconnectApplication (application : String)
  | shardCollection (database collection : String)
  | moveChunk (database collection : String) (key : Int64) (shard : String)
  | dropDatabase (database : String) (collections : List String)
  | addAppRecord (application : String)
  | deleteAppRecord (application : String)
  | registerApplication (application : String) (descriptor : Json)
  | createInstanceRecord (target : Instance) (node : Option String)
  | deleteInstanceRecord (target : Instance)
  | initializeScheduledJob (application component schedule : String)

namespace Call

/-- A new service answers with its address, a ping with the phase of the instance. -/
@[reducible] def Reply : Call → Type
  | createService .. => String
  | ping .. => Phase
  | _ => Unit

def operation : Call → String
  | createDeployment .. => "create_deployment"
  | updateDeployment .. => "update_deployment"
  | deleteDeployment .. => "delete_deployment"
  | createService .. => "create_service"
  | deleteService .. => "delete_service"
  | createNamespace .. => "create_namespace"
  | deleteNamespace .. => "delete_namespace"
  | createSecret .. => "create_secret"
  | deleteSecret .. => "delete_secret"
  | ping .. => "ping"
  | setDependencyAddress .. => "set_dependency_address"
  | initializeInstance .. => "initialize_instance"
  | finalizeExecution .. => "finalize_execution"
  | setStatefulnessParameters .. => "set_statefulness_parameters"
  | setClientDependency .. => "set_client_dependency"
  | disconnectApplication .. => "disconnect_application"
  | shardCollection .. => "shard_collection"
  | moveChunk .. => "move_chunk"
  | dropDatabase .. => "drop_database"
  | addAppRecord .. => "add_app_record"
  | deleteAppRecord .. => "delete_app_record"
  | registerApplication .. => "register_application"
  | createInstanceRecord .. => "create_instance_record"
  | deleteInstanceRecord .. => "delete_instance_record"
  | initializeScheduledJob .. => "initialize_scheduled_job"

def target : Call → String
  | createDeployment scope name _ | updateDeployment scope name _ | deleteDeployment scope name
  | createService scope name _ | deleteService scope name | createSecret scope name _
  | deleteSecret scope name => scope ++ "/" ++ name
  | createNamespace scope | deleteNamespace scope => scope
  | ping i | initializeInstance i _ | finalizeExecution i | createInstanceRecord i _
  | deleteInstanceRecord i => i.name
  | setDependencyAddress i dependency address => i.name ++ ":" ++ dependency ++ "=" ++ address
  | setStatefulnessParameters i shardKey routerAddress =>
    i.name ++ ":" ++ toString shardKey.toInt ++ "@" ++ routerAddress
  | setClientDependency d =>
    d.application ++ "/" ++ d.clientId ++ ":" ++ d.dependency ++ "=" ++ d.address
  | disconnectApplication application | addAppRecord application | deleteAppRecord application
  | registerApplication application _ => application
  | shardCollection database collection => database ++ "." ++ collection
  | moveChunk database collection key shard =>
    database ++ "." ++ collection ++ "[" ++ toString key.toInt ++ "]->" ++ shard
  | dropDatabase database _ => database
  | initializeScheduledJob application component _ => application ++ "/" ++ component

end Call

end Rollout
