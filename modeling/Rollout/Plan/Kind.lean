/-! The kinds of tasks, and the collaborator that each of them needs. -/

namespace Rollout

inductive Collaborator
  | cluster
  | middlewareAgent
  | clientController
  | databaseAdmin
  | knowledgeStore
deriving Repr, DecidableEq

inductive Kind
  | createNamespace
  | deleteNamespace
  | createDeployment
  | updateDeployment
  | deleteDeployment
  | createService
  | deleteService
  | createSecret
  | deleteSecret
  | createInstance
  | deleteInstance
  | setDependencyAddress
  | initializeInstance
  | finalizeInstance
  | setStatefulnessParameters
  | setClientDependency
  | disconnectApplicationClients
  | shardCollection
  | moveChunk
  | dropDatabase
  | addAppRecord
  | deleteAppRecord
  | registerApplication
  | createInstanceRecord
  | deleteInstanceRecord
  | initializeScheduledJob
deriving Repr, DecidableEq, Inhabited

namespace Kind

def all : List Kind :=
  [createNamespace, deleteNamespace, createDeployment, updateDeployment, deleteDeployment,
    createService, deleteService, createSecret, deleteSecret, createInstance, deleteInstance,
    setDependencyAddress, initializeInstance, finalizeInstance, setStatefulnessParameters,
    setClientDependency, disconnectApplicationClients, shardCollection, moveChunk, dropDatabase,
    addAppRecord, deleteAppRecord, registerApplication, createInstanceRecord, deleteInstanceRecord,
    initializeScheduledJob]

def name : Kind → String
  | createNamespace => "create_namespace"
  | deleteNamespace => "delete_namespace"
  | createDeployment => "create_deployment"
  | updateDeployment => "update_deployment"
  | deleteDeployment => "delete_deployment"
  | createService => "create_service"
  | deleteService => "delete_service"
  | createSecret => "create_secret"
  | deleteSecret => "delete_secret"
  | createInstance => "create_instance"
  | deleteInstance => "delete_instance"
  | setDependencyAddress => "set_dependency_address"
  | initializeInstance => "initialize_instance"
  | finalizeInstance => "finalize_instance"
  | setStatefulnessParameters => "set_statefulness_parameters"
  | setClientDependency => "set_client_dependency"
  | disconnectApplicationClients => "disconnect_application_clients"
  | shardCollection => "shard_collection"
  | moveChunk => "move_chunk"
  | dropDatabase => "drop_database"
  | addAppRecord => "add_app_record"
  | deleteAppRecord => "delete_app_record"
  | registerApplication => "register_application"
  | createInstanceRecord => "create_instance_record"
  | deleteInstanceRecord => "delete_instance_record"
  | initializeScheduledJob => "initialize_scheduled_job"

def collaborator : Kind → Collaborator
  | createNamespace | deleteNamespace | createDeployment | updateDeployment | deleteDeployment
  | createService | deleteService | createSecret | deleteSecret | createInstance
  | deleteInstance => .cluster
  | setDependencyAddress | initializeInstance | finalizeInstance
  | setStatefulnessParameters => .middlewareAgent
  | setClientDependency | disconnectApplicationClients => .clientController
  | shardCollection | moveChunk | dropDatabase => .databaseAdmin
  | addAppRecord | deleteAppRecord | registerApplication | createInstanceRecord
  | deleteInstanceRecord | initializeScheduledJob => .knowledgeStore

def servedBy (c : Collaborator) : List Kind := all.filter (·.collaborator = c)

def position (k : Kind) : Nat := all.idxOf k

end Kind

end Rollout
