import Rollout.Plan.Basic

/-! The JSON form of plans. A payload carries its kind among its members and leaves no field
out; members stand in the order of the fields. -/

namespace Rollout

def Instance.toJson (i : Instance) : Json :=
  .object [("application", .string i.application), ("component", .string i.component),
    ("instance_id", .string i.id)]

def Address.toJson : Address → Json
  | fixed address => .object [("literal", .string address)]
  | fromContext key => .object [("context", .string key)]

namespace Payload

def members : Payload → List (String × Json)
  | createNamespace ns | deleteNamespace ns => [("namespace", .string ns)]
  | createDeployment ns name manifest | updateDeployment ns name manifest =>
    [("namespace", .string ns), ("name", .string name), ("manifest", manifest)]
  | deleteDeployment ns name | deleteService ns name | deleteSecret ns name =>
    [("namespace", .string ns), ("name", .string name)]
  | createService ns name manifest key =>
    [("namespace", .string ns), ("name", .string name), ("manifest", manifest),
      ("output_key", .text key)]
  | createSecret ns name data =>
    [("namespace", .string ns), ("name", .string name),
      ("data", .object (data.map fun _ s => .string s))]
  | createInstance ns i deployment service key =>
    [("namespace", .string ns), ("instance", i.toJson), ("deployment", deployment),
      ("service", service), ("output_key", .text key)]
  | deleteInstance ns i deployment service =>
    [("namespace", .string ns), ("instance", i.toJson), ("deployment", .string deployment),
      ("service", .string service)]
  | setDependencyAddress i dependency provider address =>
    [("instance", i.toJson), ("dependency", .string dependency),
      ("provider", .optional Instance.toJson provider), ("address", address.toJson)]
  | initializeInstance i runCount accessToken production =>
    [("instance", i.toJson), ("run_count", .id runCount.toUInt64),
      ("access_token", .string accessToken), ("production", .bool production)]
  | finalizeInstance i | deleteInstanceRecord i => [("instance", i.toJson)]
  | setStatefulnessParameters i shardKey routerAddress =>
    [("instance", i.toJson), ("shard_key", .int shardKey),
      ("router_address", .string routerAddress)]
  | setClientDependency application clientType clientId dependency provider address =>
    [("application", .string application), ("client_type", .string clientType),
      ("client_id", .string clientId), ("dependency", .string dependency),
      ("provider", .optional Instance.toJson provider), ("address", address.toJson)]
  | disconnectApplicationClients application | addAppRecord application
  | deleteAppRecord application => [("application", .string application)]
  | shardCollection database collection =>
    [("database", .string database), ("collection", .string collection)]
  | moveChunk database collection key shard =>
    [("database", .string database), ("collection", .string collection), ("key", .int key),
      ("shard", .string shard)]
  | dropDatabase database collections =>
    [("database", .string database), ("collections", .list .string collections)]
  | registerApplication application descriptor =>
    [("application", .string application), ("descriptor", descriptor)]
  | createInstanceRecord i node => [("instance", i.toJson), ("node", .text node)]
  | initializeScheduledJob application component schedule =>
    [("application", .string application), ("component", .string component),
      ("schedule", .string schedule)]

def toJson (p : Payload) : Json := .object (("kind", .string p.kind.name) :: p.members)

end Payload

def Task.toJson (t : Task) : Json :=
  .object [("id", .id t.id), ("payload", t.payload.toJson),
    ("predecessors", .list .id t.predecessors), ("successors", .list .id t.successors)]

def Plan.toJson (p : Plan) : Json :=
  .object [("namespace", .string p.name), ("tasks", .list Task.toJson p.tasks)]

end Rollout
