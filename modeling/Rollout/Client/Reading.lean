import Rollout.Client.Call
import Rollout.Document.Variant

/-! What agents and clients are told, as JSON. -/

namespace Rollout.Client

open Doc

def FaultKind.variants : List (Variant FaultKind) := Variant.units all name

namespace InstanceConfig

def fields :=
  Fields.cons (.needed "instance_id" (plainly readString)) <|
  .cons (.needed "run_count" (plainly readHalfWord)) <|
  .cons (.needed "access_token" (plainly readString)) <|
  .cons (.needed "production" (plainly readBool)) .nil

def read (src : Source) (d : Doc) : Reading InstanceConfig := do
  let (id, runCount, accessToken, production, _) ← fields.read "struct InstanceConfig" src d
  return ⟨id, runCount, accessToken, production⟩

def toJson (c : InstanceConfig) : Json :=
  .object [("instance_id", .string c.id), ("run_count", .id c.runCount.toUInt64),
    ("access_token", .string c.accessToken), ("production", .bool c.production)]

end InstanceConfig

namespace Dependency

def fields :=
  Fields.cons (.needed "application" (plainly readString)) <|
  .cons (.needed "client_type" (plainly readString)) <|
  .cons (.needed "client_id" (plainly readString)) <|
  .cons (.needed "dependency" (plainly readString)) <|
  .cons (.needed "address" (plainly readString)) .nil

def read (src : Source) (d : Doc) : Reading Dependency := do
  let (application, clientType, clientId, dependency, address, _) ←
    fields.read "struct ClientDependency" src d
  return ⟨application, clientType, clientId, dependency, address⟩

def toJson (c : Dependency) : Json :=
  .object [("application", .string c.application), ("client_type", .string c.clientType),
    ("client_id", .string c.clientId), ("dependency", .string c.dependency),
    ("address", .string c.address)]

end Dependency

end Rollout.Client
