import Rollout.Plan.Basic
import Rollout.Document.Variant
import Rollout.Json.Text
import Rollout.Yaml.Node

/-! Reading plans. A payload carries its kind among its own members; the others are kept in a buffer
until the kind is known. -/

namespace Rollout

open Doc

def Kind.variants : List (Variant Kind) := Variant.units all name

def Phase.variants : List (Variant Phase) := Variant.units all name

def Instance.fields :=
  Fields.cons (.needed "application" (plainly readString)) <|
  .cons (.needed "component" (plainly readString)) <|
  .cons (.needed "instance_id" (plainly readString)) .nil

def Instance.read (src : Source) (d : Doc) : Reading Instance := do
  let (application, component, id, _) ← fields.read "struct InstanceRef" src d
  return ⟨application, component, id⟩

def Address.read (src : Source) (d : Doc) : Reading Address :=
  Variant.read [⟨"literal", .single fun d => .fixed <$> readString d⟩,
    ⟨"context", .single fun d => .fromContext <$> readString d⟩] src d

def capitalized (s : String) : String :=
  match s.toList with
  | [] => ""
  | c :: cs => String.ofList (c.toUpper :: cs)

namespace Payload

def title (k : Kind) : String :=
  "struct variant TaskPayload::" ++ String.join ((k.name.splitOn "_").map capitalized)

def text (name : String) : Doc.Field String := .needed name (plainly readString)

def free (name : String) : Doc.Field Json := .needed name (plainly readJson)

def optionalText (name : String) : Doc.Field (Option String) :=
  .default name (plainly (readOptional readString)) none

def oneInstance : Doc.Field Instance := .needed "instance" Instance.read

def provider : Doc.Field (Option Instance) :=
  .default "provider" (fun src => readOptional (Instance.read src)) none

def address : Doc.Field Address := .needed "address" Address.read

def secretName : Doc.Field String := .default "name" (plainly readString) defaultSecretName

def readFields (k : Kind) (d : Doc) : Reading Payload :=
  let read {ρ σ : Type} (fs : Fields ρ σ) : Reading ρ := fs.read (title k) .buffer d
  match k with
  | .createNamespace => do
    let (ns, _) ← read (.cons (text "namespace") .nil)
    return .createNamespace ns
  | .deleteNamespace => do
    let (ns, _) ← read (.cons (text "namespace") .nil)
    return .deleteNamespace ns
  | .createDeployment => do
    let (ns, name, manifest, _) ←
      read (.cons (text "namespace") <| .cons (text "name") <| .cons (free "manifest") .nil)
    return .createDeployment ns name manifest
  | .updateDeployment => do
    let (ns, name, manifest, _) ←
      read (.cons (text "namespace") <| .cons (text "name") <| .cons (free "manifest") .nil)
    return .updateDeployment ns name manifest
  | .deleteDeployment => do
    let (ns, name, _) ← read (.cons (text "namespace") <| .cons (text "name") .nil)
    return .deleteDeployment ns name
  | .createService => do
    let (ns, name, manifest, key, _) ←
      read (.cons (text "namespace") <| .cons (text "name") <| .cons (free "manifest") <|
        .cons (optionalText "output_key") .nil)
    return .createService ns name manifest key
  | .deleteService => do
    let (ns, name, _) ← read (.cons (text "namespace") <| .cons (text "name") .nil)
    return .deleteService ns name
  | .createSecret => do
    let (ns, name, data, _) ←
      read (.cons (text "namespace") <| .cons secretName <|
        .cons (.default "data" (plainly (readTable readString)) .empty) .nil)
    return .createSecret ns name data
  | .deleteSecret => do
    let (ns, name, _) ← read (.cons (text "namespace") <| .cons secretName .nil)
    return .deleteSecret ns name
  | .createInstance => do
    let (ns, i, deployment, service, key, _) ←
      read (.cons (text "namespace") <| .cons oneInstance <| .cons (free "deployment") <|
        .cons (free "service") <| .cons (optionalText "output_key") .nil)
    return .createInstance ns i deployment service key
  | .deleteInstance => do
    let (ns, i, deployment, service, _) ←
      read (.cons (text "namespace") <| .cons oneInstance <| .cons (text "deployment") <|
        .cons (text "service") .nil)
    return .deleteInstance ns i deployment service
  | .setDependencyAddress => do
    let (i, dependency, p, a, _) ←
      read (.cons oneInstance <| .cons (text "dependency") <| .cons provider <|
        .cons address .nil)
    return .setDependencyAddress i dependency p a
  | .initializeInstance => do
    let (i, runCount, accessToken, production, _) ←
      read (.cons oneInstance <| .cons (.default "run_count" (plainly readHalfWord) 0) <|
        .cons (text "access_token") <| .cons (.default "production" (plainly readBool) false) .nil)
    return .initializeInstance i runCount accessToken production
  | .finalizeInstance => do
    let (i, _) ← read (.cons oneInstance .nil)
    return .finalizeInstance i
  | .setStatefulnessParameters => do
    let (i, shardKey, routerAddress, _) ←
      read (.cons oneInstance <| .cons (.needed "shard_key" (plainly readInteger)) <|
        .cons (text "router_address") .nil)
    return .setStatefulnessParameters i shardKey routerAddress
  | .setClientDependency => do
    let (application, clientType, clientId, dependency, p, a, _) ←
      read (.cons (text "application") <| .cons (text "client_type") <| .cons (text "client_id") <|
        .cons (text "dependency") <| .cons provider <| .cons address .nil)
    return .setClientDependency application clientType clientId dependency p a
  | .disconnectApplicationClients => do
    let (application, _) ← read (.cons (text "application") .nil)
    return .disconnectApplicationClients application
  | .shardCollection => do
    let (database, collection, _) ← read (.cons (text "database") <| .cons (text "collection") .nil)
    return .shardCollection database collection
  | .moveChunk => do
    let (database, collection, key, shard, _) ←
      read (.cons (text "database") <| .cons (text "collection") <|
        .cons (.needed "key" (plainly readInteger)) <| .cons (text "shard") .nil)
    return .moveChunk database collection key shard
  | .dropDatabase => do
    let (database, collections, _) ←
      read (.cons (text "database") <|
        .cons (.default "collections" (plainly (readList readString)) []) .nil)
    return .dropDatabase database collections
  | .addAppRecord => do
    let (application, _) ← read (.cons (text "application") .nil)
    return .addAppRecord application
  | .deleteAppRecord => do
    let (application, _) ← read (.cons (text "application") .nil)
    return .deleteAppRecord application
  | .registerApplication => do
    let (application, descriptor, _) ←
      read (.cons (text "application") <| .cons (.default "descriptor" (plainly readJson) .null) .nil)
    return .registerApplication application descriptor
  | .createInstanceRecord => do
    let (i, node, _) ← read (.cons oneInstance <| .cons (optionalText "node") .nil)
    return .createInstanceRecord i node
  | .deleteInstanceRecord => do
    let (i, _) ← read (.cons oneInstance .nil)
    return .deleteInstanceRecord i
  | .initializeScheduledJob => do
    let (application, component, schedule, _) ←
      read (.cons (text "application") <| .cons (text "component") <| .cons (text "schedule") .nil)
    return .initializeScheduledJob application component schedule

def readKind (d : Doc) : Reading Kind := do
  (← Variant.select Kind.variants (← Variant.readName d)).alone

def isTag : Doc → Bool
  | string (some s) => s = "kind"
  | _ => false

/-- Takes the kind out of the members and settles the others; both happen in the order of the
document. -/
def gather (room : Nat) : List (Doc × Doc) → Bool → Option Kind → List (Doc × Doc) →
    Reading (Option Kind × List (Doc × Doc))
  | [], closed, kind, others => if closed then pure (kind, others.reverse) else throw .malformed
  | (key, d) :: rest, closed, kind, others => do
    let key ← settle 0 key
    if isTag key then
      if kind.isSome then fail (.duplicate "kind")
      else do
        let k ← readKind d
        gather room rest closed (some k) others
    else do
      let d ← settle room d
      gather room rest closed kind ((key, d) :: others)

/-- Reads a payload inside which at most `room` levels may still be nested. -/
def read (room : Nat) (d : Doc) : Reading Payload :=
  match d with
  | object members closed => do
    let (kind, others) ← gather room members closed none []
    match kind with
    | none => fail (.missing "kind")
    | some k => readFields k (object others true)
  | array [] closed => if closed then fail (.missing "kind") else throw .malformed
  | array (tag :: items) closed => do
    let k ← readKind tag
    let items ← settleItems room items
    if closed then readFields k (array items true) else throw .malformed
  | d => mismatch d "internally tagged enum TaskPayload"

end Payload

namespace Plan

def readId (d : Doc) : Reading TaskId := readWord d

def taskFields :=
  Fields.cons (.needed "id" (plainly readId)) <|
  .cons (.needed "payload" fun src => Payload.read (src.room - 4)) <|
  .cons (.default "predecessors" (plainly (readList readId)) []) <|
  .cons (.default "successors" (plainly (readList readId)) []) .nil

def readTask (src : Source) (d : Doc) : Reading Task := do
  let (id, payload, predecessors, successors, _) ← taskFields.read "struct Task" src d
  return ⟨id, payload, predecessors, successors⟩

def fields :=
  Fields.cons (.needed "namespace" (plainly readString)) <|
  .cons (.needed "tasks" fun src => readList (readTask src)) .nil

def read (src : Source) (d : Doc) : Reading Plan := do
  let (name, tasks, _) ← fields.read "struct ExecutionPlan" src d
  return ⟨name, tasks⟩

end Plan

/-- Reads a text with nothing but blanks behind the document. -/
def Doc.ofText (read : Doc → Reading α) (s : String) : Reading α := do
  let (d, clean) := Json.document s
  let a ← read d
  if clean then pure a else throw .malformed

def Plan.ofJson (s : String) : Reading Plan := Doc.ofText (Plan.read .text) s

def Plan.ofYaml (s : String) : Reading Plan := Doc.ofYaml (Plan.read .yaml) s

def Payload.ofJson (s : String) : Reading Payload :=
  Doc.ofText (Payload.read (Source.room .text - 1)) s

end Rollout
