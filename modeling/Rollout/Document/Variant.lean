import Rollout.Document.Record

/-! Choices by name: a name alone, or an object with one member whose name chooses and whose value
is read accordingly. -/

namespace Rollout.Doc

inductive Variant.Body (α : Type)
  | unit (a : α)
  | single (read : Doc → Reading α)
  | record (read : Source → Doc → Reading α)

structure Variant (α : Type) where
  name : String
  body : Variant.Body α

namespace Variant

def select (vs : List (Variant α)) (name : String) : Reading (Variant α) :=
  match vs.find? (·.name = name) with
  | some v => pure v
  | none => fail (.unknownVariant name (vs.map (·.name)))

def alone (v : Variant α) : Reading α :=
  match v.body with
  | .unit a => pure a
  | .single _ => fail (.wrongType .unitVariant "newtype variant")
  | .record _ => fail (.wrongType .unitVariant "struct variant")

def withValue (v : Variant α) (src : Source) (d : Doc) : Reading α :=
  match v.body with
  | .unit a => do
    readUnit d
    return a
  | .single read => read d
  | .record read =>
    if src = .value then
      match d with
      | array .. => mismatch d "struct variant"
      | object .. => read src d
      | d => mismatch d "struct variant"
    else read src d

def readName (d : Doc) : Reading String :=
  match untagged d with
  | string (some s) => pure s
  | scalar s => pure s.text
  | d => mismatch d "variant identifier"

/-- A tag chooses as a name does; the name may hold the whole tag if it stands alone. -/
def ofTag (vs : List (Variant α)) (name : String) (d : Doc) : Reading α := do
  (← select vs name).withValue .yaml d

def read (vs : List (Variant α)) (src : Source) (d : Doc) : Reading α :=
  match src, d with
  | _, string (some s) => do (← select vs s).alone
  | .text, object [] _ => throw .malformed
  | .text, object ((k, d) :: rest) closed => do
    let v ← select vs (← readName k)
    let a ← v.withValue src d
    if rest.isEmpty && closed then pure a else throw .malformed
  | .text, _ => throw .malformed
  | .yaml, tagged name d => ofTag vs name d
  | .yaml, scalar s => do (← select vs s.text).alone
  | .yaml, d => mismatch d "a tagged value"
  | _, object [(k, d)] _ => do
    let v ← select vs (← readName k)
    v.withValue src d
  | _, object .. => fail (.wrongValue .object "map with a single key")
  | _, d => mismatch d "string or map"

def units (all : List α) (name : α → String) : List (Variant α) :=
  all.map fun a => ⟨name a, .unit a⟩

end Variant

end Rollout.Doc
