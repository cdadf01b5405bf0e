import Rollout.Context.Store
import Rollout.Document.Variant

/-! Entries of a context as JSON. -/

namespace Rollout.Context.Entry

open Doc

def fields :=
  Fields.cons (.needed "producer" (plainly readWord)) <|
  .cons (.needed "value" (plainly readJson)) .nil

def read (src : Source) (d : Doc) : Reading Entry := do
  let (producer, value, _) ← fields.read "struct ContextEntry" src d
  return ⟨producer, value⟩

def toJson (e : Entry) : Json := .object [("producer", .id e.producer), ("value", e.value)]

end Rollout.Context.Entry
