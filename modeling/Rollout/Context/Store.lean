import Rollout.Graph.Basic
import Rollout.Json.Printer
import Rollout.Document.Fault

/-! Values that tasks leave for later ones. A key is written once in a run; a task sees a value only if
the task that wrote it comes before it. -/

namespace Rollout

structure Context.Entry where
  producer : TaskId
  value : Json

inductive Context.Fault
  | missing (key : String) (reader : TaskId)
  | unrelated (key : String) (producer reader : TaskId)
  | duplicate (key : String) (first second : TaskId)
  | undecodable (key : String) (why : Doc.Mismatch)

def Context.Fault.message : Context.Fault → String
  | missing key reader =>
    "Task " ++ toString reader.toNat ++ " read context key '" ++ key ++
      "' but no completed task produced it"
  | unrelated key producer reader =>
    "Task " ++ toString reader.toNat ++ " read context key '" ++ key ++ "' produced by task " ++
      toString producer.toNat ++ ", which is not upstream of it"
  | duplicate key first second =>
    "Context key '" ++ key ++ "' already written by task " ++ toString first.toNat ++ "; task " ++
      toString second.toNat ++ " tried to write it again"
  | undecodable key why => "Context key '" ++ key ++ "' could not be decoded: " ++ why.message

abbrev Context := Table String Context.Entry

/-- What one task leaves, by key. -/
abbrev Outputs := Table String Json

namespace Context

def write (c : Context) (key : String) (producer : TaskId) (value : Json) : Except Fault Context :=
  match Table.find? c key with
  | some e => .error (.duplicate key e.producer producer)
  | none => .ok (Table.insert c key ⟨producer, value⟩)

/-- Writes outputs in the order of their keys up to the first key that is taken; those before it stay
written. -/
def writeAll (c : Context) (producer : TaskId) : List (String × Json) → Context × Option Fault
  | [] => (c, none)
  | (key, value) :: rest =>
    match write c key producer value with
    | .error f => (c, some f)
    | .ok c => writeAll c producer rest

def read (g : Graph) (reader : TaskId) (c : Context) (key : String) : Except Fault Json :=
  match Table.find? c key with
  | none => .error (.missing key reader)
  | some e =>
    if g.isUpstream e.producer reader then .ok e.value
    else .error (.unrelated key e.producer reader)

def decode (key : String) (read : Doc.Source → Doc → Doc.Reading α) (v : Json) : Except Fault α :=
  match read .value (Doc.ofJson v) with
  | .ok a => .ok a
  | .error (.mismatch m) => .error (.undecodable key m)
  | .error .malformed => .error (.undecodable key (.wrongType .null "a value"))

end Context

end Rollout
