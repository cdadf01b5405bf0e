import Rollout.Table

/-! JSON values. In a value that was read, the members of an object stand by ascending key, each key
once. -/

namespace Rollout

/-- A number is an integer of 64 bits where it can be, and a double otherwise. -/
inductive Json.Number
  | whole (n : UInt64)
  | negative (n : Int64)
  | float (x : Float)

inductive Json
  | null
  | bool (b : Bool)
  | number (n : Json.Number)
  | string (s : String)
  | array (items : List Json)
  | object (members : List (String × Json))

namespace Json

instance : Inhabited Json := ⟨null⟩

def nat (n : Nat) : Json := number (.whole n.toUInt64)

def id (n : UInt64) : Json := number (.whole n)

def int (n : Int64) : Json := number (if n < 0 then .negative n else .whole n.toUInt64)

def optional (f : α → Json) : Option α → Json
  | none => null
  | some a => f a

def list (f : α → Json) (xs : List α) : Json := array (xs.map f)

def text (s : Option String) : Json := optional string s

/-- The object of some members, the last one of a key winning. -/
def ofMembers (ms : List (String × Json)) : Json := object (Table.ofList ms)

def member? (v : Json) (k : String) : Option Json :=
  match v with
  | object ms => Table.find? ms k
  | _ => none

def string? : Json → Option String
  | string s => some s
  | _ => none

end Json

end Rollout
