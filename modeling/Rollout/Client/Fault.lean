/-! What a collaborator answers when a call fails. -/

namespace Rollout.Client

inductive FaultKind
  | rejected
  | notFound
  | alreadyExists
  | unavailable
  | timeout
  | internal
deriving Repr, DecidableEq

namespace FaultKind

def all : List FaultKind := [rejected, notFound, alreadyExists, unavailable, timeout, internal]

def name : FaultKind → String
  | rejected => "rejected"
  | notFound => "not_found"
  | alreadyExists => "already_exists"
  | unavailable => "unavailable"
  | timeout => "timeout"
  | internal => "internal"

def words : FaultKind → String
  | notFound => "not found"
  | alreadyExists => "already exists"
  | k => k.name

end FaultKind

structure Fault where
  kind : FaultKind
  operation : String
  detail : String
deriving Repr, DecidableEq

namespace Fault

def message (f : Fault) : String :=
  f.operation ++ " failed (" ++ f.kind.words ++ "): " ++ f.detail

def isTransient (f : Fault) : Bool := f.kind = .unavailable || f.kind = .timeout

def rejected (operation detail : String) : Fault := ⟨.rejected, operation, detail⟩

def unavailable (operation detail : String) : Fault := ⟨.unavailable, operation, detail⟩

end Fault

end Rollout.Client
