/-! Requests to cancel: a handle sets the flag that it shares with its signals. -/

namespace Rollout

/-- One flag for each pair of handles and signals made so far; handles and signals name a flag. -/
structure Cancellation where
  flags : List Bool
  handles : List Nat
  signals : List Nat
deriving Repr, DecidableEq

namespace Cancellation

def pair : Cancellation := ⟨[false], [0], [0]⟩

def cancel (c : Cancellation) (handle : Nat) : Cancellation :=
  match c.handles[handle]? with
  | none => c
  | some f => { c with flags := c.flags.set f true }

def cloneHandle (c : Cancellation) (handle : Nat) : Cancellation :=
  { c with handles := c.handles ++ (c.handles[handle]?).toList }

def cloneSignal (c : Cancellation) (signal : Nat) : Cancellation :=
  { c with signals := c.signals ++ (c.signals[signal]?).toList }

/-- A signal whose flag nobody can set. -/
def never (c : Cancellation) : Cancellation :=
  { c with flags := c.flags ++ [false], signals := c.signals ++ [c.flags.length] }

def dropHandles (c : Cancellation) : Cancellation := { c with handles := [] }

def isSet (c : Cancellation) (flag : Option Nat) : Bool := ((flag.bind (c.flags[·]?))).getD false

def handleCancelled (c : Cancellation) (handle : Nat) : Bool := c.isSet c.handles[handle]?

/-- Also whether waiting for the signal ends: a flag that is not set stays so while one waits. -/
def signalCancelled (c : Cancellation) (signal : Nat) : Bool := c.isSet c.signals[signal]?

end Cancellation

end Rollout
