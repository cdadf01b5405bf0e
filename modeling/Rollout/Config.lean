import Rollout.Backoff
import Rollout.Document.Variant
import Rollout.Yaml.Node

/-! Settings of a run: how many tasks at once, how calls are repeated, how long a run and a wait for a
phase may take. Durations are in milliseconds. -/

namespace Rollout

open Doc

structure RetryPolicy where
  maxAttempts : UInt32
  backoff : Backoff
  jitter : Bool

def RetryPolicy.standard : RetryPolicy := ⟨1, .standard, false⟩

structure PhaseWait where
  pollInterval : UInt64
  maxPolls : UInt32

def PhaseWait.standard : PhaseWait := ⟨500, 120⟩

structure Config where
  concurrencyLimit : UInt64
  retry : RetryPolicy
  deadline : Option UInt64
  phaseWait : PhaseWait

def Config.standard : Config := ⟨4, .standard, none, .standard⟩

inductive Config.Fault
  | noConcurrency
  | noTime
  | noPolls
  | noAttempts
  | shrinkingDelay
  | crossedDelays
deriving Repr, DecidableEq

def Config.Fault.message : Config.Fault → String
  | noConcurrency => "concurrency_limit must be at least 1"
  | noTime => "plan_deadline_ms must be greater than 0"
  | noPolls => "phase_wait.max_polls must be greater than 0"
  | noAttempts => "retry.max_attempts must be greater than 0"
  | shrinkingDelay => "retry.strategy.multiplier must be >= 1.0"
  | crossedDelays => "retry.strategy.initial_delay_ms cannot exceed max_delay_ms"

namespace RetryPolicy

def validate (p : RetryPolicy) : Except Config.Fault Unit :=
  if p.maxAttempts = 0 then throw .noAttempts
  else match p.backoff with
    | .exponential initial bound multiplier =>
      if multiplier < 1.0 then throw .shrinkingDelay
      else if bound < initial then throw .crossedDelays
      else pure ()
    | _ => pure ()

def exponentialFields :=
  Fields.cons (.needed "initial_delay_ms" (plainly readWord)) <|
  .cons (.needed "max_delay_ms" (plainly readWord)) <|
  .cons (.needed "multiplier" (plainly readFloat)) .nil

def linearFields := Fields.cons (.needed "delay_ms" (plainly readWord)) .nil

def readBackoff (src : Source) (d : Doc) : Reading Backoff :=
  Variant.read [
    ⟨"exponential", .record fun src d => do
      let (initial, bound, multiplier, _) ←
        exponentialFields.read "struct variant RetryStrategy::Exponential" src d
      return .exponential initial bound multiplier⟩,
    ⟨"linear", .record fun src d => do
      let (delay, _) ← linearFields.read "struct variant RetryStrategy::Linear" src d
      return .linear delay⟩,
    ⟨"immediate", .unit .immediate⟩] src d

def fields :=
  Fields.cons (.default "max_attempts" (plainly readHalfWord) standard.maxAttempts) <|
  .cons (.default "strategy" readBackoff standard.backoff) <|
  .cons (.default "jitter" (plainly readBool) standard.jitter) .nil

def read (src : Source) (d : Doc) : Reading RetryPolicy := do
  let (maxAttempts, backoff, jitter, _) ← fields.read "struct RetryPolicy" src d
  return ⟨maxAttempts, backoff, jitter⟩

end RetryPolicy

namespace PhaseWait

def fields :=
  Fields.cons (.default "poll_interval_ms" (plainly readWord) standard.pollInterval) <|
  .cons (.default "max_polls" (plainly readHalfWord) standard.maxPolls) .nil

def read (src : Source) (d : Doc) : Reading PhaseWait := do
  let (pollInterval, maxPolls, _) ← fields.read "struct PhaseWait" src d
  return ⟨pollInterval, maxPolls⟩

end PhaseWait

namespace Config

def fields :=
  Fields.cons (.default "concurrency_limit" (plainly readSize) standard.concurrencyLimit) <|
  .cons (.default "retry" RetryPolicy.read standard.retry) <|
  .cons (.default "plan_deadline_ms" (plainly (readOptional readWord)) standard.deadline) <|
  .cons (.default "phase_wait" PhaseWait.read standard.phaseWait) .nil

def read (src : Source) (d : Doc) : Reading Config := do
  let (concurrencyLimit, retry, deadline, phaseWait, _) ← fields.read "struct ExecutorConfig" src d
  return ⟨concurrencyLimit, retry, deadline, phaseWait⟩

def validate (c : Config) : Except Fault Unit :=
  if c.concurrencyLimit = 0 then throw .noConcurrency
  else if c.deadline = some 0 then throw .noTime
  else if c.phaseWait.maxPolls = 0 then throw .noPolls
  else c.retry.validate

/-- A deadline of whole milliseconds, within 64 bits. -/
def withDeadline (c : Config) (seconds nanos : Nat) : Config :=
  { c with deadline := some (min (seconds * 1000 + nanos / 1000000) (Nat.pow 2 64 - 1)).toUInt64 }

def ofYaml (s : String) : Reading Config := Doc.ofYaml (read .yaml) s

end Config

end Rollout
