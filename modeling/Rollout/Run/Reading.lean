import Rollout.Run.Report
import Rollout.Plan.Reading

/-! Reading reports of runs. -/

namespace Rollout

open Doc

def TaskState.variants : List (Variant TaskState) := Variant.units all name

def Status.variants : List (Variant Status) := Variant.units all name

/-- An instant stands in a string. -/
def Doc.readInstant (d : Doc) : Reading Instant :=
  match untagged d with
  | string (some s) =>
    match Instant.read s with
    | .ok i => pure i
    | .error why => fail (.notInstant why)
  | d => mismatch d "an RFC 3339 formatted date and time string"

namespace Outcome

def fields :=
  Fields.cons (.needed "task_id" (plainly readWord)) <|
  .cons (.needed "kind" (Variant.read Kind.variants)) <|
  .cons (.needed "state" (Variant.read TaskState.variants)) <|
  .cons (.optional "diagnostic" readString) <|
  .cons (.optional "started_at" readInstant) <|
  .cons (.optional "finished_at" readInstant) .nil

def read (src : Source) (d : Doc) : Reading Outcome := do
  let (id, kind, state, diagnostic, startedAt, finishedAt, _) ←
    fields.read "struct TaskOutcome" src d
  return ⟨id, kind, state, diagnostic, startedAt, finishedAt⟩

end Outcome

namespace Report

def fields :=
  Fields.cons (.needed "run_id" (plainly readString)) <|
  .cons (.needed "namespace" (plainly readString)) <|
  .cons (.needed "status" (Variant.read Status.variants)) <|
  .cons (.needed "tasks" fun src => readList (Outcome.read src)) <|
  .cons (.needed "failed" (plainly (readList readWord))) <|
  .cons (.needed "skipped" (plainly (readList readWord))) <|
  .cons (.optional "abort_reason" readString) <|
  .cons (.needed "started_at" (plainly readInstant)) <|
  .cons (.needed "finished_at" (plainly readInstant)) .nil

def read (src : Source) (d : Doc) : Reading Report := do
  let (runId, name, status, tasks, failed, skipped, abortReason, startedAt, finishedAt, _) ←
    fields.read "struct PlanResult" src d
  return ⟨runId, name, status, tasks, failed, skipped, abortReason, startedAt, finishedAt⟩

def ofJson (s : String) : Reading Report := Doc.ofText (read .text) s

end Report

end Rollout
