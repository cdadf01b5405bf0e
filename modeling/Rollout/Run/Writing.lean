import Rollout.Run.Report

/-! The JSON form of reports. No field is left out, instants are written in universal time. -/

namespace Rollout

def Instant.toJson (i : Instant) : Json := .string i.render

def Outcome.toJson (o : Outcome) : Json :=
  .object [("task_id", .id o.id), ("kind", .string o.kind.name), ("state", .string o.state.name),
    ("diagnostic", .text o.diagnostic), ("started_at", .optional Instant.toJson o.startedAt),
    ("finished_at", .optional Instant.toJson o.finishedAt)]

def Report.toJson (r : Report) : Json :=
  .object [("run_id", .string r.runId), ("namespace", .string r.name),
    ("status", .string r.status.name), ("tasks", .list Outcome.toJson r.tasks),
    ("failed", .list .id r.failed), ("skipped", .list .id r.skipped),
    ("abort_reason", .text r.abortReason), ("started_at", r.startedAt.toJson),
    ("finished_at", r.finishedAt.toJson)]

end Rollout
